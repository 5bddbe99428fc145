import Ouroboros.Lib.Buffer
import Ouroboros.Netd.Conn

/-!
# netd: the frames of the cluster protocol

A request is `[len][magic][nonce][name][public key][signature][message]` (`AUTHNP03`), or on a keyed
session `[len][magic][seq][tag][message]` (`AUTHNP04`); a reply is `[len][status][result]` with a
signature or a tag put before its body.

* `Crypto`  the hash, MAC, signature and key agreement the frames rest on;
* `frameKeyedInPlace`, `verifyKeyed`  a keyed request built in the send buffer, and checked on the other side;
* `sealKeyed`, `verifyKeyedReply`  a keyed reply, and its check;
* `keySession`  the export's half of the key agreement.
-/

namespace Ouroboros.Netd

open Buffer

/-! ## Constants -/

def npNetLenPrefix : Nat := 4
def npNetMax : Nat := 48 + 2048
def npReqPayload : Nat := 48
def npNonceLen : Nat := 16
def npNameLen : Nat := 32
def npPubkeyLen : Nat := 32
def npSigLen : Nat := 64
def npSeqLen : Nat := 8
def npKeyedTagLen : Nat := 32
def npEphemeralLen : Nat := 32
def npSessionKeyLen : Nat := 32

def npAuthNonceOff : Nat := 8
def npAuthNameOff : Nat := 8 + npNonceLen
def npAuthPubkeyOff : Nat := 8 + npNonceLen + npNameLen
def npAuthSigOff : Nat := npAuthPubkeyOff + npPubkeyLen
def npAuthHdrSigned : Nat := 8 + npNonceLen + npNameLen + npPubkeyLen + npSigLen
def npAuthMagicSigned : Nat := 0x415554484E503033

def npKeyedSeqOff : Nat := 8
def npKeyedTagOff : Nat := 8 + npSeqLen
def npAuthHdrKeyed : Nat := 8 + npSeqLen + npKeyedTagLen
def npAuthMagicKeyed : Nat := 0x415554484E503034

def npSignedNpOff : Nat := npNetLenPrefix + npAuthHdrSigned
def npKeyedNpOff : Nat := npNetLenPrefix + npAuthHdrKeyed

def npBase : Nat := 0x100
def npOpen : Nat := npBase + 15
def npPread : Nat := npBase + 16
def npPwrite : Nat := npBase + 17
def npFstat : Nat := npBase + 18
def npClunk : Nat := npBase + 19
def npRun : Nat := npBase + 0x20
def npSession : Nat := npBase + 0x21

def u64Max : Nat := 2 ^ 64 - 1
def fsError : Nat := u64Max
def noFs : Nat := u64Max - 1
def taskErrNoSuchTask : Nat := u64Max - 14
def fsErrAuth : Nat := u64Max - 30
def fsErrBusy : Nat := u64Max - 40
def replyStale : Nat := u64Max - 43
def fsErrMin : Nat := u64Max - 45
def getIdErr : Nat := u64Max

def msgMaxLen : Nat := 768

def text (s : String) : Bytes := s.toUTF8.toList

def sigDomainRequest : Bytes := text "ouroboros-cluster-request-v1\x00"
def sigDomainReply : Bytes := text "ouroboros-cluster-reply-v1\x00"
def sigDomainSession : Bytes := text "ouroboros-cluster-session-v1\x00"
def sigDomainEphemeralC : Bytes := text "ouroboros-cluster-eph-c-v1\x00"

def readU64 (b : Bytes) (off : Nat) : Nat := ofLe (slice b off (off + 8))

/-- `u32::from_le_bytes` of the first four bytes. -/
def readLen (b : Bytes) : Nat := ofLe (slice b 0 4)

/-! ## Cryptography -/

/-- the functions of the `ed25519` crate, with the lengths their array types give them. -/
structure Crypto where
  hash : Bytes → Bytes
  hash_length : ∀ b, (hash b).length = 64
  hmac : Bytes → Bytes → Bytes
  hmac_length : ∀ key b, (hmac key b).length = 64
  x25519Public : Bytes → Bytes
  x25519Public_length : ∀ secret, (x25519Public secret).length = npEphemeralLen
  /-- `none` is the all-zero shared secret of a small-order point. -/
  x25519Shared : Bytes → Bytes → Option Bytes
  signingPublic : Bytes → Bytes
  signingPublic_length : ∀ seed, (signingPublic seed).length = npPubkeyLen
  signPrefixed : Bytes → Bytes → Bytes → Bytes
  signPrefixed_length : ∀ seed pfx msg, (signPrefixed seed pfx msg).length = npSigLen
  verifyPrefixed : Bytes → Bytes → Bytes → Bytes → Bool

/-- X25519 agreement: either side's secret with the other's public key gives the same answer. -/
def Crypto.Agrees (cr : Crypto) : Prop :=
  ∀ a b, cr.x25519Shared a (cr.x25519Public b) = cr.x25519Shared b (cr.x25519Public a)

structure Auth where
  noexec : Bool
  /-- the seed of `Identity`, whose key is made from it. -/
  signing : Option Bytes
  /-- `authorized[..authorized_len]`. -/
  authorized : Bytes

def Auth.canSend (auth : Auth) : Bool := auth.signing.isSome

/-! ## Keyed frames -/

variable (cr : Crypto)

def keyedTag (key : Bytes) (seq : Nat) (data : Bytes) : Bytes :=
  (cr.hmac key (le 8 seq ++ data)).take npKeyedTagLen

def nextSeq (seq : Nat) : Option Nat := if seq < u64Max then some (seq + 1) else none

/-- `frame_keyed_in_place`: the framed length, the number spent and the buffer; `none` where the
source returns 0 and changes nothing. -/
def frameKeyedInPlace (kC2s : Bytes) (lastSeq src npLen : Nat) (out : Bytes) : Option (Nat × Nat × Bytes) :=
  if max src npKeyedNpOff + npLen > out.length ∨ npLen > npNetMax then none
  else
    match nextSeq lastSeq with
    | none => none
    | some seq =>
      let out :=
        if src ≠ npKeyedNpOff then put out npKeyedNpOff (slice out src (src + npLen)) else out
      let tag := keyedTag cr kC2s seq (slice out npKeyedNpOff (npKeyedNpOff + npLen))
      let body := npAuthHdrKeyed + npLen
      let out := put out 0 (le 4 body)
      let out := put out npNetLenPrefix (le 8 npAuthMagicKeyed)
      let out := put out (npNetLenPrefix + npKeyedSeqOff) (le 8 seq)
      let out := put out (npNetLenPrefix + npKeyedTagOff) tag
      some (npNetLenPrefix + body, seq, out)

/-- `verify_keyed`: the number of an accepted request, where its message ends and the session with the
number spent, or the line to log before closing. -/
def verifyKeyed (k : KeyedSession) (request : Bytes) : Except Bytes (Nat × Nat × KeyedSession) :=
  let need := npNetLenPrefix + npAuthHdrKeyed
  if request.length < need ∨ readU64 request npNetLenPrefix ≠ npAuthMagicKeyed then
    .error (text "netd: 9p: keyed session: a frame that is not AUTHNP04; closing\r\n")
  else
    let stop := npNetLenPrefix + readLen request
    if stop < need ∨ stop > request.length then
      .error (text "netd: 9p: keyed session: a frame whose length its segment does not hold; closing\r\n")
    else
      let request := request.take stop
      let seq := readU64 request (npNetLenPrefix + npKeyedSeqOff)
      if some seq ≠ nextSeq k.seq then
        .error (text "netd: 9p: keyed session: seq out of order (a replay or an injection); closing\r\n")
      else
        let toff := npNetLenPrefix + npKeyedTagOff
        let expect := keyedTag cr k.kC2s seq (request.drop need)
        if slice request toff (toff + npKeyedTagLen) ≠ expect then
          .error (text "netd: 9p: keyed session: a request tag did not verify; closing\r\n")
        else .ok (seq, stop, { k with seq := seq })

/-! ## Replies -/

def frameReply (cap status : Nat) (data : Bytes) : Bytes :=
  let data := data.take (cap - (npNetLenPrefix + 8))
  le 4 (8 + data.length) ++ le 8 status ++ data

/-- a sealed reply: the seal before the body, and the length of both. -/
def sealed (mark body : Bytes) : Bytes := le 4 (body.length + mark.length) ++ mark ++ body

/-- `seal_keyed` of the framed reply `framed` in `c.prefix`. -/
def sealKeyed (keyed : Option KeyedSession) (seq : Nat) (framed : Bytes) : Bytes :=
  let framed :=
    if framed.length < npNetLenPrefix ∨ framed.length + npKeyedTagLen > prefixMax then
      frameReply prefixMax fsErrAuth []
    else framed
  match keyed with
  | none => frameReply prefixMax fsErrAuth []
  | some k =>
    let body := framed.drop npNetLenPrefix
    sealed (keyedTag cr k.kS2c seq body) body

/-- `verify_keyed_reply` of the bytes received: where status and result stand. -/
def verifyKeyedReply (resp kS2c : Bytes) (seq : Nat) : Option (Nat × Nat) :=
  if resp.length < npNetLenPrefix then none
  else
    let bodyLen := readLen resp
    if bodyLen < npKeyedTagLen + 8 ∨ npNetLenPrefix + bodyLen > resp.length then none
    else
      let body := slice resp npNetLenPrefix (npNetLenPrefix + bodyLen)
      if body.take npKeyedTagLen ≠ keyedTag cr kS2c seq (body.drop npKeyedTagLen) then none
      else some (npNetLenPrefix + npKeyedTagLen, bodyLen - npKeyedTagLen)

/-- `verify_sealed` of the bytes received: where status and result stand. -/
def verifySealed (resp nonce expectKey : Bytes) : Option (Nat × Nat) :=
  if resp.length < npNetLenPrefix + 8 then none
  else
    let body := slice resp npNetLenPrefix (min (npNetLenPrefix + readLen resp) resp.length)
    if body.length < npSigLen + 8 then none
    else if !cr.verifyPrefixed expectKey (sigDomainReply ++ nonce) (body.drop npSigLen)
      (body.take npSigLen) then none
    else some (npNetLenPrefix + npSigLen, body.length - npSigLen)

/-! ## Key agreement -/

/-- what an ephemeral secret is made of besides the seed: clock and entropy. -/
structure Entropy where
  us : Nat
  boot : Bytes
  random : Bytes

def ephemeralSecret (domain seed : Bytes) (boot : Nat) (nonce : Bytes) (e : Entropy) : Bytes :=
  (cr.hash (domain ++ seed ++ le 8 boot ++ nonce ++ le 8 e.us ++ e.boot ++ e.random)).take 32

def sessionHash (shared nonce ephClient ephExport : Bytes) : Bytes :=
  cr.hash (sigDomainSession ++ shared ++ nonce ++ ephClient ++ ephExport)

/-- `key_session` with its ephemeral secret: the public key to answer with and the session. -/
def keySession (secret nonce ephClient : Bytes) (user : Proxy) : Option (Bytes × KeyedSession) :=
  let ephExport := cr.x25519Public secret
  match cr.x25519Shared secret ephClient with
  | none => none
  | some shared =>
    let k := sessionHash cr shared nonce ephClient ephExport
    some (ephExport,
      { kC2s := k.take npSessionKeyLen
        kS2c := slice k npSessionKeyLen (2 * npSessionKeyLen)
        seq := 0
        user := user })

/-! ## Signed frames -/

/-- `frame_signed_in_place`: the framed length, the nonce and the buffer, or `none` where the source returns
0; `us` and `ip` are the clock and this machine's address. -/
def frameSignedInPlace (auth : Auth) (who : Bytes) (npLen us : Nat) (ip out : Bytes) :
    Option (Nat × Bytes × Bytes) :=
  match auth.signing with
  | none => none
  | some seed =>
    let body := npAuthHdrSigned + npLen
    let total := npNetLenPrefix + body
    if total > out.length ∨ npLen > npNetMax then none
    else
      let nonce := le 8 us ++ le 8 (ofLe ip)
      let out := put out 0 (le 4 body)
      let out := put out npNetLenPrefix (le 8 npAuthMagicSigned)
      let out := put out (npNetLenPrefix + npAuthNonceOff) nonce
      let out := put out (npNetLenPrefix + npAuthNameOff) who
      let out := put out (npNetLenPrefix + npAuthPubkeyOff) (cr.signingPublic seed)
      let np := slice out npSignedNpOff (npSignedNpOff + npLen)
      let sig := cr.signPrefixed seed (sigDomainRequest ++ nonce ++ who) np
      some (total, nonce, put out (npNetLenPrefix + npAuthSigOff) sig)

/-- `frame_signed`: the same for a message elsewhere. -/
def frameSigned (auth : Auth) (who np : Bytes) (us : Nat) (ip out : Bytes) : Option (Nat × Bytes × Bytes) :=
  if npSignedNpOff + np.length > out.length then none
  else frameSignedInPlace cr auth who np.length us ip (put out npSignedNpOff np)

end Ouroboros.Netd
