import Ouroboros.Netd.Wire

/-!
# netd: keyed sessions, both ends

The client (`Wire`, `phaseTwo`, `frameKeyedInPlace`, `verifyKeyedReply`) and the export (`keySession`,
`verifyKeyed`, `sealKeyed`) of one session.

* `keyedFrame`  the bytes of a request, `frameKeyedInPlace_take`;
* `Ends`, `Ends.run`  exchange after exchange, both ends counting together.
-/

namespace Ouroboros.Netd

open Buffer List Nat

variable (cr : Crypto) {seq src npLen : Nat} {out : Bytes}

theorem length_keyedTag (key : Bytes) (seq : Nat) (data : Bytes) :
    (keyedTag cr key seq data).length = npKeyedTagLen := by
  rw [keyedTag, length_take, cr.hmac_length]
  rfl

theorem nextSeq_eq_some {next : Nat} (h : nextSeq seq = some next) : next = seq + 1 ∧ next ≤ u64Max := by
  unfold nextSeq at h
  split at h
  · cases h
    exact ⟨rfl, by omega⟩
  · cases h

theorem readLen_le {n : Nat} (h : n < 2 ^ 32) (rest : Bytes) : readLen (le 4 n ++ rest) = n := by
  have hfull := slice_full (le 4 n)
  rw [length_le] at hfull
  rw [readLen, slice_append_left rest (by simp), hfull, ofLe_le (by omega)]

/-! ## Requests -/

def keyedHead (len seq : Nat) : Bytes := le 4 (npAuthHdrKeyed + len) ++ le 8 npAuthMagicKeyed ++ le 8 seq

def keyedFrame (kC2s : Bytes) (seq : Nat) (np : Bytes) : Bytes :=
  keyedHead np.length seq ++ keyedTag cr kC2s seq np ++ np

theorem length_keyedHead (len seq : Nat) : (keyedHead len seq).length = 20 := by
  simp [keyedHead]

theorem put_header {tag : Bytes} (len seq : Nat) (hout : npKeyedNpOff ≤ out.length)
    (htag : tag.length = npKeyedTagLen) :
    let o :=
      put (put (put (put out 0 (le 4 (npAuthHdrKeyed + len))) 4 (le 8 npAuthMagicKeyed)) 12 (le 8 seq)) 20 tag
    o.take npKeyedNpOff = keyedHead len seq ++ tag ∧ o.drop npKeyedNpOff = out.drop npKeyedNpOff := by
  have hoff : npKeyedNpOff = 52 := rfl
  have htag : tag.length = 32 := htag
  rw [hoff] at hout ⊢
  set o1 := put out 0 (le 4 (npAuthHdrKeyed + len)) with ho1
  set o2 := put o1 4 (le 8 npAuthMagicKeyed) with ho2
  set o3 := put o2 12 (le 8 seq) with ho3
  have l1 : o1.length = out.length := length_put (by simp; omega)
  have l2 : o2.length = out.length := (length_put (by simp; omega)).trans l1
  have l3 : o3.length = out.length := (length_put (by simp; omega)).trans l2
  refine ⟨?_, ?_⟩
  · have h3 : o3.take 20 = keyedHead len seq := by
      rw [ho3, take_put (by omega) (by simp), ho2, take_put (by omega) (by simp), ho1,
        take_put (by omega) (by simp)]
      simp [keyedHead]
    rw [take_put (by omega) (by omega), h3]
  · rw [drop_put (by omega) (by omega), ho3, drop_put (by omega) (by simp), ho2,
      drop_put (by omega) (by simp), ho1, drop_put (by omega) (by simp)]

/-- the message moved to its place, before the header is written over what is in front of it. -/
def moved (src npLen : Nat) (out : Bytes) : Bytes :=
  if src ≠ npKeyedNpOff then put out npKeyedNpOff (slice out src (src + npLen)) else out

theorem moved_spec (h : max src npKeyedNpOff + npLen ≤ out.length) : (moved src npLen out).length = out.length ∧
      slice (moved src npLen out) npKeyedNpOff (npKeyedNpOff + npLen) = slice out src (src + npLen) := by
  have hlen : (slice out src (src + npLen)).length = npLen := by
    rw [length_slice (by omega)]
    omega
  unfold moved
  split
  · refine ⟨length_put (by omega), ?_⟩
    rw [slice, take_put (by omega) (by omega), drop_left' (by rw [length_take, min_eq_left (by omega)])]
  next hsrc =>
  rw [not_not] at hsrc
  exact ⟨rfl, by rw [hsrc]⟩

/-- **what `frame_keyed_in_place` builds**: the next number's frame of the message. -/
theorem frameKeyedInPlace_eq_some {kC2s out' : Bytes} {lastSeq total : Nat}
    (h : frameKeyedInPlace cr kC2s lastSeq src npLen out = some (total, seq, out')) :
    nextSeq lastSeq = some seq ∧ (slice out src (src + npLen)).length ≤ npNetMax ∧
      out'.take total = keyedFrame cr kC2s seq (slice out src (src + npLen)) := by
  unfold frameKeyedInPlace at h
  split at h
  · cases h
  next hfit =>
  rw [not_or, not_lt, not_lt] at hfit
  obtain ⟨hroom, hmax⟩ := hfit
  have hlen : (slice out src (src + npLen)).length = npLen := by
    rw [length_slice (by omega)]
    omega
  obtain ⟨hml, hmsg⟩ := moved_spec hroom
  cases hseq : nextSeq lastSeq with
  | none =>
    simp only [hseq] at h
    cases h
  | some next =>
    simp only [hseq, Option.some.injEq, Prod.mk.injEq] at h
    obtain ⟨rfl, rfl, rfl⟩ := h
    refine ⟨rfl, hlen.trans_le hmax, ?_⟩
    have htotal : npNetLenPrefix + (npAuthHdrKeyed + npLen) = npKeyedNpOff + npLen :=
      (add_assoc npNetLenPrefix npAuthHdrKeyed npLen).symm
    rw [htotal]
    change take (npKeyedNpOff + npLen) (put (put (put (put (moved src npLen out) 0 _) 4 _) 12 _) 20
      (keyedTag cr kC2s next (slice (moved src npLen out) npKeyedNpOff (npKeyedNpOff + npLen)))) = _
    rw [hmsg]
    obtain ⟨htake, hdrop⟩ := put_header npLen next (show npKeyedNpOff ≤ (moved src npLen out).length by omega)
      (length_keyedTag cr kC2s next (slice out src (src + npLen)))
    rw [take_add, htake, hdrop, keyedFrame, hlen, ← hmsg, slice, drop_take, Nat.add_sub_cancel_left]

section Fields
variable (kC2s : Bytes) (seq : Nat) (np : Bytes)

theorem readLen_keyedFrame (h : np.length ≤ npNetMax) :
    readLen (keyedFrame cr kC2s seq np) = npAuthHdrKeyed + np.length := by
  have hfit : npAuthHdrKeyed + np.length < 2 ^ 32 := by
    have hmax : npNetMax = 2096 := rfl
    have hhdr : npAuthHdrKeyed = 48 := rfl
    omega
  have hsplit : keyedFrame cr kC2s seq np = le 4 (npAuthHdrKeyed + np.length) ++
      (le 8 npAuthMagicKeyed ++ (le 8 seq ++ (keyedTag cr kC2s seq np ++ np))) := by
    simp [keyedFrame, keyedHead]
  rw [hsplit, readLen_le hfit]

theorem magic_keyedFrame : readU64 (keyedFrame cr kC2s seq np) npNetLenPrefix = npAuthMagicKeyed := by
  have hsplit : keyedFrame cr kC2s seq np = le 4 (npAuthHdrKeyed + np.length) ++ le 8 npAuthMagicKeyed ++
        (le 8 seq ++ (keyedTag cr kC2s seq np ++ np)) := by
    simp [keyedFrame, keyedHead]
  rw [readU64, hsplit, slice_mid _ (by simp; rfl) (by simp; rfl), ofLe_le (by decide)]

theorem seq_keyedFrame (h : seq ≤ u64Max) :
    readU64 (keyedFrame cr kC2s seq np) (npNetLenPrefix + npKeyedSeqOff) = seq := by
  have hfit : seq < 256 ^ 8 := by
    have hmax : u64Max = 2 ^ 64 - 1 := rfl
    omega
  have hsplit : keyedFrame cr kC2s seq np =
      (le 4 (npAuthHdrKeyed + np.length) ++ le 8 npAuthMagicKeyed) ++ le 8 seq ++
        (keyedTag cr kC2s seq np ++ np) := by
    simp [keyedFrame, keyedHead]
  rw [readU64, hsplit, slice_mid _ (by simp; rfl) (by simp; rfl), ofLe_le hfit]

theorem tag_keyedFrame : slice (keyedFrame cr kC2s seq np) (npNetLenPrefix + npKeyedTagOff)
      (npNetLenPrefix + npKeyedTagOff + npKeyedTagLen) = keyedTag cr kC2s seq np :=
  slice_mid _ (by rw [length_keyedHead]; rfl) (by rw [length_keyedHead, length_keyedTag]; rfl)

theorem drop_keyedFrame : (keyedFrame cr kC2s seq np).drop npKeyedNpOff = np := by
  rw [keyedFrame]
  exact drop_left' (by rw [length_append, length_keyedHead, length_keyedTag]; rfl)

end Fields

/-- the message bytes of an accepted request that ends at `stop`. -/
def keyedMessage (request : Bytes) (stop : Nat) : Bytes := slice request npKeyedNpOff stop

variable {x : Exchange} {nonce ephExport : Bytes} {user : Proxy} {k : KeyedSession}

/-- **The export takes the next number's frame as exactly its message.** -/
theorem verifyKeyed_keyedFrame (k : KeyedSession) (np : Bytes) (hlen : np.length ≤ npNetMax)
    (hseq : nextSeq k.seq = some seq) :
    ∃ stop, verifyKeyed cr k (keyedFrame cr k.kC2s seq np) = .ok (seq, stop, { k with seq := seq }) ∧
      keyedMessage (keyedFrame cr k.kC2s seq np) stop = np := by
  set f := keyedFrame cr k.kC2s seq np with hf
  have hflen : f.length = npKeyedNpOff + np.length := by
    simp only [hf, keyedFrame, length_append, length_keyedHead, length_keyedTag]
    rfl
  have hread : readLen f = npAuthHdrKeyed + np.length := readLen_keyedFrame cr k.kC2s seq np hlen
  have hstop : npNetLenPrefix + readLen f = f.length := by
    rw [hread, hflen]
    exact (add_assoc npNetLenPrefix npAuthHdrKeyed np.length).symm
  have hneed : npNetLenPrefix + npAuthHdrKeyed ≤ f.length := by
    rw [hflen]
    exact le_add_right _ _
  have hnum : readU64 f (npNetLenPrefix + npKeyedSeqOff) = seq :=
    seq_keyedFrame cr k.kC2s seq np (nextSeq_eq_some hseq).2
  have hdrop : f.drop (npNetLenPrefix + npAuthHdrKeyed) = np := drop_keyedFrame cr k.kC2s seq np
  refine ⟨f.length, ?_, ?_⟩
  · unfold verifyKeyed
    simp only [hstop, take_length, hnum, hdrop]
    rw [if_neg (not_or.2 ⟨hneed.not_gt, not_not.2 (magic_keyedFrame cr k.kC2s seq np)⟩),
      if_neg (not_or.2 ⟨hneed.not_gt, lt_irrefl _⟩), if_neg (not_not.2 hseq.symm),
      if_neg (not_not.2 (tag_keyedFrame cr k.kC2s seq np))]
  · rw [keyedMessage, slice, take_length]
    exact hdrop

/-! ## Replies -/

/-- the framed reply `seal_keyed` seals: the one it is given, or a refusal where the tag has no room. -/
def sealable (framed : Bytes) : Bytes :=
  if framed.length + npKeyedTagLen > prefixMax then frameReply prefixMax fsErrAuth [] else framed

def replyBody (framed : Bytes) : Bytes := framed.drop npNetLenPrefix

theorem replyBody_frameReply (status : Nat) (data : Bytes) : replyBody (frameReply prefixMax status data) =
      le 8 status ++ data.take (prefixMax - (npNetLenPrefix + 8)) := by
  rw [replyBody, frameReply, append_assoc]
  exact drop_left' (by simp; rfl)

/-- **The client takes a sealed reply as exactly the status and result that were sealed.** -/
theorem verifyKeyedReply_sealed (kS2c : Bytes) (seq : Nat) {body : Bytes} (hmin : 8 ≤ body.length)
    (hmax : body.length + npKeyedTagLen < 2 ^ 32) :
    ∃ start len, verifyKeyedReply cr (sealed (keyedTag cr kS2c seq body) body) kS2c seq = some (start, len) ∧
        slice (sealed (keyedTag cr kS2c seq body) body) start (start + len) = body := by
  set mark := keyedTag cr kS2c seq body with hmark
  set f := sealed mark body with hf
  have hm : mark.length = npKeyedTagLen := length_keyedTag cr kS2c seq body
  have htl : npKeyedTagLen = 32 := rfl
  have hpl : npNetLenPrefix = 4 := rfl
  have hread : readLen f = body.length + mark.length := by
    rw [hf, sealed, append_assoc]
    exact readLen_le (by omega) _
  have hflen : f.length = 4 + (body.length + mark.length) := by
    rw [hf, sealed]
    simp
    omega
  have hbody : slice f npNetLenPrefix (npNetLenPrefix + (body.length + mark.length)) = mark ++ body := by
    have hsplit : f = le 4 (body.length + mark.length) ++ (mark ++ body) ++ [] := by
      simp [hf, sealed]
    rw [hsplit]
    exact slice_mid [] (by simp; rfl) (by simp [hpl]; omega)
  refine ⟨npNetLenPrefix + npKeyedTagLen, body.length + mark.length - npKeyedTagLen, ?_, ?_⟩
  · unfold verifyKeyedReply
    simp only [hread, hbody]
    rw [if_neg (by omega), if_neg (by omega), if_neg]
    rw [not_not, ← hm, take_left, drop_left]
  · have hsplit : f = le 4 (body.length + mark.length) ++ mark ++ body ++ [] := by
      simp [hf, sealed]
    rw [hsplit]
    exact slice_mid [] (by simp [hm]; omega) (by simp [hm]; omega)

/-- what a reply of `status` and `data` is taken as: itself, or a refusal where the tag has no room. -/
def answered (status : Nat) (data : Bytes) : Bytes :=
  if npNetLenPrefix + 8 + data.length + npKeyedTagLen ≤ prefixMax then le 8 status ++ data
  else le 8 fsErrAuth

theorem replyBody_sealable (status : Nat) (data : Bytes) :
    replyBody (sealable (frameReply prefixMax status data)) = answered status data := by
  have hcap : prefixMax - (npNetLenPrefix + 8) = 2036 := rfl
  have hlen : (frameReply prefixMax status data).length = 12 + min 2036 data.length := by
    simp only [frameReply, length_append, length_le, length_take, hcap]
  have hp : prefixMax = 2048 := rfl
  have ht : npKeyedTagLen = 32 := rfl
  have hn : npNetLenPrefix = 4 := rfl
  unfold answered sealable
  by_cases hroom : npNetLenPrefix + 8 + data.length + npKeyedTagLen ≤ prefixMax
  · rw [if_pos hroom, if_neg (by omega), replyBody_frameReply, take_of_length_le (by omega)]
  · rw [if_neg hroom, if_pos (by omega), replyBody_frameReply, take_nil, append_nil]

theorem length_answered (status : Nat) (data : Bytes) :
    8 ≤ (answered status data).length ∧ (answered status data).length + npKeyedTagLen < 2 ^ 32 := by
  have hp : prefixMax = 2048 := rfl
  have ht : npKeyedTagLen = 32 := rfl
  unfold answered
  split
  · rw [length_append, length_le]
    omega
  · rw [length_le]
    omega

theorem sealKeyed_frameReply (k : KeyedSession) (seq status : Nat) (data : Bytes) :
    sealKeyed cr (some k) seq (frameReply prefixMax status data) =
      sealed (keyedTag cr k.kS2c seq (answered status data)) (answered status data) := by
  have hlong : ¬ (frameReply prefixMax status data).length < npNetLenPrefix := by
    have hn : npNetLenPrefix = 4 := rfl
    simp only [frameReply, length_append, length_le]
    omega
  rw [← replyBody_sealable]
  simp only [sealKeyed, hlong, false_or]
  rfl

/-! ## Exchanges -/

/-- the two ends of a session: the client's keys and last number, and the export's record. -/
structure Ends where
  kC2s : Bytes
  kS2c : Bytes
  seq : Nat
  session : KeyedSession
deriving DecidableEq, Repr

/-- a request of `npLen` bytes at `src` of the client's buffer, and what the export answers. -/
structure Exchange where
  src : Nat
  npLen : Nat
  out : Bytes
  status : Nat
  data : Bytes

def Exchange.np (x : Exchange) : Bytes := slice x.out x.src (x.src + x.npLen)

/-- the request fits the client's buffer and the protocol's limit. -/
def Exchange.Fits (x : Exchange) : Prop := max x.src npKeyedNpOff + x.npLen ≤ x.out.length ∧ x.npLen ≤ npNetMax

inductive Exchanged where
  /-- `frame_keyed_in_place` built nothing. -/
  | unsent
  /-- `verify_keyed` closed the connection. -/
  | refused
  /-- `verify_keyed_reply` did not accept the answer. -/
  | unanswered
  /-- the number and message the export took, and what the client took as its answer. -/
  | done (seq : Nat) (message reply : Bytes)
deriving DecidableEq, Repr

def Ends.exchange (e : Ends) (x : Exchange) : Exchanged × Ends :=
  match frameKeyedInPlace cr e.kC2s e.seq x.src x.npLen x.out with
  | none => (.unsent, e)
  | some (total, sent, out) =>
    let request := out.take total
    match verifyKeyed cr e.session request with
    | .error _ => (.refused, { e with seq := sent })
    | .ok (seq, stop, session) =>
      let resp := sealKeyed cr (some session) seq (frameReply prefixMax x.status x.data)
      let e := { e with seq := sent, session := session }
      match verifyKeyedReply cr resp e.kS2c e.seq with
      | none => (.unanswered, e)
      | some (start, len) =>
        (.done seq (keyedMessage request stop) (slice resp start (start + len)), e)

def Ends.run (e : Ends) : List Exchange → List (Exchanged × Ends)
  | [] => []
  | x :: xs => e.exchange cr x :: (e.exchange cr x).2.run xs

/-- both ends of the session `k` at number `n`. -/
def Ends.level (k : KeyedSession) (n : Nat) : Ends := ⟨k.kC2s, k.kS2c, n, { k with seq := n }⟩

/-- the outcome of an exchange at number `n`: done at the next one, or unsent when none is left. -/
def outcomeAt (k : KeyedSession) (n : Nat) (x : Exchange) : Exchanged × Ends :=
  if n < u64Max then (.done (n + 1) x.np (answered x.status x.data), .level k (n + 1))
  else (.unsent, .level k n)

theorem frameKeyedInPlace_fits (kC2s : Bytes) (n : Nat) (hx : x.Fits) :
    (frameKeyedInPlace cr kC2s n x.src x.npLen x.out).isSome = decide (n < u64Max) := by
  have hfit : ¬ (max x.src npKeyedNpOff + x.npLen > x.out.length ∨ x.npLen > npNetMax) :=
    not_or.2 ⟨hx.1.not_gt, hx.2.not_gt⟩
  unfold frameKeyedInPlace nextSeq
  rw [if_neg hfit]
  by_cases hn : n < u64Max
  · simp [hn]
  · simp [hn]

/-- **One exchange between ends at one number**: the message and the answer arrive exactly, and both
ends are at one number again. -/
theorem Ends.exchange_level (k : KeyedSession) (n : Nat) (hx : x.Fits) :
    (Ends.level k n).exchange cr x = outcomeAt k n x := by
  have hsome := frameKeyedInPlace_fits cr k.kC2s n hx
  unfold outcomeAt
  cases hframe : frameKeyedInPlace cr k.kC2s n x.src x.npLen x.out with
  | none =>
    rw [hframe] at hsome
    have hn : ¬ n < u64Max := by simpa using hsome.symm
    rw [if_neg hn]
    simp only [Ends.exchange, Ends.level, hframe]
  | some f =>
    obtain ⟨total, sent, out⟩ := f
    rw [hframe] at hsome
    have hn : n < u64Max := by simpa using hsome.symm
    obtain ⟨hseq, hlen, htake⟩ := frameKeyedInPlace_eq_some cr hframe
    obtain ⟨stop, hverify, hmsg⟩ := verifyKeyed_keyedFrame cr { k with seq := n } x.np hlen hseq
    obtain ⟨hmin, hmax⟩ := length_answered x.status x.data
    obtain ⟨start, len, hreply, hbody⟩ := verifyKeyedReply_sealed cr k.kS2c sent hmin hmax
    rw [if_pos hn]
    obtain rfl := (nextSeq_eq_some hseq).1
    change out.take total = keyedFrame cr k.kC2s (n + 1) x.np at htake
    simp only [Ends.exchange, Ends.level, hframe, htake, hverify, sealKeyed_frameReply, hreply, hmsg, hbody]

/-- **Whole runs**: the `i`-th exchange is done at the `i`-th number after `n`, up to the last there is. -/
theorem Ends.run_level (k : KeyedSession) {n : Nat} (hn : n ≤ u64Max) {xs : List Exchange}
    (hxs : ∀ x ∈ xs, x.Fits) :
    (Ends.level k n).run cr xs = xs.mapIdx fun i x => outcomeAt k (min (n + i) u64Max) x := by
  induction xs generalizing n with
  | nil => rfl
  | cons x xs ih =>
    have hstep := Ends.exchange_level cr k n (hxs x mem_cons_self)
    have hlevel : (outcomeAt k n x).2 = Ends.level k (min (n + 1) u64Max) := by
      unfold outcomeAt
      split
      · rw [min_eq_left (by omega)]
      · rw [min_eq_right (by omega), show n = u64Max by omega]
    rw [Ends.run, hstep, hlevel, ih (min_le_right _ _) fun y hy => hxs y (mem_cons_of_mem _ hy),
      mapIdx_cons, show min (n + 0) u64Max = n by omega]
    have hnext : ∀ i, min (min (n + 1) u64Max + i) u64Max = min (n + (i + 1)) u64Max := by
      intro i
      omega
    simp only [hnext]

/-! ## Agreement -/

theorem keySession_eq_some {secret ephClient : Bytes}
    (h : keySession cr secret nonce ephClient user = some (ephExport, k)) :
    ephExport = cr.x25519Public secret ∧ k.seq = 0 ∧ ∃ shared, cr.x25519Shared secret ephClient = some shared ∧
        k.kC2s = (sessionHash cr shared nonce ephClient ephExport).take npSessionKeyLen ∧
        k.kS2c = slice (sessionHash cr shared nonce ephClient ephExport) npSessionKeyLen
          (2 * npSessionKeyLen) := by
  unfold keySession at h
  split at h
  · cases h
  next shared hshared =>
  cases h
  exact ⟨rfl, rfl, shared, hshared, rfl, rfl⟩

/-- the wire once its keys are derived, before the held request is framed. -/
def keyedWire (c : Wire) (opener : Bytes) (k : KeyedSession) : Wire :=
  { c with held := [], keys := some ⟨opener, .keyed k.kC2s k.kS2c 0⟩ }

/-- the held request framed under the derived keys, as the end of `phase_two` does. -/
def phaseTwoFrame (c : Wire) (opener : Bytes) (k : KeyedSession) : Wire × Except Nat (Nat × Bytes) :=
  if npKeyedNpOff + c.held.length > c.sbuf.length then (keyedWire c opener k, .error fsErrAuth)
  else
    let sbuf := put c.sbuf npKeyedNpOff c.held
    match frameKeyedInPlace cr k.kC2s 0 npKeyedNpOff c.held.length sbuf with
    | none => ({ keyedWire c opener k with sbuf := sbuf }, .error fsErrAuth)
    | some (total, seq, out) =>
      ({ keyedWire c opener k with sbuf := out, keys := some ⟨opener, .keyed k.kC2s k.kS2c seq⟩ },
        .ok (total, zeroNonce))

/-- **`phase_two` on the export's key derives the export's keys.** -/
theorem phaseTwo_keyed (hagree : cr.Agrees) {a b opener : Bytes}
    (hkey : keySession cr b nonce (cr.x25519Public a) user = some (ephExport, k))
    (auth : Auth) (m : Signer) {c : Wire} (hc : c.keys = some ⟨opener, .offered a (cr.x25519Public a)⟩)
    (who : Bytes) : phaseTwo cr auth m c who nonce ephExport = phaseTwoFrame cr c opener k := by
  obtain ⟨rfl, -, shared, hshared, hc2s, hs2c⟩ := keySession_eq_some cr hkey
  have hlen : (cr.x25519Public b).length = npEphemeralLen := cr.x25519Public_length b
  have hne : (cr.x25519Public b).length ≠ 0 := by rw [hlen]; decide
  have hclient : cr.x25519Shared a (cr.x25519Public b) = some shared := (hagree a b).trans hshared
  simp only [phaseTwo, hc]
  rw [if_neg hne, if_neg (not_not.2 hlen)]
  simp only [phaseTwoKeyed, hclient, ← hc2s, ← hs2c]
  rfl

/-- **Keyed sessions interoperate and count together.** -/
theorem keyed_interop (hagree : cr.Agrees) {a b nonce ephExport opener : Bytes} {user : Proxy}
    {k : KeyedSession} (hkey : keySession cr b nonce (cr.x25519Public a) user = some (ephExport, k))
    (auth : Auth) (m : Signer) {c : Wire} (hc : c.keys = some ⟨opener, .offered a (cr.x25519Public a)⟩)
    (who : Bytes) :
    k.seq = 0 ∧
    (∃ seq, (phaseTwo cr auth m c who nonce ephExport).1.keys = some ⟨opener, .keyed k.kC2s k.kS2c seq⟩) ∧
    (∀ total n, (phaseTwo cr auth m c who nonce ephExport).2 = .ok (total, n) →
      ∃ seq, (phaseTwo cr auth m c who nonce ephExport).1.keys = some ⟨opener, .keyed k.kC2s k.kS2c seq⟩ ∧
        frameKeyedInPlace cr k.kC2s 0 npKeyedNpOff c.held.length (put c.sbuf npKeyedNpOff c.held) =
          some (total, seq, (phaseTwo cr auth m c who nonce ephExport).1.sbuf)) ∧
    ∀ xs : List Exchange, (∀ x ∈ xs, x.Fits) →
      (Ends.level k 0).run cr xs = xs.mapIdx fun i x => outcomeAt k (min i u64Max) x := by
  rw [phaseTwo_keyed cr hagree hkey auth m hc who]
  refine ⟨(keySession_eq_some cr hkey).2.1, ?_, ?_, ?_⟩
  · unfold phaseTwoFrame
    split
    · exact ⟨0, rfl⟩
    dsimp only
    split
    · exact ⟨0, rfl⟩
    · next seq _ _ => exact ⟨seq, rfl⟩
  · intro total n hok
    unfold phaseTwoFrame at hok ⊢
    split at hok
    · cases hok
    next hroom =>
    rw [if_neg hroom]
    dsimp only at hok ⊢
    split at hok
    · cases hok
    next total' seq out hframe =>
    cases hok
    exact ⟨seq, rfl, hframe⟩
  · intro xs hxs
    have hrun := Ends.run_level cr k (zero_le u64Max) hxs
    simpa only [zero_add] using hrun

/-- the first `n` bytes of `b`, filled up with zeros. -/
def padTo (n : Nat) (b : Bytes) : Bytes := (b ++ replicate n 0).take n

theorem length_padTo (n : Nat) (b : Bytes) : (padTo n b).length = n := by
  simp [padTo]

def padCrypto : Crypto where
  hash := padTo 64
  hash_length := length_padTo 64
  hmac key b := padTo 64 (key ++ b)
  hmac_length key b := length_padTo 64 (key ++ b)
  x25519Public := padTo npEphemeralLen
  x25519Public_length := length_padTo npEphemeralLen
  x25519Shared a pub := some (zipWith (· ^^^ ·) (padTo npEphemeralLen a) pub)
  signingPublic := padTo npPubkeyLen
  signingPublic_length := length_padTo npPubkeyLen
  signPrefixed seed pfx msg := padTo npSigLen (seed ++ pfx ++ msg)
  signPrefixed_length seed pfx msg := length_padTo npSigLen (seed ++ pfx ++ msg)
  verifyPrefixed _ _ _ _ := false

theorem padCrypto_agrees : padCrypto.Agrees := by
  intro a b
  exact congrArg some (zipWith_comm_of_comm UInt8.xor_comm)

def clientSecret : Bytes := (range 32).map fun i => UInt8.ofNat (i + 1)

def exportSecret : Bytes := (range 32).map fun i => UInt8.ofNat (7 * i + 3)

/-- a client that offered the public key of its secret and holds one request. -/
def offeringWire : Wire :=
  { newWire remoteSbuf remoteRbuf 1 0
      (some ⟨[], .offered clientSecret (padCrypto.x25519Public clientSecret)⟩) with
    held := [9, 9] }

/-- one request that is moved, one that stands in its place, and an empty one that is answered with an error. -/
def threeExchanges : List Exchange :=
  [⟨npSignedNpOff, 3, replicate 200 7, 0, [1, 2]⟩, ⟨npKeyedNpOff, 5, (range 200).map UInt8.ofNat, 4, []⟩,
    ⟨npSignedNpOff, 0, replicate 200 7, fsErrAuth, [3]⟩]

def padSession : KeyedSession :=
  let ours := padTo npEphemeralLen exportSecret
  let theirs := padTo npEphemeralLen clientSecret
  let k := sessionHash padCrypto (zipWith (· ^^^ ·) ours theirs) zeroNonce theirs ours
  ⟨k.take npSessionKeyLen, slice k npSessionKeyLen (2 * npSessionKeyLen), 0, ⟨5, 5⟩⟩

theorem padSession_keyed :
    keySession padCrypto exportSecret zeroNonce (padCrypto.x25519Public clientSecret) ⟨5, 5⟩ =
    some (padCrypto.x25519Public exportSecret, padSession) := rfl

theorem threeExchanges_fit : ∀ x ∈ threeExchanges, x.Fits := by
  have hall : ∀ x ∈ threeExchanges, max x.src npKeyedNpOff + x.npLen ≤ x.out.length ∧ x.npLen ≤ npNetMax := by
    decide +kernel
  exact hall

theorem keyed_interop_pad :
    (∃ seq, (phaseTwo padCrypto ⟨false, none, []⟩ ⟨0, [], none, ⟨0, [], []⟩⟩ offeringWire [] zeroNonce
        (padCrypto.x25519Public exportSecret)).1.keys = some ⟨[], .keyed padSession.kC2s padSession.kS2c seq⟩) ∧
      (Ends.level padSession 0).run padCrypto threeExchanges =
        [(.done 1 [7, 7, 7] (le 8 0 ++ [1, 2]), Ends.level padSession 1),
          (.done 2 [52, 53, 54, 55, 56] (le 8 4), Ends.level padSession 2),
          (.done 3 [] (le 8 fsErrAuth ++ [3]), Ends.level padSession 3)] := by
  have hc : offeringWire.keys = some ⟨[], .offered clientSecret (padCrypto.x25519Public clientSecret)⟩ := rfl
  have hmain := keyed_interop padCrypto padCrypto_agrees padSession_keyed ⟨false, none, []⟩
    ⟨0, [], none, ⟨0, [], []⟩⟩ hc []
  refine ⟨hmain.2.1, (hmain.2.2.2 threeExchanges threeExchanges_fit).trans ?_⟩
  decide +kernel

end Ouroboros.Netd
