import Ouroboros.Netd.Frame
import Ouroboros.Netd.Peers

/-!
# netd: outgoing connections

A `Wire` is a TCP connection netd opens: a `/net/tcp` dial, a path verb's own connection, or a held
session. The last two carry a parked request, which `serviceSlot` answers.

* `parkRmount`, `parkSession`  a request is written raw into a slot (`park_rmount`, `park_session`);
* `signParked`, `phaseTwo`  it is framed: signed, keyed, or first an `NP_SESSION` with a key offered;
* `wireOnSegment`, `pumpWire`  the TCP engine (`dial_on_segment`, `pump_dials`);
* `serviceSlot`  the answer is verified and delivered (`service_remotes`).
-/

namespace Ouroboros.Netd

open Buffer

/-! ## Wires -/

def tcpIsn : Seq := 0x1000
def dialMss : Nat := 1200
def dialSynTries : Nat := 6
def dialDataTries : Nat := 8
def dialRetxWait : Nat := 12
def dialIdleTicks : Nat := 600
def clientSessionIdleTicks : Nat := 2000
def remoteNpMax : Nat := msgMaxLen - 16
def remoteSbuf : Nat := npNetLenPrefix + npAuthHdrSigned + remoteNpMax
def remoteRbuf : Nat := 1024
def remoteDeadlineTicks : Nat := 250
def runDeadlineTicks : Nat := 1500
def runOutMax : Nat := 2048
def maxRemote : Nat := 3
def maxClientSessions : Nat := 3
def tcpSrcPort : Nat := 0xc000
def remotePortSpan : Nat := 0x3000 / (maxRemote + maxClientSessions)

/-- `remote_src_port`: each slot has its own slice of the port window. -/
def remoteSrcPort (index us : Nat) : Nat := tcpSrcPort + index * remotePortSpan + us % remotePortSpan

inductive DialState where
  | free
  | idle
  | connecting
  | listening
  | accepting
  | established
  | closing
  | closed
deriving DecidableEq, Repr

/-- the keys of a held session: none, offered and not yet answered, or agreed. -/
inductive KeyState where
  | none
  | offered (eph ephPub : Bytes)
  | keyed (kC2s kS2c : Bytes) (seq : Nat)
deriving DecidableEq, Repr

structure SessionAuth where
  opener : Bytes
  state : KeyState
deriving DecidableEq, Repr

structure Parked where
  caller : Nat
  call : Nat
  nonce : Bytes
  expectKey : Bytes
  since : Nat
  who : Bytes
  verb : Nat
  opening : Bool
  raw : Nat
deriving DecidableEq, Repr

structure Wire where
  state : DialState
  peerIp : Bytes
  peerMac : Bytes
  peerPort : Nat
  srcPort : Nat
  isn : Seq
  sndNxt : Seq
  sndUna : Seq
  rcvNxt : Seq
  finSent : Bool
  sbuf : Bytes
  slen : Nat
  inflight : Nat
  /-- `rbuf[..rlen]`, of a buffer of `rcap` bytes. -/
  rbuf : Bytes
  rcap : Nat
  retxDeadline : Nat
  retries : Nat
  lastActivity : Nat
  peerFin : Bool
  announcePort : Nat
  parent : Nat
  pending : Bool
  parked : Option Parked
  uid : Nat
  fids : Nat
  /-- `held[..held_len]`. -/
  held : Bytes
  /-- `keys`: one entry on a session slot, none on any other. -/
  keys : Option SessionAuth
deriving DecidableEq, Repr

def dialNoParent : Nat := 0xFF

/-- `new_wire` with buffers of `scap` and `rcap` bytes. -/
def newWire (scap rcap srcPort now : Nat) (keys : Option SessionAuth) : Wire where
  state := .idle
  peerIp := [0, 0, 0, 0]
  peerMac := [0, 0, 0, 0, 0, 0]
  peerPort := 0
  srcPort := srcPort
  isn := tcpIsn ^^^ (BitVec.ofNat 32 srcPort <<< 8)
  sndNxt := 0
  sndUna := 0
  rcvNxt := 0
  finSent := false
  sbuf := List.replicate scap 0
  slen := 0
  inflight := 0
  rbuf := []
  rcap := rcap
  retxDeadline := 0
  retries := 0
  lastActivity := now
  peerFin := false
  announcePort := 0
  parent := dialNoParent
  pending := false
  parked := none
  uid := 0
  fids := 0
  held := []
  keys := keys

def zeroNonce : Bytes := List.replicate npNonceLen 0

def noAuth : SessionAuth := ⟨List.replicate npNameLen 0, .none⟩

structure Signer where
  us : Nat
  ip : Bytes
  boot : Option Nat
  entropy : Entropy

variable (cr : Crypto)

/-! ## Framing -/

/-- `park_raw`: the request stands where its signed frame will carry it. -/
def parkRaw (sbuf np : Bytes) : Option (Nat × Bytes) :=
  if npSignedNpOff + np.length > sbuf.length ∨ np.length > 0xFFFF then none
  else some (np.length, put sbuf npSignedNpOff np)

/-- `offer_key`, and the room for it: a session's opening request carries a public key where this
boot's counter is usable. -/
def offerKey (auth : Auth) (m : Signer) (c : Wire) (pk : Parked) : Wire × Nat :=
  match c.keys, auth.signing, m.boot with
  | some ka, some seed, some boot =>
    let place := npSignedNpOff + pk.raw
    if pk.opening ∧ place + npEphemeralLen ≤ c.sbuf.length then
      let eph := ephemeralSecret cr sigDomainEphemeralC seed boot [] m.entropy
      let ephPub := cr.x25519Public eph
      ({ c with
          sbuf := put c.sbuf place ephPub
          keys := some { ka with state := .offered eph ephPub } }, pk.raw + npEphemeralLen)
    else (c, pk.raw)
  | _, _, _ => (c, pk.raw)

/-- `sign_parked`: frame the request `pk` left raw, keyed on a keyed session and signed elsewhere;
`false` if it could not be. -/
def signParked (auth : Auth) (m : Signer) (c : Wire) (pk : Parked) : Wire × Bool :=
  match c.keys with
  | some ⟨opener, .keyed kC2s kS2c seq⟩ =>
    match frameKeyedInPlace cr kC2s seq npSignedNpOff pk.raw c.sbuf with
    | none => ({ c with parked := some { pk with raw := 0 } }, false)
    | some (total, seq', out) =>
      ({ c with
          keys := some ⟨opener, .keyed kC2s kS2c seq'⟩
          sbuf := out
          slen := total
          parked := some { pk with raw := 0 } }, true)
  | _ =>
    let (c, raw) := offerKey cr auth m c pk
    match frameSignedInPlace cr auth pk.who raw m.us m.ip c.sbuf with
    | none => ({ c with parked := some { pk with raw := 0 } }, false)
    | some (total, nonce, out) =>
      ({ c with
          sbuf := out
          slen := total
          parked := some { pk with raw := 0, nonce := nonce } }, true)

/-- the end of `phase_two` on a signed session: the held request is signed. -/
def phaseTwoSigned (auth : Auth) (m : Signer) (c : Wire) (who held : Bytes) : Wire × Except Nat (Nat × Bytes) :=
  match frameSigned cr auth who held m.us m.ip c.sbuf with
  | none =>
    -- the request is copied in before the signature can be refused
    let fits := npSignedNpOff + held.length ≤ c.sbuf.length
    ({ c with sbuf := if fits then put c.sbuf npSignedNpOff held else c.sbuf }, .error fsErrAuth)
  | some (total, nonce, out) => ({ c with sbuf := out }, .ok (total, nonce))

/-- the keyed arm of `phase_two`: derive the keys, then frame the held request with them. -/
def phaseTwoKeyed (c : Wire) (ka : SessionAuth) (eph ephPub nonce held result : Bytes) :
    Wire × Except Nat (Nat × Bytes) :=
  match cr.x25519Shared eph result with
  | none => ({ c with keys := some { ka with state := .none } }, .error fsErrAuth)
  | some shared =>
    let k := sessionHash cr shared nonce ephPub result
    let kC2s := k.take npSessionKeyLen
    let kS2c := slice k npSessionKeyLen (2 * npSessionKeyLen)
    let c := { c with keys := some { ka with state := .keyed kC2s kS2c 0 } }
    if npKeyedNpOff + held.length > c.sbuf.length then (c, .error fsErrAuth)
    else
      let sbuf := put c.sbuf npKeyedNpOff held
      match frameKeyedInPlace cr kC2s 0 npKeyedNpOff held.length sbuf with
      | none => ({ c with sbuf := sbuf }, .error fsErrAuth)
      | some (total, seq, out) =>
        ({ c with sbuf := out, keys := some { ka with state := .keyed kC2s kS2c seq } }, .ok (total, zeroNonce))

/-- `phase_two`: the export accepted the `NP_SESSION` of nonce `nonce` with `result`; frame the held
request in the session's format, or the status to fail its caller with. -/
def phaseTwo (auth : Auth) (m : Signer) (c : Wire) (who nonce result : Bytes) :
    Wire × Except Nat (Nat × Bytes) :=
  let held := c.held
  let c := { c with held := [] }
  match c.keys with
  | some ⟨opener, .offered eph ephPub⟩ =>
    if result.length = 0 then
      phaseTwoSigned cr auth m { c with keys := some ⟨opener, .none⟩ } who held
    else if result.length ≠ npEphemeralLen then
      ({ c with keys := some ⟨opener, .none⟩ }, .error fsErrAuth)
    else phaseTwoKeyed cr c ⟨opener, .offered eph ephPub⟩ eph ephPub nonce held result
  | _ => if result.length = 0 then phaseTwoSigned cr auth m c who held else (c, .error fsErrAuth)

/-! ## Parking -/

structure Target where
  mac : Bytes
  ip : Bytes
  port : Nat
  verb : Nat
  caller : Nat
  call : Nat
  who : Bytes
  uid : Nat

def Target.park (g : Target) (expectKey : Bytes) (opening : Bool) (raw : Nat) : Parked :=
  ⟨g.caller, g.call, zeroNonce, expectKey, 0, g.who, g.verb, opening, raw⟩

abbrev Table := List (Option Wire)

/-- `park_rmount`: a path verb gets a connection of its own. -/
def parkRmount (auth : Auth) (g : Target) (expectKey : Option Bytes) (msg : Bytes) (us now : Nat)
    (remotes : Table) : Except Nat Table :=
  match expectKey with
  | none => .error fsErrAuth
  | some expectKey =>
    match remotes.findIdx? (·.isNone) with
    | none => .error fsErrBusy
    | some slot =>
      if !auth.canSend then .error fsErrAuth
      else
        let wire := newWire remoteSbuf remoteRbuf (remoteSrcPort slot us) now none
        match parkRaw wire.sbuf (msg.take remoteNpMax) with
        | none => .error fsErrAuth
        | some (raw, sbuf) =>
          .ok (remotes.set slot (some { wire with
            sbuf := sbuf
            peerIp := g.ip
            peerMac := g.mac
            peerPort := g.port
            state := .connecting
            parked := some (g.park expectKey false raw) }))

/-- the session a fid verb of this user to this endpoint rides on. -/
def liveSession (g : Target) (s : Wire) : Bool := s.peerIp = g.ip && s.peerPort = g.port && s.uid = g.uid &&
    (s.state = .connecting || s.state = .established)

/-- `park_session` on a live session: one request at a time, by the user who opened it. -/
def parkLive (g : Target) (expectKey msg : Bytes) (s : Wire) : Except Nat Wire :=
  let s := { s with peerMac := g.mac }
  if s.parked.isSome ∨ s.slen ≠ 0 then .error fsErrBusy
  else if s.keys.map (·.opener) ≠ some g.who then .error fsErrAuth
  else
    match parkRaw s.sbuf msg with
    | none => .error fsErrAuth
    | some (raw, sbuf) =>
      .ok { s with sbuf := sbuf, rbuf := [], parked := some (g.park expectKey false raw) }

/-- `park_session` on a fresh slot: an `NP_SESSION` goes first, and the request is held. -/
def parkOpening (g : Target) (expectKey msg : Bytes) (srcPort now : Nat) : Wire :=
  let wire := newWire remoteSbuf remoteRbuf srcPort now (some { noAuth with opener := g.who })
  { wire with
    sbuf := put wire.sbuf npSignedNpOff (le 8 npSession)
    held := msg
    uid := g.uid
    peerIp := g.ip
    peerMac := g.mac
    peerPort := g.port
    state := .connecting
    parked := some (g.park expectKey true npReqPayload) }

/-- `park_session`: a refusal of a live session leaves its next hop updated. -/
def parkSession (auth : Auth) (g : Target) (expectKey : Option Bytes) (msg : Bytes) (us now : Nat)
    (sessions : Table) : Table × Except Nat Unit :=
  match expectKey with
  | none => (sessions, .error fsErrAuth)
  | some expectKey =>
    if !auth.canSend then (sessions, .error fsErrAuth)
    else
      let np := msg.take remoteNpMax
      match sessions.findIdx? (fun s => s.any (liveSession g)) with
      | some i =>
        match sessions.getD i none with
        | none => (sessions, .error fsErrAuth)
        | some s =>
          match parkLive g expectKey np s with
          | .error st => (sessions.set i (some { s with peerMac := g.mac }), .error st)
          | .ok s => (sessions.set i (some s), .ok ())
      | none =>
        match sessions.findIdx? (·.isNone) with
        | none => (sessions, .error fsErrBusy)
        | some slot =>
          let wire := parkOpening g expectKey np (remoteSrcPort (maxRemote + slot) us) now
          (sessions.set slot (some wire), .ok ())

inductive Shape where
  | path
  | open
  | fid
deriving DecidableEq, Repr

def shape (verb : Nat) : Shape :=
  if verb = npOpen then .open
  else if verb = npPread ∨ verb = npPwrite ∨ verb = npFstat ∨ verb = npClunk then .fid
  else .path

/-! ## The TCP engine -/

/-- a segment for this wire, as `parse_tcp` decides. -/
def Wire.Takes (c : Wire) (seg : TcpIn) : Bool :=
  c.state != .free && c.state != .idle && seg.srcIp = c.peerIp && seg.srcPort == c.peerPort &&
    seg.dstPort == c.srcPort

/-- the handshake of an accepted connection ends with its acknowledgement. -/
def wireAccept (c : Wire) (seg : TcpIn) : Wire :=
  if c.state = .accepting ∧ seg.has tcpAck ∧ seg.ack = c.isn + 1 then
    { c with sndUna := c.isn + 1, state := .established, retxDeadline := 0, retries := 0 }
  else c

def wireConnect (c : Wire) (seg : TcpIn) : Wire × List Tx :=
  if seg.has tcpSyn ∧ seg.has tcpAck ∧ seg.ack = c.isn + 1 then
    ({ c with
        sndNxt := c.isn + 1
        sndUna := c.isn + 1
        rcvNxt := seg.seq + 1
        state := .established
        retxDeadline := 0
        retries := 0 }, [⟨c.isn + 1, tcpAck, []⟩])
  else (c, [])

def wireAcked (c : Wire) (seg : TcpIn) : Wire :=
  if seqGt seg.ack c.sndUna then
    let dataAcked := min (seg.ack - c.sndUna).toNat c.inflight
    { c with
      sbuf := put c.sbuf 0 (slice c.sbuf dataAcked c.slen)
      slen := c.slen - dataAcked
      inflight := c.inflight - dataAcked
      sndUna := seg.ack
      retries := 0
      retxDeadline := if c.inflight - dataAcked = 0 then 0 else c.retxDeadline }
  else c

def wireData (c : Wire) (seg : TcpIn) : Wire × List Tx :=
  let data := seg.data.take (c.rcap - c.rbuf.length)
  if seg.data ≠ [] ∧ seg.seq = c.rcvNxt ∧ data ≠ [] then
    ({ c with rbuf := c.rbuf ++ data, rcvNxt := c.rcvNxt + BitVec.ofNat 32 data.length },
      [⟨c.sndNxt, tcpAck, []⟩])
  else (c, [])

def wireFin (c : Wire) (seg : TcpIn) : Wire × List Tx :=
  if seg.has tcpFin ∧ seg.seq + BitVec.ofNat 32 seg.data.length = c.rcvNxt then
    let fin := if c.finSent then [] else [⟨c.sndNxt, tcpFin ||| tcpAck, []⟩]
    ({ c with
        rcvNxt := c.rcvNxt + 1
        peerFin := true
        sndNxt := if c.finSent then c.sndNxt else c.sndNxt + 1
        finSent := true
        state := .closed }, ⟨c.sndNxt, tcpAck, []⟩ :: fin)
  else (c, [])

/-- `dial_on_segment` for the wire that takes the segment. -/
def wireOnSegment (t : Nat) (c : Wire) (seg : TcpIn) : Wire × List Tx :=
  let c := { c with lastActivity := t }
  if seg.has tcpRst then ({ c with state := .closed }, [])
  else
    let c := wireAccept c seg
    match c.state with
    | .connecting => wireConnect c seg
    | .established | .closing =>
      let (c, acks) := wireData (wireAcked c seg) seg
      let (c, fins) := wireFin c seg
      (c, acks ++ fins)
    | _ => (c, [])

/-- the deadline clock of a parked request starts with its first send. -/
def startClock (c : Wire) (t : Nat) : Wire :=
  { c with parked := c.parked.map fun pk => if pk.since = 0 then { pk with since := max t 1 } else pk }

/-- what `pump_dials` sends for one wire. -/
def pumpSendWire (t : Nat) (c : Wire) : Wire × List Tx :=
  match c.state with
  | .connecting =>
    if c.retxDeadline = 0 ∨ t ≥ c.retxDeadline then
      if c.retries ≥ dialSynTries then ({ c with state := .closed }, [])
      else
        (startClock { c with retries := c.retries + 1, retxDeadline := t + dialRetxWait } t,
          [⟨c.isn, tcpSyn, []⟩])
    else (c, [])
  | .established | .closing =>
    if c.inflight = 0 ∧ c.slen > 0 then
      let chunk := min c.slen dialMss
      (startClock { c with
          inflight := chunk
          sndNxt := c.sndNxt + BitVec.ofNat 32 chunk
          retxDeadline := t + dialRetxWait
          retries := 0 } t, [⟨c.sndNxt, tcpPsh ||| tcpAck, c.sbuf.take chunk⟩])
    else if c.inflight > 0 ∧ t ≥ c.retxDeadline then
      if c.retries ≥ dialDataTries then ({ c with state := .closed }, [])
      else
        ({ c with retries := c.retries + 1, retxDeadline := t + dialRetxWait },
          [⟨c.sndUna, tcpPsh ||| tcpAck, c.sbuf.take c.inflight⟩])
    else if c.state = .closing ∧ c.finSent = false ∧ c.inflight = 0 ∧ c.slen = 0 then
      ({ c with finSent := true, sndNxt := c.sndNxt + 1, retxDeadline := t + dialRetxWait },
        [⟨c.sndNxt, tcpFin ||| tcpAck, []⟩])
    else if c.state = .closing ∧ c.finSent = true ∧ t ≥ c.retxDeadline then
      ({ c with state := .closed }, [])
    else (c, [])
  | .accepting =>
    if t ≥ c.retxDeadline then
      if c.retries ≥ dialSynTries then ({ c with state := .closed }, [])
      else
        ({ c with retries := c.retries + 1, retxDeadline := t + dialRetxWait }, [⟨c.isn, tcpSyn ||| tcpAck, []⟩])
    else (c, [])
  | _ => (c, [])

/-- `pump_dials` for one wire; `none` is a reaped slot. -/
def pumpWire (t idleTicks : Nat) (c : Wire) : Option Wire × List Tx :=
  let (c, sent) := pumpSendWire t c
  let idle := c.state ≠ .listening ∧ t - c.lastActivity > idleTicks
  let wasOpen := c.state = .established
  let c := if idle ∧ c.parked.isNone ∧ wasOpen then { c with state := .closing } else c
  if c.parked.isNone ∧ (c.state = .closed ∧ c.rbuf = [] ∨ idle ∧ ¬ wasOpen) then (none, sent)
  else (some c, sent)

/-! ## Answers -/

structure PendingRun where
  active : Bool
  owner : Nat
  cursor : Nat
  /-- `buf[..len]`. -/
  buf : Bytes
deriving DecidableEq, Repr

/-- `next_chunk`: the next output for `who`. -/
def PendingRun.nextChunk (p : PendingRun) (who : Nat) : PendingRun × Bytes :=
  if !p.active ∨ p.owner ≠ who ∨ p.cursor ≥ p.buf.length then (p, [])
  else
    let chunk := (p.buf.drop p.cursor).take msgMaxLen
    let cursor := p.cursor + chunk.length
    ({ p with cursor := cursor, active := decide (cursor < p.buf.length) }, chunk)

structure Reply where
  call : Nat
  bytes : Bytes
deriving DecidableEq, Repr

def statusOnly (st : Nat) : Bytes := le 8 st

/-- a live connection is closed politely; one still connecting has nothing to say. -/
def DialState.done : DialState → DialState
  | .established => .closing
  | .closing => .closing
  | _ => .closed

/-- what a service pass reads from the machine: clock, framing inputs, and the kernel's answer to a
reply. -/
structure Service where
  t : Nat
  dead : Nat
  signer : Signer
  replyStatus : Nat

/-- `t.wrapping_sub(since)`: a clock behind `since` counts as long past it. -/
def elapsed (t since : Nat) : Nat := (t + 2 ^ 64 - since) % 2 ^ 64

def cannotAuthenticate : Bytes := text
  "cpu: cannot authenticate (no /etc/cluster/id to sign with, or the request does not fit)\r\n"

/-- frame what the park left raw; a request that cannot be framed is answered now. -/
def serviceSign (auth : Auth) (v : Service) (c : Wire) (pk : Parked) : Wire × List Reply :=
  match signParked cr auth v.signer c pk with
  | (c, true) => (c, [])
  | (c, false) =>
    ({ c with parked := none, held := [], state := c.state.done },
      [⟨pk.call, if pk.verb = npRun then cannotAuthenticate else statusOnly fsErrAuth⟩])

/-- a run's output is drained as it comes; the first of it is sent when the peer closes. -/
def serviceRun (v : Service) (p : PendingRun) (c : Wire) (pk : Parked) : Wire × PendingRun × List Reply :=
  let p := { p with buf := p.buf ++ c.rbuf.take (runOutMax - p.buf.length) }
  let since := if c.rbuf ≠ [] then max v.t 1 else pk.since
  let c := { c with rbuf := [] }
  if c.peerFin ∨ c.state = .closed ∨ since ≠ 0 ∧ elapsed v.t since > runDeadlineTicks then
    let (p, out) :=
      if p.buf ≠ [] ∨ c.peerFin then { p with cursor := 0, active := true }.nextChunk pk.caller
      else (p, text "cpu: remote run failed\r\n")
    ({ c with parked := none, state := c.state.done }, p, [⟨pk.call, out⟩])
  else ({ c with parked := some { pk with since := since } }, p, [])

/-- the check a reply has to pass: the session's tag, or the peer's signature. -/
def checkReply (c : Wire) (pk : Parked) : Option (Nat × Nat) :=
  match c.keys with
  | some ⟨_, .keyed _ kS2c seq⟩ => verifyKeyedReply cr c.rbuf kS2c seq
  | _ => verifySealed cr c.rbuf pk.nonce pk.expectKey

def frameLen (c : Wire) : Option Nat :=
  if c.rbuf.length ≥ npNetLenPrefix then some (readLen c.rbuf) else none

/-- what a parked request is answered with, and whether it was verified. -/
def framedAnswer (v : Service) (c : Wire) (pk : Parked) : Bytes × Bool :=
  let tooBig := (frameLen c).any (npNetLenPrefix + · > remoteRbuf)
  let complete := (frameLen c).any (npNetLenPrefix + · ≤ c.rbuf.length)
  if complete && !tooBig then
    match checkReply cr c pk with
    | some (start, len) => (slice c.rbuf start (start + min len msgMaxLen), true)
    | none => (statusOnly fsErrAuth, false)
  else if tooBig then (statusOnly fsError, false)
  else if pk.opening then (statusOnly noFs, false)
  else (statusOnly v.dead, false)

def framedReady (v : Service) (c : Wire) (pk : Parked) : Bool :=
  (frameLen c).any (fun f => npNetLenPrefix + f ≤ c.rbuf.length || npNetLenPrefix + f > remoteRbuf)
    || c.state == .closed || (pk.since != 0 && elapsed v.t pk.since > remoteDeadlineTicks)

def npStatus (r : Bytes) : Nat := if r.length ≥ 8 then readU64 r 0 else u64Max

/-- fids are counted by the answers to `NP_OPEN` and `NP_CLUNK`. -/
def countFids (fids verb status : Nat) (verified heard : Bool) : Nat :=
  if verified ∧ status < fsErrMin then
    if verb = npOpen ∧ heard then min (fids + 1) (2 ^ 32 - 1)
    else if verb = npClunk then fids - 1
    else fids
  else fids

def SessionAuth.forget (ka : SessionAuth) : SessionAuth := { ka with state := .none }

/-- the framed arm of `service_remotes`: verify, start phase two or deliver, and close. -/
def serviceFramed (auth : Auth) (v : Service) (c : Wire) (pk : Parked) : Wire × List Reply :=
  if !framedReady v c pk then (c, [])
  else
    let (r, verified) := framedAnswer cr v c pk
    let status := npStatus r
    let c := { c with parked := none, rbuf := [] }
    if pk.opening ∧ verified ∧ status = 0 ∧ c.slen = 0 then
      match phaseTwo cr auth v.signer c pk.who pk.nonce (r.drop 8) with
      | (c, .ok (total, nonce)) =>
        ({ c with
            slen := total
            lastActivity := v.t
            parked := some { pk with nonce := nonce, since := 0, opening := false } }, [])
      | (c, .error st) => ({ c with state := c.state.done }, [⟨pk.call, statusOnly st⟩])
    else if pk.opening then
      ({ c with held := [], keys := c.keys.map (·.forget), state := c.state.done },
        [⟨pk.call, if verified ∧ status = 0 then statusOnly fsError else r⟩])
    else
      let fids := countFids c.fids pk.verb status verified (v.replyStatus ≠ replyStale)
      if verified ∧ fids > 0 then ({ c with fids := fids, lastActivity := v.t }, [⟨pk.call, r⟩])
      else ({ c with fids := fids, state := c.state.done }, [⟨pk.call, r⟩])

/-- `service_remotes` for one slot. Only the path table has the pending run. -/
def serviceSlot (auth : Auth) (v : Service) (pending : Option PendingRun) (c : Wire) :
    Wire × Option PendingRun × List Reply :=
  match c.parked with
  | none => (c, pending, [])
  | some pk =>
    if pk.raw ≠ 0 ∧ c.state ≠ .closed then
      let (c, replies) := serviceSign cr auth v c pk
      (c, pending, replies)
    else if pk.verb = npRun then
      match pending with
      | none => (c, none, [])
      | some p =>
        let (c, p, replies) := serviceRun v p c pk
        (c, some p, replies)
    else
      let (c, replies) := serviceFramed cr auth v c pk
      (c, pending, replies)

end Ouroboros.Netd
