import Ouroboros.Lib.Serial

/-!
# netd: one server connection

* `TcpConn`  a connection of the HTTP server or of the export gateway;
* `Tx`  a segment the server transmits on it;
* `rewindTo`, `pumpSend`, `serviceRto`  the send cursor and what moves it;
* `handleConnSegment`  one inbound segment, with the request handler as a parameter.

The reply of a connection is its prefix followed by a file; sequence numbers are mapped back to it
through `dataBase`.
-/

namespace Ouroboros.Netd

abbrev Bytes := List UInt8

/-- a TCP sequence number, a `u32` that wraps. -/
abbrev Seq := BitVec 32

def seqGt (a b : Seq) : Bool := Serial.gt a b

/-! ## Constants -/

def tcpFin : BitVec 8 := 0x01
def tcpSyn : BitVec 8 := 0x02
def tcpRst : BitVec 8 := 0x04
def tcpPsh : BitVec 8 := 0x08
def tcpAck : BitVec 8 := 0x10

def serverIsn : Seq := 0x20000
def serveChunk : Nat := 1400
def mss : Nat := 1400
def initCwnd : Nat := 4 * mss
def initSsthresh : Nat := 0xFFFF
def minCwnd : Nat := 2 * mss
def maxCwnd : Nat := 0xFFFF
def prefixMax : Nat := 2048
def connIdleTicks : Nat := 1500

def rtoInitTicks : Nat := 50
def rtoMinTicks : Nat := 10
def rtoMaxTicks : Nat := 100
def rtoMaxRetries : Nat := 5
def tickUs : Nat := 20000
def rttGUs : Nat := tickUs

def sessionFids : Nat := 4

/-- `CPU_NONE`: no task identity is zero. -/
def cpuNone : Nat := 0

/-! ## Connections -/

/-- the uid and gid a remote caller's name stands for on this machine. -/
structure Proxy where
  uid : Nat
  gid : Nat
deriving DecidableEq, Repr

/-- the keys of a keyed session, the last number accepted on it and its user. -/
structure KeyedSession where
  kC2s : Bytes
  kS2c : Bytes
  seq : Nat
  user : Proxy
deriving DecidableEq, Repr

/-- a fid of a session: fsd's number for it, who opened it, and the fsd that issued it. -/
structure SessionFid where
  fsdFid : Nat
  opener : Proxy
  fsdGen : Nat
deriving DecidableEq, Repr

def SessionFid.none : SessionFid := ⟨0, ⟨0, 0⟩, 0⟩

inductive ConnState where
  | synRcvd
  | established
  | closing
deriving DecidableEq, Repr

structure TcpConn where
  peerIp : Bytes
  peerMac : Bytes
  peerPort : Nat
  localPort : Nat
  sndNxt : Seq
  sndUna : Seq
  rcvNxt : Seq
  window : Nat
  state : ConnState
  responded : Bool
  /-- `prefix[..prefix_len]`. -/
  prefixBytes : Bytes
  prefixOff : Nat
  file : Bool
  /-- `path[..path_len]`. -/
  path : Bytes
  readOff : Nat
  eof : Bool
  finSent : Bool
  dupAcks : Nat
  lastRexmitUna : Seq
  rtoDeadline : Nat
  rtoSndUna : Seq
  rtoRetries : Nat
  srttUs : Nat
  rttvarUs : Nat
  rtoTicks : Nat
  sndMax : Seq
  rttActive : Bool
  rttSeq : Seq
  rttStartUs : Nat
  cwnd : Nat
  ssthresh : Nat
  cpuChild : Nat
  session : Bool
  fids : List SessionFid
  keyed : Option KeyedSession
  carried : Bool
  lastRx : Nat
  dataBase : Seq
deriving DecidableEq, Repr

/-- `TcpIn`: an inbound segment, with its payload and its SACK blocks. -/
structure TcpIn where
  srcIp : Bytes
  srcMac : Bytes
  srcPort : Nat
  dstPort : Nat
  seq : Seq
  ack : Seq
  flags : BitVec 8
  window : BitVec 16
  data : Bytes
  sack : List (Seq × Seq)
deriving DecidableEq, Repr

def TcpIn.has (seg : TcpIn) (flag : BitVec 8) : Bool := seg.flags &&& flag != 0

structure Tx where
  seq : Seq
  flags : BitVec 8
  payload : Bytes
deriving DecidableEq, Repr

def Tx.has (tx : Tx) (flag : BitVec 8) : Bool := tx.flags &&& flag != 0

/-- what the server asks of the machine while it works: its clocks and anonymous file reads
(`none` for an error status). -/
structure Env where
  now : Nat
  nowUs : Nat
  read : Bytes → Nat → Nat → Option Bytes

/-- `send_seg`: transmit at the send cursor. -/
def sendSeg (c : TcpConn) (flags : BitVec 8) (payload : Bytes) : Tx := ⟨c.sndNxt, flags, payload⟩

def openConn (seg : TcpIn) (now : Nat) : TcpConn where
  peerIp := seg.srcIp
  peerMac := seg.srcMac
  peerPort := seg.srcPort
  localPort := seg.dstPort
  sndNxt := serverIsn + 1
  sndUna := serverIsn
  rcvNxt := seg.seq + 1
  window := seg.window.toNat
  state := .synRcvd
  responded := false
  prefixBytes := []
  prefixOff := 0
  file := false
  path := []
  readOff := 0
  eof := false
  finSent := false
  dupAcks := 0
  lastRexmitUna := 0
  rtoDeadline := 0
  rtoSndUna := serverIsn
  rtoRetries := 0
  srttUs := 0
  rttvarUs := 0
  rtoTicks := rtoInitTicks
  sndMax := serverIsn + 1
  rttActive := false
  rttSeq := 0
  rttStartUs := 0
  cwnd := initCwnd
  ssthresh := initSsthresh
  cpuChild := cpuNone
  session := false
  fids := List.replicate sessionFids SessionFid.none
  keyed := none
  carried := false
  lastRx := now
  dataBase := serverIsn + 1

/-! ## The send cursor -/

/-- `rewind_to`: the next send starts at `seq` again. -/
def rewindTo (c : TcpConn) (seq : Seq) : TcpConn :=
  let off := (seq - c.dataBase).toNat
  { c with
    sndNxt := seq
    prefixOff := min off c.prefixBytes.length
    readOff := off - c.prefixBytes.length
    eof := false
    finSent := false
    rttActive := false }

/-- `reply_pending`: bytes of the reply are still to be sent. -/
def replyPending (c : TcpConn) : Bool :=
  decide (c.prefixOff < c.prefixBytes.length) || (c.file && !c.eof)

/-- `session_reset_if_done`: a session whose reply is sent and acknowledged waits for a request. -/
def sessionResetIfDone (c : TcpConn) : TcpConn :=
  if c.session && c.responded && !c.finSent && c.cpuChild == cpuNone && !replyPending c &&
      c.sndNxt == c.sndUna then
    { c with responded := false, prefixBytes := [], prefixOff := 0, eof := false, file := false }
  else c

/-- `rtt_update`: a fresh round-trip time folded into the retransmit timeout. -/
def rttUpdate (c : TcpConn) (rUs : Nat) : TcpConn :=
  let srtt := if c.srttUs = 0 then rUs else (7 * c.srttUs + rUs) / 8
  let rttvar :=
    if c.srttUs = 0 then rUs / 2
    else (3 * c.rttvarUs + (max c.srttUs rUs - min c.srttUs rUs)) / 4
  let rtoUs := srtt + max (4 * rttvar) rttGUs
  { c with
    srttUs := srtt
    rttvarUs := rttvar
    rtoTicks := min (max (rtoUs / tickUs) rtoMinTicks) rtoMaxTicks }

/-- `rtt_on_send`: time new data, unless a segment is being timed already. -/
def rttOnSend (c : TcpConn) (segStart : Seq) (nowUs : Nat) : TcpConn :=
  if seqGt c.sndMax segStart then c
  else if c.rttActive then { c with sndMax := c.sndNxt }
  else { c with sndMax := c.sndNxt, rttActive := true, rttSeq := c.sndNxt, rttStartUs := nowUs }

def sendData (env : Env) (c : TcpConn) (payload : Bytes) (prefixOff readOff : Nat) : TcpConn × List Tx :=
  let moved := { c with
    sndNxt := c.sndNxt + BitVec.ofNat 32 payload.length
    prefixOff := prefixOff
    readOff := readOff }
  (rttOnSend moved c.sndNxt env.nowUs, [sendSeg c (tcpPsh ||| tcpAck) payload])

/-- the end of `pump_send`, with the whole reply sent: a session waits, any other connection sends
its FIN. -/
def pumpEnd (c : TcpConn) : TcpConn × List Tx :=
  if c.session then (sessionResetIfDone c, [])
  else if c.finSent then (c, [])
  else ({ c with sndNxt := c.sndNxt + 1, finSent := true, state := .closing },
    [sendSeg c (tcpFin ||| tcpAck) []])

/-- `pump_send`. The loop of the source ends after one segment (`MAX_BURST` is 1); it goes round again
only after a read found the end of the file. -/
def pumpSend (env : Env) (c : TcpConn) : TcpConn × List Tx :=
  if c.cpuChild ≠ cpuNone then (c, [])
  else
    let avail := min c.cwnd c.window - (c.sndNxt - c.sndUna).toNat
    if avail = 0 then (c, [])
    else if c.prefixOff < c.prefixBytes.length then
      let n := min (min (c.prefixBytes.length - c.prefixOff) serveChunk) avail
      sendData env c ((c.prefixBytes.drop c.prefixOff).take n) (c.prefixOff + n) c.readOff
    else if c.file && !c.eof then
      match env.read c.path c.readOff (min serveChunk avail) with
      | none | some [] => pumpEnd { c with eof := true }
      | some chunk => sendData env c chunk c.prefixOff (c.readOff + chunk.length)
    else pumpEnd c

/-- `service_rto`: arm, restart or fire the retransmit timer; `true` gives the connection up. -/
def serviceRto (c : TcpConn) (now : Nat) : TcpConn × List Tx × Bool :=
  if c.sndNxt - c.sndUna = 0 then
    ({ c with rtoDeadline := 0, rtoRetries := 0, rtoSndUna := c.sndUna }, [], false)
  else if c.sndUna ≠ c.rtoSndUna then
    ({ c with rtoSndUna := c.sndUna, rtoRetries := 0, rtoDeadline := now + c.rtoTicks }, [], false)
  else if c.rtoDeadline = 0 then ({ c with rtoDeadline := now + c.rtoTicks }, [], false)
  else if now < c.rtoDeadline then (c, [], false)
  else if c.rtoRetries ≥ rtoMaxRetries then (c, [sendSeg c tcpRst []], true)
  else
    let c := rewindTo { c with ssthresh := max (c.cwnd / 2) minCwnd, cwnd := mss } c.sndUna
    ({ c with
      rtoRetries := c.rtoRetries + 1
      rtoDeadline := now + c.rtoTicks * 2 ^ min (c.rtoRetries + 1) 4 }, [], false)

/-- `reap_idle`: give up a connection with nothing in flight that has been silent too long. -/
def reapIdle (c : TcpConn) (now : Nat) : Option Tx :=
  if c.cpuChild ≠ cpuNone ∨ c.sndNxt ≠ c.sndUna ∨ (now + 2 ^ 64 - c.lastRx) % 2 ^ 64 ≤ connIdleTicks then none
  else some (sendSeg c (tcpRst ||| tcpAck) [])

/-- `cpu_child_msg`: output of the captured child joins the reply; an empty message ends it. -/
def cpuChildMsg (c : TcpConn) (data : Bytes) : TcpConn :=
  if data = [] then { c with cpuChild := cpuNone }
  else { c with prefixBytes := c.prefixBytes ++ data.take (prefixMax - c.prefixBytes.length) }

/-! ## Selective retransmission -/

/-- `retransmit_one`: resend up to `n` bytes of the reply from `seq`. -/
def retransmitOne (env : Env) (c : TcpConn) (seq : Seq) (n : Nat) : List Tx :=
  let off := (seq - c.dataBase).toNat
  let n := min n serveChunk
  if off < c.prefixBytes.length then
    [⟨seq, tcpPsh ||| tcpAck, (c.prefixBytes.drop off).take (min n (c.prefixBytes.length - off))⟩]
  else if c.file then
    match env.read c.path (off - c.prefixBytes.length) n with
    | none => []
    | some chunk => [⟨seq, tcpPsh ||| tcpAck, chunk⟩]
  else []

/-- the left edge of the lowest SACK block above what is acknowledged. -/
def holeEnd (una : Seq) (sack : List (Seq × Seq)) : Option Seq := sack.foldl (fun found block =>
    if seqGt block.1 una && found.all (seqGt · block.1) then some block.1 else found) none

/-- the loop of `sack_retransmit`, at most `guard` segments. -/
def fillHole (env : Env) (c : TcpConn) (hole : Seq) : Nat → Seq → List Tx
  | 0, _ => []
  | guard + 1, seq =>
    if seqGt hole seq then
      let n := min (hole - seq).toNat serveChunk
      retransmitOne env c seq n ++ fillHole env c hole guard (seq + BitVec.ofNat 32 n)
    else []

/-- `sack_retransmit`: resend the first hole, or go back if no block tells where it ends. -/
def sackRetransmit (env : Env) (c : TcpConn) (seg : TcpIn) : TcpConn × List Tx :=
  match holeEnd c.sndUna seg.sack with
  | none => (rewindTo c c.sndUna, [])
  | some hole => (c, fillHole env c hole 8 c.sndUna)

/-! ## Inbound segments -/

/-- Reno's growth of the congestion window on `acked` new bytes. -/
def growCwnd (c : TcpConn) (acked : Nat) : Nat :=
  let more := if c.cwnd < c.ssthresh then min acked mss else max (mss * mss / c.cwnd) 1
  min (min (c.cwnd + more) (2 ^ 32 - 1)) maxCwnd

def onNewAck (env : Env) (c : TcpConn) (ack : Seq) : TcpConn :=
  let acked := (ack - c.sndUna).toNat
  let c := { c with sndUna := ack, dupAcks := 0, cwnd := growCwnd c acked }
  let c :=
    if c.rttActive && !seqGt c.rttSeq ack then
      { rttUpdate c ((env.nowUs + 2 ^ 64 - c.rttStartUs) % 2 ^ 64) with rttActive := false }
    else c
  if seqGt c.sndUna c.sndNxt then rewindTo c c.sndUna else c

def halveCwnd (c : TcpConn) : TcpConn :=
  { c with ssthresh := max (c.cwnd / 2) minCwnd, cwnd := max (c.cwnd / 2) minCwnd }

/-- resend what the peer misses: the hole if its SACK blocks tell, else everything from there on. -/
def fastRetransmit (env : Env) (c : TcpConn) (seg : TcpIn) : TcpConn × List Tx :=
  if seg.sack ≠ [] then sackRetransmit env c seg else (rewindTo c c.sndUna, [])

/-- a duplicate acknowledgement; the third starts a fast retransmit. -/
def onDupAck (env : Env) (c : TcpConn) (seg : TcpIn) : TcpConn × List Tx :=
  let dupAcks := min (c.dupAcks + 1) 255
  if dupAcks ≥ 3 ∧ c.lastRexmitUna ≠ c.sndUna then
    let (c, sent) := fastRetransmit env (halveCwnd c) seg
    ({ c with lastRexmitUna := c.sndUna, dupAcks := 0 }, sent)
  else ({ c with dupAcks := dupAcks }, [])

def onAck (env : Env) (c : TcpConn) (seg : TcpIn) : TcpConn × List Tx :=
  if !seg.has tcpAck then (c, [])
  else if seqGt seg.ack c.sndUna then (onNewAck env c seg.ack, [])
  else if seg.ack = c.sndUna ∧ c.sndNxt ≠ c.sndUna ∧ seg.data = [] then onDupAck env c seg
  else (c, [])

def takeWindow (c : TcpConn) (seg : TcpIn) : TcpConn :=
  { c with
    window := seg.window.toNat
    state := if c.state = .synRcvd ∧ seg.has tcpAck then .established else c.state }

/-- the first half of `handle_conn_segment`: acknowledgement, window, handshake, session reset. -/
def receive (env : Env) (c : TcpConn) (seg : TcpIn) : TcpConn × List Tx :=
  let (c, sent) := onAck env { c with lastRx := env.now } seg
  (sessionResetIfDone (takeWindow c seg), sent)

def takesRequest (c : TcpConn) (seg : TcpIn) : Bool := !c.responded && !seg.data.isEmpty && seg.seq == c.rcvNxt

def staged (c : TcpConn) (seg : TcpIn) : TcpConn :=
  { c with
    rcvNxt := c.rcvNxt + BitVec.ofNat 32 seg.data.length
    responded := true
    dataBase := c.sndNxt }

/-- what a request handler leaves: the connection, whether to close it without a reply, and the
events of type `τ` it caused. -/
structure Served (τ : Type) where
  conn : TcpConn
  close : Bool
  events : List τ

structure Outcome (τ : Type) where
  conn : TcpConn
  sent : List Tx
  close : Bool
  events : List τ

def onFin {τ : Type} (c : TcpConn) (seg : TcpIn) (sent : List Tx) (events : List τ) : Outcome τ :=
  if seg.has tcpFin then
    let c := { c with rcvNxt := seg.seq + BitVec.ofNat 32 seg.data.length + 1 }
    ⟨c, sent ++ [sendSeg c tcpAck []], true, events⟩
  else ⟨c, sent, false, events⟩

/-- `handle_conn_segment`; `dispatch` is `handle_9p` or `start_response`, by the local port. -/
def handleConnSegment {τ : Type} (dispatch : TcpConn → Bytes → Served τ) (env : Env) (c : TcpConn)
    (seg : TcpIn) : Outcome τ :=
  let (c, sent) := receive env c seg
  if takesRequest c seg then
    let served := dispatch (staged c seg) seg.data
    if served.close then
      ⟨served.conn, sent ++ [sendSeg served.conn (tcpRst ||| tcpAck) []], true, served.events⟩
    else onFin served.conn seg sent served.events
  else onFin c seg sent []

end Ouroboros.Netd
