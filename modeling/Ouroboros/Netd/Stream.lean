import Ouroboros.Netd.Conn
import Ouroboros.Lib.Transition

/-!
# netd: the reply stream of a connection

A connection's reply is one byte string, its prefix followed by a file. `Streaming` says how the fields of a
connection encode three places in it: acknowledged, sent next, and highest sent.

* `Input`, `Link.next`  a connection under segments, pumps, timers and child output;
* `Input.Fair`  what the peer, the file server and the request handlers keep to;
* `Input.Orderly`  no FIN is acknowledged behind a rewound cursor, and nothing is open when a request comes;
* `reply_stream`  every byte and FIN sent in a fair, orderly run is where the reply has it.
-/

namespace Ouroboros.Netd

open Transition Serial List TcpConn Nat Bool

/-! ## Links -/

/-- a connection, with the highest sequence number the server has sent on it. -/
structure Link where
  conn : TcpConn
  high : Seq
deriving DecidableEq

def Tx.finish (tx : Tx) : Seq := tx.seq + BitVec.ofNat 32 (tx.payload.length + (tx.has tcpFin).toNat)

def raise (high : Seq) (sent : List Tx) : Seq :=
  sent.foldl (fun h tx => if seqGt tx.finish h then tx.finish else h) high

inductive Input (τ : Type) where
  | segment (dispatch : TcpConn → Bytes → Served τ) (env : Env) (seg : TcpIn)
  | pump (env : Env)
  | rto (now : Nat)
  | reap (now : Nat)
  | child (data : Bytes)

variable {τ : Type}

/-- the pump runs only on a connection with a reply, and output reaches only the connection that
captures it, as `serve` has it. -/
def Input.outcome (c : TcpConn) : Input τ → Outcome τ
  | .segment dispatch env seg => handleConnSegment dispatch env c seg
  | .pump env =>
    let (c', sent) := if c.responded then pumpSend env c else (c, [])
    ⟨c', sent, false, []⟩
  | .rto now =>
    let (c', sent, close) := serviceRto c now
    ⟨c', sent, close, []⟩
  | .reap now => ⟨c, (reapIdle c now).toList, (reapIdle c now).isSome, []⟩
  | .child data => ⟨if c.cpuChild = cpuNone then c else cpuChildMsg c data, [], false, []⟩

def Link.next (l : Link) (i : Input τ) : Option Link :=
  if (i.outcome l.conn).close then none
  else some ⟨(i.outcome l.conn).conn, raise l.high (i.outcome l.conn).sent⟩

def Opened (l : Link) : Prop := ∃ seg now, l = ⟨openConn seg now, serverIsn + 1⟩

/-! ## The reply -/

section
variable (disk : Bytes → Bytes)

def TcpConn.reply (c : TcpConn) : Bytes := c.prefixBytes ++ if c.file then disk c.path else []

/-- the bytes of a segment stand in the reply where its sequence number says, and a FIN after the
last of them, on a connection that is no session. -/
def OnStream (c : TcpConn) (tx : Tx) : Prop := (∀ k (hk : k < tx.payload.length),
    (c.reply disk)[(tx.seq + BitVec.ofNat 32 k - c.dataBase).toNat]? = some tx.payload[k]) ∧
  (tx.has tcpFin = true → tx.seq = c.dataBase + BitVec.ofNat 32 (c.reply disk).length ∧ c.session = false)

/-- reads return the file's bytes from the offset on, and some of them unless there are none. -/
def Env.Reads (env : Env) : Prop :=
  ∀ path off want, ∃ chunk, env.read path off want = some chunk ∧ chunk <+: (disk path).drop off ∧
    chunk.length ≤ want ∧ (chunk = [] → want = 0 ∨ (disk path).length ≤ off)

end

/-- what a request handler may do to the connection it is given: stage a reply from its start. -/
structure Stages (dispatch : TcpConn → Bytes → Served τ) : Prop where
  sndNxt : ∀ c req, (dispatch c req).conn.sndNxt = c.sndNxt
  sndUna : ∀ c req, (dispatch c req).conn.sndUna = c.sndUna
  dataBase : ∀ c req, (dispatch c req).conn.dataBase = c.dataBase
  window : ∀ c req, (dispatch c req).conn.window = c.window
  cwnd : ∀ c req, (dispatch c req).conn.cwnd = c.cwnd
  responded : ∀ c req, (dispatch c req).conn.responded = c.responded
  finSent : ∀ c req, (dispatch c req).conn.finSent = c.finSent
  eof : ∀ c req, (dispatch c req).conn.eof = true → c.eof = true
  prefixOff : ∀ c req, (dispatch c req).conn.prefixOff = 0
  readOff : ∀ c req, (dispatch c req).conn.file = true → (dispatch c req).conn.readOff = 0
  child : ∀ c req, c.cpuChild = cpuNone → (dispatch c req).conn.cpuChild ≠ cpuNone →
    (dispatch c req).conn.file = false ∧ (dispatch c req).conn.prefixBytes.length ≤ prefixMax

/-- the peer acknowledges only what was sent, reads return the file and handlers stage replies. -/
def Input.Fair (disk : Bytes → Bytes) (l : Link) : Input τ → Prop
  | .segment dispatch env seg =>
    Stages dispatch ∧ env.Reads disk ∧ (seg.has tcpAck = true → seqGt seg.ack l.high = false) ∧
      ∀ block ∈ seg.sack, seqGt block.1 l.high = false ∧ seqGt block.2 l.high = false
  | .pump env => env.Reads disk
  | .rto _ | .reap _ | .child _ => True

/-- replies are shorter than the sequence space; the FIN is acknowledged only while the send cursor is past it; a
first request comes with everything before it acknowledged. -/
def Input.Orderly (disk : Bytes → Bytes) (l : Link) : Input τ → Prop
  | .segment dispatch _ seg =>
    (∀ c, ((dispatch c seg.data).conn.reply disk).length < 2 ^ 32) ∧
    (l.conn.responded = true → seg.has tcpAck = true →
      seg.ack = l.conn.dataBase + BitVec.ofNat 32 ((l.conn.reply disk).length + 1) →
      l.conn.sndNxt = seg.ack) ∧
    (l.conn.responded = false → seg.data ≠ [] → seg.seq = l.conn.rcvNxt →
      l.conn.sndUna = l.high ∨ seg.has tcpAck = true ∧ seg.ack = l.high)
  | .pump _ | .rto _ | .reap _ | .child _ => True

def Link.Step (disk : Bytes → Bytes) (l : Link) (i : Input τ) (l' : Link) : Prop :=
  i.Fair disk l ∧ i.Orderly disk l ∧ l.next i = some l'

/-! ## Places in the reply -/

structure Cursor where
  una : Seq
  nxt : Seq
  base : Seq
  head : Bytes
  headOff : Nat
  file : Bool
  path : Bytes
  readOff : Nat
  eof : Bool
  finSent : Bool
  session : Bool
  busy : Bool

def TcpConn.cursor (c : TcpConn) : Cursor :=
  ⟨c.sndUna, c.sndNxt, c.dataBase, c.prefixBytes, c.prefixOff, c.file, c.path, c.readOff, c.eof,
    c.finSent, c.session, c.cpuChild != cpuNone⟩

def Cursor.reply (disk : Bytes → Bytes) (x : Cursor) : Bytes := x.head ++ if x.file then disk x.path else []

/-- **The fields encode three places of the reply**: `una` acknowledged, `nxt` sent next, and `hi`
the highest sent. One place more than the reply is long stands for the FIN. -/
structure Streaming (disk : Bytes → Bytes) (x : Cursor) (high : Seq) (una nxt hi : Nat) : Prop where
  una_eq : x.una = ahead x.base una
  nxt_eq : x.nxt = ahead x.base nxt
  high_eq : high = ahead x.base hi
  una_le : una ≤ nxt
  nxt_le : nxt ≤ hi
  window : hi ≤ una + maxCwnd
  short : (x.reply disk).length < 2 ^ 32
  top : hi ≤ (x.reply disk).length + 1
  headOff : x.headOff = min nxt x.head.length
  readOff : x.file = true → x.finSent = false → x.readOff = nxt - x.head.length
  eof : x.eof = true → (x.reply disk).length ≤ nxt
  fin : x.finSent = true → nxt = (x.reply disk).length + 1 ∧ (x.file = true → x.eof = true) ∧ x.session = false
  unfin : x.finSent = false → nxt ≤ (x.reply disk).length
  session : x.session = true → hi ≤ (x.reply disk).length
  busy : x.busy = true → hi = 0 ∧ x.file = false ∧ x.eof = false ∧ x.head.length ≤ prefixMax

/-- between requests at most the SYN is outstanding and nothing is staged. -/
structure Idle (x : Cursor) (high : Seq) : Prop where
  places : ∃ n h, x.nxt = ahead x.una n ∧ high = ahead x.una h ∧ n ≤ h ∧ h ≤ 1
  head : x.head = []
  file : x.file = false
  eof : x.eof = false
  finSent : x.finSent = false
  busy : x.busy = false

structure Tracked (disk : Bytes → Bytes) (l : Link) : Prop where
  cwnd : l.conn.cwnd ≤ maxCwnd
  idle : l.conn.responded = false → Idle l.conn.cursor l.high
  streaming : l.conn.responded = true → ∃ una nxt hi, Streaming disk l.conn.cursor l.high una nxt hi

section
variable {disk : Bytes → Bytes} {c : TcpConn} {x : Cursor} {high : Seq} {una nxt hi : Nat}

theorem Streaming.bounds (h : Streaming disk x high una nxt hi) :
    maxCwnd = 65535 ∧ una ≤ nxt ∧ nxt ≤ hi ∧ hi ≤ una + maxCwnd ∧ hi ≤ (x.reply disk).length + 1 :=
  ⟨rfl, h.una_le, h.nxt_le, h.window, h.top⟩

theorem Streaming.seqs (h : Streaming disk c.cursor high una nxt hi) :
    c.sndUna = ahead c.dataBase una ∧ c.sndNxt = ahead c.dataBase nxt ∧ high = ahead c.dataBase hi :=
  ⟨h.una_eq, h.nxt_eq, h.high_eq⟩

end

theorem onStream_data {disk : Bytes → Bytes} {c : TcpConn} {payload : Bytes} {o : Nat}
    (hp : payload <+: (c.reply disk).drop o) (ho : (c.reply disk).length < 2 ^ 32) :
    OnStream disk c ⟨ahead c.dataBase o, tcpPsh ||| tcpAck, payload⟩ := by
  have hfin : (tcpPsh ||| tcpAck) &&& tcpFin = 0 := by decide
  refine ⟨?_, fun h => by simp [Tx.has, hfin] at h⟩
  intro k hk
  have hget : payload[k]? = ((c.reply disk).drop o)[k]? := by
    obtain ⟨rest, hrest⟩ := hp
    rw [← hrest, getElem?_append_left hk]
  rw [getElem?_drop, getElem?_eq_getElem hk] at hget
  have hlt : o + k < (c.reply disk).length := by
    by_contra hge
    rw [getElem?_eq_none (by omega)] at hget
    cases hget
  have hseq : ahead c.dataBase o + BitVec.ofNat 32 k = ahead c.dataBase (o + k) := ahead_ahead _ _ _
  rw [hseq, toNat_ahead_sub_base _ (by omega), ← hget]

theorem onStream_bare (disk : Bytes → Bytes) (c : TcpConn) (seq : Seq) {flags : BitVec 8}
    (h : flags &&& tcpFin = 0) : OnStream disk c ⟨seq, flags, []⟩ := by
  refine ⟨fun k hk => absurd hk (not_lt_zero k), fun hf => ?_⟩
  simp [Tx.has, h] at hf

theorem finish_data (base : Seq) (o : Nat) (payload : Bytes) :
    Tx.finish ⟨ahead base o, tcpPsh ||| tcpAck, payload⟩ = ahead base (o + payload.length) := by
  have hfin : (tcpPsh ||| tcpAck) &&& tcpFin = 0 := by decide
  simp [Tx.finish, Tx.has, hfin, ahead, BitVec.ofNat_add, BitVec.add_assoc]

theorem raise_single {base : Seq} {tx : Tx} {hi e : Nat} (htx : tx.finish = ahead base e)
    (h₁ : 2 * (e - hi) < 2 ^ 32) (h₂ : 2 * (hi - e) < 2 ^ 32) :
    raise (ahead base hi) [tx] = ahead base (max hi e) := by
  have hgt := gt_ahead base h₁ h₂
  simp only [raise, foldl_cons, foldl_nil, htx, seqGt]
  by_cases h : hi < e
  · rw [if_pos (hgt.2 h), Nat.max_eq_right h.le]
  · rw [if_neg (mt hgt.1 h), Nat.max_eq_left (Nat.le_of_not_lt h)]

/-! ## Moving the cursor -/

section
variable {disk : Bytes → Bytes} {c : TcpConn} {x : Cursor} {high : Seq} {una nxt hi : Nat}
    {n o : Nat} {env : Env}

theorem rewindTo_cursor (c : TcpConn) (hn : n < 2 ^ 32) : (rewindTo c (ahead c.dataBase n)).cursor =
      { c.cursor with
        nxt := ahead c.dataBase n
        headOff := min n c.prefixBytes.length
        readOff := n - c.prefixBytes.length
        eof := false
        finSent := false } := by
  simp only [rewindTo, cursor, toNat_ahead_sub_base _ hn]

section
variable (h : Streaming disk x high una nxt hi)
include h

theorem Streaming.rewind {u : Nat} (hu : una ≤ u) (hun : u ≤ n) (hn : n ≤ hi)
    (hlen : n ≤ (x.reply disk).length) :
    Streaming disk
      { x with
        una := ahead x.base u
        nxt := ahead x.base n
        headOff := min n x.head.length
        readOff := n - x.head.length
        eof := false
        finSent := false } high u n hi where
  una_eq := rfl
  nxt_eq := rfl
  high_eq := h.high_eq
  una_le := hun
  nxt_le := hn
  window := le_trans h.window (Nat.add_le_add_right hu _)
  short := h.short
  top := h.top
  headOff := rfl
  readOff := fun _ _ => rfl
  eof := fun he => by cases he
  fin := fun hf => by cases hf
  unfin := fun _ => hlen
  session := h.session
  busy := fun hb => ⟨(h.busy hb).1, (h.busy hb).2.1, rfl, (h.busy hb).2.2.2⟩

theorem Streaming.acked {u : Nat} (hu : una ≤ u)
    (hun : u ≤ nxt) : Streaming disk { x with una := ahead x.base u } high u nxt hi :=
  { h with
    una_eq := rfl
    una_le := hun
    window := le_trans h.window (Nat.add_le_add_right hu _) }

theorem Streaming.lt (hn : n ≤ (x.reply disk).length) : n < 2 ^ 32 := lt_of_le_of_lt hn h.short

theorem Streaming.una_le_length (hne : x.nxt ≠ x.una) : una ≤ (x.reply disk).length := by
  have hlt : una ≠ nxt := by
    rintro rfl
    exact hne (h.nxt_eq.trans h.una_eq.symm)
  obtain ⟨-, h₁, h₂, -, h₃⟩ := h.bounds
  omega

end

theorem Streaming.rewind_una (h : Streaming disk c.cursor high una nxt hi) (hne : c.sndNxt ≠ c.sndUna) :
    Streaming disk (rewindTo c c.sndUna).cursor high una una hi := by
  have hle : una ≤ (c.cursor.reply disk).length := h.una_le_length hne
  have hseq : c.sndUna = ahead c.dataBase una := h.una_eq
  have hr := h.rewind le_rfl le_rfl (h.una_le.trans h.nxt_le) hle
  have hx : (rewindTo c c.sndUna).cursor = _ := hseq ▸ rewindTo_cursor c (h.lt hle)
  rw [hx]
  have hu : c.cursor.una = ahead c.cursor.base una := h.una_eq
  rw [← hu] at hr
  exact hr

theorem Idle.rewind (h : Idle c.cursor high) : Idle (rewindTo c c.sndUna).cursor high where
  places := by
    obtain ⟨n, k, -, hk, hnk, h1⟩ := h.places
    exact ⟨0, k, (ahead_zero _).symm, hk, zero_le _, h1⟩
  head := h.head
  file := h.file
  eof := rfl
  finSent := rfl
  busy := h.busy

/-! ## Acknowledgements -/

/-- what an acknowledgement does: nothing; it moves what is acknowledged and drags a cursor left behind; it sends
everything again, or the first hole. -/
inductive Acked (env : Env) (c : TcpConn) (seg : TcpIn) : Cursor → List Tx → Prop
  | nothing (hold : seg.has tcpAck = true → seqGt seg.ack c.sndUna = false) : Acked env c seg c.cursor []
  | moved (hflag : seg.has tcpAck = true) (hnew : seqGt seg.ack c.sndUna = true) :
    Acked env c seg (if seqGt seg.ack c.sndNxt then (rewindTo { c with sndUna := seg.ack } seg.ack).cursor
      else { c.cursor with una := seg.ack }) []
  | again (hold : seg.has tcpAck = true → seqGt seg.ack c.sndUna = false) (hflight : c.sndNxt ≠ c.sndUna) :
    Acked env c seg (rewindTo c c.sndUna).cursor []
  | filled (hold : seg.has tcpAck = true → seqGt seg.ack c.sndUna = false) {block : Seq × Seq}
    (hm : block ∈ seg.sack) (hnew : seqGt block.1 c.sndUna = true) :
    Acked env c seg c.cursor (fillHole env c block.1 8 c.sndUna)

theorem onNewAck_cursor (env : Env) (c : TcpConn) (ack : Seq) : (onNewAck env c ack).cursor =
      if seqGt ack c.sndNxt then (rewindTo { c with sndUna := ack } ack).cursor
      else { c.cursor with una := ack } := by
  unfold onNewAck
  cases hgt : seqGt ack c.sndNxt <;> dsimp only <;> split <;>
    simp [rttUpdate, rewindTo, cursor, hgt]

theorem holeEnd_eq_some {una hole : Seq} {sack : List (Seq × Seq)} (h : holeEnd una sack = some hole) :
    ∃ block ∈ sack, block.1 = hole ∧ seqGt hole una := by
  have hfold : ∀ found, sack.foldl (fun found block =>
      if seqGt block.1 una && found.all (seqGt · block.1) then some block.1 else found) found = some hole →
      found = some hole ∨ ∃ block ∈ sack, block.1 = hole ∧ seqGt hole una := by
    clear h
    induction sack with
    | nil => exact fun found h => .inl h
    | cons b rest ih =>
      intro found h
      rw [foldl_cons] at h
      rcases ih _ h with hb | ⟨block, hm, hblock⟩
      · split at hb
        · rename_i hcond
          rw [and_eq_true] at hcond
          cases hb
          exact .inr ⟨b, mem_cons_self, rfl, hcond.1⟩
        · exact .inl hb
      · exact .inr ⟨block, mem_cons_of_mem _ hm, hblock⟩
  exact (hfold none h).resolve_left nofun

theorem onAck_acked (env : Env) (c : TcpConn) (seg : TcpIn) :
    Acked env c seg (onAck env c seg).1.cursor (onAck env c seg).2 := by
  unfold onAck
  split
  · rename_i hflag
    exact .nothing fun h => by simp [h] at hflag
  rename_i hflag
  split
  · rename_i hnew
    rw [onNewAck_cursor]
    exact .moved (by simpa using hflag) hnew
  rename_i hold
  have hold : seg.has tcpAck → seqGt seg.ack c.sndUna = false := fun _ => by simpa using hold
  split
  · rename_i hdup
    unfold onDupAck fastRetransmit sackRetransmit
    dsimp only
    split
    · split
      · split
        · exact .again hold hdup.2.1
        · rename_i hole hhole
          obtain ⟨block, hm, rfl, hnew⟩ := holeEnd_eq_some hhole
          exact .filled hold hm hnew
      · exact .again hold hdup.2.1
    · exact .nothing hold
  · exact .nothing hold

theorem onAck_frame (env : Env) (c : TcpConn) (seg : TcpIn) :
    (onAck env c seg).1.responded = c.responded ∧ (onAck env c seg).1.rcvNxt = c.rcvNxt ∧
      (c.cwnd ≤ maxCwnd → (onAck env c seg).1.cwnd ≤ maxCwnd) := by
  have hgrown (acked : Nat) : growCwnd c acked ≤ maxCwnd := min_le_right _ _
  have hhalf (h : c.cwnd ≤ maxCwnd) : (halveCwnd c).cwnd ≤ maxCwnd := by
    simp only [halveCwnd, minCwnd, mss, maxCwnd] at h ⊢
    omega
  unfold onAck onNewAck onDupAck fastRetransmit sackRetransmit
  dsimp only
  repeat' split
  all_goals first
    | exact ⟨rfl, rfl, id⟩
    | exact ⟨rfl, rfl, hhalf⟩
    | exact ⟨rfl, rfl, fun _ => hgrown _⟩

theorem Streaming.newAck (h : Streaming disk c.cursor high una nxt hi) {ack : Seq}
    (hnew : seqGt ack c.sndUna) (hsent : seqGt ack high = false)
    (hfin : ack = c.dataBase + BitVec.ofNat 32 ((c.reply disk).length + 1) → c.sndNxt = ack) :
    ∃ una' nxt', Streaming disk (if seqGt ack c.sndNxt then (rewindTo { c with sndUna := ack } ack).cursor
      else { c.cursor with una := ack }) high una' nxt' hi := by
  obtain ⟨hcap, h₁, h₂, h₃, htop⟩ := h.bounds
  obtain ⟨huna, hnxt, hhigh⟩ := h.seqs
  rw [huna] at hnew
  rw [hhigh] at hsent
  obtain ⟨k, hk, hkhi, rfl⟩ := between c.dataBase (by omega) (by omega) hnew hsent
  have hgt : seqGt (ahead c.dataBase k) c.sndNxt ↔ nxt < k := by
    rw [hnxt]
    exact gt_ahead _ (by omega) (by omega)
  split
  · -- the cursor was behind: it may not be behind the FIN
    have hlt : nxt < k := hgt.1 (by assumption)
    have hlen : k ≤ (c.cursor.reply disk).length := by
      by_contra hpast
      have hk' : k = (c.cursor.reply disk).length + 1 := by omega
      have hback := hfin (by rw [hk']; rfl)
      rw [hnxt] at hback
      have hcircle : ahead c.dataBase k = ahead (ahead c.dataBase nxt) (k - nxt) := by
        rw [ahead_ahead, Nat.add_sub_cancel' hlt.le]
      have hzero : k - nxt = 0 := ahead_inj (ahead c.dataBase nxt) (by omega) (by omega)
          (by rw [← hcircle, ahead_zero, hback])
      omega
    have hr := h.rewind hk.le le_rfl hkhi hlen
    exact ⟨k, k, (rewindTo_cursor { c with sndUna := ahead c.dataBase k } (h.lt hlen)) ▸ hr⟩
  · have hle : k ≤ nxt := Nat.le_of_not_lt (mt hgt.2 (by assumption))
    exact ⟨k, nxt, h.acked hk.le hle⟩

/-! ## Retransmissions -/

theorem reply_drop_head (disk : Bytes → Bytes) (c : TcpConn) (h : o ≤ c.prefixBytes.length) :
    c.prefixBytes.drop o <+: (c.reply disk).drop o := by
  rw [reply, drop_append_of_le_length h]
  exact prefix_append _ _

theorem reply_drop_file (h : c.prefixBytes.length ≤ o)
    (hf : c.file) : (disk c.path).drop (o - c.prefixBytes.length) = (c.reply disk).drop o := by
  rw [reply, if_pos hf, drop_append, drop_eq_nil_of_le h, nil_append]

theorem retransmitOne_sent (hr : env.Reads disk) (ho : o < 2 ^ 32) {tx : Tx}
    (htx : tx ∈ retransmitOne env c (ahead c.dataBase o) n) :
    ∃ payload, tx = ⟨ahead c.dataBase o, tcpPsh ||| tcpAck, payload⟩ ∧
      payload <+: (c.reply disk).drop o ∧ payload.length ≤ n := by
  unfold retransmitOne at htx
  rw [toNat_ahead_sub_base _ ho] at htx
  dsimp only at htx
  split at htx
  · rename_i hlt
    rw [mem_singleton] at htx
    refine ⟨_, htx, ( take_prefix _ _).trans (reply_drop_head disk c hlt.le), ?_⟩
    rw [length_take]
    omega
  · rename_i hge
    split at htx
    · rename_i hf
      obtain ⟨chunk, hread, hpre, hlen, -⟩ := hr c.path (o - c.prefixBytes.length) (min n serveChunk)
      rw [hread] at htx
      rw [mem_singleton] at htx
      rw [reply_drop_file (Nat.le_of_not_lt hge) hf] at hpre
      exact ⟨chunk, htx, hpre, by omega⟩
    · cases htx

theorem fillHole_sent (hr : env.Reads disk) {h : Nat} (hh : h ≤ 2 ^ 32) (guard : Nat)
    (ho : o ≤ h) (hnear : h ≤ o + maxCwnd) {tx : Tx}
    (htx : tx ∈ fillHole env c (ahead c.dataBase h) guard (ahead c.dataBase o)) :
    ∃ o' payload, tx = ⟨ahead c.dataBase o', tcpPsh ||| tcpAck, payload⟩ ∧
      payload <+: (c.reply disk).drop o' ∧ o ≤ o' ∧ o' + payload.length ≤ h := by
  have hcap : maxCwnd = 65535 := rfl
  induction guard generalizing o with
  | zero => cases htx
  | succ guard ih =>
    unfold fillHole at htx
    have hgt : seqGt (ahead c.dataBase h) (ahead c.dataBase o) ↔ o < h := gt_ahead _ (by omega) (by omega)
    split at htx
    · have hlt : o < h := hgt.1 (by assumption)
      rw [toNat_ahead_sub_ahead _ ho (by omega)] at htx
      dsimp only at htx
      rcases mem_append.1 htx with hone | hrest
      · obtain ⟨payload, rfl, hpre, hlen⟩ := retransmitOne_sent hr (by omega) hone
        exact ⟨o, payload, rfl, hpre, le_rfl, by omega⟩
      have hseq : ahead c.dataBase o + BitVec.ofNat 32 (min (h - o) serveChunk) =
          ahead c.dataBase (o + min (h - o) serveChunk) := ahead_ahead _ _ _
      rw [hseq] at hrest
      obtain ⟨o', payload, rfl, hpre, hle, hlen⟩ := ih (by omega) (by omega) hrest
      exact ⟨o', payload, rfl, hpre, by omega, hlen⟩
    · cases htx

theorem raise_below {base : Seq} (sent : List Tx)
    (h : ∀ tx ∈ sent, ∃ e, tx.finish = ahead base e ∧ e ≤ hi ∧ hi ≤ e + maxCwnd) :
    raise (ahead base hi) sent = ahead base hi := by
  have hcap : maxCwnd = 65535 := rfl
  induction sent with
  | nil => rfl
  | cons tx rest ih =>
    obtain ⟨e, he, hle, hnear⟩ := h tx mem_cons_self
    have hone : raise (ahead base hi) [tx] = ahead base (max hi e) := raise_single he (by omega) (by omega)
    rw [max_eq_left hle] at hone
    have hcons : raise (ahead base hi) (tx :: rest) = raise (raise (ahead base hi) [tx]) rest := rfl
    rw [hcons, hone]
    exact ih fun tx htx => h tx (mem_cons_of_mem _ htx)

/-- what is sent while a segment is acknowledged: bytes of the reply sent before. -/
def Resent (disk : Bytes → Bytes) (c : TcpConn) (high : Seq) (sent : List Tx) : Prop :=
  (∀ tx ∈ sent, OnStream disk c tx) ∧ raise high sent = high

theorem resent_nil (disk : Bytes → Bytes) (c : TcpConn) (high : Seq) : Resent disk c high [] := ⟨by simp, rfl⟩

theorem Streaming.fillHole (h : Streaming disk c.cursor high una nxt hi)
    (hr : env.Reads disk) {hole : Seq} (hnew : seqGt hole c.sndUna)
    (hsent : seqGt hole high = false) (guard : Nat) :
    Resent disk c high (fillHole env c hole guard c.sndUna) := by
  obtain ⟨hcap, h₁, h₂, h₃, htop⟩ := h.bounds
  obtain ⟨huna, -, hhigh⟩ := h.seqs
  have hshort := h.short
  rw [huna] at hnew ⊢
  rw [hhigh] at hsent ⊢
  obtain ⟨k, hk, hkhi, rfl⟩ := between c.dataBase (by omega) (by omega) hnew hsent
  refine ⟨?_, raise_below _ ?_⟩
  · intro tx htx
    obtain ⟨o, payload, rfl, hpre, -, -⟩ := fillHole_sent hr (by omega) guard hk.le (by omega) htx
    exact onStream_data hpre hshort
  intro tx htx
  obtain ⟨o, payload, rfl, hpre, hle, hend⟩ := fillHole_sent hr (by omega) guard hk.le (by omega) htx
  exact ⟨o + payload.length, finish_data .., by omega, by omega⟩

theorem fillHole_nil (hhead : c.prefixBytes = []) (hfile : c.file = false) (hole : Seq)
    (guard : Nat) (seq : Seq) : Netd.fillHole env c hole guard seq = [] := by
  induction guard generalizing seq with
  | zero => rfl
  | succ guard ih =>
    unfold Netd.fillHole
    split
    · simp [ih, retransmitOne, hhead, hfile]
    · rfl

theorem Idle.acked {seg : TcpIn} {sent : List Tx} (h : Idle c.cursor high) (ha : Acked env c seg x sent)
    (hsent : seg.has tcpAck → seqGt seg.ack high = false) :
    Idle x high ∧ sent = [] ∧ (c.sndUna = high ∨ seg.has tcpAck ∧ seg.ack = high → x.una = high) := by
  obtain ⟨n, k, hn, hk, hnk, h1⟩ := h.places
  have hnxt : c.sndNxt = ahead c.sndUna n := hn
  have hhigh : high = ahead c.sndUna k := hk
  -- the highest number is at most one ahead; were it one and acknowledged, it would be new
  have hstill (hold : seg.has tcpAck → seqGt seg.ack c.sndUna = false) :
      c.sndUna = high ∨ seg.has tcpAck ∧ seg.ack = high → c.sndUna = high := by
    rintro (hall | ⟨hflag, hack⟩)
    · exact hall
    have hnot := hold hflag
    have hk0 : ¬ 0 < k := by
      rw [← gt_base c.sndUna (by omega), ← hhigh, ← hack]
      simpa [seqGt] using hnot
    obtain rfl : k = 0 := by omega
    rw [hhigh, ahead_zero]
  cases ha with
  | nothing hold => exact ⟨h, rfl, hstill hold⟩
  | again hold => exact ⟨h.rewind, rfl, hstill hold⟩
  | filled hold => exact ⟨h, fillHole_nil h.head h.file _ 8 _, hstill hold⟩
  | moved hflag hnew =>
    have hack : seg.ack = high := by
      have hhi := hsent hflag
      rw [hhigh] at hhi
      rw [← ahead_zero c.sndUna] at hnew
      obtain ⟨m, hm0, hmk, hack⟩ := between c.sndUna (zero_le _) (by omega) hnew hhi
      obtain rfl : m = k := by omega
      rw [hack, hhigh]
    rw [hack]
    split
    · exact ⟨⟨⟨0, 0, (ahead_zero _).symm, (ahead_zero _).symm, le_rfl, zero_le _⟩, h.head, h.file,
        rfl, rfl, h.busy⟩, rfl, fun _ => rfl⟩
    rename_i hle
    have hgt : seqGt high c.sndNxt ↔ n < k := by
      rw [hnxt, hhigh]
      exact gt_ahead _ (by omega) (by omega)
    have hnm : n = k := by
      have := mt hgt.2 hle
      omega
    refine ⟨⟨⟨0, 0, ?_, (ahead_zero _).symm, le_rfl, zero_le _⟩, h.head, h.file, h.eof,
      h.finSent, h.busy⟩, rfl, fun _ => rfl⟩
    rw [ahead_zero, hn, hnm]
    exact hhigh.symm

end

/-! ## Segments -/

section
variable {disk : Bytes → Bytes} {l : Link} {env : Env} {c : TcpConn} {seg : TcpIn}

/-- the part of `Fair` and `Orderly` an acknowledgement rests on. -/
structure Acks (disk : Bytes → Bytes) (l : Link) (env : Env) (seg : TcpIn) : Prop where
  reads : env.Reads disk
  ack : seg.has tcpAck = true → seqGt seg.ack l.high = false
  sack : ∀ block ∈ seg.sack, seqGt block.1 l.high = false
  fin : l.conn.responded = true → seg.has tcpAck = true →
    seg.ack = l.conn.dataBase + BitVec.ofNat 32 ((l.conn.reply disk).length + 1) →
    l.conn.sndNxt = seg.ack

theorem Streaming.acks {una nxt hi : Nat} {x : Cursor} {sent : List Tx}
    (h : Streaming disk l.conn.cursor l.high una nxt hi) (ha : Acks disk l env seg)
    (hresp : l.conn.responded) (hacked : Acked env l.conn seg x sent) :
    (∃ una' nxt', Streaming disk x l.high una' nxt' hi) ∧ Resent disk l.conn l.high sent := by
  cases hacked with
  | nothing => exact ⟨⟨una, nxt, h⟩, resent_nil _ _ _⟩
  | moved hflag hnew => exact ⟨h.newAck hnew (ha.ack hflag) (ha.fin hresp hflag), resent_nil _ _ _⟩
  | again _ hne => exact ⟨⟨una, una, h.rewind_una hne⟩, resent_nil _ _ _⟩
  | filled _ hm hnew => exact ⟨⟨una, nxt, h⟩, h.fillHole ha.reads hnew (ha.sack _ hm) 8⟩

/-- **Acknowledgements keep a link on track**, and what they resend was sent before. -/
theorem Tracked.acks (h : Tracked disk l) (ha : Acks disk l env seg) :
    Tracked disk ⟨(onAck env l.conn seg).1, l.high⟩ ∧ Resent disk l.conn l.high (onAck env l.conn seg).2 := by
  obtain ⟨hresp, -, hcwnd⟩ := onAck_frame env l.conn seg
  have hacked := onAck_acked env l.conn seg
  cases hr : l.conn.responded with
  | false =>
    obtain ⟨hidle, hnil, -⟩ := (h.idle hr).acked hacked ha.ack
    refine ⟨⟨hcwnd h.cwnd, fun _ => hidle, fun ht => ?_⟩, hnil ▸ resent_nil _ _ _⟩
    exact nomatch (hresp.trans hr).symm.trans ht
  | true =>
    obtain ⟨una, nxt, hi, hs⟩ := h.streaming hr
    obtain ⟨⟨una', nxt', hs'⟩, hre⟩ := hs.acks ha hr hacked
    refine ⟨⟨hcwnd h.cwnd, fun hf => ?_, fun _ => ⟨una', nxt', hi, hs'⟩⟩, hre⟩
    exact nomatch (hresp.trans hr).symm.trans hf

/-- **A session goes back to waiting only with everything acknowledged.** -/
theorem Tracked.reset (h : Tracked disk l) : Tracked disk ⟨sessionResetIfDone l.conn, l.high⟩ ∧
      (l.conn.responded → (sessionResetIfDone l.conn).responded = false →
        (sessionResetIfDone l.conn).sndUna = l.high) := by
  unfold sessionResetIfDone
  split
  · rename_i hcond
    simp only [and_eq_true, beq_iff_eq, not_eq_true'] at hcond
    obtain ⟨⟨⟨⟨⟨hsess, hr⟩, hfin⟩, hchild⟩, hpend⟩, hall⟩ := hcond
    obtain ⟨una, nxt, hi, hs⟩ := h.streaming hr
    have hnxt : l.conn.sndNxt = ahead l.conn.dataBase nxt := hs.nxt_eq
    have hlen : (l.conn.cursor.reply disk).length ≤ nxt := by
      simp only [replyPending, or_eq_false_iff, decide_eq_false_iff_not, not_lt, and_eq_false_iff,
        not_eq_false'] at hpend
      obtain ⟨hoff, hfile | heof⟩ := hpend
      · have hoff' : l.conn.prefixOff = min nxt l.conn.prefixBytes.length := hs.headOff
        have hlen : (l.conn.cursor.reply disk).length = l.conn.prefixBytes.length := by
          simp [Cursor.reply, cursor, hfile]
        omega
      · exact hs.eof heof
    have hhigh : l.high = l.conn.sndUna := by
      have h₁ := hs.session hsess
      have h₂ := hs.nxt_le
      have hhi : hi = nxt := by omega
      rw [← hall, hnxt, ← hhi]
      exact hs.high_eq
    refine ⟨⟨h.cwnd, fun _ => ?_, fun ht => by cases ht⟩, fun _ _ => hhigh.symm⟩
    refine ⟨⟨0, 0, ?_, ?_, le_rfl, zero_le _⟩, rfl, rfl, rfl, hfin, ?_⟩
    · rw [ahead_zero]
      exact hall
    · rw [ahead_zero]
      exact hhigh
    · simp [cursor, hchild]
  · refine ⟨h, fun ht hf => ?_⟩
    rw [ht] at hf
    cases hf

/-- what `receive` leaves. -/
structure Received (disk : Bytes → Bytes) (l : Link) (env : Env) (seg : TcpIn) : Prop where
  tracked : Tracked disk ⟨(receive env l.conn seg).1, l.high⟩
  resent : Resent disk l.conn l.high (receive env l.conn seg).2
  acked : (receive env l.conn seg).1.responded = false →
    (l.conn.responded = false → l.conn.sndUna = l.high ∨ seg.has tcpAck = true ∧ seg.ack = l.high) →
    (receive env l.conn seg).1.sndUna = l.high

theorem sessionResetIfDone_frame (c : TcpConn) :
    (sessionResetIfDone c).sndUna = c.sndUna ∧ (sessionResetIfDone c).rcvNxt = c.rcvNxt := by
  unfold sessionResetIfDone
  split <;> exact ⟨rfl, rfl⟩

theorem Tracked.received (h : Tracked disk l) (ha : Acks disk l env seg) : Received disk l env seg := by
  -- the tick of the last segment is read by nothing here
  let l₀ : Link := ⟨{ l.conn with lastRx := env.now }, l.high⟩
  have h₀ : Tracked disk l₀ := ⟨h.cwnd, h.idle, h.streaming⟩
  have ha₀ : Acks disk l₀ env seg := ⟨ha.reads, ha.ack, ha.sack, ha.fin⟩
  obtain ⟨h₁, hre⟩ := h₀.acks ha₀
  have h₂ : Tracked disk ⟨takeWindow (onAck env l₀.conn seg).1 seg, l.high⟩ := ⟨h₁.cwnd, h₁.idle, h₁.streaming⟩
  obtain ⟨h₃, hdone⟩ := h₂.reset
  refine ⟨h₃, hre, ?_⟩
  intro hnot hall
  cases hr : l.conn.responded with
  | true => exact hdone ((onAck_frame env l₀.conn seg).1.trans hr) hnot
  | false =>
    have huna : (onAck env l₀.conn seg).1.sndUna = l.high :=
      ((h₀.idle hr).acked (onAck_acked env l₀.conn seg) ha.ack).2.2 (hall hr)
    exact (sessionResetIfDone_frame _).1.trans huna

theorem Idle.nxt_eq {x : Cursor} {high : Seq} (h : Idle x high) (hall : x.una = high) : x.nxt = x.una := by
  obtain ⟨n, k, hn, hk, hnk, h1⟩ := h.places
  have hk0 : k = 0 := ahead_inj x.una (by omega) (by omega) (by rw [← hk, ahead_zero, hall])
  obtain rfl : n = 0 := by omega
  rw [hn, ahead_zero]

/-- **A request is answered from the place where everything before it is acknowledged.** -/
theorem Idle.stage {high : Seq} (h : Idle c.cursor high) (hall : c.sndUna = high)
    (hcwnd : c.cwnd ≤ maxCwnd) {dispatch : TcpConn → Bytes → Served τ} (hd : Stages dispatch)
    (seg : TcpIn) (hshort : ∀ c, ((dispatch c seg.data).conn.reply disk).length < 2 ^ 32) :
    Tracked disk ⟨(dispatch (staged c seg) seg.data).conn, high⟩ := by
  have hnxt : c.sndNxt = c.sndUna := h.nxt_eq hall
  have hchild : c.cpuChild = cpuNone := by
    have hb := h.busy
    simpa [cursor] using hb
  have hresp : (dispatch (staged c seg) seg.data).conn.responded := hd.responded _ _
  have hbase : (dispatch (staged c seg) seg.data).conn.dataBase = c.sndNxt := hd.dataBase _ _
  have hfin : (dispatch (staged c seg) seg.data).conn.finSent = false := (hd.finSent _ _).trans h.finSent
  have heof : (dispatch (staged c seg) seg.data).conn.eof = false := by
    by_contra he
    exact nomatch h.eof.symm.trans (hd.eof (staged c seg) seg.data (by simpa using he))
  refine ⟨?_, fun hf => ?_, fun _ => ⟨0, 0, 0, ?_⟩⟩
  · exact (hd.cwnd _ _).trans_le hcwnd
  · exact nomatch hresp.symm.trans hf
  have hc := hd.child (staged c seg) seg.data hchild
  have hs := hshort (staged c seg)
  refine
    { una_eq := ?_
      nxt_eq := ?_
      high_eq := ?_
      una_le := le_rfl
      nxt_le := le_rfl
      window := zero_le _
      short := hs
      top := zero_le _
      headOff := ?_
      readOff := fun hf _ => ?_
      eof := fun he => ?_
      fin := fun hf => ?_
      unfin := fun _ => zero_le _
      session := fun _ => zero_le _
      busy := fun hb => ?_ }
  · rw [ahead_zero]
    exact (hd.sndUna _ _).trans (hnxt.symm.trans hbase.symm)
  · rw [ahead_zero]
    exact (hd.sndNxt _ _).trans hbase.symm
  · rw [ahead_zero]
    exact hall.symm.trans (hnxt.symm.trans hbase.symm)
  · rw [zero_min]
    exact hd.prefixOff _ _
  · rw [Nat.zero_sub]
    exact hd.readOff _ _ hf
  · exact nomatch heof.symm.trans he
  · exact nomatch hfin.symm.trans hf
  · obtain ⟨hfile, hmax⟩ := hc (by simpa [cursor] using hb)
    exact ⟨rfl, hfile, heof, hmax⟩

theorem receive_rcvNxt (env : Env) (c : TcpConn) (seg : TcpIn) : (receive env c seg).1.rcvNxt = c.rcvNxt :=
  (sessionResetIfDone_frame _).2.trans (onAck_frame env { c with lastRx := env.now } seg).2.1

/-- what an input sends is on the stream, and a link that stays open stays on track. -/
def Stays (disk : Bytes → Bytes) (l : Link) (o : Outcome τ) : Prop :=
  (∀ tx ∈ o.sent, OnStream disk l.conn tx) ∧ (o.close = false → Tracked disk ⟨o.conn, raise l.high o.sent⟩)

/-- **A segment keeps a link on track**, and what is sent on it is on the stream. -/
theorem Tracked.segment (h : Tracked disk l) {dispatch : TcpConn → Bytes → Served τ}
    (hf : (Input.segment dispatch env seg).Fair disk l) (ho : (Input.segment dispatch env seg).Orderly disk l) :
    Stays disk l (handleConnSegment dispatch env l.conn seg) := by
  obtain ⟨hd, hreads, hack, hsack⟩ := hf
  obtain ⟨hshort, hfin, hreq⟩ := ho
  have hr : Received disk l env seg := h.received ⟨hreads, hack, fun b hb => (hsack b hb).1, hfin⟩
  have hon := hr.resent.1
  unfold handleConnSegment
  dsimp only
  have hbare : ∀ (seq : Seq) (flags : BitVec 8), flags &&& tcpFin = 0 →
      ∀ tx ∈ (receive env l.conn seg).2 ++ [⟨seq, flags, []⟩], OnStream disk l.conn tx := by
    intro seq flags hflags tx htx
    rcases mem_append.1 htx with htx | htx
    · exact hon tx htx
    · rw [mem_singleton] at htx
      exact htx ▸ onStream_bare disk l.conn seq hflags
  have hfinish (c : TcpConn) (events : List τ) (ht : Tracked disk ⟨c, l.high⟩) :
      Stays disk l (onFin c seg (receive env l.conn seg).2 events) := by
    unfold onFin
    split
    · exact ⟨hbare _ tcpAck (by decide), fun hc => by cases hc⟩
    · exact ⟨hon, fun _ => by rw [hr.resent.2]; exact ht⟩
  split
  · rename_i htakes
    simp only [takesRequest, and_eq_true, not_eq_true', beq_iff_eq] at htakes
    obtain ⟨⟨hresp, hdata⟩, hseq⟩ := htakes
    have hall : (receive env l.conn seg).1.sndUna = l.high := by
      refine hr.acked hresp fun hidle => hreq hidle ?_ (hseq.trans (receive_rcvNxt env l.conn seg))
      rintro hnil
      rw [hnil] at hdata
      cases hdata
    have hst := (hr.tracked.idle hresp).stage hall hr.tracked.cwnd hd seg hshort
    split
    · exact ⟨hbare _ (tcpRst ||| tcpAck) (by decide), fun hc => by cases hc⟩
    · exact hfinish _ _ hst
  · exact hfinish _ _ hr.tracked

end

/-! ## Pumping -/

section
variable {disk : Bytes → Bytes} {c : TcpConn} {high : Seq} {una nxt hi : Nat}

/-- what has been sent is on the stream, and the link stays on track. -/
def Pumped (disk : Bytes → Bytes) (c : TcpConn) (high : Seq) (r : TcpConn × List Tx) : Prop :=
  (∀ tx ∈ r.2, OnStream disk c tx) ∧ Tracked disk ⟨r.1, raise high r.2⟩

variable (h : Streaming disk c.cursor high una nxt hi)
include h

theorem Streaming.tracked (hw : c.cwnd ≤ maxCwnd) (hresp : c.responded) : Tracked disk ⟨c, high⟩ where
  cwnd := hw
  idle := fun hf => nomatch hresp.symm.trans hf
  streaming := fun _ => ⟨una, nxt, hi, h⟩

omit h in
theorem rttOnSend_frame (c : TcpConn) (segStart : Seq) (nowUs : Nat) :
    (rttOnSend c segStart nowUs).cursor = c.cursor ∧ (rttOnSend c segStart nowUs).cwnd = c.cwnd ∧
      (rttOnSend c segStart nowUs).responded = c.responded := by
  unfold rttOnSend
  split
  · exact ⟨rfl, rfl, rfl⟩
  · split <;> exact ⟨rfl, rfl, rfl⟩

omit h in
theorem length_head_le (disk : Bytes → Bytes) (c : TcpConn) : c.prefixBytes.length ≤ (c.reply disk).length := by
  rw [reply, length_append]
  exact le_add_right _ _

theorem Streaming.finSent_eq (hlt : nxt ≤ (c.reply disk).length) : c.finSent = false := by
  by_contra hf
  have hf' : c.finSent := by simpa using hf
  have hnxt : nxt = (c.reply disk).length + 1 := (h.fin hf').1
  omega

theorem Streaming.room (hw : c.cwnd ≤ maxCwnd) {n : Nat}
    (hn : n ≤ min c.cwnd c.window - (c.sndNxt - c.sndUna).toNat) (hpos : 0 < n) :
    nxt + n ≤ una + maxCwnd := by
  obtain ⟨hcap, h₁, h₂, h₃, -⟩ := h.bounds
  obtain ⟨huna, hnxt, -⟩ := h.seqs
  rw [huna, hnxt, toNat_ahead_sub_ahead _ h₁ (by omega)] at hn
  omega

theorem Streaming.sendData (hw : c.cwnd ≤ maxCwnd)
    (hresp : c.responded) (hchild : c.cpuChild = cpuNone) (env : Env) {payload : Bytes}
    (hpre : payload <+: (c.reply disk).drop nxt) (hroom : nxt + payload.length ≤ una + maxCwnd)
    (hpos : payload ≠ []) {p r : Nat} (hp : p = min (nxt + payload.length) c.prefixBytes.length)
    (hread : c.file → r = nxt + payload.length - c.prefixBytes.length) :
    Pumped disk c high (sendData env c payload p r) := by
  obtain ⟨hcap, h₁, h₂, h₃, -⟩ := h.bounds
  obtain ⟨-, hnxt, hhigh⟩ := h.seqs
  have hpos' : 0 < payload.length := length_pos_of_ne_nil hpos
  have hlen : nxt + payload.length ≤ (c.reply disk).length := by
    have hle := hpre.length_le
    rw [length_drop] at hle
    omega
  have hnofin := h.finSent_eq (by omega)
  have hraise : raise high [sendSeg c (tcpPsh ||| tcpAck) payload] =
      ahead c.dataBase (max hi (nxt + payload.length)) := by
    rw [hhigh, sendSeg, hnxt]
    exact raise_single (finish_data ..) (by omega) (by omega)
  have hmoved : Streaming disk
      { c.cursor with nxt := ahead c.dataBase (nxt + payload.length), headOff := p, readOff := r }
      (ahead c.dataBase (max hi (nxt + payload.length))) una (nxt + payload.length)
      (max hi (nxt + payload.length)) :=
    { una_eq := h.una_eq
      nxt_eq := rfl
      high_eq := rfl
      una_le := by omega
      nxt_le := Nat.le_max_right _ _
      window := Nat.max_le.2 ⟨h₃, hroom⟩
      short := h.short
      top := Nat.max_le.2 ⟨h.top, hlen.trans (Nat.le_succ _)⟩
      headOff := hp
      readOff := fun hf _ => hread hf
      eof := fun he => (h.eof he).trans (le_add_right _ _)
      fin := fun hf => absurd (hnofin.symm.trans hf) false_ne_true
      unfin := fun _ => hlen
      session := fun hs => Nat.max_le.2 ⟨h.session hs, hlen⟩
      busy := fun hb => by simp [cursor, hchild] at hb }
  refine ⟨?_, ?_⟩
  · intro tx htx
    simp only [Netd.sendData, mem_singleton] at htx
    rw [htx, sendSeg, hnxt]
    exact onStream_data hpre h.short
  · have hadv : c.sndNxt + BitVec.ofNat 32 payload.length = ahead c.dataBase (nxt + payload.length) := by
      rw [hnxt]
      exact ahead_ahead _ _ _
    obtain ⟨hcur, hcw, hre⟩ := rttOnSend_frame
      { c with
        sndNxt := c.sndNxt + BitVec.ofNat 32 payload.length
        prefixOff := p
        readOff := r } c.sndNxt env.nowUs
    simp only [Netd.sendData, hraise]
    have hs : Streaming disk (rttOnSend
        { c with
          sndNxt := c.sndNxt + BitVec.ofNat 32 payload.length
          prefixOff := p
          readOff := r } c.sndNxt env.nowUs).cursor
        (ahead c.dataBase (max hi (nxt + payload.length))) una (nxt + payload.length)
        (max hi (nxt + payload.length)) := by
      rw [hcur]
      simp only [cursor, hadv]
      exact hmoved
    exact hs.tracked (hcw.trans_le hw) (hre.trans hresp)

theorem Streaming.pumpEnd (hw : c.cwnd ≤ maxCwnd)
    (hresp : c.responded) (hchild : c.cpuChild = cpuNone) (hend : (c.reply disk).length ≤ nxt)
    (heof : c.file → c.eof) (hroom : nxt + 1 ≤ una + maxCwnd) :
    Pumped disk c high (pumpEnd c) := by
  have htrack := h.tracked hw hresp
  unfold Netd.pumpEnd
  split
  · exact ⟨by simp, htrack.reset.1⟩
  rename_i hsess
  have hsess' : c.session = false := by simpa using hsess
  split
  · exact ⟨by simp, htrack⟩
  rename_i hfin
  have hfin' : c.finSent = false := by simpa using hfin
  obtain ⟨hcap, -, h₂, h₃, htop⟩ := h.bounds
  obtain ⟨-, hnxt, hhigh⟩ := h.seqs
  have htop : hi ≤ (c.reply disk).length + 1 := htop
  have hlen : nxt = (c.reply disk).length := le_antisymm (h.unfin hfin') hend
  have hstep : c.sndNxt + 1 = ahead c.dataBase (nxt + 1) := by
    rw [hnxt, ← ahead_ahead]
    rfl
  have hflag : (sendSeg c (tcpFin ||| tcpAck) []).has tcpFin := by
    show ((tcpFin ||| tcpAck) &&& tcpFin != 0)
    decide
  have hfinish : (sendSeg c (tcpFin ||| tcpAck) []).finish = c.sndNxt + 1 := by
    rw [Tx.finish, hflag]
    rfl
  have hraise : raise high [sendSeg c (tcpFin ||| tcpAck) []] = ahead c.dataBase (nxt + 1) := by
    have hone : raise (ahead c.dataBase hi) [sendSeg c (tcpFin ||| tcpAck) []] =
        ahead c.dataBase (max hi (nxt + 1)) := raise_single (hfinish.trans hstep) (by omega) (by omega)
    rw [hhigh, hone, max_eq_right (by omega)]
  refine ⟨?_, ?_⟩
  · intro tx htx
    rw [mem_singleton] at htx
    rw [htx]
    refine ⟨fun k hk => absurd hk (not_lt_zero k), fun _ => ⟨?_, hsess'⟩⟩
    rw [sendSeg, hnxt, hlen]
    rfl
  · simp only [hraise]
    have hoff : c.prefixOff = min nxt c.prefixBytes.length := h.headOff
    have hle := length_head_le disk c
    have hoff' : c.prefixOff = min (nxt + 1) c.prefixBytes.length := by omega
    have hdone : Streaming disk { c.cursor with nxt := c.sndNxt + 1, finSent := true }
        (ahead c.dataBase (nxt + 1)) una (nxt + 1) (nxt + 1) :=
      { una_eq := h.una_eq
        nxt_eq := hstep
        high_eq := rfl
        una_le := h.una_le.trans (le_succ _)
        nxt_le := le_rfl
        window := hroom
        short := h.short
        top := succ_le_succ hlen.le
        headOff := hoff'
        readOff := fun _ hf => by cases hf
        eof := fun _ => hend.trans (le_succ _)
        fin := fun _ => ⟨congrArg (· + 1) hlen, heof, hsess'⟩
        unfin := fun hf => by cases hf
        session := fun hs => nomatch hsess'.symm.trans hs
        busy := fun hb => by simp [cursor, hchild] at hb }
    exact Streaming.tracked hdone hw hresp

/-- **The pump sends the next bytes of the reply**, or its end. -/
theorem Streaming.pumpSend {env : Env} (hr : env.Reads disk) (hw : c.cwnd ≤ maxCwnd) (hresp : c.responded) :
    Pumped disk c high (pumpSend env c) := by
  have hstay : Pumped disk c high (c, []) := ⟨by simp, h.tracked hw hresp⟩
  have hoff : c.prefixOff = min nxt c.prefixBytes.length := h.headOff
  have hhead := length_head_le disk c
  unfold Netd.pumpSend
  split
  · exact hstay
  rename_i hbusy
  have hchild : c.cpuChild = cpuNone := by simpa using hbusy
  dsimp only
  split
  · exact hstay
  rename_i havail
  have hroom : nxt + 1 ≤ una + maxCwnd := h.room hw (pos_of_ne_zero havail) one_pos
  generalize hav : min c.cwnd c.window - (c.sndNxt - c.sndUna).toNat = avail at havail ⊢
  split
  · -- bytes of the prefix
    rename_i hlt
    have hlt' : nxt < c.prefixBytes.length := by omega
    have hoff' : c.prefixOff = nxt := by omega
    rw [hoff']
    generalize hn : min (min (c.prefixBytes.length - nxt) serveChunk) avail = n
    have hchunk : serveChunk = 1400 := rfl
    have hlen : ((c.prefixBytes.drop nxt).take n).length = n := by
      rw [length_take, length_drop]
      omega
    have hpre : (c.prefixBytes.drop nxt).take n <+: (c.reply disk).drop nxt :=
      ( take_prefix _ _).trans (reply_drop_head disk c hlt'.le)
    have hfit : nxt + n ≤ una + maxCwnd := h.room hw (by omega) (by omega)
    refine h.sendData hw hresp hchild env hpre (by rw [hlen]; exact hfit) ?_ (by rw [hlen]; omega) ?_
    · intro hnil
      rw [hnil, length_nil] at hlen
      omega
    intro hf
    have hro : c.readOff = nxt - c.prefixBytes.length := h.readOff hf (h.finSent_eq (by omega))
    omega
  · rename_i hge
    have hge' : c.prefixBytes.length ≤ nxt := by omega
    split
    · -- bytes of the file
      rename_i hfile
      rw [and_eq_true, not_eq_true'] at hfile
      obtain ⟨hf, heof⟩ := hfile
      have hnofin : c.finSent = false := by
        by_contra hfin
        have hfin' : c.finSent := by simpa using hfin
        exact nomatch heof.symm.trans ((h.fin hfin').2.1 hf)
      have hro : c.readOff = nxt - c.prefixBytes.length := h.readOff hf hnofin
      obtain ⟨chunk, hread, hpre, hlen, hnil⟩ := hr c.path c.readOff (min serveChunk avail)
      have hchunk : serveChunk = 1400 := rfl
      rw [hread]
      rw [hro, reply_drop_file hge' hf] at hpre
      cases chunk with
      | nil =>
        have hend : (c.reply disk).length ≤ nxt := by
          have hsum : (c.reply disk).length = c.prefixBytes.length + (disk c.path).length := by
            rw [reply, if_pos hf, length_append]
          rcases hnil rfl with h0 | hle <;> omega
        have hs : Streaming disk { c with eof := true }.cursor high una nxt hi :=
          { h with
            eof := fun _ => hend
            fin := fun hfin => ⟨(h.fin hfin).1, fun _ => rfl, (h.fin hfin).2.2⟩
            busy := fun hb => by simp [cursor, hchild] at hb }
        exact hs.pumpEnd hw hresp hchild hend (fun _ => rfl) hroom
      | cons b rest =>
        have hfit : nxt + (b :: rest).length ≤ una + maxCwnd := h.room hw (by omega) (by simp)
        refine h.sendData hw hresp hchild env hpre hfit (by simp) (by omega) ?_
        intro _
        omega
    · -- the end
      rename_i hnot
      have heof : c.file → c.eof := fun hf => by simpa [hf] using hnot
      have hend : (c.reply disk).length ≤ nxt := by
        cases hf : c.file with
        | true => exact h.eof (heof hf)
        | false =>
          rw [reply, hf, if_neg Bool.false_ne_true, append_nil]
          exact hge'
      exact h.pumpEnd hw hresp hchild hend heof hroom

end

/-! ## Runs -/

section
variable {disk : Bytes → Bytes} {l : Link}

theorem Tracked.rto (h : Tracked disk l) (now : Nat) : Stays disk l ((.rto now : Input τ).outcome l.conn) := by
  simp only [Stays, Input.outcome]
  unfold serviceRto
  split
  · exact ⟨by simp, fun _ => ⟨h.cwnd, h.idle, h.streaming⟩⟩
  rename_i hflight
  have hne : l.conn.sndNxt ≠ l.conn.sndUna := by
    rintro heq
    rw [heq, BitVec.sub_self] at hflight
    exact hflight rfl
  split
  · exact ⟨by simp, fun _ => ⟨h.cwnd, h.idle, h.streaming⟩⟩
  split
  · exact ⟨by simp, fun _ => ⟨h.cwnd, h.idle, h.streaming⟩⟩
  split
  · exact ⟨by simp, fun _ => h⟩
  split
  · refine ⟨?_, fun hc => by cases hc⟩
    intro tx htx
    rw [mem_singleton] at htx
    exact htx ▸ onStream_bare disk l.conn _ (by decide)
  · refine ⟨by simp, fun _ => ⟨?_, fun hf => ?_, fun ht => ?_⟩⟩
    · show mss ≤ maxCwnd
      decide
    · have hi : Idle { l.conn with ssthresh := max (l.conn.cwnd / 2) minCwnd, cwnd := mss }.cursor l.high :=
        h.idle hf
      exact hi.rewind
    · obtain ⟨una, nxt, hi, hs⟩ := h.streaming ht
      have hs' : Streaming disk
          { l.conn with ssthresh := max (l.conn.cwnd / 2) minCwnd, cwnd := mss }.cursor l.high una nxt hi := hs
      exact ⟨una, una, hi, hs'.rewind_una hne⟩

theorem Tracked.child (h : Tracked disk l) (data : Bytes) :
    Tracked disk ⟨if l.conn.cpuChild = cpuNone then l.conn else cpuChildMsg l.conn data, l.high⟩ := by
  split
  · exact h
  rename_i hbusy
  have hb : l.conn.cursor.busy := by simpa [cursor] using hbusy
  have hresp : l.conn.responded := by
    by_contra hf
    exact nomatch hb.symm.trans (h.idle (by simpa using hf)).busy
  obtain ⟨una, nxt, hi, hs⟩ := h.streaming hresp
  obtain ⟨rfl, hfile, heof, hmax⟩ := hs.busy hb
  have hfile' : l.conn.file = false := hfile
  have hmax' : l.conn.prefixBytes.length ≤ prefixMax := hmax
  obtain rfl : nxt = 0 := le_zero.1 hs.nxt_le
  obtain rfl : una = 0 := le_zero.1 hs.una_le
  have hnofin : l.conn.finSent = false := hs.finSent_eq (zero_le _)
  unfold cpuChildMsg
  split
  · exact ⟨h.cwnd, fun hf => (nomatch hresp.symm.trans hf), fun _ =>
      ⟨0, 0, 0, { hs with busy := fun hb' => nomatch hb' }⟩⟩
  generalize hmore : l.conn.prefixBytes ++ data.take (prefixMax - l.conn.prefixBytes.length) = head
  have hlen : head.length ≤ prefixMax := by
    rw [← hmore, length_append, length_take]
    omega
  have hreply : ({ l.conn with prefixBytes := head }.cursor.reply disk).length = head.length := by
    simp [Cursor.reply, cursor, hfile']
  have hpm : prefixMax = 2048 := rfl
  have hs' : Streaming disk { l.conn with prefixBytes := head }.cursor l.high 0 0 0 :=
    { una_eq := hs.una_eq
      nxt_eq := hs.nxt_eq
      high_eq := hs.high_eq
      una_le := le_rfl
      nxt_le := le_rfl
      window := zero_le _
      short := by
        rw [hreply]
        omega
      top := zero_le _
      headOff := by
        have hoff : l.conn.prefixOff = min 0 l.conn.prefixBytes.length := hs.headOff
        exact hoff
      readOff := fun hf _ => nomatch hfile.symm.trans hf
      eof := fun he => nomatch heof.symm.trans he
      fin := fun hf => absurd (hnofin.symm.trans hf) false_ne_true
      unfin := fun _ => zero_le _
      session := fun _ => zero_le _
      busy := fun _ => ⟨rfl, hfile, heof, hlen⟩ }
  exact hs'.tracked h.cwnd hresp

theorem reapIdle_onStream (disk : Bytes → Bytes) (c : TcpConn) (now : Nat) :
    ∀ tx ∈ (reapIdle c now).toList, OnStream disk c tx := by
  unfold reapIdle
  split
  · simp
  intro tx htx
  rw [Option.toList_some, mem_singleton] at htx
  exact htx ▸ onStream_bare disk c _ (by decide)

/-- **One input**: what is sent is on the stream, and a link that stays open stays on track. -/
theorem Tracked.step (h : Tracked disk l) {i : Input τ} (hf : i.Fair disk l) (ho : i.Orderly disk l) :
    (∀ tx ∈ (i.outcome l.conn).sent, OnStream disk l.conn tx) ∧ ∀ l', l.next i = some l' → Tracked disk l' := by
  have key : Stays disk l (i.outcome l.conn) := by
    cases i with
    | segment dispatch env seg => exact h.segment hf ho
    | pump env =>
      simp only [Input.outcome]
      split
      · rename_i hresp
        obtain ⟨una, nxt, hi, hs⟩ := h.streaming hresp
        have hp := hs.pumpSend hf h.cwnd hresp
        exact ⟨hp.1, fun _ => hp.2⟩
      · exact ⟨by simp, fun _ => h⟩
    | rto now => exact h.rto now
    | reap now =>
      refine ⟨reapIdle_onStream disk l.conn now, fun hopen => ?_⟩
      have hnone : reapIdle l.conn now = none := by simpa [Input.outcome] using hopen
      simp only [Input.outcome, hnone]
      exact h
    | child data => exact ⟨by simp [Input.outcome], fun _ => h.child data⟩
  refine ⟨key.1, fun l' hl' => ?_⟩
  unfold Link.next at hl'
  split at hl'
  · cases hl'
  rename_i hopen
  cases hl'
  exact key.2 (by simpa using hopen)

theorem opened_tracked (disk : Bytes → Bytes) (h : Opened l) : Tracked disk l := by
  obtain ⟨seg, now, rfl⟩ := h
  have hcwnd : initCwnd ≤ maxCwnd := by decide
  refine ⟨hcwnd, fun _ => ⟨⟨1, 1, rfl, rfl, le_rfl, le_rfl⟩, rfl, rfl, rfl, rfl, rfl⟩, fun ht => nomatch ht⟩

/-- **The server's stream is one fixed byte string.** In every fair, orderly run each byte sent stands in the
reply where its sequence number says, and a FIN only after the last byte, and not on a session. -/
theorem reply_stream (disk : Bytes → Bytes) {l : Link}
    (h : Reachable (fun l (i : Input τ) l' => l.Step disk i l') Opened l) {i : Input τ}
    (hf : i.Fair disk l) (ho : i.Orderly disk l) :
    ∀ tx ∈ (i.outcome l.conn).sent, OnStream disk l.conn tx := by
  have ht : Tracked disk l := h.invariant (fun l hl => opened_tracked disk hl)
    fun l i l' ht hstep => (ht.step hstep.1 hstep.2.1).2 l' hstep.2.2
  exact (ht.step hf ho).1

end

/-! ## Runs -/

def peerSeg (flags : BitVec 8) (seq ack : Seq) (data : Bytes) : TcpIn :=
  ⟨[10, 0, 2, 2], [], 40000, 80, seq, ack, flags, 8192, data, []⟩

def openedLink : Link := ⟨openConn (peerSeg tcpSyn 0 0 []) 0, serverIsn + 1⟩

/-- the link after so many of the inputs. -/
def linkAt (inputs : List (Input Unit)) : Nat → Link
  | 0 => openedLink
  | n + 1 => ((linkAt inputs n).next (inputs.getD n (.rto 0))).getD openedLink

/-- a disk with one file. -/
def oneFile (path : Bytes) : Bytes := if path = [47, 97] then [1, 2, 3, 4, 5] else []

def fileEnv : Env := ⟨0, 0, fun path off want => some (((oneFile path).drop off).take want)⟩

theorem fileEnv_reads : fileEnv.Reads oneFile := by
  intro path off want
  refine ⟨_, rfl, take_prefix _ _, length_take_le _ _, fun hnil => ?_⟩
  rcases take_eq_nil_iff.1 hnil with hwant | hoff
  · exact .inl hwant
  · exact .inr (drop_eq_nil_iff.1 hoff)

def serveFile (c : TcpConn) (_ : Bytes) : Served Unit :=
  ⟨{ c with prefixBytes := [79, 75], prefixOff := 0, file := true, path := [47, 97], readOff := 0 }, false, []⟩

/-- a segment of the peer that acknowledges. -/
def asks (seq ack : Seq) (data : Bytes) : Input Unit := .segment serveFile fileEnv (peerSeg tcpAck seq ack data)

theorem serveFile_stages : Stages serveFile where
  sndNxt := fun _ _ => rfl
  sndUna := fun _ _ => rfl
  dataBase := fun _ _ => rfl
  window := fun _ _ => rfl
  cwnd := fun _ _ => rfl
  responded := fun _ _ => rfl
  finSent := fun _ _ => rfl
  eof := fun _ _ he => he
  prefixOff := fun _ _ => rfl
  readOff := fun _ _ _ => rfl
  child := fun _ _ hnone hsome => absurd hnone hsome

theorem asks_fair {l : Link} {seq ack : Seq} {data : Bytes} (h : seqGt ack l.high = false) :
    (asks seq ack data).Fair oneFile l :=
  ⟨serveFile_stages, fileEnv_reads, fun _ => h, fun _ hmem => nomatch hmem⟩

/-- a request for the file, of which the first two bytes are acknowledged, and the timer that then runs out. -/
def rewound : List (Input Unit) :=
  [asks 1 (serverIsn + 1) [71], .pump fileEnv, .pump fileEnv, .pump fileEnv, asks 2 (serverIsn + 5) [], .rto 1,
    .rto 1000]

theorem rewound_next : ∀ n : Fin 7, (linkAt rewound n).next (rewound.getD n (.rto 0)) =
    some (linkAt rewound (n + 1)) := by
  decide +kernel

theorem rewound_fair {n : Nat} (hn : n < 7) : (rewound.getD n (.rto 0)).Fair oneFile (linkAt rewound n) := by
  match n, hn with
  | 0, _ | 4, _ => exact asks_fair (by decide +kernel)
  | 1, _ | 2, _ | 3, _ => exact fileEnv_reads
  | 5, _ | 6, _ => exact trivial

theorem rewound_orderly {n : Nat} (hn : n < 7) :
    (rewound.getD n (.rto 0)).Orderly oneFile (linkAt rewound n) := by
  have hreply (c : TcpConn) (req : Bytes) : ((serveFile c req).conn.reply oneFile).length < 2 ^ 32 :=
    show ([79, 75] ++ oneFile [47, 97] : Bytes).length < 2 ^ 32 by decide
  match n, hn with
  | 0, _ => exact ⟨fun c => hreply c _, fun h => (nomatch h), fun _ _ _ => .inr ⟨rfl, rfl⟩⟩
  | 4, _ =>
    have hlen : (((linkAt rewound 4).conn.reply oneFile).length, (linkAt rewound 4).conn.dataBase) =
        (7, serverIsn + 1) := by
      decide +kernel
    obtain ⟨hlen, hbase⟩ := Prod.mk.inj hlen
    refine ⟨fun c => hreply c _, fun _ _ hack => ?_, fun _ hdata => absurd rfl hdata⟩
    rw [hlen, hbase] at hack
    exact absurd hack (by decide)
  | 1, _ | 2, _ | 3, _ | 5, _ | 6, _ => exact trivial

theorem rewound_reachable {n : Nat} (hn : n ≤ 7) :
    Reachable (fun l (i : Input Unit) l' => l.Step oneFile i l') Opened (linkAt rewound n) := by
  induction n with
  | zero => exact Reachable.init ⟨_, _, rfl⟩
  | succ n ih =>
    exact (ih (by omega)).tail ⟨rewound_fair (by omega), rewound_orderly (by omega), rewound_next ⟨n, by omega⟩⟩

/-- the rest of the file is sent once more, from the first byte that was not acknowledged. -/
theorem reply_stream_rewound : (linkAt rewound 5).conn.finSent = true ∧
      ((Input.pump fileEnv : Input Unit).outcome (linkAt rewound 7).conn).sent =
        [⟨serverIsn + 5, tcpPsh ||| tcpAck, [3, 4, 5]⟩] ∧
      ∀ tx ∈ ((Input.pump fileEnv : Input Unit).outcome (linkAt rewound 7).conn).sent,
        OnStream oneFile (linkAt rewound 7).conn tx :=
  ⟨by decide +kernel, by decide +kernel, reply_stream oneFile (rewound_reachable le_rfl) fileEnv_reads trivial⟩

/-! ## A FIN sent twice -/

/-- the same request, all of it acknowledged after the timer has run out. -/
def lateAck : List (Input Unit) :=
  [asks 1 (serverIsn + 1) [71], .pump fileEnv, .pump fileEnv, .pump fileEnv, .rto 1, .rto 1000,
    asks 2 (serverIsn + 9) []]

theorem lateAck_next : ∀ n : Fin 7, (linkAt lateAck n).next (lateAck.getD n (.rto 0)) =
    some (linkAt lateAck (n + 1)) := by
  decide +kernel

theorem lateAck_fair {n : Nat} (hn : n < 7) : (lateAck.getD n (.rto 0)).Fair oneFile (linkAt lateAck n) := by
  match n, hn with
  | 0, _ | 6, _ => exact asks_fair (by decide +kernel)
  | 1, _ | 2, _ | 3, _ => exact fileEnv_reads
  | 4, _ | 5, _ => exact trivial

theorem lateAck_reachable {n : Nat} (hn : n ≤ 7) :
    Reachable (fun l (i : Input Unit) l' => i.Fair oneFile l ∧ l.next i = some l') Opened
      (linkAt lateAck n) := by
  induction n with
  | zero => exact Reachable.init ⟨_, _, rfl⟩
  | succ n ih => exact (ih (by omega)).tail ⟨lateAck_fair (by omega), lateAck_next ⟨n, by omega⟩⟩

/-- **A late acknowledgement of the FIN makes the server send another, one number further on.** -/
theorem fin_sent_again : ∃ (disk : Bytes → Bytes) (l : Link) (i : Input Unit),
    Reachable (fun l (i : Input Unit) l' => i.Fair disk l ∧ l.next i = some l') Opened l ∧
      i.Fair disk l ∧ ∃ tx ∈ (i.outcome l.conn).sent, ¬ OnStream disk l.conn tx := by
  have hsent : ((Input.pump fileEnv : Input Unit).outcome (linkAt lateAck 7).conn).sent =
      [⟨serverIsn + 9, tcpFin ||| tcpAck, []⟩] := by
    decide +kernel
  refine ⟨oneFile, linkAt lateAck 7, .pump fileEnv, lateAck_reachable le_rfl, fileEnv_reads, _,
    hsent ▸ mem_singleton_self _, ?_⟩
  rintro ⟨-, hat⟩
  have hseq := (hat (by decide)).1
  have hlen : ((linkAt lateAck 7).conn.reply oneFile).length = 7 := by decide +kernel
  have hbase : (linkAt lateAck 7).conn.dataBase = serverIsn + 1 := by decide +kernel
  rw [hlen, hbase] at hseq
  exact absurd hseq (by decide)

end Ouroboros.Netd
