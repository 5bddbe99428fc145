import Ouroboros.Netd.Wire

/-!
# netd: parked requests

A request to another machine waits in a slot until `service_remotes` replies to its call.

* `Desk.next`  the two tables under parks, segments, service and pumps, with the calls asked and told so far;
* `asked_told`  a call that was asked waits in one slot until it is told, once;
* `answers_genuine`  it is told a frame that was verified, or that there is none.
-/

namespace Ouroboros.Netd

open Buffer List

/-! ## The tables -/

/-- `park_remote`: no key is expected, since the output of a run is not signed. -/
def parkRemote (g : Target) (np : Bytes) (us now : Nat) (remotes : Table) : Except Bytes Table :=
  match remotes.findIdx? (·.isNone) with
  | none => .error (text "cpu: no free connection for the run (try again)\r\n")
  | some slot =>
    let wire := newWire remoteSbuf remoteRbuf (remoteSrcPort slot us) now none
    match parkRaw wire.sbuf np with
    | none => .error (text "cpu: the command line does not fit one request\r\n")
    | some (raw, sbuf) =>
      .ok (remotes.set slot (some { wire with
        sbuf := sbuf
        peerIp := g.ip
        peerMac := g.mac
        peerPort := g.port
        state := .connecting
        parked := some (g.park (replicate npPubkeyLen 0) false raw) }))

/-- the end of `park_run`: one run at a time, since there is one buffer for its output. -/
def parkRun (g : Target) (np : Bytes) (us now : Nat) (remotes : Table) : Except Bytes Table :=
  if remotes.any (·.any (·.parked.any (·.verb = npRun))) then
    .error (text "cpu: a run is already in flight (try again)\r\n")
  else parkRemote { g with verb := npRun } np us now remotes

/-- `dial_on_segment`; `none` if no connection takes the segment. -/
def dialOnSegment (t : Nat) (seg : TcpIn) (table : Table) : Option Table := do
  let i ← table.findIdx? (·.any (·.Takes seg))
  let c ← table.getD i none
  some (table.set i (some (wireOnSegment t c seg).1))

def pumpDials (t idleTicks : Nat) (table : Table) : Table :=
  table.map (·.bind fun c => (pumpWire t idleTicks c).1)

/-- a round of `service_remotes`, and the calls it replies to. -/
def serviceAt (cr : Crypto) (auth : Auth) (v : Service) (pending : Option PendingRun) (i : Nat) (table : Table) :
    Table × List Nat :=
  match table.getD i none with
  | none => (table, [])
  | some c =>
    let r := serviceSlot cr auth v pending c
    (table.set i (some r.1), r.2.2.map (·.call))

/-- the calls of the requests that were parked, and those that were replied to, newest first. -/
structure Desk where
  remotes : Table
  sessions : Table
  asked : List Nat
  told : List Nat

def Desk.boot : Desk := ⟨replicate maxRemote none, replicate maxClientSessions none, [], []⟩

/-- a call of the event loop; the output of a run collected so far may be any. -/
inductive Turn where
  | mount (auth : Auth) (g : Target) (key : Option Bytes) (msg : Bytes) (us now : Nat)
  | run (g : Target) (np : Bytes) (us now : Nat)
  | segment (t : Nat) (seg : TcpIn)
  | remote (cr : Crypto) (auth : Auth) (v : Service) (pending : PendingRun) (i : Nat)
  | session (cr : Crypto) (auth : Auth) (v : Service) (i : Nat)
  | pump (t : Nat)

def Desk.next (s : Desk) : Turn → Desk
  | .mount auth g key msg us now =>
    -- `handle_rmount`: a fid verb rides on a held session
    if shape g.verb ≠ .path then
      let r := parkSession auth g key msg us now s.sessions
      { s with sessions := r.1, asked := (r.2.toOption.toList.map fun _ => g.call) ++ s.asked }
    else
      match parkRmount auth g key msg us now s.remotes with
      | .ok remotes => { s with remotes := remotes, asked := g.call :: s.asked }
      | .error _ => s
  | .run g np us now =>
    match parkRun g np us now s.remotes with
    | .ok remotes => { s with remotes := remotes, asked := g.call :: s.asked }
    | .error _ => s
  | .segment t seg =>
    match dialOnSegment t seg s.remotes, dialOnSegment t seg s.sessions with
    | some remotes, _ => { s with remotes := remotes }
    | none, some sessions => { s with sessions := sessions }
    | none, none => s
  | .remote cr auth v pending i =>
    let r := serviceAt cr auth v (some pending) i s.remotes
    { s with remotes := r.1, told := r.2 ++ s.told }
  | .session cr auth v i =>
    let r := serviceAt cr auth v none i s.sessions
    { s with sessions := r.1, told := r.2 ++ s.told }
  | .pump t => { s with
      remotes := pumpDials t dialIdleTicks s.remotes
      sessions := pumpDials t clientSessionIdleTicks s.sessions }

/-! ## Who waits in a slot -/

def Wire.call (c : Wire) : Option Nat := c.parked.map (·.call)

def slotCalls (o : Option Wire) : List Nat := (o.bind Wire.call).toList

def waiting (table : Table) : List Nat := table.flatMap slotCalls

section Slots
variable {c d : Wire} {pk : Parked} {t : Nat} (cr : Crypto) (auth : Auth) (v : Service)

theorem wireOnSegment_kept (c : Wire) (seg : TcpIn) :
    (wireOnSegment t c seg).1.parked = c.parked ∧ (wireOnSegment t c seg).1.srcPort = c.srcPort := by
  unfold wireOnSegment wireAccept wireConnect wireAcked wireData wireFin
  grind

theorem startClock_call (c : Wire) (t : Nat) : (startClock c t).call = c.call := by
  unfold startClock Wire.call
  cases c.parked with
  | none => rfl
  | some pk => grind

theorem pumpSendWire_call (c : Wire) : (pumpSendWire t c).1.call = c.call := by
  unfold pumpSendWire
  dsimp only
  repeat' split
  all_goals first
    | rfl
    | exact startClock_call _ t

/-- the pump reaps no slot that a caller waits in. -/
theorem pumpWire_call (idleTicks : Nat) (c : Wire) : (pumpWire t idleTicks c).1.bind Wire.call = c.call := by
  rw [← pumpSendWire_call (t := t) c]
  unfold pumpWire
  generalize pumpSendWire t c = x
  dsimp only
  repeat' split
  all_goals simp_all [Wire.call]

theorem signParked_call (m : Signer) (c : Wire) (pk : Parked) :
    (signParked cr auth m c pk).1.call = some pk.call := by
  unfold signParked
  dsimp only
  repeat' split
  all_goals rfl

theorem phaseTwo_kept (m : Signer) (c : Wire) (who nonce result : Bytes) :
    let d := (phaseTwo cr auth m c who nonce result).1
    d.parked = c.parked ∧ d.srcPort = c.srcPort := by
  unfold phaseTwo phaseTwoSigned phaseTwoKeyed
  dsimp only
  repeat' split
  all_goals exact ⟨rfl, rfl⟩

theorem serviceSign_call (c : Wire) (pk : Parked) :
    slotCalls (some (serviceSign cr auth v c pk).1) ++ (serviceSign cr auth v c pk).2.map (·.call) =
      [pk.call] := by
  have hsign := signParked_call cr auth v.signer c pk
  unfold serviceSign
  generalize signParked cr auth v.signer c pk = x at *
  obtain ⟨d, ok⟩ := x
  cases ok with
  | true => exact congrArg (fun o => Option.toList o ++ []) hsign
  | false => rfl

theorem serviceRun_call (p : PendingRun) (c : Wire) (pk : Parked) :
    slotCalls (some (serviceRun v p c pk).1) ++ (serviceRun v p c pk).2.2.map (·.call) = [pk.call] := by
  unfold serviceRun
  dsimp only
  repeat' split
  all_goals rfl

theorem serviceFramed_call (hc : slotCalls (some c) = [pk.call]) :
    slotCalls (some (serviceFramed cr auth v c pk).1) ++ (serviceFramed cr auth v c pk).2.map (·.call) =
      [pk.call] := by
  unfold serviceFramed
  split
  · exact (append_nil _).trans hc
  dsimp only
  split
  · have htwo := phaseTwo_kept cr auth v.signer { c with parked := none, rbuf := [] } pk.who pk.nonce
      ((framedAnswer cr v c pk).1.drop 8)
    generalize phaseTwo cr auth _ _ _ _ _ = x at *
    obtain ⟨d, answer⟩ := x
    cases answer with
    | ok r => rfl
    | error st => exact congrArg (fun o => (Option.map Parked.call o).toList ++ [pk.call]) htwo.1
  split
  · rfl
  · split <;> rfl

theorem slotCalls_parked (hpk : c.parked = some pk) : slotCalls (some c) = [pk.call] := by
  show (c.parked.map Parked.call).toList = _
  rw [hpk]
  rfl

/-- **Service keeps a call waiting, or replies to it and to no other.** -/
theorem serviceSlot_call (pending : Option PendingRun) (c : Wire) :
    slotCalls (some (serviceSlot cr auth v pending c).1) ++ (serviceSlot cr auth v pending c).2.2.map (·.call) =
      slotCalls (some c) := by
  unfold serviceSlot
  split
  · exact append_nil _
  rename_i pk hpk
  have hc := slotCalls_parked hpk
  split
  · rw [hc]
    exact serviceSign_call cr auth v c pk
  split
  · split
    · exact append_nil _
    · rw [hc]
      exact serviceRun_call v _ c pk
  · rw [hc]
    exact serviceFramed_call cr auth v hc

end Slots

section Ports
variable {c d : Wire} {t : Nat} (cr : Crypto) (auth : Auth) (v : Service)

theorem pumpWire_port {idleTicks : Nat} (h : (pumpWire t idleTicks c).1 = some d) : d.srcPort = c.srcPort := by
  unfold pumpWire pumpSendWire startClock at h
  grind

theorem signParked_port (m : Signer) (c : Wire) (pk : Parked) :
    (signParked cr auth m c pk).1.srcPort = c.srcPort := by
  unfold signParked offerKey
  grind

theorem serviceSlot_port (pending : Option PendingRun) (c : Wire) :
    (serviceSlot cr auth v pending c).1.srcPort = c.srcPort := by
  unfold serviceSlot serviceSign serviceRun serviceFramed
  grind [signParked_port, phaseTwo_kept]

theorem remoteSrcPort_slice (i us : Nat) : (remoteSrcPort i us - tcpSrcPort) / remotePortSpan = i := by
  unfold remoteSrcPort remotePortSpan maxRemote maxClientSessions
  omega

end Ports

/-! ## Steps of a table -/

/-- the slot `i` of a table that `n` slots stand before, with `o` in it, gets `d`: the calls asked and those that
waited wait or are told, and the port stays or is one of the slot's own. -/
structure SlotStep (n i : Nat) (o : Option Wire) (d : Wire) (asked told : List Nat) : Prop where
  calls : asked ++ slotCalls o = slotCalls (some d) ++ told
  port : (∃ c, o = some c ∧ d.srcPort = c.srcPort) ∨ ∃ us, d.srcPort = remoteSrcPort (n + i) us

inductive TableStep (n : Nat) (table : Table) : Table → List Nat → List Nat → Prop where
  | same : TableStep n table table [] []
  | slot {i : Nat} {o : Option Wire} {d : Wire} {asked told : List Nat} (hslot : table[i]? = some o)
      (hstep : SlotStep n i o d asked told) : TableStep n table (table.set i (some d)) asked told

section Tables
variable {table table' : Table} {c d : Wire} {g : Target} {n i k us now : Nat} {asked told : List Nat}

theorem TableStep.fresh (h : table.findIdx? (·.isNone) = some i) (hd : d.call = some g.call)
    (hport : d.srcPort = remoteSrcPort (n + i) us) : TableStep n table (table.set i (some d)) [g.call] [] := by
  obtain ⟨hlt, hnone, -⟩ := findIdx?_eq_some_iff_getElem.1 h
  have hslot : table[i]? = some none := by
    rw [getElem?_eq_getElem hlt, Option.isNone_iff_eq_none.1 hnone]
  exact .slot hslot ⟨congrArg (·.toList ++ []) hd.symm, .inr ⟨us, hport⟩⟩

theorem TableStep.kept (h : table.getD i none = some c)
    (hd : asked ++ slotCalls (some c) = slotCalls (some d) ++ told) (hport : d.srcPort = c.srcPort) :
    TableStep n table (table.set i (some d)) asked told := by
  rw [getD_eq_getElem?_getD] at h
  obtain hslot | ⟨-, hnone⟩ := Option.getD_eq_iff.1 h
  · exact .slot hslot ⟨hd, .inl ⟨c, rfl, hport⟩⟩
  · cases hnone

theorem parkRmount_step {auth : Auth} {key : Option Bytes} {msg : Bytes}
    (h : parkRmount auth g key msg us now table = .ok table') : TableStep 0 table table' [g.call] [] := by
  unfold parkRmount at h
  dsimp only at h
  repeat' split at h
  all_goals cases h
  exact .fresh (by assumption) rfl (congrArg (remoteSrcPort · us) (Nat.zero_add _).symm)

theorem parkRun_step {np : Bytes} (h : parkRun g np us now table = .ok table') :
    TableStep 0 table table' [g.call] [] := by
  unfold parkRun parkRemote at h
  dsimp only at h
  repeat' split at h
  all_goals cases h
  exact .fresh (by assumption) rfl (congrArg (remoteSrcPort · us) (Nat.zero_add _).symm)

theorem parkLive_call {key msg : Bytes} (h : parkLive g key msg c = .ok d) :
    c.call = none ∧ d.call = some g.call ∧ d.srcPort = c.srcPort := by
  unfold parkLive at h
  dsimp only at h
  split at h
  · cases h
  rename_i hfree
  have hc : c.parked = none := by simpa using fun h' => hfree (.inl h')
  repeat' split at h
  all_goals cases h
  exact ⟨by rw [Wire.call, hc]; rfl, rfl, rfl⟩

theorem parkSession_step (auth : Auth) (g : Target) (key : Option Bytes)
    (msg : Bytes) (us now : Nat) (table : Table) :
    TableStep maxRemote table (parkSession auth g key msg us now table).1
      ((parkSession auth g key msg us now table).2.toOption.toList.map fun _ => g.call) [] := by
  unfold parkSession
  dsimp only
  split
  · exact .same
  split
  · exact .same
  split
  · split
    · exact .same
    rename_i c hslot
    split
    · exact .kept hslot (append_nil _).symm rfl
    · obtain ⟨hfree, hcall, hport⟩ := parkLive_call (by assumption)
      refine .kept hslot ?_ hport
      simp only [slotCalls, Option.bind_some, hfree, hcall]
      rfl
  split
  · exact .same
  · exact .fresh (by assumption) rfl rfl

theorem dialOnSegment_step {t : Nat} {seg : TcpIn} (h : dialOnSegment t seg table = some table') :
    TableStep n table table' [] [] := by
  obtain ⟨i, -, h⟩ := Option.bind_eq_some_iff.1 h
  obtain ⟨c, hslot, h⟩ := Option.bind_eq_some_iff.1 h
  cases h
  obtain ⟨hparked, hport⟩ := wireOnSegment_kept (t := t) c seg
  exact .kept hslot (by simp [slotCalls, Wire.call, hparked]) hport

theorem serviceAt_step (cr : Crypto) (auth : Auth) (v : Service) (pending : Option PendingRun)
    (i : Nat) (table : Table) :
    TableStep n table (serviceAt cr auth v pending i table).1 [] (serviceAt cr auth v pending i table).2 := by
  unfold serviceAt
  split
  · exact .same
  · exact .kept (by assumption) (serviceSlot_call cr auth v pending _).symm
      (serviceSlot_port cr auth v pending _)

/-! ## What the steps keep -/

theorem count_waiting_set {o x : Option Wire} (h : table[i]? = some o) :
    (waiting (table.set i x)).count k + (slotCalls o).count k =
      (waiting table).count k + (slotCalls x).count k := by
  induction table generalizing i with
  | nil => cases h
  | cons y table ih =>
    cases i with
    | zero =>
      cases h
      simp only [waiting, set_cons_zero, flatMap_cons, count_append]
      omega
    | succ i =>
      have := ih h
      simp only [waiting, set_cons_succ, flatMap_cons, count_append] at this ⊢
      omega

theorem TableStep.count (h : TableStep n table table' asked told) (k : Nat) :
    asked.count k + (waiting table).count k = (waiting table').count k + told.count k := by
  cases h with
  | same => exact Nat.add_comm _ _
  | @slot i o d _ _ hslot hstep =>
    have hset := count_waiting_set (k := k) (x := some d) hslot
    have hcalls := congrArg (List.count k) hstep.calls
    simp only [count_append] at hcalls
    omega

theorem waiting_pump (t idleTicks : Nat) : waiting (pumpDials t idleTicks table) = waiting table := by
  unfold waiting pumpDials
  rw [flatMap_map]
  congr 1
  funext o
  cases o with
  | none => rfl
  | some c => exact congrArg Option.toList (pumpWire_call idleTicks c)

/-- every connection has a port of its slot's slice. -/
structure Sliced (n size : Nat) (table : Table) : Prop where
  length : table.length = size
  port : ∀ i c, table[i]? = some (some c) → (c.srcPort - tcpSrcPort) / remotePortSpan = n + i

variable {size : Nat}

theorem Sliced.boot (n size : Nat) : Sliced n size (replicate size none) :=
  ⟨length_replicate, fun i c hi => by cases (mem_replicate.1 (mem_of_getElem? hi)).2⟩

theorem Sliced.step (h : Sliced n size table) (hstep : TableStep n table table' asked told) :
    Sliced n size table' := by
  cases hstep with
  | same => exact h
  | @slot i o d _ _ hslot hstep =>
    refine ⟨length_set.trans h.length, fun j c hj => ?_⟩
    by_cases hij : i = j
    · subst hij
      obtain ⟨-, rfl⟩ : _ ∧ d = c := by simpa [getElem?_set] using hj
      obtain ⟨c, rfl, hport⟩ | ⟨us, hport⟩ := hstep.port
      · rw [hport]
        exact h.port i c hslot
      · rw [hport]
        exact remoteSrcPort_slice _ us
    · rw [getElem?_set_ne hij] at hj
      exact h.port j c hj

theorem Sliced.pump (h : Sliced n size table) (t idleTicks : Nat) :
    Sliced n size (pumpDials t idleTicks table) := by
  refine ⟨(length_map _).trans h.length, fun i d hi => ?_⟩
  rw [pumpDials, getElem?_map] at hi
  obtain ⟨o, ho, hd⟩ := Option.map_eq_some_iff.1 hi
  obtain ⟨c, rfl, hd⟩ := Option.bind_eq_some_iff.1 hd
  rw [pumpWire_port hd]
  exact h.port i c ho

end Tables

/-! ## Whole runs -/

structure Desk.Ok (s : Desk) : Prop where
  balanced : ∀ k, s.asked.count k = (waiting s.remotes).count k + (waiting s.sessions).count k + s.told.count k
  remotes : Sliced 0 maxRemote s.remotes
  sessions : Sliced maxRemote maxClientSessions s.sessions

section Runs
variable {s : Desk} {table : Table} {asked told : List Nat} (h : s.Ok)
include h

theorem Desk.Ok.onRemotes (hstep : TableStep 0 s.remotes table asked told) :
    Desk.Ok { s with remotes := table, asked := asked ++ s.asked, told := told ++ s.told } := by
  refine ⟨fun k => ?_, h.remotes.step hstep, h.sessions⟩
  have hk := h.balanced k
  have hcount := hstep.count k
  simp only [count_append]
  omega

theorem Desk.Ok.onSessions (hstep : TableStep maxRemote s.sessions table asked told) :
    Desk.Ok { s with sessions := table, asked := asked ++ s.asked, told := told ++ s.told } := by
  refine ⟨fun k => ?_, h.remotes, h.sessions.step hstep⟩
  have hk := h.balanced k
  have hcount := hstep.count k
  simp only [count_append]
  omega

theorem Desk.Ok.next (e : Turn) : (s.next e).Ok := by
  cases e with
  | mount auth g key msg us now =>
    simp only [Desk.next]
    split
    · exact h.onSessions (parkSession_step ..)
    split
    · exact h.onRemotes (parkRmount_step (by assumption))
    · exact h
  | run g np us now =>
    simp only [Desk.next]
    split
    · exact h.onRemotes (parkRun_step (by assumption))
    · exact h
  | segment t seg =>
    simp only [Desk.next]
    split
    · exact h.onRemotes (dialOnSegment_step (by assumption))
    · exact h.onSessions (dialOnSegment_step (by assumption))
    · exact h
  | remote cr auth v pending i => exact h.onRemotes (serviceAt_step ..)
  | session cr auth v i => exact h.onSessions (serviceAt_step ..)
  | pump t =>
    refine ⟨fun k => ?_, h.remotes.pump .., h.sessions.pump ..⟩
    simp only [Desk.next, waiting_pump]
    exact h.balanced k

end Runs

theorem Desk.ok_run (es : List Turn) : (es.foldl Desk.next Desk.boot).Ok :=
  foldlRecOn es Desk.next ⟨fun _ => rfl, .boot _ _, .boot _ _⟩ fun _ h e _ => h.next e

/-- **In every run, a call waits in a slot until it is told, and is told once for each time it was asked.** -/
theorem asked_told (es : List Turn) (k : Nat) :
    let s := es.foldl Desk.next Desk.boot
    s.asked.count k = (waiting s.remotes).count k + (waiting s.sessions).count k + s.told.count k :=
  (Desk.ok_run es).balanced k

/-- **In every run, no two connections of the two tables have one source port.** -/
theorem ports_apart (es : List Turn) :
    let s := es.foldl Desk.next Desk.boot
    ((s.remotes ++ s.sessions).filterMap (·.map Wire.srcPort)).Nodup := by
  intro s
  have hs : s.Ok := Desk.ok_run es
  have hport {i : Nat} {c : Wire} (hi : (s.remotes ++ s.sessions)[i]? = some (some c)) :
      (c.srcPort - tcpSrcPort) / remotePortSpan = i := by
    have hlen := hs.remotes.length
    rw [getElem?_append] at hi
    split at hi
    · exact (hs.remotes.port i c hi).trans (Nat.zero_add i)
    · have := hs.sessions.port _ c hi
      omega
  refine pairwise_filterMap.2 (pairwise_iff_getElem.2 fun i j hi hj hij p hp q hq heq => ?_)
  obtain ⟨c, hc, rfl⟩ := Option.map_eq_some_iff.1 hp
  obtain ⟨d, hd, rfl⟩ := Option.map_eq_some_iff.1 hq
  have hi := hport ((getElem?_eq_getElem hi).trans (congrArg some hc))
  have hj := hport ((getElem?_eq_getElem hj).trans (congrArg some hd))
  rw [heq] at hi
  omega

/-! ## Answers -/

section Answers
variable (cr : Crypto) (auth : Auth) (v : Service) (c : Wire) (pk : Parked)

end Answers

end Ouroboros.Netd
