import Ouroboros.Kernel.Books

/-!
# What an entry can do

Every entry is a chain of `Act`s on its core, ended by one `Finish` for the task that was current; or it is
one of the system calls told apart: `SPAWN`, `SET_ID`, `DELEGATE`, `MSG_REPLY`, and those that write the books.
Every invariant is proved for these, and never by unfolding an entry again.

* `Act`, `Act.run`, `Act.Ok`  one function of the task code, its effect and when it is called;
* `Acts`  a chain of legal acts;
* `Finish`  how the entry leaves the task it interrupted;
* `step_acts`  the decomposition.
-/

namespace Ouroboros.Kernel

open Relation Option State Slot

variable {M : Machine} {o : Origin} {p : Slot} {c : Fin M.cores} {s s' : State M}

section Acts

inductive Act (M : Machine) where
  /-- no task changes, and the books as `Hush` allows -/
  | quiet (m : Misc M)
  | beginCall (t : Slot)
  | endCall (t : Slot)
  | send (sender : Nat) (dest : Slot) (data : List UInt8) (call : Nat)
  | recv (t : Slot) (buf len : Nat)
  | wake (t : Slot) (v : Nat)
  | interrupt (t : Slot)
  | reap (t : Slot)
  | kill (i : Slot)
  /-- the end of the current task, and the switch to `next` -/
  | retire (final : TaskState) (next : Slot)
  | install (slot : Slot) (m : Misc M) (size : Nat)

/-- the entries that are told apart: the timer interrupt of the boot core, and the sending calls. -/
inductive Origin where
  | tick
  | send
  | other
  deriving DecidableEq

namespace Act

/-- state after the act on core `c`. -/
def run (c : Fin M.cores) (s : State M) : Act M → State M
  | quiet m => s.setMisc m
  | beginCall t => (Kernel.beginCall s t).2
  | endCall t => Kernel.endCall s t
  | send sender dest data call => (sendMessage s sender dest data call).2
  | recv t buf len => ((tryRecvMessage s t buf len).map Prod.snd).getD s
  | wake t v => s.modify t fun u => { u with x0 := v, state := .runnable }
  | interrupt t => s.modify t fun u => u.release recvInterrupted
  | reap t => s.modify t fun u => { u with state := .unused }
  | kill i => endTask s i .unused
  | retire final next => (endTask s (s.current c) final).setCurrent c next
  | install slot m size =>
    installTask (takeRegion (s.setMisc m) size) slot (cursor (allocateRuntimeRegion s.top size), size)

/-- legality of the act on core `c`, in an entry of kind `o` that began with `p` current. -/
def Ok (o : Origin) (p : Slot) (c : Fin M.cores) (s : State M) : Act M → Prop
  | quiet m => Hush s.task s.misc m
  | beginCall t => t = p ∧ t = s.current c
  | endCall t => t = p ∧ t = s.current c
  | send sender dest _ call =>
    (s.task dest).state.isOccupied = true ∧
      (o = .send ∧ sender = (s.current c).val ∧ (s.task (s.current c)).state = .runnable ∨
        sender = kernelSender ∧ call = kernelSender)
  | recv _ _ _ => True
  | wake t _ => ∃ r, (s.task t).state = .blocked r ∧ ∀ buf len f, r ≠ .message buf len (some f)
  | interrupt t =>
    o = .tick ∧ t = Slot.first ∧ ∃ buf len f, (s.task t).state = .blocked (.message buf len f)
  | reap t => ∃ status, (s.task t).state = .zombie status
  | kill i => i ≠ Slot.idle ∧ ∀ d, s.current d ≠ i
  | retire final next =>
    s.current c ≠ Slot.idle ∧ (final = .unused ∨ ∃ status, final = .zombie status) ∧
      mayRunOn (endTask s (s.current c) final) c next = true
  | install slot m size =>
    (s.task slot).state = .unused ∧ SameBooks s.misc m ∧
      ∃ image, M.keptImage slot = some image ∧ M.elfRegionSize image = .ok size

end Act

def ActStep (o : Origin) (p : Slot) (c : Fin M.cores) (s s' : State M) : Prop :=
  ∃ a : Act M, a.Ok o p c s ∧ s' = a.run c s

abbrev Acts (o : Origin) (p : Slot) (c : Fin M.cores) : State M → State M → Prop := ReflTransGen (ActStep o p c)

/-- the end of an entry that began with `p` current on core `c`. -/
inductive Finish (c : Fin M.cores) (p : Slot) (s : State M) : State M → Prop where
  | done : Finish c p s s
  /-- `p` goes on with a result -/
  | result (r : Nat) (hp : s.current c = p) : Finish c p s (s.modify p fun t => { t with x0 := r })
  /-- `p` waits; one that waits in a call has a call number and waits for a live task -/
  | block (reason : WaitReason) (next : Slot) (hp : s.current c = p) (hidle : p ≠ Slot.idle)
      (hcall : ∀ buf len f, reason = .message buf len (some f) → (s.task p).call ≠ 0 ∧
        (s.task f).state.isOccupied = true)
      (hnext : mayRunOn (s.modify p fun t => { t with state := .blocked reason }) c next = true) :
      Finish c p s ((s.modify p fun t => { t with state := .blocked reason }).setCurrent c next)
  | switch (next : Slot) (hnext : mayRunOn s c next = true) : Finish c p s (s.setCurrent c next)
  | yield (next : Slot) (hp : s.current c = p) (hnext : mayRunOn s c next = true) :
      Finish c p s ((s.modify p fun t => { t with x0 := 0 }).setCurrent c next)
  | netWake (t : Slot) (hwait : ∃ deadline, (s.task t).state = .blocked (.netInput deadline)) :
      Finish c p s ((s.modify t fun u => { u with x0 := 0, state := .runnable }).setCurrent c t)
  | up : Finish c p s (s.setCurrent c Slot.idle)

/-! ## Chains -/

section chains
variable {P : State M → Prop} {m : Misc M}

theorem Act.recv_at {t : Slot} {buf len : Nat} (hsame : P s)
    (htake : ∀ msg rest m, (s.task t).mailbox = msg :: rest → SameBooks s.misc m →
      P ((s.modify t fun u =>
        { u with mailbox := rest, cred := msg.cred, received := some msg.tag }).setMisc m)) :
    P ((recv t buf len).run c s) := by
  cases hr : tryRecvMessage s t buf len with
  | none =>
    simp only [run, hr]
    exact hsame
  | some r =>
    have hbooks := tryRecvMessage_books hr
    obtain ⟨msg, rest, m, hbox, hu⟩ := tryRecvMessage_eq_some hr
    rw [hu] at hbooks
    simp only [run, hr, map_some, getD_some, hu]
    exact htake msg rest m hbox hbooks

theorem Acts.of (a : Act M) (h : a.Ok o p c s) : Acts o p c s (a.run c s) := .single ⟨a, h, rfl⟩

theorem Acts.quiet (h : Hush s.task s.misc m) : Acts o p c s (s.setMisc m) := .of (.quiet m) h

theorem Acts.still (h : SameBooks s.misc m) : Acts o p c s (s.setMisc m) := .quiet (.still h)

theorem Acts.hushes (h : Hushes s.task s.misc m) : Acts o p c s (s.setMisc m) := by
  induction h with
  | refl => exact .refl
  | @tail m₁ m₂ _ hm ih =>
    have hlast : Acts o p c (s.setMisc m₁) ((s.setMisc m₁).setMisc m₂) := .quiet hm
    exact ih.trans hlast

theorem Acts.invariant (h : Acts o p c s s') (hs : P s)
    (hact : ∀ s (a : Act M), P s → a.Ok o p c s → P (a.run c s)) : P s' := by
  induction h with
  | refl => exact hs
  | tail _ hst ih =>
    obtain ⟨a, ha, rfl⟩ := hst
    exact hact _ a ih ha

theorem endTask_state (s : State M) (i : Slot) (final : TaskState) :
    ((endTask s i final).task i).state = final := by
  rw [endTask_same]
  rfl

theorem killTask_acts {i : Slot} {r : Ended M} (h : killTask s c i = some (r, s')) (hi : i ≠ Slot.idle) :
    Acts o p c s s' ∧ s'.current = s.current ∧ (r = .now → (s'.task i).state = .unused) := by
  unfold killTask at h
  split at h
  · cases h
  split at h
  · split at h
    · cases h
    · rename_i id hid
      cases h
      exact ⟨.quiet (.mark hid), rfl, by rintro ⟨⟩⟩
  · rename_i hcore
    cases h
    refine ⟨.of (.kill i) ⟨hi, fun d => runningCore_none hcore hi d⟩, rfl, fun _ => ?_⟩
    exact endTask_state s i .unused

theorem endCurrent_acts {final : TaskState} (h : endCurrent s c final = some s')
    (hidle : s.current c ≠ Slot.idle) (hfinal : final = .unused ∨ ∃ status, final = .zombie status) :
    Acts o p c s s' ∧ (s'.task (s.current c)).state = final := by
  obtain ⟨next, hnext, rfl⟩ := endCurrent_eq_some h
  refine ⟨.of (.retire final next) ⟨hidle, hfinal, hnext⟩, ?_⟩
  exact endTask_state s (s.current c) final

theorem restart_acts {slot : Slot} (h : (s.task slot).state = .unused) : Acts o p c s (restart s slot) := by
  rcases restart_cases s slot with ⟨m, hm, hsame⟩ | ⟨image, size, m, himage, hsize, hm, hsame⟩
  · rw [hm]
    exact .still hsame
  rw [hm]
  have hinst : Acts o p c s _ := .of (.install slot m size) ⟨h, hsame, image, himage, hsize⟩
  refine hinst.trans ?_
  have hserver : isSupervised M slot := by
    unfold isSupervised
    rw [himage]
    rfl
  unfold setServerName
  split
  · exact Acts.still (.refl _)
  · exact Acts.quiet (.name (isSupervised_spawnable hserver) _)

theorem endIfDoomed_acts {b : Bool} (h : endIfDoomed s c = some (b, s')) :
    Acts o p c s s' ∧ (b = false → ∃ m, Unmarked s.misc (s.current c) m ∧ s' = s.setMisc m) ∧
      (b → (s'.task (s.current c)).state = .unused) := by
  unfold endIfDoomed at h
  simp only at h
  split at h
  · cases h
    exact ⟨.refl, fun _ => ⟨s.misc, .inl rfl, rfl⟩, by rintro ⟨⟩⟩
  split at h
  · cases h
    exact ⟨.quiet (.unmark _), fun _ => ⟨_, .inr rfl, rfl⟩, by rintro ⟨⟩⟩
  rename_i hcur
  rw [map_eq_some_iff] at h
  obtain ⟨u, hu, hpair⟩ := h
  cases hpair
  have hidle : s.current c ≠ idle := fun h => hcur (.inl h)
  have hend : Acts o p c s s' ∧ _ := endCurrent_acts hu hidle (.inl rfl)
  exact ⟨hend.1, by rintro ⟨⟩, fun _ => hend.2⟩

end chains

/-! ## The timer interrupt -/

section tick
variable {i slot : Slot} {b : Bool} {e : Entry M}

theorem finishPoll_acts {r : WaitReason} (hr : (s.task i).state = .blocked r)
    (hcall : ∀ buf len f, r ≠ .message buf len (some f)) (o : Option Nat) {m : Misc M}
    (hm : Hushes s.task s.misc m) : Acts .tick p c s (finishPoll i (o, s.setMisc m)) := by
  have hq : Acts .tick p c s (s.setMisc m) := .hushes hm
  cases o with
  | none => exact hq
  | some v => exact hq.trans (Acts.of (.wake i v) ⟨r, hr, hcall⟩)

theorem finishPoll_exit_acts {target : Slot} (hr : (s.task i).state = .blocked (.taskExit target)) :
    Acts .tick p c s (finishPoll i (poll s i (.taskExit target))) := by
  have hcall : ∀ buf len f, WaitReason.taskExit target ≠ .message buf len (some f) := by
    intro _ _ _ h
    cases h
  simp only [poll]
  split
  · rename_i status hz
    have hne : i ≠ target := by
      rintro rfl
      rw [hr] at hz
      cases hz
    have hreap : Acts .tick p c s _ := .of (.reap target) ⟨status, hz⟩
    have hr' : ((Act.run c s (.reap target)).task i).state = .blocked (.taskExit target) := by
      unfold Act.run
      rw [modify_other _ _ _ _ hne, hr]
    exact hreap.trans (Acts.of (.wake i status) ⟨_, hr', hcall⟩)
  · exact finishPoll_acts hr hcall (some taskKilledStatus) .refl
  · exact finishPoll_acts hr hcall _ (readKeyboardAhead_hushes _ _)

theorem finishPoll_message_acts {buf len : Nat} {server : Option Slot}
    (hr : (s.task i).state = .blocked (.message buf len server)) :
    Acts .tick p c s (finishPoll i (poll s i (.message buf len server))) := by
  simp only [poll]
  split
  · rename_i v u hrecv
    have hserver : server = none := by
      by_contra hne
      rw [if_neg hne] at hrecv
      cases hrecv
    rw [if_pos hserver] at hrecv
    subst hserver
    have hu : u = Act.run c s (.recv i buf len) := by simp [Act.run, hrecv]
    have hgot : Acts .tick p c s u := hu ▸ .of (.recv i buf len) trivial
    obtain ⟨msg, rest, m, -, rfl⟩ := tryRecvMessage_eq_some hrecv
    refine hgot.trans (Acts.of (.wake i v) ⟨.message buf len none, ?_, ?_⟩)
    · simpa using hr
    · intro _ _ _ h
      cases h
  · have hahead : Hushes s.task s.misc (readKeyboardAhead s.task s.misc i).2 := readKeyboardAhead_hushes _ _
    split
    · rename_i m hm
      rw [hm] at hahead
      have hint : Acts .tick p c (s.setMisc m) _ :=
        .of (.interrupt i) ⟨rfl, readKeyboardAhead_first hm, buf, len, server, hr⟩
      have heq : finishPoll i (some recvInterrupted, endCall (s.setMisc m) i) =
          Act.run c (s.setMisc m) (.interrupt i) := by
        simp [finishPoll, endCall, Act.run, State.modify, State.setMisc, Task.release]
      rw [heq]
      exact (Acts.hushes hahead).trans hint
    · rename_i m hm
      rw [hm] at hahead
      exact .hushes hahead

theorem pollSlot_acts (i : Slot) : Acts .tick p c s (pollSlot s i) := by
  unfold pollSlot
  split
  swap
  · exact .refl
  rename_i reason hr
  cases reason with
  | keyboard => exact finishPoll_acts hr (by intro _ _ _ h; cases h) _ (pollKeyboardByte_hushes _ _)
  | keyWait us => exact finishPoll_acts hr (by intro _ _ _ h; cases h) _ (keyWaitAnswer_hushes _ _ _)
  | sleep us | netInput deadline => exact finishPoll_acts hr (by intro _ _ _ h; cases h) _ .refl
  | taskExit target => exact finishPoll_exit_acts hr
  | message buf len server => exact finishPoll_message_acts hr

theorem pollSlots_acts (slots : List Slot) : Acts .tick p c s (slots.foldl pollSlot s) := by
  induction slots generalizing s with
  | nil => exact .refl
  | cons i rest ih => exact (pollSlot_acts i).trans ih

theorem readAheadForOwner_acts : Acts o p c s (readAheadForOwner s) := by
  unfold readAheadForOwner
  split
  · exact .refl
  · exact .hushes (readKeyboardAhead_hushes _ _)

theorem isSupervised_ne_idle (h : isSupervised M slot) : slot ≠ Slot.idle := by
  have hs := M.keptImage_server slot h
  rintro rfl
  exact absurd hs.1 (by decide)

theorem checkServer_acts (slot : Slot) : Acts o p c s (checkServer s slot).2 := by
  unfold checkServer
  simp only
  have hbooks := (heartbeat_books s.misc slot (s.task slot).state.isBlocked).trans
    (pollPing_books _ slot (s.task slot).state.isBlocked)
  revert hbooks
  generalize hping : pollPing _ slot (s.task slot).state.isBlocked = ping
  intro hbooks
  have hq : Acts o p c s (s.setMisc ping.2) := .still hbooks
  cases haction : ping.1 with
  | none | wedged => exact hq
  | inject =>
    have hb : (s.task slot).state.isBlocked := pollPing_inject (hping.trans (Prod.ext haction rfl))
    have hocc : (s.task slot).state.isOccupied := by
      cases hst : (s.task slot).state with
      | blocked r => rfl
      | _ => rw [hst] at hb; cases hb
    exact hq.trans (Acts.of (.send kernelSender slot pingData kernelSender) ⟨hocc, .inr ⟨rfl, rfl⟩⟩)

theorem superviseSlot_acts (h : superviseSlot s c slot = some (b, s')) : Acts o p c s s' := by
  unfold superviseSlot at h
  split at h
  · cases h
    exact .refl
  rename_i hsup
  have hidle : slot ≠ idle := isSupervised_ne_idle (by simpa using hsup)
  have hcheck : Acts o p c s (checkServer s slot).2 := checkServer_acts slot
  split at h
  · rename_i u hu
    rw [hu] at hcheck
    cases h
    exact hcheck
  rename_i u hu
  rw [hu] at hcheck
  split at h
  · rename_i hcur
    rw [map_eq_some_iff] at h
    obtain ⟨v, hv, hpair⟩ := h
    cases hpair
    have hend : Acts o p c _ _ ∧ _ := endCurrent_acts hv (hcur ▸ hidle) (.inl rfl)
    rw [← hcur] at hend
    exact hcheck.trans (hend.1.trans (restart_acts hend.2))
  · split at h
    · rename_i v hv
      cases h
      have hkill : Acts o p c _ _ ∧ _ := killTask_acts hv hidle
      exact hcheck.trans (hkill.1.trans (restart_acts (hkill.2.2 rfl)))
    · cases h

theorem superviseAll_acts {slots : List Slot} (h : superviseAll c slots s = some (b, s')) : Acts o p c s s' := by
  induction slots generalizing s with
  | nil =>
    cases h
    exact .refl
  | cons slot rest ih =>
    unfold superviseAll at h
    split at h
    · cases h
    · rename_i u hu
      cases h
      exact superviseSlot_acts hu
    · rename_i u hu
      exact (superviseSlot_acts hu).trans (ih h)

def Entered (o : Origin) (p : Slot) (c : Fin M.cores) (s s' : State M) : Prop :=
  ∃ u, Acts o p c s u ∧ Finish c p u s'

theorem Entered.of_acts (h : Acts o p c s s') : Entered o p c s s' := ⟨s', h, .done⟩

theorem Entered.of_finish (h : Finish c p s s') : Entered o p c s s' := ⟨s, .refl, h⟩

theorem Entered.after {u : State M} (h : Acts o p c s u) (h' : Entered o p c u s') : Entered o p c s s' := by
  obtain ⟨v, hv, hf⟩ := h'
  exact ⟨v, h.trans hv, hf⟩

theorem nextAtTick_entered (h : nextAtTick s c = some s') : Entered o p c s s' := by
  unfold nextAtTick at h
  rw [map_eq_some_iff] at h
  obtain ⟨next, hn, rfl⟩ := h
  refine ⟨s.setMisc { s.misc with round := Function.update s.misc.round c next }, ?_, ?_⟩
  · exact .still ⟨rfl, rfl, rfl, rfl⟩
  · exact .switch next (nextRunnable_mayRun hn)

theorem tickRest_entered (h : tickRest s c = some s') : Entered o p c s s' := by
  unfold tickRest at h
  split at h
  · cases h
  · rename_i u hu
    cases h
    exact .of_acts (superviseAll_acts hu)
  · rename_i u hu
    exact .after (superviseAll_acts hu) (nextAtTick_entered h)

theorem isSpawnable_ne_idle {t : Slot} (h : t.isSpawnable) : t ≠ Slot.idle := by
  rintro rfl
  cases h

theorem onTick_entered (h : onTick s c = some s') : Entered .tick p c s s' := by
  unfold onTick at h
  simp only at h
  have hpoll : Acts .tick p c s (readAheadForOwner (pollAll s)) :=
    (pollSlots_acts _).trans readAheadForOwner_acts
  revert h hpoll
  generalize readAheadForOwner (pollAll s) = u
  intro h hpoll
  have hpardon : Acts .tick p c u (u.setMisc { u.misc with pendingKill := 0, pendingQuit := false }) :=
    .quiet (.pardon ⟨rfl, rfl, rfl, rfl⟩)
  refine .after (hpoll.trans hpardon) ?_
  split at h
  · exact tickRest_entered h
  rename_i v hv
  rw [filter_eq_some_iff] at hv
  have hidle : v ≠ idle := isSpawnable_ne_idle hv.2
  split at h
  · rename_i hcur
    exact .of_acts (endCurrent_acts h (hcur ▸ hidle) (.inl rfl)).1
  split at h
  · cases h
  · rename_i r w hw
    exact .after (killTask_acts hw hidle).1 (tickRest_entered h)

theorem onFault_acts (h : onFault s c = some s') : Acts o p c s s' := by
  unfold onFault at h
  simp only at h
  split at h
  · cases h
  rename_i hne
  rw [map_eq_some_iff] at h
  obtain ⟨u, hu, rfl⟩ := h
  have hidle : s.current c ≠ idle := fun h => hne (.inr h)
  have hend : Acts o p c _ _ ∧ _ := endCurrent_acts hu hidle (.inl rfl)
  split
  · exact hend.1.trans (restart_acts hend.2)
  · exact hend.1

theorem onNetIrq_entered : Entered o p c s (onNetIrq s c) := by
  unfold onNetIrq
  split
  · exact .of_acts .refl
  rename_i t ht
  have hwait := List.find?_some ht
  refine .of_finish (.netWake t ?_)
  split at hwait
  · rename_i deadline hst
    exact ⟨deadline, hst⟩
  · cases hwait

theorem rescheduleIfIdle_entered (h : rescheduleIfIdle s c = some s') : Entered o p c s s' := by
  unfold rescheduleIfIdle at h
  split at h
  · cases h
    exact .of_acts .refl
  · obtain ⟨next, hn, rfl⟩ := switchNext_eq_some h
    exact .of_finish (.switch next hn)

def Sys.origin : Sys → Origin
  | .msgSend .. | .msgCall .. => .send
  | _ => .other

def Entry.origin : Entry M → Origin
  | .timer c _ => if c = M.boot then .tick else .other
  | .syscall _ _ k => k.origin
  | _ => .other

theorem irqLocked_entered (h : irqLocked s e = some s') : Entered e.origin p e.core s s' := by
  unfold irqLocked at h
  split at h
  · rename_i c d
    split at h
    · rename_i hboot
      have htick : (Entry.timer c d).origin = .tick := if_pos hboot
      rw [htick]
      have hticks : Acts .tick p c s (s.setMisc { s.misc with ticks := s.misc.ticks + 1 }) :=
        .still ⟨rfl, rfl, rfl, rfl⟩
      exact .after hticks (onTick_entered h)
    · exact nextAtTick_entered h
  · split at h
    · exact rescheduleIfIdle_entered h
    · cases h
      exact .of_acts .refl
  · split at h
    · cases h
      exact onNetIrq_entered
    · cases h
      exact .of_acts .refl
  · cases h
    exact .of_acts .refl

theorem irqEntry_entered {d : Dev} (h : irqEntry s e.core d e = some s') : Entered e.origin p e.core s s' := by
  unfold irqEntry at h
  rw [bind_eq_some_iff] at h
  obtain ⟨⟨b, u⟩, hu, h⟩ := h
  have hload : Acts e.origin p e.core s (s.load d) := .still ⟨rfl, rfl, rfl, rfl⟩
  exact .after (hload.trans (endIfDoomed_acts hu).1) (irqLocked_entered h)

end tick

/-! ## System calls -/

structure Steady (s : State M) : Prop where
  calls : 0 < s.nextCall
  idle : (s.task Slot.idle).state = .runnable
  current : ∀ c, (s.task (s.current c)).state = .runnable
  unique : ∀ c d, s.current c = s.current d → s.current c ≠ Slot.idle → c = d

section syscalls
variable {u : State M} {r ptr dest len task : Nat} {x : Nat × State M}

def Sys.isPlain : Sys → Bool
  | .spawn .. | .setId .. | .delegate .. | .msgReply .. => false
  | .spawnStage .. | .cwdStage .. | .argsStage .. | .envStage .. => false
  | .grant .. | .fg .. | .nsSet .. | .kbdMode .. => false
  | _ => true

theorem ret_entered (hacts : Acts o (s.current c) c s u) (hcur : u.current c = s.current c)
    (h : (Outcome.ret u r).finish c = some s') : Entered o (s.current c) c s s' := by
  cases h
  refine ⟨u, hacts, ?_⟩
  rw [hcur]
  exact .result r hcur

theorem Entered.same (h : (Outcome.ret s r).finish c = some s') : Entered o (s.current c) c s s' :=
  ret_entered .refl rfl h

theorem hushes_entered {m : Misc M} (hm : Hushes s.task s.misc m)
    (h : (Outcome.ret (s.setMisc m) r).finish c = some s') : Entered o (s.current c) c s s' :=
  ret_entered (.hushes hm) rfl h

theorem block_entered {reason : WaitReason} {prefer : Option Slot} (hacts : Acts o (s.current c) c s u)
    (hcur : u.current c = s.current c) (hidle : s.current c ≠ Slot.idle)
    (hcall : ∀ buf len f, reason = .message buf len (some f) →
      (u.task (s.current c)).call ≠ 0 ∧ (u.task f).state.isOccupied)
    (h : (Outcome.ofSwitch (blockCurrent u c reason prefer)).finish c = some s') :
    Entered o (s.current c) c s s' := by
  cases hb : blockCurrent u c reason prefer with
  | none =>
    rw [hb] at h
    cases h
  | some v =>
    rw [hb] at h
    cases h
    obtain ⟨next, hnext, rfl⟩ := blockCurrent_eq_some hb
    rw [hcur] at hnext ⊢
    exact ⟨u, hacts, .block reason next hcur hidle hcall hnext⟩

def Copies (s : State M) (x : Nat × State M) : Prop := ∃ mem, x.2 = s.setMisc (s.misc.setMem mem)

theorem Copies.nothing (r : Nat) : Copies s (r, s) := ⟨s.misc.dev.mem, rfl⟩

theorem getGroupsSyscall_copies (cur : Slot) (task ptr cap : Nat) :
    Copies s (getGroupsSyscall s cur task ptr cap) := by
  unfold getGroupsSyscall
  simp only
  split
  · exact .nothing _
  split
  · exact .nothing _
  · exact ⟨_, rfl⟩

theorem senderGroupsSyscall_copies (cur : Slot) (ptr cap : Nat) :
    Copies s (senderGroupsSyscall s cur ptr cap) := by
  unfold senderGroupsSyscall
  simp only
  split
  · exact .nothing _
  split
  · exact .nothing _
  · exact ⟨_, rfl⟩

theorem safecopySyscall_copies (cur : Slot) (call offset loc len dir : Nat) :
    Copies s (safecopySyscall s cur call offset loc len dir) := by
  unfold safecopySyscall
  split
  · exact .nothing _
  split
  · exact .nothing _
  rename_i m hm
  obtain ⟨_, _, -, -, -, -, -, -, -, -, -, rfl⟩ := safecopy_eq_some hm
  exact ⟨_, rfl⟩

theorem copyOut_copies {cur : Slot} {cap : Nat} {entry : List UInt8}
    (h : copyOut s cur ptr cap entry = some x) : Copies s x := by
  unfold copyOut at h
  simp only at h
  split at h
  · cases h
  · cases h
    exact ⟨_, rfl⟩

theorem Copies.getD {x : Option (Nat × State M)} (r : Nat) (h : ∀ y, x = some y → Copies s y) :
    Copies s (x.getD (r, s)) := by
  cases x with
  | none => exact .nothing r
  | some y => exact h y rfl

theorem querySyscall_copies (cur : Slot) (q : Query) : Copies s (querySyscall s cur q) := by
  cases q with
  | argc | envc | heapInfo what => exact .nothing _
  | cwd ptr cap | ns ptr cap => exact .getD _ fun y hy => copyOut_copies hy
  | arg index ptr cap | env index ptr cap =>
    refine .getD _ fun y hy => ?_
    obtain ⟨entry, -, hy⟩ := bind_eq_some_iff.1 hy
    exact copyOut_copies hy
  | taskName task ptr cap =>
    refine .getD _ fun y hy => ?_
    obtain ⟨t, -, hy⟩ := bind_eq_some_iff.1 hy
    obtain ⟨entry, -, hy⟩ := bind_eq_some_iff.1 hy
    exact copyOut_copies hy

theorem Copies.entered (hx : Copies s x) (h : (Outcome.ofPair x).finish c = some s') :
    Entered o (s.current c) c s s' := by
  obtain ⟨r, u⟩ := x
  obtain ⟨mem, rfl⟩ := hx
  have hm : SameBooks s.misc (s.misc.setMem mem) := ⟨rfl, rfl, rfl, rfl⟩
  exact ret_entered (.still hm) rfl h

theorem msgSend_entered (hs : Steady s)
    (h : (Outcome.ofPair (msgSend s (s.current c) dest ptr len)).finish c = some s') :
    Entered .send (s.current c) c s s' := by
  unfold msgSend at h
  split at h
  · exact .same h
  split at h
  · exact .same h
  rename_i d hd
  split at h
  · exact .same h
  have hsend : Acts .send (s.current c) c s _ :=
    .of (.send (s.current c).val d (readMem s.misc.dev.mem ptr len) 0)
    ⟨(liveIndex_eq_some.1 hd).2, .inl ⟨rfl, rfl, hs.current c⟩⟩
  exact ret_entered hsend (congrFun (sendMessage_current _ _ _ _ _) c) h

theorem msgRecv_entered (hidle : s.current c ≠ Slot.idle)
    (h : (msgRecv s c ptr len).finish c = some s') : Entered o (s.current c) c s s' := by
  unfold msgRecv at h
  simp only at h
  split at h
  · exact .same h
  have hq : Acts o (s.current c) c s (s.setMisc (noteProgress s.misc (s.current c))) :=
    .still (noteProgress_books _ _)
  split at h
  · rename_i v u hu
    have hrecv : Acts o (s.current c) c _ _ := hq.trans (Acts.of (.recv (s.current c) ptr len) trivial)
    simp only [Act.run, hu, map_some, getD_some] at hrecv
    obtain ⟨_, _, _, -, rfl⟩ := tryRecvMessage_eq_some hu
    exact ret_entered hrecv rfl h
  · exact block_entered hq rfl hidle (by rintro _ _ _ ⟨⟩) h

theorem msgTryRecv_entered (h : (Outcome.ofPair (msgTryRecv s (s.current c) ptr len)).finish c = some s') :
    Entered o (s.current c) c s s' := by
  unfold msgTryRecv at h
  split at h
  · exact .same h
  cases hu : tryRecvMessage s (s.current c) ptr len with
  | none =>
    rw [hu] at h
    exact .same h
  | some r =>
    obtain ⟨v, u⟩ := r
    rw [hu] at h
    have hrecv : Acts o (s.current c) c s _ := .of (.recv (s.current c) ptr len) trivial
    simp only [Act.run, hu, map_some, getD_some] at hrecv
    obtain ⟨_, _, _, -, rfl⟩ := tryRecvMessage_eq_some hu
    exact ret_entered hrecv rfl h

structure SamePlace (u v : Task) : Prop where
  region : v.region = u.region
  gen : v.gen = u.gen
  occupied : v.state.isOccupied = u.state.isOccupied

theorem SamePlace.refl (u : Task) : SamePlace u u := ⟨rfl, rfl, rfl⟩

theorem SamePlace.modify {f : Task → Task} {i : Slot} (h : SamePlace (s.task i) (f (s.task i))) (t : Slot) :
    SamePlace (s.task t) ((s.modify i f).task t) :=
  modify_at (.refl _) fun hti => hti ▸ h

theorem sendMessage_place {sender : Nat} {dest : Slot} {data : List UInt8} {call : Nat}
    (hocc : (s.task dest).state.isOccupied) (t : Slot) :
    SamePlace (s.task t) ((sendMessage s sender dest data call).2.task t) := by
  rcases sendMessage_cases s sender dest data call with ⟨-, hs⟩ | ⟨-, ⟨_, _, _, _, hwait, hs⟩ | ⟨-, hs⟩⟩
  · rw [hs]
    exact .refl _
  · rw [hs, logSend_task, setMisc_task]
    refine .modify ?_ t
    exact ⟨rfl, rfl, by rw [hwait]; rfl⟩
  rw [hs, logSend_task]
  refine .modify ?_ t
  refine ⟨rfl, rfl, ?_⟩
  rw [hocc]
  unfold Task.enqueue
  split
  · rfl
  · exact hocc

theorem msgCall_entered (hs : Steady s) (hidle : s.current c ≠ Slot.idle) {reply : Nat}
    (h : (msgCall s c dest ptr len reply).finish c = some s') : Entered .send (s.current c) c s s' := by
  unfold msgCall at h
  simp only at h
  split at h
  · exact .same h
  split at h
  · exact .same h
  rename_i d hd
  split at h
  · exact .same h
  rename_i hself
  split at h
  · exact .same h
  have hne : s.current c ≠ d := fun h => hself h.symm
  have hbegin : Acts .send (s.current c) c s (beginCall s (s.current c)).2 :=
    .of (.beginCall (s.current c)) ⟨rfl, rfl⟩
  have hocc : ((beginCall s (s.current c)).2.task d).state.isOccupied := by
    have := (liveIndex_eq_some.1 hd).2
    simpa [beginCall, hne.symm] using this
  have hrun : ((beginCall s (s.current c)).2.task (s.current c)).state = .runnable := by
    simpa [beginCall] using hs.current c
  have hsend : Acts .send (s.current c) c s _ := hbegin.trans (Acts.of
    (.send (s.current c).val d (readMem (beginCall s (s.current c)).2.misc.dev.mem ptr len)
      (beginCall s (s.current c)).1) ⟨hocc, .inl ⟨rfl, rfl, hrun⟩⟩)
  have hcur := congrFun (sendMessage_current (beginCall s (s.current c)).2 (s.current c).val d
    (readMem (beginCall s (s.current c)).2.misc.dev.mem ptr len) (beginCall s (s.current c)).1) c
  split at h
  · exact ret_entered (hsend.trans (Acts.of (.endCall (s.current c)) ⟨rfl, hcur.symm⟩)) hcur h
  refine block_entered hsend hcur hidle ?_ h
  rintro _ _ f hf
  cases hf
  have hcall : ((beginCall s (s.current c)).2.task (s.current c)).call = s.nextCall := by
    simp [beginCall]
  have hpos := hs.calls
  simp only [Act.run]
  refine ⟨?_, (sendMessage_place hocc _).occupied.trans hocc⟩
  rw [sendMessage_other _ _ _ hne, hcall]
  omega

theorem killSyscall_entered (h : (killSyscall s c task).finish c = some s') :
    Entered o (s.current c) c s s' := by
  unfold killSyscall at h
  split at h
  · exact .same h
  rename_i t ht
  split at h
  · exact .same h
  rename_i hspawn
  split at h
  · exact .same h
  split at h
  · exact .same h
  split at h
  · cases h
  rename_i r u hu
  have hkill : Acts o (s.current c) c _ _ ∧ _ := killTask_acts hu (isSpawnable_ne_idle (by simpa using hspawn))
  exact ret_entered hkill.1 (congrFun hkill.2.1 c) h

theorem waitSyscall_entered (hidle : s.current c ≠ Slot.idle) (h : (waitSyscall s c task).finish c = some s') :
    Entered o (s.current c) c s s' := by
  unfold waitSyscall at h
  split at h
  · exact .same h
  rename_i t ht
  split at h
  · exact .same h
  split at h
  · exact .same h
  split at h
  · rename_i status hz
    exact ret_entered (Acts.of (.reap t) ⟨status, hz⟩) rfl h
  · exact .same h
  · exact block_entered .refl rfl hidle (by rintro _ _ _ ⟨⟩) h

theorem netWaitSyscall_entered (hidle : s.current c ≠ Slot.idle) {ms : Nat}
    (h : (netWaitSyscall s c ms).finish c = some s') :
    Entered o (s.current c) c s s' := by
  unfold netWaitSyscall at h
  split at h
  · exact .same h
  · exact block_entered .refl rfl hidle (by rintro _ _ _ ⟨⟩) h

theorem yield_entered (h : (Outcome.ofSwitch (yieldCurrent s c)).finish c = some s') :
    Entered o (s.current c) c s s' := by
  cases hy : yieldCurrent s c with
  | none =>
    rw [hy] at h
    cases h
  | some u =>
    rw [hy] at h
    cases h
    unfold yieldCurrent at hy
    rw [map_eq_some_iff] at hy
    obtain ⟨next, hn, rfl⟩ := hy
    split
    · exact .of_acts .refl
    · exact .of_finish (.yield next rfl (nextRunnable_mayRun hn))

theorem exit_entered (hidle : s.current c ≠ Slot.idle) {status : Nat}
    (h : (Outcome.ofSwitch (endCurrent s c (.zombie status))).finish c = some s') :
    Entered o (s.current c) c s s' := by
  cases he : endCurrent s c (.zombie status) with
  | none =>
    rw [he] at h
    cases h
  | some u =>
    rw [he] at h
    cases h
    exact .of_acts (endCurrent_acts he hidle (.inr ⟨status, rfl⟩)).1

/-- **A plain call is a chain of acts and a finish for its caller.** -/
theorem dispatch_entered (hs : Steady s) (hidle : s.current c ≠ Slot.idle) {k : Sys}
    (hk : k.isPlain) (h : (dispatch s c k).finish c = some s') :
    Entered k.origin (s.current c) c s s' := by
  cases k with
  | device answer | stdoutTarget | self | getId task | taskIdentity task | senderId | senderTask
  | senderCall | taskState task => exact .same h
  | query q => exact (querySyscall_copies _ q).entered h
  | tryReadChar => exact hushes_entered (pollKeyboardByte_hushes _ _) h
  | readChar =>
    have hm : Hushes s.task s.misc (pollKeyboardByte s.task s.misc (s.current c)).2 :=
      pollKeyboardByte_hushes _ _
    simp only [dispatch] at h
    split at h
    · rename_i b m heq
      rw [heq] at hm
      exact hushes_entered hm h
    rename_i m heq
    rw [heq] at hm
    exact block_entered (.hushes hm) rfl hidle (by rintro _ _ _ ⟨⟩) h
  | sleepUntil us =>
    simp only [dispatch] at h
    split at h
    · exact .same h
    · exact block_entered .refl rfl hidle (by rintro _ _ _ ⟨⟩) h
  | keyWaitUntil us =>
    have hm : Hushes s.task s.misc (keyWaitAnswer s.task s.misc (s.current c) us).2 := keyWaitAnswer_hushes _ _ _
    simp only [dispatch] at h
    split at h
    · rename_i v m heq
      rw [heq] at hm
      exact hushes_entered hm h
    rename_i m heq
    rw [heq] at hm
    exact block_entered (.hushes hm) rfl hidle (by rintro _ _ _ ⟨⟩) h
  | getGroups task ptr cap => exact (getGroupsSyscall_copies ..).entered h
  | senderGroups ptr cap => exact (senderGroupsSyscall_copies ..).entered h
  | exit status =>
    simp only [dispatch] at h
    split at h
    · exact .same h
    · exact exit_entered hidle h
  | taskExitCode task =>
    simp only [dispatch] at h
    split at h
    · exact .same h
    · exact .same h
  | power mode =>
    simp only [dispatch] at h
    split at h
    · cases h
    · exact .same h
  | yield => exact yield_entered h
  | kill task => exact killSyscall_entered h
  | wait task => exact waitSyscall_entered hidle h
  | msgSend dest ptr len => exact msgSend_entered hs h
  | msgRecv ptr len => exact msgRecv_entered hidle h
  | msgTryRecv ptr len => exact msgTryRecv_entered h
  | msgCall dest ptr len reply => exact msgCall_entered hs hidle h
  | netWait ms => exact netWaitSyscall_entered hidle h
  | safecopy call offset loc len dir => exact (safecopySyscall_copies ..).entered h
  | _ => cases hk

end syscalls

/-! ## Every entry -/

section entries
variable {d : Dev}

theorem Steady.setMisc (h : Steady s) (m : Misc M) : Steady (s.setMisc m) :=
  ⟨h.calls, h.idle, h.current, h.unique⟩

theorem trapEntry_cases {body : State M → Option (State M)} (h : trapEntry s c d body = some s') :
    Acts o p c s s' ∧ (s'.task (s.current c)).state = .unused ∨
      ∃ m, Unmarked (s.load d).misc (s.current c) m ∧ body (s.setMisc m) = some s' := by
  unfold trapEntry at h
  rw [bind_eq_some_iff] at h
  obtain ⟨⟨b, u⟩, hu, h⟩ := h
  have hload : Acts o p c s (s.load d) := .still ⟨rfl, rfl, rfl, rfl⟩
  obtain ⟨hacts, hsame, hended⟩ : Acts o p c _ _ ∧ _ := endIfDoomed_acts hu
  cases b with
  | true =>
    cases h
    exact .inl ⟨hload.trans hacts, hended rfl⟩
  | false =>
    obtain ⟨m, hm, rfl⟩ := hsame rfl
    exact .inr ⟨m, hm, h⟩

theorem load_hushes {T : Table} {t : Slot} {m : Misc M} (h : Unmarked (s.load d).misc t m) :
    Hushes T s.misc m := by
  have hload : SameBooks s.misc (s.load d).misc := ⟨rfl, rfl, rfl, rfl⟩
  exact hload.hushes.trans h.hushes

theorem special_cases {k : Sys} (h : step s (.syscall c d k) = some s') :
    Acts o p c s s' ∧ (s'.task (s.current c)).state = .unused ∨
      ∃ m, Unmarked (s.load d).misc (s.current c) m ∧ (dispatch (s.setMisc m) c k).finish c = some s' := by
  simp only [step] at h
  split at h
  · cases h
  · exact trapEntry_cases h

def Entry.isPlain : Entry M → Bool
  | .syscall _ _ k => k.isPlain
  | _ => true

/-- **Every other entry is a chain of acts and a finish for the task that was current.** -/
theorem step_acts (hs : Steady s) {e : Entry M} (he : e.isPlain) (h : step s e = some s') :
    Entered e.origin (s.current e.core) e.core s s' := by
  cases e with
  | syscall c d k =>
    simp only [step] at h
    split at h
    · cases h
    rename_i hguard
    have hidle : s.current c ≠ idle := by
      intro hi
      simp [hi] at hguard
    rcases trapEntry_cases h with ⟨hacts, -⟩ | ⟨m, hmarks, hm⟩
    · exact .of_acts hacts
    · exact .after (.hushes (load_hushes hmarks)) (dispatch_entered (hs.setMisc m) hidle he hm)
  | fault c d =>
    simp only [step] at h
    split at h
    · cases h
    rcases trapEntry_cases h with ⟨hacts, -⟩ | ⟨m, hmarks, hm⟩
    · exact .of_acts hacts
    · exact .after (.hushes (load_hushes hmarks)) (.of_acts (onFault_acts hm))
  | timer c d | kick c d b | netIrq c d | irq c d =>
    simp only [step] at h
    split at h
    · cases h
    · exact irqEntry_entered h
  | coreUp c =>
    simp only [step] at h
    split at h
    · cases h
    cases h
    have hup : Acts Origin.other (s.current c) c s (s.setMisc (setUp s c true).misc) :=
      .still ⟨rfl, rfl, rfl, rfl⟩
    exact .after hup (.of_finish .up)
  | haltAlone c =>
    simp only [step] at h
    split at h
    · cases h
    · cases h
      exact .of_acts (.still ⟨rfl, rfl, rfl, rfl⟩)

end entries

end Acts

end Ouroboros.Kernel
