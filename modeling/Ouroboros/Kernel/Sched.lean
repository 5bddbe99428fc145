import Ouroboros.Kernel.Lifecycle

/-!
# Choosing the next task

Every switch of a core goes to a task that `mayRunOn` allows there, or, for a network interrupt, to
the task the interrupt has just made runnable.  `none` is a halted kernel: nothing could be run, or a
check that must not fail did.
-/

namespace Ouroboros.Kernel

section Sched
variable {M : Machine} {s s' : State M} {c : Fin M.cores} {t start : Slot}

/-- `scan_from`: the first of the `k` slots after `start` that is wanted. -/
def scanFrom (wanted : Slot → Bool) : Nat → Slot → Option Slot
  | 0, _ => none
  | k + 1, start =>
    if wanted start.succ then some start.succ else scanFrom wanted k start.succ

def nextRunnable (s : State M) (c : Fin M.cores) (start : Slot) : Option Slot :=
  match scanFrom (fun t => t != Slot.idle && mayRunOn s c t) 11 start with
  | some t => some t
  | none => if mayRunOn s c Slot.idle then some Slot.idle else none

/-- `next_or_halt` followed by `switch_to`. -/
def switchNext (s : State M) (c : Fin M.cores) (start : Slot) : Option (State M) :=
  (nextRunnable s c start).map (s.setCurrent c)

/-- `next_at_tick`: the search goes on from where this core's last tick stopped. -/
def nextAtTick (s : State M) (c : Fin M.cores) : Option (State M) :=
  (nextRunnable s c (s.misc.round c)).map fun next =>
    (s.setMisc { s.misc with round := Function.update s.misc.round c next }).setCurrent c next

/-- `yield_current_and_switch`. -/
def yieldCurrent (s : State M) (c : Fin M.cores) : Option (State M) :=
  (nextRunnable s c (s.current c)).map fun next =>
    if next = s.current c then s
    else (s.modify (s.current c) fun t => { t with x0 := 0 }).setCurrent c next

/-- `block_current_and_switch_to`. -/
def blockCurrent (s : State M) (c : Fin M.cores) (reason : WaitReason) (prefer : Option Slot) :
    Option (State M) :=
  let cur := s.current c
  let s := s.modify cur fun t => { t with state := .blocked reason }
  match prefer.filter fun p => p != cur && mayRunOn s c p with
  | some p => some (s.setCurrent c p)
  | none => switchNext s c cur

/-- `kill_current_and_switch`, and `exit_current_and_switch` for the final state `Zombie`. -/
def endCurrent (s : State M) (c : Fin M.cores) (final : TaskState) : Option (State M) :=
  switchNext (endTask s (s.current c) final) c (s.current c)

/-- `end_if_doomed`: whether the current task was ended here. -/
def endIfDoomed (s : State M) (c : Fin M.cores) : Option (Bool × State M) :=
  let cur := s.current c
  let marked := (s.misc.aux cur).doomed
  if marked = 0 then some (false, s)
  else if cur = Slot.idle ∨ taskIdOf s.task cur ≠ some marked then
    some (false, s.setMisc (s.misc.modify cur fun a => { a with doomed := 0 }))
  else (endCurrent s c .unused).map (true, ·)

def rescheduleIfIdle (s : State M) (c : Fin M.cores) : Option (State M) :=
  if s.current c ≠ Slot.idle then some s else switchNext s c Slot.idle

/-! ## Every choice may run -/

theorem scanFrom_wanted {wanted : Slot → Bool} (k : Nat) (start : Slot)
    (h : scanFrom wanted k start = some t) : wanted t := by
  induction k generalizing start with
  | zero => cases h
  | succ k ih =>
    unfold scanFrom at h
    split at h
    · rename_i hw
      cases h
      exact hw
    · exact ih _ h

theorem nextRunnable_mayRun (h : nextRunnable s c start = some t) : mayRunOn s c t := by
  unfold nextRunnable at h
  split at h
  · rename_i u hu
    cases h
    have := scanFrom_wanted _ _ hu
    simp only [Bool.and_eq_true] at this
    exact this.2
  · split at h
    · rename_i hi
      cases h
      exact hi
    · cases h

theorem switchNext_eq_some (h : switchNext s c start = some s') :
    ∃ next, mayRunOn s c next ∧ s' = s.setCurrent c next := by
  unfold switchNext at h
  rw [Option.map_eq_some_iff] at h
  obtain ⟨next, hn, rfl⟩ := h
  exact ⟨next, nextRunnable_mayRun hn, rfl⟩

theorem blockCurrent_eq_some {reason : WaitReason} {prefer : Option Slot}
    (h : blockCurrent s c reason prefer = some s') :
    ∃ next, mayRunOn (s.modify (s.current c) fun t => { t with state := .blocked reason }) c next ∧
      s' = (s.modify (s.current c) fun t => { t with state := .blocked reason }).setCurrent c next := by
  unfold blockCurrent at h
  simp only at h
  split at h
  · rename_i p hp
    rw [Option.filter_eq_some_iff] at hp
    cases h
    simp only [Bool.and_eq_true] at hp
    exact ⟨p, hp.2.2, rfl⟩
  · exact switchNext_eq_some h

theorem endCurrent_eq_some {final : TaskState} (h : endCurrent s c final = some s') :
    ∃ next, mayRunOn (endTask s (s.current c) final) c next ∧
      s' = (endTask s (s.current c) final).setCurrent c next := switchNext_eq_some h

end Sched

end Ouroboros.Kernel
