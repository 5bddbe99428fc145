import Ouroboros.Kernel.Grants

/-!
# Whom a `WAIT` is answered for

A `WAIT` that blocks records the slot of the task it is for, and every tick of the boot core looks at what
the slot holds by then.

* `Answers`  the answers that are about the task that was there at the call;
* `wait_answers_iff`  which answers these are;
* `wait_for_successor`  a run in which a `WAIT` returns the status of a later task of the slot, and reaps it.
-/

namespace Ouroboros.Kernel

open Relation Transition List State

section Waits
variable {M : Machine} {s s' u u' : State M} {t w : Slot} {e : Entry M}
variable {k : List (State M × Entry M × State M)}

/-- the task in `w` called `WAIT` for the slot `t` in the step from `s` to `s'`, and is blocked since, over
`k`. -/
structure Waiting (w t : Slot) (s : State M) (e : Entry M) (s' : State M)
    (k : List (State M × Entry M × State M)) : Prop where
  asked : ∃ c d, e = .syscall c d (.wait t.val) ∧ s.current c = w
  blocked : (s'.task w).state = .blocked (.taskExit t)
  since : ∀ y ∈ k, (y.2.2.task w).state = .blocked (.taskExit t)

/-- the state in which the polling loop of a tick reaches the slot `w`. -/
def polledAt (s : State M) (w : Slot) : Entry M → Option (State M)
  | .timer c d =>
    if c = M.boot then (endIfDoomed (s.load d) c).map fun r =>
      (Slot.all.take w.val).foldl pollSlot (r.2.setMisc { r.2.misc with ticks := r.2.misc.ticks + 1 })
    else none
  | _ => none

/-- `v`, with the state `u'` after it, answers in `u` a `WAIT` for the task that occupied `t` in `s`. -/
inductive Answers (s u : State M) (t : Slot) (v : Nat) (u' : State M) : Prop where
  | exited (hstate : (u.task t).state = .zombie v) (hgen : (u.task t).gen = (s.task t).gen)
      (hreap : u' = u.modify t fun x => { x with state := .unused })
  | gone (hstate : (u.task t).state = .unused) (hv : v = taskKilledStatus) (hkeep : u' = u)
  | interrupted (hstate : (u.task t).state.isOccupied = true) (hv : v = waitInterrupted)
      (hkeep : u'.task = u.task)

theorem polledAt_shifts (h : polledAt s w e = some u) : Shifts s u := by
  cases e with
  | timer c d =>
    simp only [polledAt] at h
    split at h
    swap
    · cases h
    rw [Option.map_eq_some_iff] at h
    obtain ⟨⟨b, r⟩, hr, rfl⟩ := h
    have hload : Acts .tick w c s (s.load d) := .still ⟨rfl, rfl, rfl, rfl⟩
    have hended : Acts .tick w c (s.load d) r ∧ _ := endIfDoomed_acts hr
    have htick : Acts .tick w c r (r.setMisc { r.misc with ticks := r.misc.ticks + 1 }) :=
      .still ⟨rfl, rfl, rfl, rfl⟩
    exact Acts.shifts (hload.trans (hended.1.trans (htick.trans (pollSlots_acts _))))
  | _ => cases h

theorem Waiting.spawnable (h : Waiting w t s e s' k) (hs : Steady s) (hst : Step s e s') : t.isSpawnable := by
  obtain ⟨⟨c, d, rfl, rfl⟩, hblocked, -⟩ := h
  by_contra hnot
  rw [Bool.not_eq_true] at hnot
  rcases special_cases (o := .tick) (p := t) hst with ⟨-, hended⟩ | ⟨m, -, hret⟩
  · rw [hended] at hblocked
    cases hblocked
  · simp only [dispatch, waitSyscall, Slot.new_eq_some.2 rfl, hnot, if_true] at hret
    cases hret
    rw [setMisc_current, modify_same, setMisc_task, hs.current c] at hblocked
    cases hblocked

/-- **What a `WAIT` returns** is about the task it was for, unless a `SPAWN` has filled the slot since and
that task has exited too. -/
theorem wait_answers_iff {s₁ s₂ : State M} {e₁ : Entry M} (hr : Reached s₁) (hst : Step s₁ e₁ s₂)
    (tr : Trace Step s₂ k s) (hwait : Waiting w t s₁ e₁ s₂ k) (hu : polledAt s w e = some u) {v : Nat}
    (hans : poll u w (.taskExit t) = (some v, u')) :
    Answers s₁ u t v u' ↔ (∀ y ∈ k, ∀ q, ¬ Spawns y.1 y.2.1 y.2.2 q t) ∨ ∀ status,
      (u.task t).state ≠ .zombie status := by
  obtain ⟨hs, hn⟩ := reached_numbered hr
  have ht := hwait.spawnable hs hst
  have hsince := trace_gen (hr.tail hst) tr ht
  have hcall : (s₂.task t).gen = (s₁.task t).gen := by
    rcases step_gen hs hn.issued hst ht with ⟨hsame, -⟩ | ⟨-, q, ⟨_, _, _, _, _, _, he, -⟩, -⟩
    · exact hsame
    · obtain ⟨_, _, rfl, -⟩ := hwait.asked
      cases he
  unfold GenSince at hsince
  rw [hcall, ← ((polledAt_shifts hu).spawnable ht).1] at hsince
  simp only [poll] at hans
  split at hans
  · rename_i hz
    cases hans
    constructor
    · rintro (⟨-, hsame, -⟩ | ⟨hun, -⟩ | ⟨hocc, -⟩)
      · rcases hsince with ⟨-, hnone⟩ | ⟨hlt, -⟩
        · exact .inl hnone
        · exact absurd hsame (ne_of_gt hlt)
      · rw [hun] at hz
        cases hz
      · rw [hz] at hocc
        cases hocc
    · rintro (hnone | hnot)
      · rcases hsince with ⟨hsame, -⟩ | ⟨-, y, hy, q, hfills⟩
        · exact .exited hz hsame rfl
        · exact absurd hfills (hnone y hy q)
      · exact absurd hz (hnot v)
  · rename_i hun
    cases hans
    exact ⟨fun _ => .inr (by rw [hun]; rintro _ ⟨⟩), fun _ => .gone hun rfl rfl⟩
  · rename_i hnotz hnotun
    refine ⟨fun _ => .inr hnotz, fun _ => ?_⟩
    have hocc : (u.task t).state.isOccupied := by
      cases hstate : (u.task t).state with
      | runnable | blocked _ => rfl
      | unused => exact absurd hstate hnotun
      | zombie status => exact absurd hstate (hnotz status)
    cases hhit : (readKeyboardAhead u.task u.misc w).1 with
    | false =>
      rw [hhit] at hans
      cases hans
    | true =>
      rw [hhit] at hans
      cases hans
      exact .interrupted hocc rfl rfl

/-! ## A `WAIT` that outlives the task it is for -/

/-- the shell spawns two tasks and each gets to run, so that the second makes the next call. -/
def twoSpawned : State twoCores := after twoCoresBoot
  [stagesImage, spawnsChild, stagesImage, spawnsChild, asksFirst .yield,
    asksFirst .yield]

def waitsForFirst : Entry twoCores := asksFirst (.wait 6)

def firstAwaited : State twoCores := after twoSpawned [waitsForFirst]

def firstExits : List (Entry twoCores) :=
  [asksFirst .yield, asksFirst (.exit 5)]

/-- the shell then reaps it and spawns a third into its slot, which exits as well. -/
def thirdExits : List (Entry twoCores) :=
  firstExits ++ [waitsForFirst, stagesImage, spawnsChild, asksFirst .yield,
    asksFirst (.exit 9)]

def polledAfter (es : List (Entry twoCores)) : State twoCores :=
  (polledAt (after firstAwaited es) 7 (.timer (0 : Fin 2) noDev)).getD firstAwaited

theorem twoSpawned_reached : Reached twoSpawned := reached_after (by decide +kernel)

theorem firstAwaited_step : Step twoSpawned waitsForFirst firstAwaited := step_after (by decide +kernel)

theorem firstAwaited_waiting {k : List (State twoCores × Entry twoCores × State twoCores)}
    (hk : ∀ y ∈ k, (y.2.2.task 7).state = .blocked (.taskExit 6)) :
    Waiting 7 6 twoSpawned waitsForFirst firstAwaited k := by
  have hcur : twoSpawned.current (0 : Fin 2) = 7 := by
    decide +kernel
  exact ⟨⟨(0 : Fin 2), noDev, rfl, hcur⟩, by decide +kernel, hk⟩

theorem polledAfter_polled {es : List (Entry twoCores)}
    (h : (polledAt (after firstAwaited es) 7 (.timer (0 : Fin 2) noDev)).isSome) :
    polledAt (after firstAwaited es) 7 (.timer (0 : Fin 2) noDev) = some (polledAfter es) := by
  obtain ⟨u, hu⟩ := Option.isSome_iff_exists.1 h
  rw [polledAfter, hu]
  rfl

/-- a tick after the first exit answers with its status. -/
theorem wait_answers_first :
    Answers twoSpawned (polledAfter firstExits) 6 5 (poll (polledAfter firstExits) 7 (.taskExit 6)).2 := by
  have hwait : Waiting 7 6 twoSpawned waitsForFirst firstAwaited (record firstAwaited firstExits) :=
    firstAwaited_waiting (by decide +kernel)
  have hrun : Trace Step firstAwaited (record firstAwaited firstExits) (after firstAwaited firstExits) :=
    record_trace (by decide +kernel)
  have hu := @polledAfter_polled firstExits (by decide +kernel)
  have hpoll : (poll (polledAfter firstExits) 7 (.taskExit 6)).1 = some 5 := by
    decide +kernel
  refine (wait_answers_iff twoSpawned_reached firstAwaited_step hrun hwait hu (Prod.ext_iff.2 ⟨hpoll, ?_⟩)).2
    (.inl ?_)
  · dsimp only
  rintro y hy q ⟨⟨_, _, _, _, _, _, he, -⟩, -⟩
  have hentry := record_mem hy
  rw [he] at hentry
  simp only [firstExits, mem_cons, not_mem_nil, or_false] at hentry
  rcases hentry with h | h <;> cases h

/-- one after the third answers the same `WAIT` with the third's, and reaps it. -/
theorem wait_for_successor : Reached twoSpawned ∧ Step twoSpawned waitsForFirst firstAwaited ∧
    Trace Step firstAwaited (record firstAwaited thirdExits) (after firstAwaited thirdExits) ∧
    Waiting 7 6 twoSpawned waitsForFirst firstAwaited (record firstAwaited thirdExits) ∧
    polledAt (after firstAwaited thirdExits) 7 (.timer (0 : Fin 2) noDev) = some (polledAfter thirdExits) ∧
    (poll (polledAfter thirdExits) 7 (.taskExit 6)).1 = some 9 ∧
    ((poll (polledAfter thirdExits) 7 (.taskExit 6)).2.task 6).state = .unused ∧
    ((polledAfter thirdExits).task 6).gen ≠ (twoSpawned.task 6).gen := by
  refine ⟨twoSpawned_reached, firstAwaited_step, record_trace (by decide +kernel), firstAwaited_waiting ?_,
    polledAfter_polled (by decide +kernel), ?_⟩
  · decide +kernel
  · decide +kernel

end Waits

end Ouroboros.Kernel
