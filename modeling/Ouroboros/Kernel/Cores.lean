import Ouroboros.Kernel.Effects

/-!
# One core per task

* `Steady`, carried through every entry: the idle task is runnable, the current task of every core is runnable,
  and only the idle task is current on two cores;
* `reached_steady`  it holds in every reachable state;
* `step_undisturbed`  an entry leaves the current tasks of the other cores running;
* `one_core_per_task`  the two together.
-/

namespace Ouroboros.Kernel

open State

section Cores
variable {M : Machine} {o : Origin} {p : Slot} {c : Fin M.cores} {s s' : State M}
variable {t : Slot} {u : State M} {k : Sys} {a : Act M}

/-! ## A runnable task -/

def GoesOn (u v : Task) : Prop := v.state = .runnable ∧ v.gen = u.gen ∧ v.region = u.region

theorem enqueue_runnable {u : Task} (msg : Message) (h : u.state = .runnable) :
    (u.enqueue msg).state = .runnable := by
  unfold Task.enqueue
  rw [h]

theorem Effect.running {u : Task} (h : Effect o p c s s' t u) (hr : (s.task t).state = .runnable) :
    GoesOn (s.task t) u ∨ t ≠ Slot.idle ∧ ((∀ d, s.current d ≠ t) ∨ t = s.current c ∧ s'.current c ≠ t) := by
  cases h with
  | same | beginCall | endCall | recv => exact .inl ⟨hr, rfl, rfl⟩
  | deliver _ hwait | wake hwait | interrupt _ _ hwait =>
    rw [hr] at hwait
    cases hwait
  | enqueue => exact .inl ⟨enqueue_runnable _ hr, rfl, rfl⟩
  | reap hz =>
    rw [hr] at hz
    cases hz
  | orphan hcall =>
    rw [hr] at hcall
    cases hcall
  | killed hidle hcore => exact .inr ⟨hidle, .inl hcore⟩
  | retired hidle ht hnext => exact .inr ⟨hidle, .inr ⟨ht, hnext⟩⟩
  | installed hunused =>
    rw [hr] at hunused
    cases hunused

theorem Ending.running {u : Task} (h : Ending c p s s' t u) (hr : (s.task t).state = .runnable) :
    GoesOn (s.task t) u ∨ t ≠ Slot.idle ∧ t = s.current c ∧ s'.current c ≠ t := by
  cases h with
  | same | result => exact .inl ⟨hr, rfl, rfl⟩
  | block ht hp hidle _ hnext => exact .inr ⟨ht ▸ hidle, ht.trans hp.symm, hnext⟩
  | netWake hwait =>
    rw [hr] at hwait
    cases hwait

theorem Special.running (h : Special s p k u) (hr : (s.task t).state = .runnable) :
    GoesOn (s.task t) (u.task t) := by
  cases h with
  | quiet => exact ⟨hr, rfl, rfl⟩
  | @reply handle ptr len i x0 m ht =>
    have hne : t ≠ i := by
      rintro rfl
      have hcall := (replyTarget_eq_some.1 ht).1
      rw [hr] at hcall
      cases hcall
    rw [setMisc_task, modify_other _ _ _ _ hne]
    exact ⟨hr, rfl, rfl⟩
  | @spawn _ _ _ _ slot size out m program hslot =>
    have hne : t ≠ slot := by
      rintro rfl
      have hunused := (freeSlot_eq_some hslot).2
      rw [hr] at hunused
      cases hunused
    simp only [spawned, spawnedTable, if_neg hne]
    exact ⟨hr, rfl, rfl⟩
  | setId | delegate =>
    rw [setMisc_task]
    exact modify_at ⟨hr, rfl, rfl⟩ fun _ => ⟨hr, rfl, rfl⟩

/-! ## The current tasks -/

/-- a core keeps its current task, or it is `c` and takes one that is runnable and current nowhere
else. -/
def Switched (c : Fin M.cores) (s s' : State M) : Prop := ∀ d, s'.current d = s.current d ∨
    d = c ∧ (s'.task (s'.current c)).state = .runnable ∧
      (s'.current c ≠ Slot.idle → ∀ e, e ≠ c → s.current e ≠ s'.current c)

theorem Switched.of_eq (h : s'.current = s.current) : Switched c s s' := fun d => .inl (congrFun h d)

variable (hs : Steady s) {e : Entry M}
include hs

theorem Switched.of_mayRun {v : State M} {next : Slot}
    (hnext : mayRunOn v c next) (hv : v.current = s.current) (hu : u.current = s.current)
    (hstate : (u.task next).state = (v.task next).state) : Switched c s (u.setCurrent c next) := by
  intro d
  rw [setCurrent_apply, setCurrent_apply, if_pos rfl]
  split
  · refine .inr ⟨by assumption, hstate.trans (mayRunOn_runnable hnext), ?_⟩
    intro hidle e he hcur
    refine he (mayRunOn_current hnext hidle ?_ (hv ▸ hcur))
    intro d d' hd hd'
    rw [hv] at hd hd'
    exact hs.unique d d' (hd.trans hd'.symm) (hd ▸ hidle)
  · exact .inl (congrFun hu d)

theorem Act.switched (h : a.Ok o p c s) : Switched c s (a.run c s) := by
  cases a with
  | send sender dest data call => exact .of_eq (sendMessage_current s sender dest data call)
  | recv t buf len => exact .of_eq (Act.recv_at (P := fun u => u.current = s.current) rfl fun _ _ _ _ _ => rfl)
  | retire final next => exact .of_mayRun hs h.2.2 rfl rfl rfl
  | _ => exact .of_eq rfl

theorem Finish.switched (h : Finish c p s s') : Switched c s s' := by
  cases h with
  | done | result => exact .of_eq rfl
  | block reason next hp hidle hcall hnext | switch next hnext => exact .of_mayRun hs hnext rfl rfl rfl
  | yield next hp hnext =>
    exact .of_mayRun hs hnext rfl rfl (modify_proj _ _ rfl)
  | netWake t hwait =>
    obtain ⟨deadline, hwait⟩ := hwait
    intro d
    rw [setCurrent_apply, setCurrent_apply, if_pos rfl]
    split
    · refine .inr ⟨by assumption, by simp, ?_⟩
      -- a task that waits is current nowhere
      intro _ e _ hcur
      have hr := hs.current e
      rw [hcur, hwait] at hr
      cases hr
    · exact .inl rfl
  | up =>
    intro d
    rw [setCurrent_apply, setCurrent_apply, if_pos rfl]
    split
    · exact .inr ⟨by assumption, hs.idle, fun hidle => absurd rfl hidle⟩
    · exact .inl rfl

/-! ## Every entry keeps `Steady` -/

/-- what `Steady` needs of a step: the call counter does not fall, the switch is as above, and the idle
task and the current tasks go on. -/
theorem Steady.of_switched (hcall : s.nextCall ≤ s'.nextCall) (hsw : Switched c s s')
    (hidle : (s'.task Slot.idle).state = .runnable)
    (hcur : ∀ d, s'.current d = s.current d → (s'.task (s.current d)).state = .runnable) :
    Steady s' where
  calls := lt_of_lt_of_le hs.calls hcall
  idle := hidle
  current := by
    intro d
    rcases hsw d with h | ⟨rfl, h, -⟩
    · rw [h]
      exact hcur d h
    · exact h
  unique := by
    intro d e heq hne
    rcases hsw d with hd | ⟨rfl, -, hd⟩
    · rcases hsw e with he | ⟨rfl, -, he⟩
      · rw [hd, he] at heq
        exact hs.unique d e heq (hd ▸ hne)
      · by_contra hde
        exact he (heq ▸ hne) d hde (hd ▸ heq)
    · rcases hsw e with he | ⟨rfl, -, -⟩
      · by_contra hde
        exact hd hne e (fun h => hde h.symm) (he ▸ heq.symm)
      · rfl

omit hs in
theorem Act.counters_le (a : Act M) : s.nextCall ≤ (a.run c s).nextCall ∧ s.nextGen ≤ (a.run c s).nextGen := by
  cases a with
  | beginCall t => exact ⟨Nat.le_succ _, le_rfl⟩
  | install slot m size => exact ⟨le_rfl, Nat.le_succ _⟩
  | send sender dest data call =>
    rcases sendMessage_cases s sender dest data call with ⟨-, h⟩ | ⟨-, ⟨_, _, _, _, -, h⟩ | ⟨-, h⟩⟩
    all_goals
      simp only [Act.run, h]
      exact ⟨le_rfl, le_rfl⟩
  | recv t buf len =>
    refine recv_at (P := fun u => s.nextCall ≤ u.nextCall ∧ s.nextGen ≤ u.nextGen) ?_ fun _ _ _ _ _ => ?_
    all_goals exact ⟨le_rfl, le_rfl⟩
  | _ => exact ⟨le_rfl, le_rfl⟩

theorem Steady.act (h : a.Ok o p c s) : Steady (a.run c s) := by
  refine hs.of_switched a.counters_le.1 (a.switched hs h) ?_ ?_
  · rcases (a.effect h Slot.idle).running hs.idle with hgo | ⟨hidle, -⟩
    · exact hgo.1
    · exact absurd rfl hidle
  intro d hd
  rcases (a.effect h (s.current d)).running (hs.current d) with hgo | ⟨hidle, hcore | ⟨hc, hnext⟩⟩
  · exact hgo.1
  · exact absurd rfl (hcore d)
  -- the current task of `c` was ended, so `d` is `c`, which has left it
  have hdc : d = c := hs.unique d c hc hidle
  subst hdc
  exact absurd hd hnext

theorem Steady.finish (h : Finish c p s s') : Steady s' := by
  have hcall : s.nextCall ≤ s'.nextCall := by cases h <;> exact le_rfl
  refine hs.of_switched hcall (h.switched hs) ?_ ?_
  · rcases (h.ending Slot.idle).running hs.idle with hgo | ⟨hidle, -⟩
    · exact hgo.1
    · exact absurd rfl hidle
  intro d hd
  rcases (h.ending (s.current d)).running (hs.current d) with hgo | ⟨hidle, hc, hnext⟩
  · exact hgo.1
  have hdc : d = c := hs.unique d c hc hidle
  subst hdc
  exact absurd hd hnext

theorem Steady.acts (h : Acts o p c s s') : Steady s' := h.invariant hs fun _ _ hs ha => hs.act ha

omit hs in
theorem Special.nextCall (h : Special s p k u) : u.nextCall = s.nextCall := by
  cases h <;> rfl

theorem Steady.special (h : Special s p k u) : Steady u := by
  refine hs.of_switched (c := M.boot) (Nat.le_of_eq h.nextCall.symm) (.of_eq h.current) ?_ ?_
  · exact (h.running hs.idle).1
  · intro d _
    exact (h.running (hs.current d)).1

theorem Steady.result (t : Slot) (r : Nat) : Steady (s.modify t fun u => { u with x0 := r }) := by
  have hstate (u : Slot) : ((s.modify t fun v => { v with x0 := r }).task u).state = (s.task u).state :=
    modify_proj u _ rfl
  exact ⟨hs.calls, (hstate _).trans hs.idle, fun d => (hstate _).trans (hs.current d), hs.unique⟩

theorem Steady.step (h : step s e = some s') : Steady s' := by
  rcases step_cases hs h with ⟨u, hacts, hfin⟩ | ⟨c, d, k, r, u, -, hu, rfl⟩
  · exact (hs.acts hacts).finish hfin
  · exact (hs.special hu).result _ r

omit hs in
theorem booted_steady (h : Booted s) : Steady s := by
  obtain ⟨b, top, q, d, rfl⟩ := h
  have hrun : ∀ t, (b.region t).isSome → ((bootState M b top q d).task t).state = .runnable := by
    intro t ht
    obtain ⟨r, hr⟩ := Option.isSome_iff_exists.1 ht
    simp only [bootState, hr]
    rfl
  refine ⟨Nat.one_pos, hrun _ b.idle, ?_, ?_⟩
  · intro c
    show ((bootState M b top q d).task (if c = M.boot then Slot.first else Slot.idle)).state = .runnable
    split
    · exact hrun _ b.shell
    · exact hrun _ b.idle
  · intro c d heq hne
    simp only [bootState] at heq hne
    by_cases hc : c = M.boot
    · by_cases hd : d = M.boot
      · rw [hc, hd]
      · rw [if_pos hc, if_neg hd] at heq
        exact absurd heq (by decide)
    · rw [if_neg hc] at hne
      exact absurd rfl hne

omit hs in
theorem reached_steady (h : Reached s) : Steady s :=
  h.invariant (fun _ => booted_steady) fun _ _ _ hs hstep => hs.step hstep

/-! ## The other cores -/

omit hs in
theorem GoesOn.trans {u v w : Task} (h : GoesOn u v) (h' : GoesOn v w) : GoesOn u w :=
  ⟨h'.1, h'.2.1.trans h.2.1, h'.2.2.trans h.2.2⟩

def Undisturbed (c : Fin M.cores) (s s' : State M) : Prop :=
  ∀ d, d ≠ c → s'.current d = s.current d ∧ GoesOn (s.task (s.current d)) (s'.task (s.current d))

omit hs in
theorem Undisturbed.trans (h : Undisturbed c s u) (h' : Undisturbed c u s') : Undisturbed c s s' := by
  intro d hd
  obtain ⟨hcur, hgo⟩ := h d hd
  obtain ⟨hcur', hgo'⟩ := h' d hd
  rw [hcur] at hcur' hgo'
  exact ⟨hcur', hgo.trans hgo'⟩

theorem Act.undisturbed (h : a.Ok o p c s) : Undisturbed c s (a.run c s) := by
  intro d hd
  refine ⟨?_, ?_⟩
  · rcases a.switched hs h d with hcur | ⟨hdc, -⟩
    · exact hcur
    · exact absurd hdc hd
  rcases (a.effect h (s.current d)).running (hs.current d) with hgo | ⟨hidle, hcore | ⟨hc, -⟩⟩
  · exact hgo
  · exact absurd rfl (hcore d)
  · exact absurd (hs.unique d c hc hidle) hd

theorem Finish.undisturbed (h : Finish c p s s') : Undisturbed c s s' := by
  intro d hd
  refine ⟨?_, ?_⟩
  · rcases h.switched hs d with hcur | ⟨hdc, -⟩
    · exact hcur
    · exact absurd hdc hd
  rcases (h.ending (s.current d)).running (hs.current d) with hgo | ⟨hidle, hc, -⟩
  · exact hgo
  · exact absurd (hs.unique d c hc hidle) hd

theorem Acts.undisturbed (h : Acts o p c s s') : Undisturbed c s s' := by
  have hrefl : Undisturbed c s s := fun d _ => ⟨rfl, hs.current d, rfl, rfl⟩
  refine (h.invariant (P := fun u => Steady u ∧ Undisturbed c s u) ⟨hs, hrefl⟩ ?_).2
  intro u a ⟨hu, hun⟩ ha
  exact ⟨hu.act ha, hun.trans (a.undisturbed hu ha)⟩

theorem step_undisturbed (h : step s e = some s') : Undisturbed e.core s s' := by
  rcases step_cases hs h with ⟨u, hacts, hfin⟩ | ⟨c, dv, k, r, u, rfl, hu, rfl⟩
  · exact (hacts.undisturbed hs).trans (hfin.undisturbed (hs.acts hacts))
  intro d _
  refine ⟨congrFun hu.current d, ?_⟩
  have hgo := hu.running (hs.current d)
  exact modify_at hgo fun _ => hgo

omit hs in
/-- **At every lock release a task other than the idle task is current on one core only, a current task is
runnable, and no entry ends or replaces the task of another core.** -/
theorem one_core_per_task (h : Reached s) :
    (∀ c d, s.current c = s.current d → s.current c ≠ Slot.idle → c = d) ∧
    (∀ c, (s.task (s.current c)).state = .runnable) ∧
    ∀ e s', step s e = some s' → ∀ d, d ≠ e.core → s'.current d = s.current d ∧
      (s'.task (s.current d)).state = .runnable ∧
      (s'.task (s.current d)).gen = (s.task (s.current d)).gen ∧
      (s'.task (s.current d)).region = (s.task (s.current d)).region := by
  have hs := reached_steady h
  refine ⟨hs.unique, hs.current, ?_⟩
  intro e s' hstep d hd
  exact step_undisturbed hs hstep d hd

/-- the second core comes up, the shell starts a task, and the core takes it. -/
def bothBusy : State twoCores :=
  after twoCoresBoot [.coreUp secondCore, stagesImage, spawnsChild, .timer secondCore noDev]

omit hs in
/-- one core runs the shell and the other its child. -/
theorem one_core_per_task_busy : bothBusy.current (0 : Fin 2) = Slot.first ∧ bothBusy.current (1 : Fin 2) = 6 ∧
    (∀ c, (bothBusy.task (bothBusy.current c)).state = .runnable) ∧
    ∀ e s', step bothBusy e = some s' → ∀ d, d ≠ e.core →
      s'.current d = bothBusy.current d ∧ (s'.task (bothBusy.current d)).state = .runnable ∧
      (s'.task (bothBusy.current d)).gen = (bothBusy.task (bothBusy.current d)).gen ∧
      (s'.task (bothBusy.current d)).region = (bothBusy.task (bothBusy.current d)).region := by
  have hreached : Reached bothBusy := reached_after (by decide +kernel)
  exact ⟨by decide +kernel, by decide +kernel, (one_core_per_task hreached).2⟩

end Cores

end Ouroboros.Kernel
