import Ouroboros.Kernel.Cores

/-!
# Calls are answered once, by their own answer

* `Numbered`  numbers of calls and generations are below their counters, a call number is held by one slot;
* `step_fate`  every entry leaves it waiting, ends it, or releases it for one of three reasons;
* `reply_stale`  a reply that names no pending call of the replier changes no task's state;
* `call_retired`  a number that its holder has lost is never held again.
-/

namespace Ouroboros.Kernel

open Transition State Nat List

section Calls
variable {M : Machine} {o : Origin} {p : Slot} {c : Fin M.cores} {s s' : State M}
variable {t f : Slot} {a : Act M} {u : State M} {k : Sys} {e : Entry M} {v : Nat} {w : Task}

/-! ## Numbers -/

structure Numbered (s : State M) : Prop where
  below : ∀ t, (s.task t).call < s.nextCall
  distinct : ∀ t u, (s.task t).call = (s.task u).call → (s.task t).call ≠ 0 → t = u
  blocked : ∀ t f, (s.task t).state.inCallTo f = true → (s.task t).call ≠ 0
  gens : ∀ t, (s.task t).gen < s.nextGen
  live : ∀ t, (s.task t).state.isOccupied = true → (s.task t).gen ≠ 0

theorem Effect.call {u : Task} (h : Effect o p c s s' t u) : u.call = (s.task t).call ∨ u.call = 0 ∨
      u.call = s.nextCall ∧ t = s.current c ∧ s'.nextCall = s.nextCall + 1 := by
  cases h with
  | beginCall _ ht hnext => exact .inr (.inr ⟨rfl, ht, hnext⟩)
  | endCall | interrupt | orphan | killed | retired => exact .inr (.inl rfl)
  | _ => exact .inl rfl

theorem Effect.inCall {u : Task} (hs : Steady s) (h : Effect o p c s s' t u) (hu : u.state.inCallTo f) :
    (s.task t).state.inCallTo f ∧ u.call = (s.task t).call := by
  cases h with
  | same | recv => exact ⟨hu, rfl⟩
  | beginCall _ ht | endCall _ ht =>
    have hr := hs.current c
    rw [← ht] at hr
    simp only [hr] at hu
    cases hu
  | deliver | wake | interrupt | reap | orphan | killed | installed => cases hu
  | enqueue =>
    refine ⟨?_, rfl⟩
    cases hst : (s.task t).state with
    | blocked r =>
      cases r <;> simp_all [Task.enqueue, TaskState.inCallTo]
    | _ => simp_all [Task.enqueue, TaskState.inCallTo]
  | retired _ _ _ hfinal => rcases hfinal with rfl | ⟨status, rfl⟩ <;> cases hu

theorem Effect.gen {u : Task} (h : Effect o p c s s' t u) :
    u.gen = (s.task t).gen ∨ u.gen = s.nextGen ∧ s'.nextGen = s.nextGen + 1 := by
  cases h with
  | killed | retired =>
    refine .inl ?_
    unfold Task.failCall
    split <;> rfl
  | installed _ _ hgen => exact .inr ⟨rfl, hgen⟩
  | _ => exact .inl rfl

theorem Effect.occupied {u : Task} (h : Effect o p c s s' t u) (hu : u.state.isOccupied) :
    (s.task t).state.isOccupied ∨ u.gen = s.nextGen := by
  cases h with
  | deliver _ hwait | wake hwait | interrupt _ _ hwait => exact .inl (by rw [hwait]; rfl)
  | enqueue _ hocc => exact .inl hocc
  | reap | killed => cases hu
  | orphan hcall =>
    obtain ⟨buf, len, hst⟩ := inCallTo_eq_true.1 hcall
    exact .inl (by rw [hst]; rfl)
  | retired _ _ _ hfinal => rcases hfinal with rfl | ⟨status, rfl⟩ <;> cases hu
  | installed => exact .inr rfl
  | _ => exact .inl hu

theorem Numbered.of_slots {q : Slot} (hn : Numbered s)
    (hcalls : s.nextCall ≤ s'.nextCall) (hgens : s.nextGen ≤ s'.nextGen)
    (hcall : ∀ t, (s'.task t).call = (s.task t).call ∨ (s'.task t).call = 0 ∨
      (s'.task t).call = s.nextCall ∧ t = q ∧ s'.nextCall = s.nextCall + 1)
    (hin : ∀ t f, (s'.task t).state.inCallTo f → (s'.task t).call ≠ 0)
    (hgen : ∀ t, (s'.task t).gen = (s.task t).gen ∨ (s'.task t).gen = s.nextGen ∧ s'.nextGen = s.nextGen + 1)
    (hocc : ∀ t, (s'.task t).state.isOccupied →
      (s.task t).state.isOccupied ∨ (s'.task t).gen = s.nextGen) : Numbered s' where
  below := by
    intro t
    have hlt := hn.below t
    rcases hcall t with h | h | ⟨h, -, hnext⟩ <;> omega
  distinct := by
    intro t u heq hne
    have ht := hn.below t
    have hu := hn.below u
    rcases hcall t with h | h | ⟨h, rfl, -⟩
    · rcases hcall u with h' | h' | ⟨h', rfl, -⟩
      · exact hn.distinct t u (by omega) (by omega)
      · omega
      · omega
    · omega
    · rcases hcall u with h' | h' | ⟨h', rfl, -⟩
      · omega
      · omega
      · rfl
  blocked := hin
  gens := by
    intro t
    have hlt := hn.gens t
    rcases hgen t with h | ⟨h, hnext⟩ <;> omega
  live := by
    intro t ht
    have hlt := hn.gens t
    rcases hgen t with h | ⟨h, hnext⟩
    · rcases hocc t ht with ho | ho
      · rw [h]
        exact hn.live t ho
      · omega
    · omega

theorem Numbered.act (hs : Steady s) (hn : Numbered s) (h : a.Ok o p c s) : Numbered (a.run c s) := by
  refine hn.of_slots a.counters_le.1 a.counters_le.2 (fun t => (a.effect h t).call) ?_
    (fun t => (a.effect h t).gen) (fun t => (a.effect h t).occupied)
  intro t f hf
  obtain ⟨hin, hcall⟩ := (a.effect h t).inCall hs hf
  rw [hcall]
  exact hn.blocked t f hin

theorem Numbered.acts (hs : Steady s) (hn : Numbered s) (h : Acts o p c s s') : Steady s' ∧ Numbered s' := by
  refine h.invariant (P := fun u => Steady u ∧ Numbered u) ⟨hs, hn⟩ ?_
  intro u a ⟨hu, hun⟩ ha
  exact ⟨hu.act ha, hun.act hu ha⟩

def Alike (u v : Task) : Prop := v.state = u.state ∧ v.call = u.call ∧ v.gen = u.gen

theorem Alike.refl (u : Task) : Alike u u := ⟨rfl, rfl, rfl⟩

theorem Ending.slot {u : Task} (h : Ending c p s s' t u) :
    Alike (s.task t) u ∨ u.call = (s.task t).call ∧ u.gen = (s.task t).gen ∧
      (t = p ∧ s.current c = p ∧ (∀ f, u.state.inCallTo f → (s.task t).call ≠ 0) ∨
        u.state = .runnable ∧ ∃ deadline, (s.task t).state = .blocked (.netInput deadline)) := by
  cases h with
  | same | result => exact .inl (.refl _)
  | block ht hp hidle hcall =>
    refine .inr ⟨rfl, rfl, .inl ⟨ht, hp, ?_⟩⟩
    intro f hf
    obtain ⟨buf, len, hst⟩ := inCallTo_eq_true.1 hf
    cases hst
    exact (hcall buf len f rfl).1
  | netWake hwait => exact .inr ⟨rfl, rfl, .inr ⟨rfl, _, hwait⟩⟩

theorem Numbered.finish (hs : Steady s) (hn : Numbered s) (h : Finish c p s s') : Numbered s' := by
  have hcalls : s'.nextCall = s.nextCall := by cases h <;> rfl
  have hgens : s'.nextGen = s.nextGen := by cases h <;> rfl
  refine hn.of_slots (q := p) (le_of_eq hcalls.symm) (le_of_eq hgens.symm) ?_ ?_ ?_ ?_
  · intro t
    rcases (h.ending t).slot with ⟨-, hcall, -⟩ | ⟨hcall, -⟩ <;> exact .inl hcall
  · intro t f hf
    rcases (h.ending t).slot with ⟨hst, hcall, -⟩ | ⟨hcall, -, ⟨-, -, hne⟩ | ⟨hst, -⟩⟩
    · rw [hst] at hf
      rw [hcall]
      exact hn.blocked t f hf
    · rw [hcall]
      exact hne f hf
    · rw [hst] at hf
      cases hf
  · intro t
    rcases (h.ending t).slot with ⟨-, -, hgen⟩ | ⟨-, hgen, -⟩ <;> exact .inl hgen
  · intro t ht
    refine .inl ?_
    rcases (h.ending t).slot with ⟨hst, -⟩ | ⟨-, -, ⟨rfl, hp, -⟩ | ⟨-, deadline, hwait⟩⟩
    · rw [← hst]
      exact ht
    · have hr := hs.current c
      rw [hp] at hr
      rw [hr]
      rfl
    · rw [hwait]
      rfl

/-- **The calls told apart leave a slot alike, release the caller a reply names, or fill an unused
slot.** -/
theorem Special.slot (h : Special s p k u) (t : Slot) : Alike (s.task t) (u.task t) ∨
    (∃ handle ptr len x0, k = .msgReply handle ptr len ∧ replyTarget s.task p handle = some t ∧
      u.task t = (s.task t).release x0) ∨
    ((s.task t).state = .unused ∧ (u.task t).state = .runnable ∧ (u.task t).call = (s.task t).call ∧
      (u.task t).gen = s.nextGen ∧ u.nextGen = s.nextGen + 1) := by
  cases h with
  | quiet m => exact .inl (.refl _)
  | @reply handle ptr len i x0 m ht =>
    rw [setMisc_task, modify_task]
    split
    · rename_i h
      subst h
      exact .inr (.inl ⟨handle, ptr, len, x0, rfl, ht, rfl⟩)
    · exact .inl (.refl _)
  | setId | delegate =>
    rw [setMisc_task]
    exact .inl (modify_at (.refl _) fun _ => ⟨rfl, rfl, rfl⟩)
  | @spawn _ _ _ _ slot size out m program hslot =>
    simp only [spawned, spawnedTable]
    split
    · rename_i h
      subst h
      exact .inr (.inr ⟨(freeSlot_eq_some hslot).2, rfl, rfl, rfl, trivial⟩)
    · exact .inl ⟨rfl, rfl, rfl⟩

theorem Special.nextGen_le (h : Special s p k u) : s.nextGen ≤ u.nextGen := by
  cases h with
  | spawn => exact le_succ _
  | _ => exact le_rfl

theorem Numbered.special (hn : Numbered s) (h : Special s p k u) : Numbered u := by
  refine hn.of_slots (q := p) (le_of_eq h.nextCall.symm) h.nextGen_le ?_ ?_ ?_ ?_
  · intro t
    rcases h.slot t with ⟨-, hcall, -⟩ | ⟨_, _, _, _, -, -, hu⟩ | ⟨-, -, hcall, -⟩
    · exact .inl hcall
    · rw [hu]
      exact .inr (.inl rfl)
    · exact .inl hcall
  · intro t f hf
    rcases h.slot t with ⟨hst, hcall, -⟩ | ⟨_, _, _, _, -, -, hu⟩ | ⟨-, hst, -⟩
    · rw [hst] at hf
      rw [hcall]
      exact hn.blocked t f hf
    · rw [hu] at hf
      cases hf
    · rw [hst] at hf
      cases hf
  · intro t
    rcases h.slot t with ⟨-, -, hgen⟩ | ⟨_, _, _, _, -, -, hu⟩ | ⟨-, -, -, hgen, hnext⟩
    · exact .inl hgen
    · rw [hu]
      exact .inl rfl
    · exact .inr ⟨hgen, hnext⟩
  · intro t ht
    rcases h.slot t with ⟨hst, -⟩ | ⟨_, _, _, _, -, htarget, -⟩ | ⟨-, -, -, hgen, -⟩
    · rw [hst] at ht
      exact .inl ht
    · obtain ⟨buf, len, hst⟩ := inCallTo_eq_true.1 (replyTarget_eq_some.1 htarget).1
      rw [hst]
      exact .inl rfl
    · exact .inr hgen

theorem result_alike (s : State M) (q : Slot) (r : Nat) (t : Slot) :
    Alike (s.task t) ((s.modify q fun u => { u with x0 := r }).task t) := by
  rw [modify_task]
  split
  · rename_i h
    subst h
    exact ⟨rfl, rfl, rfl⟩
  · exact .refl _

theorem Numbered.result (hn : Numbered s) (q : Slot) (r : Nat) :
    Numbered (s.modify q fun u => { u with x0 := r }) := by
  refine hn.of_slots (q := q) le_rfl le_rfl ?_ ?_ ?_ ?_
  · exact fun t => .inl (result_alike s q r t).2.1
  · intro t f hf
    rw [(result_alike s q r t).1] at hf
    rw [(result_alike s q r t).2.1]
    exact hn.blocked t f hf
  · exact fun t => .inl (result_alike s q r t).2.2
  · intro t ht
    rw [(result_alike s q r t).1] at ht
    exact .inl ht

theorem Numbered.step (hs : Steady s) (hn : Numbered s) (h : step s e = some s') : Numbered s' := by
  rcases step_cases hs h with ⟨u, hacts, hfin⟩ | ⟨c, d, k, r, u, -, hu, rfl⟩
  · obtain ⟨hu, hun⟩ := hn.acts hs hacts
    exact hun.finish hu hfin
  · exact (hn.special hu).result _ r

theorem step_nextGen_le (hs : Steady s) (h : step s e = some s') : s.nextGen ≤ s'.nextGen := by
  rcases step_cases hs h with ⟨u, hacts, hfin⟩ | ⟨c, d, k, r, u, -, hu, rfl⟩
  · have hle : s.nextGen ≤ u.nextGen := hacts.invariant (P := fun u => s.nextGen ≤ u.nextGen) le_rfl
        fun v a hv _ => le_trans hv a.counters_le.2
    cases hfin <;> exact hle
  · exact hu.nextGen_le

theorem BootLoad.gen_pos (b : BootLoad) (h : (b.region t).isSome) : b.gen t ≠ 0 := by
  have hmem : t ∈ (finRange 11).filter fun u => decide (u ≤ t) && (b.region u).isSome := by
    simp [h]
  exact ne_of_gt (length_pos_of_mem hmem)

theorem BootLoad.gen_le (b : BootLoad) (t : Slot) :
    b.gen t ≤ ((finRange 11).filter fun u => (b.region u).isSome).length := by
  refine (monotone_filter_right _ ?_).length_le
  intro u hu
  simp only [Bool.and_eq_true] at hu
  exact hu.2

theorem booted_numbered (h : Booted s) : Numbered s := by
  obtain ⟨b, top, q, d, rfl⟩ := h
  have hcall : ∀ t, ((bootState M b top q d).task t).call = 0 := by
    intro t
    simp only [bootState]
    split <;> rfl
  refine ⟨?_, ?_, ?_, ?_, ?_⟩
  · intro t
    rw [hcall]
    exact Nat.one_pos
  · intro t _ _ hne
    exact absurd (hcall t) hne
  · intro t f hf
    simp only [bootState] at hf
    split at hf <;> cases hf
  · intro t
    have hle := b.gen_le t
    simp only [bootState]
    split
    · exact succ_pos _
    · simp only [bootTask]
      omega
  · intro t ht
    simp only [bootState] at ht ⊢
    split
    · rename_i hnone
      rw [hnone] at ht
      cases ht
    · rename_i r hr
      exact b.gen_pos (by rw [hr]; rfl)

theorem reached_numbered (h : Reached s) : Steady s ∧ Numbered s :=
  h.invariant (P := fun s => Steady s ∧ Numbered s) (fun _ h => ⟨booted_steady h, booted_numbered h⟩)
    fun _ _ _ hs hstep => ⟨hs.1.step hstep, hs.2.step hs.1 hstep⟩

/-! ## The fate of a call -/

/-- the occupant `t` had in `s` has ended: the slot is empty, or its occupant was started since. -/
def Gone (s s' : State M) (t : Slot) : Prop := (s'.task t).state.isOccupied = false ∨ s.nextGen ≤ (s'.task t).gen

theorem Gone.act (h : Gone s u t) (hle : s.nextGen ≤ u.nextGen) (ha : a.Ok o p c u) : Gone s (a.run c u) t := by
  rcases h with hocc | hlt
  · cases hst : ((a.run c u).task t).state.isOccupied with
    | false => exact .inl hst
    | true =>
      rcases (a.effect ha t).occupied hst with hold | hnew
      · rw [hocc] at hold
        cases hold
      · exact .inr (by omega)
  · rcases (a.effect ha t).gen with hold | ⟨hnew, -⟩
    · exact .inr (by omega)
    · exact .inr (by omega)

/-- released from its call with the answer `v`. -/
structure Released (v : Nat) (u w : Task) : Prop where
  state : w.state = .runnable
  call : w.call = 0
  answer : w.x0 = v
  gen : w.gen = u.gen

/-- what has become of a task that was blocked in a call to `f`. -/
inductive Fate (o : Origin) (s s' : State M) (t f : Slot) : Prop where
  | waits (h : Alike (s.task t) (s'.task t))
  | gone (h : Gone s s' t)
  | orphaned (h : Released taskErrNoSuchTask (s.task t) (s'.task t)) (hf : Gone s s' f)
  | interrupted (h : Released recvInterrupted (s.task t) (s'.task t))
      (htick : o = .tick) (hfirst : t = Slot.first)

theorem Released.effect {w' : Task} (h : Released v w (u.task t))
    (htp : t ≠ p) (he : Effect o p c u s' t w') : Released v w w' ∨ w'.state.isOccupied = false := by
  have hr := h.state
  cases he with
  | same => exact .inl h
  | beginCall hp | endCall hp => exact absurd hp htp
  | enqueue => exact .inl ⟨enqueue_runnable _ hr, h.call, h.answer, h.gen⟩
  | recv => exact .inl ⟨hr, h.call, h.answer, h.gen⟩
  | deliver _ hwait | wake hwait | interrupt _ _ hwait =>
    rw [hr] at hwait
    cases hwait
  | reap hz =>
    rw [hr] at hz
    cases hz
  | orphan hcall =>
    rw [hr] at hcall
    cases hcall
  | killed => exact .inr rfl
  | retired _ _ _ hfinal =>
    rcases hfinal with rfl | ⟨status, rfl⟩ <;> exact .inr rfl
  | installed hunused =>
    rw [hr] at hunused
    cases hunused

theorem Alike.effect (h : Alike (s.task t) (u.task t)) (hcall : (s.task t).state.inCallTo f) (htp : t ≠ p)
    (he : Effect o p c u s' t (s'.task t)) : Fate o s s' t f := by
  obtain ⟨buf, len, hst⟩ := inCallTo_eq_true.1 hcall
  have hu : (u.task t).state = .blocked (.message buf len (some f)) := h.1.trans hst
  generalize hw : s'.task t = w at he
  cases he with
  | same => exact .waits (by rwa [hw])
  | beginCall hp | endCall hp => exact absurd hp htp
  | deliver _ hwait =>
    rw [hu] at hwait
    cases hwait
  | enqueue =>
    refine .waits ?_
    rw [hw]
    exact ⟨by simp only [Task.enqueue, hu, hst], h.2.1, h.2.2⟩
  | recv =>
    refine .waits ?_
    rw [hw]
    exact h
  | wake hwait hne =>
    rw [hu] at hwait
    cases hwait
    exact absurd rfl (hne buf len f)
  | interrupt htick hfirst =>
    refine .interrupted ?_ htick hfirst
    rw [hw]
    exact ⟨rfl, rfl, rfl, h.2.2⟩
  | reap hz =>
    rw [hu] at hz
    cases hz
  | @orphan f' hin hft hended =>
    obtain ⟨buf', len', hst'⟩ := inCallTo_eq_true.1 hin
    rw [hu] at hst'
    cases hst'
    refine .orphaned ?_ (.inl ?_)
    · rw [hw]
      exact ⟨rfl, rfl, rfl, h.2.2⟩
    · rcases hended with hended | ⟨status, hended⟩ <;> rw [hended] <;> rfl
  | killed => exact .gone (.inl (by rw [hw]; rfl))
  | retired _ _ _ hfinal =>
    refine .gone (.inl ?_)
    rw [hw]
    rcases hfinal with rfl | ⟨status, rfl⟩ <;> rfl
  | installed hunused =>
    rw [hu] at hunused
    cases hunused

theorem Fate.act (h : Fate o s u t f) (hle : s.nextGen ≤ u.nextGen) (hcall : (s.task t).state.inCallTo f)
    (htp : t ≠ p) (ha : a.Ok o p c u) : Fate o s (a.run c u) t f := by
  have he := a.effect ha t
  cases h with
  | waits h => exact h.effect hcall htp he
  | gone h => exact .gone (h.act hle ha)
  | orphaned h hf =>
    rcases h.effect htp he with h | h
    · exact .orphaned h (hf.act hle ha)
    · exact .gone (.inl h)
  | interrupted h htick hfirst =>
    rcases h.effect htp he with h | h
    · exact .interrupted h htick hfirst
    · exact .gone (.inl h)

theorem Fate.acts (hcall : (s.task t).state.inCallTo f) (htp : t ≠ p) (h : Acts o p c s s') :
    Fate o s s' t f := by
  refine (h.invariant (P := fun u => Fate o s u t f ∧ s.nextGen ≤ u.nextGen) ⟨.waits (.refl _), le_rfl⟩ ?_).1
  intro u a ⟨hfate, hle⟩ ha
  exact ⟨hfate.act hle hcall htp ha, le_trans hle a.counters_le.2⟩

theorem Gone.finish (h : Gone s u t) (hu : Steady u) (hf : Finish c p u s') : Gone s s' t := by
  unfold Gone at h ⊢
  rcases (hf.ending t).slot with ⟨hst, -, hgen⟩ | ⟨-, hgen, hold⟩
  · rwa [hst, hgen]
  -- the slot was occupied before, so it is gone by its generation
  refine .inr ?_
  rw [hgen]
  rcases h with hocc | hlt
  · exfalso
    rcases hold with ⟨rfl, hp, -⟩ | ⟨-, deadline, hwait⟩
    · have hr := hu.current c
      rw [hp] at hr
      rw [hr] at hocc
      cases hocc
    · rw [hwait] at hocc
      cases hocc
  · exact hlt

theorem Released.finish (h : Released v w (u.task t)) (htp : t ≠ p) (hf : Finish c p u s') :
    Released v w (s'.task t) := by
  have he := hf.ending t
  generalize s'.task t = w' at he
  cases he with
  | same => exact h
  | result ht | block ht => exact absurd ht htp
  | netWake hwait =>
    rw [h.state] at hwait
    cases hwait

theorem Fate.finish (h : Fate o s u t f) (hu : Steady u)
    (hcall : (s.task t).state.inCallTo f) (htp : t ≠ p) (hf : Finish c p u s') : Fate o s s' t f := by
  cases h with
  | waits h =>
    obtain ⟨buf, len, hst⟩ := inCallTo_eq_true.1 hcall
    rcases (hf.ending t).slot with hsame | ⟨-, -, ⟨ht, -⟩ | ⟨-, deadline, hwait⟩⟩
    · exact .waits ⟨hsame.1.trans h.1, hsame.2.1.trans h.2.1, hsame.2.2.trans h.2.2⟩
    · exact absurd ht htp
    · rw [h.1, hst] at hwait
      cases hwait
  | gone h => exact .gone (h.finish hu hf)
  | orphaned h hgone => exact .orphaned (h.finish htp hf) (hgone.finish hu hf)
  | interrupted h htick hfirst => exact .interrupted (h.finish htp hf) htick hfirst

/-- the entry is a reply by the task of slot `f` that names the call `t` is in. -/
def Entry.Answers (e : Entry M) (s : State M) (t f : Slot) : Prop :=
  ∃ c d ptr len, e = .syscall c d (.msgReply (pack (s.task t).call t) ptr len) ∧ s.current c = f

/-- **What an entry does to a task blocked in a call.** -/
theorem step_fate (hs : Steady s) (hcall : (s.task t).state.inCallTo f) (h : step s e = some s') :
    Fate e.origin s s' t f ∨ e.Answers s t f ∧ ∃ v, Released v (s.task t) (s'.task t) := by
  obtain ⟨buf, len, hst⟩ := inCallTo_eq_true.1 hcall
  have hcur : ∀ c, t ≠ s.current c := by
    rintro c rfl
    rw [hs.current c] at hst
    cases hst
  rcases step_cases hs h with ⟨u, hacts, hfin⟩ | ⟨c, d, k, r, u, rfl, hu, rfl⟩
  · exact .inl ((Fate.acts hcall (hcur _) hacts).finish (hs.acts hacts) hcall (hcur _) hfin)
  rw [modify_other _ _ _ _ (hcur c)]
  rcases hu.slot t with hsame | ⟨handle, ptr, len', x0, rfl, htarget, hut⟩ | ⟨hunused, -⟩
  · refine .inl (.waits ?_)
    rwa [modify_other _ _ _ _ (hcur c)]
  · obtain ⟨hin, -, rfl⟩ := replyTarget_eq_some.1 htarget
    obtain ⟨buf', len', hst'⟩ := inCallTo_eq_true.1 hin
    rw [hst] at hst'
    cases hst'
    refine .inr ⟨⟨c, d, ptr, _, rfl, rfl⟩, x0, ?_⟩
    rw [hut]
    exact ⟨rfl, rfl, rfl, rfl⟩
  · rw [hst] at hunused
    cases hunused

/-! ## Stale numbers -/

/-- the current task of `c` is ended at its next entry instead of being served. -/
def isDoomed (s : State M) (c : Fin M.cores) : Bool :=
  let cur := s.current c
  (s.misc.aux cur).doomed != 0 && cur != Slot.idle && taskIdOf s.task cur == some (s.misc.aux cur).doomed

theorem endIfDoomed_unmarked (h : isDoomed s c = false) : ∃ m, endIfDoomed s c = some (false, s.setMisc m) := by
  unfold endIfDoomed
  simp only
  split
  · exact ⟨s.misc, rfl⟩
  rename_i hmark
  split
  · exact ⟨_, rfl⟩
  rename_i hcur
  refine absurd h ?_
  simp only [not_or, not_not] at hcur
  simp [isDoomed, hmark, hcur.1, hcur.2]

/-- **A reply that names no call pending at the replier changes nothing but the replier's result.** -/
theorem reply_stale {d : Dev} {handle ptr len : Nat} (hdoomed : isDoomed s c = false)
    (hstale : ∀ t, (s.task t).state.inCallTo (s.current c) → handle ≠ pack (s.task t).call t)
    (h : step s (.syscall c d (.msgReply handle ptr len)) = some s') :
    ∃ r, s'.task = (s.modify (s.current c) fun u => { u with x0 := r }).task := by
  simp only [step] at h
  split at h
  · cases h
  unfold trapEntry at h
  have hload : isDoomed (s.load d) c = false := hdoomed
  obtain ⟨m, hm⟩ := endIfDoomed_unmarked hload
  rw [hm] at h
  have hcases := msgReply_cases ((s.load d).setMisc m) (s.current c) handle ptr len
  have hx : (Outcome.ofPair (msgReply ((s.load d).setMisc m) (s.current c) handle ptr len)).finish c =
    some s' := h
  generalize msgReply ((s.load d).setMisc m) (s.current c) handle ptr len = x at hcases hx
  rcases hcases with ⟨m', hm'⟩ | ⟨t, x0, m', htarget, -⟩
  · cases hx
    refine ⟨x.1, ?_⟩
    rw [hm']
    rfl
  · obtain ⟨hin, -, hhandle⟩ := replyTarget_eq_some.1 htarget
    exact absurd hhandle (hstale t hin)

/-- a number issued before the entry is held after it only by a slot that held it before. -/
def KeepsNumbers (s s' : State M) : Prop := s.nextCall ≤ s'.nextCall ∧
    ∀ n t, n ≠ 0 → n < s.nextCall → (s'.task t).call = n → (s.task t).call = n

theorem KeepsNumbers.refl (s : State M) : KeepsNumbers s s := ⟨le_rfl, fun _ _ _ _ h => h⟩

theorem KeepsNumbers.trans (h : KeepsNumbers s u) (h' : KeepsNumbers u s') : KeepsNumbers s s' := by
  refine ⟨le_trans h.1 h'.1, ?_⟩
  intro n t hn hlt ht
  exact h.2 n t hn hlt (h'.2 n t hn (lt_of_lt_of_le hlt h.1) ht)

theorem Act.keepsNumbers (ha : a.Ok o p c s) : KeepsNumbers s (a.run c s) := by
  refine ⟨a.counters_le.1, ?_⟩
  intro n t hn hlt ht
  rcases (a.effect ha t).call with h | h | ⟨h, -⟩ <;> omega

theorem step_keepsNumbers (hs : Steady s) (h : step s e = some s') : KeepsNumbers s s' := by
  rcases step_cases hs h with ⟨u, hacts, hfin⟩ | ⟨c, d, k, r, u, -, hu, rfl⟩
  · have hchain : KeepsNumbers s u := hacts.invariant (.refl s) fun v a hv ha => hv.trans (a.keepsNumbers ha)
    refine hchain.trans ⟨?_, ?_⟩
    · cases hfin <;> exact le_rfl
    · intro n t _ _ ht
      rcases (hfin.ending t).slot with ⟨-, hcall, -⟩ | ⟨hcall, -⟩ <;> rwa [← hcall]
  · refine ⟨le_of_eq hu.nextCall.symm, ?_⟩
    intro n t hn _ ht
    rw [(result_alike u _ r t).2.1] at ht
    rcases hu.slot t with ⟨-, hcall, -⟩ | ⟨_, _, _, _, -, -, hut⟩ | ⟨-, -, hcall, -⟩
    · rwa [← hcall]
    · rw [hut] at ht
      exact absurd ht.symm hn
    · rwa [← hcall]

theorem trace_keepsNumbers {h : List (State M × Entry M × State M)} (hs : Steady s)
    (t : Trace Step s h s') : KeepsNumbers s s' := by
  refine (t.invariant (P := fun u => Steady u ∧ KeepsNumbers s u) ⟨hs, .refl s⟩ ?_).2
  intro u e v ⟨hu, hkeep⟩ hstep
  exact ⟨hu.step hstep, hkeep.trans (step_keepsNumbers hu hstep)⟩

/-- **A call is answered once, and only by its own answer.**  A task blocked in a call alone holds its number,
and is released only by a reply of the called slot's occupant that names it, by the end of that occupant, or
by Ctrl+C. Any other reply changes only the replier's result, and a number that was lost is never held again. -/
theorem call_answered_once (h : Reached s) : (∀ t f, (s.task t).state.inCallTo f = true →
      (s.task t).call ≠ 0 ∧ (∀ u, (s.task u).call = (s.task t).call → u = t) ∧
      ∀ e s', step s e = some s' → Alike (s.task t) (s'.task t) ∨ Gone s s' t ∨
          ∃ v, Released v (s.task t) (s'.task t) ∧
          (e.Answers s t f ∨ v = taskErrNoSuchTask ∧ Gone s s' f ∨
            v = recvInterrupted ∧ t = Slot.first ∧ e.origin = .tick)) ∧
    (∀ c d handle ptr len s', isDoomed s c = false →
      (∀ t, (s.task t).state.inCallTo (s.current c) = true → handle ≠ pack (s.task t).call t) →
      step s (.syscall c d (.msgReply handle ptr len)) = some s' →
      ∃ r, s'.task = (s.modify (s.current c) fun u => { u with x0 := r }).task) ∧
    (∀ t n e s', (s.task t).call = n → n ≠ 0 → step s e = some s' → (s'.task t).call ≠ n →
      ∀ k s'', Trace Step s' k s'' → ∀ u, (s''.task u).call ≠ n) := by
  obtain ⟨hs, hn⟩ := reached_numbered h
  refine ⟨?_, ?_, ?_⟩
  · intro t f hcall
    refine ⟨hn.blocked t f hcall, ?_, ?_⟩
    · intro u hu
      exact (hn.distinct t u hu.symm (hn.blocked t f hcall)).symm
    intro e s' hstep
    rcases step_fate hs hcall hstep with hfate | ⟨hans, v, hv⟩
    · cases hfate with
      | waits h => exact .inl h
      | gone h => exact .inr (.inl h)
      | orphaned h hf => exact .inr (.inr ⟨_, h, .inr (.inl ⟨rfl, hf⟩)⟩)
      | interrupted h htick hfirst => exact .inr (.inr ⟨_, h, .inr (.inr ⟨rfl, hfirst, htick⟩)⟩)
    · exact .inr (.inr ⟨v, hv, .inl hans⟩)
  · intro c d handle ptr len s' hdoomed hstale hstep
    exact reply_stale hdoomed hstale hstep
  · intro t n e s' ht hne hstep hlost k s'' trace u hu
    have hlt : n < s.nextCall := ht ▸ hn.below t
    obtain ⟨hle, hkeep⟩ := step_keepsNumbers hs hstep
    -- the holder after the run held it right after the entry, and before it, so it was `t`
    have hu' := (trace_keepsNumbers (hs.step hstep) trace).2 n u hne (lt_of_lt_of_le hlt hle) hu
    have hus := hkeep n u hne hlt hu'
    have hut : t = u := hn.distinct t u (ht.trans hus.symm) (ht ▸ hne)
    exact hlost (hut ▸ hu')

def serverLoad : BootLoad where
  region := fun t => if t = Slot.first then some (0x400000, 0x100000)
    else if t = Slot.idle then some (0x200000, 0x1000)
    else if t = Slot.fsd then some (0x600000, 0x100000) else none
  shell := rfl
  idle := rfl
  spawnable := by decide

def serverBoot : State twoCores := bootState twoCores serverLoad 0x1000000 [] noDev

def shellCalls : Entry twoCores := asksFirst (.msgCall 2 0x400000 8 0x400000)

def shellCalling : State twoCores := (step serverBoot shellCalls).getD serverBoot

theorem shellCalls_step : Step serverBoot shellCalls shellCalling := step_getD rfl

theorem shellCalling_reached : Reached shellCalling := by
  have hboot : Reached serverBoot := .init ⟨_, _, _, _, rfl⟩
  exact hboot.tail shellCalls_step

/-- the shell waits in call 1 to the file server, and the whole of the above holds of it. -/
theorem call_answered_once_shell : (shellCalling.task Slot.first).state.inCallTo Slot.fsd = true ∧
    (shellCalling.task Slot.first).call = 1 ∧
    ∀ e s', step shellCalling e = some s' →
      Alike (shellCalling.task Slot.first) (s'.task Slot.first) ∨ Gone shellCalling s' Slot.first ∨
      ∃ v, Released v (shellCalling.task Slot.first) (s'.task Slot.first) ∧
        (e.Answers shellCalling Slot.first Slot.fsd ∨ v = taskErrNoSuchTask ∧ Gone shellCalling s' Slot.fsd ∨
          v = recvInterrupted ∧ Slot.first = Slot.first ∧ e.origin = .tick) :=
  ⟨rfl, rfl, ((call_answered_once shellCalling_reached).1 Slot.first Slot.fsd rfl).2.2⟩

end Calls

end Ouroboros.Kernel
