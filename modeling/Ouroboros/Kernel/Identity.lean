import Ouroboros.Kernel.Calls

/-!
# Identities are confined

* `Kept`  what a step leaves of the identity in a slot: all of it, or nothing where the occupant has changed;
* `step_ident`  only `SPAWN`, which gives the spawner's to a new task, and `SET_ID` change an identity;
* `identity_confined`  what a task without uid 0 spawns stays with the ids it inherited.
-/

namespace Ouroboros.Kernel

open Transition List State

section Identity
variable {M : Machine} {o : Origin} {p : Slot} {c : Fin M.cores} {s s' : State M}
variable {u v : Task} {t : Slot} {e : Entry M} {k : List (State M × Entry M × State M)}
    {I : Ident} {G : List UInt32}
variable {a : Slot × Nat}

/-! ## One entry -/

/-- the same identity, saved identity and groups, of the same occupant. -/
structure SameIdent (u v : Task) : Prop where
  id : v.id = u.id
  saved : v.saved = u.saved
  groups : v.groups = u.groups
  gen : v.gen = u.gen
  occupied : v.state.isOccupied = u.state.isOccupied

def Blank (u : Task) : Prop := u.id = .root ∧ u.saved = .root ∧ u.groups = []

def Blanked (s : State M) : Prop := ∀ t, (s.task t).state.isOccupied = false → Blank (s.task t)

theorem SameIdent.refl (u : Task) : SameIdent u u := ⟨rfl, rfl, rfl, rfl, rfl⟩

theorem SameIdent.trans {w : Task} (h : SameIdent u v) (h' : SameIdent v w) : SameIdent u w :=
  ⟨h'.id.trans h.id, h'.saved.trans h.saved, h'.groups.trans h.groups, h'.gen.trans h.gen,
    h'.occupied.trans h.occupied⟩

theorem SameIdent.blank (h : SameIdent u v) (hu : Blank u) : Blank v :=
  ⟨h.id.trans hu.1, h.saved.trans hu.2.1, h.groups.trans hu.2.2⟩

/-- the identity in slot `t` is that of before, or blank: for an occupant that has ended, or for a server
started since. -/
def Kept (s s' : State M) (t : Slot) : Prop := SameIdent (s.task t) (s'.task t) ∨
    Blank (s'.task t) ∧ Gone s s' t ∧ (t.isSpawnable = true → (s'.task t).state.isOccupied = false)

theorem Effect.ident (hb : Blanked s) (h : Effect o p c s s' t u) : SameIdent (s.task t) u ∨
      Blank u ∧ (t.isSpawnable → u.state.isOccupied = false) ∧
        (u.state.isOccupied = false ∨ u.gen = s.nextGen) := by
  cases h with
  | same => exact .inl (.refl _)
  | beginCall | endCall | recv => exact .inl ⟨rfl, rfl, rfl, rfl, rfl⟩
  | deliver _ hwait | wake hwait | interrupt _ _ hwait => exact .inl ⟨rfl, rfl, rfl, rfl, by rw [hwait]; rfl⟩
  | enqueue _ hocc =>
    refine .inl ⟨rfl, rfl, rfl, rfl, ?_⟩
    rw [hocc]
    unfold Task.enqueue
    simp only
    split
    · rfl
    · exact hocc
  | reap hz => exact .inl ⟨rfl, rfl, rfl, rfl, by rw [hz]; rfl⟩
  | orphan hcall =>
    obtain ⟨buf, len, hst⟩ := inCallTo_eq_true.1 hcall
    exact .inl ⟨rfl, rfl, rfl, rfl, by rw [hst]; rfl⟩
  | killed => exact .inr ⟨⟨rfl, rfl, rfl⟩, fun _ => rfl, .inl rfl⟩
  | @retired final _ _ _ hfinal =>
    have hfree : final.isOccupied = false := by
      rcases hfinal with rfl | ⟨status, rfl⟩ <;> rfl
    exact .inr ⟨⟨rfl, rfl, rfl⟩, fun _ => hfree, .inl hfree⟩
  | installed hunused hserver =>
    refine .inr ⟨hb t (by rw [hunused]; rfl), ?_, .inr rfl⟩
    intro hspawn
    rw [isSupervised_spawnable hserver] at hspawn
    cases hspawn

theorem Kept.refl (s : State M) (t : Slot) : Kept s s t := .inl (.refl _)

theorem Kept.act {u : State M} (h : Kept s u t) (hb : Blanked u)
    (hle : s.nextGen ≤ u.nextGen) {a : Act M} (ha : a.Ok o p c u) : Kept s (a.run c u) t := by
  rcases (a.effect ha t).ident hb with hsame | ⟨hblank, hspawn, hgone⟩
  · rcases h with h | ⟨hblank, hgone, hspawn⟩
    · exact .inl (h.trans hsame)
    · refine .inr ⟨hsame.blank hblank, hgone.act hle ha, ?_⟩
      rw [hsame.occupied]
      exact hspawn
  · refine .inr ⟨hblank, ?_, hspawn⟩
    rcases hgone with hgone | hgone
    · exact .inl hgone
    · exact .inr (by omega)

theorem Blanked.of_kept (hb : Blanked s) (h : ∀ t, Kept s s' t) : Blanked s' := by
  intro t ht
  rcases h t with hsame | ⟨hblank, -⟩
  · rw [hsame.occupied] at ht
    exact hsame.blank (hb t ht)
  · exact hblank

theorem kept_acts (hb : Blanked s) (h : Acts o p c s s') : ∀ t, Kept s s' t := by
  refine (h.invariant (P := fun u => (∀ t, Kept s u t) ∧ s.nextGen ≤ u.nextGen) ⟨.refl s, le_rfl⟩ ?_).1
  intro u a ⟨hkept, hle⟩ ha
  refine ⟨?_, le_trans hle a.counters_le.2⟩
  intro t
  exact (hkept t).act (hb.of_kept hkept) hle ha

theorem Ending.ident (hs : Steady s) (h : Ending c p s s' t u) : SameIdent (s.task t) u := by
  cases h with
  | same => exact .refl _
  | result => exact ⟨rfl, rfl, rfl, rfl, rfl⟩
  | block ht hp =>
    have hr := hs.current c
    rw [hp, ← ht] at hr
    exact ⟨rfl, rfl, rfl, rfl, by rw [hr]; rfl⟩
  | netWake hwait => exact ⟨rfl, rfl, rfl, rfl, by rw [hwait]; rfl⟩

theorem Kept.finish {u : State M} (h : Kept s u t) (hu : Steady u) (hf : Finish c p u s') : Kept s s' t := by
  have hsame := (hf.ending t).ident hu
  rcases h with h | ⟨hblank, hgone, hspawn⟩
  · exact .inl (h.trans hsame)
  refine .inr ⟨hsame.blank hblank, hgone.finish hu hf, ?_⟩
  rw [hsame.occupied]
  exact hspawn

/-- the entry is a `SPAWN` by `p` that put a task into the unused slot `t`. -/
def Spawns (s : State M) (e : Entry M) (s' : State M) (p t : Slot) : Prop :=
  (∃ c d totalLen stdout argvLen cwdLen,
    e = .syscall c d (.spawn totalLen stdout argvLen cwdLen) ∧ s.current c = p) ∧
  t.isSpawnable = true ∧ (s.task t).state = .unused ∧ (s'.task t).state.isOccupied = true

structure Inherits (s s' : State M) (p t : Slot) : Prop where
  id : (s'.task t).id = (s.task p).id
  saved : (s'.task t).saved = (s.task p).id
  groups : (s'.task t).groups = (s.task p).groups
  gen : (s'.task t).gen = s.nextGen

/-- what `SET_ID` leaves of its caller: without uid 0 only the two ids change places. -/
structure SetsId (u v : Task) : Prop where
  gen : v.gen = u.gen
  occupied : v.state.isOccupied = u.state.isOccupied
  nonroot : u.id.uid ≠ 0 → v.id = u.saved ∧ v.saved = u.id ∧ v.groups = []

/-- **What an entry does to the identity in a slot.** -/
theorem step_ident (hs : Steady s) (hb : Blanked s) (h : step s e = some s') (t : Slot) :
    Kept s s' t ∨ (∃ p, Spawns s e s' p t ∧ Inherits s s' p t) ∨ t = s.current e.core ∧
      SetsId (s.task t) (s'.task t) := by
  rcases step_cases hs h with ⟨u, hacts, hfin⟩ | ⟨c, d, k, r, u, rfl, hu, rfl⟩
  · exact .inl ((kept_acts hb hacts t).finish (hs.acts hacts) hfin)
  -- the result register is no part of an identity
  have hres : SameIdent (u.task t) ((u.modify (s.current c) fun v => { v with x0 := r }).task t) :=
    modify_at (.refl _) fun _ => ⟨rfl, rfl, rfl, rfl, rfl⟩
  revert hres
  generalize (u.modify (s.current c) fun v => { v with x0 := r }) = w
  intro hres
  cases hu with
  | quiet m => exact .inl (.inl hres)
  | @reply handle ptr len i x0 m ht =>
    refine .inl (.inl (SameIdent.trans ?_ hres))
    rw [setMisc_task]
    refine modify_at (.refl _) fun hti => ?_
    obtain ⟨buf, len', hst⟩ := inCallTo_eq_true.1 (replyTarget_eq_some.1 ht).1
    exact ⟨rfl, rfl, rfl, rfl, by rw [hti, hst]; rfl⟩
  | @spawn totalLen stdout argvLen cwdLen slot size out m program hslot =>
    by_cases hti : t = slot
    · subst hti
      obtain ⟨hspawn, hunused⟩ := freeSlot_eq_some hslot
      simp only [spawned, spawnedTable, if_true] at hres
      refine .inr (.inl ⟨s.current c, ⟨⟨c, d, totalLen, stdout, argvLen, cwdLen, rfl, rfl⟩, hspawn, hunused, ?_⟩,
        ⟨hres.id, hres.saved, hres.groups, hres.gen⟩⟩)
      rw [hres.occupied]
      rfl
    · refine .inl (.inl (SameIdent.trans ?_ hres))
      simp only [spawned, spawnedTable, if_neg hti]
      exact ⟨rfl, rfl, rfl, rfl, rfl⟩
  | @setId uid gid ptr count new gids m hnew hlen =>
    by_cases hti : t = s.current c
    · subst hti
      rw [setMisc_task, modify_same] at hres
      refine .inr (.inr ⟨rfl, hres.gen, hres.occupied, ?_⟩)
      intro hroot
      obtain ⟨rfl, rfl⟩ := hnew hroot
      exact ⟨hres.id, hres.saved, hres.groups⟩
    · rw [setMisc_task, modify_other _ _ _ _ hti] at hres
      exact .inl (.inl hres)
  | delegate =>
    refine .inl (.inl (SameIdent.trans ?_ hres))
    rw [setMisc_task]
    exact modify_at (.refl _) fun _ => ⟨rfl, rfl, rfl, rfl, rfl⟩

theorem current_occupied (hs : Steady s) (c : Fin M.cores) : (s.task (s.current c)).state.isOccupied := by
  rw [hs.current c]
  rfl

theorem Blanked.step (hs : Steady s) (hb : Blanked s) (h : step s e = some s') : Blanked s' := by
  intro t ht
  rcases step_ident hs hb h t with (hsame | ⟨hblank, -⟩) | ⟨q, hspawn, -⟩ | ⟨rfl, hset⟩
  · rw [hsame.occupied] at ht
    exact hsame.blank (hb t ht)
  · exact hblank
  · rw [hspawn.2.2.2] at ht
    cases ht
  · rw [hset.occupied, current_occupied hs] at ht
    cases ht

theorem Spawns.inherits {q : Slot} (hs : Steady s) (hb : Blanked s)
    (h : step s e = some s') (hspawn : Spawns s e s' q t) : Inherits s s' q t := by
  obtain ⟨⟨c, d, _, _, _, _, rfl, rfl⟩, hslot, hunused, hocc⟩ := hspawn
  rcases step_ident hs hb h t with (hsame | ⟨-, -, hfree⟩) | ⟨q, hspawn, hinh⟩ | ⟨rfl, hset⟩
  · rw [hsame.occupied, hunused] at hocc
    cases hocc
  · rw [hfree hslot] at hocc
    cases hocc
  · obtain ⟨⟨c', d', _, _, _, _, he, rfl⟩, -⟩ := hspawn
    cases he
    exact hinh
  · rw [hset.occupied, hunused] at hocc
    cases hocc

theorem booted_blanked (h : Booted s) : Blanked s := by
  obtain ⟨b, top, q, d, rfl⟩ := h
  intro t ht
  simp only [bootState]
  split <;> exact ⟨rfl, rfl, rfl⟩

structure Orderly (s : State M) : Prop where
  steady : Steady s
  numbered : Numbered s
  blanked : Blanked s

theorem Orderly.step (h : Orderly s) (hstep : step s e = some s') : Orderly s' :=
  ⟨h.steady.step hstep, h.numbered.step h.steady hstep, h.blanked.step h.steady hstep⟩

/-! ## Runs -/

/-- the tasks, as slot and generation, that descend from the task `a` in the recorded steps `k`. -/
inductive Offspring (k : List (State M × Entry M × State M)) (a : Slot × Nat) : Slot → Nat → Prop where
  | self : Offspring k a a.1 a.2
  | child {v v' : State M} {e : Entry M} {p t : Slot} (hp : Offspring k a p (v.task p).gen)
      (hmem : (v, e, v') ∈ k) (hspawn : Spawns v e v' p t) : Offspring k a t (v'.task t).gen

/-- every recorded state has older generations than `s` will issue. -/
def Recorded (k : List (State M × Entry M × State M)) (s : State M) : Prop :=
  ∀ v e v', (v, e, v') ∈ k → ∀ i, (v.task i).gen < s.nextGen

theorem Offspring.snoc {x : Slot} {n : Nat} (h : Offspring (k ++ [(s, e, s')]) a x n)
    (hk : Recorded k s) (ho : Orderly s) (hstep : step s e = some s') : Offspring k a x n ∨
      ∃ q, Offspring k a q (s.task q).gen ∧ Spawns s e s' q x ∧ n = s.nextGen := by
  induction h with
  | self => exact .inl .self
  | @child v v' e' q t _ hmem hspawn ih =>
    rcases mem_append.1 hmem with hmem | hnew
    · rcases ih with ih | ⟨_, -, -, hgen⟩
      · exact .inl (ih.child hmem hspawn)
      · -- the parent would be younger than the state that records it
        have hlt := hk v e' v' hmem q
        omega
    · rw [mem_singleton] at hnew
      cases hnew
      rcases ih with ih | ⟨_, -, -, hgen⟩
      · exact .inr ⟨q, ih, hspawn, (hspawn.inherits ho.steady ho.blanked hstep).gen⟩
      · have hlt := ho.numbered.gens q
        omega

theorem Offspring.fresh {x : Slot} {n : Nat}
    (h : Offspring k a x n) (hk : Recorded k s) (ha : a.2 = s.nextGen) : x = a.1 ∧ n = a.2 := by
  induction h with
  | self => exact ⟨rfl, rfl⟩
  | @child v v' e' q t _ hmem _ ih =>
    have hlt := hk v e' v' hmem q
    omega

/-- the ids `I`, and the groups `G` or none. -/
structure Confined (I : Ident) (G : List UInt32) (u : Task) : Prop where
  id : u.id = I
  saved : u.saved = I
  groups : u.groups = G ∨ u.groups = []

/-- the line of `a` is confined. -/
def Line (k : List (State M × Entry M × State M)) (a : Slot × Nat) (s : State M) (I : Ident) (G : List UInt32) :
    Prop :=
  ∀ x n, Offspring k a x n → n < s.nextGen ∧
    ((s.task x).gen = n → (s.task x).state.isOccupied = true → Confined I G (s.task x))

theorem Line.start {q : Slot} (ho : Orderly s)
    (hk : Recorded k s) (hstep : step s e = some s') (hspawn : Spawns s e s' q t) :
    Line (k ++ [(s, e, s')]) (t, (s'.task t).gen) s' (s.task q).id (s.task q).groups := by
  have hinh := hspawn.inherits ho.steady ho.blanked hstep
  have hlt := (ho.step hstep).numbered.gens t
  intro x n hx
  rcases hx.snoc hk ho hstep with hx | ⟨r, hr, -⟩
  · obtain ⟨rfl, rfl⟩ := hx.fresh hk hinh.gen
    exact ⟨hlt, fun _ _ => ⟨hinh.id, hinh.saved, .inl hinh.groups⟩⟩
  -- a second task of the same entry would have to be spawned by the new one
  obtain ⟨-, hgen⟩ := hr.fresh hk hinh.gen
  have hrlt := ho.numbered.gens r
  have hnew := hinh.gen
  simp only at hgen
  omega

theorem SameIdent.confined (h : SameIdent u v) (hu : Confined I G u) : Confined I G v :=
  ⟨h.id.trans hu.id, h.saved.trans hu.saved, by rw [h.groups]; exact hu.groups⟩

theorem SetsId.confined (h : SetsId u v) (hu : Confined I G u) (hroot : I.uid ≠ 0) : Confined I G v := by
  obtain ⟨hid, hsaved, hgroups⟩ := h.nonroot (by rw [hu.id]; exact hroot)
  exact ⟨hid.trans hu.saved, hsaved.trans hu.id, .inr hgroups⟩

theorem Line.step (ho : Orderly s) (hk : Recorded k s) (hroot : I.uid ≠ 0) (hl : Line k a s I G)
    (hstep : step s e = some s') : Line (k ++ [(s, e, s')]) a s' I G := by
  intro x n hx
  rcases hx.snoc hk ho hstep with hx | ⟨q, hq, hspawn, rfl⟩
  · obtain ⟨hlt, hconf⟩ := hl x n hx
    refine ⟨lt_of_lt_of_le hlt (step_nextGen_le ho.steady hstep), ?_⟩
    intro hgen hocc
    rcases step_ident ho.steady ho.blanked hstep x with (hsame | ⟨-, hgone, -⟩) | ⟨q, -, hinh⟩ | ⟨rfl, hset⟩
    · refine hsame.confined (hconf (hsame.gen.symm.trans hgen) ?_)
      rw [← hsame.occupied]
      exact hocc
    · rcases hgone with hfree | hyoung
      · rw [hfree] at hocc
        cases hocc
      · omega
    · have hyoung := hinh.gen
      omega
    · refine hset.confined (hconf (hset.gen.symm.trans hgen) ?_) hroot
      rw [← hset.occupied]
      exact hocc
  · have hinh := hspawn.inherits ho.steady ho.blanked hstep
    refine ⟨hinh.gen ▸ (ho.step hstep).numbered.gens x, ?_⟩
    intro _ _
    obtain ⟨⟨c, d, _, _, _, _, -, hcur⟩, -⟩ := hspawn
    have hocc := current_occupied ho.steady c
    rw [hcur] at hocc
    have hq := (hl q _ hq).2 rfl hocc
    exact ⟨hinh.id.trans hq.id, hinh.saved.trans hq.id, by rw [hinh.groups]; exact hq.groups⟩

theorem trace_lines {s₀ : State M} (hb : Booted s₀) (h : Trace Step s₀ k s) : Orderly s ∧ Recorded k s ∧
    ∀ v e v' q t, (v, e, v') ∈ k → Spawns v e v' q t → (v.task q).id.uid ≠ 0 →
      Line k (t, (v'.task t).gen) s (v.task q).id (v.task q).groups := by
  induction h with
  | nil =>
    refine ⟨⟨booted_steady hb, booted_numbered hb, booted_blanked hb⟩, ?_, ?_⟩
    · rintro v e v' ⟨⟩
    · rintro v e v' q t ⟨⟩
  | @snoc k s e s' _ hstep ih =>
    obtain ⟨ho, hk, ih⟩ := ih
    have hstep' : step s e = some s' := hstep
    have hle := step_nextGen_le ho.steady hstep'
    refine ⟨ho.step hstep', ?_, ?_⟩
    · intro v a v' hmem i
      rcases mem_append.1 hmem with hmem | hnew
      · exact lt_of_lt_of_le (hk v a v' hmem i) hle
      rw [mem_singleton] at hnew
      cases hnew
      exact lt_of_lt_of_le (ho.numbered.gens i) hle
    · intro v a v' q t hmem hspawn hroot
      rcases mem_append.1 hmem with hmem | hnew
      · exact (ih v a v' q t hmem hspawn hroot).step ho hk hroot hstep'
      rw [mem_singleton] at hnew
      cases hnew
      exact .start ho hk hstep' hspawn

/-- **Identities are confined.**  A task spawned by a task without uid 0, and every descendant of it, has as
long as it lives the ids its spawner had, saved too, and the inherited groups or none.  An empty slot has no
identity left in it, and a new occupant that of its spawner, or of an empty slot if it is a restarted server. -/
theorem identity_confined {s₀ : State M} {k : List (State M × Entry M × State M)} (hb : Booted s₀)
    (h : Trace Step s₀ k s) :
    (∀ v e v' q t, (v, e, v') ∈ k → Spawns v e v' q t → (v.task q).id.uid ≠ 0 →
      ∀ x n, Offspring k (t, (v'.task t).gen) x n → (s.task x).gen = n → (s.task x).state.isOccupied = true →
        (s.task x).id = (v.task q).id ∧ (s.task x).saved = (v.task q).id ∧
          ((s.task x).groups = (v.task q).groups ∨ (s.task x).groups = [])) ∧
    (∀ t, (s.task t).state.isOccupied = false → Blank (s.task t)) ∧
    (∀ e s' t, step s e = some s' → (s'.task t).state.isOccupied = true →
      (s.task t).state.isOccupied = false ∨ (s'.task t).gen ≠ (s.task t).gen →
      (∃ q, Spawns s e s' q t ∧ Inherits s s' q t) ∨ Blank (s'.task t) ∧ t.isSpawnable = false) := by
  obtain ⟨ho, -, hlines⟩ := trace_lines hb h
  refine ⟨?_, ho.blanked, ?_⟩
  · intro v e v' q t hmem hspawn hroot x n hx hgen hocc
    have hconf := (hlines v e v' q t hmem hspawn hroot x n hx).2 hgen hocc
    exact ⟨hconf.id, hconf.saved, hconf.groups⟩
  intro e s' t hstep hocc hnew
  rcases step_ident ho.steady ho.blanked hstep t with (hsame | ⟨hblank, -, hfree⟩) | hspawn | ⟨rfl, hset⟩
  · rcases hnew with hnew | hnew
    · rw [← hsame.occupied, hocc] at hnew
      cases hnew
    · exact absurd hsame.gen hnew
  · refine .inr ⟨hblank, ?_⟩
    cases hslot : t.isSpawnable with
    | false => rfl
    | true =>
      rw [hfree hslot] at hocc
      cases hocc
  · exact .inl hspawn
  · rcases hnew with hnew | hnew
    · rw [current_occupied ho.steady] at hnew
      cases hnew
    · exact absurd hset.gen hnew

/-! ## A run with a spawn -/

def dropsRoot : Entry twoCores := asksFirst (.setId 1000 100 0 0)

def rootDropped : State twoCores := (step twoCoresBoot dropsRoot).getD twoCoresBoot

def imageStaged : State twoCores := (step rootDropped stagesImage).getD rootDropped

def childSpawned : State twoCores := (step imageStaged spawnsChild).getD imageStaged

def childRun : List (State twoCores × Entry twoCores × State twoCores) :=
  [(twoCoresBoot, dropsRoot, rootDropped), (rootDropped, stagesImage, imageStaged),
    (imageStaged, spawnsChild, childSpawned)]

theorem childRun_trace : Trace Step twoCoresBoot childRun childSpawned := by
  have hdrop : Step twoCoresBoot dropsRoot rootDropped := step_getD rfl
  have hstage : Step rootDropped stagesImage imageStaged := step_getD rfl
  have hspawn : Step imageStaged spawnsChild childSpawned := step_getD rfl
  exact ((Trace.single hdrop).snoc hstage).snoc hspawn

theorem childRun_spawns : Spawns imageStaged spawnsChild childSpawned Slot.first 6 :=
  ⟨⟨(0 : Fin 2), noDev, 128, 0, 0, 0, rfl, rfl⟩, rfl, rfl, by decide +kernel⟩

/-- in it the child has the ids the shell has left. -/
theorem identity_confined_child : (imageStaged, spawnsChild, childSpawned) ∈ childRun ∧
    (imageStaged.task Slot.first).id = ⟨1000, 100⟩ ∧
    (childSpawned.task 6).state.isOccupied = true ∧
    (childSpawned.task 6).id = (imageStaged.task Slot.first).id ∧
    (childSpawned.task 6).saved = (imageStaged.task Slot.first).id := by
  have hmem : (imageStaged, spawnsChild, childSpawned) ∈ childRun :=
    mem_cons_of_mem _ (mem_cons_of_mem _ mem_cons_self)
  have hid : (imageStaged.task Slot.first).id = ⟨1000, 100⟩ := rfl
  have hbooted : Booted twoCoresBoot := ⟨_, _, _, _, rfl⟩
  have hself : ∀ n, Offspring childRun (6, n) 6 n := fun _ => .self
  have hconf := (identity_confined hbooted childRun_trace).1 imageStaged spawnsChild childSpawned Slot.first 6
    hmem childRun_spawns (by rw [hid]; decide) 6 _ (hself _) rfl childRun_spawns.2.2.2
  exact ⟨hmem, hid, childRun_spawns.2.2.2, hconf.1, hconf.2.1⟩

end Identity

end Ouroboros.Kernel
