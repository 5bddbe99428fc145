import Ouroboros.Kernel.Vacant
import Ouroboros.Kernel.Identity

/-!
# What `SAFECOPY` reaches

A task grants a server access to a part of its memory (`GRANT`), and while it waits for the answer to a
call the server copies from or to it (`SAFECOPY`).

* `Granted`  where in a run the grant in force was made, and what has become of the two tasks since;
* `safecopy_granted`  a `SAFECOPY` that succeeds stays inside the latest grant of the client that waits;
* `safecopy_by_successor`  one by a later task in the slot that the grant was made to.
-/

namespace Ouroboros.Kernel

open Relation Transition List State

section Grants
variable {M : Machine} {s s' : State M} {t : Slot} {e : Entry M}
variable {cur : Slot} {k : Sys} {x : Nat × State M} {g : Grant} {T : Table} {m m' : Misc M}

/-! ## Generations -/

theorem Shift.spawnable (h : Shift s s') (ht : t.isSpawnable) : (s'.task t).gen = (s.task t).gen ∧
      ((s'.task t).state.isOccupied → (s.task t).state.isOccupied) := by
  cases h with
  | keep _ _ _ hp => exact ⟨(hp t).gen, fun hocc => (hp t).occupied.symm.trans hocc⟩
  | ended i final _ hfinal current heq =>
    subst heq
    have hend := endTask_endedIn s i hfinal
    exact ⟨hend.gens t, fun hocc => (hend.occupied hocc).2⟩
  | installed slot m size _ hserver _ _ heq =>
    subst heq
    have hne : t ≠ slot := by
      rintro rfl
      rw [isSupervised_spawnable hserver] at ht
      cases ht
    rw [installTask_task, if_neg hne]
    exact ⟨rfl, id⟩

theorem Shifts.spawnable (h : Shifts s s') (ht : t.isSpawnable) : (s'.task t).gen = (s.task t).gen ∧
      ((s'.task t).state.isOccupied → (s.task t).state.isOccupied) := by
  induction h with
  | refl => exact ⟨rfl, id⟩
  | tail _ hlast ih =>
    obtain ⟨hgen, hocc⟩ := hlast.spawnable ht
    exact ⟨hgen.trans ih.1, fun h => ih.2 (hocc h)⟩

theorem Shift.gen (h : Shift s s') (t : Slot) : (s'.task t).gen = (s.task t).gen ∨ isSupervised M t := by
  cases h with
  | keep _ _ _ hp => exact .inl (hp t).gen
  | ended i final _ hfinal current heq =>
    subst heq
    exact .inl ((endTask_endedIn s i hfinal).gens t)
  | installed slot m size _ hserver _ _ heq =>
    subst heq
    by_cases hts : t = slot
    · subst hts
      exact .inr hserver
    · rw [installTask_task, if_neg hts]
      exact .inl rfl

theorem Shifts.gen (h : Shifts s s') (t : Slot) : (s'.task t).gen = (s.task t).gen ∨ isSupervised M t := by
  induction h with
  | refl => exact .inl rfl
  | tail _ hlast ih =>
    rcases hlast.gen t with hgen | hserver
    · rw [hgen]
      exact ih
    · exact .inr hserver

theorem Booked.gen (hbook : Booked s cur k x) (t : Slot) :
    (x.2.task t).gen = (s.task t).gen ∧ (x.2.task t).state = (s.task t).state ∨
      (x.2.task t).gen = s.nextGen ∧ (x.2.task t).state = .runnable ∧ freeSlot s.task = some t ∧
        ∃ totalLen stdout argvLen cwdLen, k = .spawn totalLen stdout argvLen cwdLen := by
  cases hbook with
  | @spawns _ _ _ _ slot size out mem _ _ hstart =>
    by_cases hts : t = slot
    · subst hts
      simp only [spawned, spawnedTable, if_true, spawnedTask]
      exact .inr ⟨trivial, trivial, hstart.free, _, _, _, _, rfl⟩
    · simp only [spawned, spawnedTable, if_neg hts]
      exact .inl ⟨trivial, trivial⟩
  | _ => exact .inl ⟨rfl, rfl⟩

/-- **The generation of a spawnable slot moves exactly when a `SPAWN` fills it.** -/
theorem step_gen (hs : Steady s) (hn : Issued s) (hst : Step s e s') (ht : t.isSpawnable) :
    (s'.task t).gen = (s.task t).gen ∧ (∀ q, ¬ Spawns s e s' q t) ∨
      (s.task t).gen < (s'.task t).gen ∧ ∃ q, Spawns s e s' q t := by
  rcases step_booked hs hst with ⟨hshifts, -⟩ | ⟨c, d, k, m, x, rfl, hm, hbook, rfl⟩
  · obtain ⟨hgen, hocc⟩ := hshifts.spawnable ht
    refine .inl ⟨hgen, fun q hspawn => ?_⟩
    have hold := hocc hspawn.2.2.2
    rw [hspawn.2.2.1] at hold
    cases hold
  · have hplace := SamePlace.result x.2 (s.current c) x.1 t
    rcases hbook.gen t with ⟨hgen, hstate⟩ | ⟨hgen, hstate, hfree, _, _, _, _, rfl⟩
    · refine .inl ⟨hplace.gen.trans hgen, fun q hspawn => ?_⟩
      have hocc := hspawn.2.2.2
      rw [hplace.occupied, hstate, setMisc_task, hspawn.2.2.1] at hocc
      cases hocc
    · refine .inr ⟨?_, s.current c, ⟨c, d, _, _, _, _, rfl, rfl⟩, ht, (freeSlot_eq_some hfree).2, ?_⟩
      · rw [hplace.gen, hgen]
        exact hn.gens t
      · rw [hplace.occupied, hstate]
        rfl

/-- the generation of `t` from `u` to `s`, with the steps `k` between them: kept, or moved by a `SPAWN`. -/
def GenSince (u s : State M) (t : Slot) (k : List (State M × Entry M × State M)) : Prop :=
  (s.task t).gen = (u.task t).gen ∧ (∀ y ∈ k, ∀ q, ¬ Spawns y.1 y.2.1 y.2.2 q t) ∨
    (u.task t).gen < (s.task t).gen ∧ ∃ y ∈ k, ∃ q, Spawns y.1 y.2.1 y.2.2 q t

theorem GenSince.step {u : State M} {k : List (State M × Entry M × State M)} (h : GenSince u s t k)
    (hs : Steady s) (hn : Issued s) (hst : Step s e s') (ht : t.isSpawnable) :
    GenSince u s' t (k ++ [(s, e, s')]) := by
  rcases h with ⟨hsame, hnone⟩ | ⟨hlt, y, hy, hsome⟩
  · rcases step_gen hs hn hst ht with ⟨hstill, hnot⟩ | ⟨hmore, hfills⟩
    · refine .inl ⟨hstill.trans hsame, fun y hy => ?_⟩
      rw [mem_append, mem_singleton] at hy
      rcases hy with hy | rfl
      · exact hnone y hy
      · exact hnot
    · rw [hsame] at hmore
      exact .inr ⟨hmore, (s, e, s'), by simp, hfills⟩
  · refine .inr ⟨?_, y, mem_append_left _ hy, hsome⟩
    rcases step_gen hs hn hst ht with ⟨hstill, -⟩ | ⟨hmore, -⟩
    · rw [hstill]
      exact hlt
    · exact Nat.lt_trans hlt hmore

theorem trace_gen {u : State M} {k : List (State M × Entry M × State M)} (hr : Reached u)
    (tr : Trace Step u k s) (ht : t.isSpawnable) : GenSince u s t k := by
  obtain ⟨s₀, k₀, hb, tr₀⟩ := hr
  induction tr with
  | nil => exact .inl ⟨rfl, fun _ hy => absurd hy not_mem_nil⟩
  | snoc pre hst ih =>
    obtain ⟨hs, hn⟩ := reached_numbered ⟨s₀, _, hb, tr₀.append pre⟩
    exact ih.step hs hn.issued hst ht

theorem step_gen_server (hs : Steady s) (hst : Step s e s')
    (ht : t.isSpawnable = false) : (s'.task t).gen = (s.task t).gen ∨ isSupervised M t := by
  rcases step_booked hs hst with ⟨hshifts, -⟩ | ⟨c, d, k, m, x, rfl, hm, hbook, rfl⟩
  · exact hshifts.gen t
  have hplace := SamePlace.result x.2 (s.current c) x.1 t
  rcases hbook.gen t with ⟨hgen, -⟩ | ⟨-, -, hfree, -⟩
  · exact .inl (hplace.gen.trans hgen)
  · rw [(freeSlot_eq_some hfree).1] at ht
    cases ht

/-! ## The grant in force -/

/-- the recorded step is a `GRANT` of `g` by the task in `t`, and it was accepted. -/
def MakesGrant (x : State M × Entry M × State M) (t : Slot) (g : Grant) : Prop :=
  ∃ c d, x.2.1 = .syscall c d (.grant g.grantee.val g.ptr g.len g.dir) ∧ x.1.current c = t ∧ Accepted x.1 c x.2.2

/-- the grant `g` of `t` was made in the step `x` of a run to `s`, by the task in `t`, which has made no other
since. -/
structure Granted (s : State M) (t : Slot) (g : Grant) (x : State M × Entry M × State M)
    (rest : List (State M × Entry M × State M)) : Prop where
  made : MakesGrant x t g
  maker : (x.1.task t).gen = (s.task t).gen
  latest : ∀ y ∈ rest, ∀ g', ¬ MakesGrant y t g'
  /-- the task it was made to is there until the slot is filled again -/
  spawned : g.grantee.isSpawnable = true →
    (s.task g.grantee).gen = (x.1.task g.grantee).gen ∧ (∀ y ∈ rest, ∀ q, ¬ Spawns y.1 y.2.1 y.2.2 q g.grantee) ∨
    (x.1.task g.grantee).gen < (s.task g.grantee).gen ∧ ∃ y ∈ rest, ∃ q, Spawns y.1 y.2.1 y.2.2 q g.grantee
  server : g.grantee.isSpawnable = false →
    (s.task g.grantee).gen = (x.1.task g.grantee).gen ∨ isSupervised M g.grantee = true

/-- every active grant is a live task's, and was made in the run. -/
def GrantsOk (k : List (State M × Entry M × State M)) (s : State M) : Prop :=
  ∀ t, (s.misc.aux t).grant.active = true → (s.task t).state.isOccupied = true ∧
    ∃ before x rest, k = before ++ x :: rest ∧ Granted s t (s.misc.aux t).grant x rest

theorem Granted.step {x : State M × Entry M × State M}
    {rest : List (State M × Entry M × State M)} (h : Granted s t g x rest) (hs : Steady s)
    (hn : Issued s) (hst : Step s e s') (hgen : (s'.task t).gen = (s.task t).gen)
    (hno : ∀ g', ¬ MakesGrant (s, e, s') t g') : Granted s' t g x (rest ++ [(s, e, s')]) where
  made := h.made
  maker := h.maker.trans hgen.symm
  latest := by
    intro y hy g'
    rw [mem_append, mem_singleton] at hy
    rcases hy with hy | rfl
    · exact h.latest y hy g'
    · exact hno g'
  spawned := fun hspawnable => GenSince.step (h.spawned hspawnable) hs hn hst hspawnable
  server := by
    intro hserver
    rcases h.server hserver with hsame | hsup
    · rcases step_gen_server hs hst hserver with hstill | hsup
      · exact .inl (hstill.trans hsame)
      · exact .inr hsup
    · exact .inr hsup

theorem Granted.now (h : MakesGrant (s, e, s') t g) (hs : Steady s)
    (hn : Issued s) (hst : Step s e s') (hgen : (s'.task t).gen = (s.task t).gen) :
    Granted s' t g (s, e, s') [] where
  made := h
  maker := hgen.symm
  latest := fun _ hy => absurd hy not_mem_nil
  spawned := by
    intro hspawnable
    rcases step_gen hs hn hst hspawnable with ⟨hsame, -⟩ | ⟨-, q, ⟨_, _, _, _, _, _, he, -⟩, -⟩
    · exact .inl ⟨hsame, fun _ hy => absurd hy not_mem_nil⟩
    obtain ⟨_, _, he', -⟩ := h
    rw [he] at he'
    cases he'
  server := step_gen_server hs hst

/-! ## What an entry does to a grant -/

theorem Hush.grant (h : Hush T m m') (t : Slot) : (m'.aux t).grant = (m.aux t).grant :=
  h.proj (fun _ _ => rfl) fun _ _ _ => rfl

theorem Hushes.grant (h : Hushes T m m') (t : Slot) : (m'.aux t).grant = (m.aux t).grant := by
  induction h with
  | refl => rfl
  | tail _ hm ih => rw [hm.grant, ih]

/-- the grant of `t` and the task that made it are as before. -/
structure SameGrant (s s' : State M) (t : Slot) : Prop where
  grant : (s'.misc.aux t).grant = (s.misc.aux t).grant
  occupied : (s'.task t).state.isOccupied = (s.task t).state.isOccupied
  gen : (s'.task t).gen = (s.task t).gen

theorem SameGrant.trans {s₁ s₂ s₃ : State M} (h : SameGrant s₁ s₂ t) (h' : SameGrant s₂ s₃ t) :
    SameGrant s₁ s₃ t :=
  ⟨h'.grant.trans h.grant, h'.occupied.trans h.occupied, h'.gen.trans h.gen⟩

theorem Shift.grant (h : Shift s s') (hlive : (s.misc.aux t).grant.active → (s.task t).state.isOccupied)
    (hactive : (s'.misc.aux t).grant.active) : SameGrant s s' t := by
  cases h with
  | keep _ _ _ hp hm => exact ⟨hm.grant t, (hp t).occupied, (hp t).gen⟩
  | ended i final _ hfinal current heq =>
    subst heq
    have hend := endTask_endedIn s i hfinal
    by_cases hti : t = i
    · have hblobs := endTask_blobs s i final t
      rw [if_pos hti] at hblobs
      have hinactive := ((Aux.vacant_reset (s.misc.aux i)).congr hblobs).grant
      exact absurd hactive (Bool.eq_false_iff.1 hinactive)
    · have hgrant : ((endTask s i final).misc.aux t).grant = (s.misc.aux t).grant :=
        endTask_proj (fun _ _ => rfl) s i final hti
      exact ⟨hgrant, (hend.other t hti).occupied, (hend.other t hti).gen⟩
  | installed slot m size hunused _ _ hm heq =>
    subst heq
    have hgrant : ((setPreviousOwner m slot 0).aux t).grant = (m.aux t).grant :=
      setPreviousOwner_proj (fun _ _ => rfl) m slot 0 t
    rw [hm.aux] at hgrant
    have hne : t ≠ slot := by
      rintro rfl
      have hocc := hlive (by rw [← hgrant]; exact hactive)
      rw [hunused] at hocc
      cases hocc
    refine ⟨hgrant, ?_, ?_⟩
    · rw [installTask_task, if_neg hne]
      rfl
    · rw [installTask_task, if_neg hne]
      rfl

theorem Shifts.grant (h : Shifts s s') (hlive : (s.misc.aux t).grant.active → (s.task t).state.isOccupied)
    (hactive : (s'.misc.aux t).grant.active) : SameGrant s s' t := by
  induction h with
  | refl => exact ⟨rfl, rfl, rfl⟩
  | @tail u v _ hlast ih =>
    have hlive' : (u.misc.aux t).grant.active → (u.task t).state.isOccupied := by
      intro hu
      have hsame := ih hu
      rw [hsame.occupied]
      exact hlive (by rw [← hsame.grant]; exact hu)
    have hsame := hlast.grant hlive' hactive
    exact (ih (by rw [← hsame.grant]; exact hactive)).trans hsame

theorem Booked.grant (hbook : Booked s cur k x)
    (hlive : (s.misc.aux t).grant.active → (s.task t).state.isOccupied)
    (hactive : (x.2.misc.aux t).grant.active) :
    SameGrant s x.2 t ∧ ((∃ n ptr len dir, k = .grant n ptr len dir) → x.1 ≠ 0 ∨ t ≠ cur) ∨
      t = cur ∧ x.1 = 0 ∧ x.2.task = s.task ∧
        k = .grant (x.2.misc.aux t).grant.grantee.val (x.2.misc.aux t).grant.ptr (x.2.misc.aux t).grant.len
          (x.2.misc.aux t).grant.dir := by
  have hsame : ∀ m : Misc M, (m.aux t).grant = (s.misc.aux t).grant → SameGrant s (s.setMisc m) t :=
    fun m hm => ⟨hm, rfl, rfl⟩
  cases hbook with
  | refused hr hm =>
    refine .inl ⟨hsame _ ?_, ?_⟩
    · rcases hm with hm | hm
      · rw [hm.aux]
      · rw [hm.aux]
    · rintro ⟨n, ptr, len, dir, rfl⟩
      exact .inl hr
  | stages _ hput =>
    refine .inl ⟨hsame _ rfl, ?_⟩
    rintro ⟨n, ptr, len, dir, rfl⟩
    cases hput
  | @grants grantee ptr len dir g hg hdir hlen hin =>
    by_cases ht : t = cur
    · subst ht
      refine .inr ⟨rfl, rfl, rfl, ?_⟩
      simp [Misc.modify, (liveIndex_eq_some.1 hg).1]
    · refine .inl ⟨hsame _ ?_, fun _ => .inr ht⟩
      rw [Misc.modify_aux_other ht]
  | handsOver =>
    refine .inl ⟨hsame _ (setInputOwner_proj (fun _ _ => rfl) (fun _ _ => rfl) _ _ _ _ t), ?_⟩
    rintro ⟨_, _, _, _, ⟨⟩⟩
  | names blob =>
    refine .inl ⟨hsame _ (Misc.modify_proj Aux.grant (by intro _; rfl) cur t), ?_⟩
    rintro ⟨_, _, _, _, ⟨⟩⟩
  | asks hm =>
    refine .inl ⟨hsame _ (hm.grant t), ?_⟩
    rintro ⟨_, _, _, _, ⟨⟩⟩
  | sets hm raw =>
    refine .inl ⟨hsame _ ((Misc.modify_proj Aux.grant (by intro _; rfl) cur t).trans (hm.grant t)), ?_⟩
    rintro ⟨_, _, _, _, ⟨⟩⟩
  | @spawns _ stdout argvLen cwdLen slot size out mem _ _ hstart =>
    refine .inl ⟨?_, ?_⟩
    · have hgrant : ((startedMisc s.misc mem slot cur s.misc.staging stdout argvLen cwdLen).aux t).grant
          = (s.misc.aux t).grant := by
        have hblobs : ((setBlobs (setPreviousOwner (s.misc.setMem mem) slot 0) slot cur s.misc.staging stdout
            argvLen cwdLen).aux t).grant = ((setPreviousOwner (s.misc.setMem mem) slot 0).aux t).grant := by
          unfold setBlobs
          exact Misc.modify_proj Aux.grant (by intro _; rfl) slot t
        exact hblobs.trans (setPreviousOwner_proj (fun _ _ => rfl) (s.misc.setMem mem) slot 0 t)
      have hne : t ≠ slot := by
        rintro rfl
        have hocc := hlive (by rw [← hgrant]; exact hactive)
        rw [(freeSlot_eq_some hstart.free).2] at hocc
        cases hocc
      refine ⟨hgrant, ?_, ?_⟩
      · simp only [spawned, spawnedTable, if_neg hne]
      · simp only [spawned, spawnedTable, if_neg hne]
    · rintro ⟨_, _, _, _, ⟨⟩⟩

theorem step_grant (hs : Steady s) (hst : Step s e s')
    (hlive : (s.misc.aux t).grant.active → (s.task t).state.isOccupied)
    (hactive : (s'.misc.aux t).grant.active) : SameGrant s s' t ∧ (∀ g', ¬ MakesGrant (s, e, s') t g') ∨
      (s'.task t).state.isOccupied ∧ (s'.task t).gen = (s.task t).gen ∧
        MakesGrant (s, e, s') t (s'.misc.aux t).grant := by
  rcases step_booked hs hst with ⟨hshifts, hcut⟩ | ⟨c, d, k, m, x, rfl, hm, hbook, rfl⟩
  · refine .inl ⟨hshifts.grant hlive hactive, ?_⟩
    rintro g' ⟨c, d, he, -, hacc⟩
    have hgone := hcut c d _ he rfl
    rw [hacc.1] at hgone
    cases hgone
  · have hload : SameGrant s (s.setMisc m) t := ⟨(load_hushes (T := s.task) hm).grant t, rfl, rfl⟩
    have hplace := SamePlace.result x.2 (s.current c) x.1 t
    have hresult : SameGrant x.2 (x.2.modify (s.current c) fun u => { u with x0 := x.1 }) t :=
      ⟨rfl, hplace.occupied, hplace.gen⟩
    have hlive' : ((s.setMisc m).misc.aux t).grant.active → ((s.setMisc m).task t).state.isOccupied := by
      intro h
      rw [hload.grant] at h
      exact hlive h
    rcases hbook.grant hlive' hactive with ⟨hsame, hno⟩ | ⟨rfl, hzero, htask, hk⟩
    · refine .inl ⟨(hload.trans hsame).trans hresult, ?_⟩
      rintro g' ⟨c', d', he, hcur, hacc⟩
      cases he
      rcases hno ⟨_, _, _, _, rfl⟩ with hne | hne
      · exact hne hacc.result
      · exact hne hcur.symm
    · have hrun : (x.2.task (s.current c)).state = .runnable := by
        rw [htask]
        exact hs.current c
      refine .inr ⟨?_, ?_, c, d, ?_, rfl, ?_⟩
      · rw [hplace.occupied, hrun]
        rfl
      · rw [hplace.gen, htask]
        rfl
      · exact congrArg (Entry.syscall c d) hk
      unfold Accepted
      rw [modify_same]
      exact ⟨hrun, hzero⟩

theorem GrantsOk.step {k : List (State M × Entry M × State M)} (h : GrantsOk k s) (hs : Steady s)
    (hn : Issued s) (hst : Step s e s') : GrantsOk (k ++ [(s, e, s')]) s' := by
  intro t hactive
  rcases step_grant hs hst (fun h' => (h t h').1) hactive with ⟨hsame, hno⟩ | ⟨hocc, hgen, hmade⟩
  · rw [hsame.grant] at hactive ⊢
    rw [hsame.occupied]
    obtain ⟨hlive, before, x, rest, rfl, hgranted⟩ := h t hactive
    exact ⟨hlive, before, x, rest ++ [(s, e, s')], by simp, hgranted.step hs hn hst hsame.gen hno⟩
  · exact ⟨hocc, k, (s, e, s'), [], rfl, .now hmade hs hn hst hgen⟩

/-- **Where every grant in force comes from.** -/
theorem trace_grants {s₀ : State M} {k : List (State M × Entry M × State M)} (hb : Booted s₀)
    (tr : Trace Step s₀ k s) : GrantsOk k s := by
  induction tr with
  | nil =>
    obtain ⟨b, top, q, d, rfl⟩ := hb
    intro t hactive
    cases hactive
  | snoc pre hst ih =>
    obtain ⟨hs, hn⟩ := reached_numbered ⟨_, _, hb, pre⟩
    exact ih.step hs hn.issued hst

/-! ## SAFECOPY -/

theorem safecopySyscall_cases (s : State M) (cur : Slot) (call offset loc len dir : Nat) :
    safecopySyscall s cur call offset loc len dir = (safecopyErr, s) ∨
        ∃ m, inCallerRegion (s.task cur).region loc len ∧
        safecopy s cur call offset loc len dir = some m ∧
        safecopySyscall s cur call offset loc len dir = (len, s.setMisc m) := by
  unfold safecopySyscall
  split
  · exact .inl rfl
  rename_i hok
  rw [not_or, not_or, Bool.not_eq_false] at hok
  split
  · exact .inl rfl
  · rename_i m hm
    exact .inr ⟨m, hok.2.2, hm, rfl⟩

/-- **`SAFECOPY` reaches only what was granted.**  One that succeeds copies between the caller's region and a
part of the buffer of the latest `GRANT` by the task that waits in the call it names, in a direction that
allowed.  The `GRANT` was made to this very caller exactly if no `SPAWN` has filled its slot since. -/
theorem safecopy_granted {s₀ : State M} {k : List (State M × Entry M × State M)} (hb : Booted s₀)
    (tr : Trace Step s₀ k s) {c : Fin M.cores} {d : Dev} {call offset loc len dir : Nat}
    (hst : Step s (.syscall c d (.safecopy call offset loc len dir)) s')
    (hrun : (s'.task (s.current c)).state = .runnable)
    (hres : (s'.task (s.current c)).x0 ≠ safecopyErr) :
    ∃ client g before x rest, ((s.task client).state.inCallTo (s.current c) = true ∧ (s.task client).call ≠ 0 ∧
        call = pack (s.task client).call client) ∧
      (k = before ++ x :: rest ∧ MakesGrant x client g ∧ (x.1.task client).gen = (s.task client).gen ∧
        g.grantee = s.current c ∧ ∀ y ∈ rest, ∀ g', ¬ MakesGrant y client g') ∧
      ((dir = grantRead ∨ dir = grantWrite) ∧ g.dir &&& dir ≠ 0 ∧ offset + len ≤ g.len) ∧
      (inCallerRegion (s.task (s.current c)).region loc len = true ∧ (s.task client).region.1 ≤ g.ptr + offset ∧
        g.ptr + offset + len ≤ (s.task client).region.1 + (s.task client).region.2 ∧
        s'.misc.dev.mem = writeMem d.mem (safecopyEnds dir loc (g.ptr + offset)).2
          (readMem d.mem (safecopyEnds dir loc (g.ptr + offset)).1 len)) ∧
      ((s.current c).isSpawnable = true → ((s.task (s.current c)).gen = (x.1.task (s.current c)).gen ↔
        ∀ y ∈ rest, ∀ q, ¬ Spawns y.1 y.2.1 y.2.2 q (s.current c))) ∧
      ((s.current c).isSpawnable = false →
        (s.task (s.current c)).gen = (x.1.task (s.current c)).gen ∨ isSupervised M (s.current c) = true) := by
  have hs := (reached_numbered ⟨_, _, hb, tr⟩).1
  rcases special_cases (o := .other) (p := s.current c) hst with ⟨-, hended⟩ | ⟨m, hm, hd⟩
  · rw [hrun] at hended
    cases hended
  have hgrants : ∀ t, (m.aux t).grant = (s.misc.aux t).grant := (load_hushes (T := s.task) hm).grant
  have hmem : m.dev.mem = d.mem := congrArg Dev.mem hm.dev
  simp only [dispatch] at hd
  rcases safecopySyscall_cases (s.setMisc m) ((s.setMisc m).current c) call offset loc len dir with
    herr | ⟨m', hin, hcopy, heq⟩
  · rw [herr] at hd
    cases hd
    exact absurd (by rw [setMisc_current, modify_same]) hres
  rw [heq] at hd
  cases hd
  obtain ⟨client, g, hclient, hg, hactive, hgrantee, hdir, hallowed, hlen, hlow, hhigh, hm'⟩ :=
    safecopy_eq_some hcopy
  rw [setMisc_misc, hgrants client] at hg
  obtain ⟨-, before, x, rest, hk, hgranted⟩ := trace_grants hb tr client (hg ▸ hactive)
  rw [← hg] at hgranted
  have hcall := replyTarget_eq_some.1 hclient
  have hserver : g.grantee = s.current c := hgrantee
  refine ⟨client, g, before, x, rest, hcall, ⟨hk, hgranted.made, hgranted.maker, hserver, hgranted.latest⟩,
    ⟨hdir, hallowed, hlen⟩, ⟨hin, hlow, hhigh, ?_⟩, ?_, ?_⟩
  · rw [hm', ← hmem]
    rfl
  · intro hspawnable
    have hspawned := hgranted.spawned (hserver ▸ hspawnable)
    rw [hserver] at hspawned
    rcases hspawned with ⟨hsame, hnone⟩ | ⟨hlt, y, hy, q, hfills⟩
    · exact ⟨fun _ => hnone, fun _ => hsame⟩
    · exact ⟨fun hsame => absurd hsame (ne_of_gt hlt), fun hnone => absurd hfills (hnone y hy q)⟩
  · intro hslot
    have hkept := hgranted.server (hserver ▸ hslot)
    rw [hserver] at hkept
    exact hkept

/-! ## A grant that outlives its grantee -/

def grantsChild : Entry twoCores := asksFirst (.grant 6 0x400000 16 1)

def callsSuccessor : List (Entry twoCores) := [asksFirst (.kill 6), stagesImage, spawnsChild,
    asksFirst (.msgCall 6 0x400000 4 0x400000)]

def successorRun : List (Entry twoCores) := [stagesImage, spawnsChild] ++ grantsChild :: callsSuccessor

def childStarted : State twoCores := after twoCoresBoot [stagesImage, spawnsChild]

def childGranted : State twoCores := after childStarted [grantsChild]

def successorCopies : Entry twoCores := asksFirst (.safecopy (pack 1 0) 0 0xE00000 4 1)

def successorCalled : State twoCores := after twoCoresBoot successorRun

def successorCopied : State twoCores := after successorCalled [successorCopies]

theorem successorCopies_step : Step successorCalled successorCopies successorCopied :=
  step_after (by decide +kernel)

theorem successorRun_trace : Trace Step twoCoresBoot (record twoCoresBoot successorRun) successorCalled :=
  record_trace (by decide +kernel)

/-- the `SAFECOPY` of that run, and where its grant was made. -/
theorem safecopy_granted_successor : (successorCopied.task 6).x0 = 4 ∧
    ∃ client g before x rest, (successorCalled.task client).state.inCallTo 6 = true ∧
      record twoCoresBoot successorRun = before ++ x :: rest ∧ MakesGrant x client g ∧ g.grantee = 6 := by
  have hcur : successorCalled.current (0 : Fin 2) = 6 := by
    decide +kernel
  obtain ⟨client, g, before, x, rest, hcall, ⟨hk, hmade, -, hgrantee, -⟩, -⟩ :=
    safecopy_granted twoCoresBoot_booted successorRun_trace successorCopies_step
      (by decide +kernel) (by decide +kernel)
  rw [hcur] at hcall hgrantee
  exact ⟨by decide +kernel, client, g, before, x, rest, hcall.1, hk, hmade, hgrantee⟩

/-- it was made to an earlier task of the slot. -/
theorem safecopy_by_successor : Trace Step twoCoresBoot (record twoCoresBoot successorRun) successorCalled ∧
    Step successorCalled successorCopies successorCopied ∧
    (successorCopied.task (successorCalled.current (0 : Fin 2))).state = .runnable ∧
    (successorCopied.task (successorCalled.current (0 : Fin 2))).x0 ≠ safecopyErr ∧
    successorCalled.current (0 : Fin 2) = 6 ∧
    ∃ before x rest, record twoCoresBoot successorRun = before ++ x :: rest ∧
      MakesGrant x Slot.first ⟨6, 0x400000, 16, 1, true⟩ ∧
      (∀ y ∈ rest, ∀ g', ¬ MakesGrant y Slot.first g') ∧
      (x.1.task 6).gen ≠ (successorCalled.task 6).gen := by
  have hsplit : record twoCoresBoot successorRun = record twoCoresBoot [stagesImage, spawnsChild] ++
      (childStarted, grantsChild, childGranted) :: record childGranted callsSuccessor := by
    rw [successorRun, record_append _ (by decide +kernel)]
    exact congrArg _ (record_cons _ (by decide +kernel))
  have hshell : childStarted.current (0 : Fin 2) = Slot.first := by
    decide +kernel
  have hmade : Accepted childStarted (0 : Fin 2) childGranted := ⟨by decide +kernel, by decide +kernel⟩
  have hgrants : MakesGrant (childStarted, grantsChild, childGranted) Slot.first ⟨6, 0x400000, 16, 1, true⟩ := by
    refine ⟨(0 : Fin 2), noDev, rfl, hshell, ?_⟩
    dsimp only
    exact hmade
  refine ⟨successorRun_trace, successorCopies_step, by decide +kernel, by decide +kernel, by decide +kernel,
    _, _, _, hsplit, hgrants, ?_, by decide +kernel⟩
  rintro y hy g' ⟨c, d, he, -⟩
  have hentry := record_mem hy
  rw [he] at hentry
  simp only [callsSuccessor, stagesImage, spawnsChild, mem_cons, not_mem_nil, or_false] at hentry
  rcases hentry with h | h | h | h <;> cases h

end Grants

end Ouroboros.Kernel
