import Ouroboros.Kernel.Identity

/-!
# Send rights never reach strangers

* `Granted`  the grants;
* `send_rights`  every right of every task was granted to that task, for the occupant its target has.
-/

namespace Ouroboros.Kernel

open Transition State List Function

section Rights
variable {M : Machine} {o : Origin} {p : Slot} {c : Fin M.cores} {s s' : State M}
variable {t dest src : Slot} {u : Task} {stdout : Nat} {e : Entry M} {k : List (State M × Entry M × State M)}
variable {T : Table} {q slot : Slot} {d : Dev} {totalLen argvLen cwdLen size : Nat} {out : Option Slot}
    {m : Misc M}

/-! ## One entry -/

theorem Effect.right (h : Effect o p c s s' t u) (hu : u.delegated dest) :
    (s.task t).delegated dest ∧ u.gen = (s.task t).gen := by
  cases h with
  | killed | retired | installed => cases hu
  | _ => exact ⟨hu, rfl⟩

theorem Effect.server (h : Effect o p c s s' t u) : u.gen = (s.task t).gen ∨ isSupervised M t := by
  cases h with
  | killed | retired =>
    refine .inl ?_
    unfold Task.failCall
    split <;> rfl
  | installed _ hserver => exact .inr hserver
  | _ => exact .inl rfl

theorem Effect.parent (h : Effect o p c s s' t u) :
    u.parent = (s.task t).parent ∧ u.gen = (s.task t).gen ∨ u.parent = 0 := by
  cases h with
  | killed | retired =>
    refine .inl ?_
    unfold Task.failCall
    split <;> exact ⟨rfl, rfl⟩
  | installed => exact .inr rfl
  | _ => exact .inl ⟨rfl, rfl⟩

/-- the right is an old one between the occupants of before; a server counts as itself when it is
restarted. -/
structure OldRight (s s' : State M) (src dest : Slot) : Prop where
  held : (s.task src).delegated dest = true
  src : (s'.task src).gen = (s.task src).gen
  dest : (s'.task dest).gen = (s.task dest).gen ∨ isSupervised M dest = true

theorem acts_right (h : Acts o p c s s') (hright : (s'.task src).delegated dest) : OldRight s s' src dest := by
  have hinv := h.invariant (P := fun u => ((u.task src).delegated dest →
      (s.task src).delegated dest ∧ (u.task src).gen = (s.task src).gen) ∧
      ((u.task dest).gen = (s.task dest).gen ∨ isSupervised M dest))
    ⟨fun h => ⟨h, rfl⟩, .inl rfl⟩ ?_
  · exact ⟨(hinv.1 hright).1, (hinv.1 hright).2, hinv.2⟩
  · intro u a ⟨hsrc, hdest⟩ ha
    refine ⟨?_, ?_⟩
    · intro hnew
      obtain ⟨hheld, hgen⟩ := (a.effect ha src).right hnew
      exact ⟨(hsrc hheld).1, hgen.trans (hsrc hheld).2⟩
    rcases (a.effect ha dest).server with hsame | hserver
    · rw [hsame]
      exact hdest
    · exact .inr hserver

theorem Ending.right (h : Ending c p s s' t u) :
    u.delegated = (s.task t).delegated ∧ u.gen = (s.task t).gen ∧ u.parent = (s.task t).parent := by
  cases h <;> exact ⟨rfl, rfl, rfl⟩

/-- the entry grants `src` the right to send to `dest`. -/
inductive Grants (s : State M) (e : Entry M) (s' : State M) (src dest : Slot) : Prop where
  /-- `src` spawns `dest` -/
  | spawner (h : Spawns s e s' src dest)
  /-- `dest` spawns `src` -/
  | child (h : Spawns s e s' dest src)
  /-- `src` is spawned with the standard output `dest` -/
  | stdout {q : Slot} (h : Spawns s e s' q src)
      (he : ∃ c d totalLen argvLen cwdLen, e = .syscall c d (.spawn totalLen dest.val argvLen cwdLen))
  /-- the parent of `src`, which holds the right, delegates it -/
  | delegate {c : Fin M.cores} {d : Dev} (he : e = .syscall c d (.delegate src.val dest.val))
      (hchild : isChildOf s.task src (s.current c) = true)
      (hright : holdsSendRight s.task (s.current c) dest = true)

theorem stdoutTask_some (h : stdoutTask T q stdout = .ok (some t)) : stdout = t.val := by
  unfold stdoutTask at h
  split at h
  · cases h
  split at h
  · cases h
  rename_i u hu
  split at h
  · cases h
  · cases h
    exact (liveIndex_eq_some.1 hu).1

structure SameLinks (u v : Task) : Prop where
  delegated : v.delegated = u.delegated
  gen : v.gen = u.gen
  parent : v.parent = u.parent
  state : v.state = u.state

theorem result_links (s : State M) (q : Slot) (r : Nat) (t : Slot) :
    SameLinks (s.task t) ((s.modify q fun u => { u with x0 := r }).task t) :=
  modify_at ⟨rfl, rfl, rfl, rfl⟩ fun _ => ⟨rfl, rfl, rfl, rfl⟩

theorem spawned_spawns (hslot : freeSlot s.task = some slot)
    (hlinks : SameLinks ((spawned s (s.current c) slot size out m).task slot) (s'.task slot)) :
    Spawns s (.syscall c d (.spawn totalLen stdout argvLen cwdLen)) s' (s.current c) slot := by
  obtain ⟨hspawn, hunused⟩ := freeSlot_eq_some hslot
  refine ⟨⟨c, d, totalLen, stdout, argvLen, cwdLen, rfl, rfl⟩, hspawn, hunused, ?_⟩
  rw [hlinks.state]
  simp only [spawned, spawnedTable, if_true]
  rfl

theorem spawned_right (hslot : freeSlot s.task = some slot)
    (hout : stdoutTask s.task (s.current c) stdout = .ok out)
    (hlinks : ∀ t, SameLinks ((spawned s (s.current c) slot size out m).task t) (s'.task t))
    (hright : (s'.task src).delegated dest) : OldRight s s' src dest ∨
      Grants s (.syscall c d (.spawn totalLen stdout argvLen cwdLen)) s' src dest := by
  have hspawns : Spawns s (.syscall c d (.spawn totalLen stdout argvLen cwdLen)) s' (s.current c) slot :=
    spawned_spawns hslot (hlinks slot)
  rw [(hlinks src).delegated] at hright
  have hsrc := (hlinks src).gen
  have hdest := (hlinks dest).gen
  simp only [spawned, spawnedTable] at hright hsrc hdest
  by_cases hs : src = slot
  · subst hs
    rw [if_pos rfl] at hright
    simp only [spawnedTask, Bool.or_eq_true, Bool.and_eq_true, beq_iff_eq] at hright
    rcases hright with rfl | ⟨rfl, -⟩
    · exact .inr (.child hspawns)
    · obtain rfl := stdoutTask_some hout
      exact .inr (.stdout hspawns ⟨c, d, totalLen, argvLen, cwdLen, rfl⟩)
  · rw [if_neg hs] at hright hsrc
    by_cases hd : dest = slot
    · subst hd
      simp only [update_self, beq_iff_eq] at hright
      subst hright
      exact .inr (.spawner hspawns)
    · rw [if_neg hd] at hdest
      simp only [update_of_ne hd] at hright
      exact .inl ⟨hright, hsrc, .inl hdest⟩

/-- **A right after an entry is an old one, or the entry grants it.** -/
theorem step_right (hs : Steady s) (h : step s e = some s') (hright : (s'.task src).delegated dest) :
    OldRight s s' src dest ∨ Grants s e s' src dest := by
  rcases step_cases hs h with ⟨u, hacts, hfin⟩ | ⟨c, d, k, r, u, rfl, hu, rfl⟩
  · obtain ⟨hdel, hgen, -⟩ := (hfin.ending src).right
    rw [hdel] at hright
    have hold := acts_right hacts hright
    refine .inl ⟨hold.held, hgen.trans hold.src, ?_⟩
    rw [(hfin.ending dest).right.2.1]
    exact hold.dest
  · have hlinks := result_links u (s.current c) r
    revert hlinks hright
    generalize (u.modify (s.current c) fun v => { v with x0 := r }) = w
    intro hright hlinks
    -- a call that changes no right and no generation
    have hsame : (∀ t, (u.task t).delegated = (s.task t).delegated ∧ (u.task t).gen = (s.task t).gen) →
        OldRight s w src dest := by
      intro heq
      rw [(hlinks src).delegated, (heq src).1] at hright
      exact ⟨hright, (hlinks src).gen.trans (heq src).2, .inl ((hlinks dest).gen.trans (heq dest).2)⟩
    cases hu with
    | quiet m => exact .inl (hsame fun t => ⟨rfl, rfl⟩)
    | reply | setId =>
      refine .inl (hsame fun t => ?_)
      rw [setMisc_task]
      exact ⟨modify_proj t _ rfl, modify_proj t _ rfl⟩
    | spawn hslot hout => exact spawned_right hslot hout hlinks hright
    | @delegate g t m hg ht hchild hheld =>
      have hgen : ∀ i, (w.task i).gen = (s.task i).gen := by
        intro i
        rw [(hlinks i).gen, setMisc_task]
        exact modify_proj i _ rfl
      rw [(hlinks src).delegated, setMisc_task, setDelegate, modify_task] at hright
      split at hright
      · rename_i hsrc
        subst hsrc
        by_cases hd : dest = t
        · subst hd
          exact .inr (.delegate rfl hchild hheld)
        · simp only [update_of_ne hd] at hright
          exact .inl ⟨hright, hgen src, .inl (hgen dest)⟩
      · exact .inl ⟨hright, hgen src, .inl (hgen dest)⟩

theorem acts_parent (h : Acts o p c s s') :
    (s'.task t).parent = (s.task t).parent ∧ (s'.task t).gen = (s.task t).gen ∨ (s'.task t).parent = 0 := by
  refine h.invariant (P := fun u => (u.task t).parent = (s.task t).parent ∧ (u.task t).gen = (s.task t).gen ∨
    (u.task t).parent = 0) (.inl ⟨rfl, rfl⟩) ?_
  intro u a hu ha
  rcases (a.effect ha t).parent with ⟨hsame, hgen⟩ | hnone
  · rw [hsame, hgen]
    exact hu
  · exact .inr hnone

theorem taskIdOf_occupied (h : (T t).state.isOccupied) :
    taskIdOf T t = some (pack (T t).gen t) := if_neg (isOccupied_ne_unused h)

/-- **The parent link is kept with its occupant, empty, or that of the spawner.** -/
theorem step_parent (hs : Steady s) (h : step s e = some s') (t : Slot) :
    (s'.task t).parent = (s.task t).parent ∧ (s'.task t).gen = (s.task t).gen ∨ (s'.task t).parent = 0 ∨
      ∃ q, Spawns s e s' q t ∧ (s'.task t).parent = pack (s.task q).gen q := by
  rcases step_cases hs h with ⟨u, hacts, hfin⟩ | ⟨c, d, k, r, u, rfl, hu, rfl⟩
  · obtain ⟨-, hgen, hparent⟩ := (hfin.ending t).right
    rw [hgen, hparent]
    rcases acts_parent hacts with hsame | hnone
    · exact .inl hsame
    · exact .inr (.inl hnone)
  · have hlinks := result_links u (s.current c) r
    revert hlinks
    generalize (u.modify (s.current c) fun v => { v with x0 := r }) = w
    intro hlinks
    rw [(hlinks t).parent, (hlinks t).gen]
    cases hu with
    | quiet m => exact .inl ⟨rfl, rfl⟩
    | reply | setId | delegate =>
      rw [setMisc_task]
      exact .inl ⟨modify_proj t _ rfl, modify_proj t _ rfl⟩
    | @spawn _ _ _ _ slot size out m program hslot hout =>
      have hspawns := hlinks slot
      simp only [spawned, spawnedTable]
      split
      · rename_i hti
        subst hti
        refine .inr (.inr ⟨s.current c, spawned_spawns hslot hspawns, ?_⟩)
        simp only [spawnedTask, taskIdOf_occupied (current_occupied hs c), Option.getD_some]
      · exact .inl ⟨rfl, rfl⟩

/-! ## Runs -/

/-- in the recorded steps, the task `q` has in `s` spawned the task `t` has in `s`. -/
def Parent (k : List (State M × Entry M × State M)) (s : State M) (q t : Slot) : Prop :=
  ∃ v e v', (v, e, v') ∈ k ∧ Spawns v e v' q t ∧ (v.task q).gen = (s.task q).gen ∧
    (v'.task t).gen = (s.task t).gen

def Linked (k : List (State M × Entry M × State M)) (s : State M) : Prop :=
  ∀ t, (s.task t).parent ≠ 0 → ∃ v e v' q, (v, e, v') ∈ k ∧ Spawns v e v' q t ∧
    (v'.task t).gen = (s.task t).gen ∧ (s.task t).parent = pack (v.task q).gen q

theorem Linked.step (hs : Steady s) (hl : Linked k s) (h : step s e = some s') :
    Linked (k ++ [(s, e, s')]) s' := by
  intro t ht
  rcases step_parent hs h t with ⟨hparent, hgen⟩ | hnone | ⟨q, hspawn, hparent⟩
  · rw [hparent] at ht
    obtain ⟨v, a, v', q, hmem, hspawn, hgen', hlink⟩ := hl t ht
    exact ⟨v, a, v', q, mem_append_left _ hmem, hspawn, hgen'.trans hgen.symm, hparent.trans hlink⟩
  · exact absurd hnone ht
  · exact ⟨s, e, s', q, by simp, hspawn, rfl, hparent⟩

theorem Linked.parent (hl : Linked k s)
    (hn : Numbered s) (hocc : (s.task q).state.isOccupied) (h : isChildOf s.task t q) : Parent k s q t := by
  have hparent : (s.task t).parent = pack (s.task q).gen q := by
    simp only [isChildOf, occupantIs, beq_iff_eq, taskIdOf_occupied hocc] at h
    exact (Option.some.inj h).symm
  have hne : (s.task t).parent ≠ 0 := by
    have hlive := hn.live q hocc
    rw [hparent]
    unfold pack
    omega
  obtain ⟨v, e, v', r, hmem, hspawn, hgen, hlink⟩ := hl t hne
  obtain ⟨hgenq, rfl⟩ := pack_inj (hlink.symm.trans hparent)
  exact ⟨v, e, v', hmem, hspawn, hgenq, hgen⟩

/-- the right of `src` to send to `dest` was granted in a recorded step, to the task in `src`, for the one in
`dest` or a server that was restarted, and if by delegation, by its parent. -/
def Earned (k : List (State M × Entry M × State M)) (s : State M) (src dest : Slot) : Prop :=
  ∃ v e v', (v, e, v') ∈ k ∧ Grants v e v' src dest ∧ (v'.task src).gen = (s.task src).gen ∧
    ((v'.task dest).gen = (s.task dest).gen ∨ isSupervised M dest = true) ∧
    ∀ c d, e = .syscall c d (.delegate src.val dest.val) → Parent k v (v.current c) src

theorem Earned.step (h : Earned k s src dest) (hold : OldRight s s' src dest) :
    Earned (k ++ [(s, e, s')]) s' src dest := by
  obtain ⟨v, a, v', hmem, hgrant, hsrc, hdest, hparent⟩ := h
  refine ⟨v, a, v', mem_append_left _ hmem, hgrant, hsrc.trans hold.src.symm, ?_, ?_⟩
  · rcases hdest with hdest | hserver
    · rcases hold.dest with hsame | hserver
      · exact .inl (hdest.trans hsame.symm)
      · exact .inr hserver
    · exact .inr hserver
  · intro c d ha
    obtain ⟨w, b, w', hmem', hrest⟩ := hparent c d ha
    exact ⟨w, b, w', mem_append_left _ hmem', hrest⟩

theorem Earned.now (hs : Steady s) (hn : Numbered s) (hl : Linked k s) (h : Grants s e s' src dest) :
    Earned (k ++ [(s, e, s')]) s' src dest := by
  refine ⟨s, e, s', by simp, h, rfl, .inl rfl, ?_⟩
  rintro c d rfl
  have hchild : isChildOf s.task src (s.current c) := by
    cases h with
    | spawner h | child h =>
      obtain ⟨⟨_, _, _, _, _, _, he, -⟩, -⟩ := h
      cases he
    | stdout h he =>
      obtain ⟨_, _, _, _, _, he⟩ := he
      cases he
    | delegate he hchild =>
      cases he
      exact hchild
  obtain ⟨v, a, v', hmem, hrest⟩ := hl.parent hn (current_occupied hs c) hchild
  exact ⟨v, a, v', mem_append_left _ hmem, hrest⟩

theorem trace_rights {s₀ : State M} (hb : Booted s₀) (h : Trace Step s₀ k s) :
    Steady s ∧ Numbered s ∧ Linked k s ∧
      ∀ src dest, (s.task src).delegated dest → Earned k s src dest := by
  induction h with
  | nil =>
    refine ⟨booted_steady hb, booted_numbered hb, ?_, ?_⟩
    all_goals
      obtain ⟨b, top, q, d, rfl⟩ := hb
      intro t
      simp only [bootState]
    · intro ht
      split at ht <;> exact absurd rfl ht
    · intro dest hright
      split at hright <;> cases hright
  | @snoc k s e s' _ hstep ih =>
    obtain ⟨hs, hn, hl, ih⟩ := ih
    have hstep' : step s e = some s' := hstep
    refine ⟨hs.step hstep', hn.step hs hstep', hl.step hs hstep', ?_⟩
    intro src dest hright
    rcases step_right hs hstep' hright with hold | hgrant
    · exact (ih src dest hold.held).step hold
    · exact .now hs hn hl hgrant

/-- **Send rights never reach strangers.**  A slot a task may send to is one that the static mask allows, or
the right was granted to this very task, for the occupant the target has now (or a server), because the one
spawned the other, because it is its standard output, or by its parent, which held the right then. -/
theorem send_rights {s₀ : State M} {k : List (State M × Entry M × State M)} (hb : Booted s₀)
    (h : Trace Step s₀ k s) (src : Slot) (n : Nat) (hsend : maySend s.task src n = true) :
    ∃ dest : Slot, n = dest.val ∧ (staticSend src dest = true ∨ Earned k s src dest) := by
  unfold maySend at hsend
  rw [Option.any_eq_true] at hsend
  obtain ⟨dest, hdest, hright⟩ := hsend
  refine ⟨dest, Slot.new_eq_some.1 hdest, ?_⟩
  unfold holdsSendRight at hright
  rw [Bool.or_eq_true] at hright
  rcases hright with hstatic | hright
  · exact .inl hstatic
  · exact .inr ((trace_rights hb h).2.2.2 src dest hright)

/-- the shell starts two tasks and gives the first its right to send to the second. -/
def siblingNamed : List (Entry twoCores) :=
  [stagesImage, spawnsChild, stagesImage, spawnsChild, asksFirst (.delegate 6 7)]

/-- the mask does not allow it, so it is earned. -/
theorem send_rights_sibling : maySend (after twoCoresBoot siblingNamed).task 6 7 = true ∧
    maySend (after twoCoresBoot siblingNamed).task 7 6 = false ∧ staticSend 6 7 = false ∧
    Earned (record twoCoresBoot siblingNamed) (after twoCoresBoot siblingNamed) 6 7 := by
  have hrun : Trace Step twoCoresBoot (record twoCoresBoot siblingNamed) (after twoCoresBoot siblingNamed) :=
    record_trace (by decide +kernel)
  have hsend : maySend (after twoCoresBoot siblingNamed).task 6 7 = true := by
    decide +kernel
  have hmask : staticSend 6 7 = false := by
    decide
  obtain ⟨dest, hdest, hwhy⟩ := send_rights twoCoresBoot_booted hrun 6 7 hsend
  have hseven : dest = 7 := Fin.ext hdest.symm
  subst hseven
  rcases hwhy with hstatic | hearned
  · rw [hmask] at hstatic
    cases hstatic
  · exact ⟨hsend, by decide +kernel, hmask, hearned⟩

end Rights

end Ouroboros.Kernel
