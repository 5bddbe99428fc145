import Ouroboros.Fsd.Paths
import Mathlib.Data.List.Induction

/-!
# The table of open files

* `Fid`  an entry of the table: who opened which path, on which tree, with which flags;
* `FidOp`  everything that changes the table;
* `FidOp.apply`  what it does to it;
* `opened_of_used`  an entry found after any history was written by an open, and nothing since took it away; if
  it is not dead, its tree was not emptied since.
-/

namespace Ouroboros.Fsd

open Function List

def maxMounts : Nat := 5
def maxFids : Nat := 8

def taskIdSlot (id : Nat) : Nat := id % 2 ^ 8

structure Fid where
  owner : Nat
  flags : Nat
  ownerUid : Nat
  tree : Fin maxMounts
  dead : Bool
  path : Bytes
deriving DecidableEq, Repr

abbrev Fids := Fin maxFids → Option Fid

/-- `reap_dead_fids`, with what TASK_IDENTITY answers. -/
def reapDeadFids (identity : Nat → Nat) (fids : Fids) : Fids := fun i =>
  (fids i).filter fun f => identity (taskIdSlot f.owner) = f.owner

inductive FidOp where
  | opened (slot : Fin maxFids) (fid : Fid)
  | clunked (slot : Fin maxFids)
  | forgotten (slot : Fin maxFids)
  | reaped (identity : Nat → Nat)
  | unmounted (empty : Fin maxMounts → Bool)

namespace FidOp

def apply (fids : Fids) : FidOp → Fids
  | opened slot fid => update fids slot (some fid)
  | clunked slot => update fids slot none
  | forgotten slot => update fids slot none
  | reaped identity => reapDeadFids identity fids
  | unmounted empty => fun i => (fids i).map fun f => if empty f.tree then { f with dead := true } else f

def Takes (slot : Fin maxFids) (fid : Fid) : FidOp → Prop
  | opened i _ | clunked i | forgotten i => i = slot
  | reaped identity => identity (taskIdSlot fid.owner) ≠ fid.owner
  | unmounted _ => False

def Empties (tree : Fin maxMounts) : FidOp → Prop
  | unmounted empty => empty tree = true
  | _ => False

end FidOp

/-- the same open file; only whether its volume is gone may differ. -/
structure Fid.Same (f g : Fid) : Prop where
  owner : f.owner = g.owner
  flags : f.flags = g.flags
  ownerUid : f.ownerUid = g.ownerUid
  tree : f.tree = g.tree
  path : f.path = g.path

variable {f : Fid} {slot : Fin maxFids}

theorem Fid.Same.refl (f : Fid) : f.Same f := ⟨rfl, rfl, rfl, rfl, rfl⟩

theorem Fid.Same.trans {g k : Fid} (h : f.Same g) (h' : g.Same k) : f.Same k :=
  ⟨h.owner.trans h'.owner, h.flags.trans h'.flags, h.ownerUid.trans h'.ownerUid, h.tree.trans h'.tree,
    h.path.trans h'.path⟩

theorem FidOp.apply_eq_some {op : FidOp} {fids : Fids} (h : op.apply fids slot = some f) : op = .opened slot f ∨
      ∃ g, fids slot = some g ∧ f.Same g ∧ ¬ op.Takes slot g ∧
        (f.dead = false → g.dead = false ∧ ¬ op.Empties g.tree) := by
  cases op with
  | opened i fid =>
    by_cases hi : i = slot
    · subst hi
      rw [apply, update_self] at h
      cases h
      exact .inl rfl
    · rw [apply, update_of_ne (Ne.symm hi)] at h
      exact .inr ⟨f, h, .refl f, hi, fun hd => ⟨hd, id⟩⟩
  | clunked i | forgotten i =>
    by_cases hi : i = slot
    · subst hi
      rw [apply, update_self] at h
      cases h
    · rw [apply, update_of_ne (Ne.symm hi)] at h
      exact .inr ⟨f, h, .refl f, hi, fun hd => ⟨hd, id⟩⟩
  | reaped identity =>
    obtain ⟨h, hid⟩ := Option.filter_eq_some_iff.1 h
    exact .inr ⟨f, h, .refl f, fun ht => ht (of_decide_eq_true hid), fun hd => ⟨hd, id⟩⟩
  | unmounted empty =>
    obtain ⟨g, hg, rfl⟩ := Option.map_eq_some_iff.1 h
    by_cases he : empty g.tree
    · rw [if_pos he]
      exact .inr ⟨g, hg, ⟨rfl, rfl, rfl, rfl, rfl⟩, id, nofun⟩
    · rw [if_neg he]
      exact .inr ⟨g, hg, .refl g, id, fun hd => ⟨hd, he⟩⟩

/-- the table after a history, whose operations stand beside what they were part of. -/
def replay {τ : Type} (fids : Fids) (log : List (τ × FidOp)) : Fids :=
  log.foldl (fun fids e => e.2.apply fids) fids

/-- **Who wrote an entry.** -/
theorem opened_of_used {τ : Type} (log : List (τ × FidOp)) (h : replay (fun _ => none) log slot = some f) :
    ∃ before after t fid, log = before ++ (t, .opened slot fid) :: after ∧ f.Same fid ∧
      (∀ e ∈ after, ¬ e.2.Takes slot fid) ∧
      (f.dead = false → fid.dead = false ∧ ∀ e ∈ after, ¬ e.2.Empties fid.tree) := by
  -- over the history from its newest operation
  induction log using reverseRecOn generalizing f with
  | nil => cases h
  | append_singleton log e ih =>
    obtain ⟨t, op⟩ := e
    rw [replay, foldl_append] at h
    obtain rfl | ⟨g, hg, hfg, htake, hlive⟩ := FidOp.apply_eq_some h
    · exact ⟨log, [], t, f, rfl, .refl f, nofun, fun hd => ⟨hd, nofun⟩⟩
    obtain ⟨before, after, t', fid, rfl, hgf, htakes, hempties⟩ := ih hg
    have htake' : ¬ op.Takes slot fid := by
      cases op <;> simpa only [FidOp.Takes, hgf.owner] using htake
    refine ⟨before, after ++ [(t, op)], t', fid, by simp, hfg.trans hgf, ?_, fun hd => ?_⟩
    · exact forall_mem_append.2 ⟨htakes, forall_mem_singleton.2 htake'⟩
    obtain ⟨hd, hempty⟩ := hlive hd
    obtain ⟨hd, hafter⟩ := hempties hd
    rw [hgf.tree] at hempty
    exact ⟨hd, forall_mem_append.2 ⟨hafter, forall_mem_singleton.2 hempty⟩⟩

end Ouroboros.Fsd
