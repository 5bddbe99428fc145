import Mathlib.Data.List.Nodup

/-!
# A bounded pool of slots

`n` slots handed out in order, each to one key.

* `index?`, `owner`  the slot of a key and the key of a slot, each the inverse of the other;
* `claim`  the pool with a slot for a key, if one is left;
* `claimAll`  the same for a list of keys.
-/

namespace Ouroboros

structure Pool (κ : Type) (n : Nat) where
  keys : List κ
  le : keys.length ≤ n
  nodup : keys.Nodup

namespace Pool

open List

variable {κ : Type} {n : Nat} {p q : Pool κ n} {k : κ} {i : Fin n}

def empty : Pool κ n := ⟨[], Nat.zero_le _, nodup_nil⟩

def owner (p : Pool κ n) (i : Fin n) : Option κ := p.keys[i.val]?

def entries (p : Pool κ n) : List (Fin n × κ) :=
  (List.finRange n).filterMap fun i => (p.owner i).map fun k => (i, k)

theorem mem_of_owner (h : p.owner i = some k) : k ∈ p.keys := mem_of_getElem? h

theorem mem_entries : (i, k) ∈ p.entries ↔ p.owner i = some k := by
  unfold entries
  constructor
  · intro h
    obtain ⟨j, -, hj⟩ := mem_filterMap.1 h
    obtain ⟨k', hk', heq⟩ := Option.map_eq_some_iff.1 hj
    cases heq
    exact hk'
  · intro h
    exact mem_filterMap.2 ⟨i, mem_finRange i, by rw [h]; rfl⟩

variable [DecidableEq κ]

def index? (p : Pool κ n) (k : κ) : Option (Fin n) :=
  if h : k ∈ p.keys then some ⟨p.keys.idxOf k, Nat.lt_of_lt_of_le (idxOf_lt_length_of_mem h) p.le⟩
  else none

def claim (p : Pool κ n) (k : κ) : Option (Pool κ n) :=
  if h : k ∈ p.keys then some p
  else if hlt : p.keys.length < n then
    some {
      keys := p.keys ++ [k]
      le := by
        rw [length_append]
        exact hlt
      nodup := by
        rw [← concat_eq_append]
        exact p.nodup.concat h }
  else none

def claimAll (p : Pool κ n) (ks : List κ) : Option (Pool κ n) := ks.foldlM claim p

/-! ## Keys and slots -/

theorem index?_eq_some : p.index? k = some i ↔ p.owner i = some k := by
  unfold index? owner
  constructor
  · intro h
    split at h
    · rename_i hk
      cases h
      exact getElem?_idxOf hk
    · cases h
  · intro h
    have hk : k ∈ p.keys := mem_of_getElem? h
    obtain ⟨hi, rfl⟩ := List.getElem?_eq_some_iff.1 h
    rw [dif_pos hk]
    exact congrArg some (Fin.ext (p.nodup.idxOf_getElem _ hi))

theorem index?_eq_none : p.index? k = none ↔ k ∉ p.keys := by
  unfold index?
  constructor
  · intro h hk
    rw [dif_pos hk] at h
    cases h
  · exact fun hk => dif_neg hk

theorem exists_index? (h : k ∈ p.keys) : ∃ i, p.index? k = some i := ⟨_, dif_pos h⟩

/-! ## Claiming -/

theorem mem_claim {k' : κ} (h : p.claim k = some q) : k' ∈ q.keys ↔ k' = k ∨ k' ∈ p.keys := by
  unfold claim at h
  split at h
  · rename_i hk
    cases h
    constructor
    · exact .inr
    · rintro (rfl | h)
      · exact hk
      · exact h
  · split at h
    · cases h
      rw [mem_append, mem_singleton, or_comm]
    · cases h

theorem owner_claim {k' : κ} (h : p.claim k = some q) (hi : p.owner i = some k') : q.owner i = some k' := by
  unfold claim at h
  split at h
  · cases h
    exact hi
  split at h
  · cases h
    exact (List.getElem?_append_left (List.getElem?_eq_some_iff.1 hi).1).trans hi
  · cases h

theorem mem_claimAll {ks : List κ} (h : p.claimAll ks = some q) : k ∈ q.keys ↔ k ∈ ks ∨ k ∈ p.keys := by
  induction ks generalizing p with
  | nil =>
    cases h
    simp
  | cons k₀ ks ih =>
    have hbind : (p.claim k₀).bind (claimAll · ks) = some q := h
    obtain ⟨p', hp', hq⟩ := Option.bind_eq_some_iff.1 hbind
    rw [ih hq, mem_claim hp', mem_cons]
    tauto

end Pool

end Ouroboros
