import Mathlib.Data.BitVec
import Mathlib.Tactic.Ring

/-!
# Serial numbers

Numbers of `w` bits that count on past their largest value, compared by the sign of their difference.

* `ahead b n`  the number `n` places after `b`;
* `gt_ahead`  places less than half the circle apart compare as natural numbers;
* `between`  what lies after one place and not after another is a place between them.
-/

namespace Ouroboros.Serial

variable {w : Nat} {n m : Nat}

def ahead (b : BitVec w) (n : Nat) : BitVec w := b + BitVec.ofNat w n

/-- `a` comes after `b`: their difference, read with a sign, is positive. -/
def gt (a b : BitVec w) : Bool := decide (0 < (a - b).toInt)

@[simp] theorem ahead_zero (b : BitVec w) : ahead b 0 = b := by simp [ahead]

@[simp] theorem ahead_ahead (b : BitVec w) (m n : Nat) : ahead (ahead b m) n = ahead b (m + n) := by
  simp [ahead, BitVec.ofNat_add, BitVec.add_assoc]

variable (b : BitVec w)
include b

theorem ahead_sub_base (n : Nat) : ahead b n - b = BitVec.ofNat w n := by
  rw [ahead, BitVec.add_comm, BitVec.add_sub_cancel]

theorem toNat_ahead_sub_base (h : n < 2 ^ w) : (ahead b n - b).toNat = n := by
  rw [ahead_sub_base, BitVec.toNat_ofNat, Nat.mod_eq_of_lt h]

theorem ahead_sub_ahead (h : n ≤ m) : ahead b m - ahead b n = BitVec.ofNat w (m - n) := by
  obtain ⟨d, rfl⟩ := Nat.exists_eq_add_of_le h
  rw [← ahead_ahead, ahead_sub_base, Nat.add_sub_cancel_left]

theorem toNat_ahead_sub_ahead (h : n ≤ m) (hw : m - n < 2 ^ w) : (ahead b m - ahead b n).toNat = m - n := by
  rw [ahead_sub_ahead b h, BitVec.toNat_ofNat, Nat.mod_eq_of_lt hw]

omit b in
theorem eq_ahead (b x : BitVec w) : x = ahead b (x - b).toNat := by
  rw [ahead, BitVec.ofNat_toNat, BitVec.setWidth_eq, BitVec.add_comm, BitVec.sub_add_cancel]

theorem ahead_inj (hm : m < 2 ^ w) (hn : n < 2 ^ w) (h : ahead b m = ahead b n) : m = n := by
  rw [← toNat_ahead_sub_base b hm, h, toNat_ahead_sub_base b hn]

/-! ## Comparison -/

omit b in
theorem gt_iff (a b : BitVec w) : gt a b ↔ 0 < (a - b).toNat ∧ 2 * (a - b).toNat < 2 ^ w := by
  have hlt := (a - b).isLt
  rw [gt, decide_eq_true_iff, BitVec.toInt_eq_toNat_cond]
  split <;> omega

theorem gt_base (h : 2 * n < 2 ^ w) : gt (ahead b n) b ↔ 0 < n := by
  rw [gt_iff, toNat_ahead_sub_base b (by omega)]
  omega

theorem not_base_gt (h : 2 * n < 2 ^ w) : gt b (ahead b n) = false := by
  rw [Bool.eq_false_iff, Ne, gt_iff, not_and]
  intro h0
  have hneg : b - ahead b n = -BitVec.ofNat w n := by
    rw [ahead]
    ring
  rw [hneg, BitVec.toNat_neg, BitVec.toNat_ofNat, Nat.mod_eq_of_lt (by omega : n < 2 ^ w)] at h0 ⊢
  by_cases hn : n = 0
  · subst hn
    simp at h0
  · rw [Nat.mod_eq_of_lt (by omega)]
    omega

/-- **Places less than half the circle apart compare as natural numbers.** -/
theorem gt_ahead (h₁ : 2 * (m - n) < 2 ^ w) (h₂ : 2 * (n - m) < 2 ^ w) : gt (ahead b m) (ahead b n) ↔ n < m := by
  rcases Nat.le_total n m with h | h
  · obtain ⟨d, rfl⟩ := Nat.exists_eq_add_of_le h
    rw [← ahead_ahead, gt_base _ (by omega)]
    omega
  obtain ⟨d, rfl⟩ := Nat.exists_eq_add_of_le h
  rw [← ahead_ahead, not_base_gt _ (by omega)]
  simp

/-- **What comes after place `m` and not after place `n` lies between them.** -/
theorem between {a : BitVec w} (hmn : m ≤ n) (hw : 2 * (n - m) < 2 ^ w)
    (hm : gt a (ahead b m)) (hn : gt a (ahead b n) = false) : ∃ k, m < k ∧ k ≤ n ∧ a = ahead b k := by
  obtain ⟨h0, hlt⟩ := (gt_iff _ _).1 hm
  have ha := eq_ahead (ahead b m) a
  rw [ahead_ahead] at ha
  generalize (a - ahead b m).toNat = d at ha h0 hlt
  refine ⟨m + d, by omega, ?_, ha⟩
  by_contra hgt
  rw [ha] at hn
  have := (gt_ahead b (m := m + d) (n := n) (by omega) (by omega)).2 (by omega)
  rw [this] at hn
  cases hn

end Ouroboros.Serial
