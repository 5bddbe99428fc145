import Mathlib.Data.List.Basic
import Mathlib.Tactic.Ring

/-!
# Byte buffers

* `slice b i j`  the bytes of `b` from `i` up to `j`;
* `put b off d`  `b` with `d` written at `off`;
* `le n v`, `ofLe`  little-endian numbers, each the inverse of the other on what fits.
-/

namespace Ouroboros.Buffer

open List Nat

section List
variable {α : Type*} {b d : List α} {i j off n : Nat}

def slice (b : List α) (i j : Nat) : List α := (b.take j).drop i

def put (b : List α) (off : Nat) (d : List α) : List α := b.take off ++ d ++ b.drop (off + d.length)

theorem length_slice (h : j ≤ b.length) : (slice b i j).length = j - i := by
  rw [slice, length_drop, length_take, min_eq_left h]

theorem slice_append_right (a b : List α) (i j : Nat) :
    slice (a ++ b) (a.length + i) (a.length + j) = slice b i j := by
  rw [slice, slice, take_length_add_append, drop_length_add_append]

theorem slice_append_left {a : List α} (b : List α) (h : j ≤ a.length) : slice (a ++ b) i j = slice a i j := by
  rw [slice, slice, take_append_of_le_length h]

theorem slice_full (a : List α) : slice a 0 a.length = a := by
  rw [slice, take_length, drop_zero]

theorem slice_mid {a b : List α} (c : List α) {i j : Nat} (hi : i = a.length) (hj : j = a.length + b.length) :
    slice (a ++ b ++ c) i j = b := by
  have h := slice_append_right a (b ++ c) 0 b.length
  rw [slice_append_left c le_rfl, slice_full, ← append_assoc] at h
  rw [hi, hj]
  simpa using h

theorem length_put (h : off + d.length ≤ b.length) : (put b off d).length = b.length := by
  simp only [put, length_append, length_take, length_drop]
  omega

theorem take_put (h : off ≤ b.length) (hn : n = off + d.length) : (put b off d).take n = b.take off ++ d := by
  have hlen : n = (b.take off ++ d).length := by
    rw [length_append, length_take, min_eq_left h, hn]
  rw [put, take_append_of_le_length hlen.le, hlen, take_length]

theorem drop_put (h : off ≤ b.length) (hn : off + d.length ≤ n) : (put b off d).drop n = b.drop n := by
  have hlen : (b.take off ++ d).length = off + d.length := by
    rw [length_append, length_take, min_eq_left h]
  rw [put, drop_append, drop_eq_nil_of_le (by omega), nil_append, drop_drop, hlen]
  congr 1
  omega

end List

/-! ## Little-endian numbers -/

/-- the `n` bytes of `v`, lowest first. -/
def le : Nat → Nat → List UInt8
  | 0, _ => []
  | n + 1, v => UInt8.ofNat v :: le n (v / 256)

def ofLe : List UInt8 → Nat
  | [] => 0
  | b :: bs => b.toNat + 256 * ofLe bs

@[simp] theorem length_le (n v : Nat) : (le n v).length = n := by
  induction n generalizing v with
  | zero => rfl
  | succ n ih => simp [le, ih]

theorem ofLe_le_mod (n v : Nat) : ofLe (le n v) = v % 256 ^ n := by
  induction n generalizing v with
  | zero => simp [le, ofLe, mod_one]
  | succ n ih =>
    have hbyte : (UInt8.ofNat v).toNat = v % 256 := UInt8.toNat_ofNat'
    rw [le, ofLe, ih, hbyte, pow_succ', mod_mul]

theorem ofLe_le {n v : Nat} (h : v < 256 ^ n) : ofLe (le n v) = v := by
  rw [ofLe_le_mod, mod_eq_of_lt h]

theorem ofLe_lt (b : List UInt8) : ofLe b < 256 ^ b.length := by
  induction b with
  | nil => simp [ofLe]
  | cons x xs ih =>
    have hx := x.toNat_lt
    rw [ofLe, length_cons, pow_succ']
    omega

end Ouroboros.Buffer
