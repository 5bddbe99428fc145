import Ouroboros.Lib.Buffer

/-!
# Bytes by address

An image is a byte for every address.

* `read`, `write`  some bytes in a row;
* `read_write`  what is written is read back;
* `read_write_of_apart`  elsewhere nothing changes.
-/

namespace Ouroboros

abbrev Image := Nat → UInt8

namespace Image

open Buffer List

def read (s : Image) (off n : Nat) : List UInt8 := (range n).map fun i => s (off + i)

def write (s : Image) (off : Nat) (b : List UInt8) : Image := fun i =>
  if off ≤ i ∧ i < off + b.length then b.getD (i - off) 0 else s i

def num (s : Image) (off n : Nat) : Nat := ofLe (read s off n)

@[simp] theorem length_read (s : Image) (off n : Nat) : (read s off n).length = n := by
  rw [read, length_map, length_range]

variable {s : Image} {off n i : Nat} {b : List UInt8} {off' : Nat}

theorem getElem_read (h : i < (read s off n).length) : (read s off n)[i] = s (off + i) := by
  simp [read]

theorem write_inside (h : i < b.length) : write s off b (off + i) = b[i] := by
  rw [write, if_pos ⟨by omega, by omega⟩, Nat.add_sub_cancel_left]
  simp [h]

theorem write_outside (h : i < off ∨ off + b.length ≤ i) : write s off b i = s i := by
  rw [write, if_neg (by omega)]

theorem read_congr {t : Image} (h : ∀ i, off ≤ i → i < off + n → s i = t i) : read s off n = read t off n := by
  refine map_congr_left fun i hi => h _ (by omega) ?_
  have := mem_range.1 hi
  omega

theorem read_add (s : Image) (off n m : Nat) : read s off (n + m) = read s off n ++ read s (off + n) m := by
  simp only [read, range_add, map_append, map_map, Function.comp_def, Nat.add_assoc]

theorem slice_read {j : Nat} (h : j ≤ n) : slice (read s 0 n) i j = read s i (j - i) := by
  refine ext_getElem (by simp [slice, h]) fun k h₁ h₂ => ?_
  simp only [slice, getElem_drop, getElem_take, getElem_read, Nat.zero_add]

theorem read_write (hn : b.length = n) : read (write s off b) off n = b := by
  refine ext_getElem (by rw [length_read, hn]) fun i h₁ h₂ => ?_
  rw [getElem_read, write_inside h₂]

theorem read_write_of_apart (h : off' + n ≤ off ∨ off + b.length ≤ off') :
    read (write s off b) off' n = read s off' n :=
  read_congr fun i h₁ h₂ => write_outside (by omega)

theorem num_lt (s : Image) (off n : Nat) : num s off n < 256 ^ n := by
  have := ofLe_lt (read s off n)
  rwa [length_read] at this

theorem num_write {v : Nat} : num (write s off (le n v)) off n = v % 256 ^ n := by
  rw [num, read_write (length_le n v), ofLe_le_mod]

theorem num_write_of_apart (h : off' + n ≤ off ∨ off + b.length ≤ off') :
    num (write s off b) off' n = num s off' n := by
  rw [num, read_write_of_apart h, num]

end Image
end Ouroboros
