import Ouroboros.Lib.Buffer

/-!
# Operations that may panic

`none` is a panic: a range that is reversed or out of bounds, a 64-bit sum that overflows.
-/

namespace Ouroboros.Checked

open Buffer

variable {α : Type*}

def slice? (b : List α) (i j : Nat) : Option (List α) :=
  if i ≤ j ∧ j ≤ b.length then some (slice b i j) else none

def add? (a b : Nat) : Option Nat := if a + b < 2 ^ 64 then some (a + b) else none

def readU64? (b : List UInt8) (off : Nat) : Option Nat := (slice? b off (off + 8)).map ofLe

theorem slice?_eq {b : List α} {i j : Nat} (hij : i ≤ j) (hj : j ≤ b.length) :
    slice? b i j = some (slice b i j) :=
  if_pos ⟨hij, hj⟩

theorem add?_eq {a b : Nat} (h : a + b < 2 ^ 64) : add? a b = some (a + b) := if_pos h

theorem readU64?_eq {b : List UInt8} {off : Nat} (h : off + 8 ≤ b.length) :
    readU64? b off = some (ofLe (slice b off (off + 8))) := by
  rw [readU64?, slice?_eq (by omega) h, Option.map_some]

end Ouroboros.Checked
