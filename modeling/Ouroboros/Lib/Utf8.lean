import Mathlib.Data.List.Basic

/-!
# UTF-8

Which bytes are a `str`, read one at a time.

* `valid`  the bytes are UTF-8;
* `valid_append_ascii`  an ASCII byte is a character of its own: what stands before it is valid and what stands
  after it is.
-/

namespace Ouroboros.Utf8

/-- how many bytes of a character are still to come, and which may be next. -/
inductive Reader where
  | start
  | one
  | two
  | three
  | afterE0
  | afterED
  | afterF0
  | afterF4
deriving DecidableEq, Repr

def isCont (b : UInt8) : Bool := 0x80 ≤ b && b ≤ 0xbf

def lead (b : UInt8) : Option Reader :=
  if b < 0x80 then some .start
  else if 0xc2 ≤ b ∧ b ≤ 0xdf then some .one
  else if b = 0xe0 then some .afterE0
  else if b = 0xed then some .afterED
  else if 0xe1 ≤ b ∧ b ≤ 0xef then some .two
  else if b = 0xf0 then some .afterF0
  else if 0xf1 ≤ b ∧ b ≤ 0xf3 then some .three
  else if b = 0xf4 then some .afterF4
  else none

def next (r : Reader) (b : UInt8) : Option Reader :=
  match r with
  | .start => lead b
  | .one => if isCont b then some .start else none
  | .two => if isCont b then some .one else none
  | .three => if isCont b then some .two else none
  | .afterE0 => if 0xa0 ≤ b ∧ b ≤ 0xbf then some .one else none
  | .afterED => if 0x80 ≤ b ∧ b ≤ 0x9f then some .one else none
  | .afterF0 => if 0x90 ≤ b ∧ b ≤ 0xbf then some .two else none
  | .afterF4 => if 0x80 ≤ b ∧ b ≤ 0x8f then some .two else none

def validFrom : Reader → List UInt8 → Bool
  | r, [] => r = .start
  | r, b :: bs =>
    match next r b with
    | some r => validFrom r bs
    | none => false

/-- `core::str::from_utf8` succeeds. -/
def valid (b : List UInt8) : Bool := validFrom .start b

variable {c : UInt8}

theorem next_ascii (r : Reader) (hc : c < 0x80) : next r c = if r = .start then some .start else none := by
  have hlead : ∀ b : UInt8, b < 0x80 → lead b = some .start := fun b hb => if_pos hb
  have hcont : ∀ b : UInt8, b < 0x80 → ¬ 0x80 ≤ b := fun b hb => UInt8.not_le.2 hb
  have hlow : ∀ k b : UInt8, 0x80 ≤ k → b < 0x80 → ¬ k ≤ b :=
    fun k b hk hb hle => hcont b hb (UInt8.le_trans hk hle)
  have hno : isCont c = false := by simp [isCont, hcont c hc]
  cases r with
  | start => exact hlead c hc
  | one | two | three => simp [next, hno]
  | afterE0 => simp [next, hlow 0xa0 c (by decide) hc]
  | afterED | afterF4 => simp [next, hcont c hc]
  | afterF0 => simp [next, hlow 0x90 c (by decide) hc]

theorem validFrom_append_ascii (r : Reader) (a : List UInt8) (hc : c < 0x80) (b : List UInt8) :
    validFrom r (a ++ c :: b) = (validFrom r a && valid b) := by
  induction a generalizing r with
  | nil =>
    have hstep := next_ascii r hc
    by_cases hr : r = .start
    · rw [if_pos hr] at hstep
      subst hr
      simp [validFrom, hstep, valid]
    · rw [if_neg hr] at hstep
      simp [validFrom, hstep, hr]
  | cons x xs ih =>
    rw [List.cons_append, validFrom, validFrom]
    cases next r x with
    | none => rfl
    | some r' => exact ih r'

theorem valid_append_ascii (a : List UInt8) (hc : c < 0x80) (b : List UInt8) :
    valid (a ++ c :: b) = (valid a && valid b) :=
  validFrom_append_ascii .start a hc b

end Ouroboros.Utf8
