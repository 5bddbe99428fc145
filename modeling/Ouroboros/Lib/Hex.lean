import Mathlib.Data.Fintype.Basic

/-!
# Hexadecimal text

* `digit`, `decode`  digits of either case, two to a byte;
* `encode`  lower case; `decode_encode` is the round trip.
-/

namespace Ouroboros.Hex

open List

def digit (c : UInt8) : Option UInt8 :=
  if 48 ≤ c ∧ c ≤ 57 then some (c - 48)
  else if 97 ≤ c ∧ c ≤ 102 then some (c - 97 + 10)
  else if 65 ≤ c ∧ c ≤ 70 then some (c - 65 + 10)
  else none

def decode : List UInt8 → Option (List UInt8)
  | [] => some []
  | [_] => none
  | hi :: lo :: rest =>
    match digit hi, digit lo, decode rest with
    | some h, some l, some bs => some ((h <<< 4 ||| l) :: bs)
    | _, _, _ => none

def char (n : UInt8) : UInt8 := if n < 10 then n + 48 else n + 87

def encode (b : List UInt8) : List UInt8 := b.flatMap fun x : UInt8 => [char (x >>> 4), char (x &&& 15)]

theorem forall_byte {p : UInt8 → Prop} [DecidablePred p] (h : ∀ n : Fin 256, p (UInt8.ofNat n.val))
    (x : UInt8) : p x := by
  have hx := h ⟨x.toNat, x.toNat_lt⟩
  rwa [UInt8.ofNat_toNat] at hx

theorem digit_char (x : UInt8) :
    digit (char (x >>> 4)) = some (x >>> 4) ∧ digit (char (x &&& 15)) = some (x &&& 15) ∧
      (x >>> 4) <<< 4 ||| (x &&& 15) = x := by
  revert x
  exact forall_byte (by decide +kernel)

@[simp] theorem decode_encode (b : List UInt8) : decode (encode b) = some b := by
  induction b with
  | nil => rfl
  | cons x xs ih =>
    obtain ⟨hhi, hlo, hx⟩ := digit_char x
    change decode (char (x >>> 4) :: char (x &&& 15) :: encode xs) = _
    simp only [decode, hhi, hlo, ih, hx]

@[simp] theorem length_encode (b : List UInt8) : (encode b).length = 2 * b.length := by
  induction b with
  | nil => rfl
  | cons x xs ih =>
    change (encode xs).length + 1 + 1 = _
    rw [ih, length_cons]
    omega

theorem digit_of_mem_encode {b : List UInt8} {c : UInt8} (h : c ∈ encode b) : digit c ≠ none := by
  obtain ⟨x, -, hx⟩ := mem_flatMap.1 h
  obtain ⟨hhi, hlo, -⟩ := digit_char x
  rcases mem_pair.1 hx with rfl | rfl
  · rw [hhi]
    exact Option.some_ne_none _
  · rw [hlo]
    exact Option.some_ne_none _

theorem length_decode {hex b : List UInt8} (h : decode hex = some b) : hex.length = 2 * b.length := by
  fun_induction decode hex generalizing b with
  | case1 =>
    cases h
    rfl
  | case2 => cases h
  | case3 hi lo rest hd ld bs hrest hlo hhi ih =>
    cases h
    rw [length_cons, length_cons, ih hrest, length_cons]
    omega
  | case4 => cases h

end Ouroboros.Hex
