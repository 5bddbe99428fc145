import Mathlib.Data.List.Basic

/-!
# Sequencing in `Except`

Inversion of `>>=`: what a successful sequence of fallible steps says about its parts.  `Agree`: two
sequences that are the same step by step, with what each step leaves for the next.
-/

namespace Ouroboros

variable {ε α β : Type}

theorem except_bind_eq_ok {x : Except ε α} {f : α → Except ε β} {b : β} (h : x >>= f = .ok b) :
    ∃ a, x = .ok a ∧ f a = .ok b := by
  cases x with
  | error e => cases h
  | ok a => exact ⟨a, rfl, h⟩

/-- the two are the same, and `Q` holds of a result -/
structure Agree (x y : Except ε α) (Q : α → Prop) : Prop where
  eq : x = y
  post : ∀ a, y = .ok a → Q a

namespace Agree
variable {x y : Except ε α} {f g : α → Except ε β} {Q R : α → Prop} {S : β → Prop}

theorem error {e : ε} : Agree (.error e) (.error e) Q := ⟨rfl, by rintro a ⟨⟩⟩

theorem ok {a : α} (h : Q a) : Agree (ε := ε) (.ok a) (.ok a) Q := ⟨rfl, by rintro b ⟨⟩; exact h⟩

theorem mono (h : Agree x y Q) (hQ : ∀ a, Q a → R a) : Agree x y R := ⟨h.eq, fun a ha => hQ a (h.post a ha)⟩

theorem bind (h : Agree x y Q) (hf : ∀ a, Q a → Agree (f a) (g a) S) : Agree (x >>= f) (y >>= g) S := by
  obtain ⟨rfl, hpost⟩ := h
  cases x with
  | error e => exact .error
  | ok a => exact hf a (hpost a rfl)

end Agree

end Ouroboros
