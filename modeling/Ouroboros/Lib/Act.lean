import Mathlib.Logic.Basic

/-!
# Steps over a state that may panic

* `Act σ α`  a step over states `σ` with a result; `none` is a panic;
* `Act.Total`  no panic, from any state;
* `Act.Keeps`  every way through the step relates the states around it;
* `Act.Ends`  from a state with one property, it ends in one with another, if it ends;
* `Act.Gives`  the step yields one result and leaves the state, up to a projection of it;
* `Act.Decides`  it yields whether a proposition holds.
-/

namespace Ouroboros

variable {σ τ : Type} {view : σ → τ} {v : τ}

def Act (σ α : Type) : Type := σ → Option (α × σ)

namespace Act

open Option

variable {α β : Type} {m : Act σ α} {f : α → Act σ β} {s : σ}

instance : Monad (Act σ) where
  pure a := fun s => some (a, s)
  bind m f := fun s => (m s).bind fun r => f r.1 r.2

def lift (x : Option α) : Act σ α := fun s => x.map (·, s)

theorem bind_apply (m : Act σ α) (f : α → Act σ β) (s : σ) : (m >>= f) s = (m s).bind fun r => f r.1 r.2 := rfl

theorem lift_some_bind (a : α) (f : α → Act σ β) : (lift (some a) >>= f) = f a := rfl

theorem bind_of_eq {t : σ} {a : α} (h : m s = some (a, t)) : (m >>= f) s = f a t := by
  rw [bind_apply, h, bind_some]

theorem bind_eq_some {s' : σ} {b : β} (h : (m >>= f) s = some (b, s')) :
    ∃ a t, m s = some (a, t) ∧ f a t = some (b, s') := by
  rw [bind_apply] at h
  obtain ⟨⟨a, t⟩, hm, hf⟩ := bind_eq_some_iff.1 h
  exact ⟨a, t, hm, hf⟩

/-! ## No panic -/

def Total (m : Act σ α) : Prop := ∀ s, ∃ a t, m s = some (a, t)

theorem Total.pure (a : α) : Total (Pure.pure a : Act σ α) := fun s => ⟨a, s, rfl⟩

theorem Total.bind (hm : Total m) (hf : ∀ a, Total (f a)) : Total (m >>= f) := by
  intro s
  obtain ⟨a, t, hm⟩ := hm s
  obtain ⟨b, u, hf⟩ := hf a t
  exact ⟨b, u, by rw [bind_apply, hm, bind_some, hf]⟩

theorem Total.ite {c : Prop} [Decidable c] {m' : Act σ α} (h : c → Total m) (h' : ¬ c → Total m') :
    Total (if c then m else m') := by
  split
  · exact h ‹_›
  · exact h' ‹_›

def Keeps (R : σ → σ → Prop) (m : Act σ α) : Prop := ∀ s a t, m s = some (a, t) → R s t

section Keeps
variable {R : σ → σ → Prop}

theorem Keeps.pure (hR : ∀ s, R s s) (a : α) : Keeps R (Pure.pure a : Act σ α) := by
  intro s b t h
  cases h
  exact hR s

theorem Keeps.lift (hR : ∀ s, R s s) (x : Option α) : Keeps R (Act.lift x) := by
  intro s b t h
  obtain ⟨_, _, hpair⟩ := map_eq_some_iff.1 h
  cases hpair
  exact hR s

theorem Keeps.bind_of (hR : ∀ s t u, R s t → R t u → R s u)
    (hm : Keeps R m) (hf : ∀ s a t, m s = some (a, t) → Keeps R (f a)) : Keeps R (m >>= f) := by
  intro s b u h
  obtain ⟨a, t, h₁, h₂⟩ := bind_eq_some h
  exact hR s t u (hm s a t h₁) (hf s a t h₁ t b u h₂)

end Keeps

/-! ## Before and after -/

def Ends (P : σ → Prop) (m : Act σ α) (Q : α → σ → Prop) : Prop := ∀ s a t, P s → m s = some (a, t) → Q a t

section Ends
variable {P : σ → Prop} {Q : α → σ → Prop}

theorem Ends.pure {a : α} (h : ∀ s, P s → Q a s) : Ends P (Pure.pure a) Q := by
  intro s b t hs hm
  cases hm
  exact h s hs

theorem Ends.bind {R : β → σ → Prop} (hm : Ends P m Q) (hf : ∀ a, Ends (Q a) (f a) R) : Ends P (m >>= f) R := by
  intro s b u hs h
  obtain ⟨a, t, h₁, h₂⟩ := bind_eq_some h
  exact hf a t b u (hm s a t hs h₁) h₂

theorem Ends.ite {c : Prop} [Decidable c] {n : Act σ α} (hm : c → Ends P m Q) (hn : ¬ c → Ends P n Q) :
    Ends P (if c then m else n) Q := by
  split
  · exact hm ‹_›
  · exact hn ‹_›

end Ends

/-! ## One result -/

def Gives {τ : Type} (view : σ → τ) (v : τ) (m : Act σ α) (a : α) : Prop :=
  ∀ s, view s = v → ∃ t, m s = some (a, t) ∧ view t = v

section Gives

theorem Gives.pure (a : α) : Gives view v (Pure.pure a : Act σ α) a := fun s hs => ⟨s, rfl, hs⟩

theorem Gives.bind {a : α} {b : β} (hm : Gives view v m a) (hf : Gives view v (f a) b) :
    Gives view v (m >>= f) b := by
  intro s hs
  obtain ⟨t, hm, ht⟩ := hm s hs
  obtain ⟨u, hf, hu⟩ := hf t ht
  exact ⟨u, by rw [bind_apply, hm, bind_some, hf], hu⟩

end Gives

def Decides {τ : Type} (view : σ → τ) (v : τ) (m : Act σ Bool) (P : Prop) : Prop :=
  ∃ b, Gives view v m b ∧ (b = true ↔ P)

section Decides
variable {P Q : Prop}

theorem Decides.pure (b : Bool) : Decides view v (Pure.pure b : Act σ Bool) (b) := ⟨b, Gives.pure b, Iff.rfl⟩

theorem Decides.yes (h : P) : Decides view v (Pure.pure true : Act σ Bool) P :=
  ⟨true, Gives.pure true, iff_of_true rfl h⟩

theorem Decides.no (h : ¬ P) : Decides view v (Pure.pure false : Act σ Bool) P :=
  ⟨false, Gives.pure false, iff_of_false Bool.false_ne_true h⟩

theorem Decides.congr {m : Act σ Bool} (h : Decides view v m P) (hiff : P ↔ Q) : Decides view v m Q := by
  obtain ⟨b, hb, hP⟩ := h
  exact ⟨b, hb, hP.trans hiff⟩

theorem Decides.bind {f : α → Act σ Bool} {a : α} (hm : Gives view v m a)
    (hf : Decides view v (f a) P) : Decides view v (m >>= f) P := by
  obtain ⟨b, hb, hP⟩ := hf
  exact ⟨b, hm.bind hb, hP⟩

theorem Decides.and {m n : Act σ Bool} (hm : Decides view v m P) (hn : Decides view v n Q) :
    Decides view v (do if ← m then n else Pure.pure false) (P ∧ Q) := by
  obtain ⟨b, hb, hP⟩ := hm
  cases b with
  | false => exact ⟨false, hb.bind (.pure false), nofun, fun h => hP.2 h.1⟩
  | true =>
    obtain ⟨c, hc, hQ⟩ := hn
    exact ⟨c, hb.bind hc, fun h => ⟨hP.1 rfl, hQ.1 h⟩, fun h => hQ.2 h.2⟩

theorem Decides.ite {c : Prop} [Decidable c] {m n : Act σ Bool} (hm : c → Decides view v m P)
    (hn : ¬ c → Decides view v n P) : Decides view v (if c then m else n) P := by
  split
  · exact hm ‹_›
  · exact hn ‹_›

theorem Decides.gives_false {m : Act σ Bool} (h : Decides view v m P) (hP : ¬ P) : Gives view v m false := by
  obtain ⟨b, hb, hiff⟩ := h
  cases b with
  | false => exact hb
  | true => exact absurd (hiff.1 rfl) hP

end Decides
end Act
end Ouroboros
