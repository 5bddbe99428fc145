import Mathlib.Data.List.Basic
import Mathlib.Logic.Function.Iterate

/-!
# Depth-first search over an explicit stack, with a step budget

A machine is a function `step : σ → Outcome σ`: a state accepts, fails, moves on, or offers two
states of which the first is tried first.  `explore` runs it with one state in hand, the untried alternatives on
a stack of bounded height, and a budget of executed states.

* `Winning step s`, `Live step l`  some run from `s`, or from a state of `l`, accepts;
* `explore_spec`  after `yes` the states in hand and on the stack are live, after `no` they are not;
* `move`, `Halts`  the search without its limits, and that it comes to an answer;
* `halts_of_ends`  it does, where no choices go on for ever.
-/

namespace Ouroboros.Backtrack

open List

inductive Outcome (σ : Type) where
  | accept
  | fail
  | goto (s : σ)
  | fork (s t : σ)

inductive Verdict where
  | yes
  | no
  | limit
deriving DecidableEq, Repr

section
variable {σ : Type} (step : σ → Outcome σ)

/-- `explore step cap budget steps s st`: the verdict and the number of executed states, when
`steps` states were executed before, `s` is in hand and `st` is the stack -/
def explore (cap : Nat) : Nat → Nat → σ → List σ → Verdict × Nat
  | 0, steps, _, _ => (.limit, steps + 1)
  | budget + 1, steps, s, st =>
    match step s with
    | .accept => (.yes, steps + 1)
    | .goto t => explore cap budget (steps + 1) t st
    | .fork t u =>
      if cap ≤ st.length then (.limit, steps + 1)
      else explore cap budget (steps + 1) t (u :: st)
    | .fail =>
      match st with
      | [] => (.no, steps + 1)
      | u :: rest => explore cap budget (steps + 1) u rest

/-- some sequence of choices accepts from `s` after exactly `k` moves -/
inductive Accepts : Nat → σ → Prop where
  | accept {s : σ} : step s = .accept → Accepts 0 s
  | goto {s t : σ} {k : Nat} : step s = .goto t → Accepts k t → Accepts (k + 1) s
  | left {s t u : σ} {k : Nat} : step s = .fork t u → Accepts k t → Accepts (k + 1) s
  | right {s t u : σ} {k : Nat} : step s = .fork t u → Accepts k u → Accepts (k + 1) s

/-- one round of the search without its limits; `none` after an answer -/
def move : σ × List σ → Option (σ × List σ)
  | (s, st) =>
    match step s with
    | .accept => none
    | .goto t => some (t, st)
    | .fork t u => some (t, u :: st)
    | .fail =>
      match st with
      | [] => none
      | u :: rest => some (u, rest)

/-- the search with `s` in hand and `st` on the stack comes to an answer -/
def Halts (s : σ) (st : List σ) : Prop := ∃ n, (Option.bind · (move step))^[n] (some (s, st)) = none

/-- no choices from `s` go on for ever -/
inductive Ends : σ → Prop where
  | accept {s : σ} : step s = .accept → Ends s
  | fail {s : σ} : step s = .fail → Ends s
  | goto {s t : σ} : step s = .goto t → Ends t → Ends s
  | fork {s t u : σ} : step s = .fork t u → Ends t → Ends u → Ends s

variable {step}

theorem Accepts.inv {s : σ} {k : Nat} (h : Accepts step k s) : match step s with
    | .accept => True
    | .goto t => ∃ j, k = j + 1 ∧ Accepts step j t
    | .fork t u => ∃ j, k = j + 1 ∧ (Accepts step j t ∨ Accepts step j u)
    | .fail => False := by
  cases h with
  | accept hs => rw [hs]; trivial
  | goto hs h => rw [hs]; exact ⟨_, rfl, h⟩
  | left hs h => rw [hs]; exact ⟨_, rfl, .inl h⟩
  | right hs h => rw [hs]; exact ⟨_, rfl, .inr h⟩

theorem Accepts.of_goto {s t : σ} {k : Nat} (h : Accepts step k s) (hs : step s = .goto t) :
    ∃ j, k = j + 1 ∧ Accepts step j t := by
  simpa only [hs] using h.inv

theorem Accepts.of_fork {s t u : σ} {k : Nat} (h : Accepts step k s) (hs : step s = .fork t u) :
    ∃ j, k = j + 1 ∧ (Accepts step j t ∨ Accepts step j u) := by
  simpa only [hs] using h.inv

theorem Accepts.not_of_fail {s : σ} {k : Nat} (h : Accepts step k s) (hs : step s = .fail) : False := by
  simpa only [hs] using h.inv

/-- some run from `s` accepts. -/
def Winning (step : σ → Outcome σ) (s : σ) : Prop := ∃ k, Accepts step k s

def Live (step : σ → Outcome σ) (l : List σ) : Prop := ∃ u ∈ l, Winning step u

variable {s t u : σ} {st : List σ}

theorem winning_goto (hs : step s = .goto t) : Winning step s ↔ Winning step t := by
  constructor
  · rintro ⟨k, hk⟩
    obtain ⟨j, -, hj⟩ := hk.of_goto hs
    exact ⟨j, hj⟩
  · rintro ⟨k, hk⟩
    exact ⟨k + 1, .goto hs hk⟩

theorem winning_fork (hs : step s = .fork t u) : Winning step s ↔ Winning step t ∨ Winning step u := by
  constructor
  · rintro ⟨k, hk⟩
    obtain ⟨j, -, hj⟩ := hk.of_fork hs
    exact hj.imp (⟨j, ·⟩) (⟨j, ·⟩)
  · rintro (⟨k, hk⟩ | ⟨k, hk⟩)
    · exact ⟨k + 1, .left hs hk⟩
    · exact ⟨k + 1, .right hs hk⟩

theorem live_cons : Live step (s :: st) ↔ Winning step s ∨ Live step st := exists_mem_cons_iff ..

/-- **Soundness and completeness**: after a `yes` a state in hand or on the stack accepts, after a `no` none
does. -/
theorem explore_spec {cap budget steps : Nat} :
    ((explore step cap budget steps s st).1 = .yes → Live step (s :: st)) ∧
      ((explore step cap budget steps s st).1 = .no → ¬ Live step (s :: st)) := by
  induction budget generalizing steps s st with
  | zero => simp [explore]
  | succ budget ih =>
    unfold explore
    split
    next hs => exact ⟨fun _ => ⟨s, mem_cons_self, 0, .accept hs⟩, by simp⟩
    next t hs =>
      rw [live_cons, winning_goto hs, ← live_cons]
      exact ih
    next t u hs =>
      rw [live_cons, winning_fork hs, or_assoc, ← live_cons, ← live_cons]
      split
      · simp
      · exact ih
    next hs =>
      have hlost : ¬ Winning step s := by
        rintro ⟨k, hk⟩
        exact hk.not_of_fail hs
      rw [live_cons, or_iff_right hlost]
      split
      · simp [Live]
      · exact ih

/-! ## searches that halt -/

theorem halts_of_some {l : List σ} (h : move step (s, st) = some (t, l)) (ht : Halts step t l) :
    Halts step s st := by
  obtain ⟨n, hn⟩ := ht
  exact ⟨n + 1, by rw [Function.iterate_succ_apply, Option.bind_some, h, hn]⟩

/-- **What ends halts**, if what is on the stack does. -/
theorem halts_of_ends (h : Ends step s) (hst : ∀ u rest, st = u :: rest → Halts step u rest) :
    Halts step s st := by
  induction h generalizing st with
  | accept hs => exact ⟨1, by simp [move, hs]⟩
  | fail hs =>
    cases st with
    | nil => exact ⟨1, by simp [move, hs]⟩
    | cons u rest => exact halts_of_some (by simp only [move, hs]) (hst u rest rfl)
  | goto hs _ ih => exact halts_of_some (by simp only [move, hs]) (ih hst)
  | @fork s t u hs _ _ iht ihu =>
    refine halts_of_some (l := u :: st) (by simp only [move, hs]) (iht ?_)
    rintro v rest ⟨⟩
    exact ihu hst

end

end Ouroboros.Backtrack
