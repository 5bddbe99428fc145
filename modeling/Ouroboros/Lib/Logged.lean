import Mathlib.Data.List.Basic

/-!
# Computations that may fail and log what they do

* `Logged ε τ α`  a result or an error, and the events up to there;
* `bind_eq_ok`  a sequence succeeds exactly if its parts do, and its log is theirs in order;
* `forEach`, `mapEach` the loops over a list, with the same inversion.
-/

namespace Ouroboros

structure Logged (ε τ α : Type) where
  result : Except ε α
  log : List τ

namespace Logged

variable {ε τ α β γ : Type} {a : α} {l : List τ} {u : Unit} {x : Logged ε τ α} {bs : List β}

protected def bind (x : Logged ε τ α) (f : α → Logged ε τ β) : Logged ε τ β :=
  match x.result with
  | .error e => ⟨.error e, x.log⟩
  | .ok a => ⟨(f a).result, x.log ++ (f a).log⟩

instance : Monad (Logged ε τ) where
  pure a := ⟨.ok a, []⟩
  bind := Logged.bind

def fail (e : ε) : Logged ε τ α := ⟨.error e, []⟩

def tell (t : τ) : Logged ε τ Unit := ⟨.ok (), [t]⟩

/-! ## Inversion -/

theorem pure_eq_ok {b : α} : (pure a : Logged ε τ α) = ⟨.ok b, l⟩ ↔ a = b ∧ l = [] := by
  constructor
  · intro h
    cases h
    exact ⟨rfl, rfl⟩
  · rintro ⟨rfl, rfl⟩
    rfl

theorem fail_eq_ok {e : ε} : (fail e : Logged ε τ α) = ⟨.ok a, l⟩ ↔ False := by
  constructor
  · intro h
    cases h
  · exact False.elim

theorem tell_eq_ok {t : τ} : (tell t : Logged ε τ Unit) = ⟨.ok u, l⟩ ↔ l = [t] := by
  constructor
  · intro h
    cases h
    rfl
  · rintro rfl
    rfl

/-- **A sequence succeeds exactly if its parts do.** -/
theorem bind_eq_ok {f : α → Logged ε τ β} {b : β} :
    x >>= f = ⟨.ok b, l⟩ ↔ ∃ a l₁ l₂, x = ⟨.ok a, l₁⟩ ∧ f a = ⟨.ok b, l₂⟩ ∧ l = l₁ ++ l₂ := by
  obtain ⟨r, k⟩ := x
  constructor
  · intro h
    cases r with
    | error e => cases h
    | ok a =>
      have hf : (⟨(f a).result, k ++ (f a).log⟩ : Logged ε τ β) = ⟨.ok b, l⟩ := h
      cases hfa : f a with
      | mk r' k' =>
        rw [hfa] at hf
        cases hf
        exact ⟨a, k, k', rfl, hfa, rfl⟩
  · rintro ⟨a, l₁, l₂, hx, hf, rfl⟩
    cases hx
    have hgoal : (.mk (.ok a) k >>= f) = ⟨(f a).result, k ++ (f a).log⟩ := rfl
    rw [hgoal, hf]

theorem eq_of_result (h : x.result = .ok a) : x = ⟨.ok a, x.log⟩ := by
  obtain ⟨r, k⟩ := x
  cases h
  rfl

/-! ## Loops -/

def forEach (f : β → Logged ε τ Unit) : List β → Logged ε τ Unit
  | [] => pure ()
  | b :: bs => do
    f b
    forEach f bs

def mapEach (f : β → Logged ε τ γ) : List β → Logged ε τ (List γ)
  | [] => pure []
  | b :: bs => do
    let c ← f b
    let cs ← mapEach f bs
    pure (c :: cs)

theorem forEach_eq_ok {f : β → Logged ε τ Unit} (h : forEach f bs = ⟨.ok u, l⟩) :
    l = bs.flatMap (fun b => (f b).log) ∧ ∀ b, b ∈ bs → (f b).result = .ok () := by
  induction bs generalizing l with
  | nil =>
    obtain ⟨-, rfl⟩ := pure_eq_ok.1 h
    exact ⟨rfl, by rintro b ⟨⟩⟩
  | cons b bs ih =>
    obtain ⟨a, l₁, l₂, hb, hbs, rfl⟩ := bind_eq_ok.1 h
    obtain ⟨rfl, hall⟩ := ih hbs
    refine ⟨by rw [List.flatMap_cons, hb], ?_⟩
    intro b' hb'
    rcases List.mem_cons.1 hb' with rfl | hb'
    · rw [hb]
    · exact hall b' hb'

theorem mapEach_eq_ok {f : β → Logged ε τ γ} {cs : List γ} (h : mapEach f bs = ⟨.ok cs, l⟩) :
    l = bs.flatMap (fun b => (f b).log) ∧ ∀ b, b ∈ bs → ∃ c, (f b).result = .ok c := by
  induction bs generalizing cs l with
  | nil =>
    obtain ⟨-, rfl⟩ := pure_eq_ok.1 h
    exact ⟨rfl, by rintro b ⟨⟩⟩
  | cons b bs ih =>
    obtain ⟨c, l₁, l₂, hb, hrest, rfl⟩ := bind_eq_ok.1 h
    obtain ⟨cs', l₃, l₄, hbs, hpure, rfl⟩ := bind_eq_ok.1 hrest
    obtain ⟨rfl, rfl⟩ := pure_eq_ok.1 hpure
    obtain ⟨rfl, hall⟩ := ih hbs
    refine ⟨by rw [List.flatMap_cons, hb, List.append_nil], ?_⟩
    intro b' hb'
    rcases List.mem_cons.1 hb' with rfl | hb'
    · exact ⟨c, by rw [hb]⟩
    · exact hall b' hb'

end Logged

end Ouroboros
