import Mathlib.Logic.Basic

/-!
# Steps that may fail

`Try σ ε α` is a step over states `σ` that yields an `α` or fails with an `ε`; what it did before it
failed stands.

* `Try.Sat m s Q E`  from `s`, `m` yields what `Q` allows or fails as `E` allows;
* `Try.Matches R m n s t P`  from `s` and `t` the two come to one result;
* `Try.each`  a step for every element of a list.
-/

namespace Ouroboros

def Try (σ ε α : Type) : Type := σ → Except ε α × σ

namespace Try

variable {σ ε α β : Type} {m : Try σ ε α} {f : α → Try σ ε β} {s t : σ} {a : α} {e : ε} {u : σ}

instance : Monad (Try σ ε) where
  pure a := fun s => (.ok a, s)
  bind m f := fun s =>
    match m s with
    | (.ok a, t) => f a t
    | (.error e, t) => (.error e, t)

def fail (e : ε) : Try σ ε α := fun s => (.error e, s)

def ask (f : σ → α) : Try σ ε α := fun s => (.ok (f s), s)

def change (f : σ → σ) : Try σ ε Unit := fun s => (.ok (), f s)

def each : List β → (β → Try σ ε Unit) → Try σ ε Unit
  | [], _ => pure ()
  | b :: bs, f => do
    f b
    each bs f

theorem bind_ok (h : m s = (.ok a, t)) : (m >>= f) s = f a t := by
  show (match m s with | (.ok a, t) => f a t | (.error e, t) => (.error e, t)) = f a t
  rw [h]

theorem bind_error (h : m s = (.error e, t)) : (m >>= f) s = (.error e, t) := by
  show (match m s with | (.ok a, t) => f a t | (.error e, t) => (.error e, t)) = (.error e, t)
  rw [h]

theorem bind_cases {r : Except ε β} (h : (m >>= f) s = (r, u)) :
    (∃ a t, m s = (.ok a, t) ∧ f a t = (r, u)) ∨ ∃ e, m s = (.error e, u) ∧ r = .error e := by
  rcases hm : m s with ⟨a | a, t⟩
  · rw [bind_error hm] at h
    cases h
    exact .inr ⟨a, rfl, rfl⟩
  · rw [bind_ok hm] at h
    exact .inl ⟨a, t, rfl, h⟩

theorem bind_eq_ok {b : β} : (m >>= f) s = (.ok b, u) ↔ ∃ a t, m s = (.ok a, t) ∧ f a t = (.ok b, u) := by
  constructor
  · intro h
    rcases bind_cases h with h | ⟨_, _, he⟩
    · exact h
    · cases he
  · rintro ⟨a, t, hm, hf⟩
    rw [bind_ok hm, hf]

theorem ite_fail_eq_ok {c : Prop} [Decidable c] :
    (if c then fail e else m) s = (.ok a, t) ↔ ¬ c ∧ m s = (.ok a, t) := by
  split
  · exact ⟨nofun, fun h => absurd ‹c› h.1⟩
  · exact ⟨fun h => ⟨‹_›, h⟩, And.right⟩

/-! ## What a step can come to -/

def Sat (m : Try σ ε α) (s : σ) (Q : α → σ → Prop) (E : ε → σ → Prop) : Prop :=
  match m s with
  | (.ok a, t) => Q a t
  | (.error e, t) => E e t

section Sat
variable {s : σ} {Q Q' : α → σ → Prop} {E E' : ε → σ → Prop} {m : Try σ ε α} {a : α} {e : ε}

theorem sat_iff : m.Sat s Q E ↔ (∀ a t, m s = (.ok a, t) → Q a t) ∧ ∀ e t, m s = (.error e, t) → E e t := by
  unfold Sat
  rcases m s with ⟨e | a, t⟩
  · exact ⟨fun h => ⟨nofun, fun e' t' heq => by cases heq; exact h⟩, fun h => h.2 _ _ rfl⟩
  · exact ⟨fun h => ⟨fun a' t' heq => by cases heq; exact h, nofun⟩, fun h => h.1 _ _ rfl⟩

theorem Sat.ok (h : m.Sat s Q E) (hm : m s = (.ok a, t)) : Q a t := (sat_iff.1 h).1 a t hm

theorem Sat.error (h : m.Sat s Q E) (hm : m s = (.error e, t)) : E e t := (sat_iff.1 h).2 e t hm

theorem Sat.pure (h : Q a s) : (Pure.pure a : Try σ ε α).Sat s Q E := h

theorem Sat.fail (h : E e s) : (Try.fail e : Try σ ε α).Sat s Q E := h

theorem Sat.ask {f : σ → α} (h : Q (f s) s) : (Try.ask f : Try σ ε α).Sat s Q E := h

theorem Sat.change {f : σ → σ} {Q : Unit → σ → Prop} (h : Q () (f s)) :
    (Try.change f : Try σ ε Unit).Sat s Q E := h

theorem Sat.mono (h : m.Sat s Q E) (hQ : ∀ a t, Q a t → Q' a t) (hE : ∀ e t, E e t → E' e t) : m.Sat s Q' E' :=
  sat_iff.2 ⟨fun a t hm => hQ a t (h.ok hm), fun e t hm => hE e t (h.error hm)⟩

theorem Sat.bind {R : β → σ → Prop} (h : m.Sat s Q E) (hf : ∀ a t, Q a t → (f a).Sat t R E) :
    (m >>= f).Sat s R E := by
  rcases hm : m s with ⟨e | a, t⟩
  · have hE := h.error hm
    unfold Sat
    rwa [bind_error hm]
  have hR := hf a t (h.ok hm)
  unfold Sat at hR ⊢
  rwa [bind_ok hm]

theorem Sat.ite {c : Prop} [Decidable c] {n : Try σ ε α} (hm : c → m.Sat s Q E) (hn : ¬ c → n.Sat s Q E) :
    (if c then m else n).Sat s Q E := by
  split
  · exact hm ‹_›
  · exact hn ‹_›

end Sat

/-! ## Two runs -/

/-- two steps from two states come to one result, `R` holds between the states after them, and `P` of
the result and the first state. -/
structure Matches (R : σ → σ → Prop) (m n : Try σ ε α) (s t : σ) (P : α → σ → Prop) : Prop where
  result : (m s).1 = (n t).1
  states : R (m s).2 (n t).2
  post : ∀ a, (m s).1 = .ok a → P a (m s).2

section Matches
variable {R : σ → σ → Prop} {m n : Try σ ε α} {s t : σ} {P Q : α → σ → Prop} {g : α → Try σ ε β}

theorem Matches.of_eq {r : Except ε α} {w : σ} (hm : m s = (r, u)) (hn : n t = (r, w)) (hR : R u w)
    (hP : ∀ a, r = .ok a → P a u) : Matches R m n s t P :=
  ⟨by rw [hm, hn], by rwa [hm, hn], by rw [hm]; exact hP⟩

theorem Matches.pure (hR : R s t) (hP : P a s) : Matches R (Pure.pure a : Try σ ε α) (Pure.pure a) s t P :=
  ⟨rfl, hR, fun b hb => by cases hb; exact hP⟩

theorem Matches.fail (hR : R s t) : Matches R (Try.fail e : Try σ ε α) (Try.fail e) s t P := ⟨rfl, hR, nofun⟩

theorem Matches.ask {f : σ → α} (hR : R s t) (hf : f s = f t) (hP : P (f s) s) :
    Matches R (Try.ask f : Try σ ε α) (Try.ask f) s t P :=
  ⟨congrArg Except.ok hf, hR, fun b hb => by cases hb; exact hP⟩

theorem Matches.change {f g : σ → σ} {P : Unit → σ → Prop} (hR : R (f s) (g t)) (hP : P () (f s)) :
    Matches R (Try.change f : Try σ ε Unit) (Try.change g) s t P :=
  ⟨rfl, hR, fun _ _ => hP⟩

theorem Matches.mono (h : Matches R m n s t P) (hPQ : ∀ a u, P a u → Q a u) : Matches R m n s t Q :=
  ⟨h.result, h.states, fun a ha => hPQ a _ (h.post a ha)⟩

theorem Matches.bind_weaken {R' : σ → σ → Prop} {Q : β → σ → Prop} (h : Matches R m n s t P)
    (hR : ∀ u w, R u w → R' u w) (hf : ∀ a u w, R u w → P a u → Matches R' (f a) (g a) u w Q) :
    Matches R' (m >>= f) (n >>= g) s t Q := by
  obtain ⟨hres, hst, hpost⟩ := h
  rcases hm : m s with ⟨e | a, u⟩ <;> rcases hn : n t with ⟨e' | b, w⟩ <;> rw [hm, hn] at hres hst <;> cases hres
  · exact .of_eq (bind_error hm) (bind_error hn) (hR _ _ hst) nofun
  have hP : P a u := by
    have := hpost a (by rw [hm])
    rwa [hm] at this
  have hfg := hf a u w hst hP
  refine ⟨?_, ?_, fun c hc => ?_⟩
  · rw [bind_ok hm, bind_ok hn]
    exact hfg.result
  · rw [bind_ok hm, bind_ok hn]
    exact hfg.states
  · rw [bind_ok hm] at hc ⊢
    exact hfg.post c hc

theorem Matches.bind {Q : β → σ → Prop} (h : Matches R m n s t P)
    (hf : ∀ a u w, R u w → P a u → Matches R (f a) (g a) u w Q) : Matches R (m >>= f) (n >>= g) s t Q :=
  h.bind_weaken (fun _ _ h => h) hf

theorem Matches.ask_bind {f : σ → β} {k : β → Try σ ε α} (h : Matches R (k (f s)) (k (f t)) s t P) :
    Matches R (Try.ask f >>= k) (Try.ask f >>= k) s t P := ⟨h.result, h.states, h.post⟩

theorem Matches.ite {c : Prop} [Decidable c] {m' n' : Try σ ε α} (hm : c → Matches R m n s t P)
    (hn : ¬ c → Matches R m' n' s t P) : Matches R (if c then m else m') (if c then n else n') s t P := by
  split
  · exact hm ‹_›
  · exact hn ‹_›

theorem Matches.each {f : β → Try σ ε Unit} {l : List β} (hR : R s t)
    (h : ∀ b ∈ l, ∀ s t, R s t → Matches R (f b) (f b) s t fun _ _ => True) :
    Matches R (Try.each l f) (Try.each l f) s t fun _ _ => True := by
  induction l generalizing s t with
  | nil => exact .pure hR trivial
  | cons b bs ih =>
    refine (h b List.mem_cons_self s t hR).bind fun _ u w huw _ => ih huw fun c hc => ?_
    exact h c (List.mem_cons_of_mem b hc)

end Matches
end Try
end Ouroboros
