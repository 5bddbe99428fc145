import Mathlib.Data.Fintype.Card

/-!
# Chains in a table of links

A table `f : α → Option α` links each element to at most one other.

* `Link`, `Acyclic`  one link, and no way back to the start;
* `Acyclic.mono`  cutting a link or bypassing an element keeps a table acyclic;
* `Acyclic.extend`  so does a new link from an element that cannot be reached from its target;
* `down_card`  a way that ends is no longer than the set it stays in;
* `walk`  the elements on the way down to a goal; as many steps as there are elements are enough.
-/

namespace Ouroboros
namespace Chain

open Relation Option Nat

section Chain
variable {α : Type*} {f g : α → Option α} {a b goal : α} {n k : Nat}

def Link (f : α → Option α) (a b : α) : Prop := f a = some b

def Acyclic (f : α → Option α) : Prop := ∀ a, ¬ TransGen (Link f) a a

theorem Acyclic.mono (h : Acyclic f) (hsub : ∀ a b, Link g a b → TransGen (Link f) a b) : Acyclic g := by
  have hway : ∀ a b, TransGen (Link g) a b → TransGen (Link f) a b := by
    intro a b hab
    induction hab with
    | single hl => exact hsub _ _ hl
    | tail _ hl ih => exact ih.trans (hsub _ _ hl)
  exact fun a ha => h a (hway a a ha)

theorem Acyclic.empty : Acyclic fun _ : α => none := by
  intro a ha
  obtain ⟨b, hl, -⟩ := TransGen.head'_iff.1 ha
  cases hl

theorem extend_cases (hold : ∀ x, x ≠ a → g x = f x)
    (hnew : g a = some b) {x y : α} (h : TransGen (Link g) x y) :
    TransGen (Link f) x y ∨ ReflTransGen (Link f) x a ∧ ReflTransGen (Link f) b y := by
  have hlink : ∀ y z, Link g y z → Link f y z ∨ y = a ∧ z = b := by
    intro y z hl
    unfold Link at hl ⊢
    by_cases hy : y = a
    · rw [hy, hnew] at hl
      exact .inr ⟨hy, (Option.some.inj hl).symm⟩
    · rw [hold y hy] at hl
      exact .inl hl
  induction h with
  | @single y hl =>
    rcases hlink _ _ hl with hl | ⟨rfl, rfl⟩
    · exact .inl (.single hl)
    · exact .inr ⟨.refl, .refl⟩
  | @tail y z _ hl ih =>
    rcases hlink _ _ hl with hl | ⟨rfl, rfl⟩
    · rcases ih with ih | ⟨hxa, hby⟩
      · exact .inl (ih.tail hl)
      · exact .inr ⟨hxa, hby.tail hl⟩
    rcases ih with ih | ⟨hxa, _⟩
    · exact .inr ⟨ih.to_reflTransGen, .refl⟩
    · exact .inr ⟨hxa, .refl⟩

theorem Acyclic.extend (h : Acyclic f) (hold : ∀ x, x ≠ a → g x = f x) (hnew : g a = some b)
    (hback : ¬ ReflTransGen (Link f) b a) : Acyclic g := by
  intro x hx
  rcases extend_cases hold hnew hx with hx | ⟨hxa, hbx⟩
  · exact h x hx
  · exact hback (hbx.trans hxa)

theorem way_of_link {x : α} (h : f a = some b) (hx : ReflTransGen (Link f) a x) :
    x = a ∨ ReflTransGen (Link f) b x := by
  rcases ReflTransGen.cases_head hx with rfl | ⟨b', hb, hrest⟩
  · exact .inl rfl
  unfold Link at hb
  rw [h] at hb
  cases hb
  exact .inr hrest

/-! ## Steps down -/

def down (f : α → Option α) : Nat → α → Option α
  | 0, a => some a
  | n + 1, a => (f a).bind (down f n)

theorem down_add (m n : Nat) (a : α) : down f (m + n) a = (down f m a).bind (down f n) := by
  induction m generalizing a with
  | zero => simp [down]
  | succ m ih =>
    rw [succ_add, down, down]
    cases f a with
    | none => rfl
    | some b => exact ih b

theorem down_way (h : down f (n + 1) a = some b) : TransGen (Link f) a b := by
  induction n generalizing a with
  | zero =>
    rw [down, bind_eq_some_iff] at h
    obtain ⟨x, hx, hb⟩ := h
    cases hb
    exact .single hx
  | succ n ih =>
    rw [down, bind_eq_some_iff] at h
    obtain ⟨x, hx, hb⟩ := h
    exact .head hx (ih hb)

theorem way_down (h : TransGen (Link f) a b) : ∃ n, down f (n + 1) a = some b := by
  induction h with
  | single hl =>
    refine ⟨0, ?_⟩
    unfold Link at hl
    simp [down, hl]
  | tail _ hl ih =>
    obtain ⟨n, hn⟩ := ih
    refine ⟨n + 1, ?_⟩
    unfold Link at hl
    rw [down_add, hn]
    simp [down, hl]

theorem down_length [Fintype α] (h : Acyclic f) (hn : down f n a = some b) : n < Fintype.card α := by
  have hsome : ∀ i : Fin (n + 1), ∃ x, down f i.val a = some x := by
    intro i
    have hsplit : i.val + (n - i.val) = n := by omega
    rw [← hsplit, down_add, bind_eq_some_iff] at hn
    obtain ⟨x, hx, -⟩ := hn
    exact ⟨x, hx⟩
  choose x hx using hsome
  have hne : ∀ i j : Fin (n + 1), i.val < j.val → x i ≠ x j := by
    intro i j hij heq
    have hsplit : i.val + ((j.val - i.val - 1) + 1) = j.val := by omega
    have hj := hx j
    rw [← hsplit, down_add, hx i, bind_some, ← heq] at hj
    exact h _ (down_way hj)
  have hinj : Function.Injective x := by
    intro i j heq
    by_contra hij
    rcases lt_or_gt_of_ne (fun h => hij (Fin.ext h)) with hlt | hlt
    · exact hne i j hlt heq
    · exact hne j i hlt heq.symm
  have hcard := Fintype.card_le_of_injective x hinj
  rw [Fintype.card_fin] at hcard
  exact hcard

theorem down_none_of_le {m : Nat} (h : down f m a = none) (hle : m ≤ n) : down f n a = none := by
  rw [← Nat.add_sub_cancel' hle, down_add, h, bind_none]

theorem down_ne_none_of_return (hk : 0 < k) (h : down f k a = some a) (n : Nat) : down f n a ≠ none := by
  have hround : ∀ j, down f (k * j) a = some a := by
    intro j
    induction j with
    | zero => rfl
    | succ j ih => rw [mul_succ, down_add, ih, bind_some, h]
  intro hnone
  have := down_none_of_le hnone (Nat.le_mul_of_pos_left n hk)
  rw [hround n] at this
  cases this

section Finite
variable {s : Finset α} (hs : ∀ n b, down f n a = some b → b ∈ s)
include hs

theorem down_returns (h : down f s.card a ≠ none) :
    ∃ i j x, i < j ∧ j ≤ s.card ∧ down f i a = some x ∧ down f j a = some x := by
  have hsome : ∀ i : Fin (s.card + 1), ∃ x, down f i.val a = some x := by
    intro i
    rw [← isSome_iff_exists, isSome_iff_ne_none]
    exact fun hi => h (down_none_of_le hi (by omega))
  choose x hx using hsome
  obtain ⟨i, -, j, -, hij, heq⟩ :=
    Finset.exists_ne_map_eq_of_card_lt_of_maps_to (s := Finset.univ) (t := s) (f := x)
    (by simp) fun i _ => hs i.val _ (hx i)
  rcases lt_or_gt_of_ne hij with hlt | hlt
  · exact ⟨i, j, x i, hlt, by omega, hx i, heq ▸ hx j⟩
  · exact ⟨j, i, x j, hlt, by omega, hx j, heq ▸ hx i⟩

/-- **a way that ends, and stays in a finite set, ends within as many steps as the set has elements.** -/
theorem down_card (hend : ∃ n, down f n a = none) : down f s.card a = none := by
  by_contra hne
  obtain ⟨i, j, x, hij, -, hi, hj⟩ := down_returns hs hne
  have hreturn : down f (j - i) x = some x := by
    rwa [← Nat.add_sub_cancel' hij.le, down_add, hi, bind_some] at hj
  obtain ⟨n, hn⟩ := hend
  have hlong := down_none_of_le hn (le_add_left n i)
  rw [down_add, hi, bind_some] at hlong
  exact down_ne_none_of_return (Nat.sub_pos_of_lt hij) hreturn n hlong

end Finite

/-! ## Searching for a goal -/

variable [DecidableEq α]

/-- the elements from `a` down to the one above `goal`, put on top of `seen`. -/
def walk (f : α → Option α) (goal : α) : Nat → List α → α → Option (List α)
  | 0, _, _ => none
  | k + 1, seen, a =>
    match f a with
    | none => none
    | some b => if b = goal then some (a :: seen) else walk f goal k (a :: seen) b

/-- **A walk that arrives has listed the elements on the way.** -/
theorem walk_some (h : Acyclic f) {seen l : List α} (hw : walk f goal k seen a = some l) :
    TransGen (Link f) a goal ∧
      ∀ x, x ∈ l ↔ x ∈ seen ∨ ReflTransGen (Link f) a x ∧ TransGen (Link f) x goal := by
  induction k generalizing seen a with
  | zero => cases hw
  | succ k ih =>
    unfold walk at hw
    split at hw
    · cases hw
    rename_i b hb
    have hself : ∀ x, ReflTransGen (Link f) b x → TransGen (Link f) a x := fun x hx => .head' hb hx
    split at hw
    · rename_i hgoal
      subst hgoal
      cases hw
      refine ⟨.single hb, fun x => ?_⟩
      rw [List.mem_cons]
      constructor
      · rintro (rfl | hx)
        · exact .inr ⟨.refl, .single hb⟩
        · exact .inl hx
      · rintro (hx | ⟨hax, hxb⟩)
        · exact .inr hx
        · rcases way_of_link hb hax with rfl | hbx
          · exact .inl rfl
          · exact absurd (TransGen.trans_right hbx hxb) (h b)
    · obtain ⟨hway, hmem⟩ := ih hw
      refine ⟨.head hb hway, fun x => ?_⟩
      rw [hmem, List.mem_cons]
      constructor
      · rintro ((rfl | hx) | ⟨hbx, hxg⟩)
        · exact .inr ⟨.refl, .head hb hway⟩
        · exact .inl hx
        · exact .inr ⟨(hself x hbx).to_reflTransGen, hxg⟩
      · rintro (hx | ⟨hax, hxg⟩)
        · exact .inl (.inr hx)
        · rcases way_of_link hb hax with rfl | hbx
          · exact .inl (.inl rfl)
          · exact .inr ⟨hbx, hxg⟩

theorem walk_finds (seen : List α) (hn : down f (n + 1) a = some goal) (hk : n < k) :
    walk f goal k seen a ≠ none := by
  induction k generalizing n seen a with
  | zero => omega
  | succ k ih =>
    rw [down, bind_eq_some_iff] at hn
    obtain ⟨b, hb, hrest⟩ := hn
    unfold walk
    rw [hb]
    simp only
    split
    · exact some_ne_none _
    rename_i hne
    cases n with
    | zero =>
      cases hrest
      exact absurd rfl hne
    | succ n => exact ih _ hrest (by omega)

/-- **As many steps as there are elements find the goal, if it is there.** -/
theorem walk_none [Fintype α] (h : Acyclic f) (hk : Fintype.card α ≤ k)
    {seen : List α} (hw : walk f goal k seen a = none) : ¬ TransGen (Link f) a goal := by
  intro hway
  obtain ⟨n, hn⟩ := way_down hway
  have hlen := down_length h hn
  exact walk_finds seen hn (by omega) hw

end Chain

end Chain
end Ouroboros
