import Mathlib.Data.List.Basic
import Mathlib.Data.List.Induction
import Mathlib.Data.Set.Insert

/-!
# Rooted graphs

An edge `(p, i, d)` says that the `i`-th entry of `p` names `d`. `Rooted r E`: nothing names `r`, what is
named is named once, and it is found from `r`.

* `Rooted.move`  an edge is taken from one node to another: the graph stays rooted unless the new node lies at
  or below the target of the edge;
* `Walk`  edges one after another; what lies below a node is what the walk to it begins the walk to.
-/

namespace Ouroboros

open Relation

variable {V ι : Type}

def Points (E : Set (V × ι × V)) (p d : V) : Prop := ∃ i, (p, i, d) ∈ E

structure Rooted (r : V) (E : Set (V × ι × V)) : Prop where
  root : ∀ x ∈ E, x.2.2 ≠ r
  once : ∀ x ∈ E, ∀ y ∈ E, x.2.2 = y.2.2 → x = y
  found : ∀ x ∈ E, ReflTransGen (Points E) r x.2.2

namespace Rooted

variable {r : V} {E : Set (V × ι × V)} (h : Rooted r E)
include h

theorem below_root {a : V} (hbelow : ReflTransGen (Points E) a r) : a = r := by
  rcases hbelow.cases_tail with heq | ⟨b, -, i, hx⟩
  · exact heq.symm
  · exact absurd rfl (h.root _ hx)

theorem below {c d : V} {i : ι} (hx : (c, i, d) ∈ E) (a : V) :
    ReflTransGen (Points E) a d ↔ a = d ∨ ReflTransGen (Points E) a c := by
  constructor
  · intro hbelow
    rcases hbelow.cases_tail with heq | ⟨b, hb, k, hy⟩
    · exact .inl heq.symm
    · cases h.once _ hx _ hy rfl
      exact .inr hb
  · rintro (rfl | hc)
    · exact .refl
    · exact hc.tail ⟨i, hx⟩

section Move
variable {E' : Set (V × ι × V)} {p q a : V} {i j : ι} (hx : (p, i, a) ∈ E)
    (hE : E' = insert (q, j, a) (E \ {(p, i, a)}))
include hx hE

theorem lost (hq : ReflTransGen (Points E) a q) {d : V} (hd : ReflTransGen (Points E') r d) :
    ¬ ReflTransGen (Points E) a d := by
  subst hE
  induction hd with
  | refl => exact fun hr => h.root _ hx (h.below_root hr)
  | tail _ hstep ih =>
    intro hbelow
    obtain ⟨k, heq | ⟨hold, hne⟩⟩ := hstep
    · cases heq
      exact ih hq
    rcases (h.below hold a).1 hbelow with rfl | hb
    · exact hne (h.once _ hold _ hx rfl)
    · exact ih hb

omit h hx in
theorem stays {b d : V} (hstep : Points E b d) : d = a ∨ Points E' b d := by
  subst hE
  obtain ⟨k, hk⟩ := hstep
  by_cases heq : (b, k, d) = (p, i, a)
  · cases heq
    exact .inl rfl
  · exact .inr ⟨k, .inr ⟨hk, heq⟩⟩

omit h hx in
theorem still {c d : V} (hd : ReflTransGen (Points E) c d) :
    ReflTransGen (Points E') c d ∨ ReflTransGen (Points E) a d := by
  induction hd with
  | refl => exact .inl .refl
  | tail _ hstep ih =>
    rcases ih, stays hE hstep with ⟨ih | ih, rfl | hstep'⟩
    · exact .inr .refl
    · exact .inl (ih.tail hstep')
    · exact .inr .refl
    · exact .inr (ih.tail hstep)

/-- **The graph stays rooted if and only if the new node is neither the target nor below it.** -/
theorem move (hq : ReflTransGen (Points E) r q) : Rooted r E' ↔ ¬ ReflTransGen (Points E) a q := by
  have hnew : (q, j, a) ∈ E' := hE ▸ .inl rfl
  constructor
  · exact fun h' hbelow => h.lost hx hE hbelow (h'.found _ hnew) .refl
  intro hnot
  have ha : ReflTransGen (Points E') r a := ((still hE hq).resolve_right hnot).tail ⟨j, hnew⟩
  have hall {d : V} (hd : ReflTransGen (Points E) a d) : ReflTransGen (Points E') r d := by
    induction hd with
    | refl => exact ha
    | tail _ hstep ih =>
      rcases stays hE hstep with rfl | hstep
      · exact ha
      · exact ih.tail hstep
  subst hE
  refine ⟨?_, ?_, ?_⟩
  · rintro x (rfl | ⟨hold, -⟩)
    · exact h.root (p, i, a) hx
    · exact h.root x hold
  · rintro x (rfl | ⟨hold, hne⟩) y (rfl | ⟨hold', hne'⟩) heq
    · rfl
    · exact absurd (h.once _ hold' _ hx heq.symm) hne'
    · exact absurd (h.once _ hold _ hx heq) hne
    · exact h.once x hold y hold' heq
  · rintro x (rfl | ⟨hold, -⟩)
    · exact ha
    · exact (still rfl (h.found x hold)).elim id hall

end Move
end Rooted

/-! ## Walks -/

/-- the edges lead, one after another, from a node to another. -/
def Walk (E : Set (V × ι × V)) : V → List (V × ι × V) → V → Prop
  | a, [], c => a = c
  | a, x :: l, c => x ∈ E ∧ x.1 = a ∧ Walk E x.2.2 l c

section Walk
variable {E : Set (V × ι × V)} {a b c r : V} {l m : List (V × ι × V)} {x : V × ι × V}

theorem walk_append : Walk E a (l ++ m) c ↔ ∃ b, Walk E a l b ∧ Walk E b m c := by
  induction l generalizing a with
  | nil => exact ⟨fun h => ⟨a, rfl, h⟩, fun ⟨_, heq, h⟩ => by cases heq; exact h⟩
  | cons x l ih =>
    rw [List.cons_append]
    constructor
    · rintro ⟨hx, ha, h⟩
      obtain ⟨b, hl, hm⟩ := ih.1 h
      exact ⟨b, ⟨hx, ha, hl⟩, hm⟩
    · rintro ⟨b, ⟨hx, ha, hl⟩, hm⟩
      exact ⟨hx, ha, ih.2 ⟨b, hl, hm⟩⟩

theorem walk_concat : Walk E a (l ++ [x]) c ↔ Walk E a l x.1 ∧ x ∈ E ∧ x.2.2 = c := by
  rw [walk_append]
  constructor
  · rintro ⟨b, hl, hx, rfl, hc⟩
    exact ⟨hl, hx, hc⟩
  · rintro ⟨hl, hx, hc⟩
    exact ⟨x.1, hl, hx, rfl, hc⟩

theorem Walk.mem (h : Walk E a l c) (hx : x ∈ l) : x ∈ E := by
  obtain ⟨s, t, rfl⟩ := List.append_of_mem hx
  obtain ⟨_, -, h⟩ := walk_append.1 h
  exact h.1

theorem Walk.reach (h : Walk E a l c) : ReflTransGen (Points E) a c := by
  induction l generalizing a with
  | nil =>
    cases h
    exact .refl
  | cons x l ih =>
    obtain ⟨hx, rfl, h⟩ := h
    exact (ih h).head ⟨x.2.1, hx⟩

theorem exists_walk (h : ReflTransGen (Points E) a c) : ∃ l, Walk E a l c := by
  induction h with
  | refl => exact ⟨[], rfl⟩
  | tail _ hstep ih =>
    obtain ⟨l, hl⟩ := ih
    obtain ⟨i, hx⟩ := hstep
    exact ⟨l ++ [_], walk_concat.2 ⟨hl, hx, rfl⟩⟩

namespace Rooted
variable (h : Rooted r E)
include h

/-- backwards from its end: the last edge is the one that names the end, and no edge names the root. -/
theorem walk_unique (hl : Walk E r l c) (hm : Walk E r m c) : l = m := by
  induction l using List.reverseRecOn generalizing m c with
  | nil =>
    cases hl
    rcases m.eq_nil_or_concat' with rfl | ⟨m, y, rfl⟩
    · rfl
    · obtain ⟨-, hy, hend⟩ := walk_concat.1 hm
      exact absurd hend (h.root y hy)
  | append_singleton l x ih =>
    obtain ⟨hl, hx, hend⟩ := walk_concat.1 hl
    rcases m.eq_nil_or_concat' with rfl | ⟨m, y, rfl⟩
    · cases hm
      exact absurd hend (h.root x hx)
    · obtain ⟨hm, hy, hend'⟩ := walk_concat.1 hm
      cases h.once x hx y hy (hend.trans hend'.symm)
      rw [ih hl hm]

theorem reach_iff_prefix (hl : Walk E r l a) (hm : Walk E r m c) : ReflTransGen (Points E) a c ↔ l <+: m := by
  constructor
  · intro hreach
    obtain ⟨n, hn⟩ := exists_walk hreach
    exact ⟨n, h.walk_unique (walk_append.2 ⟨a, hl, hn⟩) hm⟩
  · rintro ⟨n, rfl⟩
    obtain ⟨b, hl', hn⟩ := walk_append.1 hm
    rcases l.eq_nil_or_concat' with rfl | ⟨l, x, rfl⟩
    · cases hl
      cases hl'
      exact hn.reach
    · cases (walk_concat.1 hl).2.2
      cases (walk_concat.1 hl').2.2
      exact hn.reach

end Rooted
end Walk
end Ouroboros
