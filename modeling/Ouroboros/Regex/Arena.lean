import Ouroboros.Regex.Parser
import Mathlib.Data.List.GetD

/-!
# What a parse leaves behind

The arena of a parsed pattern is in order: every child stands before its parent (`Arena`), which makes the
recursions over it (`nullable`, `gen`) well founded.

* `parse_agree`  with fuel for the bytes left, more fuel changes nothing and a rule leaves its node;
* `parse_arena`  the arena of a parsed pattern is an `Arena` and holds the root;
* `parseAlt_fuel`  `parseFuel` is enough: a parse never stops for want of fuel.
-/

namespace Ouroboros.Regex

open List Nat

/-! ## what a parse leaves behind -/

def Arena (nodes : List Node) : Prop := ∀ (i : Nat) (n : Node), nodes[i]? = some n → ∀ c ∈ n.children, c < i

theorem arena_nil : Arena [] := by
  intro i n h
  simp at h

variable {nodes : List Node} {n f f' : Nat} {p p' : Parser} {m : Node}

theorem Arena.push (h : Arena nodes) {n : Node} (hc : ∀ c ∈ n.children, c < nodes.length) :
    Arena (nodes ++ [n]) := by
  intro i m hm c hcm
  rw [getElem?_append] at hm
  split at hm
  · exact h i m hm c hcm
  obtain ⟨h0, hnm⟩ := List.getElem?_eq_some_iff.mp hm
  have : n = m := by simpa using hnm
  subst this
  exact Nat.lt_of_lt_of_le (hc c hcm) (by omega)

theorem Arena.child_lt (ha : Arena nodes) {c : Nat} (hc : c ∈ (node nodes n).children) : c < n := by
  rw [node, getD_eq_getElem?_getD] at hc
  cases hn : nodes[n]? with
  | none => rw [hn] at hc; simp [Node.children] at hc
  | some m => rw [hn] at hc; exact ha n m hn c hc

/-! ## repeats that consume -/

inductive Eats (nodes : List Node) : Node → Prop where
  | char {c : UInt8} : Eats nodes (.char c)
  | any : Eats nodes .any
  | cls {i : Nat} : Eats nodes (.cls i)
  | catLeft {a b : Nat} : Eats nodes (node nodes a) → Eats nodes (.cat a b)
  | catRight {a b : Nat} : Eats nodes (node nodes b) → Eats nodes (.cat a b)
  | alt {a b : Nat} : Eats nodes (node nodes a) → Eats nodes (node nodes b) → Eats nodes (.alt a b)
  | plus {a : Nat} : Eats nodes (node nodes a) → Eats nodes (.plus a)

theorem Eats.append (h : Eats nodes m) (l : List Node) : Eats (nodes ++ l) m := by
  have same : ∀ {a : Nat}, Eats nodes (node nodes a) → node (nodes ++ l) a = node nodes a := by
    intro a ha
    refine getD_append _ _ _ _ ?_
    by_contra hlt
    rw [node, getD_eq_default _ _ (by omega)] at ha
    cases ha
  induction h with
  | char => exact .char
  | any => exact .any
  | cls => exact .cls
  | catLeft h ih => exact .catLeft (by rwa [same h])
  | catRight h ih => exact .catRight (by rwa [same h])
  | alt h h' ih ih' => exact .alt (by rwa [same h]) (by rwa [same h'])
  | plus h ih => exact .plus (by rwa [same h])

theorem eats_of_nullableAt (ha : Arena nodes) (h : n < f) (hn : nullableAt nodes f n = false) :
    Eats nodes (node nodes n) := by
  induction f generalizing n with
  | zero => omega
  | succ f ih =>
    have child : ∀ c ∈ (node nodes n).children, nullableAt nodes f c = false → Eats nodes (node nodes c) := by
      intro c hc
      have hlt := ha.child_lt hc
      exact ih (by omega)
    unfold nullableAt at hn
    cases hm : node nodes n <;> simp only [hm, Node.children] at hn child
    case char => exact .char
    case any => exact .any
    case cls => exact .cls
    case cat a b =>
      rcases Bool.and_eq_false_iff.1 hn with h | h
      · exact .catLeft (child a (by simp) h)
      · exact .catRight (child b (by simp) h)
    case alt a b =>
      obtain ⟨h, h'⟩ := Bool.or_eq_false_iff.1 hn
      exact .alt (child a (by simp) h) (child b (by simp) h')
    case plus a => exact .plus (child a (by simp) hn)
    all_goals cases hn

def Feeds (nodes : List Node) : Node → Prop
  | .star a | .plus a => Eats nodes (node nodes a)
  | _ => True

theorem Feeds.append (h : Feeds nodes m) (l : List Node) : Feeds (nodes ++ l) m := by
  cases m with
  | star a | plus a => cases Eats.append (.plus h) l; assumption
  | _ => trivial

/-- `p'` has read on from `p`, and its arena has grown -/
structure Reads (p p' : Parser) : Prop where
  pat : p'.pat = p.pat
  pos : p.pos ≤ p'.pos
  len : p.nodes.length ≤ p'.nodes.length
  arena : Arena p.nodes → Arena p'.nodes
  feeds : Arena p.nodes → (∀ m ∈ p.nodes, Feeds p.nodes m) → ∀ m ∈ p'.nodes, Feeds p'.nodes m

/-- ... and `n` is a node of it -/
structure Parsed (p : Parser) (n : Nat) (p' : Parser) : Prop extends Reads p p' where
  lt : n < p'.nodes.length

section Reads
variable {p p' q r : Parser} {n : Nat}

theorem Reads.skip {pos : Nat} (h : p.pos ≤ pos) : Reads p { p with pos } :=
  ⟨rfl, h, Nat.le_refl _, id, fun _ => id⟩

theorem Reads.refl (p : Parser) : Reads p p := .skip (Nat.le_refl _)

theorem Reads.advance (p : Parser) : Reads p p.advance := .skip (le_succ _)

theorem Reads.trans (h : Reads p q) (h' : Reads q r) : Reads p r :=
  ⟨h'.pat.trans h.pat, Nat.le_trans h.pos h'.pos, Nat.le_trans h.len h'.len, fun ha => h'.arena (h.arena ha),
    fun ha hf => h'.feeds (h.arena ha) (h.feeds ha hf)⟩

theorem Reads.parsed (h : Reads p q) (h' : Parsed q n r) : Parsed p n r := ⟨h.trans h'.toReads, h'.lt⟩

theorem Parsed.reads (h : Parsed p n q) (h' : Reads q r) : Parsed p n r :=
  ⟨h.toReads.trans h', Nat.lt_of_lt_of_le h.lt h'.len⟩

theorem push_agree (p : Parser) (hc : ∀ c ∈ m.children, c < p.nodes.length)
    (hm : Arena p.nodes → Feeds p.nodes m) : Agree (p.push m) (p.push m) fun x => Parsed p x.1 x.2 := by
  unfold Parser.push
  split
  · exact .error
  refine .ok ⟨⟨rfl, Nat.le_refl _, by simp, fun ha => ha.push hc, fun ha hf k hk => .append ?_ _⟩, by simp⟩
  rcases mem_append.1 hk with hk | hk
  · exact hf k hk
  · exact mem_singleton.1 hk ▸ hm ha

def Parser.left (p : Parser) : Nat := p.pat.length - p.pos

theorem Reads.left (h : Reads p p') : p'.left ≤ p.left := by
  rw [Parser.left, h.pat]
  exact Nat.sub_le_sub_left h.pos _

theorem left_advance (h : p.peek ≠ none) : p.advance.left < p.left := by
  have hlt : p.pos < p.pat.length := by
    by_contra hp
    exact h (getElem?_eq_none (by omega))
  exact Nat.sub_lt_sub_left hlt (Nat.lt_succ_self _)

/-! ## bracket expressions -/

theorem classLo_agree (c : UInt8) (p : Parser) : Agree (classLo c p) (classLo c p) fun x => Reads p x.2 := by
  unfold classLo
  split
  · split
    · exact .error
    · exact .ok (.advance p)
  · exact .ok (.refl p)

theorem classHi_agree (p : Parser) : Agree (classHi p) (classHi p) fun x => Reads p x.2 := by
  unfold classHi
  split
  · exact .error
  split
  · split
    · exact .error
    · exact .ok ((Reads.advance p).trans (.advance _))
  · exact .ok (.advance p)

theorem classLoop_agree {first : Bool} {bits : Bitmap} (h : p.left < f) (h' : p.left < f') :
    Agree (classLoop f first bits p) (classLoop f' first bits p) fun x => Reads p.advance x.2 := by
  induction f generalizing f' first bits p with
  | zero => omega
  | succ f ih =>
    obtain ⟨f', rfl⟩ : ∃ g, f' = g + 1 := ⟨f' - 1, by omega⟩
    unfold classLoop
    cases hc : p.peek with
    | none => exact .error
    | some c =>
      have hlt := left_advance (p := p) (by simp [hc])
      -- the next item, after what this one has read
      have next : ∀ {q : Parser} {bits}, Reads p.advance q →
          Agree (classLoop f false bits q) (classLoop f' false bits q) fun x => Reads p.advance x.2 := by
        intro q bits hq
        have hleft := hq.left
        exact (ih (by omega) (by omega)).mono fun x hx => hq.trans ((Reads.advance q).trans hx)
      simp only
      split
      · exact .ok (.refl _)
      split
      · split
        · exact .error
        · split
          · exact .error
          · exact next (Reads.skip (p := p.advance) (by simp only [Parser.advance_pos]; omega))
      · refine (classLo_agree c p.advance).bind fun x hlo => ?_
        split
        · refine (classHi_agree x.2.advance).bind fun y hhi => ?_
          split
          · exact .error
          · exact next (hlo.trans ((Reads.advance _).trans hhi))
        · exact next hlo

theorem parseClass_agree (p : Parser) :
    Agree (parseClass p) (parseClass p) fun x => Parsed p.advance x.1 x.2 := by
  unfold parseClass
  dsimp only
  split
  · exact .error
  generalize hq : (if decide (p.advance.peek = some (ch '^')) then p.advance.advance else p.advance) = q
  have hread : Reads p.advance q := by
    rw [← hq]
    split
    · exact .advance _
    · exact .refl _
  have hfuel : q.left < q.pat.length + 1 := lt_succ_of_le (sub_le _ _)
  refine (classLoop_agree hfuel hfuel).bind fun x hx => ?_
  refine (push_agree _ (by simp [Node.children]) fun _ => by trivial).mono fun y hy => ?_
  exact (hread.trans ((Reads.advance q).trans hx)).parsed ⟨⟨hy.pat, hy.pos, hy.len, hy.arena, hy.feeds⟩, hy.lt⟩

/-! ## the grammar -/

theorem repeatLoop_agree {atom : Nat} (h : p.left < f) (h' : p.left < f') (ha : atom < p.nodes.length) :
    Agree (repeatLoop f atom p) (repeatLoop f' atom p) fun x => Parsed p x.1 x.2 := by
  induction f generalizing f' atom p with
  | zero => omega
  | succ f ih =>
    obtain ⟨f', rfl⟩ : ∃ g, f' = g + 1 := ⟨f' - 1, by omega⟩
    have step : ∀ node : Node, node.children = [atom] → p.peek ≠ none → (Arena p.nodes → Feeds p.nodes node) →
        Agree (p.advance.push node >>= fun x => repeatLoop f x.1 x.2)
          (p.advance.push node >>= fun x => repeatLoop f' x.1 x.2) fun x => Parsed p x.1 x.2 := by
      intro node hn hp hfed
      have hlt := left_advance hp
      refine (push_agree p.advance (by rw [hn]; simpa using ha) hfed).bind fun x hx => ?_
      have hleft := hx.left
      refine (ih (by omega) (by omega) hx.lt).mono fun y hy => ?_
      exact ((Reads.advance p).trans hx.toReads).parsed hy
    -- the source rejects what may match nothing
    have fed (hnull : nullable p.nodes atom ≠ true) (har : Arena p.nodes) : Eats p.nodes (node p.nodes atom) :=
      eats_of_nullableAt har (lt_succ_self _) (Bool.eq_false_iff.2 hnull)
    unfold repeatLoop
    split
    · rename_i hp
      split
      · exact .error
      · exact step _ rfl (by simp [hp]) (fed ‹_›)
    · split
      · rename_i hp
        split
        · exact .error
        · exact step _ rfl (by simp [hp]) (fed ‹_›)
      · split
        · rename_i hp
          exact step _ rfl (by simp [hp]) fun _ => trivial
        · exact .ok ⟨.refl _, ha⟩

theorem parseAtom_agree {depth : Nat} (ihAlt : ∀ {depth : Nat} {q : Parser}, q.left < p.left →
      Agree (parseAlt f depth q) (parseAlt f' depth q) fun x => Parsed q x.1 x.2) :
    Agree (parseAtom (f + 1) depth p) (parseAtom (f' + 1) depth p)
      fun x => Parsed p x.1 x.2 ∧ (p.peek ≠ none → Reads p.advance x.2) := by
  rw [parseAtom, parseAtom]
  cases hp : p.peek with
  | none =>
    exact (push_agree _ (by simp [Node.children]) fun _ => by trivial).mono fun x hx =>
      ⟨hx, fun h => absurd rfl h⟩
  | some c =>
    have hlt := left_advance (p := p) (by simp [hp])
    refine Agree.mono (Q := fun x => Parsed p.advance x.1 x.2) ?_ fun x hx =>
      ⟨(Reads.advance p).parsed hx, fun _ => hx.toReads⟩
    have leaf : ∀ node : Node, node.children = [] → Agree (p.advance.push node) (p.advance.push node)
        fun x => Parsed p.advance x.1 x.2 := fun node hn =>
      push_agree _ (by rw [hn]; simp) fun _ => by cases node <;> trivial
    simp only
    split
    · exact .error
    split
    · split
      · exact .error
      · refine (ihAlt hlt).bind fun x hx => ?_
        split
        · exact .error
        · exact .ok (hx.reads (.advance _))
    split
    · exact .error
    split
    · exact leaf _ rfl
    split
    · exact leaf _ rfl
    split
    · exact leaf _ rfl
    split
    · exact parseClass_agree p
    split
    · split
      · exact .error
      · exact (push_agree _ (by simp [Node.children]) fun _ => by trivial).mono fun x hx =>
          (Reads.advance _).parsed hx
    · exact leaf _ rfl

end Reads

/-- With `r` bytes left, `5 * r` calls and a few more reach the end of every rule.  Each leaves its
node behind; an atom consumes a byte if there is one. -/
theorem parse_agree (f : Nat) : (∀ {f' depth : Nat} {p : Parser}, 5 * p.left + 4 ≤ f → 5 * p.left + 4 ≤ f' →
      Agree (parseAlt f depth p) (parseAlt f' depth p) fun x => Parsed p x.1 x.2) ∧
    (∀ {f' depth left : Nat} {p : Parser}, 5 * p.left + 3 ≤ f → 5 * p.left + 3 ≤ f' →
      left < p.nodes.length →
      Agree (altLoop f depth left p) (altLoop f' depth left p) fun x => Parsed p x.1 x.2) ∧
    (∀ {f' depth : Nat} {acc : Option Nat} {p : Parser}, 5 * p.left + 3 ≤ f → 5 * p.left + 3 ≤ f' →
      (∀ l, acc = some l → l < p.nodes.length) →
      Agree (parseConcat f depth acc p) (parseConcat f' depth acc p) fun x => Parsed p x.1 x.2) ∧
    (∀ {f' depth : Nat} {p : Parser}, 5 * p.left + 2 ≤ f → 5 * p.left + 2 ≤ f' →
      Agree (parseRepeat f depth p) (parseRepeat f' depth p)
        fun x => Parsed p x.1 x.2 ∧ (p.peek ≠ none → Reads p.advance x.2)) ∧
    (∀ {f' depth : Nat} {p : Parser}, 5 * p.left + 1 ≤ f → 5 * p.left + 1 ≤ f' →
      Agree (parseAtom f depth p) (parseAtom f' depth p)
        fun x => Parsed p x.1 x.2 ∧ (p.peek ≠ none → Reads p.advance x.2)) := by
  induction f with
  | zero => refine ⟨?_, ?_, ?_, ?_, ?_⟩ <;> (intros; omega)
  | succ f ih =>
    obtain ⟨ihAlt, ihLoop, ihConcat, ihRepeat, ihAtom⟩ := ih
    refine ⟨?_, ?_, ?_, ?_, ?_⟩
    · intro f' depth p h h'
      obtain ⟨f', rfl⟩ : ∃ g, f' = g + 1 := ⟨f' - 1, by omega⟩
      rw [parseAlt, parseAlt]
      refine (ihConcat (by omega) (by omega) (by simp)).bind fun x hx => ?_
      have hleft := hx.left
      exact (ihLoop (by omega) (by omega) hx.lt).mono fun y hy => hx.toReads.parsed hy
    · intro f' depth left p h h' hl
      obtain ⟨f', rfl⟩ : ∃ g, f' = g + 1 := ⟨f' - 1, by omega⟩
      rw [altLoop, altLoop]
      split
      · rename_i hp
        have hlt := left_advance (p := p) (by simp [hp])
        refine (ihConcat (by omega) (by omega) (by simp)).bind fun x hx => ?_
        have hl' : left < x.2.nodes.length := Nat.lt_of_lt_of_le hl hx.len
        refine (push_agree _ (by simp [Node.children, hl', hx.lt]) fun _ => by trivial).bind fun y hy => ?_
        have hleft := (hx.trans hy.toReads).left
        refine (ihLoop (by omega) (by omega) hy.lt).mono fun z hz => ?_
        exact (((Reads.advance p).trans hx.toReads).trans hy.toReads).parsed hz
      · exact .ok ⟨.refl p, hl⟩
    · intro f' depth acc p h h' hacc
      obtain ⟨f', rfl⟩ : ∃ g, f' = g + 1 := ⟨f' - 1, by omega⟩
      unfold parseConcat
      split
      · cases acc with
        | none => exact push_agree _ (by simp [Node.children]) fun _ => trivial
        | some l => exact .ok ⟨.refl p, hacc l rfl⟩
      rename_i hp
      have hpk : p.peek ≠ none := fun h => hp (.inl h)
      have hlt := left_advance hpk
      refine (ihRepeat (by omega) (by omega)).bind fun x hx => ?_
      have hleft := (hx.2 hpk).left
      cases acc with
      | none =>
        refine (ihConcat (by omega) (by omega) (by rintro l ⟨⟩; exact hx.1.lt)).mono fun y hy => ?_
        exact hx.1.toReads.parsed hy
      | some l =>
        have hl : l < x.2.nodes.length := Nat.lt_of_lt_of_le (hacc l rfl) hx.1.len
        refine (push_agree _ (by simp [Node.children, hl, hx.1.lt]) fun _ => by trivial).bind fun y hy => ?_
        have hpush := hy.left
        refine (ihConcat (by omega) (by omega) (by rintro l ⟨⟩; exact hy.lt)).mono fun z hz => ?_
        exact (hx.1.trans hy.toReads).parsed hz
    · intro f' depth p h h'
      obtain ⟨f', rfl⟩ : ∃ g, f' = g + 1 := ⟨f' - 1, by omega⟩
      rw [parseRepeat, parseRepeat]
      refine (ihAtom (by omega) (by omega)).bind fun x hx => ?_
      have hleft := hx.1.left
      refine (repeatLoop_agree (by omega) (by omega) hx.1.lt).mono fun y hy => ?_
      exact ⟨hx.1.toReads.parsed hy, fun hp => (hx.2 hp).trans hy.toReads⟩
    · intro f' depth p h h'
      obtain ⟨f', rfl⟩ : ∃ g, f' = g + 1 := ⟨f' - 1, by omega⟩
      exact parseAtom_agree fun hlt => ihAlt (by omega) (by omega)

/-- **`parseFuel` is enough**: no parse of a pattern ever stops for want of fuel. -/
theorem parseAlt_fuel (pat : List UInt8) {fuel : Nat} (h : parseFuel pat ≤ fuel) :
    Agree (parseAlt fuel 0 (Parser.new pat)) (parseAlt (parseFuel pat) 0 (Parser.new pat))
      fun x => Parsed (Parser.new pat) x.1 x.2 := by
  have hleft : (Parser.new pat).left = pat.length := rfl
  unfold parseFuel at h ⊢
  exact (parse_agree fuel).1 (by omega) (by omega)

/-- **The arena of a parsed pattern**: children before parents, the root in it. -/
theorem parse_arena {pat : List UInt8} {root : Nat} (h : parse pat = .ok (root, p)) :
    Arena p.nodes ∧ root < p.nodes.length ∧ ∀ m ∈ p.nodes, Feeds p.nodes m := by
  obtain ⟨⟨n, q⟩, hq, h⟩ := except_bind_eq_ok h
  simp only at h
  split at h
  · cases h
  cases h
  have h1 := (parseAlt_fuel pat (Nat.le_refl _)).post _ hq
  exact ⟨h1.arena arena_nil, h1.lt, h1.feeds arena_nil nofun⟩

end Ouroboros.Regex
