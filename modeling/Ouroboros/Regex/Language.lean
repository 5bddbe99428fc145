import Ouroboros.Regex.Vm

/-!
# The engine decides the language of the pattern

The language of an arena node, with the byte tests as parameters: `InLang nodes chr cls text n s e`
says that the bytes `text[s..e]` are in the language of node `n`, where `^` holds at offset `0` only
and `$` at `text.length` only.

* `accepts_of_inLang`, `inLang_of_accepts`  a thread gets through a fragment exactly over a substring in the
  language;
* `accepts_iff`  so a program accepts from `s` iff some `text[s..e]` is in the language of its root;
* `isMatch_decides` `yes` and `no` of the engine are the truth about the pattern and the text;
* `run_halts`  without its limits the engine comes to an answer from every offset of a text.
-/

namespace Ouroboros.Regex

open Backtrack List Program

variable {r : Program} {text : List UInt8} {fold : Bool} {pc sp a k lo s e hi : Nat}
    {n : Node} {nodes : List Node}

/-- `text[s..e]` is in the language of node `n` -/
inductive InLang (nodes : List Node) (chr : UInt8 → UInt8 → Bool) (cls : Nat → UInt8 → Bool)
    (text : List UInt8) : Node → Nat → Nat → Prop where
  | empty {s : Nat} : InLang nodes chr cls text .empty s s
  | char {s : Nat} {c b : UInt8} : text[s]? = some b → chr c b = true →
      InLang nodes chr cls text (.char c) s (s + 1)
  | any {s : Nat} {b : UInt8} : text[s]? = some b → InLang nodes chr cls text .any s (s + 1)
  | cls {s i : Nat} {b : UInt8} : text[s]? = some b → cls i b = true →
      InLang nodes chr cls text (.cls i) s (s + 1)
  | bol {s : Nat} : s = 0 → InLang nodes chr cls text .bol s s
  | eol {s : Nat} : s = text.length → InLang nodes chr cls text .eol s s
  | cat {a b s m e : Nat} : InLang nodes chr cls text (node nodes a) s m →
      InLang nodes chr cls text (node nodes b) m e → InLang nodes chr cls text (.cat a b) s e
  | altLeft {a b s e : Nat} : InLang nodes chr cls text (node nodes a) s e →
      InLang nodes chr cls text (.alt a b) s e
  | altRight {a b s e : Nat} : InLang nodes chr cls text (node nodes b) s e →
      InLang nodes chr cls text (.alt a b) s e
  | starNil {a s : Nat} : InLang nodes chr cls text (.star a) s s
  | starCons {a s m e : Nat} : InLang nodes chr cls text (node nodes a) s m →
      InLang nodes chr cls text (.star a) m e → InLang nodes chr cls text (.star a) s e
  | plusOne {a s e : Nat} : InLang nodes chr cls text (node nodes a) s e →
      InLang nodes chr cls text (.plus a) s e
  | plusCons {a s m e : Nat} : InLang nodes chr cls text (node nodes a) s m →
      InLang nodes chr cls text (.plus a) m e → InLang nodes chr cls text (.plus a) s e
  | questNone {a s : Nat} : InLang nodes chr cls text (.quest a) s s
  | questSome {a s e : Nat} : InLang nodes chr cls text (node nodes a) s e →
      InLang nodes chr cls text (.quest a) s e

theorem InLang.bounds {chr : UInt8 → UInt8 → Bool} {cls : Nat → UInt8 → Bool}
    (h : InLang nodes chr cls text n s e) (hs : s ≤ text.length) : s ≤ e ∧ e ≤ text.length := by
  have byte : ∀ {s : Nat} {b : UInt8}, text[s]? = some b → s ≤ s + 1 ∧ s + 1 ≤ text.length := by
    intro s b hb
    exact ⟨Nat.le_succ _, (List.getElem?_eq_some_iff.mp hb).1⟩
  induction h with
  | empty | bol | eol | starNil | questNone => exact ⟨le_rfl, hs⟩
  | char hb | any hb | cls hb => exact byte hb
  | cat _ _ iha ihb | starCons _ _ iha ihb | plusCons _ _ iha ihb =>
    obtain ⟨h1, h2⟩ := iha hs
    obtain ⟨h3, h4⟩ := ihb h2
    exact ⟨le_trans h1 h3, h4⟩
  | altLeft _ ih | altRight _ ih | plusOne _ ih | questSome _ ih => exact ih hs

/-! ## one instruction -/

section
variable {test : UInt8 → Bool}

theorem fetch_of_cell {i : Inst} (h : r.prog[pc]? = some i) : r.fetch pc = i := by
  rw [fetch, getD_eq_getElem?_getD, h, Option.getD_some]

theorem step_jmp {t : Nat} (h : r.prog[pc]? = some (.jmp t)) : r.step text fold (pc, sp) = .goto (t, sp) := by
  simp only [step, fetch_of_cell h]

theorem step_split {b : Nat} (h : r.prog[pc]? = some (.split a b)) :
    r.step text fold (pc, sp) = .fork (a, sp) (b, sp) := by
  simp only [step, fetch_of_cell h]

theorem consume_some {b : UInt8} (hb : text[sp]? = some b)
    (ht : test b) : consume text test pc sp = .goto (pc + 1, sp + 1) := by
  simp only [consume, hb, ht, if_true]

theorem accepts_consume (h : Accepts (r.step text fold) k (pc, sp))
    (hs : r.step text fold (pc, sp) = consume text test pc sp) :
    ∃ b j, j ≤ k ∧ text[sp]? = some b ∧ test b ∧ Accepts (r.step text fold) j (pc + 1, sp + 1) := by
  unfold consume at hs
  split at hs
  · exact (h.not_of_fail hs).elim
  rename_i b hb
  split at hs
  · rename_i ht
    obtain ⟨j, rfl, hj⟩ := h.of_goto hs
    exact ⟨b, j, Nat.le_succ _, hb, ht, hj⟩
  · exact (h.not_of_fail hs).elim

theorem accepts_assert {p : Prop} [Decidable p] (h : Accepts (r.step text fold) k (pc, sp))
    (hs : r.step text fold (pc, sp) = if ¬ p then .fail else .goto (pc + 1, sp)) :
    p ∧ ∃ j, j ≤ k ∧ Accepts (r.step text fold) j (pc + 1, sp) := by
  by_cases hp : p
  · rw [if_neg (not_not_intro hp)] at hs
    obtain ⟨j, rfl, hj⟩ := h.of_goto hs
    exact ⟨hp, j, Nat.le_succ _, hj⟩
  · rw [if_pos hp] at hs
    exact (h.not_of_fail hs).elim

/-! ## fragments do what their nodes say -/


def Program.classTest (r : Program) (fold : Bool) (i : Nat) (b : UInt8) : Bool :=
  classMatches fold (r.bits i) (r.negated i) b

/-- **Completeness of a fragment**: over a substring in the language of its node a thread gets to its end. -/
theorem accepts_of_inLang (hf : Frag nodes r.prog n lo hi)
    (hl : InLang nodes (charMatches fold) (r.classTest fold) text n s e)
    (hk : Winning (r.step text fold) (hi, e)) : Winning (r.step text fold) (lo, s) := by
  induction hf generalizing s e with
  | empty => cases hl; exact hk
  | char hc =>
    cases hl with
    | char hb ht => exact (winning_goto (by simp only [step, fetch_of_cell hc, consume_some hb ht])).2 hk
  | any hc =>
    cases hl with
    | any hb => exact (winning_goto (by simp only [step, fetch_of_cell hc]; exact consume_some hb rfl)).2 hk
  | cls hc =>
    cases hl with
    | cls hb ht =>
      exact (winning_goto (by simp only [step, fetch_of_cell hc]; exact consume_some hb ht)).2 hk
  | bol hc | eol hc =>
    cases hl
    exact (winning_goto (by simp [step, fetch_of_cell hc, *])).2 hk
  | cat _ _ iha ihb =>
    cases hl with
    | cat h1 h2 => exact iha h1 (ihb h2 hk)
  | alt hs _ hj _ iha ihb =>
    cases hl with
    | altLeft h1 => exact (winning_fork (step_split hs)).2 (.inl (iha h1 ((winning_goto (step_jmp hj)).2 hk)))
    | altRight h1 => exact (winning_fork (step_split hs)).2 (.inr (ihb h1 hk))
  | @star a lo mid hs _ hj iha =>
    generalize hn : Node.star a = n at hl
    induction hl with
    | starNil => exact (winning_fork (step_split hs)).2 (.inr hk)
    | starCons h1 _ _ ih =>
      cases hn
      have h2 := iha h1 ((winning_goto (step_jmp hj)).2 (ih hk rfl))
      exact (winning_fork (step_split hs)).2 (.inl h2)
    | _ => cases hn
  | @plus a lo mid _ hs iha =>
    generalize hn : Node.plus a = n at hl
    induction hl with
    | plusOne h1 _ =>
      cases hn
      exact iha h1 ((winning_fork (step_split hs)).2 (.inr hk))
    | plusCons h1 _ _ ih =>
      cases hn
      exact iha h1 ((winning_fork (step_split hs)).2 (.inl (ih hk rfl)))
    | _ => cases hn
  | quest hs _ iha =>
    cases hl with
    | questNone => exact (winning_fork (step_split hs)).2 (.inr hk)
    | questSome h1 => exact (winning_fork (step_split hs)).2 (.inl (iha h1 hk))

/-- **Soundness of a fragment**: a thread that accepts from its first instruction gets to its end over a
substring in the language of the node.  The moves left do not grow, which carries the induction through the
loops. -/
theorem inLang_of_accepts (hf : Frag nodes r.prog n lo hi) (hk : Accepts (r.step text fold) k (lo, s)) :
    ∃ e j, j ≤ k ∧ InLang nodes (charMatches fold) (r.classTest fold) text n s e ∧
      Accepts (r.step text fold) j (hi, e) := by
  induction hf generalizing s k with
  | empty => exact ⟨s, k, le_rfl, .empty, hk⟩
  | char hc | any hc | cls hc =>
    obtain ⟨b, j, hj, hb, ht, h⟩ := accepts_consume hk (by simp only [step, fetch_of_cell hc]; rfl)
    exact ⟨s + 1, j, hj, by constructor <;> assumption, h⟩
  | bol hc | eol hc =>
    obtain ⟨h0, j, hj, h⟩ := accepts_assert hk (by simp only [step, fetch_of_cell hc]; rfl)
    exact ⟨s, j, hj, by constructor; exact h0, h⟩
  | cat _ _ iha ihb =>
    obtain ⟨m, j, hj, h1, h2⟩ := iha hk
    obtain ⟨e, i, hi, h3, h4⟩ := ihb h2
    exact ⟨e, i, le_trans hi hj, .cat h1 h3, h4⟩
  | alt hs _ hj _ iha ihb =>
    obtain ⟨k, rfl, hk | hk⟩ := hk.of_fork (step_split hs)
    · obtain ⟨e, j, hjk, h1, h2⟩ := iha hk
      obtain ⟨i, rfl, h3⟩ := h2.of_goto (step_jmp hj)
      exact ⟨e, i, by omega, .altLeft h1, h3⟩
    · obtain ⟨e, j, hjk, h1, h2⟩ := ihb hk
      exact ⟨e, j, by omega, .altRight h1, h2⟩
  | star hs _ hj iha =>
    induction k using Nat.strongRecOn generalizing s with
    | ind k ih =>
      obtain ⟨k, rfl, hk | hk⟩ := hk.of_fork (step_split hs)
      · obtain ⟨m, j, hjk, h1, h2⟩ := iha hk
        obtain ⟨i, rfl, h3⟩ := h2.of_goto (step_jmp hj)
        obtain ⟨e, l, hl, h4, h5⟩ := ih i (by omega) h3
        exact ⟨e, l, by omega, .starCons h1 h4, h5⟩
      · exact ⟨s, k, by omega, .starNil, hk⟩
  | plus _ hs iha =>
    induction k using Nat.strongRecOn generalizing s with
    | ind k ih =>
      obtain ⟨m, j, hjk, h1, h2⟩ := iha hk
      obtain ⟨i, rfl, h3 | h3⟩ := h2.of_fork (step_split hs)
      · obtain ⟨e, l, hl, h4, h5⟩ := ih i (by omega) h3
        exact ⟨e, l, by omega, .plusCons h1 h4, h5⟩
      · exact ⟨m, i, by omega, .plusOne h1, h3⟩
  | quest hs _ iha =>
    obtain ⟨k, rfl, hk | hk⟩ := hk.of_fork (step_split hs)
    · obtain ⟨e, j, hjk, h1, h2⟩ := iha hk
      exact ⟨e, j, by omega, .questSome h1, h2⟩
    · exact ⟨s, k, by omega, .questNone, hk⟩

theorem accepts_iff (hf : Frag nodes r.prog n 0 hi) (hm : r.fetch hi = .accept) :
    Winning (r.step text fold) (0, s) ↔
      ∃ e, InLang nodes (charMatches fold) (r.classTest fold) text n s e := by
  constructor
  · rintro ⟨k, hk⟩
    obtain ⟨e, _, _, h, _⟩ := inLang_of_accepts hf hk
    exact ⟨e, h⟩
  · rintro ⟨e, he⟩
    exact accepts_of_inLang hf he ⟨0, .accept (by simp only [step, hm])⟩

end

/-! ## the engine -/

def Parser.classTest (p : Parser) (fold : Bool) (i : Nat) (b : UInt8) : Bool :=
  classMatches fold (p.classes.getD i 0) (p.classNegated.getD i false) b

/-- `text[s..e]` is in the language of the pattern that parsed to `root` in `p` -/
def Parser.InLanguage (p : Parser) (root : Nat) (text : List UInt8) (fold : Bool) (s e : Nat) : Prop :=
  InLang p.nodes (charMatches fold) (p.classTest fold) text (node p.nodes root) s e

theorem parse_nil : parse [] = .ok (0, ⟨[], 0, [.empty], [], []⟩) := rfl

/-- **The engine decides the language of the pattern.**  After `yes` some substring is in it, after `no` none
is. -/
theorem isMatch_decides (pat text : List UInt8) (fold : Bool) (r : Program) (hc : compile pat = .ok r) :
    ∃ root p, parse pat = .ok (root, p) ∧ (r.isMatch text fold = .yes →
        ∃ s e, s ≤ e ∧ e ≤ text.length ∧ p.InLanguage root text fold s e) ∧
      (r.isMatch text fold = .no → ∀ s e, s ≤ e → e ≤ text.length → ¬ p.InLanguage root text fold s e) := by
  by_cases hne : pat = []
  · subst hne
    refine ⟨0, _, parse_nil, fun _ => ⟨0, 0, le_rfl, Nat.zero_le _, .empty⟩, fun h => ?_⟩
    cases hc
    cases h
  · obtain ⟨root, p, hi, hp, hf, hm, h1, h2, h3⟩ := compile_frag hc hne
    have htest : r.classTest fold = p.classTest fold := by
      funext i b
      rw [classTest, Parser.classTest, bits, negated, h1, h2]
    have hacc : ∀ s, Winning (r.step text fold) (0, s) ↔ ∃ e, p.InLanguage root text fold s e := by
      intro s
      rw [accepts_iff hf hm, htest]
      rfl
    refine ⟨root, p, hp, fun h => ?_, fun h s e hse he hl => ?_⟩
    · obtain ⟨s, hs, hrun⟩ := isMatch_yes h h3
      obtain ⟨u, hu, hwin⟩ := explore_spec.1 hrun
      obtain rfl := mem_singleton.mp hu
      obtain ⟨e, he⟩ := (hacc s).mp hwin
      obtain ⟨h4, h5⟩ := he.bounds hs
      exact ⟨s, e, h4, h5, he⟩
    · exact explore_spec.2 (isMatch_no h h3 s (le_trans hse he)) ⟨_, mem_cons_self, (hacc s).mpr ⟨e, hl⟩⟩

/-- `a+$` under case folding: found in `bA`, not in `ab` -/
theorem isMatch_decides_trailing_a : ∃ r, compile ("a+$".toList.map ch) = .ok r ∧
    r.isMatch ("bA".toList.map ch) true = .yes ∧ r.isMatch ("ab".toList.map ch) true = .no ∧
    ∃ root p, parse ("a+$".toList.map ch) = .ok (root, p) ∧
        (r.isMatch ("bA".toList.map ch) true = .yes → ∃ s e, s ≤ e ∧
        e ≤ ("bA".toList.map ch).length ∧ p.InLanguage root ("bA".toList.map ch) true s e) ∧
      (r.isMatch ("bA".toList.map ch) true = .no → ∀ s e, s ≤ e →
        e ≤ ("bA".toList.map ch).length → ¬ p.InLanguage root ("bA".toList.map ch) true s e) := by
  refine ⟨⟨[.char (ch 'a'), .split 0 2, .eol, .accept], [], [], false⟩, by decide, by decide, by decide, ?_⟩
  exact isMatch_decides _ _ true _ (by decide)

/-! ## halting -/

section

theorem ends_consume {test : UInt8 → Bool} (hs : r.step text fold (pc, sp) = consume text test pc sp)
    (h : sp < text.length → Ends (r.step text fold) (pc + 1, sp + 1)) : Ends (r.step text fold) (pc, sp) := by
  unfold consume at hs
  split at hs
  · exact .fail hs
  rename_i b hb
  split at hs
  · exact .goto hs (h (List.getElem?_eq_some_iff.1 hb).1)
  · exact .fail hs

theorem ends_assert {p : Prop} [Decidable p]
    (hs : r.step text fold (pc, sp) = if ¬ p then .fail else .goto (pc + 1, sp))
    (h : Ends (r.step text fold) (pc + 1, sp)) : Ends (r.step text fold) (pc, sp) := by
  split at hs
  · exact .fail hs
  · exact .goto hs h

theorem feeds_node (h : ∀ m ∈ nodes, Feeds nodes m) (i : Nat) : Feeds nodes (node nodes i) := by
  rw [node, getD_eq_getElem?_getD]
  cases hi : nodes[i]? with
  | none => trivial
  | some m => exact h m (mem_of_getElem? hi)

/-- **A fragment ends if what comes after it does**: there no more bytes are left than at its start, and
fewer if its node consumes.  That carries the induction through the loops. -/
theorem ends_of_frag (hfed : ∀ m ∈ nodes, Feeds nodes m) (hf : Frag nodes r.prog n lo hi) (hn : Feeds nodes n)
    (hk : ∀ e, text.length - e ≤ text.length - s → (Eats nodes n → text.length - e < text.length - s) →
      Ends (r.step text fold) (hi, e)) : Ends (r.step text fold) (lo, s) := by
  have sub := feeds_node hfed
  induction hf generalizing s with
  | empty => exact hk s le_rfl (by rintro ⟨⟩)
  | char hc | any hc | cls hc =>
    refine ends_consume (by simp only [step, fetch_of_cell hc]; rfl) fun hlt => ?_
    exact hk (s + 1) (by omega) fun _ => by omega
  | bol hc | eol hc =>
    exact ends_assert (by simp only [step, fetch_of_cell hc]; rfl) (hk s le_rfl (by rintro ⟨⟩))
  | @cat a b lo mid hi _ _ iha ihb =>
    refine iha (sub a) fun m hm ha => ihb (sub b) fun e he hb => hk e (le_trans he hm) fun hcat => ?_
    cases hcat with
    | catLeft h => exact lt_of_le_of_lt he (ha h)
    | catRight h => exact lt_of_lt_of_le (hb h) hm
  | @alt a b lo mid hi hs _ hj _ iha ihb =>
    refine .fork (step_split hs) (iha (sub a) fun e he ha => .goto (step_jmp hj) (hk e he ?_))
      (ihb (sub b) fun e he hb => hk e he ?_)
    · rintro ⟨⟩
      exact ha ‹_›
    · rintro ⟨⟩
      exact hb ‹_›
  | @star a lo mid hs _ hj iha =>
    induction hleft : text.length - s using Nat.strongRecOn generalizing s with
    | ind left ih =>
      refine .fork (step_split hs) (iha (sub a) fun e he ha => .goto (step_jmp hj) ?_)
        (hk s le_rfl (by rintro ⟨⟩))
      have hlt := ha hn
      exact ih _ (by omega) (fun e' he' _ => hk e' (by omega) (by rintro ⟨⟩)) rfl
  | @plus a lo mid _ hs iha =>
    induction hleft : text.length - s using Nat.strongRecOn generalizing s with
    | ind left ih =>
      refine iha (sub a) fun e he ha => ?_
      have hlt := ha hn
      refine .fork (step_split hs) (ih _ (by omega) (fun e' he' _ => hk e' (by omega) fun _ => by omega) rfl) ?_
      exact hk e he fun _ => hlt
  | @quest a lo hi hs _ iha =>
    exact .fork (step_split hs) (iha (sub a) fun e he _ => hk e he (by rintro ⟨⟩)) (hk s le_rfl (by rintro ⟨⟩))

end

/-- **Every run of a compiled pattern comes to an answer without the engine's limits.** -/
theorem run_halts {pat : List UInt8} {r : Program} (hc : compile pat = .ok r) (text : List UInt8)
    (fold : Bool) (start : Nat) : Halts (r.step text fold) (0, start) [] := by
  refine halts_of_ends ?_ nofun
  by_cases hne : pat = []
  · subst hne
    cases hc
    exact .accept rfl
  obtain ⟨root, p, hi, hp, hf, hm, -⟩ := compile_frag hc hne
  have hfed := (parse_arena hp).2.2
  exact ends_of_frag hfed hf (feeds_node hfed root) fun e _ _ => .accept (by simp only [step, hm])

/-- nested repeats, over `aab` -/
theorem run_halts_nested : ∃ r, compile ("((a|b)+c?)*$".toList.map ch) = .ok r ∧
    Halts (r.step ("aab".toList.map ch) false) (0, 0) [] := by
  have hok : (compile ("((a|b)+c?)*$".toList.map ch)).isOk = true := by decide +kernel
  cases hr : compile ("((a|b)+c?)*$".toList.map ch) with
  | error e => rw [hr] at hok; cases hok
  | ok r => exact ⟨r, rfl, run_halts hr _ false 0⟩

end Ouroboros.Regex
