import Ouroboros.Lib.Backtrack
import Ouroboros.Lib.Hex
import Ouroboros.Regex.Emit
import Mathlib.Data.Nat.Bitwise

/-!
# The backtracking virtual machine

`run` executes a program from one start offset with the untried branches on an explicit stack;
`isMatch` tries every start offset in turn.  A thread is a pair of program counter and text offset, both `u16` in
the source; with at most `maxText` bytes and `maxProg` instructions neither wraps.

* `step`  what one instruction does to a thread;
* `run`  the search of `Ouroboros.Lib.Backtrack` on `step`, with the engine's two limits;
* `isMatch`  the unanchored search, with the limit on all start offsets together;
* `isMatch_recased`  folded, it answers alike on texts that differ only in the case of letters.
-/

namespace Ouroboros.Regex

open Backtrack Program Option

def maxStack : Nat := 1024
def maxText : Nat := 65535
def maxSteps : Nat := 20000
def maxTotalSteps : Nat := 2000000

abbrev Match := Verdict

def foldByte (b : UInt8) : UInt8 := if isUpper b then b + 32 else b

def otherCase (b : UInt8) : UInt8 :=
  if isLower b then b - 32 else if isUpper b then b + 32 else b

def charMatches (fold : Bool) (c b : UInt8) : Bool :=
  if fold then foldByte b == foldByte c else b == c

/-- the test of the `Class` arm; folding widens a positive class and narrows a negated one -/
def classMatches (fold : Bool) (bits : Bitmap) (negated : Bool) (b : UInt8) : Bool :=
  if !fold then bits.member b
  else if negated then bits.member b && bits.member (otherCase b)
  else bits.member b || bits.member (otherCase b)

def consume (text : List UInt8) (test : UInt8 → Bool) (pc sp : Nat) : Outcome (Nat × Nat) :=
  match text[sp]? with
  | none => .fail
  | some b => if test b then .goto (pc + 1, sp + 1) else .fail

def Program.step (r : Program) (text : List UInt8) (fold : Bool) : Nat × Nat → Outcome (Nat × Nat)
  | (pc, sp) =>
    match r.fetch pc with
    | .accept => .accept
    | .char c => consume text (charMatches fold c) pc sp
    | .any => consume text (fun _ => true) pc sp
    | .cls i => consume text (classMatches fold (r.bits i) (r.negated i)) pc sp
    | .bol => if sp ≠ 0 then .fail else .goto (pc + 1, sp)
    | .eol => if sp ≠ text.length then .fail else .goto (pc + 1, sp)
    | .jmp t => .goto (t, sp)
    | .split a b => .fork (a, sp) (b, sp)

/-- one start offset: the verdict and the number of executed instructions -/
def Program.run (r : Program) (text : List UInt8) (fold : Bool) (start : Nat) : Match × Nat :=
  explore (r.step text fold) maxStack maxSteps 0 (0, start) []

def saturatingAdd (a b : Nat) : Nat := min (a + b) (2 ^ 32 - 1)

/-- the loop over start offsets: `rest` offsets come after `start`, `total` instructions were
executed before -/
def Program.search (r : Program) (text : List UInt8) (fold : Bool) : Nat → Nat → Nat → Match
  | rest, start, total =>
    let (outcome, steps) := r.run text fold start
    let total := saturatingAdd total steps
    if maxTotalSteps < total then .limit
    else
      match outcome with
      | .yes => .yes
      | .limit => .limit
      | .no =>
        match rest with
        | 0 => .no
        | rest + 1 => r.search text fold rest (start + 1) total

/-- does the pattern match anywhere in `text` -/
def Program.isMatch (r : Program) (text : List UInt8) (fold : Bool) : Match :=
  if r.empty then .yes
  else if maxText < text.length then .limit
  else r.search text fold text.length 0 0

variable {r : Program} {text : List UInt8} {fold : Bool}

theorem search_spec {rest start total : Nat} : match r.search text fold rest start total with
    | .yes => ∃ s, start ≤ s ∧ s ≤ start + rest ∧ (r.run text fold s).1 = .yes
    | .no => ∀ s, start ≤ s → s ≤ start + rest → (r.run text fold s).1 = .no
    | .limit => True := by
  induction rest generalizing start total with
  | zero =>
    unfold search
    dsimp only
    split_ifs
    · trivial
    cases ho : (r.run text fold start).1 with
    | yes => exact ⟨start, le_rfl, le_rfl, ho⟩
    | limit => trivial
    | no =>
      intro s h1 h2
      obtain rfl : s = start := by omega
      exact ho
  | succ rest ih =>
    unfold search
    dsimp only
    split_ifs
    · trivial
    cases ho : (r.run text fold start).1 with
    | yes => exact ⟨start, le_rfl, by omega, ho⟩
    | limit => trivial
    | no =>
      have hrest := @ih (start + 1) (saturatingAdd total (r.run text fold start).2)
      dsimp only
      split at hrest
      · obtain ⟨s, h1, h2, h3⟩ := hrest
        exact ⟨s, by omega, by omega, h3⟩
      · intro s h1 h2
        by_cases hs : s = start
        · rw [hs]
          exact ho
        · exact hrest s (by omega) (by omega)
      · trivial

theorem isMatch_yes (h : r.isMatch text fold = .yes) (he : r.empty = false) :
    ∃ s, s ≤ text.length ∧ (r.run text fold s).1 = .yes := by
  simp only [isMatch, he, Bool.false_eq_true, if_false] at h
  split at h
  · cases h
  have hspec := @search_spec r text fold text.length 0 0
  rw [h] at hspec
  obtain ⟨s, _, h2, h3⟩ := hspec
  exact ⟨s, by omega, h3⟩

theorem isMatch_no (h : r.isMatch text fold = .no) (he : r.empty = false) :
    ∀ s, s ≤ text.length → (r.run text fold s).1 = .no := by
  simp only [isMatch, he, Bool.false_eq_true, if_false] at h
  split at h
  · cases h
  have hspec := @search_spec r text fold text.length 0 0
  rw [h] at hspec
  exact fun s hs => hspec s (Nat.zero_le _) (by omega)

/-! ## folding -/

abbrev Recased : List UInt8 → List UInt8 → Prop := List.Forall₂ fun b b' => b' = b ∨ b' = otherCase b

theorem otherCase_spec : ∀ b : UInt8, otherCase (otherCase b) = b ∧ foldByte (otherCase b) = foldByte b :=
  Hex.forall_byte (by decide +kernel)

theorem classMatches_otherCase (bits : Bitmap) (negated : Bool) (b : UInt8) :
    classMatches true bits negated (otherCase b) = classMatches true bits negated b := by
  simp only [classMatches, Bool.not_true, Bool.false_eq_true, if_false, (otherCase_spec b).1,
    Bool.and_comm, Bool.or_comm]

section Recased
variable {text' : List UInt8} (h : Recased text text') {test : UInt8 → Bool}
include h

theorem Recased.map (htest : ∀ b, test (otherCase b) = test b) : text'.map test = text.map test := by
  induction h with
  | nil => rfl
  | cons hb _ ih =>
    rw [List.map_cons, List.map_cons, ih]
    obtain rfl | rfl := hb
    · rfl
    · rw [htest]

theorem consume_recased (htest : ∀ b, test (otherCase b) = test b) (pc sp : Nat) :
    consume text' test pc sp = consume text test pc sp := by
  have hbyte := congrArg (·[sp]?) (h.map htest)
  simp only [List.getElem?_map] at hbyte
  unfold consume
  cases hb : text[sp]? with
  | none =>
    rw [hb, map_none, map_eq_none_iff] at hbyte
    rw [hbyte]
  | some b =>
    rw [hb, map_some, map_eq_some_iff] at hbyte
    obtain ⟨b', hb', hsame⟩ := hbyte
    simp only [hb', hsame]

/-- **Each instruction does the same on both texts**, -/
theorem step_recased (r : Program) : r.step text' true = r.step text true := by
  funext ⟨pc, sp⟩
  cases hi : r.fetch pc <;> simp only [step, hi]
  case char c =>
    exact consume_recased h
      (fun b => by rw [charMatches, charMatches, if_pos rfl, if_pos rfl, (otherCase_spec b).2]) pc sp
  case any => exact consume_recased h (fun _ => rfl) pc sp
  case cls i => exact consume_recased h (classMatches_otherCase _ _) pc sp
  case eol => rw [h.length_eq]

theorem search_recased (r : Program) (rest start total : Nat) :
    r.search text' true rest start total = r.search text true rest start total := by
  have hrun : r.run text' true = r.run text true := by
    funext start
    rw [run, run, step_recased h]
  induction rest generalizing start total with
  | zero =>
    unfold search
    rw [hrun]
  | succ rest ih =>
    unfold search
    simp only [hrun, ih]

/-- so the two searches are one, a search that gives up included. -/
theorem isMatch_recased (r : Program) : r.isMatch text' true = r.isMatch text true := by
  rw [isMatch, isMatch, search_recased h, h.length_eq]

end Recased

/-- a negated class and a named one, on `xB` and on `Xb` -/
theorem isMatch_recased_classes : ∃ r, compile ("[^a][[:upper:]]+".toList.map ch) = .ok r ∧
    r.isMatch ("Xb".toList.map ch) true = r.isMatch ("xB".toList.map ch) true := by
  have hok : (compile ("[^a][[:upper:]]+".toList.map ch)).isOk = true := by decide +kernel
  cases hr : compile ("[^a][[:upper:]]+".toList.map ch) with
  | error e => rw [hr] at hok; cases hok
  | ok r => exact ⟨r, rfl, isMatch_recased (.cons (by decide) (.cons (by decide) .nil)) r⟩

end Ouroboros.Regex
