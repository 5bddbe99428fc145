import Mathlib.Data.List.Basic

/-!
# Lines read through a bounded buffer

A reader sees a text piece by piece and keeps the line it is in, as much of it as its buffer holds.
Some symbols are skipped, and a line that does not fit is not shown.

* `Format`  newline, skipped symbols and buffer size;
* `Reader`, `feed`  the reader and its loop over one piece;
* `feed_append`  pieces are read as the text they make up;
* `lines`, `feed_eq`  what is shown: the lines of the text without its skipped symbols, in order;
* `readable`  the lines that fit, as a text; `findSome?_readable` searches it instead.
-/

namespace Ouroboros.Lines

open List

variable {α β : Type} [DecidableEq α]

structure Format (α : Type) where
  newline : α
  skip : α → Bool
  max : Nat
  newline_kept : skip newline = false

/-- the line being read: `line[..len]` and whether it is past the buffer. -/
structure Reader (α : Type) where
  line : List α
  overlong : Bool
deriving DecidableEq, Repr

def Reader.start : Reader α := ⟨[], false⟩

variable (fmt : Format α)

/-- the reader `cur` symbols into a line. -/
def Reader.hold (cur : List α) : Reader α := ⟨cur.take fmt.max, decide (fmt.max < cur.length)⟩

def Reader.push (s : Reader α) (a : α) : Reader α :=
  if s.line.length < fmt.max then { s with line := s.line ++ [a] } else { s with overlong := true }

def Reader.offer (s : Reader α) (f : List α → Option β) : Option β :=
  if s.overlong then none else f s.line

/-- one piece of the text: what `f` made of a line, or the reader at the end of the piece. -/
def feed (f : List α → Option β) : Reader α → List α → β ⊕ Reader α
  | s, [] => .inr s
  | s, a :: as =>
    if a = fmt.newline then
      match s.offer f with
      | some b => .inl b
      | none => feed f .start as
    else if fmt.skip a then feed f s as
    else feed f (s.push fmt a) as

omit [DecidableEq α] in
@[simp] theorem hold_nil : Reader.hold fmt ([] : List α) = .start := by
  simp [Reader.hold, Reader.start]

omit [DecidableEq α] in
theorem push_hold (cur : List α) (a : α) : (Reader.hold fmt cur).push fmt a = Reader.hold fmt (cur ++ [a]) := by
  unfold Reader.push Reader.hold
  simp only [length_take, length_append, length_singleton]
  by_cases h : cur.length < fmt.max
  · rw [if_pos (by omega), take_of_length_le (Nat.le_of_lt h),
      take_of_length_le (by rw [length_append, length_singleton]; omega)]
    congr 1
    rw [decide_eq_false (by omega), decide_eq_false (by omega)]
  · rw [if_neg (by omega), take_append_of_le_length (by omega)]
    congr 1
    rw [decide_eq_true (by omega)]

def worth (f : List α → Option β) (line : List α) : Option β := if fmt.max < line.length then none else f line

variable (f : List α → Option β)
include f

omit [DecidableEq α] in
theorem offer_hold (cur : List α) : (Reader.hold fmt cur).offer f = worth fmt f cur := by
  unfold Reader.offer Reader.hold worth
  by_cases h : fmt.max < cur.length
  · simp [h]
  · simp [h, take_of_length_le (Nat.le_of_not_lt h)]

theorem feed_append (s : Reader α) (a b : List α) : feed fmt f s (a ++ b) =
      match feed fmt f s a with
      | .inl x => .inl x
      | .inr s' => feed fmt f s' b := by
  induction a generalizing s with
  | nil => rfl
  | cons c cs ih =>
    simp only [cons_append, feed]
    split
    · cases s.offer f with
      | some x => rfl
      | none => exact ih _
    · split <;> exact ih _

/-! ## The lines of a text -/

def kept (text : List α) : List α := text.filter (!fmt.skip ·)

/-- the lines of a text without its skipped symbols; the last one may lack its newline. -/
def lines (text : List α) : List (List α) := (kept fmt text).splitOn fmt.newline

/-- what the reader has made of the lines `ls`, the last of them still open. -/
def readTo (f : List α → Option β) (ls : List (List α)) : β ⊕ Reader α :=
  match ls.dropLast.findSome? (worth fmt f) with
  | some b => .inl b
  | none => .inr (.hold fmt (ls.getLastD []))

omit f in
theorem splitOn_ne_nil (a : α) (l : List α) : l.splitOn a ≠ [] := splitOnP_ne_nil _ _

/-- **The reader shows the lines of the text, in order, up to the first that is worth something.** -/
theorem feed_hold {cur : List α} (hcur : fmt.newline ∉ cur) (text : List α) :
    feed fmt f (.hold fmt cur) text = readTo fmt f ((cur ++ kept fmt text).splitOn fmt.newline) := by
  induction text generalizing cur with
  | nil =>
    rw [kept, filter_nil, append_nil, splitOn_eq_singleton hcur]
    rfl
  | cons a as ih =>
    unfold feed
    by_cases hnl : a = fmt.newline
    · -- the line ends: the rest is read from an empty buffer
      have hkept : kept fmt (a :: as) = fmt.newline :: kept fmt as := by
        rw [kept, filter_cons, hnl, fmt.newline_kept]
        rfl
      have hrest : (kept fmt as).splitOn fmt.newline ≠ [] := splitOn_ne_nil _ _
      have hih := ih (not_mem_nil : fmt.newline ∉ [])
      rw [hold_nil, nil_append] at hih
      rw [if_pos hnl, offer_hold, hih, hkept, splitOn_append_cons_self_of_not_mem hcur]
      obtain ⟨l, ls, hls⟩ := exists_cons_of_ne_nil hrest
      rw [hls]
      unfold readTo
      rw [dropLast_cons_of_ne_nil (cons_ne_nil l ls), findSome?_cons]
      cases worth fmt f cur <;> rfl
    · rw [if_neg hnl]
      by_cases hskip : fmt.skip a
      · have hkept : kept fmt (a :: as) = kept fmt as := by
          rw [kept, filter_cons, hskip]
          rfl
        rw [if_pos hskip, ih hcur, hkept]
      · have hkept : kept fmt (a :: as) = a :: kept fmt as := by
          rw [kept, filter_cons, Bool.not_eq_true _ |>.mp hskip]
          rfl
        have hcur' : fmt.newline ∉ cur ++ [a] := by
          simp only [mem_append, mem_singleton, not_or]
          exact ⟨hcur, fun h => hnl h.symm⟩
        rw [if_neg hskip, push_hold, ih hcur', hkept, append_assoc, singleton_append]

theorem feed_eq (text : List α) : feed fmt f .start text = readTo fmt f (lines fmt text) := by
  have h := feed_hold fmt f (not_mem_nil : fmt.newline ∉ []) text
  rwa [hold_nil, nil_append] at h

/-! ## Whole texts -/

/-- the text read to its end, where the last line may lack its newline. -/
def finish (f : List α → Option β) : β ⊕ Reader α → Option β
  | .inl b => some b
  | .inr s => s.offer f

omit [DecidableEq α] in
theorem finish_readTo {ls : List (List α)} (h : ls ≠ []) :
    finish f (readTo fmt f ls) = ls.findSome? (worth fmt f) := by
  have hsplit := dropLast_concat_getLast h
  have hlast : ls.getLastD [] = ls.getLast h := by
    rw [getLastD_eq_getLast?, getLast?_eq_some_getLast h]
    rfl
  have hfind : ls.findSome? (worth fmt f) = (ls.dropLast.findSome? (worth fmt f)).or
      (worth fmt f (ls.getLast h)) := by
    conv_lhs => rw [← hsplit]
    rw [findSome?_append, findSome?_singleton]
  rw [hfind, readTo, hlast]
  cases ls.dropLast.findSome? (worth fmt f) with
  | some b => rfl
  | none => exact offer_hold fmt f _

/-- **A text read through the buffer gives its first line worth something.** -/
theorem finish_feed (text : List α) :
    finish f (feed fmt f .start text) = (lines fmt text).findSome? (worth fmt f) := by
  rw [feed_eq]
  exact finish_readTo fmt f (splitOn_ne_nil _ _)

omit f in
theorem mem_splitOn {a : α} {l line : List α} (h : line ∈ l.splitOn a) : a ∉ line ∧ ∀ x ∈ line, x ∈ l := by
  induction l generalizing line with
  | nil =>
    rw [splitOn_nil, mem_singleton] at h
    rw [h]
    exact ⟨not_mem_nil, fun x hx => hx⟩
  | cons y ys ih =>
    have hcons : (y :: ys).splitOn a =
        if (y == a) then [] :: ys.splitOn a else (ys.splitOn a).modifyHead (List.cons y) :=
      splitOnP_cons_eq_if_modifyHead y ys
    rw [hcons] at h
    split at h
    · rcases mem_cons.1 h with rfl | h
      · exact ⟨not_mem_nil, fun x hx => absurd hx not_mem_nil⟩
      · exact ⟨(ih h).1, fun x hx => mem_cons_of_mem _ ((ih h).2 x hx)⟩
    next hy =>
    obtain ⟨first, rest, hls⟩ := exists_cons_of_ne_nil (splitOn_ne_nil a ys)
    rw [hls, modifyHead_cons] at h
    rcases mem_cons.1 h with rfl | h
    · obtain ⟨hfirst, hmem⟩ := ih (hls ▸ mem_cons_self : first ∈ ys.splitOn a)
      rw [mem_cons, not_or]
      refine ⟨⟨fun heq => hy (beq_iff_eq.2 heq.symm), hfirst⟩, ?_⟩
      intro x hx
      rcases mem_cons.1 hx with rfl | hx
      · exact mem_cons_self
      · exact mem_cons_of_mem _ (hmem x hx)
    · obtain ⟨hline, hmem⟩ := ih (hls ▸ mem_cons_of_mem _ h : line ∈ ys.splitOn a)
      exact ⟨hline, fun x hx => mem_cons_of_mem _ (hmem x hx)⟩

def readable (text : List α) : List α :=
  [fmt.newline].intercalate ((lines fmt text).filter fun line => decide (line.length ≤ fmt.max))

omit [DecidableEq α] in
theorem findSome?_filter_fits (ls : List (List α)) :
    (ls.filter fun line => decide (line.length ≤ fmt.max)).findSome? f = ls.findSome? (worth fmt f) := by
  induction ls with
  | nil => rfl
  | cons line rest ih =>
    rw [filter_cons, findSome?_cons, worth]
    by_cases h : line.length ≤ fmt.max
    · rw [if_pos (decide_eq_true h), if_neg (Nat.not_lt.2 h), findSome?_cons, ih]
    · rw [if_neg (by simpa using h), if_pos (Nat.lt_of_not_le h), ih]

omit f in
/-- a reader finds in a text what a search of its readable lines finds, if empty lines are worth
nothing. -/
theorem findSome?_readable {f : List α → Option β} (hnil : f [] = none) (text : List α) :
    ((readable fmt text).splitOn fmt.newline).findSome? f = (lines fmt text).findSome? (worth fmt f) := by
  rw [← findSome?_filter_fits]
  unfold readable
  by_cases hempty : ((lines fmt text).filter fun line => decide (line.length ≤ fmt.max)) = []
  · rw [hempty]
    change List.findSome? f [[]] = none
    rw [findSome?_singleton, hnil]
  rw [splitOn_intercalate _ _ hempty]
  intro line hline
  exact (mem_splitOn (mem_of_mem_filter hline)).1

end Ouroboros.Lines
