import Ouroboros.Accounts.Rewrite

/-!
# accountd: the bytes that a new password changes

* `changedSpan_eq_some`  what lies outside the span is the same, and both its ends differ;
* `live`  the lines that a rewrite keeps;
* `changedSpan_minimal`  **the span of a rewritten secret lies in the line of its user**.
-/

namespace Ouroboros.Accounts

open Lines Buffer List Option Hex Nat

variable {name line : Bytes} {cap n off : Nat} {s : Secret} {old new out : Bytes}

/-! ## The span -/

theorem getElem?_commonPrefix {a b : Bytes} (hlen : a.length = b.length) (h : commonPrefix a b ≠ a.length) :
    a[commonPrefix a b]? ≠ b[commonPrefix a b]? := by
  fun_induction commonPrefix a b with
  | case1 x as bs ih =>
    rw [getElem?_cons_succ, getElem?_cons_succ]
    exact ih (succ.inj hlen) fun heq => h (by rw [heq, length_cons])
  | case2 x as y bs hne =>
    rw [getElem?_cons_zero, getElem?_cons_zero]
    exact fun heq => hne (Option.some.inj heq)
  | case3 a b hno =>
    cases a with
    | nil => exact absurd rfl h
    | cons x as =>
      cases b with
      | nil => cases hlen
      | cons y bs => exact absurd rfl (hno x as y bs rfl)

theorem getElem?_of_lt_commonPrefix {i : Nat} (h : i < commonPrefix old new) : old[i]? = new[i]? := by
  have htake := congrArg (·[i]?) (take_commonPrefix old new h)
  rwa [getElem?_take_of_lt (lt_succ_self i), getElem?_take_of_lt (lt_succ_self i)] at htake

/-- **No byte outside the span differs, and its first and its last one do.** -/
theorem changedSpan_eq_some (h : changedSpan old new = some (off, n)) :
    0 < n ∧ (∀ i, i < off ∨ off + n ≤ i → old[i]? = new[i]?) ∧ old[off]? ≠ new[off]? ∧
      old[off + n - 1]? ≠ new[off + n - 1]? := by
  obtain ⟨hlen, -⟩ := changedSpan_le h
  unfold changedSpan at h
  rw [if_neg (not_not.2 hlen)] at h
  dsimp only at h
  split at h
  · cases h
  next hne =>
  cases h
  have hfirst := getElem?_commonPrefix hlen hne
  have hle := (commonPrefix_le old new).1
  -- the scan from the end stops at the latest where the one from the start did
  have hback {i : Nat} (hi : i < old.length)
      (htail : old.length - 1 - i < commonPrefix old.reverse new.reverse) :
      old[i]? = new[i]? := by
    have hrev := getElem?_of_lt_commonPrefix htail
    rw [getElem?_reverse (by omega), getElem?_reverse (by omega), ← hlen] at hrev
    rwa [Nat.sub_sub_self (by omega)] at hrev
  have hstop : commonPrefix old.reverse new.reverse < old.length - commonPrefix old new := by
    by_contra hnot
    exact hfirst (hback (by omega) (by omega))
  have hlast :=
    getElem?_commonPrefix (a := old.reverse) (b := new.reverse) (by rw [length_reverse, length_reverse, hlen])
    (by rw [length_reverse]; omega)
  rw [getElem?_reverse (by omega), getElem?_reverse (by omega), ← hlen] at hlast
  rw [min_eq_left hstop.le]
  generalize commonPrefix old.reverse new.reverse = tail at *
  have hend : commonPrefix old new + (old.length - tail - commonPrefix old new) = old.length - tail := by omega
  refine ⟨by omega, fun i hi => ?_, hfirst, ?_⟩
  · rw [hend] at hi
    rcases hi with hi | hi
    · exact getElem?_of_lt_commonPrefix hi
    · by_cases hin : i < old.length
      · exact hback hin (by omega)
      · rw [getElem?_eq_none (by omega), getElem?_eq_none (by omega)]
  · rw [hend, Nat.sub_right_comm]
    exact hlast

theorem changedSpan_eq_none (hlen : old.length = new.length) : changedSpan old new = none ↔ old = new := by
  unfold changedSpan
  rw [if_neg (not_not.2 hlen)]
  dsimp only
  constructor
  · intro h
    split at h
    · next heq =>
      have htake := take_commonPrefix old new heq.ge
      rwa [take_length, hlen, take_length] at htake
    · cases h
  · rintro rfl
    refine if_pos (by_contra fun hne => getElem?_commonPrefix rfl hne rfl)

/-! ## The span of one line -/

theorem changedSpan_middle {a b b' c : Bytes} (hlen : b.length = b'.length)
    (h : changedSpan (a ++ b ++ c) (a ++ b' ++ c) = some (off, n)) :
    a.length ≤ off ∧ off + n ≤ a.length + b.length := by
  obtain ⟨hpos, -, hfirst, hlast⟩ := changedSpan_eq_some h
  have hleft {i : Nat} (hi : i < a.length) : (a ++ b ++ c)[i]? = (a ++ b' ++ c)[i]? := by
    rw [append_assoc, append_assoc, getElem?_append_left hi, getElem?_append_left hi]
  have hright {i : Nat} (hi : a.length + b.length ≤ i) : (a ++ b ++ c)[i]? = (a ++ b' ++ c)[i]? := by
    rw [getElem?_append_right (by rwa [length_append]), getElem?_append_right (by rwa [length_append, ← hlen]),
      length_append, length_append, hlen]
  constructor
  · by_contra hnot
    exact hfirst (hleft (by omega))
  · by_contra hnot
    exact hlast (hright (by omega))

/-- dropping empty lines makes a file shorter. -/
theorem live_of_length (ls : List Bytes) : (terminated (live ls)).length ≤ (terminated ls).length ∧
      ((terminated ls).length = (terminated (live ls)).length → live ls = ls) := by
  have hcons (l : Bytes) (rest : List Bytes) :
      (terminated (l :: rest)).length = l.length + 1 + (terminated rest).length := by
    rw [terminated, flatMap_cons, length_append, length_append, length_singleton]
    rfl
  induction ls with
  | nil => exact ⟨le_rfl, fun _ => rfl⟩
  | cons l rest ih =>
    rw [live_cons, hcons]
    split
    · exact ⟨by omega, fun h => by omega⟩
    · rw [hcons]
      exact ⟨by omega, fun h => by rw [ih.2 (by omega)]⟩

/-- the lines of a file that ends with a newline. -/
theorem terminated_of_getLast {file : Bytes} (h : file.getLast? = some newline) :
    ∃ ls, file = terminated ls ∧ file.splitOn newline = ls ++ [[]] := by
  obtain ⟨g, rfl⟩ := getLast?_eq_some_iff.1 h
  have hsplit : (g ++ [newline]).splitOn newline = g.splitOn newline ++ [[]] := by
    rw [splitOn_append_newline, splitOn_nil]
  have hlines := splitOn_terminated fun l (hl : l ∈ g.splitOn newline) => (mem_splitOn hl).1
  have hback : [newline].intercalate ((g ++ [newline]).splitOn newline) = g ++ [newline] :=
    intercalate_splitOn newline
  refine ⟨_, ?_, hsplit⟩
  rw [← hback, hsplit, ← hlines, intercalate_splitOn]

/-- **The span of a line that is replaced by one of its width, in a file that ends with a newline, is inside
the line.** -/
theorem changedSpan_replaceLine {file replacement : Bytes} {before after : List Bytes} {replaced : Bool}
    (hfile : file.getLast? = some newline) (hsplit : file.splitOn newline = before ++ line :: after)
    (hb : Lacks name before) (hline : line ≠ []) (hname : firstField line = name)
    (hwidth : replacement.length = line.length)
    (h : replaceLine cap file name replacement = some (out, replaced))
    (hspan : changedSpan file out = some (off, n)) :
    (terminated before).length ≤ off ∧ off + n ≤ (terminated before).length + line.length := by
  obtain ⟨ls, rfl, hls⟩ := terminated_of_getLast hfile
  have hlines : ls ++ [[]] = before ++ line :: after := hls.symm.trans hsplit
  -- the last piece is the empty one after the last newline
  obtain ⟨after, rfl⟩ : ∃ after', after = after' ++ [[]] := by
    rcases eq_nil_or_concat after with rfl | ⟨after', l, rfl⟩
    · cases (append_inj' hlines rfl).2
      exact absurd rfl hline
    · rw [concat_eq_append, ← cons_append, ← append_assoc] at hlines
      cases (append_inj' hlines rfl).2
      exact ⟨after', concat_eq_append⟩
  rw [← cons_append, ← append_assoc] at hlines
  obtain ⟨rfl, -⟩ := append_inj' hlines rfl
  obtain ⟨-, hpair⟩ := ite_none_left_eq_some.1 h
  obtain ⟨hlen, -⟩ := changedSpan_le hspan
  have hdrop : live (after ++ [[]]) = live after := by
    rw [live, filter_append]
    exact append_nil _
  have hout : out = terminated (live before ++ replacement :: live after) := by
    have hcut : Cut name _ before line (after ++ [[]]) := ⟨hsplit, hb, hline, hname⟩
    rw [← hdrop, ← (Prod.mk.inj (Option.some.inj hpair)).1, hcut.replaceIn]
  have hsplits (a c : List Bytes) (b : Bytes) :
      terminated (a ++ b :: c) = terminated a ++ b ++ (newline :: terminated c) := by
    simp [terminated]
  -- no empty line was dropped, so nothing but the line has changed
  rw [hout, hsplits, hsplits] at hlen hspan
  simp only [length_append, length_cons] at hlen
  obtain ⟨hbefore, hkeep⟩ := live_of_length before
  obtain ⟨hafter, hkeep'⟩ := live_of_length after
  rw [hkeep (by omega), hkeep' (by omega)] at hspan
  exact changedSpan_middle hwidth.symm hspan

/-- **The changed span** is there exactly if two files of one length differ; it is the least that, written
over the old bytes, gives the new ones, and stays inside a line that is replaced by one of its width. -/
theorem changedSpan_minimal :
    (∀ old new : Bytes, old.length = new.length → (changedSpan old new = none ↔ old = new) ∧
        ∀ off n, changedSpan old new = some (off, n) →
          off + n ≤ new.length ∧ put old off (slice new off (off + n)) = new ∧ 0 < n ∧
            (∀ i, i < off ∨ off + n ≤ i → old[i]? = new[i]?) ∧ old[off]? ≠ new[off]? ∧
              old[off + n - 1]? ≠ new[off + n - 1]?) ∧
      ∀ (file name line replacement out : Bytes) (before after : List Bytes) (s : Secret) (cap cap' off n : Nat),
        file.getLast? = some newline → file.splitOn newline = before ++ line :: after → Lacks name before →
          line ≠ [] → firstField line = name → formatSecretLine cap name s = some replacement →
            replacement.length = line.length → replaceLine cap' file name replacement = some (out, true) →
              changedSpan file out = some (off, n) →
                (terminated before).length ≤ off ∧ off + n ≤ (terminated before).length + line.length := by
  refine ⟨fun old new hlen => ⟨changedSpan_eq_none hlen, fun off n h => ?_⟩, ?_⟩
  · exact ⟨(changedSpan_le h).2, put_changedSpan h, changedSpan_eq_some h⟩
  · intro file name line replacement out before after s cap cap' off n hfile hsplit hb hline
      hname _ hwidth hrep hspan
    exact changedSpan_replaceLine hfile hsplit hb hline hname hwidth hrep hspan

def plainLine (b : UInt8) : Bytes := 97 :: colon :: colon :: Hex.encode (replicate digestLen b)

/-- the line of `a` between two others. -/
def plainFile (b : UInt8) : Bytes := terminated [[98, colon], plainLine b, [99]]

theorem changedSpan_minimal_line :
    put (plainFile 0) 6 (slice (plainFile 17) 6 70) = plainFile 17 ∧
      (terminated [[98, colon]]).length ≤ 6 ∧ 6 + 64 ≤ (terminated [[98, colon]]).length +
      (plainLine 0).length := by
  have hspan : changedSpan (plainFile 0) (plainFile 17) = some (6, 64) := by decide +kernel
  have hlacks : Lacks [97] [[98, colon]] := by
    unfold Lacks
    decide +kernel
  refine ⟨((changedSpan_minimal.1 (plainFile 0) (plainFile 17) rfl).2 6 64 hspan).2.1, ?_⟩
  exact changedSpan_minimal.2 (plainFile 0) [97] (plainLine 0) (plainLine 17) (plainFile 17)
    [[98, colon]] [[99], []]
    ⟨.v1, [], replicate digestLen 17⟩ 128 128 6 64 (by decide +kernel) (by decide +kernel) hlacks (by decide)
    (by decide +kernel) rfl rfl (by decide +kernel) hspan

/-- equal files have no span; in one that starts with an empty line and does not end with a newline the span
starts before the line. -/
theorem changedSpan_spills :
    changedSpan [97] [97] = none ∧ formatSecretLine 128 [97] ⟨.v1, [], replicate digestLen 17⟩ =
        some (plainLine 17) ∧
        replaceLine 128 (newline :: plainLine 0) [97] (plainLine 17) = some (plainLine 17 ++ [newline], true) ∧
          changedSpan (newline :: plainLine 0) (plainLine 17 ++ [newline]) = some (0, 68) := by
  decide +kernel

end Ouroboros.Accounts
