import Ouroboros.Lib.Buffer
import Ouroboros.Accounts.Database

/-!
# Rewriting one line of an account file

* `secretFor_formatSecretLine`  a formatted line is read back as the secret it was made from;
* `search_replaceLine_other`, `search_replaceLine_self`, `search_appendLine`  the new line answers for its name
  and for no other;
* `rewrite_lookups`  what every rewrite of the accounts and of the secrets does to the lookups, and what a
  removal makes of an appended line.
-/

namespace Ouroboros.Accounts

open Lines Buffer List Option Hex Nat

variable {β : Type} {g : Bytes → Option β} {out : Bytes}

/-! ## Lines and their names -/

variable {name line : Bytes} {cap n : Nat} {s : Secret}

theorem secretFor_eq_some (h : secretFor name line = some s) :
    ∃ salt hash rest, line.splitOn colon = name :: salt :: hash :: rest ∧ decodeSecret salt hash = some s := by
  unfold secretFor at h
  split at h
  · next hparse =>
    split at h <;> cases h
    unfold parseShadow at hparse
    split at hparse
    · next hsplit =>
      obtain ⟨-, hparse⟩ := ite_none_left_eq_some.1 hparse
      obtain ⟨_, hdecode, hpair⟩ := map_eq_some_iff.1 hparse
      cases hpair
      exact ⟨_, _, _, ‹_ = name› ▸ hsplit, hdecode⟩
    · cases hparse
  · cases h

theorem secretFor_eq_none (h : firstField line ≠ name) : secretFor name line = none := by
  rw [eq_none_iff_forall_ne_some]
  intro secret hs
  obtain ⟨_, _, _, hsplit, -⟩ := secretFor_eq_some hs
  exact h (by rw [firstField, hsplit]; rfl)

/-- a secret as `/etc/shadow` holds those of the second version. -/
structure Secret.IsV2 (s : Secret) : Prop where
  version : s.version = .v2
  salt : s.salt.length = saltV2
  hash : s.hash.length = digestLen

structure LineName (name : Bytes) : Prop where
  ne_nil : name ≠ []
  no_colon : colon ∉ name
  no_newline : newline ∉ name

def v2Line (name : Bytes) (s : Secret) : Bytes :=
  name ++ colon :: ((v2Mark ++ Hex.encode s.salt) ++ colon :: Hex.encode s.hash)

theorem formatSecretLine_v2 (hs : s.version = .v2)
    (h : formatSecretLine cap name s = some line) : line = v2Line name s := by
  unfold formatSecretLine at h
  rw [if_pos hs] at h
  dsimp only at h
  split at h
  · cases h
  · cases h
    simp [v2Line]

theorem notMem_encode {c : UInt8} (hc : Hex.digit c = none) (b : Bytes) : c ∉ Hex.encode b :=
  fun h => digit_of_mem_encode h hc

theorem splitOn_v2Line (hname : LineName name) (s : Secret) :
    (v2Line name s).splitOn colon = [name, v2Mark ++ Hex.encode s.salt, Hex.encode s.hash] := by
  have hsalt : colon ∉ v2Mark ++ encode s.salt := by
    rw [mem_append, not_or]
    exact ⟨by decide, notMem_encode (by decide) _⟩
  rw [v2Line, splitOn_append_cons_self_of_not_mem hname.no_colon, splitOn_append_cons_self_of_not_mem hsalt,
    splitOn_eq_singleton (notMem_encode (by decide) _)]

theorem hexDecode_encode {b : Bytes} (h : b.length ≤ cap) : hexDecode cap (Hex.encode b) = some b := by
  have hlen : ¬ ((encode b).length % 2 ≠ 0 ∨ (encode b).length / 2 > cap) := by
    rw [length_encode]
    omega
  rw [hexDecode, if_neg hlen, decode_encode]

theorem decodeSecret_v2 (hs : s.IsV2) :
    decodeSecret (v2Mark ++ Hex.encode s.salt) (Hex.encode s.hash) = some s := by
  have hsalt : decodeSalt (v2Mark ++ encode s.salt) = some (.v2, s.salt) := by
    have hdecode : hexDecode saltMax (encode s.salt) = some s.salt := hexDecode_encode (by rw [hs.salt]; decide)
    have hwidth : ¬ (s.salt.length ≠ saltV2 ∨ (encode s.salt).length ≠ saltV2 * 2) := by
      rw [length_encode, hs.salt]
      decide
    change decodeSalt (50 :: 36 :: encode s.salt) = _
    rw [decodeSalt, hdecode]
    exact if_neg hwidth
  have hhash : hexDecode digestLen (encode s.hash) = some s.hash := hexDecode_encode (by rw [hs.hash])
  rw [decodeSecret, hsalt]
  dsimp only
  rw [hhash]
  dsimp only
  rw [if_neg (by rw [hs.hash]; exact fun h => h rfl), ← hs.version]

/-- **A formatted line is read back.** -/
theorem secretFor_v2Line (hname : LineName name) (hs : s.IsV2) : secretFor name (v2Line name s) = some s := by
  have hparse : parseShadow (v2Line name s) = some (name, s) := by
    rw [parseShadow, splitOn_v2Line hname]
    dsimp only
    rw [if_neg hname.ne_nil, decodeSecret_v2 hs, map_some]
  rw [secretFor, hparse]
  exact if_pos rfl

theorem firstField_v2Line (hname : LineName name) (s : Secret) : firstField (v2Line name s) = name := by
  rw [firstField, splitOn_v2Line hname]
  rfl

theorem newline_notMem_v2Line (hname : LineName name) (s : Secret) : newline ∉ v2Line name s := by
  simp only [v2Line, mem_append, mem_cons, not_or]
  exact ⟨hname.no_newline, by decide, ⟨by decide, notMem_encode (by decide) _⟩, by decide,
    notMem_encode (by decide) _⟩

/-! ## Searches over rewritten lines -/

def entry (name line : Bytes) : Option Secret := if line = [] then none else secretFor name line

@[simp] theorem entry_nil (name : Bytes) : entry name [] = none := if_pos rfl

theorem entry_eq_none (h : firstField line ≠ name) : entry name line = none := by
  rw [entry, secretFor_eq_none h, ite_self]

theorem entry_v2Line (hname : LineName name) (hs : s.IsV2) : entry name (v2Line name s) = some s := by
  rw [entry, if_neg (by simp [v2Line]), secretFor_v2Line hname hs]

structure ByName {β : Type} (name : Bytes) (g : Bytes → Option β) : Prop where
  nil : g [] = none
  other : ∀ {line}, firstField line ≠ name → g line = none

theorem byName_entry (name : Bytes) : ByName name (entry name) := ⟨entry_nil name, entry_eq_none⟩

def terminated (ls : List Bytes) : Bytes := ls.flatMap (· ++ [newline])

theorem splitOn_terminated {ls : List Bytes} (h : ∀ line ∈ ls, newline ∉ line) :
    (terminated ls).splitOn newline = ls ++ [[]] := by
  induction ls with
  | nil => rfl
  | cons line rest ih =>
    have hrest := ih fun l hl => h l (mem_cons_of_mem _ hl)
    have hcons : terminated (line :: rest) = line ++ newline :: terminated rest := by
      simp [terminated]
    rw [hcons, splitOn_append_cons_self_of_not_mem (h line mem_cons_self), hrest, cons_append]

def live (ls : List Bytes) : List Bytes := ls.filter (· ≠ [])

theorem live_cons (l : Bytes) (rest : List Bytes) :
    live (l :: rest) = if l = [] then live rest else l :: live rest := by
  split
  · exact filter_cons_of_neg (by simpa)
  · exact filter_cons_of_pos (by simpa)

theorem live_append (a b : List Bytes) : live (a ++ b) = live a ++ live b := filter_append ..

theorem mem_live {ls : List Bytes} : line ∈ live ls ↔ line ∈ ls ∧ line ≠ [] := by
  rw [live, mem_filter, decide_eq_true_iff]

def search {β : Type} (g : Bytes → Option β) (file : Bytes) : Option β := (file.splitOn newline).findSome? g

section Search
variable (hnil : g [] = none)
include hnil

theorem search_terminated {ls : List Bytes} (h : ∀ line ∈ ls, newline ∉ line) :
    search g (terminated ls) = ls.findSome? g := by
  rw [search, splitOn_terminated h, findSome?_append, findSome?_singleton, hnil, or_none]

theorem findSome?_live (ls : List Bytes) : (live ls).findSome? g = ls.findSome? g := by
  induction ls with
  | nil => rfl
  | cons line rest ih =>
    rw [live_cons, findSome?_cons]
    split
    · next hline => rw [hline, ih, hnil]
    · rw [findSome?_cons, ih]

end Search

/-- no line of the file, malformed lines included, has the name for its first field. -/
def Lacks (name : Bytes) (ls : List Bytes) : Prop := ∀ line ∈ ls, line ≠ [] → firstField line ≠ name

theorem lacks_cons {ls : List Bytes} :
    Lacks name (line :: ls) ↔ (line ≠ [] → firstField line ≠ name) ∧ Lacks name ls :=
  forall_mem_cons

theorem lacks_of_live {ls ls' : List Bytes} (h : Lacks name ls) (heq : live ls' = live ls) : Lacks name ls' :=
  fun l hl hne => h l (mem_live.1 (heq ▸ mem_live.2 ⟨hl, hne⟩)).1 hne

theorem Lacks.findSome?_eq_none {ls : List Bytes} (h : Lacks name ls) (hg : ByName name g) :
    ls.findSome? g = none := by
  refine findSome?_eq_none_iff.2 fun line hline => ?_
  by_cases hnil : line = []
  · rw [hnil, hg.nil]
  · exact hg.other (h line hline hnil)

/-- the first line of the name, with the lines before and after it. -/
structure Cut (name : Bytes) (ls before : List Bytes) (line : Bytes) (after : List Bytes) : Prop where
  split : ls = before ++ line :: after
  lacks : Lacks name before
  ne_nil : line ≠ []
  head : firstField line = name

theorem lacks_or_cut (name : Bytes) (ls : List Bytes) :
    Lacks name ls ∨ ∃ before line after, Cut name ls before line after := by
  induction ls with
  | nil => exact .inl fun _ h => absurd h not_mem_nil
  | cons l rest ih =>
    by_cases hl : l ≠ [] ∧ firstField l = name
    · exact .inr ⟨[], l, rest, rfl, fun _ h => absurd h not_mem_nil, hl.1, hl.2⟩
    have hl : l ≠ [] → firstField l ≠ name := not_and.1 hl
    rcases ih with hrest | ⟨before, line, after, hsplit, hlacks, hne, hhead⟩
    · exact .inl (lacks_cons.2 ⟨hl, hrest⟩)
    · exact .inr ⟨l :: before, line, after, congrArg _ hsplit, lacks_cons.2 ⟨hl, hlacks⟩, hne, hhead⟩

/-- the others find what they find without the line. -/
theorem Cut.findSome?_other {ls before after : List Bytes} (h : Cut name ls before line after) {other : Bytes}
    (hg : ByName other g) (hother : other ≠ name) :
    ls.findSome? g = (before.findSome? g).or (after.findSome? g) := by
  rw [h.split, findSome?_append, findSome?_cons, hg.other (by rw [h.head]; exact hother.symm)]

section Replace
variable {replacement : Bytes}

theorem replaceIn_true (name replacement : Bytes) (ls : List Bytes) :
    replaceIn name replacement ls true = (terminated (live ls), true) := by
  induction ls with
  | nil => rfl
  | cons l rest ih =>
    rw [replaceIn, live_cons, ih, if_neg fun h : _ ∧ _ => by cases h.1]
    split <;> rfl

theorem replaceIn_append {ls : List Bytes} (h : Lacks name ls) (more : List Bytes) :
    replaceIn name replacement (ls ++ more) false =
      (terminated (live ls) ++ (replaceIn name replacement more false).1,
        (replaceIn name replacement more false).2) := by
  induction ls with
  | nil => rfl
  | cons l rest ih =>
    obtain ⟨hl, hrest⟩ := lacks_cons.1 h
    rw [cons_append, replaceIn, ih hrest, live_cons]
    split
    · rfl
    · next hne =>
      rw [if_neg fun hc => hl hne hc.2]
      simp [terminated]

theorem Cut.replaceIn {ls before after : List Bytes} (h : Cut name ls before line after) :
    replaceIn name replacement ls false = (terminated (live before ++ replacement :: live after), true) := by
  rw [h.split, replaceIn_append h.lacks, Accounts.replaceIn, if_neg h.ne_nil, if_pos ⟨rfl, h.head⟩,
    replaceIn_true]
  simp [terminated]

variable {file : Bytes} {replaced : Bool} (hline : newline ∉ replacement)
  (h : replaceLine cap file name replacement = some (out, replaced))
include hline h

/-- **What `replace_line` makes of a file**: nothing happens to it but for the first line of the name. -/
theorem search_replaceLine (hnil : g [] = none) :
    replaced = false ∧ Lacks name (file.splitOn newline) ∧ search g out = search g file ∨
      replaced = true ∧ ∃ before line after, Cut name (file.splitOn newline) before line after ∧
        search g out = (before.findSome? g).or ((g replacement).or (after.findSome? g)) := by
  obtain ⟨-, hpair⟩ := ite_none_left_eq_some.1 h
  have hfree : ∀ l ∈ file.splitOn newline, newline ∉ l := fun l hl => (mem_splitOn hl).1
  have hlive {ls : List Bytes} (hls : ls ⊆ file.splitOn newline) : ∀ l ∈ live ls, newline ∉ l :=
    fun l hl => hfree l (hls (mem_live.1 hl).1)
  rcases lacks_or_cut name (file.splitOn newline) with hlacks | ⟨before, line, after, hcut⟩
  · have hin := @replaceIn_append name replacement _ hlacks []
    rw [append_nil] at hin
    rw [hin] at hpair
    cases hpair
    refine .inl ⟨rfl, hlacks, ?_⟩
    dsimp only [replaceIn]
    rw [append_nil, search_terminated hnil (hlive (Subset.refl _)), findSome?_live hnil, search]
  · rw [hcut.replaceIn] at hpair
    cases hpair
    refine .inr ⟨rfl, before, line, after, hcut, ?_⟩
    have hlines : ∀ l ∈ live before ++ replacement :: live after, newline ∉ l := by
      rw [forall_mem_append, forall_mem_cons]
      rw [hcut.split] at hlive
      exact ⟨hlive (subset_append_left _ _), hline, hlive fun l hl => mem_append_right _ (mem_cons_of_mem _ hl)⟩
    rw [search_terminated hnil hlines, findSome?_append, findSome?_cons, findSome?_live hnil,
      findSome?_live hnil]
    cases g replacement <;> rfl

theorem search_replaceLine_other {other : Bytes} (hg : ByName other g) (hother : other ≠ name)
    (hhead : other ≠ firstField replacement) : search g out = search g file := by
  rcases search_replaceLine hline h hg.nil with ⟨-, -, hout⟩ | ⟨-, before, line, after, hcut, hout⟩
  · exact hout
  · rw [hout, hg.other hhead.symm, none_or, search, hcut.findSome?_other hg hother]

theorem search_replaceLine_self (hg : ByName name g) {b : β} (hb : g replacement = some b) :
    if replaced then search g out = some b else search g file = none := by
  rcases search_replaceLine hline h hg.nil with ⟨rfl, hlacks, -⟩ | ⟨rfl, before, line, after, hcut, hout⟩
  · exact hlacks.findSome?_eq_none hg
  · rw [if_pos rfl, hout, hcut.lacks.findSome?_eq_none hg, hb]
    rfl

end Replace

/-! ## Appending -/

variable {src old new : Bytes} {off : Nat}

theorem splitOn_append_newline (a b : Bytes) :
    (a ++ newline :: b).splitOn newline = a.splitOn newline ++ b.splitOn newline :=
  splitOnP_append_cons a b (beq_self_eq_true newline)

theorem lines_appendLine (hline : newline ∉ line) (h : appendLine cap src line = some out) :
    ∃ ls, out.splitOn newline = ls ++ [line, []] ∧ live ls = live (src.splitOn newline) := by
  have hlast (a : Bytes) : (a ++ newline :: (line ++ [newline])).splitOn newline =
      a.splitOn newline ++ [line, []] := by
    rw [splitOn_append_newline, splitOn_append_cons_self_of_not_mem hline, splitOn_nil]
  obtain ⟨-, hout⟩ := ite_none_left_eq_some.1 h
  rw [Option.some.injEq] at hout
  rw [← hout]
  by_cases hnil : src = []
  · rw [hnil, if_neg (fun hgap => hgap.1 rfl), nil_append, nil_append,
      splitOn_append_cons_self_of_not_mem hline, splitOn_nil]
    exact ⟨[], rfl, rfl⟩
  by_cases hend : src.getLast? = some newline
  · -- the file ends in a newline: its last line is empty
    obtain ⟨body, rfl⟩ := getLast?_eq_some_iff.1 hend
    refine ⟨body.splitOn newline, ?_, ?_⟩
    · rw [if_neg (fun hgap => hgap.2 hend), append_nil, ← hlast body]
      simp
    · rw [splitOn_append_newline, live_append]
      exact (append_nil _).symm
  · refine ⟨src.splitOn newline, ?_, rfl⟩
    rw [if_pos ⟨hnil, hend⟩, ← hlast src]
    simp

theorem search_appendLine (hnil : g [] = none) (hline : newline ∉ line)
    (h : appendLine cap src line = some out) : search g out = (search g src).or (g line) := by
  obtain ⟨ls, hout, hlive⟩ := lines_appendLine hline h
  rw [search, hout, findSome?_append, ← findSome?_live hnil ls, hlive, findSome?_live hnil, findSome?_cons,
    findSome?_singleton, hnil]
  cases g line <;> rfl

/-! ## Every lookup by name -/

def removeIn (name : Bytes) : List Bytes → Bool → Bytes × Bool
  | [], removed => ([], removed)
  | line :: rest, removed =>
    if line = [] then removeIn name rest removed
    else if !removed ∧ firstField line = name then removeIn name rest true
    else
      let (out, r) := removeIn name rest removed
      (line ++ [newline] ++ out, r)

def removeLine (cap : Nat) (src name : Bytes) : Option (Bytes × Bool) :=
  let (out, removed) := removeIn name (src.splitOn newline) false
  if out.length > cap then none else some (out, removed)

theorem removeIn_true (name : Bytes) (ls : List Bytes) :
    removeIn name ls true = (terminated (live ls), true) := by
  induction ls with
  | nil => rfl
  | cons l rest ih =>
    rw [removeIn, live_cons, ih, if_neg fun h : _ ∧ _ => by cases h.1]
    split <;> rfl

theorem removeIn_append {ls : List Bytes} (h : Lacks name ls) (more : List Bytes) :
    (removeIn name (ls ++ more) false).1 = terminated (live ls) ++ (removeIn name more false).1 := by
  induction ls with
  | nil => rfl
  | cons l rest ih =>
    obtain ⟨hl, hrest⟩ := lacks_cons.1 h
    rw [cons_append, removeIn, live_cons]
    split
    · exact ih hrest
    · next hne =>
      rw [if_neg fun hc => hl hne hc.2]
      dsimp only
      rw [ih hrest]
      simp [terminated]

theorem Cut.search_removeIn {ls before after : List Bytes} (h : Cut name ls before line after)
    (hnil : g [] = none) (hls : ∀ l ∈ ls, newline ∉ l) :
    search g (removeIn name ls false).1 = (before.findSome? g).or (after.findSome? g) := by
  have hout : (removeIn name ls false).1 = terminated (live before ++ live after) := by
    rw [h.split, removeIn_append h.lacks, removeIn, if_neg h.ne_nil, if_pos ⟨rfl, h.head⟩, removeIn_true]
    simp [terminated]
  rw [hout, search_terminated hnil, findSome?_append, findSome?_live hnil, findSome?_live hnil]
  rw [h.split] at hls
  rw [← live_append]
  intro l hl
  exact hls l (((sublist_cons_self line after).append_left before).subset (mem_live.1 hl).1)

theorem search_replaceLine_removed {replacement file : Bytes} (hline : newline ∉ replacement)
    (h : replaceLine cap file name replacement = some (out, true)) (hg : ByName name g) :
    search g out = (g replacement).or (search g (removeIn name (file.splitOn newline) false).1) := by
  rcases search_replaceLine hline h hg.nil with ⟨hfalse, -⟩ | ⟨-, before, line, after, hcut, hout⟩
  · cases hfalse
  · rw [hout, hcut.search_removeIn hg.nil (fun l hl => (mem_splitOn hl).1), hcut.lacks.findSome?_eq_none hg,
      none_or, none_or]

theorem search_not_replaced {replacement file : Bytes} (hline : newline ∉ replacement)
    (h : replaceLine cap file name replacement = some (out, false)) (hnil : g [] = none) :
    search g out = search g file := by
  rcases search_replaceLine hline h hnil with ⟨-, -, hout⟩ | ⟨htrue, -⟩
  · exact hout
  · cases htrue

section RemoveAppend
variable {file mid : Bytes} {removed : Bool} (hline : newline ∉ line) (hhead : firstField line = name)
  (hmid : appendLine cap file line = some mid) (h : removeLine cap mid name = some (out, removed))
include hline hmid h

/-- another line of the name is taken, and the one that was appended stays. -/
theorem search_remove_other (hnil : g [] = none) (hlacks : ¬ Lacks name (file.splitOn newline)) :
    ∃ ls before l after, Cut name ls before l after ∧ ls.findSome? g = search g file ∧
      search g out = ((before.findSome? g).or (after.findSome? g)).or (g line) := by
  obtain ⟨ls, hls, hlive⟩ := lines_appendLine hline hmid
  rcases lacks_or_cut name ls with hall | ⟨before, l, after, hcut⟩
  · exact absurd (lacks_of_live hall hlive.symm) hlacks
  refine ⟨ls, before, l, after, hcut, by rw [← findSome?_live hnil ls, hlive, findSome?_live hnil, search], ?_⟩
  have hcut' : Cut name (mid.splitOn newline) before l (after ++ [line, []]) :=
    ⟨by rw [hls, hcut.split, append_assoc, cons_append], hcut.lacks, hcut.ne_nil, hcut.head⟩
  obtain ⟨-, hpair⟩ := ite_none_left_eq_some.1 h
  cases hpair
  rw [hcut'.search_removeIn hnil fun l hl => (mem_splitOn hl).1, findSome?_append, findSome?_cons,
    findSome?_singleton, hnil, ← Option.or_assoc]
  cases g line <;> rfl

theorem search_remove_malformed (hg : ByName name g) (hlacks : ¬ Lacks name (file.splitOn newline))
    (hnone : search g file = none) : search g out = g line := by
  obtain ⟨ls, before, l, after, hcut, hls, hout⟩ := search_remove_other hline hmid h hg.nil hlacks
  rw [hnone, hcut.split, findSome?_append, findSome?_cons, or_eq_none_iff] at hls
  have hafter : after.findSome? g = none := by
    cases hl : g l with
    | none => simpa [hl] using hls.2
    | some b => simp [hl] at hls
  rw [hout, hls.1, hafter]
  rfl

include hhead

/-- the line that was appended is taken again. -/
theorem search_remove_append (hnil : g [] = none) (hlacks : Lacks name (file.splitOn newline)) :
    search g out = search g file := by
  obtain ⟨ls, hls, hlive⟩ := lines_appendLine hline hmid
  obtain ⟨-, hpair⟩ := ite_none_left_eq_some.1 h
  cases hpair
  have hend : (removeIn name [line, []] false).1 = [] := by
    by_cases hne : line = [] <;> simp [removeIn, hhead, hne]
  have hfree : ∀ l ∈ live (file.splitOn newline), newline ∉ l := fun l hl => (mem_splitOn (mem_live.1 hl).1).1
  rw [hls, removeIn_append (lacks_of_live hlacks hlive), hend, append_nil, hlive, search_terminated hnil hfree,
    findSome?_live hnil, search]

theorem search_remove_of_ne {other : Bytes} (hg : ByName other g) (hother : other ≠ name)
    (hlacks : ¬ Lacks name (file.splitOn newline)) : search g out = search g file := by
  obtain ⟨ls, before, l, after, hcut, hls, hout⟩ := search_remove_other hline hmid h hg.nil hlacks
  have hnone : g line = none := hg.other (by rw [hhead]; exact hother.symm)
  rw [hout, ← hcut.findSome?_other hg hother, hls, hnone, or_none]

end RemoveAppend

def accountFor (name line : Bytes) : Option Account :=
  if line = [] then none else (parseAccount line).filter (·.name = name)

theorem byName_accountFor (name : Bytes) : ByName name (accountFor name) where
  nil := rfl
  other {line} h := by
    rw [eq_none_iff_forall_ne_some]
    intro a ha
    obtain ⟨hparse, hname⟩ := filter_eq_some_iff.1 (ite_none_left_eq_some.1 ha).2
    obtain ⟨_, _, _, _, _, hsplit, -⟩ := parseAccount_eq_some hparse
    refine h (Eq.trans ?_ (of_decide_eq_true hname))
    rw [firstField, hsplit]
    rfl

def SameFor (name file file' : Bytes) : Prop :=
  findUserByName file' name = findUserByName file name ∧ findSecretByName file' name = findSecretByName file name

/-- **`replace_line` changes the lookups of the name, and of the name of the new line, only; none if it
replaced no line. Where it did, the new line answers for the name if it parses, and else what answers once the
old line is removed. A line appended and removed again, where nothing was found for the name, leaves every
lookup as it was just if no malformed line has the name, or the line is malformed itself.** -/
theorem rewrite_lookups (cap : Nat) (file name line : Bytes) (hline : newline ∉ line) :
    (∀ out replaced, replaceLine cap file name line = some (out, replaced) →
      (∀ other, other ≠ name → other ≠ firstField line → SameFor other file out) ∧
      (replaced = false → ∀ other, SameFor other file out) ∧
      (replaced = true →
        let rest := (removeIn name (file.splitOn newline) false).1
        findUserByName out name = (accountFor name line).or (findUserByName rest name) ∧
          findSecretByName out name = (entry name line).or (findSecretByName rest name))) ∧
    (firstField line = name → findUserByName file name = none → findSecretByName file name = none →
      ∀ mid out removed, appendLine cap file line = some mid → removeLine cap mid name = some (out, removed) →
        ((∀ other, SameFor other file out) ↔
          Lacks name (file.splitOn newline) ∨ accountFor name line = none ∧ entry name line = none)) := by
  refine ⟨fun out replaced h => ⟨fun other hother hne => ⟨?_, ?_⟩, ?_, ?_⟩, ?_⟩
  · exact search_replaceLine_other hline h (byName_accountFor other) hother hne
  · exact search_replaceLine_other hline h (byName_entry other) hother hne
  · rintro rfl other
    exact ⟨search_not_replaced hline h (byName_accountFor other).nil,
      search_not_replaced hline h (entry_nil other)⟩
  · rintro rfl
    exact ⟨search_replaceLine_removed hline h (byName_accountFor name),
      search_replaceLine_removed hline h (byName_entry name)⟩
  intro hhead huser hsecret mid out removed hmid h
  by_cases hlacks : Lacks name (file.splitOn newline)
  · refine iff_of_true (fun other => ⟨?_, ?_⟩) (.inl hlacks)
    · exact search_remove_append hline hhead hmid h (byName_accountFor other).nil hlacks
    · exact search_remove_append hline hhead hmid h (entry_nil other) hlacks
  have huser' : findUserByName out name = accountFor name line :=
    search_remove_malformed hline hmid h (byName_accountFor name) hlacks huser
  have hsecret' : findSecretByName out name = entry name line :=
    search_remove_malformed hline hmid h (byName_entry name) hlacks hsecret
  rw [or_iff_right hlacks]
  constructor
  · intro hsame
    obtain ⟨hu, hs⟩ := hsame name
    exact ⟨huser'.symm.trans (hu.trans huser), hsecret'.symm.trans (hs.trans hsecret)⟩
  · rintro ⟨hu, hs⟩ other
    by_cases hother : other = name
    · rw [hother]
      exact ⟨huser'.trans (hu.trans huser.symm), hsecret'.trans (hs.trans hsecret.symm)⟩
    · exact ⟨search_remove_of_ne hline hhead hmid h (byName_accountFor other) hother hlacks,
        search_remove_of_ne hline hhead hmid h (byName_entry other) hother hlacks⟩

/-- `a:1:1:/` in the place of a malformed `a`; and appended to `b:2:2:/` and removed again. -/
theorem rewrite_lookups_malformed :
    let file : Bytes := [97, 10, 98, 58, 50, 58, 50, 58, 47]
    let line : Bytes := [97, 58, 49, 58, 49, 58, 47]
    (∃ out, replaceLine 64 file [97] line = some (out, true) ∧ SameFor [98] file out ∧
      findUserByName out [97] = some ⟨[97], 1, 1, [47], none⟩) ∧
    ∃ mid out, appendLine 64 (file.drop 2) line = some mid ∧ removeLine 64 mid [97] = some (out, true) ∧
      ∀ other, SameFor other (file.drop 2) out := by
  intro file line
  have hout : replaceLine 64 file [97] line = some (line ++ 10 :: file.drop 2 ++ [10], true) := by decide +kernel
  obtain ⟨hother, -, hself⟩ := (rewrite_lookups 64 file [97] line (by decide)).1 _ true hout
  have haccount : accountFor [97] line = some ⟨[97], 1, 1, [47], none⟩ := by decide +kernel
  constructor
  · refine ⟨_, hout, hother [98] (by decide) (by decide), (hself rfl).1.trans ?_⟩
    rw [haccount, some_or]
  have hmid : appendLine 64 (file.drop 2) line = some (file.drop 2 ++ 10 :: line ++ [10]) := by decide +kernel
  have hgone : removeLine 64 (file.drop 2 ++ 10 :: line ++ [10]) [97] = some (file.drop 2 ++ [10], true) := by
    decide +kernel
  have hlacks : Lacks [97] ((file.drop 2).splitOn newline) := by
    unfold Lacks
    decide +kernel
  refine ⟨_, _, hmid, hgone, ?_⟩
  exact ((rewrite_lookups 64 (file.drop 2) [97] line (by decide)).2 (by decide) (by decide +kernel)
    (by decide +kernel)
    _ _ true hmid hgone).2 (.inl hlacks)

/-- `b:3:3:/` in the place of a line of `a` changes the lookup of `b`; no line of `a` is replaced or found; with
`a` in the place of `a:1:1:/` a later line answers; and `a:1:1:/`, appended to `a`, stays when `a` is removed. -/
theorem rewrite_lookups_others :
    let line (name id : UInt8) : Bytes := [name, 58, id, 58, id, 58, 47]
    let account (name : UInt8) (id : Nat) : Option Account := some ⟨[name], id, id, [47], none⟩
    (∃ out, replaceLine 64 (line 97 49 ++ 10 :: line 98 50) [97] (line 98 51) = some (out, true) ∧
      findUserByName (line 97 49 ++ 10 :: line 98 50) [98] = account 98 2 ∧
      findUserByName out [98] = account 98 3) ∧
    (∃ out, replaceLine 64 (line 98 50) [97] (line 97 49) = some (out, false) ∧
      accountFor [97] (line 97 49) = account 97 1 ∧ findUserByName out [97] = none) ∧
    (∃ out, replaceLine 64 (line 97 49 ++ 10 :: line 97 53) [97] [97] = some (out, true) ∧
      accountFor [97] [97] = none ∧ findUserByName out [97] = account 97 5) ∧
    findUserByName [97] [97] = none ∧ ∃ mid out, appendLine 64 [97] (line 97 49) = some mid ∧
      removeLine 64 mid [97] = some (out, true) ∧ findUserByName out [97] = account 97 1 := by
  intro line account
  refine ⟨⟨line 98 51 ++ 10 :: line 98 50 ++ [10], ?_, ?_, ?_⟩, ⟨line 98 50 ++ [10], ?_, ?_, ?_⟩,
    ⟨97 :: 10 :: line 97 53 ++ [10], ?_, ?_, ?_⟩, ?_, 97 :: 10 :: line 97 49 ++ [10], line 97 49 ++ [10],
    ?_, ?_, ?_⟩
  all_goals decide +kernel

/-! ## Writing in place -/

theorem commonPrefix_le (a b : Bytes) : commonPrefix a b ≤ a.length ∧ commonPrefix a b ≤ b.length := by
  fun_induction commonPrefix a b with
  | case1 a as bs ih =>
    rw [length_cons, length_cons]
    omega
  | case2 => exact ⟨zero_le _, zero_le _⟩
  | case3 => exact ⟨zero_le _, zero_le _⟩

theorem take_commonPrefix (a b : Bytes) (h : n ≤ commonPrefix a b) : a.take n = b.take n := by
  fun_induction commonPrefix a b generalizing n with
  | case1 a as bs ih =>
    cases n with
    | zero => rfl
    | succ n => rw [take_succ_cons, take_succ_cons, ih (le_of_succ_le_succ h)]
  | case2 => rw [le_zero.1 h, take_zero, take_zero]
  | case3 => rw [le_zero.1 h, take_zero, take_zero]

theorem drop_commonPrefix {a b : Bytes} (hlen : a.length = b.length)
    (h : n ≤ commonPrefix a.reverse b.reverse) : a.drop (a.length - n) = b.drop (a.length - n) := by
  have htake := take_commonPrefix _ _ h
  rw [take_reverse, take_reverse, ← hlen] at htake
  exact reverse_injective htake

theorem changedSpan_le (h : changedSpan old new = some (off, n)) :
    old.length = new.length ∧ off + n ≤ new.length := by
  unfold changedSpan at h
  split at h
  · cases h
  next hlen =>
  rw [not_not] at hlen
  dsimp only at h
  split at h
  · cases h
  cases h
  have hle := commonPrefix_le old new
  omega

/-- **Writing the changed bytes in place gives the new file.** -/
theorem put_changedSpan (h : changedSpan old new = some (off, n)) :
    put old off (slice new off (off + n)) = new := by
  obtain ⟨hlen, hle⟩ := changedSpan_le h
  unfold changedSpan at h
  rw [if_neg (not_not.2 hlen)] at h
  dsimp only at h
  split at h
  · cases h
  cases h
  have hpre := commonPrefix_le old new
  generalize htail : min (commonPrefix old.reverse new.reverse) (old.length - commonPrefix old new) = tail at *
  have hhead : old.take (commonPrefix old new) = new.take (commonPrefix old new) :=
    take_commonPrefix old new le_rfl
  have hrest : old.drop (old.length - tail) = new.drop (old.length - tail) := drop_commonPrefix hlen (by omega)
  have hend : commonPrefix old new + (old.length - tail - commonPrefix old new) = old.length - tail := by omega
  rw [put, length_slice hle, Nat.add_sub_cancel_left, hend, hrest, hhead, slice]
  have hsplit : new.take (commonPrefix old new) ++ (new.take (old.length - tail)).drop (commonPrefix old new) =
      new.take (old.length - tail) := by
    have htake : (new.take (old.length - tail)).take (commonPrefix old new) =
        new.take (commonPrefix old new) := by
      rw [take_take, min_eq_left (by omega)]
    rw [← htake, take_append_drop]
  rw [hsplit, take_append_drop]

end Ouroboros.Accounts
