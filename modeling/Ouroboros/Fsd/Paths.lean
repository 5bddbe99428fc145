import Ouroboros.Lib.Checked
import Ouroboros.Lib.Lines
import Ouroboros.Lib.Utf8
import Mathlib.Data.List.TakeWhile

/-!
# Paths

Paths as fsd takes them from a request and takes them apart. `none` is a panic where a function is
marked so; the other `Option`s are the source's own.

* `pathFrom`  the path in a request's payload;
* `parentOf`  the directory `check_access` asks about;
* `splitParent`  the directory and the name a volume works on;
* `hasDotdot`  a component `..`;
* `isWithin`  a path below another, by components;
* `isWithin_iff`  it is so of what the two paths name, or their components do not fit its tables.
-/

namespace Ouroboros.Fsd

open Checked Buffer Lines List Option Nat

abbrev Bytes := List UInt8

def slash : UInt8 := 47
def dot : Bytes := [46]
def dotdot : Bytes := [46, 46]
def root : Bytes := [slash]

def dataMax : Nat := 512

/-- `path_from`; it panics where the sum overflows. -/
def pathFrom (payload : Bytes) (start len : Nat) : Option (Option Bytes) :=
  if len = 0 ∨ len > dataMax then some none
  else
    (add? start len).bind fun stop =>
      if payload.length < stop then some none
      else (slice? payload start stop).map fun path => if Utf8.valid path then some path else none

/-! ## The parent -/

/-- the last slash below `i`, 0 if there is none; it panics past the end. -/
def cutFrom (b : Bytes) : Nat → Option Nat
  | 0 => some 0
  | i + 1 => (b[i]?).bind fun c => if c = slash then some i else cutFrom b i

/-- `parent_of`; it panics past the end. -/
def parentOf (path : Bytes) : Option Bytes := (cutFrom path path.length).bind fun cut =>
    if cut = 0 then some root
    else (slice? path 0 cut).map fun parent => if Utf8.valid parent then parent else root

def trimEnd (path : Bytes) : Bytes := path.reverse.dropWhile (· = slash) |>.reverse

def lastSlash (path : Bytes) : Option Nat := (path.reverse.findIdx? (· = slash)).map fun k => path.length - 1 - k

def splitParent (path : Bytes) : Option (Bytes × Bytes) :=
  let trimmed := trimEnd path
  if trimmed = [] then none
  else
    (lastSlash trimmed).bind fun cut =>
      let name := trimmed.drop (cut + 1)
      if name = [] then none else some (if cut = 0 then root else trimmed.take cut, name)

/-! ## Components -/

/-- `path.split('/').filter(|c| !c.is_empty())`. -/
def components (path : Bytes) : List Bytes := (path.splitOn slash).filter (· ≠ [])

def endsAt (b : Bytes) (i : Nat) : Option Bool := if i = b.length then some true else (b[i]?).map (· = slash)

/-- the loop of `has_dotdot`. -/
def dotdotFrom (b : Bytes) : Nat → Nat → Nat → Option Bool
  | 0, _, _ => some false
  | n + 1, start, i =>
    (endsAt b i).bind fun ends =>
      if ends then
        (slice? b start i).bind fun part => if part = dotdot then some true else dotdotFrom b n (i + 1) (i + 1)
      else dotdotFrom b n start (i + 1)

/-- `has_dotdot`; it panics past the end or on a reversed range. -/
def hasDotdot (path : Bytes) : Option Bool := dotdotFrom path (path.length + 1) 0 0

def withinMaxComponents : Nat := 256

/-- the loop of `components`, `start` bytes into the path: where each component kept so far is. -/
def keepFrom (path : Bytes) : Nat → Nat → List (Nat × Nat) → Option (List (Nat × Nat))
  | 0, _, out => some out
  | fuel + 1, start, out =>
    if path.length < start then some out
    else
      let part := (path.drop start).takeWhile (· ≠ slash)
      let next := start + part.length + 1
      if part = [] ∨ part = dot then keepFrom path fuel next out
      else if part = dotdot then keepFrom path fuel next out.dropLast
      else if withinMaxComponents ≤ out.length then none
      else keepFrom path fuel next (out ++ [(start % 2 ^ 16, part.length % 2 ^ 16)])

/-- `components`: `none` past the table, or for a path longer than 16 bits can tell. -/
def keptComponents (path : Bytes) : Option (List (Nat × Nat)) :=
  if 2 ^ 16 ≤ path.length then none else keepFrom path (path.length + 1) 0 []

def component (path : Bytes) (place : Nat × Nat) : Bytes :=
  let part := (path.drop place.1).take place.2
  if Utf8.valid part then part else []

def isWithin (outer inner : Bytes) (same : Bytes → Bytes → Bool) : Bool :=
  match keptComponents outer, keptComponents inner with
  | some os, some is =>
    os.length < is.length && (os.zip is).all fun p => same (component outer p.1) (component inner p.2)
  | _, _ => true

/-! ## Where `path_from` panics -/

theorem pathFrom_eq_none_iff {payload : Bytes} {start len : Nat} :
    pathFrom payload start len = none ↔ 0 < len ∧ len ≤ dataMax ∧ 2 ^ 64 ≤ start + len := by
  unfold pathFrom
  by_cases hlen : len = 0 ∨ len > dataMax
  · rw [if_pos hlen]
    constructor
    · exact nofun
    · intro h
      omega
  · rw [if_neg hlen]
    by_cases hsum : start + len < 2 ^ 64
    · rw [add?_eq hsum, bind_some]
      constructor
      · intro h
        split at h
        · cases h
        · rw [slice?_eq (by omega) (by omega), map_some] at h
          cases h
      · intro h
        omega
    · have hadd : add? start len = none := if_neg hsum
      rw [hadd, bind_none]
      exact ⟨fun _ => by omega, fun _ => rfl⟩

theorem pathFrom_zero (payload : Bytes) (len : Nat) : ∃ found, pathFrom payload 0 len = some found := by
  rw [← ne_none_iff_exists']
  intro h
  have hmax : dataMax = 512 := rfl
  have hle := pathFrom_eq_none_iff.1 h
  omega

variable {path name dir : Bytes}

theorem pathFrom_eq_some {payload : Bytes} {start len : Nat}
    (h : pathFrom payload start len = some (some path)) :
    Utf8.valid path ∧ path.length = len ∧ len ≤ dataMax := by
  unfold pathFrom at h
  split at h
  · cases h
  next hlen =>
  obtain ⟨stop, hstop, h⟩ := bind_eq_some_iff.1 h
  have hsum : stop = start + len := by
    unfold add? at hstop
    split at hstop
    · exact (some.inj hstop).symm
    · cases hstop
  split at h
  · cases h
  next hroom =>
  rw [slice?_eq (by omega) (by omega), map_some, some.injEq] at h
  split at h
  · next hvalid =>
    cases h
    refine ⟨hvalid, ?_, by omega⟩
    rw [length_slice (by omega)]
    omega
  · cases h

/-! ## Parents -/

theorem cutFrom_of_notMem {b : Bytes} (h : slash ∉ b) {i : Nat} (hi : i ≤ b.length) : cutFrom b i = some 0 := by
  induction i with
  | zero => rfl
  | succ i ih =>
    have hget : b[i]? = some b[i] := getElem?_eq_getElem hi
    have hne : b[i] ≠ slash := fun heq => h (heq ▸ getElem_mem hi)
    rw [cutFrom, hget, bind_some, if_neg hne, ih (by omega)]

theorem cutFrom_append (pre : Bytes) (h : slash ∉ name) {k : Nat} (hk : k ≤ name.length) :
    cutFrom (pre ++ slash :: name) (pre.length + k + 1) = some pre.length := by
  induction k with
  | zero =>
    rw [Nat.add_zero, cutFrom, getElem?_append_right le_rfl, Nat.sub_self, getElem?_cons_zero,
      bind_some, if_pos rfl]
  | succ k ih =>
    have hget : (pre ++ slash :: name)[pre.length + (k + 1)]? = some name[k] := by
      rw [getElem?_append_right (by omega), Nat.add_sub_cancel_left, getElem?_cons_succ]
      exact getElem?_eq_getElem hk
    have hne : name[k] ≠ slash := fun heq => h (heq ▸ getElem_mem hk)
    rw [cutFrom, hget, bind_some, if_neg hne]
    exact ih (by omega)

theorem exists_split (path : Bytes) : slash ∉ path ∨ ∃ pre name, path = pre ++ slash :: name ∧ slash ∉ name := by
  induction path with
  | nil => exact .inl not_mem_nil
  | cons c cs ih =>
    rcases ih with h | ⟨pre, name, rfl, hname⟩
    · by_cases hc : c = slash
      · exact .inr ⟨[], cs, by rw [hc, nil_append], h⟩
      · refine .inl ?_
        rw [mem_cons, not_or]
        exact ⟨fun heq => hc heq.symm, h⟩
    · exact .inr ⟨c :: pre, name, rfl, hname⟩

theorem parentOf_of_notMem (h : slash ∉ path) : parentOf path = some root := by
  rw [parentOf, cutFrom_of_notMem h le_rfl, bind_some, if_pos rfl]

theorem cutFrom_last (pre : Bytes) (hname : slash ∉ name) :
    cutFrom (pre ++ slash :: name) (pre ++ slash :: name).length = some pre.length := by
  rw [length_append, length_cons, ← add_assoc]
  exact cutFrom_append pre hname le_rfl

theorem parentOf_append {pre : Bytes} (hname : slash ∉ name) (hvalid : Utf8.valid pre) :
    parentOf (pre ++ slash :: name) = some (if pre = [] then root else pre) := by
  rw [parentOf, cutFrom_last pre hname, bind_some]
  by_cases hpre : pre = []
  · rw [hpre, length_nil, if_pos rfl, if_pos rfl]
  have hpos : ¬ pre.length = 0 := fun h0 => hpre (length_eq_zero_iff.1 h0)
  have hslice : slice (pre ++ slash :: name) 0 pre.length = pre := by
    rw [slice_append_left _ le_rfl, slice_full]
  rw [if_neg hpos, if_neg hpre, slice?_eq (zero_le _) (by rw [length_append]; omega), map_some,
    hslice, if_pos hvalid]

theorem parentOf_total (path : Bytes) : ∃ parent, parentOf path = some parent := by
  rcases exists_split path with h | ⟨pre, name, rfl, hname⟩
  · exact ⟨root, parentOf_of_notMem h⟩
  rw [parentOf, cutFrom_last pre hname, bind_some]
  split
  · exact ⟨root, rfl⟩
  · rw [slice?_eq (zero_le _) (by rw [length_append]; omega), map_some]
    exact ⟨_, rfl⟩

/-! ## Components -/

theorem components_append (q r : Bytes) : components (q ++ slash :: r) = components q ++ components r := by
  have hsplit : (q ++ slash :: r).splitOn slash = q.splitOn slash ++ r.splitOn slash :=
    splitOnP_append_cons q r (beq_self_eq_true slash)
  rw [components, hsplit, filter_append]
  rfl

theorem components_of_notMem (h : slash ∉ name) (hne : name ≠ []) : components name = [name] := by
  rw [components, splitOn_eq_singleton h]
  simp [hne]

@[simp] theorem components_nil : components [] = [] := rfl

theorem components_root : components root = [] := by decide

theorem exists_before {cs ds : List Bytes} (h : components path = cs ++ ds) (hcs : cs ≠ [])
    (hds : ds ≠ []) : ∃ q r, path = q ++ slash :: r ∧ components q = cs ∧ components r = ds := by
  -- from the last slash on
  induction hlen : path.length using Nat.strong_induction_on generalizing path ds with
  | _ n ih =>
    rcases exists_split path with hno | ⟨pre, name, rfl, hname⟩
    · exfalso
      have htwo : 2 ≤ (components path).length := by
        rw [h, length_append]
        have := length_pos_iff.2 hcs
        have := length_pos_iff.2 hds
        omega
      by_cases hne : path = []
      · rw [hne] at htwo
        simp at htwo
      · rw [components_of_notMem hno hne] at htwo
        simp at htwo
    rw [components_append] at h
    have hshort : pre.length < n := by
      rw [← hlen, length_append, length_cons]
      omega
    by_cases hne : name = []
    · rw [hne, components_nil, append_nil] at h
      obtain ⟨q, r, rfl, hq, hr⟩ := ih pre.length hshort h hds rfl
      refine ⟨q, r ++ slash :: name, by simp, hq, ?_⟩
      rw [components_append, hr, hne, components_nil, append_nil]
    · rw [components_of_notMem hname hne] at h
      obtain ⟨ds', last, rfl⟩ := (eq_nil_or_concat ds).resolve_left hds
      rw [concat_eq_append, ← append_assoc] at h
      obtain ⟨hpre, hlast⟩ := append_inj' h rfl
      by_cases hds' : ds' = []
      · rw [hds', append_nil] at hpre
        refine ⟨pre, name, rfl, hpre, ?_⟩
        rw [components_of_notMem hname hne, hds', hlast]
        rfl
      · obtain ⟨q, r, rfl, hq, hr⟩ := ih pre.length hshort hpre hds' rfl
        refine ⟨q, r ++ slash :: name, by simp, hq, ?_⟩
        rw [components_append, hr, components_of_notMem hname hne, hlast, concat_eq_append]

/-! ## Parents and names -/

theorem lastSlash_append (pre : Bytes) (h : slash ∉ name) :
    lastSlash (pre ++ slash :: name) = some pre.length := by
  have hname : name.reverse.findIdx? (· = slash) = none := by
    rw [findIdx?_eq_none_iff]
    intro c hc
    exact decide_eq_false fun heq => h (heq ▸ mem_reverse.1 hc)
  have hrev : (pre ++ slash :: name).reverse = name.reverse ++ slash :: pre.reverse := by simp
  rw [lastSlash, hrev, findIdx?_append, hname, findIdx?_cons, if_pos (decide_eq_true rfl)]
  simp only [none_or, map_some, length_reverse, length_append, length_cons, some.injEq]
  omega

theorem lastSlash_of_notMem (h : slash ∉ path) : lastSlash path = none := by
  rw [lastSlash, map_eq_none_iff, findIdx?_eq_none_iff]
  intro c hc
  exact decide_eq_false fun heq => h (heq ▸ mem_reverse.1 hc)

theorem trimEnd_append (path : Bytes) : ∃ k, path = trimEnd path ++ replicate k slash := by
  have hsplit := takeWhile_append_dropWhile (p := (· = slash)) (l := path.reverse)
  have htake : ∀ c ∈ path.reverse.takeWhile (· = slash), c = slash := by
    intro c hc
    simpa using mem_takeWhile_imp hc
  refine ⟨(path.reverse.takeWhile (· = slash)).length, ?_⟩
  have hrep : path.reverse.takeWhile (· = slash) = replicate _ slash := eq_replicate_iff.2 ⟨rfl, htake⟩
  rw [hrep] at hsplit
  have hrev := congrArg reverse hsplit
  rw [reverse_append, reverse_replicate, reverse_reverse] at hrev
  exact hrev.symm

theorem components_slashes (path : Bytes) (k : Nat) :
    components (path ++ replicate k slash) = components path := by
  induction k with
  | zero => rw [replicate_zero, append_nil]
  | succ k ih =>
    rw [replicate_succ', ← append_assoc, components_append, components_nil, append_nil, ih]

theorem components_trimEnd (path : Bytes) : components (trimEnd path) = components path := by
  obtain ⟨k, hk⟩ := trimEnd_append path
  conv_rhs => rw [hk, components_slashes]

theorem splitParent_eq_some (h : splitParent path = some (dir, name)) :
    ∃ pre, trimEnd path = pre ++ slash :: name ∧ slash ∉ name ∧ name ≠ [] ∧
      dir = if pre = [] then root else pre := by
  unfold splitParent at h
  dsimp only at h
  split at h
  · cases h
  obtain ⟨cut, hcut, h⟩ := bind_eq_some_iff.1 h
  split at h
  · cases h
  next hne =>
  rcases exists_split (trimEnd path) with hno | ⟨pre, last, heq, hlast⟩
  · rw [lastSlash_of_notMem hno] at hcut
    cases hcut
  rw [heq, lastSlash_append pre hlast] at hcut
  cases hcut
  rw [heq] at h hne
  have hdrop : (pre ++ slash :: last).drop (pre.length + 1) = last := by simp
  have htake : (pre ++ slash :: last).take pre.length = pre := by simp
  rw [hdrop] at hne
  rw [hdrop, htake] at h
  cases h
  refine ⟨pre, heq, hlast, hne, ?_⟩
  simp [length_eq_zero_iff]

theorem components_splitParent (h : splitParent path = some (dir, name)) :
    components path = components dir ++ [name] := by
  obtain ⟨pre, htrim, hname, hne, rfl⟩ := splitParent_eq_some h
  rw [← components_trimEnd, htrim, components_append, components_of_notMem hname hne]
  split
  · next hpre => rw [hpre, components_nil, components_root]
  · rfl

def Plain (path : Bytes) : Prop := path.getLast? ≠ some slash

theorem trimEnd_of_plain (h : Plain path) : trimEnd path = path := by
  obtain ⟨k, hk⟩ := trimEnd_append path
  rcases k with _ | k
  · rw [replicate_zero, append_nil] at hk
    exact hk.symm
  exfalso
  apply h
  rw [hk, replicate_succ', ← append_assoc, getLast?_append]
  rfl

theorem parentOf_splitParent (hvalid : Utf8.valid path) (hplain : Plain path)
    (h : splitParent path = some (dir, name)) : parentOf path = some dir := by
  obtain ⟨pre, htrim, hname, -, rfl⟩ := splitParent_eq_some h
  rw [trimEnd_of_plain hplain] at htrim
  subst htrim
  have hpre : Utf8.valid pre := by
    rw [Utf8.valid_append_ascii pre (by decide)] at hvalid
    exact (Bool.and_eq_true_iff.1 hvalid).1
  exact parentOf_append hname hpre

/-! ## `..` -/

theorem endsAt_append_cons (pre : Bytes) (c : UInt8) (rest : Bytes) :
    endsAt (pre ++ c :: rest) pre.length = some (decide (c = slash)) := by
  have hlen : ¬ pre.length = (pre ++ c :: rest).length := by
    rw [length_append, length_cons]
    omega
  rw [endsAt, if_neg hlen, getElem?_append_right le_rfl, Nat.sub_self, getElem?_cons_zero, map_some]

theorem dotdotFrom_eq (done cur rest : Bytes) (hcur : slash ∉ cur) :
    dotdotFrom (done ++ (cur ++ rest)) (rest.length + 1) done.length (done.length + cur.length) =
      some (decide (dotdot ∈ (cur ++ rest).splitOn slash)) := by
  induction rest generalizing done cur with
  | nil =>
    have hends : endsAt (done ++ (cur ++ [])) (done.length + cur.length) = some true := by
      rw [endsAt, if_pos (by simp)]
    have hslice : slice? (done ++ (cur ++ [])) done.length (done.length + cur.length) = some cur := by
      rw [slice?_eq (by omega) (by simp), append_nil]
      have hmid := @slice_mid _ done cur [] _ _ rfl rfl
      rw [append_nil] at hmid
      rw [hmid]
    rw [length_nil, zero_add, dotdotFrom, hends, bind_some, if_pos rfl, hslice, bind_some,
      append_nil, splitOn_eq_singleton hcur]
    split
    · next hdd => rw [hdd, decide_eq_true (mem_singleton.2 rfl)]
    · next hdd => rw [dotdotFrom, decide_eq_false (fun hmem => hdd (mem_singleton.1 hmem).symm)]
  | cons c cs ih =>
    have hassoc : done ++ (cur ++ c :: cs) = (done ++ cur) ++ c :: cs := by rw [append_assoc]
    have hends : endsAt (done ++ (cur ++ c :: cs)) (done.length + cur.length) = some (decide (c = slash)) := by
      rw [hassoc, ← length_append]
      exact endsAt_append_cons _ c cs
    rw [length_cons, dotdotFrom, hends, bind_some]
    by_cases hc : c = slash
    · -- a component ends here
      subst hc
      have hslice : slice? (done ++ (cur ++ slash :: cs)) done.length (done.length + cur.length) = some cur := by
        rw [slice?_eq (by omega) (by simp), hassoc, slice_mid _ rfl rfl]
      have hih := ih (done ++ (cur ++ [slash])) [] not_mem_nil
      have hshift : done ++ (cur ++ [slash]) ++ ([] ++ cs) = done ++ (cur ++ slash :: cs) := by simp
      have hlen : (done ++ (cur ++ [slash])).length = done.length + cur.length + 1 := by simp; omega
      rw [hshift, hlen, length_nil, add_zero, nil_append] at hih
      rw [if_pos (decide_eq_true rfl), hslice, bind_some, splitOn_append_cons_self_of_not_mem hcur, hih]
      split
      · next hdd => rw [hdd, decide_eq_true (mem_cons_self)]
      next hdd =>
      congr 1
      rw [decide_eq_decide, mem_cons]
      exact ⟨fun h => .inr h, fun h => h.resolve_left fun heq => hdd heq.symm⟩
    · have hcur' : slash ∉ cur ++ [c] := by
        rw [mem_append, not_or, mem_singleton]
        exact ⟨hcur, fun heq => hc heq.symm⟩
      have hih := ih done (cur ++ [c]) hcur'
      rw [append_assoc, singleton_append, length_append, length_singleton, ← add_assoc] at hih
      rw [if_neg (by simpa using hc), hih]

theorem hasDotdot_eq (path : Bytes) : hasDotdot path = some (decide (dotdot ∈ path.splitOn slash)) :=
  dotdotFrom_eq [] [] path not_mem_nil

/-! ## Paths below others -/

def resolvePart (out : List Bytes) (part : Bytes) : List Bytes :=
  if part = [] ∨ part = dot then out else if part = dotdot then out.dropLast else out ++ [part]

def normalize (path : Bytes) : List Bytes := (path.splitOn slash).foldl resolvePart []

theorem foldl_resolvePart {parts : List Bytes} (h : ∀ c ∈ parts.filter (· ≠ []), c ≠ dot ∧ c ≠ dotdot)
    (out : List Bytes) : parts.foldl resolvePart out = out ++ parts.filter (· ≠ []) := by
  induction parts generalizing out with
  | nil => exact (append_nil out).symm
  | cons part parts ih =>
    rw [foldl_cons]
    by_cases hnil : part = []
    · have hfilter : (part :: parts).filter (· ≠ []) = parts.filter (· ≠ []) := by simp [hnil]
      rw [hfilter] at h ⊢
      rw [ih h, resolvePart, if_pos (.inl hnil)]
    · have hfilter : (part :: parts).filter (· ≠ []) = part :: parts.filter (· ≠ []) := by simp [hnil]
      rw [hfilter, forall_mem_cons] at h
      obtain ⟨⟨hdot, hdotdot⟩, h⟩ := h
      rw [hfilter, ih h, resolvePart, if_neg (not_or.2 ⟨hnil, hdot⟩), if_neg hdotdot, append_assoc]
      rfl

theorem normalize_eq_components (h : ∀ c ∈ components path, c ≠ dot ∧ c ≠ dotdot) :
    normalize path = components path := (foldl_resolvePart h []).trans (nil_append _)

def Held (parts out : List Bytes) : Prop :=
  ∀ n, ((parts.take n).foldl resolvePart out).length ≤ withinMaxComponents

def Tells (path : Bytes) (parts out : List Bytes) : Option (List (Nat × Nat)) → Prop
  | some places => Held parts out ∧ places.map (component path) = parts.foldl resolvePart out
  | none => ¬ Held parts out

theorem tells_cons {part : Bytes} {parts out : List Bytes} {r : Option (List (Nat × Nat))}
    (h : out.length ≤ withinMaxComponents) (hr : Tells path parts (resolvePart out part) r) :
    Tells path (part :: parts) out r := by
  have hheld : Held (part :: parts) out ↔ Held parts (resolvePart out part) := by
    refine ⟨fun hall n => hall (n + 1), fun hall n => ?_⟩
    cases n with
    | zero => exact h
    | succ n => exact hall n
  cases r with
  | some places => exact ⟨hheld.2 hr.1, hr.2⟩
  | none => exact hheld.not.2 hr

theorem tells_keepFrom {path : Bytes} (hlen : path.length < 2 ^ 16) {fuel : Nat} {done rest : Bytes}
    {out : List (Nat × Nat)} (hpath : done ++ rest = path) (hfuel : rest.length < fuel)
    (hvalid : Utf8.valid rest) (hout : out.length ≤ withinMaxComponents) :
    Tells path (rest.splitOn slash) (out.map (component path)) (keepFrom path fuel done.length out) := by
  induction fuel generalizing done rest out with
  | zero => omega
  | succ fuel ih =>
    have hdrop : path.drop done.length = rest := by rw [← hpath, drop_left]
    have hsize : done.length + rest.length = path.length := by rw [← hpath, length_append]
    -- the first component, and what the loop makes of the others
    obtain ⟨part, parts, hsplit, htake, hpart, hprefix, hgo⟩ : ∃ part parts, rest.splitOn slash = part :: parts ∧
        rest.takeWhile (· ≠ slash) = part ∧ Utf8.valid part ∧ part <+: rest ∧ ∀ next,
          next.length ≤ withinMaxComponents → Tells path parts (next.map (component path))
            (keepFrom path fuel (done.length + part.length + 1) next) := by
      by_cases hmem : slash ∈ rest
      · obtain ⟨part, more, rfl, hnot⟩ := eq_append_cons_of_mem hmem
        rw [Utf8.valid_append_ascii part (by decide), Bool.and_eq_true] at hvalid
        rw [length_append, length_cons] at hfuel
        refine ⟨part, _, splitOn_append_cons_self_of_not_mem hnot more, ?_, hvalid.1, prefix_append ..,
          fun next hnext => ?_⟩
        · rw [takeWhile_append_of_pos fun b hb => decide_eq_true (ne_of_mem_of_not_mem hb hnot)]
          simp
        · have hih := @ih (done ++ part ++ [slash]) more next (by simp [← hpath]) (by omega) hvalid.2 hnext
          rwa [length_append, length_append, length_singleton] at hih
      · have htake : rest.takeWhile (· ≠ slash) = rest :=
          takeWhile_eq_self_iff.2 fun b hb => decide_eq_true (ne_of_mem_of_not_mem hb hmem)
        refine ⟨rest, [], splitOn_eq_singleton hmem, htake, hvalid, prefix_rfl, fun next hnext => ?_⟩
        have hend : keepFrom path fuel (done.length + rest.length + 1) next = some next := by
          cases fuel with
          | zero => rfl
          | succ fuel => exact if_pos (by omega)
        rw [hend]
        exact ⟨fun n => by rwa [take_nil, foldl_nil, length_map], rfl⟩
    have hle := hprefix.length_le
    rw [hsplit, keepFrom, if_neg (by omega), hdrop, htake]
    refine tells_cons (by rwa [length_map]) ?_
    rw [resolvePart]
    by_cases hskip : part = [] ∨ part = dot
    · rw [if_pos hskip, if_pos hskip]
      exact hgo out hout
    rw [if_neg hskip, if_neg hskip]
    by_cases hback : part = dotdot
    · rw [if_pos hback, if_pos hback, ← map_dropLast]
      exact hgo _ (by rw [length_dropLast]; omega)
    rw [if_neg hback, if_neg hback]
    have hcomponent : component path (done.length % 2 ^ 16, part.length % 2 ^ 16) = part := by
      rw [component, mod_eq_of_lt (by omega), mod_eq_of_lt (by omega), hdrop, ← prefix_iff_eq_take.1 hprefix,
        if_pos hpart]
    split
    · next hfull =>
      intro hheld
      have hroom := hheld 0
      rw [take_zero, foldl_nil, length_append, length_map, length_singleton] at hroom
      omega
    · next hroom =>
      have hnext := hgo (out ++ [(done.length % 2 ^ 16, part.length % 2 ^ 16)])
        (by rw [length_append, length_singleton]; omega)
      rwa [map_append, map_singleton, hcomponent] at hnext

/-- `inner` names something below what `outer` names. -/
def Below (same : Bytes → Bytes → Bool) (outer inner : Bytes) : Prop :=
  (normalize outer).length < (normalize inner).length ∧ ∀ p ∈ (normalize outer).zip (normalize inner),
    same p.1 p.2 = true

/-- `is_within` can tell the components of the path. -/
def Told (path : Bytes) : Prop := path.length < 2 ^ 16 ∧ Held (path.splitOn slash) []

theorem keptComponents_told (hvalid : Utf8.valid path) :
    (Told path ∧ ∃ places, keptComponents path = some places ∧ places.map (component path) = normalize path) ∨
      ¬ Told path ∧ keptComponents path = none := by
  unfold keptComponents
  split
  · next hlong => exact .inr ⟨fun h => absurd h.1 (not_lt.2 hlong), rfl⟩
  next hlen =>
  have hloop := @tells_keepFrom path (not_le.1 hlen) (path.length + 1) [] path [] rfl
    (lt_succ_self _) hvalid (zero_le _)
  rw [length_nil] at hloop
  cases hkeep : keepFrom path (path.length + 1) 0 [] with
  | some places =>
    rw [hkeep] at hloop
    exact .inl ⟨⟨not_le.1 hlen, hloop.1⟩, places, rfl, hloop.2⟩
  | none =>
    rw [hkeep] at hloop
    exact .inr ⟨fun h => hloop h.2, rfl⟩

theorem isWithin_iff {outer inner : Bytes} (same : Bytes → Bytes → Bool) (ho : Utf8.valid outer)
    (hi : Utf8.valid inner) :
    isWithin outer inner same = true ↔ Below same outer inner ∨ ¬ (Told outer ∧ Told inner) := by
  unfold isWithin
  rcases keptComponents_told ho with ⟨hot, os, hos, hon⟩ | ⟨hot, hos⟩
  · rcases keptComponents_told hi with ⟨hit, is, his, hin⟩ | ⟨hit, his⟩
    · have hzip : (normalize outer).zip (normalize inner) =
          (os.zip is).map (Prod.map (component outer) (component inner)) := by rw [← hon, ← hin, zip_map]
      rw [hos, his, Below, hzip, ← hon, ← hin, length_map, length_map]
      simp only [Bool.and_eq_true, decide_eq_true_eq, List.all_eq_true, List.forall_mem_map, Prod.map, hot, hit,
        and_self, not_true, or_false]
    · rw [hos, his]
      simp [hit]
  · rw [hos]
    simp [hot]

/-- `/a/./b/../c` is below `//a`. -/
theorem isWithin_dotted : Below (· == ·) [47, 47, 97] [47, 97, 47, 46, 47, 98, 47, 46, 46, 47, 99] ∨
    ¬ (Told [47, 47, 97] ∧ Told [47, 97, 47, 46, 47, 98, 47, 46, 46, 47, 99]) :=
  (isWithin_iff _ (by decide) (by decide)).1 (by decide)

end Ouroboros.Fsd
