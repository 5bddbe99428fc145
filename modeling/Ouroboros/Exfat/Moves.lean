import Ouroboros.Fsd.Serve
import Ouroboros.Lib.Rooted
import Ouroboros.Lib.Try
import Ouroboros.Lib.Utf16

/-!
# Moves on exFAT

A directory is its slots: the entry sets that `walk_dir` comes to, and the other slots in use. What a move
does to clusters, and why a step of it may fail, is left to `Faults`.

* `nameAnswers`  which sets a lookup takes; `namesMatch` is what the guard of NP_MV compares by;
* `Volume.edges`  which set names which directory; a volume is well formed if they are a rooted graph;
* `Volume.through`  the new directory is found through the set that is moved;
* `Volume.spelled`  both paths are spelled by the names themselves: then the guard refuses such a move;
* `Volume.disguised`  such a move by another spelling, which the guard does not see.
-/

namespace Ouroboros.Exfat

open Fsd Relation List Try Function Bool

/-! ## Names -/

def upcase (c : UInt16) : UInt16 := if 0x61 ≤ c ∧ c ≤ 0x7a then c - 0x20 else c

def unitsMatch (a b : List UInt16) : Bool := a.map upcase = b.map upcase

def namesMatch (entry name : Bytes) : Bool := unitsMatch (Utf16.units entry) (Utf16.units name)

def nameAnswers (units asked : List UInt16) : Bool :=
  if units.length ≠ asked.length then false
  else if unitsMatch units asked then true
  else
    !Utf16.shownExactly units && (units.zip asked).all fun x =>
      if x.1 ≥ 0x80 then x.2 = 63 else upcase x.1 = upcase x.2

def longNameMax : Nat := 255
def nameCharsPerEntry : Nat := 15
def wholeSetEntries : Nat := 1 + 255

/-- `encode_name`: no control character, and none of `"*/:<>?\|`. -/
def encodeName (name : Bytes) : Option (List UInt16) :=
  let units := Utf16.units name
  if units.any (fun u => u < 0x20 || [34, 42, 47, 58, 60, 62, 63, 92, 124].contains u) then none
  else if units.length > longNameMax ∨ units = [] then none
  else some units

/-! ## Volumes -/

structure EntrySet where
  units : List UInt16
  isDir : Bool
  /-- the directory it names, by its first cluster; one without clusters has a number of its own. -/
  dir : Nat
  secondaries : Nat
  /-- the secondaries past the first that hold no part of the name. -/
  rest : Nat

def EntrySet.len (e : EntrySet) : Nat := 1 + e.secondaries

structure Directory where
  slots : Nat
  set : Nat → Option EntrySet
  other : Nat → Bool
  inside : ∀ i e, set i = some e → i < slots

structure Volume where
  root : Nat
  dir : Nat → Directory

namespace Directory

def answering (d : Directory) (asked : List UInt16) : Option (Nat × EntrySet) :=
  (range d.slots).findSome? fun i => ((d.set i).filter fun e => nameAnswers e.units asked).map (i, ·)

def inUse (d : Directory) (i : Nat) : Bool :=
  d.other i || (range (i + 1)).any fun j => (d.set j).any fun e => i < j + e.len

/-- `find_free_run`; the slots of a directory that is grown are free. -/
def findFreeRun (d : Directory) (need : Nat) : Nat :=
  ((range d.slots).find? fun i => (range need).all fun k => !d.inUse (i + k)).getD d.slots

theorem set_findFreeRun (d : Directory) (e : EntrySet) : d.set (d.findFreeRun e.len) = none := by
  rw [Option.eq_none_iff_forall_ne_some]
  intro f hf
  have hin := d.inside _ f hf
  rw [findFreeRun] at hf hin
  cases hfind : (range d.slots).find? fun i => (range e.len).all fun k => !d.inUse (i + k) with
  | none =>
    rw [hfind] at hin
    exact absurd hin (lt_irrefl _)
  | some i =>
    rw [hfind] at hf
    have hall := find?_some hfind
    have hfree := all_eq_true.1 hall 0 (mem_range.2 (Nat.lt_add_right _ Nat.one_pos))
    rw [Nat.add_zero, not_eq_true', inUse, or_eq_false_iff, any_eq_false] at hfree
    refine hfree.2 i (mem_range.2 (Nat.lt_succ_self i)) ?_
    rw [show d.set i = some f from hf]
    exact decide_eq_true (Nat.lt_add_of_pos_right (Nat.lt_add_right _ Nat.one_pos))

def insertSet (d : Directory) (e : EntrySet) : Directory where
  slots := max d.slots (d.findFreeRun e.len + e.len)
  set := Function.update d.set (d.findFreeRun e.len) (some e)
  other := d.other
  inside i f h := by
    rcases eq_or_ne i (d.findFreeRun e.len) with rfl | hne
    · exact lt_max_of_lt_right (Nat.lt_add_of_pos_right (Nat.lt_add_right _ Nat.one_pos))
    · rw [update_of_ne hne] at h
      exact lt_max_of_lt_left (d.inside i f h)

def unlinkSet (d : Directory) (i : Nat) : Directory where
  slots := d.slots
  set := Function.update d.set i none
  other := d.other
  inside j f h := by
    rcases eq_or_ne j i with rfl | hne
    · rw [update_self] at h
      cases h
    · rw [update_of_ne hne] at h
      exact d.inside j f h

end Directory

def Volume.update (v : Volume) (dir : Nat) (f : Directory → Directory) : Volume :=
  { v with dir := Function.update v.dir dir (f (v.dir dir)) }

/-! ## The move -/

inductive Step where
  | writable
  | walkDir (dir : Nat)
  | runsOf
  | readSlots
  | room
  | insertSet
  | unlinkSet
  | freeRuns

/-- the error of a step that fails, and the volume that is left when it was rolled back or was not. -/
abbrev Faults : Type := Step → Volume → Option (Error × Volume)

abbrev Op (α : Type) : Type := Try Volume Error α

section Ops
variable (faults : Faults)

def attempt (step : Step) : Op Unit := fun v =>
  match faults step v with
  | some (e, w) => (.error e, w)
  | none => (.ok (), v)

def entryIn (dir : Nat) (name : Bytes) : Op (Option (Nat × EntrySet)) :=
  match Utf16.unitsOf name with
  | none => pure none
  | some asked => do
    attempt faults (.walkDir dir)
    Try.ask fun v => (v.dir dir).answering asked

def findFrom (current : EntrySet) : List Bytes → Op EntrySet
  | [] => pure current
  | component :: rest =>
    if !current.isDir then Try.fail .notADirectory
    else do
      match ← entryIn faults current.dir component with
      | none => Try.fail .notFound
      | some (_, entry) => findFrom entry rest

def rootEntry (v : Volume) : EntrySet := ⟨[], true, v.root, 0, 0⟩

def dirAt (path : Bytes) : Op Nat := do
  let entry ← findFrom faults (← Try.ask rootEntry) (components path)
  if !entry.isDir then Try.fail .notADirectory else pure entry.dir

def renamedSet (e : EntrySet) (name : Bytes) : Op EntrySet :=
  match encodeName name with
  | none => Try.fail .invalidName
  | some units => do
    let made := 2 + (units.length + (nameCharsPerEntry - 1)) / nameCharsPerEntry
    if e.len < 2 ∨ e.len > wholeSetEntries then Try.fail .io
    else do
      attempt faults .readSlots
      if made + e.rest > wholeSetEntries then Try.fail .invalidName
      else pure { e with units, secondaries := made + e.rest - 1 }

def unlinkSet (dir slot : Nat) : Op Unit := do
  attempt faults .unlinkSet
  Try.change (·.update dir (·.unlinkSet slot))

/-- `move_set`: the set at slot `slot` of `src`, under `name` in `dst`. -/
def moveSet (dst src slot : Nat) (e : EntrySet) (name : Bytes) : Op Unit := do
  let set ← renamedSet faults e name
  attempt faults .room
  attempt faults .insertSet
  Try.change (·.update dst (·.insertSet set))
  unlinkSet faults src slot

def mv (src dst : Bytes) : Op Unit := do
  attempt faults .writable
  match splitParent src, splitParent dst with
  | some (srcParentPath, srcName), some (dstParentPath, dstName) => do
    let srcParent ← dirAt faults srcParentPath
    let dstParent ← dirAt faults dstParentPath
    match ← entryIn faults srcParent srcName with
    | none => Try.fail .notFound
    | some (srcAt, srcEntry) =>
      match ← entryIn faults dstParent dstName with
      | none => moveSet faults dstParent srcParent srcAt srcEntry dstName
      | some (dstAt, dstEntry) =>
        let sameSet := srcParent = dstParent ∧ srcAt = dstAt
        if sameSet ∧ srcName = dstName then pure ()
        else if srcEntry.isDir ∨ dstEntry.isDir then Try.fail .alreadyExists
        else if sameSet then moveSet faults dstParent srcParent srcAt srcEntry dstName
        else do
          attempt faults .runsOf
          moveSet faults dstParent srcParent srcAt srcEntry dstName
          unlinkSet faults dstParent dstAt
          attempt faults .freeRuns
  | _, _ => Try.fail .invalidName

end Ops

/-! ## The graph of a volume -/

namespace Volume

/-- the set `(p, i)` names the directory `d`. -/
def edges (v : Volume) : Set (Nat × Nat × Nat) :=
  {x | ∃ e, (v.dir x.1).set x.2.1 = some e ∧ e.isDir = true ∧ e.dir = x.2.2}

/-- every directory but the root is named by exactly one set, and is found from the root. -/
def WellFormed (v : Volume) : Prop := Rooted v.root v.edges

def lookup (v : Volume) (dir : Nat) (name : Bytes) : Option (Nat × EntrySet) :=
  (Utf16.unitsOf name).bind (v.dir dir).answering

def trail (v : Volume) (dir : Nat) : List Bytes → List (Nat × Nat × Nat)
  | [] => []
  | component :: rest =>
    match v.lookup dir component with
    | none => []
    | some (i, e) => (dir, i, e.dir) :: v.trail e.dir rest

/-- the sets that answer for `src` are the first of those that answer for the parent of `dst`. -/
def through (v : Volume) (src dst : Bytes) : Bool :=
  (splitParent dst).any fun d => v.trail v.root (components src) <+: v.trail v.root (components d.1)

/-- every set that answers has the component for its name, up to case; none only by a `?` that stands for what a
listing cannot show. -/
def named (v : Volume) (dir : Nat) : List Bytes → Bool
  | [] => true
  | component :: rest =>
    match v.lookup dir component with
    | none => true
    | some (_, e) => unitsMatch e.units (Utf16.units component) && v.named e.dir rest

/-- neither path has a `.` or `..` in it or a name that is answered only by a `?`. -/
def spelled (v : Volume) (src dst : Bytes) : Bool :=
  ((components src ++ components dst).all fun c => c ≠ dot && c ≠ dotdot) && v.named v.root (components src) &&
    (splitParent dst).any fun d => v.named v.root (components d.1)

def disguised (v : Volume) (src dst : Bytes) : Bool := v.through src dst && !v.spelled src dst

theorem lookup_set {v : Volume} {dir i : Nat} {name : Bytes} {e : EntrySet}
    (h : v.lookup dir name = some (i, e)) :
    (v.dir dir).set i = some e := by
  obtain ⟨asked, -, h⟩ := Option.bind_eq_some_iff.1 h
  obtain ⟨j, -, h⟩ := exists_of_findSome?_eq_some h
  obtain ⟨f, hf, heq⟩ := Option.map_eq_some_iff.1 h
  cases heq
  exact (Option.filter_eq_some_iff.1 hf).1

end Volume

section Found
variable {faults : Faults} {v w : Volume} {step : Step} {dir : Nat}

theorem attempt_eq_ok {a : Unit} (h : attempt faults step v = (.ok a, w)) : v = w := by
  rw [attempt] at h
  split at h
  · cases h
  · exact (Prod.mk.inj h).2

theorem attempt_bind {α : Type} {f : Unit → Op α} {a : α}
    (h : (attempt faults step >>= f) v = (.ok a, w)) : f () v = (.ok a, w) := by
  obtain ⟨_, _, hstep, hrest⟩ := bind_eq_ok.1 h
  cases attempt_eq_ok hstep
  exact hrest

theorem entryIn_eq_ok {name : Bytes} {x : Option (Nat × EntrySet)}
    (h : entryIn faults dir name v = (.ok x, w)) : v = w ∧ x = v.lookup dir name := by
  rw [entryIn] at h
  rw [Volume.lookup]
  cases hasked : Utf16.unitsOf name with
  | none =>
    rw [hasked] at h
    cases h
    exact ⟨rfl, rfl⟩
  | some asked =>
    rw [hasked] at h
    cases attempt_bind h
    exact ⟨rfl, rfl⟩

/-- the components lead from `dir` to `dst`. -/
structure Found (v : Volume) (dir : Nat) (l : List Bytes) (dst : Nat) : Prop where
  walk : Walk v.edges dir (v.trail dir l) dst
  length : (v.trail dir l).length = l.length
  trail_append : ∀ m, v.trail dir (l ++ m) = v.trail dir l ++ v.trail dst m

theorem trail_cons {component : Bytes} {i : Nat} {e : EntrySet} (h : v.lookup dir component = some (i, e))
    (rest : List Bytes) : v.trail dir (component :: rest) = (dir, i, e.dir) :: v.trail e.dir rest := by
  rw [Volume.trail, h]

theorem findFrom_found {l : List Bytes} {e f : EntrySet} (h : findFrom faults e l v = (.ok f, w))
    (hf : f.isDir) :
    v = w ∧ e.isDir ∧ Found v e.dir l f.dir := by
  induction l generalizing e with
  | nil =>
    cases h
    exact ⟨rfl, hf, rfl, rfl, fun m => rfl⟩
  | cons component rest ih =>
    obtain ⟨hdir, h⟩ := ite_fail_eq_ok.1 h
    have hdir : e.isDir := by simpa using hdir
    obtain ⟨x, u, hu, h⟩ := bind_eq_ok.1 h
    obtain ⟨rfl, rfl⟩ := entryIn_eq_ok hu
    cases hx : v.lookup e.dir component with
    | none =>
      rw [hx] at h
      cases h
    | some x =>
      obtain ⟨i, g⟩ := x
      rw [hx] at h
      obtain ⟨hw, hg, hfound⟩ := ih h
      have hedge : (e.dir, i, g.dir) ∈ v.edges := ⟨g, Volume.lookup_set hx, hg, rfl⟩
      refine ⟨hw, hdir, ?_, ?_, fun m => ?_⟩
      · rw [trail_cons hx]
        exact ⟨hedge, rfl, hfound.walk⟩
      · rw [trail_cons hx, length_cons, hfound.length, length_cons]
      · rw [cons_append, trail_cons hx, trail_cons hx, hfound.trail_append, cons_append]

theorem dirAt_found {path : Bytes} (h : dirAt faults path v = (.ok dir, w)) :
    v = w ∧ Found v v.root (components path) dir := by
  obtain ⟨_, _, hroot, h⟩ := bind_eq_ok.1 h
  cases hroot
  obtain ⟨f, u, hu, h⟩ := bind_eq_ok.1 h
  obtain ⟨hf, h⟩ := ite_fail_eq_ok.1 h
  cases h
  obtain ⟨hw, -, hfound⟩ := findFrom_found hu (by simpa using hf)
  exact ⟨hw, hfound⟩

end Found

/-! ## What a move does to the graph -/

section Moved
variable {faults : Faults} {v w : Volume} {p q i : Nat} {e : EntrySet} {a : Unit} {name src dst : Bytes}

theorem unlinkSet_eq_ok {slot : Nat} (h : unlinkSet faults p slot v = (.ok a, w)) :
    w = v.update p (·.unlinkSet slot) := by
  cases attempt_bind h
  rfl

theorem renamedSet_eq_ok {f : EntrySet} (h : renamedSet faults e name v = (.ok f, w)) :
    v = w ∧ f.isDir = e.isDir ∧ f.dir = e.dir := by
  unfold renamedSet at h
  cases hunits : encodeName name with
  | none =>
    rw [hunits] at h
    cases h
  | some units =>
    rw [hunits] at h
    cases (ite_fail_eq_ok.1 (attempt_bind (ite_fail_eq_ok.1 h).2)).2
    exact ⟨rfl, rfl, rfl⟩

theorem moveSet_eq_ok (h : moveSet faults q p i e name v = (.ok a, w)) :
    ∃ f : EntrySet, f.isDir = e.isDir ∧ f.dir = e.dir ∧ w = (v.update q (·.insertSet f)).update p
      (·.unlinkSet i) := by
  obtain ⟨f, u, hu, hrest⟩ := bind_eq_ok.1 h
  obtain ⟨rfl, hdir, hto⟩ := renamedSet_eq_ok hu
  obtain ⟨_, t, ht, hunlink⟩ := bind_eq_ok.1 (attempt_bind (attempt_bind hrest))
  cases ht
  exact ⟨f, hdir, hto, unlinkSet_eq_ok hunlink⟩

theorem mem_edges_insertSet (v : Volume) (q : Nat) (f : EntrySet) (x : Nat × Nat × Nat) :
    x ∈ (v.update q (·.insertSet f)).edges ↔ f.isDir ∧ x = (q, (v.dir q).findFreeRun f.len, f.dir) ∨
      x ∈ v.edges := by
  obtain ⟨p, i, d⟩ := x
  have hnone := (v.dir q).set_findFreeRun f
  rcases eq_or_ne p q with rfl | hp
  · rcases eq_or_ne i ((v.dir p).findFreeRun f.len) with rfl | hi
    · simp [Volume.edges, Volume.update, Directory.insertSet, hnone, @eq_comm _ d]
    · simp [Volume.edges, Volume.update, Directory.insertSet, hi]
  · simp [Volume.edges, Volume.update, hp]

theorem mem_edges_unlinkSet (v : Volume) (p i : Nat) (x : Nat × Nat × Nat) :
    x ∈ (v.update p (·.unlinkSet i)).edges ↔ x ∈ v.edges ∧ ¬ (x.1 = p ∧ x.2.1 = i) := by
  obtain ⟨q, j, d⟩ := x
  rcases eq_or_ne q p with rfl | hq
  · rcases eq_or_ne j i with rfl | hj
    · simp [Volume.edges, Volume.update, Directory.unlinkSet]
    · simp [Volume.edges, Volume.update, Directory.unlinkSet, hj]
  · simp [Volume.edges, Volume.update, hq]

theorem edge_of_set (he : (v.dir p).set i = some e) {x : Nat × Nat × Nat} (hx : x ∈ v.edges)
    (hat : x.1 = p ∧ x.2.1 = i) :
    e.isDir ∧ x = (p, i, e.dir) := by
  obtain ⟨p', i', d⟩ := x
  obtain ⟨rfl, rfl⟩ := hat
  obtain ⟨f, hf, hdir, rfl⟩ := hx
  cases he.symm.trans hf
  exact ⟨hdir, rfl⟩

/-- the set `e` at slot `i` of `p` was moved to `q`: the edge to a directory goes to another node, a file is
none. -/
structure Moved (v w : Volume) (p i : Nat) (e : EntrySet) (q : Nat) : Prop where
  root : w.root = v.root
  dir : e.isDir = true → ∃ j, w.edges = insert (q, j, e.dir) (v.edges \ {(p, i, e.dir)})
  file : e.isDir = false → w.edges = v.edges

theorem moveSet_moved (he : (v.dir p).set i = some e)
    (h : moveSet faults q p i e name v = (.ok a, w)) : Moved v w p i e q := by
  obtain ⟨f, hfdir, hto, rfl⟩ := moveSet_eq_ok h
  have hfresh : ¬ (q = p ∧ (v.dir q).findFreeRun f.len = i) := by
    rintro ⟨rfl, rfl⟩
    rw [(v.dir q).set_findFreeRun f] at he
    cases he
  refine ⟨rfl, fun hdir => ⟨(v.dir q).findFreeRun f.len, ?_⟩, fun hdir => ?_⟩
  · ext x
    rw [mem_edges_unlinkSet, mem_edges_insertSet, hfdir, hto]
    constructor
    · rintro ⟨⟨-, rfl⟩ | hx, hne⟩
      · exact .inl rfl
      · exact .inr ⟨hx, fun heq => hne (by rw [show x = (p, i, e.dir) from heq]; exact ⟨rfl, rfl⟩)⟩
    · rintro (rfl | ⟨hx, hne⟩)
      · exact ⟨.inl ⟨hdir, rfl⟩, hfresh⟩
      · exact ⟨.inr hx, fun hat => hne (edge_of_set he hx hat).2⟩
  · ext x
    rw [mem_edges_unlinkSet, mem_edges_insertSet, hfdir, hdir]
    constructor
    · exact fun h => h.1.resolve_left nofun
    · exact fun hx => ⟨.inr hx, fun hat => nomatch hdir.symm.trans (edge_of_set he hx hat).1⟩

theorem mv_moved (h : mv faults src dst v = (.ok a, w)) :
    ∃ srcParent srcName dstParent dstName p q i e, splitParent src = some (srcParent, srcName) ∧
      splitParent dst = some (dstParent, dstName) ∧ Found v v.root (components srcParent) p ∧
      Found v v.root (components dstParent) q ∧ v.lookup p srcName = some (i, e) ∧ Moved v w p i e q := by
  have hrun := attempt_bind h
  rcases hsrc : splitParent src with _ | ⟨srcParent, srcName⟩
  · rw [hsrc] at hrun
    cases hrun
  rcases hdst : splitParent dst with _ | ⟨dstParent, dstName⟩
  · rw [hsrc, hdst] at hrun
    cases hrun
  rw [hsrc, hdst] at hrun
  obtain ⟨p, _, hfind, hrun⟩ := bind_eq_ok.1 hrun
  obtain ⟨rfl, hp⟩ := dirAt_found hfind
  obtain ⟨q, _, hfind, hrun⟩ := bind_eq_ok.1 hrun
  obtain ⟨rfl, hq⟩ := dirAt_found hfind
  obtain ⟨x, _, hentry, hrun⟩ := bind_eq_ok.1 hrun
  obtain ⟨rfl, rfl⟩ := entryIn_eq_ok hentry
  rcases hlook : v.lookup p srcName with _ | ⟨i, e⟩
  · rw [hlook] at hrun
    cases hrun
  rw [hlook] at hrun
  have he := Volume.lookup_set hlook
  obtain ⟨y, _, hentry, hrun⟩ := bind_eq_ok.1 hrun
  obtain ⟨rfl, rfl⟩ := entryIn_eq_ok hentry
  refine ⟨srcParent, srcName, dstParent, dstName, p, q, i, e, rfl, rfl, hp, hq, hlook, ?_⟩
  rcases hlook' : v.lookup q dstName with _ | ⟨j, f⟩
  · rw [hlook'] at hrun
    exact moveSet_moved he hrun
  rw [hlook'] at hrun
  dsimp only at hrun
  by_cases hsame : (p = q ∧ i = j) ∧ srcName = dstName
  · rw [if_pos hsame] at hrun
    cases hrun
    obtain ⟨⟨rfl, rfl⟩, -⟩ := hsame
    exact ⟨rfl, fun hdir => ⟨i,
      (Set.insert_sdiff_self_of_mem (show (p, i, e.dir) ∈ v.edges from ⟨e, he, hdir, rfl⟩)).symm⟩, fun _ => rfl⟩
  rw [if_neg hsame] at hrun
  obtain ⟨hfiles, hrun⟩ := ite_fail_eq_ok.1 hrun
  by_cases hat : p = q ∧ i = j
  · rw [if_pos hat] at hrun
    exact moveSet_moved he hrun
  rw [if_neg hat] at hrun
  obtain ⟨_, u, hmove, hrun⟩ := bind_eq_ok.1 (attempt_bind hrun)
  obtain ⟨hroot, -, hedges⟩ := moveSet_moved he hmove
  obtain ⟨_, t, hunlink, hfree⟩ := bind_eq_ok.1 hrun
  cases attempt_eq_ok hfree
  cases unlinkSet_eq_ok hunlink
  refine ⟨hroot, fun hdir => absurd (.inl hdir) hfiles, fun hfile => ?_⟩
  ext x
  rw [mem_edges_unlinkSet, hedges hfile, and_iff_left_iff_imp]
  exact fun hx hat => hfiles (.inr (edge_of_set (Volume.lookup_set hlook') hx hat).1)

theorem found_src {srcParent : Bytes} (hsplit : splitParent src = some (srcParent, name))
    (hp : Found v v.root (components srcParent) p) (hlook : v.lookup p name = some (i, e)) :
    v.trail v.root (components src) = v.trail v.root (components srcParent) ++ [(p, i, e.dir)] ∧
      (v.trail v.root (components src)).length = (components src).length := by
  have htrail : v.trail v.root (components src) = v.trail v.root (components srcParent) ++ [(p, i, e.dir)] := by
    rw [components_splitParent hsplit, hp.trail_append, trail_cons hlook]
    rfl
  refine ⟨htrail, ?_⟩
  rw [htrail, length_append, hp.length, components_splitParent hsplit, length_append]
  rfl

/-- **A move leaves a well-formed volume so if and only if the new directory is not found through the set that is
moved.** -/
theorem wellFormed_mv (hwf : v.WellFormed) (h : mv faults src dst v = (.ok a, w)) :
    w.WellFormed ↔ v.through src dst = false := by
  obtain ⟨srcParent, srcName, dstParent, dstName, p, q, i, e, hsrc, hdst, hp, hq, hlook, hmoved⟩ := mv_moved h
  obtain ⟨htrail, -⟩ := found_src hsrc hp hlook
  have hthrough : v.through src dst = false ↔
      ¬ v.trail v.root (components src) <+: v.trail v.root (components dstParent) := by
    rw [Volume.through, hdst, Option.any_some, decide_eq_false_iff_not]
  have he := Volume.lookup_set hlook
  rw [hthrough, Volume.WellFormed, hmoved.root]
  cases hdir : e.isDir with
  | false =>
    rw [hmoved.file hdir]
    refine iff_of_true hwf fun hprefix => ?_
    have hmem : (p, i, e.dir) ∈ v.trail v.root (components dstParent) := by
      apply hprefix.subset
      rw [htrail]
      exact mem_append_right _ mem_cons_self
    cases hdir.symm.trans (edge_of_set he (hq.walk.mem hmem) ⟨rfl, rfl⟩).1
  | true =>
    obtain ⟨j, hedges⟩ := hmoved.dir hdir
    have hx : (p, i, e.dir) ∈ v.edges := ⟨e, he, hdir, rfl⟩
    have hwalk : Walk v.edges v.root (v.trail v.root (components src)) e.dir := by
      rw [htrail]
      exact walk_concat.2 ⟨hp.walk, hx, rfl⟩
    rw [hwf.move hx hedges hq.walk.reach, hwf.reach_iff_prefix hwalk hq.walk]

end Moved

/-! ## The guard and the lookups -/

section Guard
variable {v : Volume} {dir : Nat} {src dst : Bytes}

theorem unitsMatch_iff {a b : List UInt16} : unitsMatch a b = true ↔ a.map upcase = b.map upcase :=
  decide_eq_true_iff

theorem upcase_eq_question (c : UInt16) : upcase c = 63 ↔ c = 63 := by
  unfold upcase
  split
  · next h =>
    have hlow : 0x61 ≤ c.toNat := UInt16.le_iff_toNat_le.1 h.1
    have hhigh : c.toNat ≤ 0x7a := UInt16.le_iff_toNat_le.1 h.2
    have hsub : (c - 0x20).toNat = c.toNat - 0x20 :=
      UInt16.toNat_sub_of_le _ _ (UInt16.le_iff_toNat_le.2 (by show 0x20 ≤ c.toNat; omega))
    rw [← UInt16.toNat_inj, ← UInt16.toNat_inj, hsub]
    show c.toNat - 0x20 = 63 ↔ c.toNat = 63
    omega
  · rfl

/-- which sets answer is a matter of the folded units that are asked for. -/
theorem nameAnswers_congr {a b : List UInt16} (h : a.map upcase = b.map upcase) (units : List UInt16) :
    nameAnswers units a = nameAnswers units b := by
  have hlen : a.length = b.length := by simpa using congrArg length h
  have hfold (l : List UInt16) :
      ((units.zip l).all fun x => if x.1 ≥ 0x80 then x.2 = 63 else upcase x.1 = upcase x.2) =
        (units.zip (l.map upcase)).all fun x => if x.1 ≥ 0x80 then x.2 = 63 else upcase x.1 = x.2 := by
    rw [zip_map_right, all_map]
    congr 1
    funext x
    simp only [comp_apply, Prod.map, id_eq, upcase_eq_question]
  rw [nameAnswers, nameAnswers, hlen, unitsMatch, unitsMatch, hfold, hfold, h]

theorem lookup_congr {a b : Bytes} (h : namesMatch a b) : v.lookup dir a = v.lookup dir b := by
  have hfold := unitsMatch_iff.1 h
  have hlen : (Utf16.units a).length = (Utf16.units b).length := by simpa using congrArg length hfold
  unfold Volume.lookup Utf16.unitsOf
  rw [hlen]
  split
  · simp only [Option.bind_some, Directory.answering, nameAnswers_congr hfold]
  · rfl

theorem zip_append_of_le {α β : Type} {s : List α} {d m : List β} (h : s.length ≤ d.length) :
    s.zip (d ++ m) = s.zip d := by
  have hcut {l : List β} (hl : s.length ≤ l.length) : s.zip l = s.zip (l.take s.length) := by
    rw [zip_eq_zip_take_min, Nat.min_eq_left hl, take_length]
  have hlong : s.length ≤ (d ++ m).length := by
    rw [length_append]
    exact Nat.le_add_right_of_le h
  rw [hcut hlong, take_append_of_le_length h, ← hcut h]

/-- where each set has the name it is asked for, the same sets answer as long as the names match. -/
theorem trail_prefix_iff {s d : List Bytes} (hs : v.named dir s) (hd : v.named dir d)
    (hlen : (v.trail dir s).length = s.length) :
    v.trail dir s <+: v.trail dir d ↔ s.length ≤ d.length ∧ ∀ p ∈ s.zip d, namesMatch p.1 p.2 = true := by
  induction s generalizing dir d with
  | nil => exact iff_of_true nil_prefix ⟨Nat.zero_le _, nofun⟩
  | cons a s ih =>
    rcases hlook : v.lookup dir a with _ | ⟨i, e⟩
    · rw [Volume.trail, hlook] at hlen
      cases hlen
    rw [trail_cons hlook, length_cons, length_cons, Nat.add_right_cancel_iff] at hlen
    rw [Volume.named, hlook, and_eq_true] at hs
    rw [trail_cons hlook]
    cases d with
    | nil => exact iff_of_false (fun h => nomatch prefix_nil.1 h) fun h => absurd h.1 (Nat.not_succ_le_zero _)
    | cons b d =>
      rw [length_cons, length_cons, Nat.add_le_add_iff_right, zip_cons_cons, forall_mem_cons]
      rcases hlook' : v.lookup dir b with _ | ⟨j, f⟩
      · rw [Volume.trail, hlook']
        refine iff_of_false (fun h => nomatch prefix_nil.1 h) fun h => ?_
        cases hlook.symm.trans ((lookup_congr h.2.1).trans hlook')
      rw [Volume.named, hlook', and_eq_true] at hd
      rw [trail_cons hlook', cons_prefix_cons]
      constructor
      · rintro ⟨heq, hrest⟩
        cases (Prod.mk.inj (Prod.mk.inj heq).2).1
        cases (Volume.lookup_set hlook).symm.trans (Volume.lookup_set hlook')
        obtain ⟨hle, hall⟩ := (ih hs.2 hd.2 hlen).1 hrest
        exact ⟨hle, unitsMatch_iff.2 ((unitsMatch_iff.1 hs.1).symm.trans (unitsMatch_iff.1 hd.1)), hall⟩
      · rintro ⟨hle, hmatch, hall⟩
        cases hlook.symm.trans ((lookup_congr hmatch).trans hlook')
        exact ⟨rfl, (ih hs.2 hd.2 hlen).2 ⟨hle, hall⟩⟩

/-- **For paths spelled by the names themselves the guard agrees with the lookups**: it refuses a move if and
only if the new directory is found through the set that is moved, or its tables are too small for the paths. -/
theorem isWithin_iff_through (hsrc : Utf8.valid src) (hdst : Utf8.valid dst) (hspelled : v.spelled src dst)
    (hlen : (v.trail v.root (components src)).length = (components src).length) :
    isWithin src dst namesMatch = true ↔ v.through src dst = true ∨ ¬ (Told src ∧ Told dst) := by
  rw [isWithin_iff namesMatch hsrc hdst]
  refine or_congr_left ?_
  rw [Volume.spelled, and_eq_true, and_eq_true, all_eq_true] at hspelled
  obtain ⟨⟨hdots, hs⟩, hd⟩ := hspelled
  obtain ⟨⟨dstParent, dstName⟩, hsplit, hd⟩ := (Option.any_eq_true _ _).1 hd
  have hdots' : ∀ c ∈ components src ++ components dst, c ≠ dot ∧ c ≠ dotdot := by simpa using hdots
  rw [Below, normalize_eq_components fun c hc => hdots' c (mem_append_left _ hc),
    normalize_eq_components fun c hc => hdots' c (mem_append_right _ hc), Volume.through,
      hsplit, Option.any_some,
    decide_eq_true_iff, trail_prefix_iff hs hd hlen, components_splitParent hsplit,
      length_append, length_singleton,
    Nat.lt_add_one_iff]
  refine and_congr_right fun hle => ?_
  rw [zip_append_of_le hle]

end Guard

/-! ## NP_MV -/

/-- the operations of a mounted exFAT volume, as NP_MV uses them. -/
def ops (o : Ops Volume) (faults : Faults) : Ops Volume :=
  { o with namesMatch := fun _ => namesMatch, mv := fun v src dst => mv faults src dst v }

theorem doneReply_eq {r : Except Error Unit} (h : doneReply r = statusReply 0) : r = .ok () := by
  rcases r with e | ⟨⟩
  · cases e <;> exact absurd h (by decide)
  · rfl

section Serve
variable {o : Ops Volume} {faults : Faults} {env : Env Volume} {tree : Fin maxMounts}
    {who : Option Caller} {p : Params}
  {payload src dst : Bytes} {open_ : Option Fsd.Found} {w w' : Work Volume}
  (hsrc : pathFrom payload 0 p.p0 = some (some src)) (hdst : pathFrom payload p.p0 p.p1 = some (some dst))
  (h : serveVerb (ops o faults) env tree who .npMv p payload open_ w = some (statusReply 0, w'))
include hsrc hdst h

theorem npMv_passes : isWithin src dst namesMatch = false ∧ mv faults src dst w.fs = (.ok (), w'.fs) := by
  obtain ⟨_, _, hpath, h⟩ := Act.bind_eq_some h
  rw [hsrc] at hpath
  cases hpath
  obtain ⟨_, _, hpath, h⟩ := Act.bind_eq_some h
  rw [hdst] at hpath
  cases hpath
  obtain ⟨_, _, hfs, h⟩ := Act.bind_eq_some h
  cases hfs
  split at h
  · have hreply : statusReply fsErrInvalidName = statusReply 0 := (Prod.mk.inj (Option.some.inj h)).1
    exact absurd hreply (by decide)
  next hwithin =>
  obtain ⟨r, _, hmv, h⟩ := Act.bind_eq_some h
  cases hmv
  obtain ⟨hreply, rfl⟩ := Prod.mk.inj (Option.some.inj h)
  exact ⟨eq_false_iff.2 hwithin, Prod.ext (doneReply_eq hreply) rfl⟩

/-- **A successful NP_MV leaves a well-formed volume so if and only if it is not a disguised move**: one into
what is found through the set that is moved, with a `.`, a `..` or a `?` for what cannot be shown in the
spelling of one of the paths. -/
theorem wellFormed_npMv (hwf : w.fs.WellFormed) : w'.fs.WellFormed ↔ w.fs.disguised src dst = false := by
  obtain ⟨hpass, hmv⟩ := npMv_passes hsrc hdst h
  obtain ⟨srcParent, srcName, dstParent, dstName, q, _, i, e, hsplit, -, hq, -, hlook, -⟩ := mv_moved hmv
  rw [wellFormed_mv hwf hmv, Volume.disguised, and_eq_false_iff, not_eq_false']
  refine (or_iff_left_of_imp fun hspelled => ?_).symm
  -- the guard has let the request through, so the lookups do not cross either
  have hagree := isWithin_iff_through (pathFrom_eq_some hsrc).1 (pathFrom_eq_some hdst).1 hspelled
    (found_src hsplit hq hlook).2
  rw [hpass] at hagree
  exact eq_false_iff.2 fun hthrough => nomatch hagree.2 (.inl hthrough)

end Serve

def serveMv (v : Volume) (o : Ops Volume) (p : Params) (payload : Bytes) : Option (Bytes × Work Volume) :=
  serveVerb (ops o fun _ _ => none) (localEnv 9 0 fun _ => 0) rootTree none .npMv p payload none
    (.start v fun _ => none)

def lone (units : List UInt16) : Volume where
  root := 4
  dir n :=
    if n = 4 then
      { slots := 20
        set i := if i = 0 then some ⟨units, true, 5, 1 + (units.length + 14) / 15, 0⟩ else none
        other _ := false
        inside i _ h := by
          split at h
          · next hi => exact hi ▸ (by decide)
          · cases h }
    else ⟨0, fun _ => none, fun _ => false, nofun⟩

instance : Inhabited Volume := ⟨lone []⟩

theorem mem_edges_lone (units : List UInt16) (x : Nat × Nat × Nat) : x ∈ (lone units).edges ↔ x = (4, 0, 5) := by
  obtain ⟨p, i, d⟩ := x
  by_cases hp : p = 4
  · by_cases hi : i = 0
    · simp [Volume.edges, lone, hp, hi, @eq_comm _ d]
    · simp [Volume.edges, lone, hp, hi]
  · simp [Volume.edges, lone, hp]

theorem lone_wellFormed (units : List UInt16) : (lone units).WellFormed where
  root x hx := by
    rw [(mem_edges_lone units x).1 hx]
    exact (by decide : 5 ≠ 4)
  once x hx y hy _ := by rw [(mem_edges_lone units x).1 hx, (mem_edges_lone units y).1 hy]
  found x hx := by
    rw [(mem_edges_lone units x).1 hx]
    exact .single ⟨0, (mem_edges_lone units _).2 rfl⟩

/-- `/d` becomes `/e`. -/
theorem wellFormed_npMv_rename :
    ∃ w', serveMv (lone [100]) default ⟨2, 2, 0, 0⟩ [47, 100, 47, 101] = some (statusReply 0, w') ∧
      w'.fs.WellFormed := by
  have h : (serveMv (lone [100]) default ⟨2, 2, 0, 0⟩ [47, 100, 47, 101]).any fun r =>
      decide (r.1 = statusReply 0) := by
    decide +kernel
  obtain ⟨⟨_, w'⟩, hserve, hreply⟩ := (Option.any_eq_true _ _).1 h
  cases of_decide_eq_true hreply
  have hnot : (lone [100]).disguised [47, 100] [47, 101] = false := by decide +kernel
  exact ⟨w', hserve, (wellFormed_npMv (by decide) (by decide) hserve (lone_wellFormed [100])).2 hnot⟩

theorem lone_detached {units : List UInt16} {src dst : Bytes} {p : Params}
    (hsrc : pathFrom (src ++ dst) 0 p.p0 = some (some src))
    (hdst : pathFrom (src ++ dst) p.p0 p.p1 = some (some dst))
    (hserve : (serveMv (lone units) default p (src ++ dst)).any fun r => decide (r.1 = statusReply 0))
    (hthrough : (lone units).through src dst = true) :
    (lone units).WellFormed ∧
      ∃ w', serveMv (lone units) default p (src ++ dst) = some (statusReply 0, w') ∧ ¬ w'.fs.WellFormed := by
  obtain ⟨⟨_, w'⟩, hserve, hreply⟩ := (Option.any_eq_true _ _).1 hserve
  cases of_decide_eq_true hreply
  have hwf := lone_wellFormed units
  refine ⟨hwf, w', hserve, fun hwf' => ?_⟩
  rw [(wellFormed_mv hwf (npMv_passes hsrc hdst hserve).2).1 hwf'] at hthrough
  cases hthrough

/-- a directory whose name takes 258 bytes is moved into itself, by a path that has `?` for each character of
it; and `/d` is moved into itself as `/d/..`. -/
theorem npMv_below_itself :
    let src := slash :: (replicate 86 [0xe4, 0xb8, 0xad]).flatten
    let dst := slash :: replicate 86 63 ++ [slash, 120]
    let v := lone (replicate 86 0x4e2d)
    (v.WellFormed ∧
      ∃ w', serveMv v default ⟨259, 89, 0, 0⟩ (src ++ dst) = some (statusReply 0, w') ∧ ¬ w'.fs.WellFormed) ∧
    (lone [100]).WellFormed ∧
      ∃ w', serveMv (lone [100]) default ⟨2, 5, 0, 0⟩ ([47, 100] ++ [47, 100, 47, 46, 46]) =
        some (statusReply 0, w') ∧
        ¬ w'.fs.WellFormed := by
  intro src dst v
  constructor
  · exact lone_detached (by decide +kernel) (by decide +kernel) (by decide +kernel) (by decide +kernel)
  · exact lone_detached (by decide +kernel) (by decide +kernel) (by decide +kernel) (by decide +kernel)

end Ouroboros.Exfat
