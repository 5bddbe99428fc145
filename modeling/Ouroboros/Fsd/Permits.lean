import Ouroboros.Fsd.Arms
import Ouroboros.Fsd.Walk

/-!
# What the check decides on an ext2 volume

On ext2 the check is a question about the volume, which it leaves as it is.

* `Lets`  a path does not stat, or its mode grants a permission;
* `Searchable`  `ancestors_searchable`;
* `checkAccess_decides`.
-/

namespace Ouroboros.Fsd

open Act Checked Buffer List Filesystem

variable {X : Type} {o : Ops X} {v : Ext2} {rest : Fids × List FidOp × List Bytes}
variable {c : Caller} {path payload : Bytes} {p : Params} {ino : Nat} {n : Ext2.Inode}

def Work.held {F : Type} (w : Work F) : F × Fids × List FidOp × List Bytes := (w.fs, w.fids, w.table, w.sent)

/-! ## Questions -/

def Lets (v : Ext2) (c : Caller) (need : Nat) (path : Bytes) : Prop := statAllows c need (v.stat path) = true

/-- no `..`, and every directory spelled out before a slash lets the caller search it. -/
structure Searchable (v : Ext2) (c : Caller) (path : Bytes) : Prop where
  noDots : dotdot ∉ path.splitOn slash
  root : Lets v c permX root
  above : ∀ q r, path = q ++ slash :: r → q ≠ [] → Lets v c permX q

def PathAllows (v : Ext2) (c : Caller) (path : Bytes) (need : Nat) : Prop :=
  Searchable v c path ∧ Lets v c need path

/-- `path_allows` of the parent. -/
def ParentAllows (v : Ext2) (c : Caller) (path : Bytes) : Prop :=
  ∀ parent, parentOf path = some parent → PathAllows v c parent permWX

def OpenPermitted (v : Ext2) (c : Caller) (flags : Nat) (f : Found) : Prop :=
  match f.kind with
  | .error _ => Searchable v c f.path
  | .ok kind =>
    (has flags openRead = true → PathAllows v c f.path permR) ∧ (openChanges flags kind.exists = true →
        if kind.exists = true then PathAllows v c f.path permW else ParentAllows v c f.path)

/-- `check_access`, for a caller who is not root. -/
def Permitted (v : Ext2) (c : Caller) (verb : Verb) (p : Params) (payload : Bytes) (open_ : Option Found) :
    Prop :=
  let each (P : Bytes → Prop) : Prop := ∀ path, pathFrom payload 0 p.p0 = some (some path) → P path
  match verb with
  | .npStat => each (Searchable v c)
  | .npOpen => ∀ f, open_ = some f → OpenPermitted v c p.p0 f
  | .npReaddir | .npReadFile | .npRead | .npReadAt => each fun path => PathAllows v c path permR
  | .npWrite | .npWriteFile | .npWriteAt => each fun path =>
    match v.stat path with
    | .ok _ => PathAllows v c path permW
    | .error _ => ParentAllows v c path
  | .npTouch | .npMkdir | .npRm | .npRmdir => each (ParentAllows v c)
  | .npMv =>
    ∀ src dst, pathFrom payload 0 p.p0 = some (some src) → pathFrom payload p.p0 p.p1 = some (some dst) →
    ParentAllows v c src ∧ ParentAllows v c dst
  | .npChmod => each fun path =>
    Searchable v c path ∧ ∀ st, v.stat path = .ok st → (st.mode.all fun m => c.uid = m.uid) = true
  | .npChown => each fun path => Searchable v c path ∧ ∀ st, v.stat path = .ok st → st.mode.isNone = true
  | .npPread | .npPwrite | .npFstat | .npClunk | .unknown => False

def Names (verb : Verb) (p : Params) (payload path : Bytes) : Prop :=
  match verb with
  | .npOpen => pathFrom payload 0 p.p1 = some (some path)
  | .npMv => pathFrom payload 0 p.p0 = some (some path) ∨ pathFrom payload p.p0 p.p1 = some (some path)
  | .npPread | .npPwrite | .npFstat | .npClunk | .unknown => False
  | .npReaddir | .npReadFile | .npRead | .npWrite | .npWriteAt | .npTouch | .npMkdir
      | .npRmdir | .npRm | .npReadAt
  | .npWriteFile | .npStat | .npChmod | .npChown => pathFrom payload 0 p.p0 = some (some path)

/-! ## Modes on the way -/

theorem lets_iff (h : v.resolve path = .ok (ino, n)) (need : Nat) :
    Lets v c need path ↔ modeAllows n.fileMode c need := by
  rw [Lets, Ext2.stat_of_resolve h]
  rfl

theorem modeAllows_of_and {m : FileMode} {need less : Nat} (h : modeAllows m c need)
    (hless : need &&& less = less) : modeAllows m c less := by
  unfold modeAllows at h ⊢
  split at h
  · next hroot => rw [if_pos hroot]
  next hroot =>
  rw [if_neg hroot]
  have htriad := of_decide_eq_true h
  apply decide_eq_true
  rw [← hless, ← Nat.and_assoc, htriad]

theorem Searchable.way (h : Searchable v c path) {names more : List Bytes}
    (hpath : components path = names ++ more) (hmore : more ≠ [])
    (hwalk : v.walk names = .ok (ino, n)) : modeAllows n.fileMode c permX := by
  by_cases hnames : names = []
  · subst hnames
    have hres : v.resolve Fsd.root = .ok (ino, n) := by rw [Ext2.resolve, components_root, hwalk]
    exact (lets_iff hres permX).1 h.root
  obtain ⟨q, r, hqr, hq, -⟩ := exists_before hpath hnames hmore
  have hres : v.resolve q = .ok (ino, n) := by rw [Ext2.resolve, hq, hwalk]
  refine (lets_iff hres permX).1 (h.above q r hqr ?_)
  rintro rfl
  exact hnames hq.symm

/-! ## The checks answer them -/

theorem stat_gives (path : Bytes) :
    Gives Work.held (.ext2 v, rest) (stat (ops o) path) (v.stat path) := by
  rintro ⟨fs, calls, fids, table, sent⟩ hw
  cases hw
  exact ⟨_, rfl, rfl⟩

theorem dirSearchable_decides (dir : Bytes) (c : Caller) :
    Decides Work.held (.ext2 v, rest) (dirSearchable (ops o) dir c) (Lets v c permX dir) :=
  Decides.bind (stat_gives dir) (.pure _)

theorem valid_before {q r : Bytes} (hvalid : Utf8.valid path) (hpath : path = q ++ slash :: r) :
    Utf8.valid q := by
  rw [hpath, Utf8.valid_append_ascii q (by decide)] at hvalid
  exact (Bool.and_eq_true_iff.1 hvalid).1

theorem eq_take_slash {i : Nat} (h : path[i]? = some slash) :
    path = path.take i ++ slash :: path.drop (i + 1) := by
  obtain ⟨hi, hget⟩ := List.getElem?_eq_some_iff.1 h
  rw [← hget, getElem_cons_drop, take_append_drop]

section
variable (hvalid : Utf8.valid path)
include hvalid

theorem ancestorsFrom_decides (c : Caller) (n i : Nat)
    (hn : i + n ≤ path.length) : Decides Work.held (.ext2 v, rest) (ancestorsFrom (ops o) path c n i)
      (∀ q r, path = q ++ slash :: r → i ≤ q.length → q.length < i + n → Lets v c permX q) := by
  induction n generalizing i with
  | zero => exact .yes fun q r _ h h' => absurd h' (not_lt.2 h)
  | succ n ih =>
    have hget : path[i]? = some path[i] := getElem?_eq_getElem (by omega)
    have hrest := ih (i + 1) (by omega)
    rw [ancestorsFrom, hget]
    refine .bind (.pure path[i]) ?_
    by_cases hslash : path[i] = slash
    · -- the directory spelled by the first `i` bytes
      rw [hslash] at hget
      have hsplit := eq_take_slash hget
      have hlen : (path.take i).length = i := length_take_of_le (by omega)
      have hdir : slice? path 0 i = some (path.take i) := by
        rw [slice?_eq (Nat.zero_le i) (by omega)]
        rfl
      rw [if_pos hslash, hdir]
      refine .bind (.pure (path.take i)) ?_
      rw [if_pos (valid_before hvalid hsplit)]
      refine (Decides.and (dirSearchable_decides _ c) hrest).congr ⟨?_, fun h => ⟨?_, ?_⟩⟩
      · rintro ⟨hhere, hafter⟩ q r hq hge hlt
        by_cases hqi : q.length = i
        · have hqeq : q = path.take i := by
            rw [hq, ← hqi, take_left']
            rfl
          rw [hqeq]
          exact hhere
        · exact hafter q r hq (by omega) (by omega)
      · exact h _ _ hsplit (by omega) (by omega)
      · exact fun q r hq hge hlt => h q r hq (by omega) (by omega)
    · rw [if_neg hslash]
      refine hrest.congr ⟨fun h q r hq hge hlt => ?_, fun h q r hq hge hlt => h q r hq (by omega) (by omega)⟩
      have hne : q.length ≠ i := by
        rintro rfl
        apply hslash
        simp [hq]
      exact h q r hq (by omega) (by omega)

theorem ancestorsSearchable_decides (c : Caller) :
    Decides Work.held (.ext2 v, rest) (ancestorsSearchable (ops o) path c) (Searchable v c path) := by
  rw [ancestorsSearchable, hasDotdot_eq]
  refine .bind (.pure _) ?_
  by_cases hdots : dotdot ∈ path.splitOn slash
  · rw [if_pos (decide_eq_true hdots)]
    exact .no fun h => absurd hdots h.noDots
  rw [if_neg (by simpa using hdots)]
  have hloop : Decides Work.held (.ext2 v, rest) (ancestorsFrom (ops o) path c (path.length - 1) 1)
      (∀ q r, path = q ++ slash :: r → q ≠ [] → Lets v c permX q) := by
    rcases path with _ | ⟨b, bs⟩
    · exact .yes fun q r h => absurd h (by simp)
    refine (ancestorsFrom_decides hvalid c _ 1 (by simp; omega)).congr
      ⟨fun h q r hq hne => ?_, fun h q r hq hge _ => ?_⟩
    · have hlen := congrArg List.length hq
      have hpos := length_pos_iff.2 hne
      simp only [length_cons, length_append] at hlen
      exact h q r hq hpos (by simp only [length_cons]; omega)
    · exact h q r hq (length_pos_iff.1 hge)
  refine (Decides.and (dirSearchable_decides root c) hloop).congr
    ⟨fun h => ⟨hdots, h.1, h.2⟩, fun h => ⟨h.root, h.above⟩⟩

theorem pathAllows_decides (c : Caller) (need : Nat) :
    Decides Work.held (.ext2 v, rest) (pathAllows (ops o) path c need) (PathAllows v c path need) :=
  Decides.and (ancestorsSearchable_decides hvalid c) (.bind (stat_gives path) (.pure _))

theorem parentOf_valid {parent : Bytes} (h : parentOf path = some parent) : Utf8.valid parent := by
  rcases exists_split path with hno | ⟨pre, name, rfl, hname⟩
  · rw [parentOf_of_notMem hno] at h
    cases h
    decide
  have hpre := valid_before hvalid rfl
  rw [parentOf_append hname hpre] at h
  cases h
  split
  · decide
  · exact hpre

theorem parentAllows_decides (c : Caller) :
    Decides Work.held (.ext2 v, rest) (parentAllows (ops o) path c) (ParentAllows v c path) := by
  obtain ⟨parent, hparent⟩ := parentOf_total path
  rw [parentAllows, hparent]
  refine .bind (.pure parent) ((pathAllows_decides (parentOf_valid hvalid hparent) c permWX).congr ?_)
  constructor
  · intro h parent' h'
    rw [hparent] at h'
    cases h'
    exact h
  · exact fun h => h parent hparent

end

variable {open_ : Option Found}

theorem onPath_decides {len : Nat} {check : Bytes → Step (Filesystem X) Bool} {P : Bytes → Prop}
    (h : ∀ path, pathFrom payload 0 len = some (some path) →
      Decides Work.held (.ext2 v, rest) (check path) (P path)) :
    Decides Work.held (.ext2 v, rest) (onPath payload len check)
      (∀ path, pathFrom payload 0 len = some (some path) → P path) := by
  obtain ⟨found, hfound⟩ := pathFrom_zero payload len
  rw [onPath, hfound]
  refine .bind (.pure found) ?_
  cases found with
  | none => exact .yes fun path hp => by cases hp
  | some path =>
    refine (h path hfound).congr ⟨fun hP path' hp => ?_, fun hP => hP path rfl⟩
    cases hp
    exact hP

theorem checkOpen_decides (c : Caller) (flags : Nat) {f : Found} (hvalid : Utf8.valid f.path) :
    Decides Work.held (.ext2 v, rest) (checkOpen (ops o) c flags f) (OpenPermitted v c flags f) := by
  obtain ⟨path, code | kind⟩ := f
  · exact ancestorsSearchable_decides hvalid c
  have hread : Decides Work.held (.ext2 v, rest) (readAllowed (ops o) c flags path)
      (has flags openRead → PathAllows v c path permR) := by
    refine .ite (fun hr => ?_) fun hr => ?_
    · exact (pathAllows_decides hvalid c permR).congr ⟨fun h _ => h, fun h => h hr⟩
    · exact .yes fun h => absurd h hr
  have hwrite : Decides Work.held (.ext2 v, rest) (writeAllowed (ops o) c flags path kind)
        (openChanges flags kind.exists →
        if kind.exists then PathAllows v c path permW else ParentAllows v c path) := by
    refine .ite (fun hw => ?_) fun hw => ?_
    · refine .ite (fun he => ?_) fun he => ?_
      · rw [if_pos he]
        exact (pathAllows_decides hvalid c permW).congr ⟨fun h _ => h, fun h => h hw⟩
      · rw [if_neg he]
        exact (parentAllows_decides hvalid c).congr ⟨fun h _ => h, fun h => h hw⟩
    · exact .yes fun h => absurd h hw
  exact .and hread hwrite

theorem modelsModes_gives : Gives Work.held (.ext2 v, rest) (modelsModes (ops o)) true := by
  have hmodes : (modesOf (v.stat root)).getD true := by
    unfold Ext2.stat
    cases v.resolve root with
    | error e | ok r => rfl
  have hunknown : Gives Work.held (.ext2 v, rest) (modelsModesOrUnknown (ops o)) (modesOf (v.stat root)) :=
    Gives.bind (stat_gives root) (.pure _)
  rw [← hmodes]
  exact .bind hunknown (.pure _)

theorem checkVerb_decides (c : Caller) (verb : Verb) (hopen : ∀ f, open_ = some f → Utf8.valid f.path)
    (hmv : verb = .npMv → pathFrom payload p.p0 p.p1 ≠ none) :
    Decides Work.held (.ext2 v, rest) (checkVerb (ops o) c verb p payload open_)
      (Permitted v c verb p payload open_) := by
  have valid {path : Bytes} (h : pathFrom payload 0 p.p0 = some (some path)) : Utf8.valid path :=
    (pathFrom_eq_some h).1
  cases verb with
  | npStat => exact onPath_decides fun path h => ancestorsSearchable_decides (valid h) c
  | npOpen =>
    cases open_ with
    | none => exact .yes fun f hf => by cases hf
    | some f =>
      refine (checkOpen_decides c p.p0 (hopen f rfl)).congr ⟨fun h f' hf => ?_, fun h => h f rfl⟩
      cases hf
      exact h
  | npReaddir | npReadFile | npRead | npReadAt =>
    exact onPath_decides fun path h => pathAllows_decides (valid h) c permR
  | npWrite | npWriteFile | npWriteAt =>
    refine onPath_decides fun path h => .bind (stat_gives path) ?_
    cases v.stat path with
    | ok st => exact pathAllows_decides (valid h) c permW
    | error e => exact parentAllows_decides (valid h) c
  | npTouch | npMkdir | npRm | npRmdir => exact onPath_decides fun path h => parentAllows_decides (valid h) c
  | npMv =>
    obtain ⟨src, hsrc⟩ := pathFrom_zero payload p.p0
    obtain ⟨dst, hdst⟩ := Option.ne_none_iff_exists'.1 (hmv rfl)
    simp only [checkVerb, hsrc, hdst]
    refine .bind (.pure src) (.bind (.pure dst) ?_)
    simp only [Permitted, hsrc, hdst]
    rcases src with _ | src
    · exact .yes fun _ _ h => by cases h
    rcases dst with _ | dst
    · exact .yes fun _ _ _ h => by cases h
    refine (Decides.and (parentAllows_decides (valid hsrc) c)
      (parentAllows_decides (pathFrom_eq_some hdst).1 c)).congr ?_
    constructor
    · rintro h src' dst' hs hd
      cases hs
      cases hd
      exact h
    · exact fun h => h src dst rfl rfl
  | npChmod | npChown =>
    refine onPath_decides fun path h => .and (ancestorsSearchable_decides (valid h) c) ?_
    refine .bind (stat_gives path) ?_
    cases v.stat path with
    | ok st => exact (Decides.pure _).congr ⟨fun hm st' hs => (by cases hs; exact hm), fun hm => hm st rfl⟩
    | error e => exact .yes fun _ hs => by cases hs
  | npPread | npPwrite | npFstat | npClunk | unknown => exact .no id

/-- **On ext2, `check_access` of a caller who is not root decides `Permitted`.** -/
theorem checkAccess_decides (hc : c.uid ≠ 0) (verb : Verb) (hopen : ∀ f, open_ = some f → Utf8.valid f.path)
    (hmv : verb = .npMv → pathFrom payload p.p0 p.p1 ≠ none) :
    Decides Work.held (.ext2 v, rest) (checkAccess (ops o) (some c) verb p payload open_)
      (Permitted v c verb p payload open_) := by
  rw [checkAccess, if_neg hc]
  refine .bind modelsModes_gives ?_
  rw [if_pos rfl]
  exact checkVerb_decides c verb hopen hmv

theorem checkAccess_decides_none (hc : c.uid ≠ 0) (verb : Verb)
    (hmv : verb = .npMv → pathFrom payload p.p0 p.p1 ≠ none) :
    Decides Work.held (.ext2 v, rest) (checkAccess (ops o) (some c) verb p payload none)
      (Permitted v c verb p payload none) :=
  checkAccess_decides hc verb (fun _ hf => nomatch hf) hmv

end Ouroboros.Fsd
