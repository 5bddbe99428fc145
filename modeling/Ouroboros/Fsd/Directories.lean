import Ouroboros.Fsd.Effects
import Ouroboros.Fsd.Frames

/-!
# Who may change a directory

* `ViaParent`  the paths whose directory the check asks about, under the name `parent_of` has for it;
* `Spelled`  a directory that such a path names to the check as well as to the volume;
* `directories_checked`  a directory that a request changes has been checked iff it is spelled;
* `mkdir_trailing_slash`  a request that changes a directory the check has not asked about.
-/

namespace Ouroboros.Fsd

open Act List Ext2

variable {X : Type} {o : Ops X} {v : Ext2} {c : Caller} {path : Bytes} {verb : Verb} {p : Params}
    {payload : Bytes} {d : Nat}

/-! ## The directory the check asks about -/

/-- `check_access` goes through `parent_of` with this path. -/
def ViaParent (v : Ext2) (verb : Verb) (p : Params) (payload path : Bytes) : Prop :=
  Names verb p payload path ∧
    match verb with
    | .npTouch | .npMkdir | .npRm | .npRmdir | .npMv => True
    | .npWrite | .npWriteFile | .npWriteAt => ∃ e, v.stat path = .error e
    | .npOpen => ∃ kind, kindOf (v.stat path) = .ok kind ∧ kind.exists = false ∧ openChanges p.p0 false = true
    | .npReaddir | .npReadFile | .npRead | .npReadAt | .npStat | .npChmod | .npChown | .npPread
        | .npPwrite | .npFstat
    | .npClunk | .unknown => False

/-- the path leads to the directory, the caller may write and search it, and search all on the way. -/
def Grants (v : Ext2) (c : Caller) (q : Bytes) (d : Nat) : Prop :=
  ∃ n, v.resolve q = .ok (d, n) ∧ modeAllows n.fileMode c permWX = true ∧
    ∀ front back, components q = front ++ back → back ≠ [] →
      ∃ a m, v.walk front = .ok (a, m) ∧ modeAllows m.fileMode c permX = true

/-- the check has asked about the directory and found that the caller may write and search it. -/
def CheckFound (v : Ext2) (c : Caller) (verb : Verb) (p : Params) (payload : Bytes) (d : Nat) : Prop :=
  ∃ path q, ViaParent v verb p payload path ∧ parentOf path = some q ∧ Grants v c q d

/-- the directory is the one that the name of a path without a slash at its end is in, or the one that
a path with a slash at its end leads to. -/
def Spelled (v : Ext2) (verb : Verb) (p : Params) (payload : Bytes) (d : Nat) : Prop :=
  ∃ path, ViaParent v verb p payload path ∧
    (Plain path ∧ (∃ missing, v.WorksIn path missing d) ∨ ¬ Plain path ∧ ∃ n, v.resolve path = .ok (d, n))

/-- the directory that the name of a path is in, or one that moves to another parent. -/
def Works (v : Ext2) (verb : Verb) (p : Params) (payload : Bytes) (d : Nat) : Prop :=
  (∃ path missing, ViaParent v verb p payload path ∧ v.WorksIn path missing d) ∨
    verb = .npMv ∧ ∃ src dst, pathFrom payload 0 p.p0 = some (some src) ∧
      pathFrom payload p.p0 p.p1 = some (some dst) ∧ v.Moves src dst d

theorem ViaParent.valid (h : ViaParent v verb p payload path) : Utf8.valid path := by
  obtain ⟨hnames, hvia⟩ := h
  cases verb with
  | npMv =>
    rcases hnames with hsrc | hdst
    · exact (pathFrom_eq_some hsrc).1
    · exact (pathFrom_eq_some hdst).1
  | npTouch | npMkdir | npRm | npRmdir | npWrite | npWriteFile | npWriteAt | npOpen =>
    exact (pathFrom_eq_some hnames).1
  | _ => exact hvia.elim

theorem ViaParent.unique {path' : Bytes} (hverb : verb ≠ .npMv) (h : ViaParent v verb p payload path)
    (h' : ViaParent v verb p payload path') : path = path' := by
  obtain ⟨hnames, hvia⟩ := h
  have hnames' := h'.1
  cases verb with
  | npMv => exact absurd rfl hverb
  | npTouch | npMkdir | npRm | npRmdir | npWrite | npWriteFile | npWriteAt | npOpen =>
    cases hnames.symm.trans hnames'
    rfl
  | _ => exact hvia.elim

theorem ParentAllows.grants {q : Bytes} {n : Ext2.Inode} (h : ParentAllows v c path)
    (hq : parentOf path = some q) (hres : v.resolve q = .ok (d, n)) : Grants v c q d := by
  obtain ⟨hs, hlets⟩ := h q hq
  refine ⟨n, hres, (lets_iff hres permWX).1 hlets, ?_⟩
  intro front back hsplit hback
  have hwalk : v.walk (front ++ back) = .ok (d, n) := by
    rw [← hsplit]
    exact hres
  obtain ⟨⟨a, m⟩, hfront⟩ := walk_front hwalk
  exact ⟨a, m, hfront, hs.way hsplit hback hfront⟩

/-- what `parent_of` makes of a path with a slash at its end leads where the path does. -/
theorem parentOf_slash (hvalid : Utf8.valid path) (hplain : ¬ Plain path) :
    ∃ q, parentOf path = some q ∧ v.resolve q = v.resolve path := by
  obtain ⟨pre, rfl⟩ := getLast?_eq_some_iff.1 (not_not.1 hplain)
  have hparent := parentOf_append not_mem_nil (valid_before hvalid rfl)
  refine ⟨_, hparent, ?_⟩
  have hcomp : components (pre ++ [slash]) = components pre := by
    rw [components_append, components_nil, append_nil]
  unfold Ext2.resolve
  rw [hcomp]
  split
  · next hpre => rw [hpre, components_nil, components_root]
  · rfl

/-! ## Requests -/

/-- a directory there before and after has another set of entries, or one of them points elsewhere. -/
def Alters (v v' : Ext2) (d : Nat) : Prop :=
  v.used d = true ∧ v'.used d = true ∧ (v'.inodes d).entries ≠ (v.inodes d).entries

instance (v v' : Ext2) (d : Nat) : Decidable (Alters v v' d) := inferInstanceAs (Decidable (_ ∧ _ ∧ _))

theorem openChanges_trunc {flags : Nat} (h : has flags openTrunc) (there : Bool) : openChanges flags there := by
  cases hw : has flags (openWrite ||| openTrunc) with
  | true => rw [openChanges, hw, Bool.true_or]
  | false =>
    rw [has_of_has_or hw (by decide)] at h
    cases h

section
variable {open_ : Option Found} {u v' : Ext2} (hlooked : Looked v verb p payload open_)
include hlooked

/-- a permitted request that gets to its operation has passed the check on each of these paths. -/
theorem Permitted.parentAllows (hp : Permitted v c verb p payload open_) (hmade : Made u verb p payload open_ v')
    (hvia : ViaParent v verb p payload path) : ParentAllows v c path := by
  obtain ⟨hnames, hvia⟩ := hvia
  cases verb with
  | npTouch | npMkdir | npRm | npRmdir => exact hp path hnames
  | npWrite | npWriteFile | npWriteAt =>
    obtain ⟨e, hstat⟩ := hvia
    have hallowed := hp path hnames
    dsimp only at hallowed
    rw [hstat] at hallowed
    exact hallowed
  | npMv =>
    obtain ⟨src, dst, hsrc, hdst, -⟩ := hmade
    obtain ⟨hps, hpd⟩ := hp src dst hsrc hdst
    rcases hnames with hname | hname
    · cases hsrc.symm.trans hname
      exact hps
    · cases hdst.symm.trans hname
      exact hpd
  | npOpen =>
    obtain ⟨kind, hkind, hmissing, hchanges⟩ := hvia
    rw [Looked, if_pos rfl] at hlooked
    obtain ⟨path', hpath, rfl⟩ := hlooked
    cases hpath.symm.trans hnames
    have hopen := hp _ rfl
    simp only [OpenPermitted, hkind] at hopen
    have hwrite := hopen.2 (hmissing ▸ hchanges)
    rwa [if_neg (by rw [hmissing]; exact Bool.false_ne_true)] at hwrite
  | _ => exact hvia.elim

/-- an operation changes the directories that its request works in. -/
theorem Made.works (hmade : Made (v.setCreator (c.uid % 2 ^ 16) (c.gid % 2 ^ 16)) verb p payload open_ v')
    (halters : Alters v v' d) : Works v verb p payload d := by
  by_contra hno
  obtain ⟨hused, hused', hchanged⟩ := halters
  have elsewhere {path : Bytes} {missing : Error} (hvia : ViaParent v verb p payload path) :
      ¬ (v.setCreator (c.uid % 2 ^ 16) (c.gid % 2 ^ 16)).WorksIn path missing d :=
    fun hw => hno (.inl ⟨path, missing, hvia, hw⟩)
  have kept {u' : Ext2} (hv' : v' = u') (hkeeps : v.KeepsEntries d u') : False :=
    hchanged (hv' ▸ hkeeps (hv' ▸ hused'))
  cases verb with
  | npReaddir | npReadFile | npRead | npReadAt | npStat | npPread | npPwrite | npFstat | npClunk | unknown =>
    exact hmade
  | npWrite | npWriteFile =>
    obtain ⟨data, path, hpath, hv'⟩ := hmade
    refine kept hv' (writeFile_frame data hused fun hw => ?_)
    cases hstat : v.stat path with
    | ok st => exact resolve_of_stat hstat
    | error e => exact absurd hw (elsewhere ⟨hpath, e, hstat⟩)
  | npWriteAt =>
    obtain ⟨data, path, -, hv'⟩ := hmade
    exact kept hv' (writeAt_frame path p.p1 data)
  | npTouch =>
    obtain ⟨path, hpath, hv'⟩ := hmade
    exact kept hv' (touch_frame hused (elsewhere ⟨hpath, trivial⟩))
  | npMkdir =>
    obtain ⟨path, hpath, hv'⟩ := hmade
    exact kept hv' (mkdir_frame hused (elsewhere ⟨hpath, trivial⟩))
  | npRmdir =>
    obtain ⟨path, hpath, hv'⟩ := hmade
    exact kept hv' (rmdir_frame (elsewhere ⟨hpath, trivial⟩))
  | npRm =>
    obtain ⟨path, hpath, hv'⟩ := hmade
    exact kept hv' (rm_frame (elsewhere ⟨hpath, trivial⟩))
  | npMv =>
    obtain ⟨src, dst, hsrc, hdst, hv'⟩ := hmade
    refine kept hv' (mv_frame (elsewhere ⟨.inl hsrc, trivial⟩) (elsewhere ⟨.inr hdst, trivial⟩)
      fun hmoves => hno ?_)
    exact .inr ⟨rfl, src, dst, hsrc, hdst, hmoves⟩
  | npChmod =>
    obtain ⟨mode, path, -, hv'⟩ := hmade
    exact kept hv' (chmod_frame path mode)
  | npChown =>
    obtain ⟨uid, gid, path, -, hv'⟩ := hmade
    exact kept hv' (chown_frame path uid gid)
  | npOpen =>
    rw [Looked, if_pos rfl] at hlooked
    obtain ⟨path, hpath, rfl⟩ := hlooked
    obtain ⟨f, kind, hf, hkind, hmade⟩ := hmade
    cases hf
    rcases hmade with ⟨htrunc, hv'⟩ | ⟨hcreate, hmissing, hv'⟩
    · refine kept hv' (writeFile_frame [] hused fun hw => ?_)
      cases hexists : kind.exists with
      | true => exact stat_of_exists hkind hexists
      | false => exact absurd hw (elsewhere ⟨hpath, kind, hkind, hexists, openChanges_trunc htrunc _⟩)
    · have hchanges : openChanges p.p0 false := by simp [openChanges, hcreate]
      exact kept hv' (touch_frame hused (elsewhere ⟨hpath, kind, hkind, hmissing, hchanges⟩))

/-- each path of an operation that changes a directory has a directory that its name is in. -/
theorem Made.parent (hmade : Made (v.setCreator (c.uid % 2 ^ 16) (c.gid % 2 ^ 16)) verb p payload open_ v')
    (halters : Alters v v' d) (hvia : ViaParent v verb p payload path) :
    ∃ missing d', v.WorksIn path missing d' := by
  have hworks := Made.works hlooked hmade halters
  by_cases hmv : verb = .npMv
  · subst hmv
    obtain ⟨src, dst, hsrc, hdst, hv'⟩ := hmade
    have hboth : ∃ sp dp, v.WorksIn src .invalidName sp ∧ v.WorksIn dst .invalidName dp := by
      refine mv_parents (v := v.setCreator (c.uid % 2 ^ 16) (c.gid % 2 ^ 16)) fun hsame => halters.2.2 ?_
      rw [hv', hsame]
      rfl
    obtain ⟨sp, dp, hsp, hdp⟩ := hboth
    rcases hvia.1 with hname | hname
    · cases hsrc.symm.trans hname
      exact ⟨_, sp, hsp⟩
    · cases hdst.symm.trans hname
      exact ⟨_, dp, hdp⟩
  · -- the verb has one path
    rcases hworks with ⟨path', missing, hvia', hw⟩ | ⟨hverb, -⟩
    · cases ViaParent.unique hmv hvia hvia'
      exact ⟨missing, d, hw⟩
    · exact absurd hverb hmv

/-- **Of the directories that an operation changes, the check has found those that are spelled.** -/
theorem made_checked (hp : Permitted v c verb p payload open_)
    (hmade : Made (v.setCreator (c.uid % 2 ^ 16) (c.gid % 2 ^ 16)) verb p payload open_ v')
    (halters : Alters v v' d) :
    CheckFound v c verb p payload d ↔ Spelled v verb p payload d := by
  constructor
  · rintro ⟨path, q, hvia, hq, n, hres, -, -⟩
    refine ⟨path, hvia, ?_⟩
    by_cases hplain : Plain path
    · obtain ⟨missing, d', m, name, hdir⟩ := Made.parent hlooked hmade halters hvia
      obtain ⟨dir, hsplit, hres', -⟩ := parentDir_eq_ok hdir
      cases hq.symm.trans (parentOf_splitParent hvia.valid hplain hsplit)
      cases hres.symm.trans hres'
      exact .inl ⟨hplain, missing, _, name, hdir⟩
    · obtain ⟨q', hq', hsame⟩ := parentOf_slash (v := v) hvia.valid hplain
      cases hq.symm.trans hq'
      exact .inr ⟨hplain, n, hsame ▸ hres⟩
  · rintro ⟨path, hvia, hspelled⟩
    have hallows := Permitted.parentAllows hlooked hp hmade hvia
    rcases hspelled with ⟨hplain, missing, n, name, hdir⟩ | ⟨hplain, n, hres⟩
    · obtain ⟨dir, hsplit, hres, -⟩ := parentDir_eq_ok hdir
      have hq := parentOf_splitParent hvia.valid hplain hsplit
      exact ⟨path, dir, hvia, hq, hallows.grants hq hres⟩
    · obtain ⟨q, hq, hsame⟩ := parentOf_slash (v := v) hvia.valid hplain
      exact ⟨path, q, hvia, hq, hallows.grants hq (hsame.trans hres)⟩

end

/-- **A directory that a request of a caller other than root changes is one the check has found the caller to
hold write and search permission on, and search permission on the way to, iff it is spelled.** -/
theorem directories_checked (o : Ops X) (env : Env (Filesystem X)) (st : State (Filesystem X))
    (tree : Fin maxMounts) (v : Ext2) (hv : st.volume tree = some v) (c : Caller) (hc : c.uid ≠ 0) (req : Bytes)
    (htree : word req 8 = tree) (hverb : (verbOf req).onFid = false) (out : Outcome (Filesystem X))
    (h : handleNinep (Filesystem.ops o) env st (some c) (verbOf req) req = some out) :
    ∃ v', out.state.volume tree = some v' ∧ ∀ d, Alters v v' d →
      Works v (verbOf req) (params req) (req.drop npReqPayload) d ∧
      (CheckFound v c (verbOf req) (params req) (req.drop npReqPayload) d ↔
        Spelled v (verbOf req) (params req) (req.drop npReqPayload) d) := by
  have same (uid gid d : Nat) : ¬ Alters v (v.setCreator uid gid) d := fun halters => absurd rfl halters.2.2
  by_cases hlen : req.length < npReqPayload
  · rw [handleNinep, if_pos hlen] at h
    cases h
    exact ⟨v, hv, fun d halters => absurd halters (same v.creatorUid v.creatorGid d)⟩
  obtain ⟨m, hm, hfs⟩ := State.volume_eq_some hv
  rw [handleNinep_eq _ _ _ _ _ (Nat.le_of_not_lt hlen), dispatch_path htree hverb hm] at h
  obtain ⟨reply, w, hrun, rfl⟩ := onTree_eq_some h
  obtain ⟨v', hv', hleft⟩ := serveTree_made hc (v := v) (show OnVolume v (.start m.fs st.fids) from hfs) hrun
  refine ⟨v', State.volume_of (Function.update_self ..) hv', fun d halters => ?_⟩
  rcases hleft with ⟨uid, gid, rfl⟩ | ⟨open_, hlooked, hp, hmade⟩
  · exact absurd halters (same uid gid d)
  · exact ⟨Made.works hlooked hmade halters, made_checked hlooked hp hmade halters⟩

/-- user 1000 sends a request to a volume. -/
def sends (v : Ext2) (req : Bytes) : Option (Outcome (Filesystem Empty)) :=
  handleNinep (Filesystem.ops Ops.none) (localEnv 9 1000 fun _ => 0) (ext2State v) (some ⟨1000, 1000, []⟩)
    (verbOf req) req

theorem alters_of_run (v : Ext2) (req : Bytes) {d : Nat} (h : (sends v req).any fun out =>
      (out.state.volume rootTree).any fun v' => decide (Alters v v' d)) :
    ∃ out v', sends v req = some out ∧ out.state.volume rootTree = some v' ∧ Alters v v' d := by
  obtain ⟨out, hout, h⟩ := (Option.any_eq_true _ _).1 h
  obtain ⟨v', hv', h⟩ := (Option.any_eq_true _ _).1 h
  exact ⟨out, v', hout, hv', of_decide_eq_true h⟩

/-- `mkdir /d/x` by the owner of `/d`. -/
theorem directories_checked_mkdir :
    let v := Ext2.ofInodes [Ext2.dirOf 0o755 0 2 2 [⟨[100], 12, 2⟩], Ext2.dirOf 0o755 1000 12 2 []]
    let req := request (npBase + 6) 0 4 0 0 0 [slash, 100, slash, 120]
    ∃ out v', sends v req = some out ∧ out.state.volume rootTree = some v' ∧ Alters v v' 12 ∧
      CheckFound v ⟨1000, 1000, []⟩ (verbOf req) (params req) (req.drop npReqPayload) 12 := by
  intro v req
  obtain ⟨out, v', hout, hv', h⟩ := alters_of_run v req (d := 12) (by decide +kernel)
  have hverb : verbOf req = .npMkdir := by
    decide +kernel
  have hpath : pathFrom (req.drop npReqPayload) 0 (params req).p0 = some (some [slash, 100, slash, 120]) := by
    decide +kernel
  have htree : word req 8 = rootTree := by
    decide +kernel
  have hdir : v.parentDir [slash, 100, slash, 120] .invalidName = .ok (12, v.inodes 12, [120]) := by
    decide +kernel
  clear_value req
  obtain ⟨v'', hv'', hall⟩ := directories_checked Ops.none _ (ext2State v) rootTree v rfl ⟨1000, 1000, []⟩
    (by decide) req htree (by rw [hverb]; rfl) out hout
  cases hv'.symm.trans hv''
  refine ⟨out, v', hout, hv', h, (hall 12 h).2.2 ?_⟩
  rw [hverb]
  refine ⟨_, ⟨hpath, trivial⟩, .inl ⟨?_, .invalidName, _, _, hdir⟩⟩
  unfold Plain
  decide

/-- `mkdir /d/x/` by a caller who may not write `/d`: the check asks about `/d/x`, the volume works in `/d`. -/
theorem mkdir_trailing_slash :
    let v := Ext2.ofInodes [Ext2.dirOf 0o755 0 2 2 [⟨[100], 12, 2⟩], Ext2.dirOf 0o755 0 12 2 []]
    let req := request (npBase + 6) 0 5 0 0 0 [slash, 100, slash, 120, slash]
    ∃ out v', sends v req = some out ∧ out.state.volume rootTree = some v' ∧ Alters v v' 12 ∧
      modeAllows (v.inodes 12).fileMode ⟨1000, 1000, []⟩ permWX = false ∧
      ¬ CheckFound v ⟨1000, 1000, []⟩ (verbOf req) (params req) (req.drop npReqPayload) 12 := by
  intro v req
  obtain ⟨out, v', hout, hv', h⟩ := alters_of_run v req (d := 12) (by decide +kernel)
  have hmode : modeAllows (v.inodes 12).fileMode ⟨1000, 1000, []⟩ permWX = false := by
    decide +kernel
  refine ⟨out, v', hout, hv', h, hmode, ?_⟩
  rintro ⟨path, q, -, -, n, hres, hwx, -⟩
  rw [(resolve_inode hres).2, hmode] at hwx
  cases hwx

end Ouroboros.Fsd
