import Ouroboros.Fsd.Permits

/-!
# Directories that may not be searched

A path verb that goes through a directory the caller may not search answers the same whatever is
below that directory, and changes nothing.

* `barredAnswer`  the reply, which only the request decides;
* `serveTree_barred`  one run;
* `search_confidential` two runs, on volumes that differ below the directory.
-/

namespace Ouroboros.Fsd

open Act Checked List Ext2 Filesystem Nat Function

variable {X : Type} {o : Ops X} {v : Ext2} {c : Caller} {path : Bytes}
variable {verb : Verb} {p : Params} {payload reply : Bytes} {env : Env (Filesystem X)} {refuses : Bool}
  {tree : Fin maxMounts}

/-! ## Barred paths -/

/-- the path goes through a directory that does not let the caller search it. -/
def Barred (v : Ext2) (c : Caller) (path : Bytes) : Prop :=
  ∃ cs ds ino n, components path = cs ++ ds ∧ ds ≠ [] ∧ v.walk cs = .ok (ino, n) ∧
    modeAllows n.fileMode c permX = false

theorem Barred.not_lets {q : Bytes} {cs : List Bytes} {ino : Nat} {n : Ext2.Inode} {need : Nat}
    (hq : components q = cs) (hwalk : v.walk cs = .ok (ino, n)) (hdenied : modeAllows n.fileMode c permX = false)
    (hneed : need &&& permX = permX) : ¬ Lets v c need q := by
  have hres : v.resolve q = .ok (ino, n) := by rw [resolve, hq, hwalk]
  intro hlets
  rw [lets_iff hres] at hlets
  rw [modeAllows_of_and hlets hneed] at hdenied
  cases hdenied

theorem Barred.not_searchable (h : Barred v c path) : ¬ Searchable v c path := by
  obtain ⟨cs, ds, ino, n, hpath, hds, hwalk, hdenied⟩ := h
  intro hs
  rw [hs.way hpath hds hwalk] at hdenied
  cases hdenied

theorem Barred.not_pathAllows (h : Barred v c path) (need : Nat) : ¬ PathAllows v c path need :=
  fun hp => h.not_searchable hp.1

theorem Barred.not_parentAllows (hvalid : Utf8.valid path) (h : Barred v c path) : ¬ ParentAllows v c path := by
  have hbarred := h
  obtain ⟨cs, ds, ino, n, hpath, hds, hwalk, hdenied⟩ := h
  intro hp
  -- a parent with just the components of the directory
  have here {parent : Bytes} (hparent : parentOf path = some parent) (hcs : components parent = cs) : False :=
    Barred.not_lets hcs hwalk hdenied (by decide) (hp parent hparent).2
  rcases exists_split path with hno | ⟨pre, name, rfl, hname⟩
  · refine here (parentOf_of_notMem hno) ?_
    have hne : path ≠ [] := by
      rintro rfl
      simp at hpath
      exact hds hpath.2
    rw [components_of_notMem hno hne] at hpath
    rw [components_root]
    rcases cs with _ | ⟨d, cs⟩
    · rfl
    · obtain ⟨-, hnil⟩ := List.cons.inj hpath
      exact absurd (append_eq_nil_iff.1 hnil.symm).2 hds
  · have hparent := parentOf_append hname (valid_before hvalid rfl)
    have hcomp : components (if pre = [] then root else pre) = components pre := by
      split
      · next hpre => rw [hpre, components_root, components_nil]
      · rfl
    rw [components_append] at hpath
    by_cases hne : name = []
    · -- a slash at the end: the parent is spelled like the path
      rw [hne, components_nil, append_nil] at hpath
      have hpre : pre ≠ [] := by
        rintro rfl
        simp at hpath
        exact hds hpath.2
      rw [if_neg hpre] at hparent
      exact Barred.not_searchable ⟨cs, ds, ino, n, hpath, hds, hwalk, hdenied⟩ (hp pre hparent).1
    · rw [components_of_notMem hname hne] at hpath
      obtain ⟨ds', last, rfl⟩ := (eq_nil_or_concat ds).resolve_left hds
      rw [concat_eq_append, ← append_assoc] at hpath
      obtain ⟨hpre, -⟩ := append_inj' hpath rfl
      by_cases hds' : ds' = []
      · rw [hds', append_nil] at hpre
        exact here hparent (hcomp.trans hpre)
      · exact Barred.not_searchable ⟨cs, ds', ino, n, hcomp.trans hpre, hds', hwalk, hdenied⟩ (hp _ hparent).1

/-! ## Every verb is refused -/

theorem Barred.not_openPermitted (hvalid : Utf8.valid path) (h : Barred v c path) {flags : Nat}
    (hflags : flagsOk flags) (kind : Except Nat Kind) : ¬ OpenPermitted v c flags ⟨path, kind⟩ := by
  intro hp
  rcases kind with code | kind
  · exact h.not_searchable hp
  obtain ⟨hread, hwrite⟩ := hp
  by_cases hr : has flags openRead
  · exact h.not_pathAllows permR (hread hr)
  have hchanges : openChanges flags kind.exists := by
    -- a fid that does not read writes
    have hrw : has flags (openRead ||| openWrite) := by
      simp only [flagsOk, Bool.and_eq_true] at hflags
      exact hflags.1.1
    simp only [has, ne_eq, decide_not, decide_eq_false_iff_not, not_not, Bool.not_eq_eq_eq_not,
      Bool.not_true] at hr hrw
    have hw : ¬ flags &&& (openWrite ||| openTrunc) = 0 := by
      intro h0
      apply hrw
      rw [and_or_distrib_left, hr, zero_or]
      rw [and_or_distrib_left, or_eq_zero_iff] at h0
      exact h0.1
    simp [openChanges, has, hw]
  have hpath := hwrite hchanges
  split at hpath
  · exact h.not_pathAllows permW hpath
  · exact h.not_parentAllows hvalid hpath

theorem Barred.not_permitted (h : Barred v c path) (hnames : Names verb p payload path) (hopen : verb ≠ .npOpen)
    (hmv : verb = .npMv → ∃ src dst, pathFrom payload 0 p.p0 = some (some src) ∧
      pathFrom payload p.p0 p.p1 = some (some dst)) :
    ¬ Permitted v c verb p payload none := by
  intro hp
  cases verb with
  | npOpen => exact hopen rfl
  | npStat => exact h.not_searchable (hp path hnames)
  | npReaddir | npReadFile | npRead | npReadAt => exact h.not_pathAllows permR (hp path hnames)
  | npWrite | npWriteFile | npWriteAt =>
    have hpath := hp path hnames
    dsimp only at hpath
    split at hpath
    · exact h.not_pathAllows permW hpath
    · exact h.not_parentAllows (pathFrom_eq_some hnames).1 hpath
  | npTouch | npMkdir | npRm | npRmdir => exact h.not_parentAllows (pathFrom_eq_some hnames).1 (hp path hnames)
  | npChmod | npChown => exact h.not_searchable (hp path hnames).1
  | npMv =>
    obtain ⟨src, dst, hsrc, hdst⟩ := hmv rfl
    obtain ⟨hps, hpd⟩ := hp src dst hsrc hdst
    rcases hnames with hn | hn
    · rw [hsrc] at hn
      cases hn
      exact h.not_parentAllows (pathFrom_eq_some hsrc).1 hps
    rw [hdst] at hn
    cases hn
    exact h.not_parentAllows (pathFrom_eq_some hdst).1 hpd
  | npPread | npPwrite | npFstat | npClunk | unknown => exact hnames

/-- the reply on a barred path; `none` is the panic of an NP_MV whose lengths overflow. -/
def barredAnswer (refuses : Bool) (verb : Verb) (p : Params) (payload : Bytes) : Option Bytes :=
  match verb with
  | .npOpen => some (statusReply (if flagsOk p.p0 then fsErrPerm else fsError))
  | .npMv =>
    match pathFrom payload 0 p.p0, pathFrom payload p.p0 p.p1 with
    | _, none => none
    | some (some _), some (some _) => some (statusReply fsErrPerm)
    -- the other path is none, which is seen after the check
    | _, _ => some (statusReply (if refuses then fsErrReadOnly else fsError))
  | _ => some (statusReply fsErrPerm)

/-- a step gives this reply and leaves all but the creator of new files. -/
def Answers (v : Ext2) (rest : Fids × List FidOp × List Bytes) (m : Step (Filesystem X) Bytes) (reply : Bytes) :
    Prop :=
  ∀ w, w.held = (.ext2 v, rest) → ∃ w' uid gid, m w = some (reply, w') ∧
    w'.held = (.ext2 (v.setCreator uid gid), rest)

variable {rest : Fids × List FidOp × List Bytes}

theorem Answers.of_gives {m : Step (Filesystem X) Bytes} (h : Gives Work.held (.ext2 v, rest) m reply) :
    Answers v rest m reply := by
  intro w hw
  obtain ⟨w', hm, hw'⟩ := h w hw
  exact ⟨w', v.creatorUid, v.creatorGid, hm, hw'⟩

theorem Answers.bind {α : Type} {m : Step (Filesystem X) α} {f : α → Step (Filesystem X) Bytes} {a : α}
    (hm : Gives Work.held (.ext2 v, rest) m a) (hf : Answers v rest (f a) reply) :
    Answers v rest (m >>= f) reply := by
  intro w hw
  obtain ⟨w', hm, hw'⟩ := hm w hw
  rw [bind_of_eq hm]
  exact hf w' hw'

theorem serveChecked_refused {who : Option Caller} {open_ : Option Found}
    (h : Gives Work.held (.ext2 v, rest) (checkAccess (ops o) who verb p payload open_) false) :
    Answers v rest (serveChecked (ops o) env refuses tree who verb p payload open_)
      (statusReply fsErrPerm) :=
  Answers.of_gives (h.bind (.pure _))

section
variable (hc : c.uid ≠ 0)
include hc

theorem openEarly_barred (h : Barred v c path)
    (hpath : pathFrom payload 0 p.p1 = some (some path)) (kind : Except Nat Kind) :
    ∃ early, Gives Work.held (.ext2 v, rest)
      (openEarly (ops o) (some c) p payload (some ⟨path, kind⟩)) early ∧
      (early = none ∨ early = some fsErrPerm) := by
  have hstat : Gives Work.held (.ext2 v, rest)
      (checkAccess (ops o) (some c) .npStat ⟨p.p1, 0, 0, 0⟩ payload none) false :=
    (checkAccess_decides_none hc .npStat nofun).gives_false (h.not_permitted hpath nofun nofun)
  have hasked (known : Nat) : Gives Work.held (.ext2 v, rest)
      (do pure (some (← existsAnswer (ops o) (some c) p payload known))) (some fsErrPerm) :=
    Gives.bind (.bind hstat (.pure _)) (.pure _)
  rcases kind with code | kind
  · exact ⟨none, Gives.pure none, .inl rfl⟩
  unfold openEarly
  dsimp only
  split
  · exact ⟨_, hasked _, .inr rfl⟩
  split
  · exact ⟨_, hasked _, .inr rfl⟩
  · exact ⟨none, Gives.pure none, .inl rfl⟩

theorem serveMv_missing {src dst : Option Bytes} (hsrc : pathFrom payload 0 p.p0 = some src)
    (hdst : pathFrom payload p.p0 p.p1 = some dst) (hmissing : src = none ∨ dst = none) :
    Answers v rest (serveTree (ops o) env refuses tree (some c) .npMv p payload)
      (statusReply (if refuses then fsErrReadOnly else fsError)) := by
  have hcheck : Gives Work.held (.ext2 v, rest) (checkAccess (ops o) (some c) .npMv p payload none) true := by
    rw [checkAccess, if_neg hc]
    refine .bind modelsModes_gives ?_
    rw [if_pos rfl, checkVerb, hsrc, hdst]
    refine .bind (.pure src) (.bind (.pure dst) ?_)
    rcases hmissing with rfl | rfl
    · exact .pure true
    · cases src <;> exact .pure true
  rw [serveTree, if_neg (by decide)]
  refine .bind hcheck ?_
  rw [if_pos rfl]
  refine .bind (.pure _) ?_
  cases refuses with
  | true => exact .of_gives (.pure _)
  | false =>
    have harm : Gives Work.held (.ext2 (v.setCreator (c.uid % 2 ^ 16) (c.gid % 2 ^ 16)), rest)
        (serveVerb (ops o) env tree (some c) .npMv p payload none) (statusReply fsError) := by
      rw [serveVerb, withPath, hsrc]
      refine .bind (.pure src) ?_
      rcases src with _ | src
      · exact .pure _
      rw [hmissing.resolve_left (Option.some_ne_none src)] at hdst
      dsimp only
      rw [hdst]
      exact .bind (.pure none) (.pure _)
    rintro ⟨fs, calls, fids, table, sent⟩ hw
    cases hw
    obtain ⟨w', hrun, hw'⟩ := harm ⟨_, calls, fids, table, sent⟩ rfl
    exact ⟨w', _, _, hrun, hw'⟩

theorem serveMv_overflow (hdst : pathFrom payload p.p0 p.p1 = none) {w : Work (Filesystem X)}
    (hw : w.held = (.ext2 v, rest)) :
    serveTree (ops o) env refuses tree (some c) .npMv p payload w = none := by
  obtain ⟨src, hsrc⟩ := pathFrom_zero payload p.p0
  obtain ⟨w', hmodes, -⟩ := modelsModes_gives (o := o) w hw
  have hcheck : checkAccess (ops o) (some c) .npMv p payload none w = none := by
    rw [checkAccess, if_neg hc, bind_of_eq hmodes, if_pos rfl, checkVerb, hsrc, hdst, lift_some_bind]
    rfl
  rw [serveTree, if_neg (by decide), serveChecked, bind_apply, hcheck]
  rfl

theorem serveOpen_barred (h : Barred v c path) (hpath : pathFrom payload 0 p.p1 = some (some path)) :
    Answers v rest (serveTree (ops o) env refuses tree (some c) .npOpen p payload)
      (statusReply (if flagsOk p.p0 then fsErrPerm else fsError)) := by
  have hvalid := (pathFrom_eq_some hpath).1
  rw [serveTree, if_pos rfl, hpath]
  refine .bind (.pure (some path)) ?_
  dsimp only
  cases hflags : flagsOk p.p0 with
  | false => exact .of_gives (.pure _)
  | true =>
    have hfound : Gives Work.held (.ext2 v, rest) (found (ops o) path) ⟨path, kindOf (v.stat path)⟩ :=
      Gives.bind (stat_gives path) (.pure _)
    obtain ⟨early, hearly, hcases⟩ := openEarly_barred hc h hpath (kindOf (v.stat path))
    refine .bind hfound (.bind hearly ?_)
    rcases hcases with rfl | rfl
    · refine serveChecked_refused
        ((checkAccess_decides hc .npOpen (fun f hf => ?_) nofun).gives_false fun hp => ?_)
      · cases hf
        exact hvalid
      · exact h.not_openPermitted hvalid hflags _ (hp _ rfl)
    · exact .of_gives (.pure _)

/-- **A path verb on a barred path.** -/
theorem serveTree_barred (h : Barred v c path) (hnames : Names verb p payload path)
    (hreply : barredAnswer refuses verb p payload = some reply) :
    Answers v rest (serveTree (ops o) env refuses tree (some c) verb p payload) reply := by
  by_cases hopen : verb = .npOpen
  · subst hopen
    cases hreply
    exact serveOpen_barred hc h hnames
  by_cases hmv : verb = .npMv
  · subst hmv
    obtain ⟨src, hsrc⟩ := pathFrom_zero payload p.p0
    rw [barredAnswer, hsrc] at hreply
    cases hdst : pathFrom payload p.p0 p.p1 with
    | none =>
      rw [hdst] at hreply
      cases hreply
    | some dst =>
      rw [hdst] at hreply
      rcases dst with _ | dst
      · cases hreply
        exact serveMv_missing hc hsrc hdst (.inr rfl)
      rcases src with _ | src
      · cases hreply
        exact serveMv_missing hc hsrc hdst (.inl rfl)
      cases hreply
      rw [serveTree, if_neg nofun]
      refine serveChecked_refused ((checkAccess_decides_none hc .npMv fun _ => ?_).gives_false
        (h.not_permitted hnames nofun fun _ => ⟨src, dst, hsrc, hdst⟩))
      rw [hdst]
      exact nofun
  · have hanswer : reply = statusReply fsErrPerm := by
      cases verb <;> first | exact (Option.some.inj hreply).symm | exact absurd rfl hopen | exact absurd rfl hmv
    rw [serveTree, if_neg hopen, hanswer]
    exact serveChecked_refused ((checkAccess_decides_none hc verb fun hv => absurd hv hmv).gives_false
      (h.not_permitted hnames hopen fun hv => absurd hv hmv))

end

/-! ## Two runs -/

/-- the volumes differ only in the inodes of `below` and in what the directory `top` holds. -/
structure DifferBelow (v₁ v₂ : Ext2) (top : Nat) (below : Nat → Prop) : Prop where
  count : v₂.count = v₁.count
  outside : ∀ ino, ino ≠ top → ¬ below ino → v₂.inodes ino = v₁.inodes ino
  mode : (v₂.inodes top).fileMode = (v₁.inodes top).fileMode

/-- the way down the names leads to `top`, through directories that are not below it. -/
structure WayTo (v : Ext2) (top : Nat) (below : Nat → Prop) (names : List Bytes) : Prop where
  reaches : v.walk names = .ok (top, v.inodes top)
  above : ∀ front back, names = front ++ back → back ≠ [] → ∀ ino n, v.walk front = .ok (ino, n) →
    ino ≠ top ∧ ¬ below ino

/-- the path goes through `top` as a proper ancestor. -/
def Passes (v : Ext2) (top : Nat) (below : Nat → Prop) (path : Bytes) : Prop :=
  ∃ names rest, components path = names ++ rest ∧ rest ≠ [] ∧ WayTo v top below names

variable {v₁ v₂ : Ext2} {top : Nat} {below : Nat → Prop}

theorem DifferBelow.walk_eq (h : DifferBelow v₁ v₂ top below)
    {names : List Bytes} {ino : Nat} {n : Ext2.Inode} (hwalk : v₁.walk names = .ok (ino, n))
    (habove : ∀ front back, names = front ++ back → back ≠ [] → ∀ ino n, v₁.walk front = .ok (ino, n) →
      ino ≠ top ∧ ¬ below ino) : v₂.walk names = .ok (ino, v₂.inodes ino) := by
  have hread {i : Nat} (hi : v₁.placed i) : v₂.readInode i = .ok (v₂.inodes i) := by
    refine readInode_of_placed ?_
    rw [placed, h.count]
    exact hi
  induction names using reverseRecOn generalizing ino n with
  | nil =>
    obtain ⟨rfl, hroot⟩ := walk_nil_ok hwalk
    rw [walk_nil, hread (readInode_eq_ok hroot).1]
    rfl
  | append_singleton names name ih =>
    obtain ⟨⟨d, dn⟩, hd, hstep⟩ := walk_snoc_ok hwalk
    obtain ⟨hdir, hentry, hnext⟩ := descend_eq_ok hstep
    -- the directory the last step is taken in is the same in both
    obtain ⟨hne, hnot⟩ := habove names [name] rfl (cons_ne_nil _ _) d dn hd
    have hsame : v₂.inodes d = dn := by
      rw [h.outside d hne hnot, (walk_inode hd).2]
    have hd₂ := ih hd fun front back hfb hback =>
      habove front (back ++ [name]) (by rw [hfb, append_assoc]) (by simp)
    rw [walk_snoc_of hd₂, hsame, descend_of_entry hdir hentry, hread (readInode_eq_ok hnext).1]
    rfl

theorem Passes.barred (h : DifferBelow v₁ v₂ top below)
    (hclosed : modeAllows (v₁.inodes top).fileMode c permX = false) (hpass : Passes v₁ top below path) :
    Barred v₁ c path ∧ Barred v₂ c path := by
  obtain ⟨names, back, hpath, hback, hway⟩ := hpass
  refine ⟨⟨names, back, top, _, hpath, hback, hway.reaches, hclosed⟩,
    names, back, top, _, hpath, hback, h.walk_eq hway.reaches hway.above, ?_⟩
  rw [h.mode]
  exact hclosed

def State.put (st : State (Filesystem X)) (tree : Fin maxMounts) (m : Mount (Filesystem X)) (v : Ext2) :
    State (Filesystem X) :=
  { st with mounts := update st.mounts tree (some { m with fs := .ext2 v }) }

/-- the mounts, the volume and the fids are as before; the creator of new files is no part of the disk. -/
def Unchanged (st : State (Filesystem X)) (tree : Fin maxMounts) (m : Mount (Filesystem X)) (v : Ext2)
    (out : Outcome (Filesystem X)) : Prop :=
  ∃ uid gid, out.state = st.put tree m (v.setCreator uid gid)

/-- the request gives this reply, and leaves the volume and all else as it was. -/
def Refused (st : State (Filesystem X)) (tree : Fin maxMounts) (m : Mount (Filesystem X)) (v : Ext2)
    (reply : Bytes) (result : Option (Outcome (Filesystem X))) : Prop :=
  ∃ out, result = some out ∧ out.reply = reply ∧ out.sent = [] ∧ Unchanged st tree m v out

/-- the two lengths of an NP_MV run over 64 bits, where the server panics before it looks at the volume. -/
def MvLengthsOverflow (req : Bytes) : Prop :=
  verbOf req = .npMv ∧ pathFrom (req.drop npReqPayload) (params req).p0 (params req).p1 = none

/-- what a request on a barred path is answered, by its bytes alone. -/
def barredReply (refuses : Bool) (req : Bytes) : Option Bytes :=
  if req.length < npReqPayload then some (statusReply fsError)
  else barredAnswer refuses (verbOf req) (params req) (req.drop npReqPayload)

theorem barredAnswer_none
    (h : barredAnswer refuses verb p payload = none) : verb = .npMv ∧ pathFrom payload p.p0 p.p1 = none := by
  cases verb with
  | npMv =>
    refine ⟨rfl, ?_⟩
    obtain ⟨src, hsrc⟩ := pathFrom_zero payload p.p0
    cases hdst : pathFrom payload p.p0 p.p1 with
    | none => rfl
    | some dst =>
      rw [barredAnswer, hsrc, hdst] at h
      rcases dst with _ | dst <;> rcases src with _ | src <;> cases h
  | _ => cases h

variable (o env) in
theorem handleNinep_barred (st : State (Filesystem X))
    (m : Mount (Filesystem X)) (hc : c.uid ≠ 0) {req : Bytes} (htree : word req 8 = tree)
    (hnames : Names (verbOf req) (params req) (req.drop npReqPayload) path) (h : Barred v c path) :
    let result := handleNinep (ops o) env (st.put tree m v) (some c) (verbOf req) req
    (∀ reply, barredReply m.refusesChanges req = some reply → Refused st tree m v reply result) ∧
      (barredReply m.refusesChanges req = none → MvLengthsOverflow req ∧ result = none) := by
  unfold barredReply
  by_cases hlen : req.length < npReqPayload
  · rw [if_pos hlen, handleNinep, if_pos hlen]
    refine ⟨fun reply hreply => ?_, fun hnone => by cases hnone⟩
    cases hreply
    exact ⟨_, rfl, rfl, rfl, v.creatorUid, v.creatorGid, rfl⟩
  have hverb : (verbOf req).onFid = false := by
    generalize verbOf req = verb at hnames
    cases verb <;> first | rfl | exact hnames.elim
  have hmount : (st.put tree m v).mounts tree = some { m with fs := .ext2 v } := update_self ..
  rw [if_neg hlen, handleNinep_eq _ _ _ _ _ (Nat.le_of_not_lt hlen), dispatch_path htree hverb hmount]
  dsimp only
  refine ⟨fun reply hreply => ?_, fun hreply => ?_⟩
  · obtain ⟨w', uid, gid, hrun, hheld⟩ := serveTree_barred hc h hnames hreply (.start (.ext2 v) st.fids) rfl
    refine ⟨_, congrArg (Option.map _) hrun, rfl, congrArg (·.2.2.2) hheld, uid, gid, ?_⟩
    have hfs : w'.fs = .ext2 (v.setCreator uid gid) := congrArg (·.1) hheld
    have hfids : w'.fids = st.fids := congrArg (·.2.1) hheld
    simp only [State.put, update_idem, hfs, hfids]
  · obtain ⟨hmv, hdst⟩ := barredAnswer_none hreply
    refine ⟨⟨hmv, hdst⟩, ?_⟩
    rw [hmv, onTree, serveMv_overflow hc hdst rfl]
    rfl

/-- **A path verb through a directory that a caller other than root may not search gives one reply on two volumes
that differ only below it, and changes neither**; where the lengths of an NP_MV overflow, both panic. -/
theorem search_confidential (o : Ops X) (env : Env (Filesystem X)) (st : State (Filesystem X))
    (tree : Fin maxMounts) (m : Mount (Filesystem X)) (v₁ v₂ : Ext2) (top : Nat) (below : Nat → Prop)
    (hdiff : DifferBelow v₁ v₂ top below)
    (c : Caller) (hc : c.uid ≠ 0) (hclosed : modeAllows (v₁.inodes top).fileMode c permX = false)
    (req path : Bytes)
    (htree : word req 8 = tree) (hnames : Names (verbOf req) (params req) (req.drop npReqPayload) path)
    (hpass : Passes v₁ top below path) :
    let run (v : Ext2) := handleNinep (ops o) env (st.put tree m v) (some c) (verbOf req) req
    (∃ reply : Bytes, Refused st tree m v₁ reply (run v₁) ∧ Refused st tree m v₂ reply (run v₂)) ∨
      MvLengthsOverflow req ∧ run v₁ = none ∧ run v₂ = none := by
  intro run
  obtain ⟨h₁, h₂⟩ := hpass.barred hdiff hclosed
  obtain ⟨hreply₁, hnone₁⟩ := handleNinep_barred o env st m hc htree hnames h₁
  obtain ⟨hreply₂, hnone₂⟩ := handleNinep_barred o env st m hc htree hnames h₂
  cases hreply : barredReply m.refusesChanges req with
  | some reply => exact .inl ⟨reply, hreply₁ reply hreply, hreply₂ reply hreply⟩
  | none => exact .inr ⟨(hnone₁ hreply).1, (hnone₁ hreply).2, (hnone₂ hreply).2⟩

/-- `/a/x` is opened to be made, where `/a` is closed to the caller; it is there on one volume only. -/
theorem search_confidential_create :
    let top := Ext2.dirOf 0o700 0 12 2
    let v₁ :=
      Ext2.ofInodes [Ext2.dirOf 0o755 0 2 2 [⟨[97], 12, 2⟩], top [⟨[120], 13, 1⟩], Ext2.fileOf 0o644 0 13 [1]]
    let v₂ := Ext2.ofInodes [Ext2.dirOf 0o755 0 2 2 [⟨[97], 12, 2⟩], top []]
    let env : Env (Filesystem Empty) := localEnv 9 1000 fun _ => 0
    let req := request (npBase + 15) 0 (openRead ||| openCreate) 4 0 0 [slash, 97, slash, 120]
    let m : Mount (Filesystem Empty) := ⟨.ext2 v₁, false, false⟩
    let st : State (Filesystem Empty) := ⟨fun _ => none, fun _ => none⟩
    ∃ reply : Bytes, Refused st rootTree m v₁ reply
        (handleNinep (ops Ops.none) env (st.put rootTree m v₁)
          (some ⟨1000, 1000, []⟩) (verbOf req) req) ∧
      Refused st rootTree m v₂ reply
        (handleNinep (ops Ops.none) env (st.put rootTree m v₂) (some ⟨1000, 1000, []⟩)
            (verbOf req) req) := by
  intro top v₁ v₂ env req m st
  have hdiff : DifferBelow v₁ v₂ 12 (· = 13) := by
    refine ⟨rfl, fun ino hne hnot => ?_, by decide +kernel⟩
    have h12 : (ino == 12) = false := beq_false_of_ne hne
    have h13 : (ino == 13) = false := beq_false_of_ne hnot
    simp [v₁, v₂, top, ofInodes, dirOf, fileOf, lookup_cons, h12, h13]
  have hway : WayTo v₁ 12 (· = 13) [[97]] := by
    refine ⟨by rfl, fun front back hfb hback ino n hwalk => ?_⟩
    have hfront : front = [] := by
      rcases front with _ | ⟨d, front⟩
      · rfl
      · obtain ⟨-, hnil⟩ := List.cons.inj hfb
        exact absurd (append_eq_nil_iff.1 hnil.symm).2 hback
    rw [hfront, walk_nil] at hwalk
    cases hwalk
    exact ⟨by decide, by decide⟩
  have hverb : verbOf req = .npOpen := by decide +kernel
  have hpath : pathFrom (req.drop npReqPayload) 0 (params req).p1 = some (some [slash, 97, slash, 120]) := by
    decide +kernel
  have htree : word req 8 = rootTree := by decide +kernel
  clear_value req
  have hnames : Names (verbOf req) (params req) (req.drop npReqPayload) [slash, 97, slash, 120] := by
    rw [hverb]
    exact hpath
  rcases search_confidential Ops.none env st rootTree m v₁ v₂ 12 (· = 13) hdiff ⟨1000, 1000, []⟩ (by decide)
    (by decide +kernel) req [slash, 97, slash, 120] htree hnames
    ⟨[[97]], [[120]], by decide +kernel, by decide, hway⟩ with hreply | ⟨⟨hmv, -⟩, -⟩
  · exact hreply
  · cases hverb.symm.trans hmv

end Ouroboros.Fsd
