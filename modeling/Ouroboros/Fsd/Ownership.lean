import Ouroboros.Fsd.Arms

/-!
# Who an open file belongs to

* `serve_tabled`  every change of the table of open files is one the request asks for;
* `tableOf`  what a run did to the table, each change beside the turn it was part of;
* `run_replay`  the table after a run is its history, replayed;
* `fid_ownership`  a verb that reaches a volume through a fid has the open that wrote it to show for it, with
  nothing since that ended it.
-/

namespace Ouroboros.Fsd

open Act List

variable {F : Type} {ops : Ops F}

/-! ## The table, within one request -/

/-- between two points of a request the table was changed by operations that meet `P`. -/
def Tabled (P : FidOp → Prop) (w w' : Work F) : Prop :=
  ∃ l, w'.table = w.table ++ l ∧ w'.fids = l.foldl FidOp.apply w.fids ∧ ∀ op ∈ l, P op

variable {P : FidOp → Prop}
variable {α : Type} {st' : State F} {who : Option Caller} {turns : List (Turn F)} {served : List (Served F)}

theorem Tabled.refl (w : Work F) : Tabled P w w := ⟨[], (append_nil _).symm, rfl, nofun⟩

theorem Tabled.trans (w w' w'' : Work F) (h : Tabled P w w') (h' : Tabled P w' w'') : Tabled P w w'' := by
  obtain ⟨l, htable, hfids, hP⟩ := h
  obtain ⟨l', htable', hfids', hP'⟩ := h'
  refine ⟨l ++ l', ?_, ?_, forall_mem_append.2 ⟨hP, hP'⟩⟩
  · rw [htable', htable, append_assoc]
  · rw [hfids', hfids, foldl_append]

theorem tabled_of_eq {m : Step F α}
    (h : ∀ w a w', m w = some (a, w') → w'.table = w.table ∧ w'.fids = w.fids) : Keeps (Tabled P) m := by
  intro w a w' hm
  obtain ⟨htable, hfids⟩ := h w a w' hm
  exact ⟨[], by rw [htable, append_nil], hfids, nofun⟩

theorem tabled_volume (call : Call) (f : F → α × F) : Keeps (Tabled P) (volume call f) :=
  tabled_of_eq fun _ _ _ h => by cases h; exact ⟨rfl, rfl⟩

theorem tabled_arms : ArmKeeps ops (Tabled P) True P where
  refl := .refl
  trans := .trans
  stat _ := tabled_volume _ _
  noteSent _ := tabled_of_eq fun _ _ _ h => by cases h; exact ⟨rfl, rfl⟩
  listDir _ _ := tabled_volume _ _
  readFile _ _ := tabled_volume _ _
  readAt _ _ _ := tabled_volume _ _
  readEach _ _ _ _ := tabled_volume _ _
  change _ _ _ := tabled_volume _ _
  doFids op hop w _ w' h := by
    cases h
    exact ⟨[op], rfl, rfl, forall_mem_singleton.2 hop⟩

theorem tabled_setCreator (uid gid : Nat) : Keeps (Tabled P) (setCreator ops uid gid) :=
  tabled_of_eq fun _ _ _ h => by cases h; exact ⟨rfl, rfl⟩

/-! ## What a request may do to it -/

structure Opens (env : Env F) (req : Bytes) (fid : Fid) : Prop where
  verb : verbOf req = .npOpen
  owner : fid.owner = env.owner
  flags : fid.flags = (params req).p0
  uid : ∃ c, effectiveCaller env (word req 0) req = some (some c) ∧ fid.ownerUid = c.uid
  tree : fid.tree = word req 8
  live : fid.dead = false

def Asks (env : Env F) (req : Bytes) : FidOp → Prop
  | .opened _ fid => Opens env req fid
  | .clunked slot => verbOf req = .npClunk ∧ (params req).p0 = slot + fidBase
  | .forgotten _ => verbOf req = .npOpen
  | .reaped identity => verbOf req = .npOpen ∧ identity = env.identity
  | .unmounted _ => word req 0 = fsopUnmount

def Outcome.Tabled (env : Env F) (st : State F) (req : Bytes) (out : Outcome F) : Prop :=
  out.state.fids = out.table.foldl FidOp.apply st.fids ∧ ∀ op ∈ out.table, Asks env req op

variable {env : Env F} {st : State F} {req : Bytes} {out : Outcome F} {status : Nat}

theorem answer_tabled (h : answer st' status = some out) (hfids : st'.fids = st.fids) :
    out.Tabled env st req := by
  cases h
  exact ⟨hfids, nofun⟩

theorem answerAfter_tabled {op : FidOp} (h : answerAfter st' op status = some out)
    (hfids : st'.fids = st.fids) (hop : Asks env req op) : out.Tabled env st req := by
  cases h
  exact ⟨by rw [hfids]; rfl, forall_mem_singleton.2 hop⟩

theorem onTree_tabled {tree : Fin maxMounts} {m : Mount F} {step : Step F Bytes}
    (h : onTree st tree m step = some out) (hstep : Keeps (Tabled (Asks env req)) step) :
    out.Tabled env st req := by
  obtain ⟨reply, w, hrun, rfl⟩ := onTree_eq_some h
  obtain ⟨l, htable, hfids, hasks⟩ := hstep _ _ _ hrun
  have hl : w.table = l := htable
  exact ⟨by rw [hl]; exact hfids, by rw [hl]; exact hasks⟩

theorem dispatch_tabled (hwho : effectiveCaller env (word req 0) req = some who)
    (h : dispatch ops env st who (verbOf req) (word req 8) (params req) (req.drop npReqPayload) = some out) :
    out.Tabled env st req := by
  unfold dispatch at h
  split at h
  · obtain ⟨status, rfl⟩ | ⟨slot, f, hown, -, ⟨hclunk, h⟩ | ⟨-, -, -, m, -, h⟩⟩ := handleFidOp_cases h
    · exact answer_tabled rfl rfl
    · exact answerAfter_tabled h rfl ⟨hclunk, (ownFid_eq_some hown).1⟩
    · exact onTree_tabled h (tabled_arms.serving.serveFid f _ _ fun _ => trivial)
  split at h
  · split at h
    · exact answer_tabled h rfl
    · refine onTree_tabled h (tabled_arms.serving.serveTree _ tabled_setCreator
        (fun _ => trivial) (fun hopen => ?_) nofun)
      refine ⟨⟨hopen, rfl⟩, ?_⟩
      rintro slot fid ⟨c, rfl, howner, hflags, huid, htree, hlive⟩
      exact ⟨hopen, howner, hflags, ⟨c, hwho, huid⟩, congrArg Fin.val htree, hlive⟩
  · exact answer_tabled h rfl

theorem tryMount_fids (st : State F) (capacity : Option Nat) (mount : Except Error (Mount F)) :
    (tryMount ops st capacity mount).2.fids = st.fids := by
  unfold tryMount
  repeat' split
  all_goals rfl

theorem mountOrRescan_fids : (mountOrRescan ops env st).2.fids = st.fids := by
  unfold mountOrRescan
  dsimp only
  repeat' split
  all_goals first | exact tryMount_fids .. | rfl

theorem mountAt_fids (index : Nat) : (mountAt ops env st index).2.fids = st.fids := by
  unfold mountAt
  repeat' split
  all_goals rfl

theorem rootOnly_tabled {out' : Option (Outcome F)} (h : rootOnly st who out' = some out)
    (hout : out' = some out → out.Tabled env st req) : out.Tabled env st req := by
  unfold rootOnly at h
  split at h
  · exact hout h
  · exact answer_tabled h rfl

theorem mountInfo_tabled (h : mountInfo ops env st = some out) : out.Tabled env st req := by
  unfold mountInfo at h
  split at h
  · exact answer_tabled h rfl
  refine onTree_tabled h ?_
  have arms := ArmKeeps.serving (tabled_arms : ArmKeeps ops (Tabled (Asks env req)) True _)
  refine arms.bind arms.modelsModesOrUnknown fun modes => arms.bind (arms.ask _) fun fs => ?_
  exact arms.bind (arms.lift nofun) fun _ => arms.pure _

theorem handleFsop_tabled (h : handleFsop ops env st who (word req 0) (word req 8) = some out) :
    out.Tabled env st req := by
  unfold handleFsop at h
  split at h
  · exact rootOnly_tabled h fun h => answer_tabled h mountOrRescan_fids
  split at h
  · exact rootOnly_tabled h fun h => answer_tabled h (mountAt_fids _)
  split at h
  · exact mountInfo_tabled h
  split at h
  · next hop =>
    refine rootOnly_tabled h fun h => ?_
    unfold unmount at h
    split at h
    · exact answer_tabled h rfl
    · exact answerAfter_tabled h rfl hop
  split at h
  · exact rootOnly_tabled h fun h => answer_tabled h rfl
  · exact answer_tabled h rfl

theorem handle_tabled (h : handle ops env st req = some out) : out.Tabled env st req := by
  obtain ⟨-, heq⟩ | ⟨who, hwho, ⟨-, -, heq⟩ | ⟨-, -, heq⟩⟩ := handle_cases ops env st req
  · rw [heq] at h
    exact answer_tabled h rfl
  · rw [heq] at h
    exact dispatch_tabled hwho h
  · rw [heq] at h
    exact handleFsop_tabled h

theorem serve_tabled {stale : Bool} (h : serve ops env st req stale = some out) : out.Tabled env st req := by
  obtain ⟨out', hhandle, rfl | ⟨slot, -, hforget, rfl⟩⟩ := serve_eq_some h
  · exact handle_tabled hhandle
  obtain ⟨hfids, hasks⟩ := handle_tabled hhandle
  refine ⟨?_, forall_mem_append.2 ⟨hasks, forall_mem_singleton.2 (forgetUnheardFid_eq_some hforget)⟩⟩
  simp only [Outcome.forget, foldl_append, foldl_cons, foldl_nil, hfids]

/-! ## Runs -/

def tableOf (served : List (Served F)) : List (Served F × FidOp) :=
  served.flatMap fun s => s.out.table.map (s, ·)

section
variable (h : run ops st turns = some (served, st'))
include h

theorem run_served : ∀ s ∈ served, serve ops s.turn.env s.before s.turn.req s.turn.stale = some s.out := by
  induction turns generalizing st served with
  | nil =>
    cases h
    exact forall_mem_nil _
  | cons turn turns ih =>
    obtain ⟨out, rest, hserve, hrun, rfl⟩ := run_cons h
    exact forall_mem_cons.2 ⟨hserve, ih hrun⟩

theorem run_replay : st'.fids = replay st.fids (tableOf served) := by
  induction turns generalizing st served with
  | nil =>
    cases h
    rfl
  | cons turn turns ih =>
    obtain ⟨out, rest, hserve, hrun, rfl⟩ := run_cons h
    rw [tableOf, flatMap_cons, replay, foldl_append, foldl_map, ← (serve_tabled hserve).1]
    exact ih hrun

theorem tableOf_asks {s : Served F} {op : FidOp} (hmem : (s, op) ∈ tableOf served) :
    Asks s.turn.env s.turn.req op := by
  obtain ⟨s', hs', hop⟩ := mem_flatMap.1 hmem
  obtain ⟨op', hop', heq⟩ := mem_map.1 hop
  cases heq
  exact (serve_tabled (run_served h s hs')).2 op hop'

end

/-! ## A verb on a fid -/

def CallsFirst (w w' : Work F) : Prop := ∃ l, w'.calls = w.calls ++ l ∧ (l = [] → w'.fs = w.fs)

theorem CallsFirst.refl (w : Work F) : CallsFirst w w := ⟨[], (append_nil _).symm, fun _ => rfl⟩

theorem CallsFirst.trans (w w' w'' : Work F) (h : CallsFirst w w') (h' : CallsFirst w' w'') :
    CallsFirst w w'' := by
  obtain ⟨l, hcalls, hfs⟩ := h
  obtain ⟨l', hcalls', hfs'⟩ := h'
  refine ⟨l ++ l', by rw [hcalls', hcalls, append_assoc], fun hnil => ?_⟩
  obtain ⟨hl, hl'⟩ := append_eq_nil_iff.1 hnil
  rw [hfs' hl', hfs hl]

theorem callsFirst_volume (call : Call) (f : F → α × F) : Keeps CallsFirst (volume call f) := by
  intro w a w' h
  cases h
  exact ⟨[call], rfl, nofun⟩

theorem callsFirst_arms : ArmKeeps ops CallsFirst True fun _ => True where
  refl := .refl
  trans := .trans
  stat _ := callsFirst_volume _ _
  noteSent _ w _ w' h := by
    cases h
    exact .refl w
  listDir _ _ := callsFirst_volume _ _
  readFile _ _ := callsFirst_volume _ _
  readAt _ _ _ := callsFirst_volume _ _
  readEach _ _ _ _ := callsFirst_volume _ _
  change _ _ _ := callsFirst_volume _ _
  doFids _ _ w _ w' h := by
    cases h
    exact .refl w

def Clunks (env : Env F) (st : State F) (req : Bytes) (out : Outcome F) : Prop :=
  verbOf req = .npClunk ∧ ∃ (slot : Fin maxFids) (f : Fid), (params req).p0 = slot + fidBase ∧
    st.fids slot = some f ∧
    f.owner = env.owner ∧ out.state.fids = Function.update st.fids slot none

structure Through (env : Env F) (st : State F) (req : Bytes) (slot : Fin maxFids) (f : Fid) : Prop where
  number : (params req).p0 = slot + fidBase
  used : st.fids slot = some f
  owner : f.owner = env.owner
  proxy : taskIdSlot env.owner = netTask → ∃ c, effectiveCaller env (word req 0) req = some (some c) ∧
    c.uid = f.ownerUid
  live : f.dead = false
  allows : fidAllows (verbOf req) f.flags = true

/-- what a verb on a fid does to the fids, to the mounts, and which fid it goes through. -/
structure OnFid (env : Env F) (st : State F) (req : Bytes) (out : Outcome F) : Prop where
  fids : out.state.fids = st.fids ∨ Clunks env st req out
  mounts : out.calls = [] → out.state.mounts = st.mounts
  through : out.calls ≠ [] → ∃ slot f, Through env st req slot f

theorem handle_onFid (hverb : (verbOf req).onFid) (h : handle ops env st req = some out) :
    OnFid env st req out := by
  have hfid : verbOf req = .npPread ∨ verbOf req = .npPwrite ∨ verbOf req = .npFstat ∨
      verbOf req = .npClunk := by
    cases hv : verbOf req <;> simp [hv, Verb.onFid] at hverb ⊢
  have hknown : verbOf req ≠ .unknown := by
    intro hv
    rw [hv] at hverb
    cases hverb
  obtain ⟨-, heq⟩ | ⟨who, hwho, ⟨-, -, heq⟩ | ⟨hop, -, -⟩⟩ := handle_cases ops env st req
  · rw [heq] at h
    cases h
    exact ⟨.inl rfl, fun _ => rfl, fun hcalls => absurd rfl hcalls⟩
  · rw [heq, dispatch, if_pos hfid] at h
    obtain ⟨status, rfl⟩ | ⟨slot, f, hown, hproxy, ⟨hclunk, h⟩ | ⟨-, hdead, hallows, m, hm, h⟩⟩ :=
      handleFidOp_cases h
    · exact ⟨.inl rfl, fun _ => rfl, fun hcalls => absurd rfl hcalls⟩
    · obtain ⟨hnumber, hused, howner⟩ := ownFid_eq_some hown
      cases h
      exact ⟨.inr ⟨hclunk, slot, f, hnumber, hused, howner, rfl⟩, fun _ => rfl, fun hcalls => absurd rfl hcalls⟩
    obtain ⟨hnumber, hused, howner⟩ := ownFid_eq_some hown
    obtain ⟨reply, w, hrun, rfl⟩ := onTree_eq_some h
    refine ⟨.inl ?_, fun hcalls => ?_, fun _ =>
      ⟨slot, f, hnumber, hused, howner, fun hnet => ?_, hdead, hallows⟩⟩
    · -- no operation on the table meets `False`
      obtain ⟨l, -, hfids, hnone⟩ :=
        (tabled_arms (P := fun _ => False)).serving.serveFid f _ _ (fun _ => trivial) _ _ _ hrun
      rw [eq_nil_iff_forall_not_mem.2 hnone] at hfids
      exact hfids
    · obtain ⟨l, hl, hfs⟩ := callsFirst_arms.serving.serveFid f _ _ (fun _ => trivial) _ _ _ hrun
      have hnil : l = [] := hl.symm.trans (map_eq_nil_iff.1 hcalls)
      have hsame : w.fs = m.fs := hfs hnil
      exact Function.update_eq_self_iff.2 (by rw [hsame, hm])
    · rw [proxyOk, hnet] at hproxy
      rcases who with _ | c
      · simp at hproxy
      · exact ⟨c, hwho, by simpa using hproxy⟩
  · exact absurd (verbOf_isVerb hknown) hop

theorem serve_onFid {stale : Bool} (hverb : (verbOf req).onFid) (h : serve ops env st req stale = some out) :
    OnFid env st req out := by
  obtain ⟨out', hhandle, rfl | ⟨slot, -, hforget, -⟩⟩ := serve_eq_some h
  · exact handle_onFid hverb hhandle
  · rw [forgetUnheardFid_eq_some hforget] at hverb
    cases hverb

/-- the open that wrote a fid, in the history of a run, and nothing since that ended it. -/
def Granted (served : List (Served F)) (slot : Fin maxFids) (fid : Fid) : Prop :=
  ∃ before opener after, tableOf served = before ++ (opener, .opened slot fid) :: after ∧
    Opens opener.turn.env opener.turn.req fid ∧ ∀ e ∈ after, ¬ e.2.Takes slot fid ∧ ¬ e.2.Empties fid.tree

theorem used_granted
    (hst : ∀ i, st.fids i = none) (hrun : run ops st turns = some (served, st')) {slot : Fin maxFids} {f : Fid}
    (hused : st'.fids slot = some f) (hlive : f.dead = false) :
    ∃ fid, f.Same fid ∧ Granted served slot fid := by
  rw [run_replay hrun, show st.fids = fun _ => none from funext hst] at hused
  obtain ⟨before, after, opener, fid, hlog, hsame, htakes, hempties⟩ := opened_of_used _ hused
  have hmem : (opener, FidOp.opened slot fid) ∈ tableOf served := by
    rw [hlog]
    exact mem_append_right _ mem_cons_self
  have hopens : Asks opener.turn.env opener.turn.req (.opened slot fid) := tableOf_asks hrun hmem
  exact ⟨fid, hsame, before, opener, after, hlog, hopens, fun e he => ⟨htakes e he, (hempties hlive).2 e he⟩⟩

/-- **A verb that reaches a volume through a fid has an NP_OPEN of the same task (and user, for the network
server) behind it that permits it, since which the fid was not given up. Any other verb on a fid makes no call
and leaves the mounts and, unless the sender clears a fid of its own, the table.** -/
theorem fid_ownership (turns : List (Turn F)) (st st' : State F) (hst : ∀ i, st.fids i = none)
    (served : List (Served F)) (hrun : run ops st turns = some (served, st')) (turn : Turn F) (out : Outcome F)
    (h : serve ops turn.env st' turn.req turn.stale = some out) (hverb : (verbOf turn.req).onFid = true) :
    (out.calls ≠ [] → ∃ (slot : Fin maxFids) (fid : Fid), (params turn.req).p0 = slot + fidBase ∧
      Granted served slot fid ∧
      fid.owner = turn.env.owner ∧
      (taskIdSlot turn.env.owner = netTask →
        ∃ c, effectiveCaller turn.env (word turn.req 0) turn.req = some (some c) ∧ c.uid = fid.ownerUid) ∧
      fidAllows (verbOf turn.req) fid.flags = true) ∧
    (out.calls = [] → out.state.mounts = st'.mounts) ∧
    (out.state.fids = st'.fids ∨ Clunks turn.env st' turn.req out) := by
  obtain ⟨hfids, hmounts, hthrough⟩ := serve_onFid hverb h
  refine ⟨fun hcalls => ?_, hmounts, hfids⟩
  obtain ⟨slot, f, hf⟩ := hthrough hcalls
  obtain ⟨fid, hsame, hgranted⟩ := used_granted hst hrun hf.used hf.live
  refine ⟨slot, fid, hf.number, hgranted, ?_, fun hnet => ?_, ?_⟩
  · rw [← hsame.owner, hf.owner]
  · rw [← hsame.ownerUid]
    exact hf.proxy hnet
  · rw [← hsame.flags]
    exact hf.allows

/-- a task opens a file and reads from it. -/
theorem fid_ownership_pread :
    let v := Ext2.ofInodes [Ext2.dirOf 0o755 0 2 2 [⟨[102], 12, 1⟩], Ext2.fileOf 0o644 0 12 [1, 2, 3]]
    let env : Env (Filesystem Empty) := localEnv 9 1000 fun _ => 0
    let opening : Turn (Filesystem Empty) := ⟨env, request (npBase + 15) 0 openRead 2 0 0 [slash, 102], false⟩
    let reading : Turn (Filesystem Empty) := ⟨env, request (npBase + 16) 0 fidBase 0 8 0 [], false⟩
    ∃ served st' out, run (Filesystem.ops Ops.none) (ext2State v) [opening] = some (served, st') ∧
      serve (Filesystem.ops Ops.none) env st' reading.req false = some out ∧ out.calls ≠ [] ∧
      ∃ slot fid, Granted served slot fid ∧ fid.owner = 9 := by
  intro v env opening reading
  have hsome : ((run (Filesystem.ops Ops.none) (ext2State v) [opening]).bind fun r =>
      serve (Filesystem.ops Ops.none) env r.2 reading.req false).any fun out =>
        !out.calls.isEmpty := by decide +kernel
  obtain ⟨out, hout, hcalls⟩ := (Option.any_eq_true _ _).1 hsome
  obtain ⟨⟨served, st'⟩, hrun, hserve⟩ := Option.bind_eq_some_iff.1 hout
  have hreach : out.calls ≠ [] := by
    intro hnil
    rw [hnil] at hcalls
    cases hcalls
  have hverb : (verbOf reading.req).onFid = true := by decide +kernel
  obtain ⟨slot, fid, -, hgranted, howner, -⟩ :=
    (fid_ownership [opening] (ext2State v) st' (fun _ => rfl) served hrun reading out hserve hverb).1 hreach
  exact ⟨served, st', out, hrun, hserve, hreach, slot, fid, hgranted, howner⟩

end Ouroboros.Fsd
