import Ouroboros.Fsd.Arms

/-!
# Read-only mounts

While a mount refuses changes, the verbs only read from its volume.

* `ReadsKeep`  a measure of a volume that the reading operations leave alone, such as the sector writes it
  has issued; `Filesystem.readsKeep`: an ext2 volume whole, but for the creator's ids;
* `quiet_arms`  so it is with every arm of a request on a mount that refuses changes;
* `readOnly_unwritten`  over a run of verbs, nothing is written through the tree.
-/

namespace Ouroboros.Fsd

open Act List

/-! ## Reading -/

structure ReadsKeep {F μ : Type} (ops : Ops F) (measure : F → μ) : Prop where
  setCreator : ∀ fs uid gid, measure (ops.setCreator fs uid gid) = measure fs
  stat : ∀ fs path, measure (ops.stat fs path).2 = measure fs
  listDir : ∀ fs path stop, measure (ops.listDir fs path stop).2 = measure fs
  readFile : ∀ fs path len, measure (ops.readFile fs path len).2 = measure fs
  readAt : ∀ fs path offset len, measure (ops.readAt fs path offset len).2 = measure fs
  readEach : ∀ fs path offset want broke, measure (ops.readEach fs path offset want broke).2 = measure fs

namespace Filesystem
variable {X μ : Type} {o : Ops X} {measure : X → μ}

/-- an ext2 volume but for the ids that `set_creator` keeps, and a measure of one of another kind. -/
def measured (measure : X → μ) : Filesystem X → Ext2 ⊕ μ
  | ext2 v => .inl (v.setCreator 0 0)
  | other x => .inr (measure x)

theorem measured_either {α : Type} (f : Ext2 → α) {g : X → α × X} (hg : ∀ x, measure (g x).2 = measure x)
    (fs : Filesystem X) : measured measure (either (fun v => (f v, v)) g fs).2 = measured measure fs := by
  cases fs with
  | ext2 v => rfl
  | other x => exact congrArg Sum.inr (hg x)

theorem readsKeep (h : ReadsKeep o measure) : ReadsKeep (ops o) (measured measure) where
  setCreator fs uid gid := by
    cases fs with
    | ext2 v => rfl
    | other x => exact congrArg Sum.inr (h.setCreator x uid gid)
  stat fs path := measured_either _ (h.stat · path) fs
  listDir fs path stop := measured_either _ (h.listDir · path stop) fs
  readFile fs path len := measured_either _ (h.readFile · path len) fs
  readAt fs path offset len := measured_either _ (h.readAt · path offset len) fs
  readEach fs path offset want broke := measured_either _ (h.readEach · path offset want broke) fs

end Filesystem

variable {F : Type} {ops : Ops F} {st : State F} {tree : Fin maxMounts} {m : Mount F}
    {out : Outcome F} {α : Type}

/-- between two points of a request only reading operations were called. -/
def Quiet (ops : Ops F) (w w' : Work F) : Prop :=
  (∀ (μ : Type) (measure : F → μ), ReadsKeep ops measure → measure w'.fs = measure w.fs) ∧
    ∃ calls, w'.calls = w.calls ++ calls ∧ ∀ c ∈ calls, c.reads = true

theorem Quiet.refl (w : Work F) : Quiet ops w w :=
  ⟨fun _ _ _ => rfl, [], (append_nil _).symm, fun _ h => absurd h not_mem_nil⟩

theorem Quiet.trans (w w' w'' : Work F) (h : Quiet ops w w') (h' : Quiet ops w' w'') : Quiet ops w w'' := by
  obtain ⟨hm, calls, hcalls, hreads⟩ := h
  obtain ⟨hm', calls', hcalls', hreads'⟩ := h'
  refine ⟨fun μ measure hk => (hm' μ measure hk).trans (hm μ measure hk), calls ++ calls', ?_, ?_⟩
  · rw [hcalls', hcalls, append_assoc]
  intro c hc
  rcases mem_append.1 hc with hc | hc
  · exact hreads c hc
  · exact hreads' c hc

theorem Quiet.volume {call : Call} (hcall : call.reads) {f : F → α × F}
    (hf : ∀ (μ : Type) (measure : F → μ), ReadsKeep ops measure → ∀ fs, measure (f fs).2 = measure fs) :
    Keeps (Quiet ops) (Fsd.volume call f) := by
  intro w a w' h
  cases h
  refine ⟨fun μ measure hk => hf μ measure hk w.fs, [call], rfl, fun c hc => ?_⟩
  rw [mem_singleton.1 hc]
  exact hcall

theorem quiet_of_eq {m : Step F α}
    (h : ∀ w a w', m w = some (a, w') → w'.fs = w.fs ∧ w'.calls = w.calls) : Keeps (Quiet ops) m := by
  intro w a w' hm
  obtain ⟨hfs, hcalls⟩ := h w a w' hm
  exact ⟨fun _ measure _ => by rw [hfs], [], by rw [hcalls, append_nil], fun _ hc => absurd hc not_mem_nil⟩

theorem setCreator_quiet (uid gid : Nat) : Keeps (Quiet ops) (setCreator ops uid gid) := by
  intro w a w' h
  cases h
  exact ⟨fun _ measure hk => hk.setCreator w.fs uid gid, [], (append_nil _).symm, fun _ hc =>
    absurd hc not_mem_nil⟩

theorem quiet_arms : ArmKeeps ops (Quiet ops) False fun _ => True where
  refl := .refl
  trans := .trans
  stat path := .volume rfl fun _ _ hk fs => hk.stat fs path
  noteSent _ := quiet_of_eq fun _ _ _ h => by cases h; exact ⟨rfl, rfl⟩
  listDir path stop := .volume rfl fun _ _ hk fs => hk.listDir fs path stop
  readFile path len := .volume rfl fun _ _ hk fs => hk.readFile fs path len
  readAt path offset len := .volume rfl fun _ _ hk fs => hk.readAt fs path offset len
  readEach path offset want broke := .volume rfl fun _ _ hk fs => hk.readEach fs path offset want broke
  change := nofun
  doFids _ _ := quiet_of_eq fun _ _ _ h => by cases h; exact ⟨rfl, rfl⟩

/-! ## A request, and a run -/

structure Unwritten (ops : Ops F) (tree : Fin maxMounts) (m : Mount F) (st' : State F)
    (calls : List (Fin maxMounts × Call)) : Prop where
  mounted : ∃ m', st'.mounts tree = some m' ∧ m'.refusesChanges = true ∧
    ∀ (μ : Type) (measure : F → μ), ReadsKeep ops measure → measure m'.fs = measure m.fs
  reads : ∀ c ∈ calls, c.1 = tree → c.2.reads = true

section Refuses
variable (hm : st.mounts tree = some m) (hrefuses : m.refusesChanges = true) {env : Env F}
include hm hrefuses

theorem Unwritten.nothing : Unwritten ops tree m st [] :=
  ⟨⟨m, hm, hrefuses, fun _ _ _ => rfl⟩, fun _ hc => absurd hc not_mem_nil⟩

theorem onTree_unwritten {t : Fin maxMounts} {m' : Mount F} {step : Step F Bytes}
    (h : onTree st t m' step = some out) (hm' : st.mounts t = some m')
    (hstep : m'.refusesChanges → Keeps (Quiet ops) step) : Unwritten ops tree m out.state out.calls := by
  obtain ⟨reply, w, hrun, rfl⟩ := onTree_eq_some h
  by_cases ht : tree = t
  · subst ht
    rw [hm] at hm'
    cases hm'
    obtain ⟨hmeasure, calls, hcalls, hreads⟩ := hstep hrefuses _ _ _ hrun
    refine ⟨⟨_, Function.update_self .., hrefuses, hmeasure⟩, ?_⟩
    rintro c hc -
    obtain ⟨call, hcall, rfl⟩ := mem_map.1 hc
    rw [hcalls] at hcall
    exact hreads call hcall
  · refine ⟨⟨m, (Function.update_of_ne ht _ _).trans hm, hrefuses, fun _ _ _ => rfl⟩, ?_⟩
    rintro c hc htree
    obtain ⟨call, -, rfl⟩ := mem_map.1 hc
    exact absurd htree.symm ht

theorem dispatch_unwritten {who : Option Caller} {verb : Verb} {t : Nat} {p : Params}
    {payload : Bytes} (h : dispatch ops env st who verb t p payload = some out) :
    Unwritten ops tree m out.state out.calls := by
  unfold dispatch at h
  split at h
  · obtain ⟨status, rfl⟩ | ⟨slot, f, -, -, ⟨-, h⟩ | ⟨-, -, -, m', hm', h⟩⟩ := handleFidOp_cases h
    · exact .nothing hm hrefuses
    · cases h
      exact .nothing hm hrefuses
    · refine onTree_unwritten hm hrefuses h hm' fun hr => ?_
      rw [hr]
      exact quiet_arms.serving.serveFid _ verb p nofun
  split at h
  · split at h
    · cases h
      exact .nothing hm hrefuses
    · next m' hm' =>
      refine onTree_unwritten hm hrefuses h hm' fun hr => ?_
      rw [hr]
      exact quiet_arms.serving.serveTree payload setCreator_quiet nofun
        (fun _ => ⟨trivial, fun _ _ _ => trivial⟩) nofun
  · cases h
    exact .nothing hm hrefuses

theorem serve_unwritten {req : Bytes} {stale : Bool} (hverb : IsVerb req)
    (h : serve ops env st req stale = some out) : Unwritten ops tree m out.state out.calls := by
  have hhandle {out' : Outcome F} (h' : handle ops env st req = some out') :
      Unwritten ops tree m out'.state out'.calls := by
    obtain ⟨-, heq⟩ | ⟨who, -, ⟨-, -, heq⟩ | ⟨hop, -, -⟩⟩ := handle_cases ops env st req
    · rw [heq] at h'
      cases h'
      exact .nothing hm hrefuses
    · rw [heq] at h'
      exact dispatch_unwritten hm hrefuses h'
    · exact absurd hverb hop
  obtain ⟨out', h', rfl | ⟨slot, -, -, rfl⟩⟩ := serve_eq_some h
  · exact hhandle h'
  · exact ⟨(hhandle h').mounted, (hhandle h').reads⟩

end Refuses

/-- **Over a run of verbs a mount that refuses changes goes on refusing them, only reading operations are
called on its volume, and what reading leaves alone, the sectors written among it, is as before.** -/
theorem readOnly_unwritten (turns : List (Turn F)) (hverbs : ∀ turn ∈ turns, IsVerb turn.req) (st st' : State F)
    (served : List (Served F)) (h : run ops st turns = some (served, st')) (tree : Fin maxMounts)
    (m : Mount F) (hm : st.mounts tree = some m) (hrefuses : m.refusesChanges = true) :
    Unwritten ops tree m st' (callsOf served) := by
  induction turns generalizing st served m with
  | nil =>
    cases h
    exact .nothing hm hrefuses
  | cons turn turns ih =>
    obtain ⟨out, rest, hserve, hrun, rfl⟩ := run_cons h
    have hstep := serve_unwritten hm hrefuses (hverbs turn mem_cons_self) hserve
    obtain ⟨m₁, hm₁, hrefuses₁, hmeasure₁⟩ := hstep.mounted
    have hrest := ih (fun t ht => hverbs t (mem_cons_of_mem _ ht)) out.state rest hrun m₁ hm₁ hrefuses₁
    obtain ⟨m₂, hm₂, hrefuses₂, hmeasure₂⟩ := hrest.mounted
    refine ⟨⟨m₂, hm₂, hrefuses₂, fun μ measure hk => ?_⟩, fun c hc htree => ?_⟩
    · rw [hmeasure₂ μ measure hk, hmeasure₁ μ measure hk]
    rcases mem_append.1 hc with hc | hc
    · exact hstep.reads c hc htree
    · exact hrest.reads c hc htree

/-- root opens a file to truncate it, on a volume that is held read-only; the volume is as it was. -/
theorem readOnly_truncate :
    let v := Ext2.ofInodes [Ext2.dirOf 0o755 0 2 2 [⟨[102], 12, 1⟩], Ext2.fileOf 0o644 0 12 [1, 2, 3]]
    let st : State (Filesystem Empty) :=
      ⟨fun t => if t = rootTree then some ⟨.ext2 v, true, false⟩ else none, fun _ => none⟩
    let turn : Turn (Filesystem Empty) :=
      ⟨localEnv 9 0 fun _ => 0, request (npBase + 15) 0 (openWrite ||| openTrunc) 2 0 0 [slash, 102], false⟩
    ∃ served st', run (Filesystem.ops Ops.none) st [turn] = some (served, st') ∧
      Unwritten (Filesystem.ops Ops.none) rootTree ⟨.ext2 v, true, false⟩ st' (callsOf served) ∧
      ∃ m', st'.mounts rootTree = some m' ∧ Filesystem.measured (id : Empty → Empty) m'.fs = .inl v := by
  intro v st turn
  have hsome : (run (Filesystem.ops Ops.none) st [turn]).isSome = true := by decide +kernel
  have hverb : IsVerb turn.req := ⟨by decide +kernel, by decide +kernel⟩
  obtain ⟨⟨served, st'⟩, h⟩ := Option.isSome_iff_exists.1 hsome
  have hverbs : ∀ t ∈ [turn], IsVerb t.req := by
    intro t ht
    rw [mem_singleton.1 ht]
    exact hverb
  have hun := readOnly_unwritten [turn] hverbs st st' served h rootTree _ rfl rfl
  obtain ⟨m', hm', -, hmeasure⟩ := hun.mounted
  have hnone : ReadsKeep Ops.none (id : Empty → Empty) := ⟨nofun, nofun, nofun, nofun, nofun, nofun⟩
  exact ⟨served, st', h, hun, m', hm', hmeasure _ _ (Filesystem.readsKeep hnone)⟩

end Ouroboros.Fsd
