import Ouroboros.Fsd.Permits

/-!
# What a path verb does to an ext2 volume

* `Made`  the volume operation of a verb;
* `serveTree_made`  a request leaves the volume, or was permitted and has made its operation.
-/

namespace Ouroboros.Fsd

open Act Option

variable {v : Ext2} {tree : Fin maxMounts}

variable {X : Type} {o : Ops X} {st : State (Filesystem X)}

def Made (u : Ext2) (verb : Verb) (p : Params) (payload : Bytes) (open_ : Option Found) (u' : Ext2) : Prop :=
  let on (f : Bytes → Ext2 → Except Error Unit × Ext2) : Prop :=
    ∃ path, pathFrom payload 0 p.p0 = some (some path) ∧ u' = (f path u).2
  match verb with
  | .npWrite | .npWriteFile => ∃ data, on fun path u => u.writeFile path data
  | .npWriteAt => ∃ data, on fun path u => u.writeAt path p.p1 data
  | .npTouch => on fun path u => u.touch path
  | .npMkdir => on fun path u => u.mkdir path
  | .npRmdir => on fun path u => u.rmdir path
  | .npRm => on fun path u => u.rm path
  | .npMv =>
    ∃ src dst, pathFrom payload 0 p.p0 = some (some src) ∧ pathFrom payload p.p0 p.p1 = some (some dst) ∧
    u' = (u.mv src dst).2
  | .npChmod => ∃ mode, on fun path u => u.chmod path mode
  | .npChown => ∃ uid gid, on fun path u => u.chown path uid gid
  | .npOpen => ∃ f kind, open_ = some f ∧ f.kind = .ok kind ∧
    (has p.p0 openTrunc = true ∧ u' = (u.writeFile f.path []).2 ∨
      has p.p0 openCreate = true ∧ kind.exists = false ∧ u' = (u.touch f.path).2)
  | .npReaddir | .npReadFile | .npRead | .npReadAt | .npStat | .npPread | .npPwrite | .npFstat
      | .npClunk | .unknown =>
    False

def LeftOr (u : Ext2) (P : Ext2 → Prop) (w : Work (Filesystem X)) : Prop :=
  ∃ u', w.fs = .ext2 u' ∧ (u' = u ∨ P u')

def OnVolume (u : Ext2) (w : Work (Filesystem X)) : Prop := w.fs = .ext2 u

def State.volume (st : State (Filesystem X)) (tree : Fin maxMounts) : Option Ext2 :=
  (st.mounts tree).bind fun m => match m.fs with
    | .ext2 v => some v
    | .other _ => none

theorem State.volume_eq_some (h : st.volume tree = some v) : ∃ m, st.mounts tree = some m ∧ m.fs = .ext2 v := by
  obtain ⟨m, hm, h⟩ := bind_eq_some_iff.1 h
  refine ⟨m, hm, ?_⟩
  split at h
  · next hfs => rw [hfs, some.inj h]
  · cases h

theorem State.volume_of {m : Mount (Filesystem X)}
    (hm : st.mounts tree = some m) (hfs : m.fs = .ext2 v) : st.volume tree = some v := by
  rw [State.volume, hm, bind_some, hfs]

section Arms
variable {u : Ext2} {P : Ext2 → Prop} {α : Type} {Q : Bytes → Work (Filesystem X) → Prop} {call : Call}
  {f : Filesystem X → Except Error Unit × Filesystem X} {g : Ext2 → Except Error Unit × Ext2}
  {len flags : Nat} {serve : Bytes → Step (Filesystem X) Bytes} {env : Env (Filesystem X)}

theorem ends_pure (a : α) : Ends (OnVolume u) (pure a : Step (Filesystem X) α) fun _ => LeftOr u P :=
  Ends.pure fun _ hw => ⟨u, hw, .inl rfl⟩

theorem ends_lift {x : Option α} {f : α → Step (Filesystem X) Bytes}
    (h : ∀ a, x = some a → Ends (OnVolume u) (f a) Q) : Ends (OnVolume u) (.lift x >>= f) Q := by
  cases x with
  | none =>
    intro w a t _ hm
    cases hm
  | some a => exact h a rfl

structure Leaves (w w' : Work (Filesystem X)) : Prop where
  volume : ∀ u, OnVolume u w → OnVolume u w'
  table : ∀ slot fid, .opened slot fid ∈ w'.table → .opened slot fid ∈ w.table

theorem leaves_of_eq {m : Step (Filesystem X) α}
    (h : ∀ w a w', m w = some (a, w') → w'.fs = w.fs ∧ w'.table = w.table) : Keeps Leaves m := by
  intro w a w' hm
  obtain ⟨hfs, htable⟩ := h w a w' hm
  exact ⟨fun u hu => hfs.trans hu, fun slot fid hmem => htable ▸ hmem⟩

theorem leaves_volume (call : Call) {f : Filesystem X → α × Filesystem X} (h : ∀ u, (f (.ext2 u)).2 = .ext2 u) :
    Keeps Leaves (volume call f) := by
  intro w a w' hm
  cases hm
  refine ⟨fun u hu => ?_, fun _ _ hmem => hmem⟩
  have hfs : w.fs = .ext2 u := hu
  show (f w.fs).2 = .ext2 u
  rw [hfs, h]

theorem leaves_arms : ArmKeeps (Filesystem.ops o) Leaves False fun op => ∀ slot fid, op ≠ .opened slot fid where
  refl _ := ⟨fun _ h => h, fun _ _ h => h⟩
  trans _ _ _ h h' :=
    ⟨fun u hu => h'.volume u (h.volume u hu), fun slot fid hmem => h.table slot fid (h'.table slot fid hmem)⟩
  stat path := leaves_volume (.stat path) fun _ => rfl
  noteSent _ := leaves_of_eq fun _ _ _ h => by cases h; exact ⟨rfl, rfl⟩
  listDir path _ := leaves_volume (.listDir path) fun _ => rfl
  readFile path _ := leaves_volume (.readFile path) fun _ => rfl
  readAt path _ _ := leaves_volume (.readAt path) fun _ => rfl
  readEach path _ _ _ := leaves_volume (.readEach path) fun _ => rfl
  change := nofun
  doFids op hop w _ w' h := by
    cases h
    refine ⟨fun _ hu => hu, fun slot fid hmem => ?_⟩
    exact (List.mem_append.1 hmem).resolve_right fun hlast => hop slot fid (List.mem_singleton.1 hlast).symm

theorem ends_after {m : Step (Filesystem X) α} {f : α → Step (Filesystem X) Bytes}
    (hm : Keeps Leaves m) (hf : ∀ a, Ends (OnVolume u) (f a) Q) : Ends (OnVolume u) (m >>= f) Q :=
  Ends.bind (fun w a w' hw h => (hm w a w' h).volume u hw) hf

theorem ends_leaves {m : Step (Filesystem X) Bytes} (hm : Keeps Leaves m) :
    Ends (OnVolume u) m fun _ => LeftOr u P := fun w a w' hw h =>
  ⟨u, (hm w a w' h).volume u hw, .inl rfl⟩

theorem ends_volume
    (hf : (f (.ext2 u)).2 = .ext2 (g u).2) (h : P (g u).2) :
    Ends (OnVolume u) (volume call f) fun _ => LeftOr u P := by
  intro w a w' hw hm
  cases hm
  refine ⟨(g u).2, ?_, .inr h⟩
  show (f w.fs).2 = _
  rw [show w.fs = .ext2 u from hw, hf]

theorem ends_change
    (hf : (f (.ext2 u)).2 = .ext2 (g u).2) (h : P (g u).2) :
    Ends (OnVolume u) (change call f) fun _ => LeftOr u P :=
  Ends.bind (ends_volume hf h) fun _ => .pure fun _ hw => hw

theorem ends_withPath {payload : Bytes}
    (h : ∀ path, pathFrom payload 0 len = some (some path) →
      Ends (OnVolume u) (serve path) fun _ => LeftOr u P) :
    Ends (OnVolume u) (withPath payload len serve) fun _ => LeftOr u P := by
  refine ends_lift fun path hpath => ?_
  cases path with
  | none => exact ends_pure _
  | some path => exact h path hpath

theorem ends_withGrant (h : ∀ data, Ends (OnVolume u) (serve data) fun _ => LeftOr u P) :
    Ends (OnVolume u) (withGrant env len serve) fun _ => LeftOr u P := by
  refine .ite (fun _ => ends_pure _) fun _ => .ite (fun _ => h _) fun _ => ?_
  cases env.copyIn len with
  | none => exact ends_pure _
  | some memory => exact h _

theorem ends_openEffect {path : Bytes} {there : Bool} (hwrite : has flags openTrunc → P (u.writeFile path []).2)
    (htouch : has flags openCreate → there = false → P (u.touch path).2) :
    Ends (OnVolume u) (openEffect (Filesystem.ops o) flags path there) fun _ => LeftOr u P := by
  refine .ite (fun htrunc => .ite (fun _ => ends_pure _) fun _ => ?_) fun _ => ?_
  · refine .bind (ends_volume (g := fun u => u.writeFile path []) rfl (hwrite htrunc)) fun r => ?_
    rcases r with e | _ <;> exact .pure fun _ hw => hw
  refine .ite (fun hcreate => ?_) fun _ => .ite (fun _ => ends_pure _) fun _ => ends_pure _
  cases there with
  | true => exact ends_pure _
  | false =>
    refine .bind (ends_volume (g := fun u => u.touch path) rfl (htouch hcreate rfl)) fun r => ?_
    rcases r with e | _ <;> exact .pure fun _ hw => hw

theorem ends_serveOpen {who : Option Caller} {open_ : Option Found}
    (hwrite : ∀ f kind, open_ = some f → f.kind = .ok kind → has flags openTrunc → P (u.writeFile f.path []).2)
    (htouch : ∀ f kind, open_ = some f → f.kind = .ok kind → has flags openCreate → kind.exists = false →
      P (u.touch f.path).2) :
    Ends (OnVolume u) (serveOpen (Filesystem.ops o) env tree who flags open_) fun _ => LeftOr u P := by
  rcases open_ with _ | ⟨path, kind⟩
  · exact ends_pure _
  rcases who with _ | opener
  · exact ends_pure _
  refine ends_after ((leaves_arms (o := o)).serving.freeFidSlot nofun) fun slot => ?_
  rcases slot with _ | slot
  · exact ends_pure _
  refine .ite (fun _ => ends_pure _) fun _ => ?_
  rcases kind with code | kind
  · exact ends_pure _
  refine .bind (ends_openEffect (hwrite _ kind rfl rfl) (htouch _ kind rfl rfl)) fun r => ?_
  rcases r with code | _
  · exact .pure fun _ hw => hw
  intro w a w' hw hm
  cases hm
  exact hw

end Arms

/-- **An arm leaves the volume, or has made the operation of its verb on it.** -/
theorem serveVerb_made {env : Env (Filesystem X)} {who : Option Caller} (u : Ext2) (verb : Verb)
    (p : Params) (payload : Bytes) (open_ : Option Found) :
    Ends (OnVolume u) (serveVerb (Filesystem.ops o) env tree who verb p payload open_)
      fun _ => LeftOr u (Made u verb p payload open_) := by
  cases verb with
  | npReaddir | npReadFile | npRead | npReadAt | npStat | npPread | npPwrite | npFstat | npClunk | unknown =>
    first
    | exact ends_leaves ((leaves_arms (o := o)).serving.serveVerb payload (.inr (.inl rfl)) nofun)
    | exact ends_pure _
  | npWrite =>
    exact ends_withPath fun path hpath => ends_withGrant fun data =>
      ends_change (g := fun u => u.writeFile path data) rfl ⟨data, path, hpath, rfl⟩
  | npWriteAt =>
    exact ends_withPath fun path hpath => ends_withGrant fun data =>
      ends_change (g := fun u => u.writeAt path p.p1 data) rfl ⟨data, path, hpath, rfl⟩
  | npTouch =>
    exact ends_withPath fun path hpath => ends_change (g := fun u => u.touch path) rfl ⟨path, hpath, rfl⟩
  | npMkdir =>
    exact ends_withPath fun path hpath => ends_change (g := fun u => u.mkdir path) rfl ⟨path, hpath, rfl⟩
  | npRmdir =>
    exact ends_withPath fun path hpath => ends_change (g := fun u => u.rmdir path) rfl ⟨path, hpath, rfl⟩
  | npRm => exact ends_withPath fun path hpath => ends_change (g := fun u => u.rm path) rfl ⟨path, hpath, rfl⟩
  | npChmod =>
    exact ends_withPath fun path hpath =>
      ends_change (g := fun u => u.chmod path (p.p1 % 2 ^ 16)) rfl ⟨_, path, hpath, rfl⟩
  | npChown =>
    exact ends_withPath fun path hpath => ends_change (g := fun u => u.chown path _ _) rfl
      ⟨_, _, path, hpath, rfl⟩
  | npWriteFile =>
    refine ends_withPath fun path hpath => .ite (fun _ => ends_pure _) fun _ => ends_lift fun stop _ => ?_
    refine .ite (fun _ => ends_pure _) fun _ => ends_lift fun data _ => ?_
    exact ends_change (g := fun u => u.writeFile path data) rfl ⟨data, path, hpath, rfl⟩
  | npMv =>
    refine ends_withPath fun src hsrc => ends_lift fun dst hdst => ?_
    rcases dst with _ | dst
    · exact ends_pure _
    refine ends_after (leaves_of_eq fun _ _ _ h => by cases h; exact ⟨rfl, rfl⟩) fun fs =>
      .ite (fun _ => ends_pure _) fun _ => ?_
    exact ends_change (g := fun u => u.mv src dst) rfl ⟨src, dst, hsrc, hdst, rfl⟩
  | npOpen =>
    refine ends_serveOpen (fun f kind hf hkind htrunc => ⟨f, kind, hf, hkind, .inl ⟨htrunc, rfl⟩⟩) ?_
    exact fun f kind hf hkind hcreate hmissing => ⟨f, kind, hf, hkind, .inr ⟨hcreate, hmissing, rfl⟩⟩

def Looked (v : Ext2) (verb : Verb) (p : Params) (payload : Bytes) (open_ : Option Found) : Prop :=
  if verb = .npOpen then
    ∃ path, pathFrom payload 0 p.p1 = some (some path) ∧ open_ = some ⟨path, kindOf (v.stat path)⟩
  else open_ = none

theorem stat_of_exists {path : Bytes} {kind : Kind} (h : kindOf (v.stat path) = .ok kind)
    (hexists : kind.exists) : ∃ found, v.resolve path = .ok found := by
  cases hstat : v.stat path with
  | ok st => exact Ext2.resolve_of_stat hstat
  | error e =>
    rw [hstat] at h
    cases e <;> cases h
    cases hexists

/-- the volume operation of a permitted request, with the creator of new files set. -/
def Done (v : Ext2) (c : Caller) (verb : Verb) (p : Params) (payload : Bytes) (v' : Ext2) : Prop :=
  ∃ open_, Looked v verb p payload open_ ∧ Permitted v c verb p payload open_ ∧
    Made (v.setCreator (c.uid % 2 ^ 16) (c.gid % 2 ^ 16)) verb p payload open_ v'

def SameVolume (v v' : Ext2) : Prop := ∃ uid gid, v' = v.setCreator uid gid

section Request
variable {env : Env (Filesystem X)} {refuses : Bool} {c : Caller} {verb : Verb} {p : Params} {payload : Bytes}
variable {w w' : Work (Filesystem X)} {reply : Bytes} {open_ : Option Found}

/-- the arm is reached: the check did not refuse, and the creator of new files is set. -/
def Reaches (o : Ops X) (env : Env (Filesystem X)) (tree : Fin maxMounts)
    (c : Caller) (v : Ext2) (verb : Verb) (p : Params) (payload : Bytes) (w : Work (Filesystem X))
    (reply : Bytes) (w' : Work (Filesystem X)) : Prop :=
  ∃ open_ t, Looked v verb p payload open_ ∧ Leaves w t ∧
    (c.uid ≠ 0 → (verb = .npMv → pathFrom payload p.p0 p.p1 ≠ none) → Permitted v c verb p payload open_) ∧
    serveVerb (Filesystem.ops o) env tree (some c) verb p payload open_
      { t with fs := .ext2 (v.setCreator (c.uid % 2 ^ 16) (c.gid % 2 ^ 16)) } = some (reply, w')

theorem Looked.valid (h : Looked v verb p payload open_) {f : Found} (hf : open_ = some f) :
    Utf8.valid f.path := by
  unfold Looked at h
  split at h
  · obtain ⟨path, hpath, hopen⟩ := h
    rw [hopen] at hf
    cases hf
    exact (pathFrom_eq_some hpath).1
  · rw [h] at hf
    cases hf

theorem serveChecked_cases (hlooked : Looked v verb p payload open_) (hw : OnVolume v w)
    (h : serveChecked (Filesystem.ops o) env refuses tree (some c) verb p payload open_ w = some (reply, w')) :
    Leaves w w' ∨ Reaches o env tree c v verb p payload w reply w' := by
  have arms := leaves_arms (o := o)
  obtain ⟨ok, t, hcheck, h⟩ := bind_eq_some h
  have ht : Leaves w t := arms.serving.checkAccess (some c) verb p payload open_ nofun w ok t hcheck
  cases ok with
  | false =>
    cases h
    exact .inl ht
  | true =>
    obtain ⟨refused, t', hrefused, h⟩ := bind_eq_some h
    have ht' : Leaves w t' :=
      arms.trans _ _ _ ht (arms.serving.refusedReadOnly refuses verb p open_ t refused t' hrefused)
    cases refused with
    | some status =>
      cases h
      exact .inl ht'
    | none =>
      obtain ⟨_, t'', hcreator, h⟩ := bind_eq_some h
      have ht'' : t'' = { t' with fs := .ext2 (v.setCreator (c.uid % 2 ^ 16) (c.gid % 2 ^ 16)) } := by
        cases hcreator
        rw [show t'.fs = .ext2 v from ht'.volume v hw]
        rfl
      refine .inr ⟨open_, t', hlooked, ht', fun hc hmv => ?_, ht'' ▸ h⟩
      -- the check said yes
      have hdecides : Decides Work.held (.ext2 v, w.held.2)
          (checkAccess (Filesystem.ops o) (some c) verb p payload open_) (Permitted v c verb p payload open_) :=
        checkAccess_decides hc verb (fun _ => hlooked.valid) hmv
      obtain ⟨b, hgives, hiff⟩ := hdecides
      obtain ⟨t₂, hrun, -⟩ := hgives w (Prod.ext hw rfl)
      rw [hcheck] at hrun
      cases hrun
      exact hiff.1 rfl

/-- **A request leaves the volume and opens no file, or was permitted and gets to its arm.** -/
theorem serveTree_cases (hw : OnVolume v w)
    (h : serveTree (Filesystem.ops o) env refuses tree (some c) verb p payload w = some (reply, w')) :
    Leaves w w' ∨ Reaches o env tree c v verb p payload w reply w' := by
  have arms := leaves_arms (o := o)
  unfold serveTree at h
  split at h
  · next hopen =>
    obtain ⟨path, t, hlift, h⟩ := bind_eq_some h
    obtain ⟨_, hpath, hpair⟩ := map_eq_some_iff.1 hlift
    cases hpair
    rcases path with _ | path
    · cases h
      exact .inl (arms.refl w)
    dsimp only at h
    split at h
    · cases h
      exact .inl (arms.refl w)
    obtain ⟨f, t, hfound, h⟩ := bind_eq_some h
    obtain ⟨early, t', hearly, h⟩ := bind_eq_some h
    have ht : Leaves w t := arms.serving.found path _ f t hfound
    have ht' : Leaves w t' :=
      arms.trans _ _ _ ht (arms.serving.openEarly (some c) p payload (some f) t early t' hearly)
    cases early with
    | some status =>
      cases h
      exact .inl ht'
    | none =>
      have hlooked : Looked v verb p payload (some f) := by
        rw [Looked, if_pos hopen]
        refine ⟨path, hpath, ?_⟩
        obtain ⟨st, t₁, hstat, hf⟩ := bind_eq_some hfound
        cases hf
        obtain ⟨t₂, hgives, -⟩ := stat_gives (o := o) (v := v) path _ (Prod.ext hw rfl)
        rw [hgives] at hstat
        cases hstat
        rfl
      rcases serveChecked_cases hlooked (ht'.volume v hw) h with hleaves | ⟨open_, t₁, hl, ht₁, hp, hverb⟩
      · exact .inl (arms.trans _ _ _ ht' hleaves)
      · exact .inr ⟨open_, t₁, hl, arms.trans _ _ _ ht' ht₁, hp, hverb⟩
  · next hopen =>
    refine serveChecked_cases ?_ hw h
    rw [Looked, if_neg hopen]

/-- **A request leaves the volume, or was permitted and has made its operation.** -/
theorem serveTree_made (hc : c.uid ≠ 0) (hw : OnVolume v w)
    (h : serveTree (Filesystem.ops o) env refuses tree (some c) verb p payload w = some (reply, w')) :
    ∃ v', w'.fs = .ext2 v' ∧ (SameVolume v v' ∨ Done v c verb p payload v') := by
  rcases serveTree_cases hw h with hleaves | ⟨open_, t, hlooked, -, hp, hverb⟩
  · exact ⟨v, hleaves.volume v hw, .inl ⟨v.creatorUid, v.creatorGid, rfl⟩⟩
  have hu : OnVolume (X := X) (v.setCreator (c.uid % 2 ^ 16) (c.gid % 2 ^ 16))
      { t with fs := .ext2 (v.setCreator (c.uid % 2 ^ 16) (c.gid % 2 ^ 16)) } := rfl
  obtain ⟨v', hv', rfl | hmade⟩ := serveVerb_made _ verb p payload open_ _ reply w' hu hverb
  · exact ⟨_, hv', .inl ⟨_, _, rfl⟩⟩
  refine ⟨v', hv', .inr ⟨open_, hlooked, hp hc ?_, hmade⟩⟩
  rintro rfl
  obtain ⟨src, dst, -, hdst, -⟩ := hmade
  rw [hdst]
  exact nofun

end Request
end Ouroboros.Fsd
