import Ouroboros.Fsd.Checks

/-!
# The arms, step by step

What holds of the single steps holds of a whole request; of the steps that change a volume it has to hold only
where the request gets to one.

* `Serving C safe writes P`  `C` holds of reading steps, of changes of the volume if `writes` holds, and of
  changes of the table that meet `P`;
* `ArmKeeps R writes P`  `R` relates the work before and after such steps: one such `C`;
* `Harmless`  what the gate lets through on a mount that refuses changes;
* `serveTree`, `serveFid`.
-/

namespace Ouroboros.Fsd

open Act Checked Checking

variable {F : Type} {ops : Ops F} {writes : Prop} {P : FidOp → Prop} {flags want n : Nat}

structure Serving (ops : Ops F) (C : (α : Type) → Step F α → Prop) (safe writes : Prop) (P : FidOp → Prop) : Prop
    extends Checking ops C safe where
  ask : ∀ {α : Type} (f : Work F → α), C α fun w => some (f w, w)
  noteSent : ∀ pieces, C Unit (noteSent pieces)
  listDir : ∀ path stop, C _ (volume (.listDir path) (ops.listDir · path stop))
  readFile : ∀ path len, C _ (volume (.readFile path) (ops.readFile · path len))
  readAt : ∀ path offset len, C _ (volume (.readAt path) (ops.readAt · path offset len))
  readEach : ∀ path offset want broke, C _ (volume (.readEach path) (ops.readEach · path offset want broke))
  change : writes → ∀ call (f : F → Except Error Unit × F), C _ (volume call f)
  doFids : ∀ op, P op → C Unit (doFids op)

structure ArmKeeps (ops : Ops F) (R : Work F → Work F → Prop) (writes : Prop) (P : FidOp → Prop) : Prop
    extends StatKeeps ops R where
  noteSent : ∀ pieces, Keeps R (noteSent pieces)
  listDir : ∀ path stop, Keeps R (volume (.listDir path) (ops.listDir · path stop))
  readFile : ∀ path len, Keeps R (volume (.readFile path) (ops.readFile · path len))
  readAt : ∀ path offset len, Keeps R (volume (.readAt path) (ops.readAt · path offset len))
  readEach : ∀ path offset want broke, Keeps R (volume (.readEach path) (ops.readEach · path offset want broke))
  change : writes → ∀ call (f : F → Except Error Unit × F), Keeps R (volume call f)
  doFids : ∀ op, P op → Keeps R (doFids op)

theorem ArmKeeps.serving {R : Work F → Work F → Prop} (h : ArmKeeps ops R writes P) :
    Serving ops (fun _ m => Keeps R m) False writes P where
  toChecking := h.checking
  ask _ w _ _ hw := by
    cases hw
    exact h.refl w
  noteSent := h.noteSent
  listDir := h.listDir
  readFile := h.readFile
  readAt := h.readAt
  readEach := h.readEach
  change := h.change
  doFids := h.doFids

/-! ## The gate -/

def Verb.reads : Verb → Bool
  | .npReaddir | .npReadFile | .npRead | .npReadAt | .npStat | .npPread | .npFstat | .npClunk => true
  | _ => false

def Harmless (verb : Verb) (p : Params) (open_ : Option Found) : Prop := verb.reads = true ∨
    verb = .npOpen ∧ ∀ f kind, open_ = some f → f.kind = .ok kind → openChanges p.p0 kind.exists = false

theorem openChanges_mono (h : openChanges flags false = false) (there : Bool) :
    openChanges flags there = false := by
  obtain ⟨hwrite, hcreate⟩ := Bool.or_eq_false_iff.1 h
  rw [Bool.not_false, Bool.and_true] at hcreate
  rw [openChanges, hwrite, hcreate, Bool.false_and, Bool.or_false]

theorem refusedReadOnly_none {verb : Verb} {p : Params} {open_ : Option Found} {w w' : Work F}
    (h : refusedReadOnly ops true verb p open_ w = some (none, w')) : Harmless verb p open_ := by
  cases verb with
  | npReaddir | npReadFile | npRead | npReadAt | npStat | npPread | npFstat | npClunk => exact .inl rfl
  | npOpen =>
    refine .inr ⟨rfl, ?_⟩
    simp only [refusedReadOnly, if_true, refusedOpen] at h
    intro f kind hf hkind
    split at h
    · next hnone => exact openChanges_mono (by simpa using hnone) kind.exists
    split at h
    · cases h
    next hexists =>
    subst hf
    obtain ⟨path, k⟩ := f
    subst hkind
    dsimp only at h
    split at h
    · next hthere =>
      rw [hthere]
      simpa using hexists
    -- a missing file is refused, whatever its parent says
    obtain ⟨parent, w₁, _, h⟩ := bind_eq_some h
    obtain ⟨st, w₂, _, h⟩ := bind_eq_some h
    cases st with
    | ok st | error e => cases h
  | _ => cases h

theorem has_of_has_or {a b : Nat} (h : has flags (a ||| b) = false) (hab : (a ||| b) &&& b = b) :
    has flags b = false := by
  simp only [has, ne_eq, decide_not, Bool.not_eq_eq_eq_not, Bool.not_false, decide_eq_true_eq] at h ⊢
  rw [← hab, ← Nat.and_assoc, h, Nat.zero_and]

def OpenedBy (env : Env F) (tree : Fin maxMounts) (who : Option Caller) (flags : Nat) (fid : Fid) : Prop :=
  ∃ c, who = some c ∧ fid.owner = env.owner ∧ fid.flags = flags ∧ fid.ownerUid = c.uid ∧
    fid.tree = tree ∧ fid.dead = false

theorem capped_le (h : capped want = some n) : n ≤ dataMax := by
  unfold capped at h
  split at h
  · cases h
  · cases h
    omega

theorem wantLen_le (h : wantLen want = some n) : n ≤ dataMax := capped_le (Option.filter_eq_some_iff.1 h).1

namespace Serving

variable {C : (α : Type) → Step F α → Prop} {safe : Prop} (h : Serving ops C safe writes P)
variable {env : Env F} {tree : Fin maxMounts} {who : Option Caller} {verb : Verb} {p : Params} {refuses : Bool}
variable {len flags : Nat} {serve : Bytes → Step F Bytes} {open_ : Option Found}
include h

/-! ## The arms that read -/

theorem withPath {payload : Bytes}
    (hs : ∀ path, pathFrom payload 0 len = some (some path) → C Bytes (serve path)) :
    C Bytes (withPath payload len serve) := by
  obtain ⟨found, hfound⟩ := pathFrom_zero payload len
  rw [Fsd.withPath, hfound]
  cases found with
  | none => exact h.pure _
  | some path => exact hs path hfound

theorem withWindow {want : Option Nat} {serve : Nat → Step F Bytes} (hle : ∀ n, want = some n → n ≤ dataMax)
    (hs : ∀ n, C Bytes (serve n)) : C Bytes (withWindow want serve) := by
  cases want with
  | none => exact h.pure _
  | some n =>
    refine h.bind (h.lift fun _ => ⟨(), if_pos ?_⟩) fun _ => hs n
    have hn := hle n rfl
    simp only [replyPayload, msgMaxLen, dataMax] at hn ⊢
    omega

theorem serveStat (path : Bytes) : C Bytes (serveStat ops path) := by
  refine h.bind (h.stat path) fun st => ?_
  cases st with
  | ok st => exact h.bind (h.lift fun _ => ⟨(), by decide⟩) fun _ => h.pure _
  | error e => exact h.pure _

theorem serveReadAt (path : Bytes) (offset want : Nat) : C Bytes (serveReadAt ops path offset want) := by
  refine h.bind (h.readAt path offset want) fun r => ?_
  cases r with
  | ok data | error e => exact h.pure _

theorem serveReaddir (path : Bytes) (start want : Nat) : C Bytes (serveReaddir ops path start want) := by
  refine h.bind (h.listDir path _) fun r => ?_
  cases r with
  | ok shown => exact ite (fun _ => h.pure _) fun _ => h.pure _
  | error e => exact h.pure _

theorem serveRead (env : Env F) (path : Bytes) (offset want : Nat) :
    C Bytes (serveRead ops env path offset want) := by
  refine h.bind (h.readEach path offset _ _) fun ⟨pieces, r⟩ => h.bind (h.noteSent pieces) fun _ => ?_
  rcases r with e | ⟨copied, _ | _⟩
  · exact h.pure _
  · exact h.pure _
  · exact h.pure _

/-! ## The arms that change -/

theorem withGrant (hs : ∀ data, C Bytes (serve data)) : C Bytes (withGrant env len serve) := by
  refine ite (fun _ => h.pure _) fun _ => ite (fun _ => hs _) fun _ => ?_
  cases env.copyIn len with
  | none => exact h.pure _
  | some memory => exact hs _

theorem changed (hw : writes) (call : Call) (f : F → Except Error Unit × F) : C Bytes (Fsd.change call f) :=
  h.bind (h.change hw call f) fun _ => h.pure _

theorem openEffect (path : Bytes) {there : Bool} (hw : writes ∨ openChanges flags there = false) :
    C (Except Nat Unit) (openEffect ops flags path there) := by
  rcases hw with hw | hquiet
  · refine ite (fun _ => ite (fun _ => h.pure _) fun _ => ?_) fun _ =>
      ite (fun _ => ite (fun _ => h.pure _) fun _ => ?_) fun _ =>
        ite (fun _ => h.pure _) fun _ => h.pure _
    all_goals
      refine h.bind (h.change hw _ _) fun r => ?_
      rcases r with e | _ <;> exact h.pure _
  · -- an open that changes nothing calls nothing
    obtain ⟨hwrite, hcreate⟩ := Bool.or_eq_false_iff.1 hquiet
    have htrunc : has flags openTrunc = false := has_of_has_or hwrite (by decide)
    rw [Fsd.openEffect, htrunc, if_neg Bool.false_ne_true]
    refine ite (fun hc => ?_) fun _ => ite (fun _ => h.pure _) fun _ => h.pure _
    rw [hc, Bool.true_and, Bool.not_eq_false'] at hcreate
    rw [if_pos hcreate]
    exact h.pure _

theorem freeFidSlot (hreap : P (.reaped env.identity)) : C (Option (Fin maxFids)) (freeFidSlot env) := by
  refine h.bind (h.ask _) fun fids => ?_
  cases firstFree fids with
  | some slot => exact h.pure _
  | none => exact h.bind (h.doFids _ hreap) fun _ => h.pure _

theorem serveOpen (hw : writes ∨ ∀ f kind, open_ = some f → f.kind = .ok kind →
    openChanges flags kind.exists = false)
    (hreap : P (.reaped env.identity))
    (hopened : ∀ slot fid, OpenedBy env tree who flags fid → P (.opened slot fid)) :
    C Bytes (serveOpen ops env tree who flags open_) := by
  rcases open_ with _ | ⟨path, kind⟩
  · exact h.pure _
  rcases who with _ | opener
  · exact h.pure _
  refine h.bind (h.freeFidSlot hreap) fun slot => ?_
  rcases slot with _ | slot
  · exact h.pure _
  refine ite (fun _ => h.pure _) fun _ => ?_
  rcases kind with code | kind
  · exact h.pure _
  refine h.bind (h.openEffect path (hw.imp_right fun hw => hw _ kind rfl rfl)) fun r => ?_
  rcases r with code | _
  · exact h.pure _
  · exact h.bind (h.doFids _ (hopened slot _ ⟨opener, rfl, rfl, rfl, rfl, rfl, rfl⟩)) fun _ => h.pure _

theorem serveVerb (payload : Bytes) (hw : writes ∨ Harmless verb p open_) (htable : verb = .npOpen →
      P (.reaped env.identity) ∧ ∀ slot fid, OpenedBy env tree who p.p0 fid → P (.opened slot fid)) :
    C Bytes (serveVerb ops env tree who verb p payload open_) := by
  have wr (hreads : verb.reads = false) (hopen : verb ≠ .npOpen) : writes := by
    refine hw.resolve_right ?_
    rintro (hr | ⟨rfl, -⟩)
    · rw [hreads] at hr
      cases hr
    · exact hopen rfl
  cases verb with
  | npReaddir =>
    exact h.withPath fun path _ => h.withWindow (fun _ => wantLen_le) fun want => h.serveReaddir path p.p2 want
  | npReadFile =>
    refine h.withPath fun path _ => h.withWindow (fun _ => wantLen_le) fun want =>
      h.bind (h.readFile path want) fun r => ?_
    rcases r with e | ⟨size, data⟩
    · exact h.pure _
    · exact h.pure _
  | npStat => exact h.withPath fun path _ => h.serveStat path
  | npRead => exact h.withPath fun path _ => h.serveRead env path p.p1 p.p2
  | npReadAt =>
    exact h.withPath fun path _ => h.withWindow (fun _ => wantLen_le) fun want => h.serveReadAt path p.p1 want
  | npPread | npPwrite | npFstat | npClunk | unknown => exact h.pure _
  | npWrite | npWriteAt => exact h.withPath fun path _ => h.withGrant fun data => h.changed (wr rfl nofun) _ _
  | npTouch | npMkdir | npRmdir | npRm | npChmod | npChown =>
    exact h.withPath fun path _ => h.changed (wr rfl nofun) _ _
  | npMv =>
    refine h.withPath fun src hsrc => ?_
    have hdst : ∃ dst, pathFrom payload p.p0 p.p1 = some dst := by
      rw [← Option.ne_none_iff_exists']
      intro hnone
      have hlen := (pathFrom_eq_some hsrc).2
      have hover := pathFrom_eq_none_iff.1 hnone
      simp only [dataMax] at hlen hover
      omega
    refine h.bind (h.lift fun _ => hdst) fun dst => ?_
    rcases dst with _ | dst
    · exact h.pure _
    refine h.bind (h.ask _) fun fs => ite (fun _ => h.pure _) fun _ => h.changed (wr rfl nofun) _ _
  | npWriteFile =>
    refine h.withPath fun path hpath => ite (fun _ => h.pure _) fun hdata => ?_
    have hlen := (pathFrom_eq_some hpath).2
    have hsum : p.p0 + p.p1 < 2 ^ 64 := by
      simp only [dataMax] at hlen hdata
      omega
    rw [add?_eq hsum, Act.lift_some_bind]
    refine ite (fun _ => h.pure _) fun hroom => ?_
    exact h.bind (h.lift fun _ => ⟨_, slice?_eq (by omega) (by omega)⟩) fun _ => h.changed (wr rfl nofun) _ _
  | npOpen =>
    obtain ⟨hreap, hopened⟩ := htable rfl
    refine h.serveOpen (hw.imp_right ?_) hreap hopened
    rintro (hr | ⟨-, hopen⟩)
    · cases hr
    · exact hopen

/-! ## A whole request -/

section Whole
variable (payload : Bytes) (hcreator : ∀ uid gid, C Unit (setCreator ops uid gid))
    (hw : refuses = false → writes)
  (htable : verb = .npOpen → P (.reaped env.identity) ∧ ∀ slot fid, OpenedBy env tree who p.p0 fid →
    P (.opened slot fid))
  (hmv : safe → verb = .npMv → ∃ dst, pathFrom payload p.p0 p.p1 = some dst)
include hcreator hw htable hmv

theorem serveChecked (open_ : Option Found) :
    C Bytes (serveChecked ops env refuses tree who verb p payload open_) := by
  refine h.bind (h.checkAccess who verb p payload open_ hmv) fun ok => ite (fun _ => ?_) fun _ => h.pure _
  refine h.bind_of (h.refusedReadOnly refuses verb p open_) ?_
  intro w refused w' hrefused
  cases refused with
  | some status => exact h.pure _
  | none =>
    refine h.bind (hcreator _ _) fun _ => h.serveVerb payload ?_ htable
    cases refuses with
    | false => exact .inl (hw rfl)
    | true => exact .inr (refusedReadOnly_none hrefused)

theorem serveTree : C Bytes (serveTree ops env refuses tree who verb p payload) := by
  refine ite (fun _ => h.bind (h.lift fun _ => pathFrom_zero payload p.p1) fun path => ?_) fun _ =>
    h.serveChecked payload hcreator hw htable hmv none
  cases path with
  | none => exact h.pure _
  | some path =>
    refine ite (fun _ => h.pure _) fun _ => h.bind (h.found path) fun f => ?_
    refine h.bind (h.openEarly who p payload (some f)) fun early => ?_
    cases early with
    | some status => exact h.pure _
    | none => exact h.serveChecked payload hcreator hw htable hmv (some f)

end Whole

theorem serveFid (f : Fid) (verb : Verb) (p : Params) (hw : refuses = false → writes) :
    C Bytes (serveFid ops env refuses f verb p) := by
  refine h.bind_of (h.refusedReadOnly refuses verb p none) ?_
  intro w refused w' hrefused
  cases refused with
  | some status => exact h.pure _
  | none =>
    refine ite (fun _ => h.pure _) fun _ => ?_
    cases verb with
    | npPread => exact h.withWindow (fun _ => capped_le) fun want => h.serveReadAt f.path p.p1 want
    | npFstat => exact h.serveStat f.path
    | npPwrite =>
      have hwrites : writes := by
        cases refuses with
        | false => exact hw rfl
        | true => simpa [Harmless, Verb.reads] using refusedReadOnly_none hrefused
      refine h.withGrant fun data => h.bind (h.change hwrites _ _) fun r => ?_
      rcases r with e | _
      · exact h.pure _
      · exact h.pure _
    | _ => exact h.pure _

end Serving
end Ouroboros.Fsd
