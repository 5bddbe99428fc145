import Ouroboros.Fsd.Ownership
import Ouroboros.Fsd.Effects
import Ouroboros.Fsd.NewFiles
import Ouroboros.Lib.Except

/-!
# Which file an open file is

A fid holds a path, and every verb on it follows the path anew.

* `serve_opened`  what an NP_OPEN that grants a fid found, was permitted and did;
* `serve_acts`  a verb on a fid acts on the inode its path leads to now;
* `fid_follows_object`  as long as the path leads to one inode in use, this is what its open has authorised;
* `rename_over_open_file`  a run in which it does not.
-/

namespace Ouroboros.Fsd

open Act List Option Filesystem Ext2 Bool Function

variable {X : Type} {o : Ops X} {env : Env (Filesystem X)} {tree : Fin maxMounts} {c : Caller} {flags : Nat}
  {path : Bytes} {slot : Fin maxFids} {fid : Fid}
variable {u v v' : Ext2} {w w' : Work (Filesystem X)} {reply req : Bytes} {st : State (Filesystem X)}
  {out : Outcome (Filesystem X)} {n : Ext2.Inode} {i : Nat} {verb : Verb}
variable {call : Call} {r : Except Nat Unit} {kind : Kind} {refuses stale : Bool} {p : Params}
    {offset : Nat} {data : Bytes}

/-! ## What NP_OPEN has done where it grants a fid -/

def OpenMade (u : Ext2) (path : Bytes) (there : Bool) (u' : Ext2) : Prop :=
  u.writeFile path [] = (.ok (), u') ∨ (there = false ∧ u.touch path = (.ok (), u')) ∨ (there = true ∧ u' = u)

/-- what a step of NP_OPEN that succeeds has made of the volume; it never touches the table. -/
def Effect (P : Ext2 → Prop) (w : Work (Filesystem X)) (r : Except Nat Unit) (w' : Work (Filesystem X)) : Prop :=
  w'.table = w.table ∧ (r = .ok () → ∃ u', OnVolume u' w' ∧ P u')

theorem told_effect {P : Ext2 → Prop} {f : Filesystem X → Except Error Unit × Filesystem X}
    {g : Ext2 → Except Error Unit × Ext2} (hf : f (.ext2 u) = ((g u).1, .ext2 (g u).2))
    (hmade : ∀ u', g u = (.ok (), u') → P u') (hw : OnVolume u w) (h : (do match ← volume call f with
      | .ok () => pure (.ok ())
      | .error e => pure (.error (errorCode e)) : Step (Filesystem X) (Except Nat Unit)) w = some (r, w')) :
    Effect P w r w' := by
  have hfs : f w.fs = ((g u).1, .ext2 (g u).2) := by rw [show w.fs = .ext2 u from hw, hf]
  obtain ⟨a, t, hcall, h⟩ := bind_eq_some h
  obtain ⟨ha, ht⟩ := Prod.mk.inj (some.inj hcall)
  rw [hfs] at ha ht
  subst ha ht
  rcases hg : g u with ⟨e | ⟨⟩, u'⟩
  · rw [hg] at h
    cases h
    exact ⟨rfl, nofun⟩
  rw [hg] at h
  cases h
  exact ⟨rfl, fun _ => ⟨u', rfl, hmade u' hg⟩⟩

theorem openEffect_effect {there : Bool} (hw : OnVolume u w)
    (h : openEffect (ops o) flags path there w = some (r, w')) :
    Effect (OpenMade u path there) w r w' := by
  have refused {code : Nat} (h : some (Except.error code, w) = some (r, w')) :
      Effect (OpenMade u path there) w r w' := by
    cases h
    exact ⟨rfl, nofun⟩
  have granted (hthere : there) (h : some (Except.ok (), w) = some (r, w')) :
      Effect (OpenMade u path there) w r w' := by
    cases h
    exact ⟨rfl, fun _ => ⟨u, hw, .inr (.inr ⟨hthere, rfl⟩)⟩⟩
  unfold openEffect at h
  split at h
  · split at h
    · exact refused h
    · exact told_effect (g := fun u => u.writeFile path []) rfl (fun u' hu' => .inl hu') hw h
  split at h
  · split at h
    · next hthere => exact granted hthere h
    · next hthere =>
      exact told_effect (g := fun u => u.touch path) rfl
        (fun u' hu' => .inr (.inl ⟨eq_false_iff.2 hthere, hu'⟩)) hw h
  split at h
  · next hthere => exact granted hthere h
  · exact refused h

theorem serveOpen_opened {kind : Except Nat Kind}
    (h : serveOpen (ops o) env tree (some c) flags (some ⟨path, kind⟩) w = some (reply, w'))
    (hw : OnVolume u w) (hnone : FidOp.opened slot fid ∉ w.table) (hmem : FidOp.opened slot fid ∈ w'.table) :
    ∃ k u', kind = .ok k ∧ fid = ⟨env.owner, flags, c.uid, tree, false, path⟩ ∧ OnVolume u' w' ∧
      OpenMade u path k.exists u' := by
  obtain ⟨free, t, hfree, h⟩ := bind_eq_some h
  have hleaves : Leaves w t := (leaves_arms (o := o)).serving.freeFidSlot nofun w free t hfree
  -- nothing was opened yet
  have hopened {t' : Work (Filesystem X)} (htable : t'.table = t.table) : FidOp.opened slot fid ∉ t'.table := by
    rw [htable]
    exact fun hmem => hnone (hleaves.table slot fid hmem)
  rcases free with _ | free
  · cases h
    exact absurd hmem (hopened rfl)
  dsimp only at h
  split at h
  · cases h
    exact absurd hmem (hopened rfl)
  rcases kind with code | k
  · cases h
    exact absurd hmem (hopened rfl)
  obtain ⟨r, t', heffect, h⟩ := bind_eq_some h
  obtain ⟨htable, hmade⟩ := openEffect_effect (hleaves.volume u hw) heffect
  rcases r with code | _
  · cases h
    exact absurd hmem (hopened htable)
  obtain ⟨u', hu', hmade⟩ := hmade rfl
  cases h
  have hnew := (mem_append.1 hmem).resolve_left (hopened htable)
  cases mem_singleton.1 hnew
  exact ⟨k, u', rfl, rfl, hu', hmade⟩

/-- the open of a fid: what `stat` said of its path, that the opener was permitted, and what was made. -/
def Opening (v : Ext2) (c : Caller) (fid : Fid) (v' : Ext2) : Prop :=
  ∃ kind, kindOf (v.stat fid.path) = .ok kind ∧ (c.uid ≠ 0 → OpenPermitted v c fid.flags ⟨fid.path, .ok kind⟩) ∧
    OpenMade (v.setCreator (c.uid % 2 ^ 16) (c.gid % 2 ^ 16)) fid.path kind.exists v'

theorem serveTree_opened {payload : Bytes}
    (h : serveTree (ops o) env refuses tree (some c) .npOpen p payload w = some (reply, w'))
    (hw : OnVolume v w) (hnone : FidOp.opened slot fid ∉ w.table) (hmem : FidOp.opened slot fid ∈ w'.table) :
    ∃ v', OnVolume v' w' ∧ Opening v c fid v' := by
  rcases serveTree_cases hw h with hleaves | ⟨open_, t, hlooked, hleaves, hp, hverb⟩
  · exact absurd (hleaves.table slot fid hmem) hnone
  obtain ⟨path, hpath, rfl⟩ := hlooked
  obtain ⟨k, v', hkind, rfl, hv', hmade⟩ := serveOpen_opened hverb rfl
    (fun hmem => hnone (hleaves.table slot fid hmem)) hmem
  refine ⟨v', hv', k, hkind, fun hc => ?_, hmade⟩
  have hopen := hp hc (fun h => absurd h (by decide)) _ rfl
  rwa [hkind] at hopen

theorem handle_opened (h : handle (ops o) env st req = some out)
    (hmem : FidOp.opened slot fid ∈ out.table) (hv : st.volume fid.tree = some v) :
    ∃ c v', effectiveCaller env (word req 0) req = some (some c) ∧ fid.ownerUid = c.uid ∧
      out.state.volume fid.tree = some v' ∧ Opening v c fid v' := by
  obtain ⟨hverb, -, -, ⟨c, hwho, huid⟩, htree, -⟩ : Opens env req fid := (handle_tabled h).2 _ hmem
  obtain ⟨m, hm, hfs⟩ := State.volume_eq_some hv
  obtain ⟨-, heq⟩ | ⟨who, hwho', ⟨-, -, heq⟩ | ⟨hno, -⟩⟩ := handle_cases (ops o) env st req
  · rw [heq] at h
    cases h
    cases hmem
  · rw [hwho] at hwho'
    cases hwho'
    rw [heq, hverb, dispatch_path htree.symm rfl hm] at h
    obtain ⟨reply, w, hrun, rfl⟩ := onTree_eq_some h
    obtain ⟨v', hv', hopening⟩ := serveTree_opened hrun hfs not_mem_nil hmem
    exact ⟨c, v', hwho, huid, State.volume_of (update_self ..) hv', hopening⟩
  · refine absurd (verbOf_isVerb ?_) hno
    rw [hverb]
    decide

/-- **A turn that writes an entry to the table has opened its path so.** -/
theorem serve_opened (h : serve (ops o) env st req stale = some out)
    (hmem : FidOp.opened slot fid ∈ out.table) (hv : st.volume fid.tree = some v) :
    ∃ c v', effectiveCaller env (word req 0) req = some (some c) ∧ fid.ownerUid = c.uid ∧
      out.state.volume fid.tree = some v' ∧ Opening v c fid v' := by
  obtain ⟨out', hhandle, rfl | ⟨i, -, -, rfl⟩⟩ := serve_eq_some h
  · exact handle_opened hhandle hmem hv
  have hmem' : FidOp.opened slot fid ∈ out'.table :=
    (mem_append.1 hmem).resolve_right fun hlast => nomatch mem_singleton.1 hlast
  -- the table alone is changed after it
  exact (handle_opened hhandle hmem' hv :)

/-! ## The rights of the opener -/

def Verb.right : Verb → Nat
  | .npPwrite => permW
  | _ => permR

theorem modeAllows_newFile (hperm : n.perm = Ext2.newFilePerm) (huid : n.uid = c.uid % 2 ^ 16) :
    modeAllows n.fileMode c permR ∧ (modeAllows n.fileMode c permW ↔ c.uid < 2 ^ 16) := by
  obtain ⟨t, ht⟩ : ∃ t, n.mode = t * 0x1000 + 0o644 := by
    obtain ⟨perm, uid, gid, links, size | ⟨ft, bytes⟩⟩ := n
    · exact ⟨4, congrArg (4 * 0x1000 + ·) hperm⟩
    · exact ⟨ft.bits, congrArg ((ft.bits : Nat) * 0x1000 + ·) hperm⟩
  obtain ⟨howner, hgroup, hother⟩ :
      n.fileMode.mode / 64 % 8 = 6 ∧ n.fileMode.mode / 8 % 8 = 4 ∧ n.fileMode.mode % 8 = 4 := by
    rw [show n.fileMode.mode = t * 0x1000 + 0o644 from ht]
    omega
  have hmine : c.uid = n.fileMode.uid ↔ c.uid < 2 ^ 16 := by
    rw [show n.fileMode.uid = c.uid % 2 ^ 16 from huid]
    omega
  unfold modeAllows
  by_cases hroot : c.uid = 0
  · rw [if_pos hroot, if_pos hroot, hroot]
    decide
  rw [if_neg hroot, if_neg hroot, howner, hgroup, hother]
  by_cases hlt : c.uid < 2 ^ 16
  · rw [if_pos (hmine.2 hlt)]
    exact ⟨rfl, fun _ => hlt, fun _ => rfl⟩
  · rw [if_neg (mt hmine.1 hlt), ite_self]
    exact ⟨rfl, nofun, fun h => absurd h hlt⟩

theorem stat_of_missing (h : kindOf (v.stat path) = .ok kind) (hmissing : kind.exists = false) :
    v.stat path = .error .notFound := by
  cases hstat : v.stat path with
  | ok st =>
    rw [hstat] at h
    cases h
    split at hmissing <;> cases hmissing
  | error e =>
    rw [hstat] at h
    cases e <;> first | rfl | cases h

theorem OpenPermitted.right (h : OpenPermitted v c flags ⟨path, .ok kind⟩)
    (hexists : kind.exists) (hres : v.resolve path = .ok (i, n))
    (hverb : verb = .npPread ∨ verb = .npPwrite) (hallows : fidAllows verb flags) :
    modeAllows n.fileMode c verb.right := by
  rcases hverb with rfl | rfl
  · exact (lets_iff hres permR).1 (h.1 hallows).2
  have hchanges : openChanges flags kind.exists := by
    cases hw : has flags (openWrite ||| openTrunc) with
    | true => rw [openChanges, hw, Bool.true_or]
    | false =>
      rw [Nat.or_comm] at hw
      rw [fidAllows, has_of_has_or hw (by decide)] at hallows
      cases hallows
  have hpath := h.2 hchanges
  rw [if_pos hexists] at hpath
  exact (lets_iff hres permW).1 hpath.2

/-- **The opener has the right a verb on the fid stands for where the path led right after the open**; but a file
that the open made is writable only to one whose number fits the inode. -/
theorem Opening.right (h : Opening v c fid v')
    (hres : v'.resolve fid.path = .ok (i, n)) (hverb : verb = .npPread ∨ verb = .npPwrite)
    (hallows : fidAllows verb fid.flags) :
    modeAllows n.fileMode c verb.right ↔
      (verb = .npPwrite → v.stat fid.path = .error .notFound → c.uid < 2 ^ 16) := by
  obtain ⟨kind, hkind, hp, hmade⟩ := h
  -- who creates files is nothing to where paths lead
  have hsame : (v.setCreator (c.uid % 2 ^ 16) (c.gid % 2 ^ 16)).resolve fid.path = v.resolve fid.path := rfl
  cases hexists : kind.exists with
  | true =>
    obtain ⟨⟨i₀, n₀⟩, hfound⟩ := stat_of_exists hkind hexists
    have hmode : n.fileMode = n₀.fileMode := by
      rcases hmade with hwrite | ⟨hmissing, -⟩ | ⟨-, rfl⟩
      · obtain ⟨n', hres', hmode⟩ := writeFile_existing (hsame.trans hfound) hwrite
        cases hres.symm.trans hres'
        exact hmode
      · rw [hexists] at hmissing
        cases hmissing
      · cases hres.symm.trans hfound
        rfl
    have hright : modeAllows n.fileMode c verb.right := by
      rw [hmode]
      by_cases hroot : c.uid = 0
      · rw [modeAllows, if_pos hroot]
      · exact (hp hroot).right hexists hfound hverb hallows
    refine ⟨fun _ _ hmissing => ?_, fun _ => hright⟩
    rw [hmissing] at hkind
    cases hkind
    cases hexists
  | false =>
    have hstat : v.stat fid.path = .error .notFound := stat_of_missing hkind hexists
    have hnone : ∀ found, (v.setCreator (c.uid % 2 ^ 16) (c.gid % 2 ^ 16)).resolve fid.path ≠ .ok found := by
      rintro ⟨j, m⟩ hfound
      rw [stat_of_resolve (hsame.symm.trans hfound)] at hstat
      cases hstat
    obtain ⟨hperm, huid, -⟩ : n.perm = newFilePerm ∧ n.uid = c.uid % 2 ^ 16 ∧ n.gid = c.gid % 2 ^ 16 := by
      rcases hmade with hwrite | ⟨-, htouch⟩ | ⟨hthere, -⟩
      · exact writeFile_missing hnone hwrite hres
      · exact touch_missing hnone htouch hres
      · rw [hexists] at hthere
        cases hthere
    obtain ⟨hread, hwrite⟩ := modeAllows_newFile hperm huid
    rcases hverb with rfl | rfl
    · exact ⟨nofun, fun _ => hread⟩
    · exact hwrite.trans ⟨fun hlt _ _ => hlt, fun h => h rfl hstat⟩

/-! ## What a verb on a fid acts on -/

def ReadsFrom (v : Ext2) (p : Params) (reply : Bytes) (i : Nat) : Prop :=
  ∃ data, data ≠ [] ∧ reply = dataReply data.length data ∧ data = Ext2.readRange (v.inodes i) p.p1 p.p2

def WritesTo (v v' : Ext2) (i : Nat) : Prop :=
  (v'.inodes i).bytes ≠ (v.inodes i).bytes ∧ ∀ j, j ≠ i → v'.inodes j = v.inodes j

/-- a request on a fid that returned bytes of a file or changed some. -/
def Acts (v : Ext2) (verb : Verb) (reply : Bytes) (v' : Ext2) : Prop :=
  verb = .npPread ∧ replyPayload < reply.length ∨ verb = .npPwrite ∧
    ∃ j, (v'.inodes j).bytes ≠ (v.inodes j).bytes

def ActsOn (v : Ext2) (verb : Verb) (p : Params) (reply : Bytes) (v' : Ext2) (i : Nat) : Prop :=
  verb = .npPread ∧ ReadsFrom v p reply i ∨ verb = .npPwrite ∧ WritesTo v v' i

theorem not_acts (v : Ext2) (verb : Verb) (status : Nat) : ¬ Acts v verb (statusReply status) v := by
  rintro (⟨-, hlen⟩ | ⟨-, j, hj⟩)
  · rw [statusReply, Buffer.length_le] at hlen
    exact absurd hlen (by decide)
  · exact hj rfl

theorem readAt_eq_ok {len : Nat} (h : v.readAt path offset len = .ok data) :
    ∃ i, v.resolve path = .ok (i, v.inodes i) ∧ data = Ext2.readRange (v.inodes i) offset len := by
  obtain ⟨⟨i, n⟩, hfind, hdata⟩ := except_bind_eq_ok h
  obtain ⟨⟨j, m⟩, hres, hreg⟩ := except_bind_eq_ok hfind
  dsimp only at hreg
  split at hreg
  · cases hreg
  cases hreg
  cases hdata
  obtain rfl := (resolve_inode hres).2
  exact ⟨i, hres, rfl⟩

theorem writeAt_writes (hv' : (v.writeAt path offset data).2 = v') {j : Nat}
    (h : (v'.inodes j).bytes ≠ (v.inodes j).bytes) :
    ∃ i, v.resolve path = .ok (i, v.inodes i) ∧ WritesTo v v' i := by
  have hchanged : v ≠ v' := fun heq => h (by rw [heq])
  unfold writeAt at hv'
  split at hv'
  · exact absurd hv' hchanged
  split at hv'
  · exact absurd hv' hchanged
  next i n hres =>
  split at hv'
  · exact absurd hv' hchanged
  split at hv'
  · exact absurd hv' hchanged
  obtain rfl := (resolve_inode hres).2
  have hothers : ∀ k, k ≠ i → v'.inodes k = v.inodes k := by
    intro k hk
    rw [← hv']
    exact update_of_ne hk ..
  have hj : j = i := by
    by_contra hj
    rw [hothers j hj] at h
    exact h rfl
  exact ⟨i, hres, hj ▸ h, hothers⟩

theorem volume_on {α : Type} {f : Filesystem X → α × Filesystem X} {a : α}
    (hw : OnVolume v w) (h : volume call f w = some (a, w')) :
    a = (f (.ext2 v)).1 ∧ w'.fs = (f (.ext2 v)).2 := by
  rw [← show w.fs = .ext2 v from hw]
  cases h
  exact ⟨rfl, rfl⟩

theorem serveFid_acts (h : serveFid (ops o) env refuses fid verb p w = some (reply, w'))
    (hw : OnVolume v w) (hw' : OnVolume v' w') (hacts : Acts v verb reply v') :
    ∃ i, v.resolve fid.path = .ok (i, v.inodes i) ∧ ActsOn v verb p reply v' i := by
  have idle {t : Work (Filesystem X)} {status : Nat} (ht : OnVolume v t)
      (h : some (statusReply status, t) = some (reply, w')) :
      False := by
    cases h
    cases ht.symm.trans hw'
    exact not_acts v verb status hacts
  obtain ⟨refused, t, hrefused, h⟩ := bind_eq_some h
  have ht : OnVolume v t :=
    ((leaves_arms (o := o)).serving.refusedReadOnly refuses verb p none w refused t hrefused).volume v hw
  rcases refused with _ | status
  swap
  · exact (idle ht h).elim
  dsimp only at h
  split at h
  · exact (idle ht h).elim
  rcases hacts with ⟨rfl, hlen⟩ | ⟨rfl, j, hj⟩
  · cases hwant : capped p.p2 with
    | none =>
      rw [hwant] at h
      exact (idle ht h).elim
    | some want =>
      rw [hwant] at h
      obtain ⟨_, t₁, hroom, h⟩ := bind_eq_some h
      obtain ⟨_, -, hpair⟩ := map_eq_some_iff.1 hroom
      cases hpair
      obtain ⟨r, t₂, hread, h⟩ := bind_eq_some h
      obtain ⟨hr, ht₂⟩ := volume_on ht hread
      rcases r with e | data
      · exact (idle ht₂ h).elim
      cases h
      obtain ⟨i, hres, rfl⟩ := readAt_eq_ok hr.symm
      refine ⟨i, hres, .inl ⟨rfl, _, ?_, rfl, ?_⟩⟩
      · intro hnil
        rw [hnil] at hlen
        exact absurd hlen (by decide)
      · rw [some.inj (ite_none_left_eq_some.1 hwant).2]
  · -- a write
    have written {data : Bytes} (h : (do
        match ← volume (.writeAt fid.path) ((ops o).writeAt · fid.path p.p1 data) with
        | .ok () => pure (statusReply p.p2)
        | .error e => pure (statusReply (errorCode e)) : Step (Filesystem X) Bytes) t = some (reply, w')) :
        (v.writeAt fid.path p.p1 data).2 = v' := by
      obtain ⟨r, t₁, hcall, h⟩ := bind_eq_some h
      obtain ⟨-, ht₁⟩ := volume_on ht hcall
      have hsame : w' = t₁ := by
        rcases r with e | _ <;> exact (Prod.mk.inj (some.inj h)).2.symm
      rw [hsame] at hw'
      exact ext2.inj (ht₁.symm.trans hw')
    have hwrote : ∃ data, (v.writeAt fid.path p.p1 data).2 = v' := by
      dsimp only [withGrant] at h
      split at h
      · exact (idle ht h).elim
      split at h
      · exact ⟨_, written h⟩
      cases hcopy : env.copyIn p.p2 with
      | none =>
        rw [hcopy] at h
        exact (idle ht h).elim
      | some memory =>
        rw [hcopy] at h
        exact ⟨_, written h⟩
    obtain ⟨data, hv'⟩ := hwrote
    obtain ⟨i, hres, hwrites⟩ := writeAt_writes hv' hj
    exact ⟨i, hres, .inr ⟨rfl, hwrites⟩⟩

theorem Fid.Same.eq {f g : Fid} (h : f.Same g) (hdead : f.dead = g.dead) : f = g := by
  obtain ⟨howner, hflags, huid, htree, hpath⟩ := h
  cases f
  cases g
  congr

theorem serve_acts (h : serve (ops o) env st req stale = some out)
    (hslot : (params req).p0 = slot + fidBase) (hfid : st.fids slot = some fid)
    (hv : st.volume fid.tree = some v) (hv' : out.state.volume fid.tree = some v')
    (hacts : Acts v (verbOf req) out.reply v') : fid.dead = false ∧ fidAllows (verbOf req) fid.flags ∧
      ∃ i, v.resolve fid.path = .ok (i, v.inodes i) ∧ ActsOn v (verbOf req) (params req) out.reply v' i := by
  have hverb : verbOf req = .npPread ∨ verbOf req = .npPwrite := hacts.imp And.left And.left
  have idle {status : Nat} (h : out = ⟨statusReply status, st, [], [], []⟩) : False := by
    subst h
    cases hv.symm.trans hv'
    exact not_acts v _ status hacts
  obtain ⟨out', hhandle, rfl | ⟨_, -, hforget, -⟩⟩ := serve_eq_some h
  swap
  · have hopen := forgetUnheardFid_eq_some hforget
    rcases hverb with hverb | hverb <;> cases hopen.symm.trans hverb
  obtain ⟨-, heq⟩ | ⟨who, -, ⟨-, -, heq⟩ | ⟨hno, -⟩⟩ := handle_cases (ops o) env st req
  · exact (idle (some.inj (heq.symm.trans hhandle)).symm).elim
  · have hfidVerb : verbOf req = .npPread ∨ verbOf req = .npPwrite ∨ verbOf req = .npFstat ∨
        verbOf req = .npClunk :=
      hverb.imp_right .inl
    rw [heq, dispatch, if_pos hfidVerb] at hhandle
    obtain ⟨status, hidle⟩ | ⟨slot', f, hown, -, ⟨hclunk, -⟩ | ⟨-, hlive, hallows, m, hm, htree⟩⟩ :=
      handleFidOp_cases hhandle
    · exact (idle hidle).elim
    · rcases hverb with hverb | hverb <;> cases hclunk.symm.trans hverb
    obtain ⟨hnumber, hused, -⟩ := ownFid_eq_some hown
    obtain rfl : slot' = slot := Fin.ext (by omega)
    cases hfid.symm.trans hused
    obtain ⟨reply, w, hrun, rfl⟩ := onTree_eq_some htree
    obtain ⟨m', hm', hfs⟩ := State.volume_eq_some hv
    cases hm.symm.trans hm'
    obtain ⟨m'', hm'', hfs'⟩ := State.volume_eq_some hv'
    cases (update_self ..).symm.trans hm''
    exact ⟨hlive, hallows, serveFid_acts hrun hfs hfs' hacts⟩
  · refine absurd (verbOf_isVerb ?_) hno
    rcases hverb with hverb | hverb <;> rw [hverb] <;> decide

/-! ## Runs -/

variable {served since : List (Served (Filesystem X))} {opener : Served (Filesystem X)}
variable {st' : State (Filesystem X)} {turns : List (Turn (Filesystem X))}

/-- the turn that opened a fid, in a run, and the turns since, none of which ended it. -/
def OpenedIn (served : List (Served (Filesystem X))) (slot : Fin maxFids)
    (fid : Fid) (opener : Served (Filesystem X)) (since : List (Served (Filesystem X))) : Prop :=
  (∃ before, served = before ++ opener :: since) ∧ FidOp.opened slot fid ∈ opener.out.table ∧
    ∀ e ∈ tableOf since, ¬ e.2.Takes slot fid ∧ ¬ e.2.Empties fid.tree

theorem tableOf_split {s : Served (Filesystem X)}
    {op : FidOp} {before after : List (Served (Filesystem X) × FidOp)}
    (h : tableOf served = before ++ (s, op) :: after) :
    ∃ pre since, served = pre ++ s :: since ∧ op ∈ s.out.table ∧ ∀ e ∈ tableOf since, e ∈ after := by
  induction served generalizing before with
  | nil => exact absurd h.symm (append_ne_nil_of_right_ne_nil _ (cons_ne_nil _ _))
  | cons x rest ih =>
    have later {before' : List (Served (Filesystem X) × FidOp)}
        (h : tableOf rest = before' ++ (s, op) :: after) :
        ∃ pre since, x :: rest = pre ++ s :: since ∧ op ∈ s.out.table ∧ ∀ e ∈ tableOf since, e ∈ after := by
      obtain ⟨pre, since, rfl, hop, hafter⟩ := ih h
      exact ⟨x :: pre, since, rfl, hop, hafter⟩
    rw [tableOf, flatMap_cons] at h
    rcases append_eq_append_iff.1 h with ⟨before', -, hrest⟩ | ⟨part, hpart, hrest⟩
    · exact later hrest
    cases part with
    | nil => exact @later [] hrest.symm
    | cons e part =>
      obtain ⟨rfl, rfl⟩ := cons.inj hrest
      have hmem : (s, op) ∈ x.out.table.map (x, ·) := by
        rw [hpart]
        exact mem_append_right _ mem_cons_self
      obtain ⟨op', hop, heq⟩ := mem_map.1 hmem
      cases heq
      exact ⟨[], rest, rfl, hop, fun e he => mem_append_right _ he⟩

/-- the path of the fid led to this inode of an ext2 volume right after the open. -/
def LedTo (opener : Served (Filesystem X)) (fid : Fid) (i : Nat) (n : Ext2.Inode) : Prop :=
  ∃ v v', opener.before.volume fid.tree = some v ∧ opener.out.state.volume fid.tree = some v' ∧
    v'.resolve fid.path = .ok (i, n)

/-- the open authorised the inode: its path led there, and the opener had the right. -/
def AuthorisedBy (opener : Served (Filesystem X)) (fid : Fid) (right i : Nat) : Prop :=
  ∃ c n, effectiveCaller opener.turn.env (word opener.turn.req 0) opener.turn.req = some (some c) ∧
    LedTo opener fid i n ∧
    modeAllows n.fileMode c right = true

def MadeBy (opener : Served (Filesystem X)) (fid : Fid) : Prop :=
  ∃ v, opener.before.volume fid.tree = some v ∧ v.stat fid.path = .error .notFound

/-- a file that the open made is written by a user whose number fits the inode. -/
def Fits (opener : Served (Filesystem X)) (fid : Fid) (verb : Verb) : Prop :=
  verb = .npPwrite → MadeBy opener fid → fid.ownerUid < 2 ^ 16

/-- opened on an ext2 volume, the path has led to this inode in every state since, and the inode has been in
use. -/
def Stays (opener : Served (Filesystem X)) (since : List (Served (Filesystem X))) (fid : Fid) (i : Nat) : Prop :=
  (∃ v, opener.before.volume fid.tree = some v) ∧ ∀ s ∈ opener :: since, ∃ v n,
    s.out.state.volume fid.tree = some v ∧ v.resolve fid.path = .ok (i, n) ∧ v.used i = true

/-- the right of the opener on an inode its path led to right after the open. -/
theorem authorisedBy_iff
    (hserve : serve (ops o) opener.turn.env opener.before opener.turn.req opener.turn.stale =
      some opener.out)
    (hop : FidOp.opened slot fid ∈ opener.out.table) (hled : LedTo opener fid i n)
    (hverb : verb = .npPread ∨ verb = .npPwrite) (hallows : fidAllows verb fid.flags) :
    AuthorisedBy opener fid verb.right i ↔ Fits opener fid verb := by
  obtain ⟨v, v', hv, hv', hres⟩ := id hled
  obtain ⟨c, v'', hwho, huid, hv'', hopening⟩ := serve_opened hserve hop hv
  cases hv'.symm.trans hv''
  have hmade : MadeBy opener fid ↔ v.stat fid.path = .error .notFound := by
    refine ⟨?_, fun hstat => ⟨v, hv, hstat⟩⟩
    rintro ⟨v₀, hv₀, hstat⟩
    cases hv.symm.trans hv₀
    exact hstat
  have hright : modeAllows n.fileMode c verb.right ↔ Fits opener fid verb := by
    rw [Fits, hmade, huid]
    exact hopening.right hres hverb hallows
  constructor
  · rintro ⟨c', n', hwho', ⟨-, v₁, -, hv₁, hres'⟩, hmode⟩
    cases hwho.symm.trans hwho'
    cases hv'.symm.trans hv₁
    cases hres.symm.trans hres'
    exact hright.1 hmode
  · exact fun hfits => ⟨c, n, hwho, hled, hright.2 hfits⟩

/-- **A verb on a fid that returns bytes or changes some acts on the inode that the fid's path leads to now.
If the path has led there in every state since the open, and the inode was in use all along, then the open has
authorised it** (a file that the open made may be written only by a user whose number fits the inode). -/
theorem fid_follows_object (turns : List (Turn (Filesystem X))) (st st' : State (Filesystem X))
    (hst : ∀ i, st.fids i = none) (served : List (Served (Filesystem X)))
    (hrun : run (ops o) st turns = some (served, st')) (turn : Turn (Filesystem X))
    (out : Outcome (Filesystem X)) (h : serve (ops o) turn.env st' turn.req turn.stale = some out)
    (slot : Fin maxFids) (fid : Fid) (hslot : (params turn.req).p0 = slot + fidBase)
    (hfid : st'.fids slot = some fid) (v v' : Ext2) (hv : st'.volume fid.tree = some v)
    (hv' : out.state.volume fid.tree = some v') (hacts : Acts v (verbOf turn.req) out.reply v') :
    ∃ opener since i, OpenedIn served slot fid opener since ∧ v.resolve fid.path = .ok (i, v.inodes i) ∧
      ActsOn v (verbOf turn.req) (params turn.req) out.reply v' i ∧
      (Stays opener since fid i →
        (AuthorisedBy opener fid (verbOf turn.req).right i ↔ Fits opener fid (verbOf turn.req))) := by
  have hverb : verbOf turn.req = .npPread ∨ verbOf turn.req = .npPwrite := hacts.imp And.left And.left
  obtain ⟨hlive, hallows, i, hres, hon⟩ := serve_acts h hslot hfid hv hv' hacts
  obtain ⟨fid', hsame, before, opener, after, hlog, hopens, hafter⟩ := used_granted hst hrun hfid hlive
  obtain rfl : fid = fid' := hsame.eq (hlive.trans hopens.live.symm)
  obtain ⟨pre, since, hserved, hop, hsince⟩ := tableOf_split hlog
  have hends : ∀ e ∈ tableOf since, ¬ e.2.Takes slot fid ∧ ¬ e.2.Empties fid.tree :=
    fun e he => hafter e (hsince e he)
  rw [hserved] at hrun
  refine ⟨opener, since, i, ⟨⟨pre, hserved⟩, hop, hends⟩, hres, hon, fun hstays => ?_⟩
  obtain ⟨⟨u, hu⟩, hall⟩ := hstays
  obtain ⟨u', n, hu', hled, -⟩ := hall opener mem_cons_self
  have hserve := run_served hrun opener (mem_append_right _ mem_cons_self)
  exact authorisedBy_iff hserve hop ⟨u, u', hu, hu', hled⟩ hverb hallows

def firstSlot : Fin maxFids := ⟨0, by decide⟩

theorem run_two {ops : Ops (Filesystem X)} {a b : Turn (Filesystem X)} {out₁ out₂ : Outcome (Filesystem X)}
    (h₁ : serve ops a.env st a.req a.stale = some out₁)
    (h₂ : serve ops b.env out₁.state b.req b.stale = some out₂) :
    run ops st [a, b] = some ([⟨a, st, out₁⟩, ⟨b, out₁.state, out₂⟩], out₂.state) := by
  simp only [run, h₁, h₂, Option.bind_eq_bind, Option.bind_some]
  rfl

theorem OpenedIn.first {s₁ s₂ : Served (Filesystem X)} (h : OpenedIn [s₁, s₂] slot fid opener since)
    (hnone : s₂.out.table = []) : opener = s₁ ∧ since = [s₂] := by
  obtain ⟨⟨before, hserved⟩, hop, -⟩ := h
  rcases before with _ | ⟨a, _ | ⟨b, before⟩⟩
  · obtain ⟨hfirst, hrest⟩ := cons.inj hserved
    exact ⟨hfirst.symm, hrest.symm⟩
  · obtain ⟨-, hrest⟩ := cons.inj hserved
    obtain ⟨hsecond, -⟩ := cons.inj hrest
    rw [← hsecond, hnone] at hop
    cases hop
  · obtain ⟨-, hrest⟩ := cons.inj hserved
    obtain ⟨-, hnil⟩ := cons.inj hrest
    exact absurd hnil.symm (append_ne_nil_of_right_ne_nil _ (cons_ne_nil _ _))

def leadsTo (st : State (Filesystem X)) (tree : Fin maxMounts) (path : Bytes) (i : Nat) : Bool :=
  (st.volume tree).any fun v => decide (v.resolve path = .ok (i, v.inodes i) ∧ v.used i = true)

theorem leadsTo_eq_true (h : leadsTo st tree path i = true) :
    ∃ v n, st.volume tree = some v ∧ v.resolve path = .ok (i, n) ∧ v.used i = true := by
  obtain ⟨v, hv, h⟩ := (any_eq_true _ _).1 h
  exact ⟨v, v.inodes i, hv, of_decide_eq_true h⟩

/-- `/f`, and `/s` of root. -/
def twoFiles (owner : Nat) : Ext2 := Ext2.ofInodes [Ext2.dirOf 0o755 0 2 2 [⟨[102], 12, 1⟩, ⟨[115], 13, 1⟩],
  Ext2.fileOf 0o644 owner 12 [1, 2, 3], Ext2.fileOf 0o600 0 13 [7, 8, 9]]

/-- a task of user 1000 opens `/f` for reading. -/
def opening : Turn (Filesystem Empty) :=
  ⟨localEnv 9 1000 fun _ => 0, request (npBase + 15) 0 openRead 2 0 0 [slash, 102], false⟩

/-- root renames `/s`. -/
def moving (name : UInt8) : Turn (Filesystem Empty) :=
  ⟨localEnv 10 0 fun _ => 0, request (npBase + 9) 0 2 2 0 0 [slash, 115, slash, name], false⟩

/-- the task reads from its fid. -/
def reading : Turn (Filesystem Empty) :=
  ⟨localEnv 9 1000 fun _ => 0, request (npBase + 16) 0 fidBase 0 8 0 [], false⟩

/-- a task opens a file, another task renames another file, and the first reads. -/
theorem fid_follows_object_pread :
    ∃ served st' out fid v₁ v₂ opener since i,
      run (ops Ops.none) (ext2State (twoFiles 0)) [opening, moving 116] = some (served, st') ∧
      serve (ops Ops.none) reading.env st' reading.req false = some out ∧
      OpenedIn served firstSlot fid opener since ∧ since.length = 1 ∧
      ActsOn v₁ (verbOf reading.req) (params reading.req) out.reply v₂ i ∧ Stays opener since fid i ∧
      AuthorisedBy opener fid permR i := by
  have h : (serve (ops Ops.none) opening.env (ext2State (twoFiles 0)) opening.req false).any fun out₁ =>
      leadsTo out₁.state rootTree [slash, 102] 12 &&
      (serve (ops Ops.none) (moving 116).env out₁.state (moving 116).req false).any fun out₂ =>
        out₂.table.isEmpty && leadsTo out₂.state rootTree [slash, 102] 12 &&
        (out₂.state.fids firstSlot).any (fun fid => decide (fid.tree = rootTree ∧ fid.path = [slash, 102])) &&
        (serve (ops Ops.none) reading.env out₂.state reading.req false).any fun out =>
          (out.state.volume rootTree).isSome && decide (replyPayload < out.reply.length) := by decide +kernel
  obtain ⟨out₁, hserve₁, h⟩ := (any_eq_true _ _).1 h
  rw [and_eq_true] at h
  obtain ⟨hled₁, h⟩ := h
  obtain ⟨out₂, hserve₂, h⟩ := (any_eq_true _ _).1 h
  simp only [and_eq_true] at h
  obtain ⟨⟨⟨hnone, hled₂⟩, hfid⟩, h⟩ := h
  obtain ⟨fid, hfid, hwhich⟩ := (any_eq_true _ _).1 hfid
  obtain ⟨htree, hpath⟩ := of_decide_eq_true hwhich
  obtain ⟨out, hserve, h⟩ := (any_eq_true _ _).1 h
  rw [and_eq_true] at h
  obtain ⟨hv₂, hlen⟩ := h
  obtain ⟨v₂, hv₂⟩ := isSome_iff_exists.1 hv₂
  have hrun := run_two (a := opening) (b := moving 116) hserve₁ hserve₂
  have hverb : verbOf reading.req = .npPread := by decide +kernel
  have hslot : (params reading.req).p0 = firstSlot + fidBase := by decide +kernel
  rw [← htree, ← hpath] at hled₁ hled₂
  obtain ⟨v₁, n, hv₁, hres, -⟩ := leadsTo_eq_true hled₂
  obtain ⟨opener, since, i, hopened, hnow, hon, hauth⟩ :=
    fid_follows_object [opening, moving 116] (ext2State (twoFiles 0)) out₂.state
    (fun _ => rfl) _ hrun reading out hserve firstSlot fid hslot hfid v₁ v₂ hv₁ (htree ▸ hv₂)
    (.inl ⟨hverb, of_decide_eq_true hlen⟩)
  obtain ⟨rfl, rfl⟩ := hopened.first (isEmpty_iff.1 hnone)
  cases hnow.symm.trans hres
  have hbefore : (ext2State (twoFiles 0)).volume fid.tree = some (twoFiles 0) := by
    rw [htree]
    rfl
  have hstay : Stays ⟨opening, ext2State (twoFiles 0), out₁⟩ [⟨moving 116, out₁.state, out₂⟩] fid 12 :=
    ⟨⟨_, hbefore⟩, forall_mem_cons.2 ⟨leadsTo_eq_true hled₁, forall_mem_singleton.2 (leadsTo_eq_true hled₂)⟩⟩
  rw [hverb] at hauth
  exact ⟨_, _, out, fid, v₁, v₂, _, _, 12, hrun, hserve, hopened, rfl, hon, hstay, (hauth hstay).2 nofun⟩

/-- the inode is closed to every opener of a run, in the volumes they leave. -/
def ClosedTo (c : Caller) (i : Nat) (s : Served (Filesystem X)) : Bool :=
  decide (verbOf s.turn.req ≠ .npOpen) ||
    decide (effectiveCaller s.turn.env (word s.turn.req 0) s.turn.req = some (some c)) &&
      (List.finRange maxMounts).all fun t => (s.out.state.volume t).all fun v =>
        !modeAllows (v.inodes i).fileMode c permR

theorem not_authorisedBy (hrun : run (ops o) st turns = some (served, st'))
    (hclosed : served.all (ClosedTo c i)) (hopened : OpenedIn served slot fid opener since) :
    ¬ AuthorisedBy opener fid permR i := by
  obtain ⟨⟨before, rfl⟩, hop, -⟩ := hopened
  have hmem : opener ∈ before ++ opener :: since := mem_append_right _ mem_cons_self
  have hopens : Opens opener.turn.env opener.turn.req fid := (serve_tabled (run_served hrun opener hmem)).2 _ hop
  have h := all_eq_true.1 hclosed opener hmem
  rw [ClosedTo, or_eq_true, and_eq_true] at h
  obtain ⟨hwho, hall⟩ := h.resolve_left fun hne => of_decide_eq_true hne hopens.verb
  rintro ⟨c', n, hwho', ⟨v, v', -, hv', hres⟩, hmode⟩
  cases (of_decide_eq_true hwho).symm.trans hwho'
  have hv := all_eq_true.1 hall fid.tree (mem_finRange _)
  rw [hv', all_some, ← (resolve_inode hres).2, hmode] at hv
  cases hv

/-- root moves a file of its own onto one that a task has open: the task goes on to read root's. -/
theorem rename_over_open_file :
    ∃ served st' out,
      run (ops Ops.none) (ext2State (twoFiles 1000)) [opening, moving 102] = some (served, st') ∧
      serve (ops Ops.none) reading.env st' reading.req false = some out ∧
        out.reply = dataReply 3 [7, 8, 9] ∧
      ∀ opener since fid, OpenedIn served firstSlot fid opener since → ¬ AuthorisedBy opener fid permR 13 := by
  have h : (run (ops Ops.none) (ext2State (twoFiles 1000)) [opening, moving 102]).any fun r =>
      r.1.all (ClosedTo ⟨1000, 1000, []⟩ 13) && (serve (ops Ops.none) reading.env r.2 reading.req false).any
        fun out => decide (out.reply = dataReply 3 [7, 8, 9]) := by decide +kernel
  obtain ⟨⟨served, st'⟩, hrun, h⟩ := (any_eq_true _ _).1 h
  rw [and_eq_true] at h
  obtain ⟨out, hserve, hreply⟩ := (any_eq_true _ _).1 h.2
  exact ⟨served, st', out, hrun, hserve, of_decide_eq_true hreply, fun opener since fid =>
    not_authorisedBy hrun h.1⟩

end Ouroboros.Fsd
