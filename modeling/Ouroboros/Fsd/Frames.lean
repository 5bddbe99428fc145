import Ouroboros.Fsd.Walk

/-!
# Whose entries an operation changes

An operation of an ext2 volume changes the entries of the directories it works in. What the volume
gives out anew or takes back is left aside: a directory is an inode in use before and after.

* `HasEntries`  the entries of an inode, as long as it is in use;
* `touch_frame`, `writeFile_frame`, `mkdir_frame`, `rm_frame`, `rmdir_frame`, `mv_frame` the entries of every
  other directory.
-/

namespace Ouroboros.Fsd.Ext2

open Function

def HasEntries (d : Nat) (es : List Entry) (v : Ext2) : Prop := v.used d = true → (v.inodes d).entries = es

variable {v : Ext2} {d : Nat} {es : List Entry} {ino dir : Nat} {n : Inode} {path : Bytes}

/-! ## Single writes -/

section
variable (h : HasEntries d es v)
include h

theorem HasEntries.setInode (hn : ino = d → v.used d → n.entries = es) : HasEntries d es (v.setInode ino n) := by
  intro hused
  by_cases hd : ino = d
  · subst hd
    show (update v.inodes ino n ino).entries = es
    rw [update_self]
    exact hn rfl hused
  · show (update v.inodes ino n d).entries = es
    rw [update_of_ne (Ne.symm hd)]
    exact h hused

theorem HasEntries.pop : HasEntries d es v.pop.2 := h

theorem HasEntries.writeInode (hn : ino = d → v.used d → n.entries = es) :
    HasEntries d es (v.writeInode ino n).2 := by
  unfold Ext2.writeInode
  split
  · exact h.setInode hn
  · exact h

theorem HasEntries.freeInode (ino : Nat) (n : Inode) : HasEntries d es (v.freeInode ino n).2 := by
  unfold Ext2.freeInode
  split
  · intro hused
    by_cases hd : ino = d
    · subst hd
      replace hused : update v.used ino false ino := hused
      rw [update_self] at hused
      cases hused
    · show (update v.inodes ino _ d).entries = es
      rw [update_of_ne (Ne.symm hd)]
      refine h ?_
      replace hused : update v.used ino false d := hused
      rwa [update_of_ne (Ne.symm hd)] at hused
  · exact h

theorem HasEntries.insertDirent (hd : dir ≠ d) (name : Bytes) (ino ftype : Nat) :
    HasEntries d es (v.insertDirent dir name ino ftype).2 := by
  unfold Ext2.insertDirent
  split
  · exact h
  dsimp only
  split
  · next hpop =>
    rw [← (Prod.mk.inj hpop).2]
    exact h
  · next hpop =>
    rw [← (Prod.mk.inj hpop).2]
    exact .setInode h fun hdir => absurd hdir hd
  next hpop =>
  rw [← (Prod.mk.inj hpop).2]
  exact .setInode h fun hdir => absurd hdir hd

theorem HasEntries.removeDirent (hd : dir ≠ d) (name : Bytes) : HasEntries d es (v.removeDirent dir name).2 := by
  unfold Ext2.removeDirent
  split
  · exact h
  · exact h.setInode fun hdir => absurd hdir hd

theorem HasEntries.setDirentInode (hd : dir ≠ d) (name : Bytes) (ino ftype : Nat) :
    HasEntries d es (v.setDirentInode dir name ino ftype).2 := by
  unfold Ext2.setDirentInode
  split
  · exact h
  · exact h.setInode fun hdir => absurd hdir hd

theorem HasEntries.dropLink (hn : ino = d → n.entries = es) : HasEntries d es (v.dropLink ino n).2 := by
  unfold Ext2.dropLink
  split
  · exact h.freeInode ino n
  · exact h.writeInode fun hd _ => hn hd

theorem HasEntries.allocInode (hused : v.used d) {v' : Ext2}
    (halloc : v.allocInode = some (ino, v')) : ino ≠ d ∧ HasEntries d es v' ∧ v'.inodes = v.inodes := by
  obtain ⟨i, hfind, hpair⟩ := Option.map_eq_some_iff.1 halloc
  cases hpair
  have hfree : v.used ino = false := by simpa using List.find?_some hfind
  refine ⟨?_, fun _ => h hused, rfl⟩
  rintro rfl
  rw [hfree] at hused
  cases hused

end

/-! ## Operations -/

variable {sp dp : Nat}

theorem setBytes_frame (n : Inode) (bytes : Bytes) : (setBytes n bytes).isDir = n.isDir ∧
    (setBytes n bytes).fileMode = n.fileMode ∧ (setBytes n bytes).entries = n.entries := by
  obtain ⟨perm, uid, gid, links, size | ⟨t, old⟩⟩ := n
  · exact ⟨rfl, rfl, rfl⟩
  · exact ⟨rfl, rfl, rfl⟩

def KeepsEntries (d : Nat) (v v' : Ext2) : Prop := HasEntries d (v.inodes d).entries v'

theorem KeepsEntries.refl (d : Nat) (v : Ext2) : KeepsEntries d v v := fun _ => rfl

def WorksIn (v : Ext2) (path : Bytes) (missing : Error) (d : Nat) : Prop :=
  ∃ n name, v.parentDir path missing = .ok (d, n, name)

theorem newFile_frame (h : HasEntries d es v) {parent : Nat} (hparent : parent ≠ d) (hino : ino ≠ d)
    (name bytes : Bytes) :
    HasEntries d es (v.newFile parent name ino bytes).2 :=
  HasEntries.insertDirent (h.setInode fun heq => absurd heq hino) hparent name ino ftReg

theorem touch_frame (hused : v.used d) (hd : ¬ v.WorksIn path .invalidName d) :
    KeepsEntries d v (v.touch path).2 := by
  unfold touch
  split
  · exact .refl d v
  next parent _ _ hparent =>
  have hne : parent ≠ d := fun heq => hd ⟨_, _, heq ▸ hparent⟩
  split
  · exact .refl d v
  · split <;> exact .refl d v
  split
  · exact .refl d v
  next ino v' halloc =>
  obtain ⟨hino, hv', -⟩ := (KeepsEntries.refl d v).allocInode hused halloc
  exact newFile_frame hv' hne hino _ _

theorem room_frame {data : Bytes} {luck : Luck} {v' : Ext2}
    (h : (if data = [] then (Luck.grow, v) else v.pop) = (luck, v')) :
    KeepsEntries d v v' ∧ v'.used = v.used := by
  split at h
  · cases h
    exact ⟨KeepsEntries.refl d v, rfl⟩
  · cases h
    exact ⟨(KeepsEntries.refl d v).pop, rfl⟩

theorem writeFile_frame (data : Bytes) (hused : v.used d)
    (hd : v.WorksIn path .invalidName d → ∃ found, v.resolve path = .ok found) :
    KeepsEntries d v (v.writeFile path data).2 := by
  unfold writeFile
  split
  · exact .refl d v
  next parent _ _ hparent =>
  split
  · exact .refl d v
  next existing hlookup =>
  split
  · exact .refl d v
  split
  · next hpop => exact (room_frame hpop).1
  next v' _ hpop =>
  obtain ⟨hv', hsame⟩ := room_frame (d := d) hpop
  split
  · next ino old _ =>
    have hold : old = v.inodes ino := (readInode_eq_ok (lookupIn_eq_some hlookup).2).2
    refine hv'.writeInode fun heq _ => ?_
    rw [(setBytes_frame _ _).2.2, hold, heq]
  · have hne : parent ≠ d := by
      rintro rfl
      obtain ⟨found, hfound⟩ := hd ⟨_, _, hparent⟩
      rw [lookup_of_resolve hparent hfound] at hlookup
      cases hlookup
    split
    · exact hv'
    next ino v'' halloc =>
    obtain ⟨hino, hv'', -⟩ := hv'.allocInode (by rw [hsame]; exact hused) halloc
    have hnew := newFile_frame hv'' hne hino
    split
    · next hfile =>
      rw [← (Prod.mk.inj hfile).2]
      exact hnew _ _
    next hfile =>
    refine .freeInode ?_ _ _
    rw [← (Prod.mk.inj hfile).2]
    exact hnew _ _

theorem mkdir_frame (hused : v.used d) (hd : ¬ v.WorksIn path .invalidName d) :
    KeepsEntries d v (v.mkdir path).2 := by
  unfold mkdir
  split
  · exact .refl d v
  next parent _ name hparent =>
  have hne : parent ≠ d := fun heq => hd ⟨_, _, heq ▸ hparent⟩
  split
  · exact .refl d v
  · exact .refl d v
  split
  · exact .refl d v
  next ino v' halloc =>
  obtain ⟨hino, hv', -⟩ := (KeepsEntries.refl d v).allocInode hused halloc
  split
  · next hpop =>
    rw [← (Prod.mk.inj hpop).2]
    exact hv'
  next v'' _ hpop =>
  have hv'' : HasEntries d (v.inodes d).entries v'' := by
    rw [← (Prod.mk.inj hpop).2]
    exact hv'
  dsimp only
  -- the new directory, then its entry in the parent
  have hown :=
    fun n => HasEntries.insertDirent (hv''.setInode (n := n) fun heq => absurd heq hino) hne name ino ftDir
  split
  · next hins =>
    rw [← (Prod.mk.inj hins).2]
    exact hown _
  next hins =>
  refine .writeInode ?_ fun heq => absurd heq hne
  rw [← (Prod.mk.inj hins).2]
  exact hown _

theorem rm_frame (hd : ¬ v.WorksIn path .invalidName d) : KeepsEntries d v (v.rm path).2 := by
  unfold rm
  split
  · exact .refl d v
  next parent _ name hparent =>
  have hne : parent ≠ d := fun heq => hd ⟨_, _, heq ▸ hparent⟩
  have hremove := (KeepsEntries.refl d v).removeDirent hne name
  split
  · exact .refl d v
  split
  · exact hremove
  split
  · exact .refl d v
  split
  · next hrem =>
    rw [hrem] at hremove
    exact hremove
  next hrem =>
  rw [hrem] at hremove
  exact .dropLink hremove fun heq => by rw [heq]

theorem rmdir_frame (hd : ¬ v.WorksIn path .cannotRemoveRoot d) : KeepsEntries d v (v.rmdir path).2 := by
  unfold rmdir
  split
  · exact .refl d v
  next parent _ name hparent =>
  have hne : parent ≠ d := fun heq => hd ⟨_, _, heq ▸ hparent⟩
  have hremove := (KeepsEntries.refl d v).removeDirent hne name
  split
  · exact .refl d v
  · exact .refl d v
  split
  · exact .refl d v
  split
  · exact .refl d v
  split
  · next hrem =>
    rw [hrem] at hremove
    exact hremove
  next hrem =>
  rw [hrem] at hremove
  dsimp only
  split
  · next hfree =>
    rw [← (Prod.mk.inj hfree).2]
    exact .freeInode hremove _ _
  next hfree =>
  refine .writeInode ?_ fun heq => absurd heq hne
  rw [← (Prod.mk.inj hfree).2]
  exact .freeInode hremove _ _

theorem HasEntries.reparent (h : HasEntries d es v) (hino : ino ≠ d) (hsp : sp ≠ d) (hdp : dp ≠ d) :
    HasEntries d es (v.reparent ino sp dp).2 := by
  unfold Ext2.reparent
  refine .setInode (.setInode (.setInode h ?_) ?_) ?_
  · exact fun heq => absurd heq hino
  · exact fun heq => absurd heq hdp
  · exact fun heq => absurd heq hsp

theorem mvOver_frame {sName dName : Bytes} {s t : Nat × Inode} (hsp : sp ≠ d) (hdp : dp ≠ d)
    (ht : t.2 = v.inodes t.1) : KeepsEntries d v (v.mvOver sp sName dp dName s t).2 := by
  unfold mvOver
  split
  · exact .refl d v
  split
  · exact .refl d v
  have hpoint := (KeepsEntries.refl d v).setDirentInode hdp dName s.1 ftReg
  split
  · next hset =>
    rw [hset] at hpoint
    exact hpoint
  next v₁ hset =>
  rw [hset] at hpoint
  have hremove := HasEntries.removeDirent hpoint hsp sName
  split
  · next hrem =>
    rw [hrem] at hremove
    exact hremove
  next hrem =>
  rw [hrem] at hremove
  exact .dropLink hremove fun heq => by rw [ht, heq]

/-- `ino` is the directory that a move takes to another parent. -/
def Moves (v : Ext2) (src dst : Bytes) (ino : Nat) : Prop :=
  ∃ sp dp n, v.WorksIn src .invalidName sp ∧ v.WorksIn dst .invalidName dp ∧ sp ≠ dp ∧
    v.resolve src = .ok (ino, n) ∧
    n.isDir = true

theorem mv_frame {src dst : Bytes} (hsrc : ¬ v.WorksIn src .invalidName d)
    (hdst : ¬ v.WorksIn dst .invalidName d) (hmoves : ¬ v.Moves src dst d) :
    KeepsEntries d v (v.mv src dst).2 := by
  unfold mv
  split
  · split
    · exact .refl d v
    next sp _ sName hs =>
    split
    · exact .refl d v
    next dp _ dName hd =>
    have hsp : sp ≠ d := fun heq => hsrc ⟨_, _, heq ▸ hs⟩
    have hdp : dp ≠ d := fun heq => hdst ⟨_, _, heq ▸ hd⟩
    split
    · exact .refl d v
    · exact .refl d v
    next s hlookup =>
    split
    · exact .refl d v
    · next t hlookup' => exact mvOver_frame hsp hdp (readInode_eq_ok (lookupIn_eq_some hlookup').2).2
    have hinsert := (KeepsEntries.refl d v).insertDirent hdp dName s.1 (if s.2.isDir then ftDir else ftReg)
    split
    · next hins =>
      rw [hins] at hinsert
      exact hinsert
    next v₁ hins =>
    rw [hins] at hinsert
    have hremove := HasEntries.removeDirent hinsert hsp sName
    split
    · next hrem =>
      rw [hrem] at hremove
      exact hremove
    next v₂ hrem =>
    rw [hrem] at hremove
    split
    · next hcross =>
      refine .reparent hremove (fun heq => hmoves ?_) hsp hdp
      refine ⟨sp, dp, s.2, ⟨_, _, hs⟩, ⟨_, _, hd⟩, hcross.1, ?_, hcross.2⟩
      rw [← heq]
      exact resolve_of_lookup hs hlookup
    · exact hremove
  · exact .refl d v

/-- a move that changes anything has a directory to take from and one to put into. -/
theorem mv_parents {src dst : Bytes} (h : (v.mv src dst).2 ≠ v) :
    ∃ sp dp, v.WorksIn src .invalidName sp ∧ v.WorksIn dst .invalidName dp := by
  unfold mv at h
  split at h
  · split at h
    · exact absurd rfl h
    next sp _ _ hs =>
    split at h
    · exact absurd rfl h
    next dp _ _ hd => exact ⟨sp, dp, ⟨_, _, hs⟩, _, _, hd⟩
  · exact absurd rfl h

theorem writeAt_frame (path : Bytes) (offset : Nat) (data : Bytes) :
    KeepsEntries d v (v.writeAt path offset data).2 := by
  unfold writeAt
  split
  · exact .refl d v
  split
  · exact .refl d v
  next ino n hres =>
  split
  · exact .refl d v
  split
  · exact .refl d v
  refine .setInode (KeepsEntries.refl d v).pop fun heq _ => ?_
  rw [(setBytes_frame _ _).2.2, (resolve_inode hres).2, heq]

theorem chmod_frame (path : Bytes) (mode : Nat) : KeepsEntries d v (v.chmod path mode).2 := by
  unfold chmod
  split
  · exact .refl d v
  next ino n hres =>
  refine (KeepsEntries.refl d v).writeInode fun heq _ => ?_
  rw [← heq, ← (resolve_inode hres).2]
  rfl

theorem chown_frame (path : Bytes) (uid gid : Option Nat) : KeepsEntries d v (v.chown path uid gid).2 := by
  unfold chown
  split
  · exact .refl d v
  next ino n hres =>
  refine (KeepsEntries.refl d v).writeInode fun heq _ => ?_
  rw [← heq, ← (resolve_inode hres).2]
  rfl

end Ouroboros.Fsd.Ext2
