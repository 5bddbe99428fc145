import Ouroboros.Fsd.Frames
import Mathlib.Data.List.Induction

/-!
# Where a path leads after a write

* `SameTree.walk`  a volume with the same directories leads everywhere it did;
* `MadeIn.walk`  after a file was made, a walk that ends ends where it did;
* `writeFile_existing`  a file that is emptied keeps its inode, its owner and its mode;
* `touch_missing`, `writeFile_missing`  a file that is made is the creator's, with the mode of new files.
-/

namespace Ouroboros.Fsd.Ext2

open List Option Function

variable {d ino : Nat} {name : Bytes}

variable {v v' : Ext2} {path : Bytes} {i : Nat} {n : Inode} {dir : Inode}

/-! ## Other bytes -/

structure SameTree (v v' : Ext2) : Prop where
  count : v'.count = v.count
  isDir : ∀ i, (v'.inodes i).isDir = (v.inodes i).isDir
  entries : ∀ i, (v'.inodes i).entries = (v.inodes i).entries

theorem SameTree.readInode (h : SameTree v v') (hi : v.placed i) : v'.readInode i = .ok (v'.inodes i) := by
  refine readInode_of_placed ?_
  rw [placed, h.count]
  exact hi

theorem SameTree.walk (h : SameTree v v') {names : List Bytes} (hwalk : v.walk names = .ok (i, n)) :
    v'.walk names = .ok (i, v'.inodes i) := by
  induction names using reverseRecOn generalizing i n with
  | nil =>
    obtain ⟨rfl, hroot⟩ := walk_nil_ok hwalk
    rw [walk_nil, h.readInode (readInode_eq_ok hroot).1]
    rfl
  | append_singleton names name ih =>
    obtain ⟨⟨d, dn⟩, hd, hstep⟩ := walk_snoc_ok hwalk
    obtain ⟨hdir, hentry, hnext⟩ := descend_eq_ok hstep
    rw [(walk_inode hd).2] at hdir hentry
    have hentry' : entryIn (v'.inodes d) name = some i := by
      rw [entryIn, h.entries]
      exact hentry
    rw [walk_snoc_of (ih hd), descend_of_entry (by rw [h.isDir]; exact hdir) hentry',
      h.readInode (readInode_eq_ok hnext).1]
    rfl

theorem sameTree_setBytes (i : Nat) (bytes : Bytes) :
    SameTree v (v.setInode i (setBytes (v.inodes i) bytes)) := by
  refine ⟨rfl, fun j => ?_, fun j => ?_⟩
  · show (update v.inodes i _ j).isDir = _
    by_cases hj : j = i
    · rw [hj, update_self, (setBytes_frame _ _).1]
    · rw [update_of_ne hj]
  · show (update v.inodes i _ j).entries = _
    by_cases hj : j = i
    · rw [hj, update_self, (setBytes_frame _ _).2.2]
    · rw [update_of_ne hj]

theorem writeFile_existing (hres : v.resolve path = .ok (i, n))
    (h : v.writeFile path [] = (.ok (), v')) :
    ∃ n', v'.resolve path = .ok (i, n') ∧ n'.fileMode = n.fileMode := by
  unfold writeFile at h
  split at h
  · cases h
  next hparent =>
  rw [lookup_of_resolve hparent hres] at h
  dsimp only at h
  split at h
  · cases h
  obtain ⟨hplaced, rfl⟩ := resolve_inode hres
  rw [if_pos rfl] at h
  dsimp only at h
  rw [writeInode, if_pos hplaced] at h
  cases h
  refine ⟨_, (sameTree_setBytes i []).walk hres, ?_⟩
  show (update v.inodes i _ i).fileMode = _
  rw [update_self, (setBytes_frame _ _).2.1]

/-! ## A file that is made -/

theorem find?_insert {α : Type} {p : α → Bool} {l r : List α} {e a : α} (h : (l ++ e :: r).find? p = some a) :
    p e ∧ a = e ∨ (l ++ r).find? p = some a := by
  rw [find?_append, find?_cons] at h
  rw [find?_append]
  cases hl : l.find? p with
  | some b =>
    rw [hl] at h
    exact .inr h
  | none =>
    rw [hl, none_or] at h
    split at h
    · next he => exact .inl ⟨he, (Option.some.inj h).symm⟩
    · exact .inr h

theorem entryIn_insert {dir' : Inode} {l r : List Entry} {e : Entry} {x : Bytes}
    (hdir : dir.entries = l ++ r) (hdir' : dir'.entries = l ++ e :: r) (h : entryIn dir' x = some i) :
    e.shown = x ∧ i = e.ino ∨ entryIn dir x = some i := by
  rw [entryIn, hdir'] at h
  obtain ⟨a, hfind, rfl⟩ := map_eq_some_iff.1 h
  rcases find?_insert hfind with ⟨he, rfl⟩ | hfind
  · exact .inl ⟨of_decide_eq_true he, rfl⟩
  · rw [entryIn, hdir, hfind]
    exact .inr rfl

structure Inserted (v v' : Ext2) (d : Nat) (name : Bytes) (ino : Nat) : Prop where
  count : v'.count = v.count
  others : ∀ j, j ≠ d → v'.inodes j = v.inodes j
  perm : (v'.inodes d).perm = (v.inodes d).perm
  uid : (v'.inodes d).uid = (v.inodes d).uid
  gid : (v'.inodes d).gid = (v.inodes d).gid
  entries : ∀ x i, (v'.inodes d).isDir = true → entryIn (v'.inodes d) x = some i →
    i = ino ∧ (x = name ∨ x = []) ∨ entryIn (v.inodes d) x = some i

theorem inserted_setInode {w : Ext2} (hcount : w.count = v.count)
    (hinodes : w.inodes = v.inodes) (hperm : n.perm = (v.inodes d).perm) (huid : n.uid = (v.inodes d).uid)
    (hgid : n.gid = (v.inodes d).gid) (hentries : ∀ x i, n.isDir → entryIn n x = some i →
      i = ino ∧ (x = name ∨ x = []) ∨ entryIn (v.inodes d) x = some i) :
      Inserted v (w.setInode d n) d name ino := by
  have hself : (w.setInode d n).inodes d = n := update_self ..
  refine ⟨hcount, fun j hj => ?_, by rw [hself, hperm], by rw [hself, huid], by rw [hself, hgid],
    by rw [hself]; exact hentries⟩
  rw [← hinodes]
  exact update_of_ne hj ..

theorem setEntries_owner (n : Inode) (es : List Entry) :
    (setEntries n es).perm = n.perm ∧ (setEntries n es).uid = n.uid ∧ (setEntries n es).gid = n.gid := by
  obtain ⟨perm, uid, gid, links, size | ⟨t, old⟩⟩ := n
  · exact ⟨rfl, rfl, rfl⟩
  · exact ⟨rfl, rfl, rfl⟩

theorem setEntries_entries {es : List Entry} (h : (setEntries n es).isDir) : (setEntries n es).entries = es := by
  obtain ⟨perm, uid, gid, links, size | ⟨t, old⟩⟩ := n
  · rfl
  · cases h

theorem insertDirent_ok {ftype : Nat} (h : v.insertDirent d name ino ftype = (.ok (), v')) :
    Inserted v v' d name ino := by
  unfold insertDirent at h
  split at h
  · cases h
  dsimp only at h
  -- what the new entry can be found by
  have hentry {n : Inode} {l r : List Entry} {ft : Nat} (hold : (v.inodes d).entries = l ++ r)
      (hn : n.entries = l ++ ⟨name, ino, ft⟩ :: r) {x : Bytes} {i : Nat} (hx : entryIn n x = some i) :
      i = ino ∧ (x = name ∨ x = []) ∨ entryIn (v.inodes d) x = some i := by
    rcases entryIn_insert hold hn hx with ⟨hshown, rfl⟩ | hx
    · refine .inl ⟨rfl, ?_⟩
      rw [← hshown, Entry.shown]
      split
      · exact .inl rfl
      · exact .inr rfl
    · exact .inr hx
  split at h
  · cases h
  · next pos v₁ hpop =>
    rw [← (Prod.mk.inj hpop).2] at h
    cases h
    obtain ⟨hperm, huid, hgid⟩ := setEntries_owner (v.inodes d) _
    exact inserted_setInode rfl rfl hperm huid hgid fun x i hdir hx =>
      hentry (take_append_drop pos _).symm (setEntries_entries hdir) hx
  · next v₁ hpop =>
    rw [← (Prod.mk.inj hpop).2] at h
    cases h
    exact inserted_setInode rfl rfl rfl rfl rfl fun x i _ hx => hentry (append_nil _).symm rfl hx

def madeInode (v : Ext2) (bytes : Bytes) : Inode :=
  ⟨newFilePerm, v.creatorUid, v.creatorGid, 1, .data .reg bytes⟩

/-- a file was made: its inode, and its entry in `d`. -/
structure MadeIn (v v' : Ext2) (d : Nat) (name : Bytes) (ino : Nat) : Prop where
  perm : (v'.inodes ino).perm = newFilePerm
  uid : (v'.inodes ino).uid = v.creatorUid
  gid : (v'.inodes ino).gid = v.creatorGid
  entries : ∀ a x i, (v'.inodes a).isDir = true → entryIn (v'.inodes a) x = some i →
    (a = d ∧ i = ino ∧ (x = name ∨ x = [])) ∨ entryIn (v.inodes a) x = some i

theorem newFile_ok {bytes : Bytes} (h : v.newFile d name ino bytes = (.ok (), v')) : MadeIn v v' d name ino := by
  have hins : Inserted (v.setInode ino (v.madeInode bytes)) v' d name ino := insertDirent_ok h
  have hfresh : (v.setInode ino (v.madeInode bytes)).inodes ino = v.madeInode bytes := update_self ..
  have howner : (v'.inodes ino).perm = newFilePerm ∧ (v'.inodes ino).uid = v.creatorUid ∧
      (v'.inodes ino).gid = v.creatorGid := by
    by_cases hd : ino = d
    · subst hd
      rw [hins.perm, hins.uid, hins.gid, hfresh]
      exact ⟨rfl, rfl, rfl⟩
    · rw [hins.others ino hd, hfresh]
      exact ⟨rfl, rfl, rfl⟩
  refine ⟨howner.1, howner.2.1, howner.2.2, fun a x i hdir hx => ?_⟩
  -- the new inode has no entries of its own
  have hold (hx : entryIn ((v.setInode ino (v.madeInode bytes)).inodes a) x = some i) :
      entryIn (v.inodes a) x = some i := by
    by_cases ha : a = ino
    · rw [ha, hfresh] at hx
      cases hx
    · rwa [show (v.setInode ino (v.madeInode bytes)).inodes a = v.inodes a from update_of_ne ha ..] at hx
  by_cases ha : a = d
  · subst ha
    rcases hins.entries x i hdir hx with hnew | hx
    · exact .inl ⟨rfl, hnew⟩
    · exact .inr (hold hx)
  · rw [hins.others a ha] at hx
    exact .inr (hold hx)

theorem lookupIn_eq_none (h : v.lookupIn dir name = .ok none) : entryIn dir name = none := by
  unfold lookupIn at h
  split at h
  · next hentry => exact hentry
  next i _ =>
  cases hread : v.readInode i with
  | error e | ok n =>
    rw [hread] at h
    cases h

variable {missing : Error} {dn : Inode}

theorem MadeIn.walk (h : MadeIn v v' d name ino) (hmissing : entryIn (v.inodes d) name = none)
    {names : List Bytes} (hnames : [] ∉ names) {a b : Nat} {m : Inode} (hwalk : v.walk names = .ok (a, n))
    (hwalk' : v'.walk names = .ok (b, m)) : b = a := by
  induction names using reverseRecOn generalizing a b n m with
  | nil => exact (walk_nil_ok hwalk').1.trans (walk_nil_ok hwalk).1.symm
  | append_singleton names x ih =>
    obtain ⟨⟨a, n⟩, ha, hstep⟩ := walk_snoc_ok hwalk
    obtain ⟨⟨b, m⟩, hb, hstep'⟩ := walk_snoc_ok hwalk'
    have hab : b = a := ih (fun hmem => hnames (mem_append_left _ hmem)) ha hb
    obtain ⟨-, hentry, -⟩ := descend_eq_ok hstep
    obtain ⟨hdir', hentry', -⟩ := descend_eq_ok hstep'
    rw [(walk_inode ha).2] at hentry
    rw [(walk_inode hb).2, hab] at hdir' hentry'
    rcases h.entries a x _ hdir' hentry' with ⟨rfl, -, rfl | rfl⟩ | hsame
    · rw [hmissing] at hentry
      cases hentry
    · exact absurd (mem_append_right _ mem_cons_self) hnames
    · exact Option.some.inj (hsame.symm.trans hentry)

theorem nil_notMem_components (path : Bytes) : [] ∉ components path := by
  intro hmem
  exact of_decide_eq_true (mem_filter.1 hmem).2 rfl

theorem MadeIn.resolve (h : MadeIn v v' d name ino)
    (hparent : v.parentDir path missing = .ok (d, dn, name)) (hmissing : entryIn dn name = none)
    (hres : v'.resolve path = .ok (i, n)) : i = ino := by
  obtain ⟨dir, hsplit, hdir, -⟩ := parentDir_eq_ok hparent
  rw [(resolve_inode hdir).2] at hmissing
  rw [Ext2.resolve, components_splitParent hsplit] at hres
  obtain ⟨⟨d', m⟩, hd', hstep⟩ := walk_snoc_ok hres
  obtain rfl : d' = d := h.walk hmissing (nil_notMem_components dir) hdir hd'
  obtain ⟨hisDir, hentry, -⟩ := descend_eq_ok hstep
  rw [(walk_inode hd').2] at hisDir hentry
  rcases h.entries d' name i hisDir hentry with ⟨-, hino, -⟩ | hold
  · exact hino
  · rw [hmissing] at hold
    cases hold

theorem MadeIn.owner (h : MadeIn v v' d name ino)
    (hparent : v.parentDir path missing = .ok (d, dn, name)) (hlookup : v.lookupIn dn name = .ok none)
    (hres : v'.resolve path = .ok (i, n)) :
    n.perm = newFilePerm ∧ n.uid = v.creatorUid ∧ n.gid = v.creatorGid := by
  obtain rfl := h.resolve hparent (lookupIn_eq_none hlookup) hres
  rw [(resolve_inode hres).2]
  exact ⟨h.perm, h.uid, h.gid⟩

variable (hmissing : ∀ found, v.resolve path ≠ .ok found)
include hmissing

theorem touch_missing (h : v.touch path = (.ok (), v')) (hres : v'.resolve path = .ok (i, n)) :
    n.perm = newFilePerm ∧ n.uid = v.creatorUid ∧ n.gid = v.creatorGid := by
  unfold touch at h
  split at h
  · cases h
  next hparent =>
  split at h
  · cases h
  · next hlookup => exact absurd (resolve_of_lookup hparent hlookup) (hmissing _)
  next hlookup =>
  split at h
  · cases h
  next halloc =>
  obtain ⟨_, _, hpair⟩ := map_eq_some_iff.1 halloc
  cases hpair
  have hmade := newFile_ok h
  exact hmade.owner hparent hlookup hres

theorem writeFile_missing (h : v.writeFile path [] = (.ok (), v')) (hres : v'.resolve path = .ok (i, n)) :
    n.perm = newFilePerm ∧ n.uid = v.creatorUid ∧ n.gid = v.creatorGid := by
  unfold writeFile at h
  split at h
  · cases h
  next hparent =>
  split at h
  · cases h
  next existing hlookup =>
  obtain rfl : existing = none := by
    cases existing with
    | none => rfl
    | some found => exact absurd (resolve_of_lookup hparent hlookup) (hmissing found)
  rw [if_pos rfl] at h
  dsimp only [any_none, Bool.false_eq_true] at h
  rw [if_neg Bool.false_ne_true] at h
  split at h
  · cases h
  next halloc =>
  obtain ⟨_, _, hpair⟩ := map_eq_some_iff.1 halloc
  cases hpair
  split at h
  · next hnew =>
    cases h
    have hmade := newFile_ok hnew
    exact hmade.owner hparent hlookup hres
  · cases h

end Ouroboros.Fsd.Ext2
