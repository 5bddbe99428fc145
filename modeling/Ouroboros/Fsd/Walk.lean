import Ouroboros.Fsd.Ext2

/-!
# Walks through an ext2 volume

* `walk_append`  a walk is a walk to a directory on its way and one from there;
* `walk_inode`  it ends at an inode of the volume;
* `walk_snoc_ok`  its last step, taken apart.
-/

namespace Ouroboros.Fsd.Ext2

variable {v : Ext2} {ino : Nat} {n : Inode} {name path : Bytes} {found here : Nat × Inode} {names : List Bytes}
  {missing : Error}
variable {next : Nat × Inode}

def Inode.fileMode (n : Inode) : FileMode := ⟨n.mode, n.uid, n.gid⟩

theorem readInode_eq_ok (h : v.readInode ino = .ok n) : v.placed ino ∧ n = v.inodes ino := by
  unfold readInode at h
  split at h
  · cases h
  next hzero =>
  split at h
  · next hle =>
    cases h
    exact ⟨decide_eq_true ⟨hzero, hle⟩, rfl⟩
  · cases h

theorem readInode_of_placed (h : v.placed ino) : v.readInode ino = .ok (v.inodes ino) := by
  obtain ⟨hzero, hle⟩ := of_decide_eq_true h
  rw [readInode, if_neg hzero, if_pos hle]

theorem lookupIn_eq_some {dir : Inode} (h : v.lookupIn dir name = .ok (some found)) :
    entryIn dir name = some found.1 ∧ v.readInode found.1 = .ok found.2 := by
  unfold lookupIn at h
  split at h
  · cases h
  next ino hentry =>
  cases hread : v.readInode ino with
  | error e =>
    rw [hread] at h
    cases h
  | ok n =>
    rw [hread] at h
    cases h
    exact ⟨hentry, hread⟩

theorem descend_eq_ok (h : v.descend here name = .ok next) :
    here.2.isDir ∧ entryIn here.2 name = some next.1 ∧ v.readInode next.1 = .ok next.2 := by
  unfold descend at h
  split at h
  · cases h
  next hdir =>
  split at h
  · cases h
  next ino hentry =>
  cases hread : v.readInode ino with
  | error e =>
    rw [hread] at h
    cases h
  | ok n =>
    rw [hread] at h
    cases h
    exact ⟨by simpa using hdir, hentry, hread⟩

theorem descend_of_entry (hdir : here.2.isDir)
    (hentry : entryIn here.2 name = some ino) : v.descend here name = (v.readInode ino).map (ino, ·) := by
  rw [descend, hdir, Bool.not_true, if_neg Bool.false_ne_true, hentry]

theorem walk_nil : v.walk [] = (v.readInode rootIno).map (rootIno, ·) := by
  rw [walk]
  cases v.readInode rootIno with
  | error e | ok n => rfl

theorem walk_nil_ok (h : v.walk [] = .ok here) : here.1 = rootIno ∧ v.readInode rootIno = .ok here.2 := by
  rw [walk_nil] at h
  cases hroot : v.readInode rootIno with
  | error e =>
    rw [hroot] at h
    cases h
  | ok n =>
    rw [hroot] at h
    cases h
    exact ⟨rfl, rfl⟩

theorem walk_append (names more : List Bytes) :
    v.walk (names ++ more) = v.walk names >>= fun here => more.foldlM v.descend here := by
  rw [walk, walk]
  cases v.readInode rootIno with
  | error e => rfl
  | ok n => exact List.foldlM_append

theorem walk_snoc_of (h : v.walk names = .ok here) : v.walk (names ++ [name]) = v.descend here name := by
  rw [walk_append, h]
  show [name].foldlM v.descend here = _
  rw [List.foldlM_cons]
  cases v.descend here name with
  | error e | ok next => rfl

theorem walk_snoc_ok
    (h : v.walk (names ++ [name]) = .ok next) :
    ∃ here, v.walk names = .ok here ∧ v.descend here name = .ok next := by
  cases hwalk : v.walk names with
  | error e =>
    rw [walk_append, hwalk] at h
    cases h
  | ok here =>
    rw [walk_snoc_of hwalk] at h
    exact ⟨here, rfl, h⟩

theorem walk_inode (h : v.walk names = .ok (ino, n)) : v.placed ino ∧ n = v.inodes ino := by
  rcases List.eq_nil_or_concat names with rfl | ⟨front, last, rfl⟩
  · obtain ⟨rfl, hroot⟩ := walk_nil_ok h
    exact readInode_eq_ok hroot
  rw [List.concat_eq_append] at h
  obtain ⟨here, -, hlast⟩ := walk_snoc_ok h
  exact readInode_eq_ok (descend_eq_ok hlast).2.2

theorem resolve_inode (h : v.resolve path = .ok (ino, n)) : v.placed ino ∧ n = v.inodes ino := walk_inode h

theorem parentDir_eq_ok (h : v.parentDir path missing = .ok (ino, n, name)) :
    ∃ dir, splitParent path = some (dir, name) ∧ v.resolve dir = .ok (ino, n) ∧ n.isDir := by
  unfold parentDir at h
  split at h
  · cases h
  next dir last hsplit =>
  split at h
  · cases h
  next i m hres =>
  split at h
  · cases h
  next hdir =>
  cases h
  exact ⟨dir, hsplit, hres, by simpa using hdir⟩

theorem resolve_of_lookup
    (hparent : v.parentDir path missing = .ok (ino, n, name)) (hlookup : v.lookupIn n name = .ok (some found)) :
    v.resolve path = .ok found := by
  obtain ⟨dir, hsplit, hres, hdir⟩ := parentDir_eq_ok hparent
  obtain ⟨hentry, hread⟩ := lookupIn_eq_some hlookup
  rw [resolve, components_splitParent hsplit, walk_snoc_of hres, descend_of_entry hdir hentry, hread]
  rfl

theorem lookup_of_resolve (hparent : v.parentDir path missing = .ok (ino, n, name))
    (hres : v.resolve path = .ok found) :
    v.lookupIn n name = .ok (some found) := by
  obtain ⟨dir, hsplit, hdirRes, -⟩ := parentDir_eq_ok hparent
  rw [resolve, components_splitParent hsplit, walk_snoc_of hdirRes] at hres
  obtain ⟨-, hentry, hread⟩ := descend_eq_ok hres
  rw [lookupIn, hentry]
  dsimp only
  rw [hread]
  rfl

theorem walk_front {front back : List Bytes} (h : v.walk (front ++ back) = .ok found) :
    ∃ here, v.walk front = .ok here := by
  rw [walk_append] at h
  cases hfront : v.walk front with
  | error e =>
    rw [hfront] at h
    cases h
  | ok here => exact ⟨here, rfl⟩

theorem resolve_of_stat {st : Stat} (h : v.stat path = .ok st) : ∃ found, v.resolve path = .ok found := by
  rw [stat] at h
  cases hres : v.resolve path with
  | error e =>
    rw [hres] at h
    cases h
  | ok found => exact ⟨found, rfl⟩

theorem stat_of_resolve (h : v.resolve path = .ok (ino, n)) :
    v.stat path = .ok ⟨n.size, n.isDir, none, some n.fileMode⟩ := by
  rw [stat, h]
  rfl

end Ouroboros.Fsd.Ext2
