import Ouroboros.Fsd.Ext2
import Ouroboros.Fsd.Fids
import Ouroboros.Lib.Act

/-!
# Volumes as fsd calls them

The server is written over any type `F` of volumes and the operations `Ops F` on it; none of them
panics. `Filesystem X` is an ext2 volume or one of another kind.

* `Ops`  the methods of `vfs::Filesystem`;
* `Call`  which of them was called, on which path;
* `Work`  what the server holds in a request: the volume of its tree, the calls made on it, the open files;
* `Filesystem.ops` the operations of an ext2 volume, and of the others as they are given.
-/

namespace Ouroboros.Fsd

/-- `Filesystem::name`. -/
inductive FsName where
  | fat32
  | exFat
  | ext2
  | proc
deriving DecidableEq, Repr, Inhabited

def FsName.bytes : FsName → Bytes
  | .fat32 => [70, 65, 84, 51, 50]
  | .exFat => [101, 120, 70, 65, 84]
  | .ext2 => [101, 120, 116, 50]
  | .proc => [112, 114, 111, 99]

structure Ops (F : Type) where
  isDisk : F → Bool
  partitionLba : F → Nat
  name : F → FsName
  namesMatch : F → Bytes → Bytes → Bool
  setCreator : F → Nat → Nat → F
  stat : F → Bytes → Except Error Stat × F
  /-- the entries shown, up to the one after which the callback stops. -/
  listDir : F → Bytes → (List (Bytes × Bool) → Bool) → Except Error (List (Bytes × Bool)) × F
  readFile : F → Bytes → Nat → Except Error (Nat × Bytes) × F
  readAt : F → Bytes → Nat → Nat → Except Error Bytes × F
  /-- the pieces handed on, up to the one at which the sink breaks. -/
  readEach : F → Bytes → Nat → Nat → (List Bytes → Bool) → (List Bytes × Except Error (Nat × Bool)) × F
  writeFile : F → Bytes → Bytes → Except Error Unit × F
  writeAt : F → Bytes → Nat → Bytes → Except Error Unit × F
  mkdir : F → Bytes → Except Error Unit × F
  rmdir : F → Bytes → Except Error Unit × F
  touch : F → Bytes → Except Error Unit × F
  rm : F → Bytes → Except Error Unit × F
  mv : F → Bytes → Bytes → Except Error Unit × F
  chmod : F → Bytes → Nat → Except Error Unit × F
  chown : F → Bytes → Option Nat → Option Nat → Except Error Unit × F
deriving Inhabited

inductive Call where
  | stat (path : Bytes)
  | listDir (path : Bytes)
  | readFile (path : Bytes)
  | readAt (path : Bytes)
  | readEach (path : Bytes)
  | writeFile (path : Bytes)
  | writeAt (path : Bytes)
  | mkdir (path : Bytes)
  | rmdir (path : Bytes)
  | touch (path : Bytes)
  | rm (path : Bytes)
  | mv (src dst : Bytes)
  | chmod (path : Bytes)
  | chown (path : Bytes)
deriving DecidableEq, Repr

def Call.reads : Call → Bool
  | .stat _ | .listDir _ | .readFile _ | .readAt _ | .readEach _ => true
  | _ => false

/-! ## Mounts, and the work on one request -/

structure Mount (F : Type) where
  fs : F
  held : Bool
  /-- `read_only().is_some()` of the volume, which its mount settles. -/
  readOnly : Bool

def Mount.refusesChanges {F : Type} (m : Mount F) : Bool := m.held || m.readOnly

structure Work (F : Type) where
  fs : F
  calls : List Call
  fids : Fids
  table : List FidOp
  sent : List Bytes

def Work.start {F : Type} (fs : F) (fids : Fids) : Work F := ⟨fs, [], fids, [], []⟩

section Steps
variable {F : Type}

abbrev Step (F : Type) := Act (Work F)

def volume {α : Type} (call : Call) (f : F → α × F) : Step F α := fun w =>
  let r := f w.fs
  some (r.1, { w with fs := r.2, calls := w.calls ++ [call] })

def getFs : Step F F := fun w => some (w.fs, w)

def getFids : Step F Fids := fun w => some (w.fids, w)

def doFids (op : FidOp) : Step F Unit := fun w =>
  some ((), { w with fids := op.apply w.fids, table := w.table ++ [op] })

/-- `fs.set_creator`, which touches no disk. -/
def setCreator (ops : Ops F) (uid gid : Nat) : Step F Unit := fun w =>
  some ((), { w with fs := ops.setCreator w.fs uid gid })

def stat (ops : Ops F) (path : Bytes) : Step F (Except Error Stat) := volume (.stat path) (ops.stat · path)

end Steps

/-! ## Ext2 and the others -/

inductive Filesystem (X : Type) where
  | ext2 (v : Ext2)
  | other (x : X)

/-- the entries of a listing up to the one after which the callback stops. -/
def shownUntil (stop : List (Bytes × Bool) → Bool) :
    List (Bytes × Bool) → List (Bytes × Bool) → List (Bytes × Bool) × Bool
  | shown, [] => (shown, false)
  | shown, e :: es => if stop (shown ++ [e]) then (shown ++ [e], true) else shownUntil stop (shown ++ [e]) es

namespace Ext2

def listOp (v : Ext2) (path : Bytes) (stop : List (Bytes × Bool) → Bool) : Except Error (List (Bytes × Bool)) :=
  let (entries, err) := v.listDir path
  match shownUntil stop [] entries, err with
  | (shown, true), _ => .ok shown
  | (shown, false), none => .ok shown
  | (_, false), some e => .error e

end Ext2

/-- `read_pieces`, in pieces of at most `chunk`. -/
def readPieces (read : Nat → Nat → Bytes) (chunk : Nat) (broke : List Bytes → Bool) (offset want : Nat) :
    Nat → Nat → List Bytes → List Bytes × Nat × Bool
  | 0, done, out => (out, done, false)
  | fuel + 1, done, out =>
    if want ≤ done then (out, done, false)
    else
      let len := min (want - done) chunk
      let piece := read (offset + done) len
      if piece = [] then (out, done, false)
      else if broke (out ++ [piece]) then (out ++ [piece], done, true)
      else if piece.length < len then (out ++ [piece], done + piece.length, false)
      else readPieces read chunk broke offset want fuel (done + piece.length) (out ++ [piece])

def safecopyMax : Nat := 2048

def Ext2.eachOp (v : Ext2) (path : Bytes) (offset want : Nat) (broke : List Bytes → Bool) :
    List Bytes × Except Error (Nat × Bool) :=
  match v.findFile path with
  | .error e => ([], .error e)
  | .ok (_, n) =>
    let (out, done, stopped) := readPieces (readRange n) safecopyMax broke offset want want 0 []
    (out, .ok (done, stopped))

namespace Filesystem
variable {X : Type}

def either {α : Type} (onExt2 : Ext2 → α × Ext2) (onOther : X → α × X) : Filesystem X → α × Filesystem X
  | ext2 v => ((onExt2 v).1, ext2 (onExt2 v).2)
  | other x => ((onOther x).1, other (onOther x).2)

def asks {α : Type} (onExt2 : Ext2 → α) (onOther : X → α) : Filesystem X → α
  | ext2 v => onExt2 v
  | other x => onOther x

/-- the dispatch of `vfs.rs`. -/
def ops (o : Ops X) : Ops (Filesystem X) where
  isDisk := asks (fun _ => true) o.isDisk
  partitionLba := asks (·.lba) o.partitionLba
  name := asks (fun _ => .ext2) o.name
  namesMatch := asks (fun _ a b => decide (a = b)) o.namesMatch
  setCreator fs uid gid := match fs with
    | ext2 v => ext2 (v.setCreator uid gid)
    | other x => other (o.setCreator x uid gid)
  stat fs path := either (fun v => (v.stat path, v)) (o.stat · path) fs
  listDir fs path stop := either (fun v => (v.listOp path stop, v)) (o.listDir · path stop) fs
  readFile fs path len := either (fun v => (v.readFile path len, v)) (o.readFile · path len) fs
  readAt fs path offset len := either (fun v => (v.readAt path offset len, v)) (o.readAt · path offset len) fs
  readEach fs path offset want broke :=
    either (fun v => (v.eachOp path offset want broke, v)) (o.readEach · path offset want broke) fs
  writeFile fs path data := either (·.writeFile path data) (o.writeFile · path data) fs
  writeAt fs path offset data := either (·.writeAt path offset data) (o.writeAt · path offset data) fs
  mkdir fs path := either (·.mkdir path) (o.mkdir · path) fs
  rmdir fs path := either (·.rmdir path) (o.rmdir · path) fs
  touch fs path := either (·.touch path) (o.touch · path) fs
  rm fs path := either (·.rm path) (o.rm · path) fs
  mv fs src dst := either (·.mv src dst) (o.mv · src dst) fs
  chmod fs path mode := either (·.chmod path mode) (o.chmod · path mode) fs
  chown fs path uid gid := either (·.chown path uid gid) (o.chown · path uid gid) fs

end Filesystem

/-! ## Small volumes -/

def Ops.none : Ops Empty where
  isDisk := nofun
  partitionLba := nofun
  name := nofun
  namesMatch := nofun
  setCreator := nofun
  stat := nofun
  listDir := nofun
  readFile := nofun
  readAt := nofun
  readEach := nofun
  writeFile := nofun
  writeAt := nofun
  mkdir := nofun
  rmdir := nofun
  touch := nofun
  rm := nofun
  mv := nofun
  chmod := nofun
  chown := nofun

def Ext2.ofInodes (inodes : List (Nat × Inode)) : Ext2 where
  lba := 2048
  count := 16
  inodes i := (inodes.lookup i).getD ⟨0, 0, 0, 0, .data .reg []⟩
  used i := (inodes.lookup i).isSome
  hasFiletype := true
  blockSize := 1024
  creatorUid := 0
  creatorGid := 0
  luck := List.replicate 8 (.slack 2)

def Ext2.dirOf (perm uid ino parent : Nat) (entries : List Entry) : Nat × Inode :=
  (ino, ⟨perm, uid, uid, 2, .dir 1024 (⟨dot, ino, ftDir⟩ :: ⟨dotdot, parent, ftDir⟩ :: entries)⟩)

def Ext2.fileOf (perm uid ino : Nat) (bytes : Bytes) : Nat × Inode :=
  (ino, ⟨perm, uid, uid, 1, .data .reg bytes⟩)

end Ouroboros.Fsd
