import Ouroboros.Fsd.Paths

/-!
# An ext2 volume

Inodes, the entries of directories and the bytes of files. Blocks are not modelled: `luck` is what
the block allocator and the search for room in a directory will answer, any list of answers.

* `resolve`  the walk from the root, one entry lookup a component;
* `stat`, `readAt`, ...  reading;
* `touch`, `writeFile`, `mkdir`, `rm`, `rmdir`, `mv`, `writeAt`, `chmod`, `chown`  changing.
-/

namespace Ouroboros.Fsd

/-- `fat32::Error`; `notMounted` stands for the arms that only a mount answers. -/
inductive Error where
  | notFound
  | notAFile
  | notADirectory
  | invalidName
  | alreadyExists
  | directoryNotEmpty
  | cannotRemoveRoot
  | diskFull
  | readOnly
  | unsupported
  | invalidOffset
  | notMounted
  | io
deriving DecidableEq, Repr, Inhabited

structure CalTime where
  year : Nat
  month : Nat
  day : Nat
  hour : Nat
  min : Nat
  sec : Nat
deriving DecidableEq, Repr

structure FileMode where
  mode : Nat
  uid : Nat
  gid : Nat
deriving DecidableEq, Repr

structure Stat where
  size : Nat
  isDir : Bool
  time : Option CalTime
  mode : Option FileMode
deriving DecidableEq, Repr

namespace Ext2

def rootIno : Nat := 2
def nameMax : Nat := 255
def maxGapFill : Nat := 2 ^ 20
def newFilePerm : Nat := 0o644
def newDirPerm : Nat := 0o755
def ftReg : Nat := 1
def ftDir : Nat := 2

/-- the type nibble of a mode (`S_IFMT`), of what is no directory. -/
structure FileType where
  bits : Fin 16
  notDir : bits ≠ 4
deriving DecidableEq, Repr

def FileType.reg : FileType := ⟨8, by decide⟩

structure Entry where
  name : Bytes
  ino : Nat
  ftype : Nat
deriving DecidableEq, Repr

/-- what an inode's blocks hold: entries, or bytes of a file of some type. -/
inductive Body where
  | dir (size : Nat) (entries : List Entry)
  | data (ftype : FileType) (bytes : Bytes)
deriving DecidableEq, Repr

structure Inode where
  perm : Nat
  uid : Nat
  gid : Nat
  links : Nat
  body : Body
deriving DecidableEq, Repr

def Inode.isDir (n : Inode) : Bool :=
  match n.body with
  | .dir _ _ => true
  | .data _ _ => false

def Inode.isReg (n : Inode) : Bool :=
  match n.body with
  | .dir _ _ => false
  | .data t _ => t = .reg

def Inode.entries (n : Inode) : List Entry :=
  match n.body with
  | .dir _ es => es
  | .data _ _ => []

def Inode.bytes (n : Inode) : Bytes :=
  match n.body with
  | .dir _ _ => []
  | .data _ b => b

def Inode.size (n : Inode) : Nat :=
  match n.body with
  | .dir size _ => size
  | .data _ b => b.length

def Inode.mode (n : Inode) : Nat :=
  match n.body with
  | .dir _ _ => 4 * 0x1000 + n.perm
  | .data t _ => t.bits * 0x1000 + n.perm

/-- an answer of the allocator: no room, room at a place, or room in a new block. -/
inductive Luck where
  | full
  | slack (pos : Nat)
  | grow
deriving DecidableEq, Repr

end Ext2

open Ext2 Function

structure Ext2 where
  /-- `partition_lba`. -/
  lba : Nat
  count : Nat
  inodes : Nat → Inode
  used : Nat → Bool
  hasFiletype : Bool
  blockSize : Nat
  creatorUid : Nat
  creatorGid : Nat
  luck : List Luck

namespace Ext2

/-! ## Looking up -/

/-- `DirEntry::name`: a name that is no text reads as empty. -/
def Entry.shown (e : Entry) : Bytes := if Utf8.valid e.name then e.name else []

def placed (v : Ext2) (ino : Nat) : Bool := ino ≠ 0 ∧ ino ≤ v.count

def readInode (v : Ext2) (ino : Nat) : Except Error Inode :=
  if ino = 0 then .error .notFound else if ino ≤ v.count then .ok (v.inodes ino) else .error .io

def entryIn (dir : Inode) (name : Bytes) : Option Nat := (dir.entries.find? (·.shown = name)).map (·.ino)

/-- one component of `resolve`. -/
def descend (v : Ext2) (here : Nat × Inode) (component : Bytes) : Except Error (Nat × Inode) :=
  if !here.2.isDir then .error .notADirectory
  else
    match entryIn here.2 component with
    | none => .error .notFound
    | some ino => (v.readInode ino).map (ino, ·)

def walk (v : Ext2) (names : List Bytes) : Except Error (Nat × Inode) := do
  let inode ← v.readInode rootIno
  names.foldlM v.descend (rootIno, inode)

def resolve (v : Ext2) (path : Bytes) : Except Error (Nat × Inode) := v.walk (components path)

def lookupIn (v : Ext2) (dir : Inode) (name : Bytes) : Except Error (Option (Nat × Inode)) :=
  match entryIn dir name with
  | none => .ok none
  | some ino => (v.readInode ino).map fun n => some (ino, n)

/-! ## Reading -/

def stat (v : Ext2) (path : Bytes) : Except Error Stat := do
  let (_, n) ← v.resolve path
  pure ⟨n.size, n.isDir, none, some ⟨n.mode, n.uid, n.gid⟩⟩

/-- `list_dir`: the entries in order, and the error that ends the walk if one does. -/
def listEntries (v : Ext2) : List Entry → List (Bytes × Bool) × Option Error
  | [] => ([], none)
  | e :: es =>
    if e.shown = dot ∨ e.shown = dotdot then listEntries v es
    else
      let isDir :=
        if v.hasFiletype ∧ 1 ≤ e.ftype ∧ e.ftype ≤ 7 then .ok (decide (e.ftype = ftDir))
        else if !v.placed e.ino then .ok false
        else (v.readInode e.ino).map Inode.isDir
      match isDir with
      | .error err => ([], some err)
      | .ok d =>
        let (rest, err) := listEntries v es
        ((e.shown, d) :: rest, err)

def listDir (v : Ext2) (path : Bytes) : List (Bytes × Bool) × Option Error :=
  match v.resolve path with
  | .error e => ([], some e)
  | .ok (_, dir) => if !dir.isDir then ([], some .notADirectory) else listEntries v dir.entries

def findFile (v : Ext2) (path : Bytes) : Except Error (Nat × Inode) := do
  let (ino, n) ← v.resolve path
  if !n.isReg then .error .notAFile else pure (ino, n)

def readRange (n : Inode) (start len : Nat) : Bytes := (n.bytes.drop start).take len

/-- `read_file`: the size, and the bytes that fit. -/
def readFile (v : Ext2) (path : Bytes) (len : Nat) : Except Error (Nat × Bytes) := do
  let (_, n) ← v.findFile path
  pure (n.size, readRange n 0 len)

def readAt (v : Ext2) (path : Bytes) (offset len : Nat) : Except Error Bytes := do
  let (_, n) ← v.findFile path
  pure (readRange n offset len)

/-! ## Changing -/

def setInode (v : Ext2) (ino : Nat) (n : Inode) : Ext2 := { v with inodes := update v.inodes ino n }

def pop (v : Ext2) : Luck × Ext2 := (v.luck.headD .full, { v with luck := v.luck.tail })

/-- `write_inode` and `patch_inode`, which check the inode's place. -/
def writeInode (v : Ext2) (ino : Nat) (n : Inode) : Except Error Unit × Ext2 :=
  if v.placed ino then (.ok (), v.setInode ino n) else (.error .io, v)

/-- `alloc_inode`: the first free one. -/
def allocInode (v : Ext2) : Option (Nat × Ext2) := ((List.range' 1 v.count).find? (!v.used ·)).map fun ino =>
    (ino, { v with used := update v.used ino true })

/-- `free_inode`, then `mark_inode_deleted`. -/
def freeInode (v : Ext2) (ino : Nat) (n : Inode) : Except Error Unit × Ext2 :=
  if v.placed ino then
    let body := match n.body with
      | .dir _ _ => Body.dir 0 []
      | .data t _ => Body.data t []
    (.ok (), { v with used := update v.used ino false }.setInode ino ⟨n.perm, 0, 0, 0, body⟩)
  else (.error .io, v)

def setEntries (n : Inode) (es : List Entry) : Inode :=
  match n.body with
  | .dir size _ => { n with body := .dir size es }
  | .data _ _ => n

def setBytes (n : Inode) (bytes : Bytes) : Inode :=
  match n.body with
  | .dir _ _ => n
  | .data t _ => { n with body := .data t bytes }

/-- `insert_dirent` into the directory `dirIno`: where there is room for it, or in a new block. -/
def insertDirent (v : Ext2) (dirIno : Nat) (name : Bytes) (ino ftype : Nat) : Except Error Unit × Ext2 :=
  if name.length = 0 ∨ name.length > nameMax then (.error .invalidName, v)
  else
    let e : Entry := ⟨name, ino, if v.hasFiletype then ftype else 0⟩
    let dir := v.inodes dirIno
    match v.pop with
    | (.full, v) => (.error .diskFull, v)
    | (.slack pos, v) =>
      (.ok (), v.setInode dirIno (setEntries dir (dir.entries.take pos ++ e :: dir.entries.drop pos)))
    | (.grow, v) =>
      (.ok (), v.setInode dirIno { dir with body := .dir (dir.size + v.blockSize) (dir.entries ++ [e]) })

/-- the entries without the first of a name, as `remove_dirent` matches it. -/
def dropEntry (name : Bytes) : List Entry → Option (List Entry)
  | [] => none
  | e :: es => if e.name = name then some es else (dropEntry name es).map (e :: ·)

/-- the first entry of a name pointed elsewhere, as `set_dirent_inode` matches it. -/
def pointEntry (name : Bytes) (ino ftype : Nat) : List Entry → Option (List Entry)
  | [] => none
  | e :: es =>
    if e.name = name then some (⟨e.name, ino, ftype⟩ :: es) else (pointEntry name ino ftype es).map (e :: ·)

def removeDirent (v : Ext2) (dirIno : Nat) (name : Bytes) : Except Error Unit × Ext2 :=
  match dropEntry name (v.inodes dirIno).entries with
  | none => (.error .notFound, v)
  | some es => (.ok (), v.setInode dirIno (setEntries (v.inodes dirIno) es))

def setDirentInode (v : Ext2) (dirIno : Nat) (name : Bytes) (ino ftype : Nat) : Except Error Unit × Ext2 :=
  match pointEntry name ino ftype (v.inodes dirIno).entries with
  | none => (.error .notFound, v)
  | some es => (.ok (), v.setInode dirIno (setEntries (v.inodes dirIno) es))

def pointDotdot (parent : Nat) : List Entry → List Entry
  | [] => []
  | e :: es => if e.name = dotdot then { e with ino := parent } :: es else e :: pointDotdot parent es

def setDotdot (v : Ext2) (dirIno parent : Nat) : Ext2 :=
  v.setInode dirIno (setEntries (v.inodes dirIno) (pointDotdot parent (v.inodes dirIno).entries))

def parentDir (v : Ext2) (path : Bytes) (missing : Error) : Except Error (Nat × Inode × Bytes) :=
  match splitParent path with
  | none => .error missing
  | some (parentPath, name) =>
    match v.resolve parentPath with
    | .error e => .error e
    | .ok (ino, parent) => if !parent.isDir then .error .notADirectory else .ok (ino, parent, name)

/-- a new file's inode, at an inode number and under a name: the end of `touch` and of `write_file`. -/
def newFile (v : Ext2) (parentIno : Nat) (name : Bytes) (ino : Nat) (bytes : Bytes) : Except Error Unit × Ext2 :=
  (v.setInode ino ⟨newFilePerm, v.creatorUid, v.creatorGid, 1, .data .reg bytes⟩).insertDirent
    parentIno name ino ftReg

def touch (v : Ext2) (path : Bytes) : Except Error Unit × Ext2 :=
  match v.parentDir path .invalidName with
  | .error e => (.error e, v)
  | .ok (parentIno, parent, name) =>
    match v.lookupIn parent name with
    | .error e => (.error e, v)
    | .ok (some (_, n)) => if n.isDir then (.error .notAFile, v) else (.ok (), v)
    | .ok none =>
      match v.allocInode with
      | none => (.error .diskFull, v)
      | some (ino, v) => v.newFile parentIno name ino []

/-- `write_file`: the data first, then the inode and, for a new file, its entry. -/
def writeFile (v : Ext2) (path data : Bytes) : Except Error Unit × Ext2 :=
  match v.parentDir path .invalidName with
  | .error e => (.error e, v)
  | .ok (parentIno, parent, name) =>
    match v.lookupIn parent name with
    | .error e => (.error e, v)
    | .ok existing =>
      if existing.any (·.2.isDir) then (.error .notAFile, v)
      else
        match if data = [] then (Luck.grow, v) else v.pop with
        | (.full, v) => (.error .diskFull, v)
        | (_, v) =>
          match existing with
          | some (ino, old) =>
            v.writeInode ino (setBytes old data)
          | none =>
            match v.allocInode with
            | none => (.error .diskFull, v)
            | some (ino, v) =>
              match v.newFile parentIno name ino data with
              | (.ok (), v) => (.ok (), v)
              | (.error e, v) => (.error e, (v.freeInode ino (v.inodes ino)).2)

/-- a file's bytes with `data` at `offset`, written up to `stop`; a gap is zeros. -/
def patched (old : Bytes) (offset stop : Nat) (data : Bytes) : Bytes :=
  (List.range (max old.length stop)).map fun i =>
    if offset ≤ i ∧ i < stop then data.getD (i - offset) 0 else old.getD i 0

/-- `write_at`; a write that runs out of room keeps what it has written. -/
def writeAt (v : Ext2) (path : Bytes) (offset : Nat) (data : Bytes) : Except Error Unit × Ext2 :=
  if data = [] then (.ok (), v)
  else
    match v.resolve path with
    | .error e => (.error e, v)
    | .ok (ino, n) =>
      if !n.isReg then (.error .notAFile, v)
      else if offset > n.size ∧ offset - n.size > maxGapFill then (.error .invalidOffset, v)
      else
        let start := min n.size offset
        let stop := offset + data.length
        let (luck, v) := v.pop
        let reached := match luck with
          | .full => start
          | .slack k => min (start + k) stop
          | .grow => stop
        -- the new size is kept in 32 bits
        let size := max n.size reached % 2 ^ 32
        let v := v.setInode ino (setBytes n ((patched n.bytes offset reached data).take size))
        (if reached = stop then .ok () else .error .diskFull, v)

def mkdir (v : Ext2) (path : Bytes) : Except Error Unit × Ext2 :=
  match v.parentDir path .invalidName with
  | .error e => (.error e, v)
  | .ok (parentIno, parent, name) =>
    match v.lookupIn parent name with
    | .error e => (.error e, v)
    | .ok (some _) => (.error .alreadyExists, v)
    | .ok none =>
      match v.allocInode with
      | none => (.error .diskFull, v)
      | some (ino, v) =>
        match v.pop with
        | (.full, v) => (.error .diskFull, v)
        | (_, v) =>
          let ftype := if v.hasFiletype then ftDir else 0
          let own : List Entry := [⟨dot, ino, ftype⟩, ⟨dotdot, parentIno, ftype⟩]
          let v := v.setInode ino ⟨newDirPerm, v.creatorUid, v.creatorGid, 2, .dir v.blockSize own⟩
          match v.insertDirent parentIno name ino ftDir with
          | (.error e, v) => (.error e, v)
          | (.ok (), v) =>
            let parent := v.inodes parentIno
            v.writeInode parentIno { parent with links := (parent.links + 1) % 2 ^ 16 }

def dropLink (v : Ext2) (ino : Nat) (n : Inode) : Except Error Unit × Ext2 :=
  if n.links ≤ 1 then v.freeInode ino n else v.writeInode ino { n with links := n.links - 1 }

def rm (v : Ext2) (path : Bytes) : Except Error Unit × Ext2 :=
  match v.parentDir path .invalidName with
  | .error e => (.error e, v)
  | .ok (parentIno, parent, name) =>
    match entryIn parent name with
    | none => (.error .notFound, v)
    | some ino =>
      if !v.placed ino then v.removeDirent parentIno name
      else if (v.inodes ino).isDir then (.error .notAFile, v)
      else
        match v.removeDirent parentIno name with
        | (.error e, v) => (.error e, v)
        | (.ok (), v') => v'.dropLink ino (v.inodes ino)

def dirIsEmpty (n : Inode) : Bool := n.entries.all fun e => e.shown = dot ∨ e.shown = dotdot

def rmdir (v : Ext2) (path : Bytes) : Except Error Unit × Ext2 :=
  match v.parentDir path .cannotRemoveRoot with
  | .error e => (.error e, v)
  | .ok (parentIno, parent, name) =>
    match v.lookupIn parent name with
    | .error e => (.error e, v)
    | .ok none => (.error .notFound, v)
    | .ok (some (ino, n)) =>
      if !n.isDir then (.error .notADirectory, v)
      else if !dirIsEmpty n then (.error .directoryNotEmpty, v)
      else
        match v.removeDirent parentIno name with
        | (.error e, v) => (.error e, v)
        | (.ok (), v) =>
          -- the parent's inode is written as it was read, also where it is the one just freed
          let now := v.inodes parentIno
          match v.freeInode ino n with
          | (.error e, v) => (.error e, v)
          | (.ok (), v) => v.writeInode parentIno { now with links := (parent.links + 2 ^ 16 - 1) % 2 ^ 16 }

/-- the end of a `mv` of a directory to another parent. -/
def reparent (v : Ext2) (ino spIno dpIno : Nat) : Except Error Unit × Ext2 :=
  let v := v.setDotdot ino dpIno
  let dp := v.inodes dpIno
  let v := v.setInode dpIno { dp with links := (dp.links + 1) % 2 ^ 16 }
  let sp := v.inodes spIno
  (.ok (), v.setInode spIno { sp with links := (sp.links + 2 ^ 16 - 1) % 2 ^ 16 })

def mvOver (v : Ext2) (spIno : Nat) (sName : Bytes) (dpIno : Nat) (dName : Bytes) (s d : Nat × Inode) :
    Except Error Unit × Ext2 :=
  if (spIno = dpIno ∧ sName = dName) ∨ d.1 = s.1 then (.ok (), v)
  else if s.2.isDir ∨ d.2.isDir then (.error .alreadyExists, v)
  else
    match v.setDirentInode dpIno dName s.1 ftReg with
    | (.error e, v) => (.error e, v)
    | (.ok (), v) =>
      match v.removeDirent spIno sName with
      | (.error e, v) => (.error e, v)
      | (.ok (), v) => v.dropLink d.1 d.2

def mv (v : Ext2) (src dst : Bytes) : Except Error Unit × Ext2 :=
  match splitParent src, splitParent dst with
  | some _, some _ =>
    match v.parentDir src .invalidName with
    | .error e => (.error e, v)
    | .ok (spIno, sp, sName) =>
      match v.parentDir dst .invalidName with
      | .error e => (.error e, v)
      | .ok (dpIno, dp, dName) =>
        match v.lookupIn sp sName with
        | .error e => (.error e, v)
        | .ok none => (.error .notFound, v)
        | .ok (some s) =>
          match v.lookupIn dp dName with
          | .error e => (.error e, v)
          | .ok (some d) => v.mvOver spIno sName dpIno dName s d
          | .ok none =>
            match v.insertDirent dpIno dName s.1 (if s.2.isDir then ftDir else ftReg) with
            | (.error e, v) => (.error e, v)
            | (.ok (), v) =>
              match v.removeDirent spIno sName with
              | (.error e, v) => (.error e, v)
              | (.ok (), v) =>
                if spIno ≠ dpIno ∧ s.2.isDir then v.reparent s.1 spIno dpIno else (.ok (), v)
  | _, _ => (.error .invalidName, v)

def chmod (v : Ext2) (path : Bytes) (mode : Nat) : Except Error Unit × Ext2 :=
  match v.resolve path with
  | .error e => (.error e, v)
  | .ok (ino, n) => v.writeInode ino { n with perm := mode % 0o10000 }

def chown (v : Ext2) (path : Bytes) (uid gid : Option Nat) : Except Error Unit × Ext2 :=
  match v.resolve path with
  | .error e => (.error e, v)
  | .ok (ino, n) => v.writeInode ino { n with uid := uid.getD n.uid, gid := gid.getD n.gid }

def setCreator (v : Ext2) (uid gid : Nat) : Ext2 := { v with creatorUid := uid, creatorGid := gid }

end Ext2
end Ouroboros.Fsd
