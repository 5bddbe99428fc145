import Ouroboros.Fat32.Walk

/-!
# FAT32: the operations that change a volume

* `insertNamedEntry`, `freeEntryWithLfn`  slots of a directory, taken and given back;
* `mkdir`, `rmdir`, `touch`, `rm`, `writeFile`, `writeAt`, `mv`;
* `Request`, `exec`  every operation, for runs of them.
-/

namespace Ouroboros.Fat32

open Fsd (Bytes Error splitParent)
open Buffer Image

def maxGapFill : Nat := 2 ^ 20

def sectorOf (b : Bytes) : Sector := write (fun _ => 0) 0 b

namespace Volume
variable (v : Volume)

/-! ## Slots -/

def isOpen (buf : Sector) (p : Place) : Bool :=
  slot buf p.offset 0 = dirEntryFree || slot buf p.offset 0 = dirEntryEnd

def grow (cluster : Nat) : Op Nat := do
  let new ← v.findFreeCluster
  v.writeFatEntry new endOfChainMin
  v.zeroCluster new
  v.writeFatEntry cluster new
  pure new

def firstOpen (_ : Unit) (buf : Sector) (p : Place) : Unit ⊕ (Sector × Place) :=
  if isOpen buf p then .inr (buf, p) else .inl ()

def insertDirEntry (startCluster : Nat) (short : List UInt8) (ntres attr : UInt8) (cluster size : Nat) :
    Op Unit := do
  let (buf, p) ← v.scanFrom firstOpen (fun c _ => Sum.inl <$> v.grow c) v.fuel startCluster ()
  v.writeSector .data p.lba (write buf p.offset (writeRawEntry short ntres attr cluster size))

def hasShort (short : List UInt8) (_ : Unit) (buf : Sector) (p : Place) : Unit ⊕ Bool :=
  let raw := slot buf p.offset
  if raw 0 = dirEntryEnd then .inr false
  else if raw 0 = dirEntryFree then .inl ()
  else if raw 11 ≠ attrLfn ∧ read raw 0 11 = short then .inr true
  else .inl ()

def shortAliasExists (dirCluster : Nat) (short : List UInt8) : Op Bool :=
  v.scanFrom (hasShort short) (fun _ _ => pure (.inr false)) v.fuel dirCluster ()

/-- the aliases from number `n` on, `k` of them. -/
def aliasFrom (dirCluster : Nat) (base ext : List UInt8) : Nat → Nat → Op (List UInt8)
  | 0, _ => err .alreadyExists
  | k + 1, n => do
    let short := composeAlias base ext n
    if ← v.shortAliasExists dirCluster short then aliasFrom dirCluster base ext k (n + 1) else pure short

def generateShortAlias (name : Bytes) (dirCluster : Nat) : Op (List UInt8) :=
  v.aliasFrom dirCluster (aliasBase name) (aliasExt name) 999999 1

/-- open slots in a row, until there are `count`. -/
def openRun (count : Nat) (run : List Place) (buf : Sector) (p : Place) : List Place ⊕ List Place :=
  if isOpen buf p then
    if run.length + 1 = count then .inr (run ++ [p]) else .inl (run ++ [p])
  else .inl []

/-- bytes of several places, one write for those of a sector that follow each other. -/
def rewrite (changes : List (Place × List UInt8)) : Op Unit :=
  Try.each (changes.splitBy fun a b => a.1.lba = b.1.lba) fun group =>
    match group with
    | [] => pure ()
    | (p, _) :: _ => do
      let buf ← v.readSector .data p.lba
      v.writeSector .data p.lba (group.foldl (fun buf c => write buf c.1.offset c.2) buf)

def placeEntries (entries : List (List UInt8)) (locs : List Place) : Op Unit := v.rewrite (locs.zip entries)

def writeEntryRun (dirCluster : Nat) (entries : List (List UInt8)) : Op Unit := do
  let locs ← v.scanFrom (openRun entries.length) (fun c _ => Sum.inl <$> v.grow c) v.fuel dirCluster []
  v.placeEntries entries locs

def insertNamedEntry (dirCluster : Nat) (name : Bytes) (attr : UInt8) (cluster size : Nat) : Op Unit :=
  match makeShortName name with
  | some (short, ntres) => v.insertDirEntry dirCluster short ntres attr cluster size
  | none => do
    let short ← v.generateShortAlias name dirCluster
    v.writeEntryRun dirCluster (buildNameEntries ((Utf16.unitsOf name).getD []) short attr cluster size)

/-- one slot on the way to the one to free, with the long-name slots just before it. -/
def runBefore (target : Place) (a : List Place × UInt8) (buf : Sector) (p : Place) :
    (List Place × UInt8) ⊕ Option (List Place) :=
  let raw := slot buf p.offset
  if raw 0 = dirEntryEnd then .inr none
  else if raw 0 = dirEntryFree then .inl ([], a.2)
  else if raw 11 = attrLfn then .inl (if a.1.length < maxLfnEntries then a.1 ++ [p] else a.1, raw 13)
  else if raw 11 &&& attrVolumeId ≠ 0 then .inl ([], a.2)
  else if p = target then
    .inr (some ((if a.1 ≠ [] ∧ a.2 = lfnChecksum (read raw 0 11) then a.1 else []) ++ [p]))
  else .inl ([], a.2)

def freeEntryWithLfn (dirCluster : Nat) (target : Place) : Op Unit := do
  match ← v.scanFrom (runBefore target) (fun _ _ => pure (.inr none)) v.fuel dirCluster ([], 0) with
  | none => err .notFound
  | some slots => v.rewrite (slots.map (·, [dirEntryFree]))

def patchEntryClusterSize (p : Place) (cluster size : Nat) : Op Unit := do
  let sector ← v.readSector .data p.lba
  let sector := write sector (p.offset + 20) (le 2 (cluster / 2 ^ 16))
  let sector := write sector (p.offset + 26) (le 2 cluster)
  let sector := write sector (p.offset + 28) (le 4 size)
  v.writeSector .data p.lba sector

/-! ## Directories -/

/-- the cluster of a directory as `..` names it. -/
def dotdotCluster (parent : Nat) : Nat := if parent = v.geo.rootCluster then 0 else parent

def findDir (path : Bytes) : Op DirEntry := do
  let dir ← v.find path
  if !dir.isDir then err .notADirectory else pure dir

def firstSector (cluster dotdot : Nat) : Sector :=
  sectorOf (writeRawEntry dotName 0 attrDirectory cluster 0 ++ writeRawEntry dotdotName 0 attrDirectory dotdot 0)

def mkdir (path : Bytes) : Op Unit :=
  match splitParent path with
  | none => err .invalidName
  | some (parentPath, name) =>
    if !validateCreateName name then err .invalidName
    else do
      let parent ← v.findDir parentPath
      match ← v.lookup parent.cluster name with
      | some _ => err .alreadyExists
      | none => do
        let new ← v.findFreeCluster
        v.writeFatEntry new endOfChainMin
        v.zeroCluster new
        let lba ← v.clusterToLba new
        v.writeSector .data lba (firstSector new (v.dotdotCluster parent.cluster))
        v.insertNamedEntry parent.cluster name attrDirectory new 0

/-- the end of `rmdir` and of `rm`: the entry that answers to the name is freed. -/
def unlink (parentPath name : Bytes) : Op Unit := do
  let parent ← v.find parentPath
  match ← v.lookup parent.cluster name with
  | none => err .notFound
  | some (_, p) => v.freeEntryWithLfn parent.cluster p

/-- the directory has no entry but `.` and `..`. -/
def isEmpty (cluster : Nat) : Op Bool :=
  v.walkDirWithLocation cluster true fun empty e _ =>
    if !isDotOrDotdot e.name then (false, true) else (empty, false)

def rmdir (path : Bytes) : Op Unit :=
  match splitParent path with
  | none => err .cannotRemoveRoot
  | some (parentPath, name) => do
    let target ← v.find path
    if !target.isDir then err .notADirectory
    else if target.cluster = v.geo.rootCluster ∨ target.cluster = 0 then err .cannotRemoveRoot
    else do
      if ← v.isEmpty target.cluster then do
        v.freeChain target.cluster
        v.unlink parentPath name
      else err .directoryNotEmpty

/-! ## Files -/

def touch (path : Bytes) : Op Unit :=
  match splitParent path with
  | none => err .invalidName
  | some (parentPath, name) =>
    if !validateCreateName name then err .invalidName
    else do
      let parent ← v.findDir parentPath
      match ← v.lookup parent.cluster name with
      | some (e, _) => if e.isDir then err .notAFile else pure ()
      | none => v.insertNamedEntry parent.cluster name 0 0 0

def freeFile (cluster : Nat) : Op Unit := if cluster ≠ 0 then v.freeChain cluster else pure ()

def rm (path : Bytes) : Op Unit :=
  match splitParent path with
  | none => err .invalidName
  | some (parentPath, name) => do
    let target ← v.find path
    if target.isDir then err .notAFile
    else do
      v.freeFile target.cluster
      v.unlink parentPath name

def linkAfter (ends : Option (Nat × Nat)) (cluster : Nat) : Op Unit :=
  match ends with
  | some (_, prev) => v.writeFatEntry prev cluster
  | none => pure ()

/-- the bytes of `data` from `written` on, in the sectors of a cluster. -/
def fillCluster (data : Bytes) (written cluster : Nat) : Op Unit := do
  let lba ← v.clusterToLba cluster
  Try.each (List.range v.geo.sectorsPerCluster) fun s => do
    let sector ← sectorAt lba s
    v.writeSector .data sector (sectorOf ((data.drop (written + s * sectorSize)).take sectorSize))

/-- the loop of `write_chain`: `n` clusters more, after the first and the last so far. -/
def writeClusters (data : Bytes) : Nat → Option (Nat × Nat) → Nat → Op Nat
  | 0, ends, _ => pure (ends.elim 0 Prod.fst)
  | n + 1, ends, written => do
    let cluster ← v.findFreeCluster
    v.writeFatEntry cluster endOfChainMin
    v.linkAfter ends cluster
    v.fillCluster data written cluster
    writeClusters data n (some (ends.elim cluster Prod.fst, cluster)) (written + v.geo.clusterBytes)

def writeChain (data : Bytes) : Op Nat :=
  if data = [] then pure 0
  else v.writeClusters data ((data.length + v.geo.clusterBytes - 1) / v.geo.clusterBytes) none 0

def writeFile (path data : Bytes) : Op Unit :=
  match splitParent path with
  | none => err .invalidName
  | some (parentPath, name) => do
    let parent ← v.findDir parentPath
    match ← v.lookup parent.cluster name with
    | some (e, p) =>
      if e.isDir then err .notAFile
      else do
        let new ← v.writeChain data
        v.freeFile e.cluster
        v.patchEntryClusterSize p new data.length
    | none =>
      if !validateCreateName name then err .invalidName
      else do
        let new ← v.writeChain data
        v.insertNamedEntry parent.cluster name 0 new (data.length % 2 ^ 32)

def writePartialSector (lba offset : Nat) (b : Bytes) : Op Unit := do
  let sector ← v.readSector .data lba
  v.writeSector .data lba (write sector offset b)

def extendChain (tail : Nat) : Op Nat := do
  let new ← v.findFreeCluster
  v.writeFatEntry new endOfChainMin
  v.writeFatEntry tail new
  pure new

def nextOrExtend (cluster : Nat) : Op Nat := do
  match ← v.nextCluster cluster with
  | some next => pure next
  | none => v.extendChain cluster

/-- the walk to the cluster that holds `target`, which lengthens the chain where it ends. -/
def advance (target : Nat) : Nat → Nat → Nat → Op (Nat × Nat)
  | 0, _, _ => Try.fail .spent
  | fuel + 1, cluster, clusterPos => do
    let stop ← u64 (clusterPos + v.geo.clusterBytes)
    if stop ≤ target then do
      let next ← v.nextOrExtend cluster
      advance target fuel next stop
    else pure (cluster, clusterPos)

/-- the bytes of a file from `pos` on: `data` from `offset` on, zeros before. -/
def chunkAt (data : Bytes) (offset pos n : Nat) : Bytes :=
  (List.range n).map fun i => if offset ≤ pos + i then data.getD (pos + i - offset) 0 else 0

/-- one sector of `write_at`: all of it, part of one that holds the file's bytes, or part of a new one. -/
def writeSpan (lba sectorStart oldSize offset pos n : Nat) (data : Bytes) : Op Unit :=
  let start := pos - sectorStart
  let chunk := chunkAt data offset pos n
  if start = 0 ∧ n = sectorSize then v.writeSector .data lba (sectorOf chunk)
  else if sectorStart < oldSize then v.writePartialSector lba start chunk
  else v.writeSector .data lba (write (fun _ => 0) start chunk)

/-- the loop of `write_at` over the sectors, from `pos` to `stop`. -/
def writeSpans (oldSize offset stop : Nat) (data : Bytes) : Nat → Nat → Nat → Nat → Op (Nat × Nat)
  | 0, _, _, _ => Try.fail .spent
  | fuel + 1, pos, cluster, clusterPos =>
    if pos < stop then do
      let (cluster, clusterPos) ← v.advance pos (pos + 1) cluster clusterPos
      let k := (pos - clusterPos) / sectorSize
      let lba ← v.clusterToLba cluster
      let sectorStart := clusterPos + k * sectorSize
      let n := min (sectorSize - (pos - sectorStart)) (stop - pos)
      v.writeSpan (lba + k) sectorStart oldSize offset pos n data
      writeSpans oldSize offset stop data fuel (pos + n) cluster clusterPos
    else pure (cluster, clusterPos)

/-- the head of the chain that `write_at` writes: the file's, or a new one. -/
def headCluster (cluster : Nat) : Op Nat :=
  if cluster = 0 then do
    let c ← v.findFreeCluster
    v.writeFatEntry c endOfChainMin
    pure c
  else pure cluster

/-- `write_at` below the entry it found. -/
def writeEntry (e : DirEntry) (p : Place) (offset : Nat) (data : Bytes) : Op Unit :=
  if e.size < offset ∧ maxGapFill < offset - e.size then err .invalidOffset
  else do
    let head ← v.headCluster e.cluster
    let start := min e.size offset
    let stop ← u64 (offset + data.length)
    let cursor ← Try.ask (·.writeCursor)
    let (cluster, clusterPos) := ChainCursor.start cursor head start
    let (cluster, clusterPos) ← v.advance start (start + 1) cluster clusterPos
    let (cluster, clusterPos) ← v.writeSpans e.size offset stop data (stop - start + 1) start cluster clusterPos
    Try.change ({ · with writeCursor := some ⟨head, cluster, clusterPos⟩ })
    v.patchEntryClusterSize p head (max e.size stop)

def writeAt (path : Bytes) (offset : Nat) (data : Bytes) : Op Unit :=
  if data = [] then pure ()
  else
    match splitParent path with
    | none => err .invalidName
    | some (parentPath, name) => do
      let parent ← v.findDir parentPath
      match ← v.lookup parent.cluster name with
      | none => err .notFound
      | some (e, p) => if e.isDir then err .notAFile else v.writeEntry e p offset data

/-! ## Renaming -/

def replace (srcDir dstDir : Nat) (srcName dstName : Bytes) (src dst : DirEntry × Place) : Op Unit :=
  let sameEntry : Bool := dst.2 = src.2
  if sameEntry ∧ srcName = dstName then pure ()
  else if src.1.isDir ∨ dst.1.isDir then err .alreadyExists
  else do
    v.insertNamedEntry dstDir dstName 0 src.1.cluster src.1.size
    v.freeEntryWithLfn dstDir dst.2
    if sameEntry then pure ()
    else do
      v.freeEntryWithLfn srcDir src.2
      if dst.1.cluster ≠ 0 ∧ dst.1.cluster ≠ src.1.cluster then v.freeChain dst.1.cluster else pure ()

def relink (srcDir dstDir : Nat) (dstName : Bytes) (src : DirEntry × Place) : Op Unit := do
  v.insertNamedEntry dstDir dstName (if src.1.isDir then attrDirectory else 0) src.1.cluster src.1.size
  v.freeEntryWithLfn srcDir src.2
  if src.1.isDir ∧ srcDir ≠ dstDir then do
    let lba ← v.clusterToLba src.1.cluster
    v.patchEntryClusterSize ⟨lba, dirEntrySize⟩ (v.dotdotCluster dstDir) 0
  else pure ()

def mv (src dst : Bytes) : Op Unit :=
  match splitParent src, splitParent dst with
  | some (srcParentPath, srcName), some (dstParentPath, dstName) =>
    if !validateCreateName dstName then err .invalidName
    else do
      let srcParent ← v.findDir srcParentPath
      let dstParent ← v.findDir dstParentPath
      match ← v.lookup srcParent.cluster srcName with
      | none => err .notFound
      | some src =>
        match ← v.lookup dstParent.cluster dstName with
        | some dst => v.replace srcParent.cluster dstParent.cluster srcName dstName src dst
        | none => v.relink srcParent.cluster dstParent.cluster dstName src
  | _, _ => err .invalidName

end Volume

/-! ## Requests -/

inductive Request where
  | listDir (path : Bytes) (stop : List (Bytes × Bool) → Bool)
  | stat (path : Bytes)
  | readFile (path : Bytes) (room : Nat)
  | readAt (path : Bytes) (offset room : Nat)
  | readEach (path : Bytes) (offset want room : Nat) (stop : List Bytes → Bool)
  | mkdir (path : Bytes)
  | rmdir (path : Bytes)
  | touch (path : Bytes)
  | rm (path : Bytes)
  | writeFile (path data : Bytes)
  | writeAt (path : Bytes) (offset : Nat) (data : Bytes)
  | mv (src dst : Bytes)

inductive Reply where
  | entries (l : List (Bytes × Bool))
  | status (size : Nat) (isDir : Bool) (time : Option Fsd.CalTime)
  | file (size : Nat) (data : Bytes)
  | data (b : Bytes)
  | pieces (l : List Bytes) (done : Nat) (stopped : Bool)
  | done
deriving DecidableEq

def Volume.exec (v : Volume) : Request → Op Reply
  | .listDir path stop => Reply.entries <$> v.listDir path stop
  | .stat path => (fun x => Reply.status x.1 x.2.1 x.2.2) <$> v.stat path
  | .readFile path room => (fun x => Reply.file x.1 x.2) <$> v.readFile path room
  | .readAt path offset room => Reply.data <$> v.readAt path offset room
  | .readEach path offset want room stop =>
    (fun x => Reply.pieces x.1 x.2.1 x.2.2) <$> v.readEach path offset want room stop
  | .mkdir path => (fun _ => Reply.done) <$> v.mkdir path
  | .rmdir path => (fun _ => Reply.done) <$> v.rmdir path
  | .touch path => (fun _ => Reply.done) <$> v.touch path
  | .rm path => (fun _ => Reply.done) <$> v.rm path
  | .writeFile path data => (fun _ => Reply.done) <$> v.writeFile path data
  | .writeAt path offset data => (fun _ => Reply.done) <$> v.writeAt path offset data
  | .mv src dst => (fun _ => Reply.done) <$> v.mv src dst

end Ouroboros.Fat32
