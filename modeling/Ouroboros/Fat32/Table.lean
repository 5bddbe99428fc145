import Ouroboros.Fsd.Ext2
import Ouroboros.Lib.Image
import Ouroboros.Lib.Try

/-!
# FAT32: the volume and its table

* `Geometry`  where the copies of the table and the clusters lie, as `mountAt` reads them;
* `Fs`  the disk with what the driver remembers, and every sector access so far;
* `Volume`  a mounted volume: its geometry, the accesses that fail, how often a loop may go round;
* `nextCluster`, `writeFatEntry`, `findFreeCluster`, `freeChain`  the cluster chains.

The driver counts sectors in 32 bits; a sum that does not fit wraps, and is recorded.
-/

namespace Ouroboros.Fat32

open Fsd (Error)
open Buffer Image List

abbrev Sector := Image

def sectorSize : Nat := 512
def endOfChainMin : Nat := 0x0ffffff8
def badCluster : Nat := 0x0ffffff7

def endsWalk (value : Nat) : Bool := value = 0 ∨ value ≥ endOfChainMin

/-! ## State -/

inductive FatCopies where
  | mirrored
  | single (n : Nat)
deriving DecidableEq, Repr

def FatCopies.readCopy : FatCopies → Nat
  | .mirrored => 0
  | .single n => n

/-- the fields of `Fs` that `mount_at` sets for good. -/
structure Geometry where
  partitionLba : Nat
  sectorsPerCluster : Nat
  fatStartLba : Nat
  dataStartLba : Nat
  rootCluster : Nat
  numFats : Nat
  fats : FatCopies
  fatSize32 : Nat
  clusterEnd : Nat
deriving DecidableEq, Repr

structure ChainCursor where
  fileCluster : Nat
  cluster : Nat
  clusterPos : Nat
deriving DecidableEq, Repr

inductive Area where
  | boot
  | fat
  | data
deriving DecidableEq, Repr

inductive Event where
  | read (area : Area) (lba : Nat)
  | write (area : Area) (lba : Nat) (data : Sector)
  | wrapped

def Event.isWrite : Event → Bool
  | .write _ _ _ => true
  | _ => false

structure Fs where
  disk : Nat → Sector
  readCursor : Option ChainCursor
  writeCursor : Option ChainCursor
  /-- `fat_cache`: a sector of the table and its number. -/
  fatCache : Option (Nat × Sector)
  nextFreeHint : Nat
  log : List Event

def Fs.fresh (disk : Nat → Sector) : Fs := ⟨disk, none, none, none, 2, []⟩

def Fs.record (s : Fs) (e : Event) : Fs := { s with log := s.log ++ [e] }

/-- why an operation ends without a result: an error, a sector that is no boot sector, or a loop that
went round too often. -/
inductive Stop where
  | error (e : Error)
  | notFat32
  | unsupportedSectorSize (n : Nat)
  | spent
deriving DecidableEq, Repr

abbrev Op := Try Fs Stop

def err {α : Type} (e : Error) : Op α := Try.fail (.error e)

structure Device where
  fails : List Event → Event → Bool

structure Volume extends Device where
  geo : Geometry
  fuel : Nat

namespace Device
variable (d : Device)

def readSector (area : Area) (lba : Nat) : Op Sector := fun s =>
  let e := Event.read area lba
  if d.fails s.log e then (.error (.error .io), s.record e) else (.ok (s.disk lba), s.record e)

def writeSector (area : Area) (lba : Nat) (data : Sector) : Op Unit := fun s =>
  let e := Event.write area lba data
  if d.fails s.log e then (.error (.error .io), s.record e)
  else (.ok (), { s.record e with disk := Function.update s.disk lba data })

end Device

/-- a sum of `bits` bits. -/
def word (bits n : Nat) : Op Nat :=
  if n < 2 ^ bits then pure n
  else do
    Try.change (·.record .wrapped)
    pure (n % 2 ^ bits)

abbrev u32 : Nat → Op Nat := word 32
abbrev u64 : Nat → Op Nat := word 64

/-! ## Mounting -/

/-- `b"FAT32   "`. -/
def fat32Label : List UInt8 := [70, 65, 84, 51, 50, 32, 32, 32]

def totalSectors (bpb : Sector) : Nat := if num bpb 19 2 ≠ 0 then num bpb 19 2 else num bpb 32 4

def metaSectors (bpb : Sector) : Nat := num bpb 14 2 + num bpb 16 1 * num bpb 36 4

def fatCopies (bpb : Sector) : FatCopies :=
  if num bpb 40 2 / 0x80 % 2 = 0 then .mirrored else .single (num bpb 40 2 % 0x10)

/-- `cluster_end`: past the last cluster that both the volume and the table have. -/
def clusterEnd (bpb : Sector) : Nat :=
  let clusters := (totalSectors bpb - metaSectors bpb) / num bpb 13 1
  min (min (clusters + 2) (num bpb 36 4 * (sectorSize / 4))) badCluster

def Geometry.inHeap (g : Geometry) (cluster : Nat) : Bool := 2 ≤ cluster && cluster < g.clusterEnd

def Device.mountAt (d : Device) (partitionLba partitionSectors : Nat) : Op Geometry := do
  let bpb ← d.readSector .boot partitionLba
  if num bpb 11 2 ≠ sectorSize then Try.fail (.unsupportedSectorSize (num bpb 11 2))
  else if num bpb 17 2 ≠ 0 ∨ num bpb 22 2 ≠ 0 ∨ read bpb 82 8 ≠ fat32Label then Try.fail .notFat32
  else if num bpb 13 1 = 0 ∨ num bpb 16 1 = 0 ∨ num bpb 14 2 = 0 ∨ totalSectors bpb ≤ metaSectors bpb then
    Try.fail .notFat32
  else if (fatCopies bpb).readCopy ≥ num bpb 16 1 then Try.fail .notFat32
  else if totalSectors bpb > partitionSectors then Try.fail .notFat32
  else do
    let fatStart ← u32 (partitionLba + num bpb 14 2)
    let dataStart ← u32 (partitionLba + metaSectors bpb)
    let geo : Geometry :=
      { partitionLba := partitionLba
        sectorsPerCluster := num bpb 13 1
        fatStartLba := fatStart
        dataStartLba := dataStart
        rootCluster := num bpb 44 4
        numFats := num bpb 16 1
        fats := fatCopies bpb
        fatSize32 := num bpb 36 4
        clusterEnd := clusterEnd bpb }
    if geo.inHeap geo.rootCluster then pure geo else Try.fail .notFat32

/-! ## The table -/

def Geometry.clusterBytes (g : Geometry) : Nat := g.sectorsPerCluster * sectorSize

def Geometry.link (g : Geometry) (value : Nat) : Option Nat :=
  if endsWalk value || !g.inHeap value then none else some value

/-- the clusters from the hint to the end, and then those before it. -/
def Geometry.scanFrom (g : Geometry) (hint : Nat) : List Nat :=
  let start := if g.inHeap hint then hint else 2
  range' start (g.clusterEnd - start) ++ range' 2 (start - 2)

def ChainCursor.start (cursor : Option ChainCursor) (head pos : Nat) : Nat × Nat :=
  match cursor with
  | some c => if c.fileCluster = head ∧ c.clusterPos ≤ pos then (c.cluster, c.clusterPos) else (head, 0)
  | none => (head, 0)

namespace Volume
variable (v : Volume)

def clusterToLba (cluster : Nat) : Op Nat :=
  if v.geo.inHeap cluster then do
    let sectors ← u32 ((cluster - 2) * v.geo.sectorsPerCluster)
    u32 (v.geo.dataStartLba + sectors)
  else err .io

/-- `fat_place_in`: the sector of an entry in a copy of the table, and its place there. -/
def fatPlaceIn (copy cluster : Nat) : Op (Nat × Nat) := do
  let byte ← u32 (cluster * 4)
  let start ← u32 (copy * v.geo.fatSize32)
  let start ← u32 (v.geo.fatStartLba + start)
  let lba ← u32 (start + byte / sectorSize)
  pure (lba, byte % sectorSize)

def fatPlace (cluster : Nat) : Op (Nat × Nat) := v.fatPlaceIn v.geo.fats.readCopy cluster

def fatSector (lba : Nat) : Op Sector := do
  match ← Try.ask (·.fatCache) with
  | some (cached, data) => if cached = lba then pure data else fetch
  | none => fetch
where fetch : Op Sector := do
    let data ← v.readSector .fat lba
    Try.change ({ · with fatCache := some (lba, data) })
    pure data

def fatEntry (cluster : Nat) : Op Nat :=
  if v.geo.inHeap cluster then do
    let (lba, offset) ← v.fatPlace cluster
    let data ← v.fatSector lba
    pure (num data offset 4 % 2 ^ 28)
  else err .io

def nextCluster (cluster : Nat) : Op (Option Nat) := do
  let value ← v.fatEntry cluster
  pure (v.geo.link value)

def setEntry (buf : Sector) (offset value : Nat) : Sector :=
  write buf offset (le 4 (num buf offset 4 / 2 ^ 28 * 2 ^ 28 + value % 2 ^ 28))

def mirror (cluster : Nat) (buf : Sector) : Op Unit :=
  match v.geo.fats with
  | .single _ => pure ()
  | .mirrored =>
    Try.each (range' 1 (v.geo.numFats - 1)) fun i => do
      let (lba, _) ← v.fatPlaceIn i cluster
      v.writeSector .fat lba buf

def dropCursors (next : Option Nat) : Op Unit :=
  if next.isSome then Try.change ({ · with readCursor := none, writeCursor := none }) else pure ()

def writeFatEntry (cluster value : Nat) : Op Unit :=
  if v.geo.inHeap cluster then do
    let next ← v.nextCluster cluster
    dropCursors next
    let (lba, offset) ← v.fatPlace cluster
    let buf ← v.fatSector lba
    let buf := setEntry buf offset value
    v.writeSector .fat lba buf
    Try.change ({ · with fatCache := some (lba, buf) })
    v.mirror cluster buf
  else err .io

/-- the scan of `find_free_cluster`. -/
def firstFree : List Nat → Op Nat
  | [] => err .diskFull
  | cluster :: rest => do
    let value ← v.fatEntry cluster
    if value = 0 then do
      Try.change ({ · with nextFreeHint := cluster + 1 })
      pure cluster
    else firstFree rest

def findFreeCluster : Op Nat := do
  let hint ← Try.ask (·.nextFreeHint)
  v.firstFree (v.geo.scanFrom hint)

def sectorAt (lba s : Nat) : Op Nat := u32 (lba + s)

def zeroCluster (cluster : Nat) : Op Unit := do
  let lba ← v.clusterToLba cluster
  Try.each (range v.geo.sectorsPerCluster) fun s => do
    let sector ← sectorAt lba s
    v.writeSector .data sector fun _ => 0

/-- the loop of `free_chain`. -/
def freeFrom : Nat → Nat → Op Unit
  | 0, _ => Try.fail .spent
  | fuel + 1, cluster => do
    let next ← v.nextCluster cluster
    v.writeFatEntry cluster 0
    Try.change fun s => { s with nextFreeHint := min s.nextFreeHint cluster }
    match next with
    | some n => freeFrom fuel n
    | none => pure ()

def freeChain (start : Nat) : Op Unit :=
  if v.geo.inHeap start then v.freeFrom v.fuel start else pure ()

end Volume
end Ouroboros.Fat32
