import Ouroboros.Fat32.Names

/-!
# FAT32: walks and reads

* `scanFrom`  a directory's slots one after another, cluster after cluster;
* `walkDirWithLocation`  its entries, with where they stand;
* `find`, `listDir`, `stat`, `readFile`, `readAt`, `readEach`  the operations that change nothing.
-/

namespace Ouroboros.Fat32

open Fsd (Bytes Error components)
open Image

structure Place where
  lba : Nat
  offset : Nat
deriving DecidableEq, Repr

section Slots
variable {α ρ : Type} (look : α → Sector → Place → α ⊕ ρ)

/-- the slots of a sector at these offsets: what has been gathered, or what ends the scan. -/
def eachSlot (buf : Sector) (lba : Nat) : List Nat → α → α ⊕ ρ
  | [], a => .inl a
  | offset :: rest, a =>
    match look a buf ⟨lba, offset⟩ with
    | .inl a => eachSlot buf lba rest a
    | .inr r => .inr r

end Slots

namespace Volume
variable (v : Volume)

section Scan
variable {α ρ : Type} (look : α → Sector → Place → α ⊕ ρ)

/-- the sectors of the cluster at `lba`. -/
def scanSectors (lba : Nat) : List Nat → α → Op (α ⊕ ρ)
  | [], a => pure (.inl a)
  | s :: rest, a => do
    let sector ← sectorAt lba s
    let buf ← v.readSector .data sector
    match eachSlot look buf sector slotOffsets a with
    | .inl a => scanSectors lba rest a
    | .inr r => pure (.inr r)

/-- the loop of every function that goes through a directory; `atEnd` is taken past its last cluster. -/
def scanFrom (atEnd : Nat → α → Op (Nat ⊕ ρ)) : Nat → Nat → α → Op ρ
  | 0, _, _ => Try.fail .spent
  | fuel + 1, cluster, a => do
    let lba ← v.clusterToLba cluster
    match ← v.scanSectors look lba (List.range v.geo.sectorsPerCluster) a with
    | .inr r => pure r
    | .inl a =>
      match ← v.nextCluster cluster with
      | some next => scanFrom atEnd fuel next a
      | none =>
        match ← atEnd cluster a with
        | .inl next => scanFrom atEnd fuel next a
        | .inr r => pure r

end Scan

/-! ## Entries -/

/-- one slot of a walk that calls `f` on every entry. -/
def visit {α : Type} (f : α → DirEntry → Place → α × Bool) (a : Lfn × α) (buf : Sector) (p : Place) :
    (Lfn × α) ⊕ α :=
  match scanSlot a.1 (slot buf p.offset) with
  | .stop => .inr a.2
  | .skip l => .inl (l, a.2)
  | .entry e l =>
    match f a.2 e p with
    | (b, true) => .inr b
    | (b, false) => .inl (l, b)

def walkDirWithLocation {α : Type} (startCluster : Nat) (init : α) (f : α → DirEntry → Place → α × Bool) :
    Op α :=
  v.scanFrom (visit f) (fun _ a => pure (.inr a.2)) v.fuel startCluster (Lfn.empty, init)

def lookup (cluster : Nat) (name : Bytes) : Op (Option (DirEntry × Place)) :=
  v.walkDirWithLocation cluster none fun a e p =>
    if namesMatch e.name name then (some (e, p), true) else (a, false)

def orRoot (e : DirEntry) : DirEntry :=
  if e.isDir ∧ e.cluster = 0 then { e with cluster := v.geo.rootCluster } else e

/-- the loop of `find`. -/
def findFrom : List Bytes → DirEntry → Op DirEntry
  | [], current => pure current
  | component :: rest, current =>
    if !current.isDir then err .notADirectory
    else do
      match ← v.lookup current.cluster component with
      | some (e, _) => findFrom rest (v.orRoot e)
      | none => err .notFound

def find (path : Bytes) : Op DirEntry := v.findFrom (components path) (DirEntry.root v.geo.rootCluster)

/-- `list_dir`: the entries shown; `stop` is the callback's answer to those shown so far. -/
def listDir (path : Bytes) (stop : List (Bytes × Bool) → Bool) : Op (List (Bytes × Bool)) := do
  let dir ← v.find path
  if !dir.isDir then err .notADirectory
  else
    v.walkDirWithLocation dir.cluster [] fun shown e _ =>
      (shown ++ [(e.name, e.isDir)], stop (shown ++ [(e.name, e.isDir)]))

def decodeFatTime (date time : Nat) : Option Fsd.CalTime :=
  if date = 0 then none
  else if ¬ (1 ≤ date / 2 ^ 5 % 16 ∧ date / 2 ^ 5 % 16 ≤ 12) ∨ ¬ (1 ≤ date % 32 ∧ date % 32 ≤ 31) then none
  else
    some
      { year := 1980 + date / 2 ^ 9
        month := date / 2 ^ 5 % 16
        day := date % 32
        hour := time / 2 ^ 11
        min := time / 2 ^ 5 % 64
        sec := time % 32 * 2 }

/-- `stat`: the size, whether it is a directory, and the time. -/
def stat (path : Bytes) : Op (Nat × Bool × Option Fsd.CalTime) := do
  let e ← v.find path
  pure (e.size, e.isDir, decodeFatTime e.mtimeDate e.mtimeTime)

/-! ## Contents -/

section Copy
variable (offset want : Nat)

/-- the sectors of a cluster that hold bytes from `offset` on, until `want` are read. -/
def copySectors (lba clusterPos : Nat) : List Nat → Bytes → Op Bytes
  | [], out => pure out
  | s :: rest, out =>
    if want ≤ out.length then pure out
    else do
      let sectorPos := clusterPos + s * sectorSize
      let stop ← u64 (sectorPos + sectorSize)
      if stop ≤ offset then copySectors lba clusterPos rest out
      else do
        let sector ← sectorAt lba s
        let data ← v.readSector .data sector
        let start := max offset sectorPos - sectorPos
        copySectors lba clusterPos rest (out ++ read data start (min (sectorSize - start) (want - out.length)))

/-- the loop of `read_file` and of `read_entry`: the bytes, and the cluster it ended in. -/
def copyClusters : Nat → Nat → Nat → Bytes → Op (Bytes × Nat × Nat)
  | 0, _, _, _ => Try.fail .spent
  | fuel + 1, cluster, clusterPos, out => do
    let lba ← v.clusterToLba cluster
    let out ← v.copySectors offset want lba clusterPos (List.range v.geo.sectorsPerCluster) out
    if want ≤ out.length then pure (out, cluster, clusterPos)
    else
      match ← v.nextCluster cluster with
      | some next => do
        let pos ← u64 (clusterPos + v.geo.clusterBytes)
        copyClusters fuel next pos out
      | none => pure (out, cluster, clusterPos)

/-- the walk to the cluster that holds `offset`, `none` past the end of the chain. -/
def seek : Nat → Nat → Nat → Op (Option (Nat × Nat))
  | 0, _, _ => Try.fail .spent
  | fuel + 1, cluster, clusterPos => do
    let stop ← u64 (clusterPos + v.geo.clusterBytes)
    if stop ≤ offset then
      match ← v.nextCluster cluster with
      | some next => seek fuel next stop
      | none => pure none
    else pure (some (cluster, clusterPos))

end Copy

/-- `read_file` into a buffer of `room` bytes: the size of the file and the bytes read. -/
def readFile (path : Bytes) (room : Nat) : Op (Nat × Bytes) := do
  let file ← v.find path
  if file.isDir then err .notAFile
  else if file.size = 0 then pure (0, [])
  else do
    let want := min file.size room
    let (out, _) ← v.copyClusters 0 want (want + 1) file.cluster 0 []
    pure (file.size, out)

def findFile (path : Bytes) : Op DirEntry := do
  let file ← v.find path
  if file.isDir then err .notAFile else pure file

def readEntry (file : DirEntry) (offset room : Nat) : Op Bytes :=
  if file.size ≤ offset ∨ room = 0 ∨ file.cluster = 0 then pure []
  else do
    let want := min (file.size - offset) room
    let cursor ← Try.ask (·.readCursor)
    let (cluster, clusterPos) := ChainCursor.start cursor file.cluster offset
    match ← v.seek offset (offset + 1) cluster clusterPos with
    | none => pure []
    | some (cluster, clusterPos) => do
      let (out, cluster, clusterPos) ← v.copyClusters offset want (want + 1) cluster clusterPos []
      Try.change ({ · with readCursor := some ⟨file.cluster, cluster, clusterPos⟩ })
      pure out

def readAt (path : Bytes) (offset room : Nat) : Op Bytes := do
  let file ← v.findFile path
  v.readEntry file offset room

/-- `read_pieces`: the pieces given to the sink, and whether it stopped the read. -/
def readPieces (file : DirEntry) (offset want room : Nat) (stop : List Bytes → Bool) :
    Nat → Nat → List Bytes → Op (List Bytes × Nat × Bool)
  | 0, _, _ => Try.fail .spent
  | fuel + 1, done, given =>
    if done < want ∧ room ≠ 0 then do
      let len := min (want - done) room
      let start ← u64 (offset + done)
      let piece ← v.readEntry file start len
      if piece = [] then pure (given, done, false)
      else if stop (given ++ [piece]) then pure (given ++ [piece], done, true)
      else if piece.length < len then pure (given ++ [piece], done + piece.length, false)
      else readPieces file offset want room stop fuel (done + piece.length) (given ++ [piece])
    else pure (given, done, false)

def readEach (path : Bytes) (offset want room : Nat) (stop : List Bytes → Bool) :
    Op (List Bytes × Nat × Bool) := do
  let file ← v.findFile path
  v.readPieces file offset want room stop (want + 1) 0 []

end Volume
end Ouroboros.Fat32
