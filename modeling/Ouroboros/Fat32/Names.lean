import Ouroboros.Fat32.Table
import Ouroboros.Lib.Utf16

/-!
# FAT32: names and directory slots

A directory is a row of slots of 32 bytes. A file has one slot, with a short name of eleven bytes, and
before it the slots that spell its long name, if it has one.

* `DirEntry.parse`  what a slot says;
* `scanSlot`  one slot of a walk, with the long name read so far;
* `makeShortName`  a name that a short slot can show, with its case;
* `buildNameEntries`  the slots of a long name.
-/

namespace Ouroboros.Fat32

open Fsd (Bytes)
open Buffer Image List

def dirEntrySize : Nat := 32
def attrDirectory : UInt8 := 0x10
def attrVolumeId : UInt8 := 0x08
def shortLowerBase : UInt8 := 0x08
def shortLowerExt : UInt8 := 0x10
def attrLfn : UInt8 := 0x0f
def dirEntryFree : UInt8 := 0xe5
def dirEntryEnd : UInt8 := 0
def maxNameLen : Nat := 12
def longNameMax : Nat := 255
def lfnCharsPerEntry : Nat := 13
def lfnLastMask : UInt8 := 0x40
def maxLfnEntries : Nat := (longNameMax + lfnCharsPerEntry - 1) / lfnCharsPerEntry
def lfnPos : List Nat := [1, 3, 5, 7, 9, 14, 16, 18, 20, 22, 24, 28, 30]

def space : UInt8 := 32
def fullStop : UInt8 := 46

/-! ## Case -/

def isLower (b : UInt8) : Bool := 97 ≤ b && b ≤ 122
def isUpper (b : UInt8) : Bool := 65 ≤ b && b ≤ 90
def isDigit (b : UInt8) : Bool := 48 ≤ b && b ≤ 57

/-- `to_ascii_lowercase`. -/
def lower (b : UInt8) : UInt8 := if isUpper b then b + 32 else b

/-- `to_ascii_uppercase`. -/
def upper (b : UInt8) : UInt8 := if isLower b then b - 32 else b

def namesMatch (entry name : Bytes) : Bool := entry.map lower = name.map lower

def isDotOrDotdot (name : Bytes) : Bool := name = Fsd.dot ∨ name = Fsd.dotdot

/-! ## Slots -/

structure DirEntry where
  bytes : Bytes
  isDir : Bool
  size : Nat
  cluster : Nat
  mtimeDate : Nat
  mtimeTime : Nat
deriving DecidableEq, Repr

def DirEntry.name (e : DirEntry) : Bytes := Utf16.orQuestion e.bytes

def shortByte (b : UInt8) : UInt8 := Utf16.shownChar b.toNat

/-- the first byte of a short name; 5 stands for the byte that marks a free slot. -/
def firstByte : List UInt8 → List UInt8
  | [] => []
  | b :: rest => (if b = 5 then dirEntryFree else b) :: rest

/-- the bytes of one half of a short name, up to its first space. -/
def shortHalf (half : List UInt8) (lowered : Bool) : Bytes :=
  half.map fun b => if lowered then lower (shortByte b) else shortByte b

def shortName (raw : Sector) : Bytes :=
  let base := firstByte ((read raw 0 8).takeWhile (· ≠ space))
  let ext := (read raw 8 3).takeWhile (· ≠ space)
  shortHalf base (raw 12 &&& shortLowerBase ≠ 0)
    ++ if ext = [] then [] else fullStop :: shortHalf ext (raw 12 &&& shortLowerExt ≠ 0)

def DirEntry.parse (raw : Sector) (longName : Option Bytes) : DirEntry where
  bytes := match longName with
    | some long => long.take longNameMax
    | none => shortName raw
  isDir := raw 11 &&& attrDirectory ≠ 0
  size := num raw 28 4
  cluster := num raw 20 2 * 2 ^ 16 + num raw 26 2
  mtimeDate := num raw 24 2
  mtimeTime := num raw 22 2

def DirEntry.root (rootCluster : Nat) : DirEntry := ⟨[], true, 0, rootCluster, 0, 0⟩

def lfnChecksum (name : List UInt8) : UInt8 := name.foldl (fun sum b => (sum >>> 1) + ((sum &&& 1) <<< 7) + b) 0

def lfnChars (raw : Sector) : List UInt16 :=
  (lfnPos.map fun p => UInt16.ofNat (num raw p 2)).takeWhile fun c => c ≠ 0 ∧ c ≠ 0xffff

/-- the long name a walk has read: its units, how many, and the checksum they stand under. -/
structure Lfn where
  name : Nat → UInt16
  len : Nat
  sum : UInt8

def Lfn.empty : Lfn := ⟨fun _ => 0, 0, 0⟩

def Lfn.put (l : Lfn) (base stop : Nat) (chars : List UInt16) : Nat → UInt16 := fun i =>
  if base ≤ i ∧ i < stop then chars.getD (i - base) 0 else l.name i

def Lfn.add (l : Lfn) (raw : Sector) : Lfn :=
  let seq := (raw 0 &&& 0x1f).toNat
  let len := if raw 0 &&& lfnLastMask ≠ 0 then 0 else l.len
  if 1 ≤ seq then
    let chars := lfnChars raw
    let base := (seq - 1) * lfnCharsPerEntry
    let stop := min (base + chars.length) longNameMax
    if base < longNameMax then ⟨l.put base stop chars, max len stop, raw 13⟩ else ⟨l.name, len, raw 13⟩
  else ⟨l.name, len, l.sum⟩

/-- the long name of the short slot `raw`, if the one read so far is its. -/
def Lfn.nameFor (l : Lfn) (raw : Sector) : Option Bytes :=
  if 0 < l.len ∧ l.sum = lfnChecksum (read raw 0 11) then
    some (Utf16.utf8Name ((range l.len).map l.name))
  else none

inductive Seen where
  | stop
  | skip (l : Lfn)
  | entry (e : DirEntry) (l : Lfn)

/-- one slot of `walk_dir_with_location`. -/
def scanSlot (l : Lfn) (raw : Sector) : Seen :=
  if raw 0 = dirEntryEnd then .stop
  else if raw 0 = dirEntryFree then .skip { l with len := 0 }
  else if raw 11 = attrLfn then .skip (l.add raw)
  else if raw 11 &&& attrVolumeId ≠ 0 then .skip { l with len := 0 }
  else .entry (DirEntry.parse raw (l.nameFor raw)) { l with len := 0 }

def slot (buf : Sector) (offset : Nat) : Sector := fun k => buf (offset + k)

def slotOffsets : List Nat := (range (sectorSize / dirEntrySize)).map (· * dirEntrySize)

/-! ## Names to create -/

def padTo (n : Nat) (b : List UInt8) : List UInt8 := b ++ replicate (n - b.length) space

def isValidShortNameByte (b : UInt8) : Bool := isLower b || isUpper b || isDigit b || b = 95 || b = 45

def halfCase (half : Bytes) : Option Bool :=
  if half.any isLower && half.any isUpper then none else some (half.any isLower)

/-- a name before its dot and after it, `none` with two dots. -/
def halves (name : Bytes) : Option (Bytes × Bytes) :=
  if name.count fullStop = 0 then some (name, [])
  else if name.count fullStop = 1 then
    some (name.takeWhile (· ≠ fullStop), (name.dropWhile (· ≠ fullStop)).drop 1)
  else none

/-- `make_short_name`: the eleven bytes and the case flags. -/
def makeShortName (name : Bytes) : Option (List UInt8 × UInt8) :=
  if name = [] ∨ name.length > maxNameLen then none
  else
    (halves name).bind fun (base, ext) =>
      if base = [] ∨ base.length > 8 ∨ ext.length > 3 then none
      else if !base.all isValidShortNameByte || !ext.all isValidShortNameByte then none
      else
        (halfCase base).bind fun baseLower => (halfCase ext).map fun extLower =>
          (padTo 8 (base.map upper) ++ padTo 3 (ext.map upper),
            (if baseLower then shortLowerBase else 0) ||| (if extLower then shortLowerExt else 0))

/-- `" * / : < > ? \ |`. -/
def lfnForbidden : List UInt8 := [34, 42, 47, 58, 60, 62, 63, 92, 124]

def isValidLfnName (name : Bytes) : Bool :=
  name ≠ [] && name.length ≤ longNameMax && !(Utf16.units name).contains 0xffff
    && name.all (fun b => !lfnForbidden.contains b && 0x20 ≤ b)
    && name.any (fun b => b ≠ fullStop && b ≠ space)

def validateCreateName (name : Bytes) : Bool := (makeShortName name).isSome || isValidLfnName name

def sanitizeShortChar (b : UInt8) : Option UInt8 :=
  if isValidShortNameByte (upper b) then some (upper b) else none

/-- a number in decimal, of at most `n` digits. -/
def decimal : Nat → Nat → List UInt8
  | 0, _ => []
  | n + 1, v => if v = 0 then [] else decimal n (v / 10) ++ [UInt8.ofNat (48 + v % 10)]

def composeAlias (base ext : List UInt8) (n : Nat) : List UInt8 :=
  let digits := if n = 0 then [48] else decimal 7 n
  padTo 8 (base.take (8 - (1 + digits.length)) ++ 126 :: digits) ++ padTo 3 ext

/-- the halves of `generate_short_alias`: at the last dot, unless it comes first. -/
def aliasHalves (name : Bytes) : Bytes × Bytes :=
  match name.reverse.findIdx? (· = fullStop) with
  | some k =>
    let d := name.length - 1 - k
    if 0 < d then (name.take d, name.drop (d + 1)) else (name, [])
  | none => (name, [])

def aliasBase (name : Bytes) : List UInt8 :=
  let base := ((aliasHalves name).1.filterMap sanitizeShortChar).take 8
  if base = [] then [95] else base

def aliasExt (name : Bytes) : List UInt8 := ((aliasHalves name).2.filterMap sanitizeShortChar).take 3

def writeRawEntry (short : List UInt8) (ntres attr : UInt8) (cluster size : Nat) : List UInt8 :=
  short ++ [attr, ntres] ++ replicate 7 0 ++ le 2 (cluster / 2 ^ 16) ++ replicate 4 0 ++
    le 2 cluster ++ le 4 size

def dotName : List UInt8 := padTo 11 [fullStop]

def dotdotName : List UInt8 := padTo 11 [fullStop, fullStop]

/-- a unit of `put_lfn_chars`: the name, then a zero, then ones. -/
def lfnUnit (name : List UInt16) (i : Nat) : List UInt8 :=
  le 2 (if i < name.length then (name.getD i 0).toNat else if i = name.length then 0 else 0xffff)

/-- a slot of a long name, the units from `start` on. -/
def lfnEntry (name : List UInt16) (first checksum : UInt8) (start : Nat) : List UInt8 :=
  let units (i n : Nat) := (range' i n).flatMap fun k => lfnUnit name (start + k)
  first :: units 0 5 ++ [attrLfn, 0, checksum] ++ units 5 6 ++ [0, 0] ++ units 11 2

def buildNameEntries (name : List UInt16) (short : List UInt8) (attr : UInt8) (cluster size : Nat) :
    List (List UInt8) :=
  let checksum := lfnChecksum short
  let numLfn := (name.length + lfnCharsPerEntry - 1) / lfnCharsPerEntry
  let lfn := (range numLfn).map fun idx =>
    let seq := numLfn - idx
    lfnEntry name (UInt8.ofNat seq ||| if idx = 0 then lfnLastMask else 0) checksum
      ((seq - 1) * lfnCharsPerEntry)
  lfn ++ [writeRawEntry short 0 attr cluster size]

end Ouroboros.Fat32
