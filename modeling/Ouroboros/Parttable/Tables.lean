import Mathlib.Data.List.Perm.Subperm
import Ouroboros.Lib.Image

/-!
# Partition tables

The tables of a disk, read once for the list of its partitions and once for the place of the boot partition.

* `readGpt`  one copy of a GPT, with its entries as they are handed out;
* `discover`  the partitions, as `fsd` lists them;
* `bootStart`  where the boot partition starts, as the kernel answers;
* `bootStart_listed_iff`  when the second is a partition of the first;
* `rootOrder`, `volumes_apart`  where `fsd` looks for a root, in volumes that do not overlap.
-/

namespace Ouroboros.Parttable

open Image Buffer List Option

/-- the bytes of each sector, of which there are 512; `none` is a failed read. -/
abbrev Disk := Nat → Option Image

def sectorSize : Nat := 512

/-! ## CRC-32 -/

def crcBit (crc : UInt32) : UInt32 := (crc >>> 1) ^^^ (0xEDB88320 &&& (0 - (crc &&& 1)))

def crc32Update (crc : UInt32) (data : List UInt8) : UInt32 :=
  data.foldl (fun crc byte => crcBit^[8] (crc ^^^ byte.toUInt32)) crc

def crcInit : UInt32 := 0xFFFFFFFF

def crc32Finish (crc : UInt32) : UInt32 := crc ^^^ 0xFFFFFFFF

def crc32 (data : List UInt8) : UInt32 := crc32Finish (crc32Update crcInit data)

/-! ## MBR -/

structure MbrEntry where
  kind : UInt8
  start : Nat
  sectors : Nat

/-- the entry, `none` past the fourth. -/
def mbrEntry (sector : Image) (index : Nat) : Option MbrEntry :=
  let e := 0x1BE + 16 * index
  if 3 < index then none else some ⟨sector (e + 4), num sector (e + 8) 4, num sector (e + 12) 4⟩

def mbrEntries (sector : Image) : List MbrEntry := (List.range 4).filterMap (mbrEntry sector)

def hasBootSignature (sector : Image) : Bool := sector 510 = 0x55 && sector 511 = 0xAA

def mbrSignature (sector : Image) : Nat := num sector 440 4

def protective : UInt8 := 0xEE

def isProtective (sector : Image) : Bool :=
  hasBootSignature sector && (mbrEntries sector).any fun e => e.kind = protective

/-- `"EFI PART"`. -/
def efiPart : List UInt8 := [0x45, 0x46, 0x49, 0x20, 0x50, 0x41, 0x52, 0x54]

def gptAndMbr (disk : Disk) : Option (Bool × Image) := do
  let lba1 ← disk 1
  let lba0 ← disk 0
  some (read lba1 0 8 = efiPart || isProtective lba0, lba0)

def isGpt (disk : Disk) : Option Bool := (gptAndMbr disk).map (·.1)

/-- nothing that a reader or a firmware would take for a table, as the kernel asks it. -/
def isBlank (disk : Disk) : Option Bool := do
  let (gpt, mbr) ← gptAndMbr disk
  let listed := (mbrEntries mbr).any fun e => e.kind = protective || (e.kind ≠ 0 && e.start ≠ 0)
  some (!gpt && !hasBootSignature mbr && !listed)

/-! ## GPT -/

inductive GptCopy where
  | valid
  | invalid
  | unreadable
deriving DecidableEq, Repr

def gptPrimary : Nat := 1
def maxGptArraySectors : Nat := 128

def gptBackup (capacity : Nat) : Option Nat := if gptPrimary + 1 < capacity then some (capacity - 1) else none

structure GptArray where
  lba : Nat
  bytes : Nat
  entrySize : Nat
  crc : Nat

/-- the checks of a header, up to the bounds of its array; a product of more than 64 bits is too large as
well. -/
def GptArray.ofHeader (header : Image) (capacity : Option Nat) : Option GptArray :=
  let headerSize := num header 12 4
  let entrySize := num header 84 4
  let bytes := num header 80 4 * entrySize
  let stop := num header 72 8 + (bytes + sectorSize - 1) / sectorSize
  if read header 0 8 ≠ efiPart then none
  else if headerSize < 92 ∨ sectorSize < headerSize then none
  else if (crc32 (read (write header 16 [0, 0, 0, 0]) 0 headerSize)).toNat ≠ num header 16 4 then none
  -- a power of two from 128 to a sector, so that no entry is in two sectors
  else if entrySize < 128 ∨ sectorSize < entrySize ∨ sectorSize % entrySize ≠ 0 then none
  else if bytes = 0 ∨ maxGptArraySectors * sectorSize < bytes then none
  else if 2 ^ 64 ≤ stop ∨ capacity.any (· < stop) then none
  else some ⟨num header 72 8, bytes, entrySize, num header 88 4⟩

/-- the entries in the first `take` bytes of a sector. -/
def entriesIn (a : GptArray) (done take : Nat) (sector : Image) : List (Nat × List UInt8) :=
  (List.range (take / a.entrySize)).map fun i =>
    ((done + i * a.entrySize) / a.entrySize, read sector (i * a.entrySize) a.entrySize)

/-- the loop over the array: its checksum, `none` if a read fails, and the entries that were handed out. -/
def readArray (disk : Disk) (a : GptArray) : Nat → Nat → Nat → UInt32 → Option UInt32 × List (Nat × List UInt8)
  | 0, _, _, crc => (some crc, [])
  | fuel + 1, lba, done, crc =>
    if a.bytes ≤ done then (some crc, [])
    else match disk lba with
      | none => (none, [])
      | some sector =>
        let take := min (a.bytes - done) sectorSize
        let rest := readArray disk a fuel (lba + 1) (done + take) (crc32Update crc (read sector 0 take))
        (rest.1, entriesIn a done take sector ++ rest.2)

/-- `read_gpt`: an array has no more than `maxGptArraySectors` sectors. -/
def readGpt (disk : Disk) (headerLba : Nat) (capacity : Option Nat) : GptCopy × List (Nat × List UInt8) :=
  match disk headerLba with
  | none => (.unreadable, [])
  | some header =>
    match GptArray.ofHeader header capacity with
    | none => (.invalid, [])
    | some a =>
      match readArray disk a maxGptArraySectors a.lba 0 crcInit with
      | (none, entries) => (.unreadable, entries)
      | (some crc, entries) => (if (crc32Finish crc).toNat ≠ a.crc then .invalid else .valid, entries)

/-! ## Partitions -/

structure Partition where
  start : Nat
  sectors : Nat
  root : Bool
deriving DecidableEq, Repr

def mbrLinux : UInt8 := 0x83

def gptRootAarch64 : List UInt8 :=
  [0x45, 0xb0, 0x21, 0xb9, 0xf0, 0x1d, 0xc3, 0x41, 0xaf, 0x44, 0x4c, 0x6f, 0x28, 0x0d, 0x3f, 0xae]

def inUse (entry : List UInt8) : Bool := !(entry.take 16).all (· = 0)

/-- the place of an entry; one that ends before it starts has no size. -/
def entryPlace (entry : List UInt8) : Nat × Nat :=
  let start := ofLe (slice entry 32 40)
  let last := ofLe (slice entry 40 48)
  (start, if start ≤ last ∧ last - start + 1 < 2 ^ 64 then last - start + 1 else 0)

/-- what `discover` makes of an entry. -/
def gptPartition (entry : List UInt8) : Option Partition :=
  let place := entryPlace entry
  if inUse entry ∧ place.1 ≠ 0 then some ⟨place.1, place.2, entry.take 16 = gptRootAarch64⟩ else none

def mbrPartition (e : MbrEntry) : Option Partition :=
  if e.kind = 0 ∨ e.kind = protective ∨ e.start = 0 then none else some ⟨e.start, e.sectors, e.kind = mbrLinux⟩

def firstValid (disk : Disk) (capacity : Option Nat) : List Nat → List (Nat × List UInt8)
  | [] => []
  | header :: rest =>
    if (readGpt disk header capacity).1 = .valid then (readGpt disk header capacity).2
      else firstValid disk capacity rest

def gptEntries (disk : Disk) (capacity : Option Nat) : List (Nat × List UInt8) :=
  firstValid disk capacity (gptPrimary :: (capacity.bind gptBackup).toList)

/-- all partitions of a disk, `none` if sector 0 or 1 cannot be read. -/
def partitions (disk : Disk) (capacity : Option Nat) : Option (List Partition) := do
  let (gpt, mbr) ← gptAndMbr disk
  if gpt then some ((gptEntries disk capacity).filterMap fun x => gptPartition x.2)
  else some ((mbrEntries mbr).filterMap mbrPartition)

/-- `discover`, with room for so many. -/
def discover (disk : Disk) (capacity : Option Nat) (room : Nat) : Option (List Partition) :=
  (partitions disk capacity).map (·.take room)

/-! ## The boot disk -/

inductive Table where
  | mbr
  | gpt
  | unknown
deriving DecidableEq, Repr

inductive DiskSignature where
  | none
  | mbr (sig : Nat)
  | gpt (guid : List UInt8)
  | unknown (ty : UInt8)
deriving DecidableEq, Repr

/-- as the firmware names it: `number` counts from 1. -/
structure BootPartition where
  table : Table
  number : Nat
  startLba : Nat
  sizeBlocks : Nat
  signature : DiskSignature

inductive Boot where
  | yes
  | no
  | unreadable
deriving DecidableEq, Repr

def Boot.ofBool (holds : Bool) : Boot := if holds then .yes else .no

theorem Boot.ofBool_yes {holds : Bool} (h : some (ofBool holds) = some .yes) : holds := by
  cases holds with
  | true => rfl
  | false => cases h

def mbrHolds (boot : BootPartition) (sector : Image) : Bool :=
  let signed :=
    match boot.signature with
    | .mbr sig => sig = mbrSignature sector
    | .gpt _ => false
    | _ => true
  hasBootSignature sector && signed &&
    match if boot.number = 0 then none else mbrEntry sector (boot.number - 1) with
    | none => false
    | some e => e.kind ≠ 0 && e.start = boot.startLba && e.sectors = boot.sizeBlocks

def BootPartition.named (boot : BootPartition) (entries : List (Nat × List UInt8)) : Option (List UInt8) :=
  entries.foldl (fun found x => if x.1 + 1 = boot.number then some x.2 else found) none

/-- the GUID, the start and the end; two ends that overflow are not the same. -/
def BootPartition.is (boot : BootPartition) (entry : List UInt8) : Bool :=
  let first := ofLe (slice entry 32 40)
  let last := ofLe (slice entry 40 48)
  let guidOk :=
    match boot.signature with
    | .gpt guid => guid = slice entry 16 32
    | .mbr _ => false
    | _ => true
  guidOk && first = boot.startLba &&
    (last + 1 < 2 ^ 64 && first + boot.sizeBlocks < 2 ^ 64 && last + 1 = first + boot.sizeBlocks)

/-- `none` for a copy that is not valid, `some none` for one that cannot be read. -/
def gptHolds (boot : BootPartition) (disk : Disk) (header capacity : Nat) : Option (Option Bool) :=
  match readGpt disk header (some capacity) with
  | (.unreadable, _) => some none
  | (.invalid, _) => none
  | (.valid, entries) => some (some ((boot.named entries).any boot.is))

/-- `none` for a table of an unknown format. -/
def isBootDisk (boot : BootPartition) (disk : Disk) (capacity : Nat) : Option Boot :=
  match boot.table with
  | .unknown => none
  | .mbr =>
    match disk 0 with
    | none => some .unreadable
    | some sector => some (.ofBool (mbrHolds boot sector))
  | .gpt =>
    let primary := gptHolds boot disk gptPrimary capacity
    match primary with
    | some (some holds) => some (.ofBool holds)
    | _ =>
      match primary, (gptBackup capacity).map fun last => gptHolds boot disk last capacity with
      | _, some (some (some holds)) => some (.ofBool holds)
      | some none, _ => some .unreadable
      | _, _ => some .no

/-- `boot_start`: 0 for a disk that does not hold the boot partition, `none` if a read that was needed fails. -/
def bootStart (boot : BootPartition) (disk : Disk) (capacity : Nat) : Option Nat :=
  if boot.table = .unknown then some 0
  else match isGpt disk with
    | none => none
    | some gpt =>
      if gpt ≠ decide (boot.table = .gpt) then some 0
      else match isBootDisk boot disk capacity with
        | some .yes => some boot.startLba
        | some .unreadable => none
        | some .no | none => some 0

/-! ## The boot partition in the list -/

variable {boot : BootPartition} {disk : Disk} {capacity start : Nat} {e : List UInt8}
    {entries : List (Nat × List UInt8)}

theorem gptAndMbr_eq_some {gpt : Bool} {mbr : Image} (h : gptAndMbr disk = some (gpt, mbr)) :
    ∃ lba1, disk 1 = some lba1 ∧ disk 0 = some mbr ∧ (read lba1 0 8 = efiPart || isProtective mbr) = gpt := by
  obtain ⟨lba1, hlba1, h⟩ := bind_eq_some_iff.1 h
  obtain ⟨lba0, hlba0, h⟩ := bind_eq_some_iff.1 h
  cases h
  exact ⟨lba1, hlba1, hlba0, rfl⟩

theorem place_of_is (h : boot.is e) : entryPlace e = (boot.startLba, boot.sizeBlocks) := by
  simp only [BootPartition.is, Bool.and_eq_true, decide_eq_true_eq] at h
  obtain ⟨⟨-, hfirst⟩, ⟨hlast, -⟩, hends⟩ := h
  refine Prod.ext hfirst ?_
  simp only [entryPlace]
  split <;> omega

theorem named_of_isBootDisk (htable : boot.table = .gpt) (h : isBootDisk boot disk capacity = some .yes) :
    ∃ e, boot.named (gptEntries disk (some capacity)) = some e ∧ boot.is e := by
  suffices hany : (boot.named (gptEntries disk (some capacity))).any boot.is from (any_eq_true _ _).1 hany
  unfold gptEntries firstValid
  simp only [isBootDisk, htable, gptHolds] at h
  rcases hprimary : readGpt disk gptPrimary (some capacity) with ⟨_ | _ | _, es⟩ <;> rw [hprimary] at h
  · exact Boot.ofBool_yes h
  all_goals
    simp only [bind_some] at h ⊢
    cases hlast : gptBackup capacity with
    | none =>
      rw [hlast] at h
      cases h
    | some last =>
      rw [hlast] at h
      simp only [map_some] at h
      rw [if_neg nofun, toList_some, firstValid]
      rcases hbackup : readGpt disk last (some capacity) with ⟨_ | _ | _, es'⟩ <;> rw [hbackup] at h
      · exact Boot.ofBool_yes h
      all_goals cases h

theorem bootStart_ne_zero (h : bootStart boot disk capacity = some start) (hne : start ≠ 0) :
    boot.startLba = start ∧ isBootDisk boot disk capacity = some .yes ∧
      ∃ mbr, gptAndMbr disk = some (decide (boot.table = .gpt), mbr) := by
  have zero {p : Prop} (h : some 0 = some start) : p := absurd (some.inj h).symm hne
  unfold bootStart isGpt at h
  split at h
  · exact zero h
  split at h
  · cases h
  rename_i gpt hgpt
  obtain ⟨⟨_, mbr⟩, hread, rfl⟩ := map_eq_some_iff.1 hgpt
  split at h
  · exact zero h
  rename_i hkind
  rw [ne_eq, not_not] at hkind
  split at h
  · rename_i hyes
    exact ⟨some.inj h, hyes, mbr, hkind ▸ hread⟩
  · cases h
  · exact zero h
  · exact zero h

theorem mbrPartition_of_holds {sector : Image} (h : mbrHolds boot sector) (hprot : isProtective sector = false)
    (hne : boot.startLba ≠ 0) :
    ∃ e ∈ mbrEntries sector, mbrPartition e = some ⟨boot.startLba, boot.sizeBlocks, e.kind = mbrLinux⟩ := by
  simp only [mbrHolds, Bool.and_eq_true] at h
  obtain ⟨⟨hsig, -⟩, h⟩ := h
  split at h
  · cases h
  rename_i e he
  simp only [Bool.and_eq_true, decide_eq_true_eq] at h
  obtain ⟨⟨hkind, hstart⟩, hsectors⟩ := h
  obtain ⟨-, he⟩ := ite_none_left_eq_some.1 he
  have hmem : e ∈ mbrEntries sector := by
    have hindex := Nat.le_of_not_lt (ite_none_left_eq_some.1 he).1
    exact mem_filterMap.2 ⟨boot.number - 1, mem_range.2 (by omega), he⟩
  have hnot : e.kind ≠ protective := by
    rw [isProtective, hsig, Bool.true_and, List.any_eq_false] at hprot
    exact fun heq => hprot e hmem (decide_eq_true heq)
  refine ⟨e, hmem, ?_⟩
  rw [mbrPartition, if_neg (not_or.2 ⟨hkind, not_or.2 ⟨hnot, hstart ▸ hne⟩⟩), hstart, hsectors]

theorem discover_all {capacity : Option Nat} {ps : List Partition} (hps : partitions disk capacity = some ps)
    (Q : List Partition → Prop) :
    (∀ room, (∀ qs, partitions disk capacity = some qs → qs.length ≤ room) →
      ∃ qs, discover disk capacity room = some qs ∧ Q qs)
      ↔ Q ps := by
  have hall {room : Nat} (h : ps.length ≤ room) : discover disk capacity room = some ps := by
    rw [discover, hps, map_some, take_of_length_le h]
  constructor
  · intro h
    obtain ⟨qs, hqs, hq⟩ := h ps.length fun qs hqs => some.inj (hps.symm.trans hqs) ▸ le_rfl
    cases (hall le_rfl).symm.trans hqs
    exact hq
  · exact fun hq room hroom => ⟨ps, hall (hroom ps hps), hq⟩

/-- the partition that starts where `boot_start` says, and has its size, is listed. -/
def Listed (boot : BootPartition) (disk : Disk) (capacity : Nat) : Prop :=
  ∀ start, bootStart boot disk capacity = some start → start ≠ 0 →
    ∀ room, (∀ ps, partitions disk (some capacity) = some ps → ps.length ≤ room) →
      ∃ ps, discover disk (some capacity) room = some ps ∧ ∃ p ∈ ps, p.start = start ∧
        p.sectors = boot.sizeBlocks

/-- the boot partition is a GPT entry, and no entry with its place is in use; it is one of them. -/
def Hidden (boot : BootPartition) (disk : Disk) (capacity : Nat) : Prop :=
  boot.table = .gpt ∧ ∃ e, boot.named (gptEntries disk (some capacity)) = some e ∧
    ∀ x ∈ gptEntries disk (some capacity), entryPlace x.2 = entryPlace e → inUse x.2 = false

/-- **The boot partition that the kernel answers is listed just if its GPT entry is not hidden**: only
`discover` looks at the type of an entry. -/
theorem bootStart_listed_iff (boot : BootPartition) (disk : Disk) (capacity : Nat) : Listed boot disk capacity ↔
    ∀ start, bootStart boot disk capacity = some start → start ≠ 0 → ¬ Hidden boot disk capacity := by
  refine forall_congr' fun start => forall₂_congr fun hstart hne => ?_
  obtain ⟨rfl, hyes, mbr, hread⟩ := bootStart_ne_zero hstart hne
  by_cases htable : boot.table = .gpt
  · have hps : partitions disk (some capacity) =
        some ((gptEntries disk (some capacity)).filterMap fun x => gptPartition x.2) := by
      rw [partitions, hread, htable]
      rfl
    obtain ⟨e, hnamed, his⟩ := named_of_isBootDisk htable hyes
    have hplace := place_of_is his
    rw [discover_all hps fun ps => ∃ p ∈ ps, p.start = boot.startLba ∧ p.sectors = boot.sizeBlocks]
    constructor
    · rintro ⟨p, hp, hpstart, hpsectors⟩ ⟨-, e', hnamed', hunused⟩
      cases hnamed.symm.trans hnamed'
      obtain ⟨x, hx, hpart⟩ := mem_filterMap.1 hp
      obtain ⟨⟨huse, -⟩, hpart⟩ := ite_none_right_eq_some.1 hpart
      cases hpart
      rw [hunused x hx (hplace ▸ Prod.ext hpstart hpsectors)] at huse
      cases huse
    · intro hhidden
      by_contra hnone
      have hunused : ∀ x ∈ gptEntries disk (some capacity), entryPlace x.2 = entryPlace e →
          inUse x.2 = false := by
        intro x hx hsame
        rw [hplace] at hsame
        refine Bool.eq_false_iff.2 fun huse => hnone ⟨_, mem_filterMap.2 ⟨x, hx, if_pos ⟨huse, ?_⟩⟩, ?_⟩
        · exact Prod.mk.inj hsame
        · rw [hsame]
          exact hne
      exact hhidden ⟨htable, e, hnamed, hunused⟩
  · have hps : partitions disk (some capacity) = some ((mbrEntries mbr).filterMap mbrPartition) := by
      rw [partitions, hread, decide_eq_false htable]
      rfl
    rw [discover_all hps fun ps => ∃ p ∈ ps, p.start = boot.startLba ∧ p.sectors = boot.sizeBlocks]
    refine iff_of_true ?_ fun h => htable h.1
    obtain ⟨lba1, -, hlba0, hgpt⟩ := gptAndMbr_eq_some hread
    rw [decide_eq_false htable, Bool.or_eq_false_iff] at hgpt
    have hholds : mbrHolds boot mbr := by
      unfold isBootDisk at hyes
      split at hyes
      · cases hyes
      · rw [hlba0] at hyes
        exact Boot.ofBool_yes hyes
      · exact absurd ‹_› htable
    obtain ⟨e, he, hpart⟩ := mbrPartition_of_holds hholds hgpt.2 hne
    exact ⟨_, mem_filterMap.2 ⟨e, he, hpart⟩, rfl, rfl⟩

def unusedDisk : Disk
  | 0 => some fun _ => 0
  | 1 => some (write (write (write (fun _ => 0) 0 (efiPart ++ [0, 0, 0, 0, 92])) 16 (le 4 0x260b754)) 72
      (le 8 2 ++ le 4 1 ++ le 4 128 ++ le 4 0x6d19dc71))
  | 2 => some (write (fun _ => 0) 32 (le 8 10 ++ le 8 19))
  | _ => none

/-- the kernel answers 10, and nothing is listed. -/
theorem unused_not_listed : ¬ Listed ⟨.gpt, 1, 10, 10, .none⟩ unusedDisk 100 := by
  intro h
  have hstart : bootStart ⟨.gpt, 1, 10, 10, .none⟩ unusedDisk 100 = some 10 := by decide +kernel
  have hps : partitions unusedDisk (some 100) = some [] := by decide +kernel
  obtain ⟨ps, hlist, p, hp, -⟩ := h 10 hstart (by decide) 0 fun ps hall => by
    cases hps.symm.trans hall; exact le_rfl
  cases hlist
  cases hp

/-! ## Volumes -/

/-- the most sectors that a volume in `p` may span. -/
def volumeBound (p : Partition) (table : List Partition) (capacity : Option Nat) : Nat :=
  let most := 2 ^ 64 - 1
  let length := if p.sectors = 0 then most else p.sectors
  let next := ((table.filter (p.start < ·.start)).map (·.start - p.start)).min?
  let disk := capacity.map (· - p.start)
  min (min (min length (next.getD most)) (disk.getD most)) (2 ^ 32 - p.start)

/-- the partitions that may be the root, in the order in which they are tried. -/
def rootCandidates (parts : List Partition) (boot : Option Nat) : List Partition :=
  let beside := parts.filter (some ·.start ≠ boot)
  let typed := beside.any (·.root)
  beside.filter fun p => if typed then p.root else boot.isSome

structure Candidate where
  part : Partition
  bound : Nat
deriving DecidableEq, Repr

structure RootOrder where
  order : List Candidate
  candidates : Nat
  typed : Bool

/-- where a root is looked for; the partitions after the candidates are mounted read-only. -/
def rootOrder (parts : List Partition) (boot capacity : Option Nat) : RootOrder :=
  let roots := rootCandidates parts boot
  let untyped := if boot.isNone then parts.filter (!·.root) else []
  { order := (roots ++ untyped ++ parts.filter (some ·.start = boot)).map fun p =>
    ⟨p, volumeBound p parts capacity⟩
    candidates := roots.length
    typed := parts.any fun p => p.root && some p.start ≠ boot }

variable {p q : Partition} {parts : List Partition}

theorem volumeBound_next {capacity : Option Nat} (hq : q ∈ parts) (h : p.start < q.start) :
    p.start + volumeBound p parts capacity ≤ q.start := by
  have hnext : q.start - p.start ∈ (parts.filter (p.start < ·.start)).map (·.start - p.start) :=
    mem_map_of_mem (mem_filter.2 ⟨hq, decide_eq_true h⟩)
  have hmin := min?_getD_le_of_mem (k := 2 ^ 64 - 1) hnext
  simp only [volumeBound]
  omega

theorem rootOrder_parts (parts : List Partition) (boot : Option Nat) :
    rootCandidates parts boot ++ (if boot.isNone then parts.filter (!·.root) else []) ++
      parts.filter (some ·.start = boot) <+~ parts := by
  -- the candidates satisfy a test that all after them fail: the type, or the place beside the boot partition
  obtain ⟨test, hroots, hrest⟩ : ∃ test : Partition → Bool, rootCandidates parts boot <+ parts.filter test ∧
      (if boot.isNone then parts.filter (!·.root) else []) ++ parts.filter (some ·.start = boot) =
        parts.filter (!test ·) := by
    cases boot with
    | none =>
      refine ⟨(·.root), ?_, by simp⟩
      rw [rootCandidates, List.filter_filter]
      exact monotone_filter_right _ fun p => by cases p.root <;> simp
    | some start => exact ⟨_, filter_sublist, by simp⟩
  rw [append_assoc, hrest]
  exact (hroots.append_right _).subperm.trans (filter_append_perm test parts).subperm

/-- the sectors that a volume in `p` may span. -/
def InVolume (p : Partition) (parts : List Partition) (capacity : Option Nat) (sector : Nat) : Prop :=
  p.start ≤ sector ∧ sector < p.start + volumeBound p parts capacity

/-- **Volumes do not overlap, and the root is looked for in each entry of the table at most once**, so that the
order has room for all. -/
theorem volumes_apart (parts : List Partition) (boot capacity : Option Nat) :
    (∀ p ∈ parts, ∀ q ∈ parts, p.start ≠ q.start → ∀ s, InVolume p parts capacity s →
      ¬ InVolume q parts capacity s) ∧
    (∀ p s, InVolume p parts capacity s → s < 2 ^ 32 ∧ ∀ c ∈ capacity, s < c) ∧
    let order := (rootOrder parts boot capacity).order
    order <+~ parts.map (fun p => ⟨p, volumeBound p parts capacity⟩) ∧ order.length ≤ parts.length ∧
      (parts.Nodup → order.Nodup) := by
  have hinj : Function.Injective fun p => Candidate.mk p (volumeBound p parts capacity) :=
    fun p q heq => (Candidate.mk.inj heq).1
  have hparts := (map_subperm_map_iff hinj).2 (rootOrder_parts parts boot)
  refine ⟨fun p hp q hq hne s hps hqs => ?_, fun p s hs => ?_, hparts, ?_, fun h => ?_⟩
  · rw [InVolume] at hps hqs
    have hpq := @volumeBound_next p q parts capacity hq
    have hqp := @volumeBound_next q p parts capacity hp
    omega
  · rw [InVolume, volumeBound] at hs
    refine ⟨by omega, fun c hc => ?_⟩
    rw [mem_def.1 hc, map_some, getD_some] at hs
    omega
  · exact hparts.length_le.trans_eq (length_map _)
  · obtain ⟨l, hl, hsub⟩ := hparts
    exact hl.nodup_iff.1 (hsub.nodup (Pairwise.map _ (fun _ _ => hinj.ne) h))

def twiceDisk : Disk := fun _ =>
  some (write (fun _ => 0) 0x1BE ((replicate 2 [0, 0, 0, 0, 0x83, 0, 0, 0, 1, 0, 0, 0, 9, 0, 0, 0]).flatten))

/-- a table with two equal entries is listed as it is, and the order has both. -/
theorem twice_listed : ∃ parts, discover twiceDisk (some 100) 16 = some parts ∧
    ¬ (rootOrder parts none (some 100)).order.Nodup :=
  ⟨[⟨1, 9, true⟩, ⟨1, 9, true⟩], by decide +kernel, by decide⟩

end Ouroboros.Parttable
