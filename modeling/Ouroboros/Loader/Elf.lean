import Ouroboros.Lib.Logged
import Mathlib.Data.Nat.Bitwise

/-!
# The program loader: reading the image

Every read of the image, every write to memory and every unchecked 64-bit sum is an `Event`, so that
what the loader touches is part of its result.

* `readAt`  the one bounds-checked read;
* `parseElfHeader`, `parseProgramHeaders`, `elfRegionSize`  the size of the region a program needs;
* `findSectionByName`  the section search.
-/

namespace Ouroboros.Loader

/-! ## Constants -/

def pageSize : Nat := 4096
def stackPages : Nat := 14
def guardPages : Nat := 1
def heapPages : Nat := 256
def slotPages : Nat := 0x200000 / pageSize
def tailPages : Nat := heapPages + guardPages + stackPages
def maxProgramHeaders : Nat := 16

def elfMagic : List UInt8 := [0x7f, 0x45, 0x4c, 0x46]
def elfClass64 : UInt8 := 2
def elfData2Lsb : UInt8 := 1
def etDyn : Nat := 3
def emAarch64 : Nat := 183
def ptLoad : Nat := 1
def rAarch64Relative : Nat := 1027

def relaDyn : List UInt8 := [0x2e, 0x72, 0x65, 0x6c, 0x61, 0x2e, 0x64, 0x79, 0x6e]

inductive LoaderError where
  | truncated
  | badMagic
  | unsupportedClass (c : UInt8)
  | unsupportedEndian (e : UInt8)
  | unexpectedElfType (t : Nat)
  | wrongMachine (m : Nat)
  | tooManyProgramHeaders
  | noLoadSegments
  | regionTooLarge (pages : Nat)
  | segmentOutsideRegion
  | segmentFileSizeOverMemSize
  | unsupportedRelocation (t : Nat)
deriving DecidableEq, Repr

/-! ## Events -/

inductive Event where
  /-- `len` bytes of the image from `off` on -/
  | read (off len : Nat)
  | write (addr : Nat) (bytes : List UInt8)
  /-- `a + b` in 64 bits, unchecked -/
  | sum (a b : Nat)

abbrev Load := Logged LoaderError Event

def add64 (a b : Nat) : Load Nat := do
  .tell (.sum a b)
  pure ((a + b) % 2 ^ 64)

def checkedAdd (a b : Nat) (e : LoaderError) : Load Nat :=
  if a + b < 2 ^ 64 then pure (a + b) else .fail e

def writeBytes (addr : Nat) (bytes : List UInt8) : Load Unit := .tell (.write addr bytes)

/-! ## Records -/

def leNat (bytes : List UInt8) : Nat := bytes.foldr (fun b n => b.toNat + 256 * n) 0

def slice (bytes : List UInt8) (off len : Nat) : List UInt8 := (bytes.drop off).take len

def field (bytes : List UInt8) (off len : Nat) : Nat := leNat (slice bytes off len)

structure ElfHeader where
  ident : List UInt8
  type : Nat
  machine : Nat
  entry : Nat
  phoff : Nat
  shoff : Nat
  phentsize : Nat
  phnum : Nat
  shentsize : Nat
  shnum : Nat
  shstrndx : Nat
deriving DecidableEq

def ElfHeader.size : Nat := 64

def ElfHeader.ofBytes (b : List UInt8) : ElfHeader where
  ident := slice b 0 16
  type := field b 16 2
  machine := field b 18 2
  entry := field b 24 8
  phoff := field b 32 8
  shoff := field b 40 8
  phentsize := field b 54 2
  phnum := field b 56 2
  shentsize := field b 58 2
  shnum := field b 60 2
  shstrndx := field b 62 2

structure ProgramHeader where
  type : Nat
  offset : Nat
  vaddr : Nat
  filesz : Nat
  memsz : Nat
deriving DecidableEq

def ProgramHeader.size : Nat := 56

def ProgramHeader.ofBytes (b : List UInt8) : ProgramHeader where
  type := field b 0 4
  offset := field b 8 8
  vaddr := field b 16 8
  filesz := field b 32 8
  memsz := field b 40 8

structure SectionHeader where
  name : Nat
  offset : Nat
  size : Nat

def SectionHeader.bytes : Nat := 64

def SectionHeader.ofBytes (b : List UInt8) : SectionHeader where
  name := field b 0 4
  offset := field b 24 8
  size := field b 32 8

structure Rela where
  offset : Nat
  info : Nat
  addend : Nat
deriving DecidableEq

def Rela.size : Nat := 24

def Rela.ofBytes (b : List UInt8) : Rela where
  offset := field b 0 8
  info := field b 8 8
  addend := field b 16 8

/-! ## Parsing -/

def readAt (file : List UInt8) (offset len : Nat) : Load (List UInt8) := do
  let stop ← checkedAdd offset len .truncated
  if file.length < stop then .fail .truncated
  else
    .tell (.read offset len)
    pure (slice file offset len)

def parseElfHeader (file : List UInt8) : Load ElfHeader := do
  let header := ElfHeader.ofBytes (← readAt file 0 ElfHeader.size)
  if slice header.ident 0 4 ≠ elfMagic then .fail .badMagic
  else if header.ident.getD 4 0 ≠ elfClass64 then .fail (.unsupportedClass (header.ident.getD 4 0))
  else if header.ident.getD 5 0 ≠ elfData2Lsb then .fail (.unsupportedEndian (header.ident.getD 5 0))
  else if header.type ≠ etDyn then .fail (.unexpectedElfType header.type)
  else if header.machine ≠ emAarch64 then .fail (.wrongMachine header.machine)
  else pure header

/-- one round of the loop of `parse_program_headers`. -/
def readProgramHeader (file : List UInt8) (header : ElfHeader) (i : Nat) : Load ProgramHeader := do
  let offset ← add64 header.phoff (i * header.phentsize)
  pure (ProgramHeader.ofBytes (← readAt file offset ProgramHeader.size))

def parseProgramHeaders (file : List UInt8) (header : ElfHeader) : Load (List ProgramHeader) :=
  if maxProgramHeaders < header.phnum then .fail .tooManyProgramHeaders
  else .mapEach (readProgramHeader file header) (List.range header.phnum)

/-- the loop of `elf_region_size`. -/
def maxEnd : List ProgramHeader → Nat → Load Nat
  | [], m => pure m
  | ph :: rest, m =>
    if ph.type = ptLoad then do
      let stop ← checkedAdd ph.vaddr ph.memsz .segmentOutsideRegion
      maxEnd rest (max m stop)
    else maxEnd rest m

def elfRegionSize (program : List UInt8) : Load (ElfHeader × List ProgramHeader × Nat) := do
  let header ← parseElfHeader program
  let phdrs ← parseProgramHeaders program header
  let top ← maxEnd phdrs 0
  if top = 0 then .fail .noLoadSegments
  else
    let codePages := (top + (pageSize - 1)) / pageSize
    let regionPages := codePages + tailPages
    if slotPages < regionPages then .fail (.regionTooLarge regionPages)
    else pure (header, phdrs, regionPages * pageSize)

def readSectionHeader (file : List UInt8) (header : ElfHeader) (index : Nat) : Load SectionHeader := do
  let offset ← add64 header.shoff (index * header.shentsize)
  pure (SectionHeader.ofBytes (← readAt file offset SectionHeader.bytes))

/-- the name at `off` of the string table, up to a zero byte or its end. -/
def nameAt (strtab : List UInt8) (off : Nat) : List UInt8 := (strtab.drop off).takeWhile (· ≠ 0)

/-- the loop of `find_section_by_name`. -/
def searchSections (file : List UInt8) (header : ElfHeader) (strtab name : List UInt8) :
    List Nat → Load (Option SectionHeader)
  | [] => pure none
  | i :: rest => do
    let sh ← readSectionHeader file header i
    if sh.name < strtab.length ∧ nameAt strtab sh.name = name then pure (some sh)
    else searchSections file header strtab name rest

def findSectionByName (file : List UInt8) (header : ElfHeader) (name : List UInt8) :
    Load (Option SectionHeader) :=
  if header.shoff = 0 ∨ header.shnum = 0 then pure none
  else do
    let shstrtab ← readSectionHeader file header header.shstrndx
    let stop ← checkedAdd shstrtab.offset shstrtab.size .truncated
    if file.length < stop then .fail .truncated
    else
      .tell (.read shstrtab.offset shstrtab.size)
      searchSections file header (slice file shstrtab.offset shstrtab.size) name (List.range header.shnum)

/-! ## The tail of a region -/

/-- heap, guard page and stack, in this order at the end of a region. -/
structure Tail where
  heap : Nat × Nat
  guard : Nat
  stack : Nat × Nat
deriving DecidableEq

def tail (base size : Nat) : Option Tail :=
  if size < tailPages * pageSize then none
  else
    let stackBase := base + size - stackPages * pageSize
    let guard := stackBase - guardPages * pageSize
    let heapBase := guard - heapPages * pageSize
    some ⟨(heapBase, heapPages * pageSize), guard, (stackBase, stackPages * pageSize)⟩

def guardPageAddr (region : Nat × Nat) : Option Nat := (tail region.1 region.2).map Tail.guard

theorem guardPageAddr_eq_some {region : Nat × Nat} {page : Nat} : guardPageAddr region = some page ↔
      tailPages * pageSize ≤ region.2 ∧ page + (guardPages + stackPages) * pageSize = region.1 + region.2 := by
  unfold guardPageAddr tail tailPages pageSize heapPages guardPages stackPages
  split
  · simp only [Option.map_none, reduceCtorEq, false_iff]
    omega
  · simp only [Option.map_some, Option.some.injEq]
    omega

end Ouroboros.Loader
