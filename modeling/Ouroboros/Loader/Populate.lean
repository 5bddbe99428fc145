import Ouroboros.Loader.Elf

/-!
# The program loader: filling the region

* `copySegments`, `applyRelocations`, `populateRegion`  what is written where;
* `imageHeader`, `relaSection`, `relocations`  the image's own tables, as bytes of it;
* `Safe`  an event that stays in the region, in the image and in 64 bits;
* `elfRegionSize_ok`, `findSectionByName_ok`  what the reading half returns and that it is safe.
-/

namespace Ouroboros.Loader

open List Logged Nat

/-! ## The code -/

/-- one round of the loop of `copy_segments`. -/
def copySegment (file : List UInt8) (base size : Nat) (ph : ProgramHeader) : Load Unit :=
  if ph.type ≠ ptLoad then pure ()
  else do
    let srcEnd ← checkedAdd ph.offset ph.filesz .truncated
    if file.length < srcEnd then .fail .truncated
    else
      let segEnd ← checkedAdd ph.vaddr ph.memsz .segmentOutsideRegion
      if size < segEnd then .fail .segmentOutsideRegion
      else if ph.memsz < ph.filesz then .fail .segmentFileSizeOverMemSize
      else
        let dst ← add64 base ph.vaddr
        .tell (.read ph.offset ph.filesz)
        writeBytes dst (slice file ph.offset ph.filesz)
        if ph.filesz < ph.memsz then
          let bss ← add64 dst ph.filesz
          writeBytes bss (replicate (ph.memsz - ph.filesz) 0)
        else pure ()

def copySegments (file : List UInt8) (phdrs : List ProgramHeader) (base size : Nat) : Load Unit :=
  .forEach (copySegment file base size) phdrs

def leBytes (len n : Nat) : List UInt8 := (range len).map fun i => .ofNat (n / 256 ^ i)

def relaAt (file : List UInt8) (start i : Nat) : Rela := .ofBytes (slice file (start + i * Rela.size) Rela.size)

/-- one round of the loop of `apply_relocations`. -/
def applyRelocation (file : List UInt8) (start base : Nat) (i : Nat) : Load Unit := do
  let offset ← add64 start (i * Rela.size)
  let rela := Rela.ofBytes (← readAt file offset Rela.size)
  if rela.info % 2 ^ 32 ≠ rAarch64Relative then .fail (.unsupportedRelocation (rela.info % 2 ^ 32))
  else
    let target ← add64 base rela.offset
    let value ← add64 base rela.addend
    writeBytes target (leBytes 8 value)

def applyRelocations (file : List UInt8) (sh : SectionHeader) (base : Nat) : Load Unit := do
  let stop ← checkedAdd sh.offset sh.size .truncated
  if file.length < stop then .fail .truncated
  else .forEach (applyRelocation file sh.offset base) (range (sh.size / Rela.size))

/-- the `if let` of `populate_region`. -/
def relocate (program : List UInt8) (header : ElfHeader) (base : Nat) : Load Unit := do
  match ← findSectionByName program header relaDyn with
  | some sh => applyRelocations program sh base
  | none => pure ()

structure LoadedProgram where
  base : Nat
  size : Nat
  entry : Nat
deriving DecidableEq

def populateRegion (program : List UInt8) (header : ElfHeader) (phdrs : List ProgramHeader)
    (base size : Nat) : Load LoadedProgram := do
  writeBytes base (replicate size 0)
  copySegments program phdrs base size
  relocate program header base
  let entry ← add64 base header.entry
  pure ⟨base, size, entry⟩

/-! ## The tables of an image -/

def imageHeader (file : List UInt8) : ElfHeader := .ofBytes (slice file 0 ElfHeader.size)

/-- section header `i`. -/
def sectionAt (file : List UInt8) (i : Nat) : SectionHeader :=
  .ofBytes (slice file ((imageHeader file).shoff + i * (imageHeader file).shentsize) SectionHeader.bytes)

def sectionNames (file : List UInt8) : List UInt8 :=
  slice file (sectionAt file (imageHeader file).shstrndx).offset
    (sectionAt file (imageHeader file).shstrndx).size

def isNamed (strtab name : List UInt8) (sh : SectionHeader) : Bool :=
  sh.name < strtab.length && nameAt strtab sh.name = name

def sectionNamed (file name : List UInt8) : Option SectionHeader :=
  if (imageHeader file).shoff = 0 then none
  else ((range (imageHeader file).shnum).map (sectionAt file)).find? (isNamed (sectionNames file) name)

def relocations (file : List UInt8) : List Rela :=
  match sectionNamed file relaDyn with
  | some sh => (range (sh.size / Rela.size)).map (relaAt file sh.offset)
  | none => []

/-! ## What each step does on success -/

def Safe (file : List UInt8) (base size : Nat) : Event → Prop
  | .read off len => off + len ≤ file.length
  | .write addr bytes => base ≤ addr ∧ addr + bytes.length ≤ base + size
  | .sum a b => a + b < 2 ^ 64

section Steps
variable {file : List UInt8} {base size : Nat}
variable {l : List Event} {n : Nat}
variable {a b c : Nat} {phdrs : List ProgramHeader} {r : ElfHeader × List ProgramHeader × Nat}

theorem leNat_lt (bytes : List UInt8) : leNat bytes < 256 ^ bytes.length := by
  induction bytes with
  | nil => exact Nat.one_pos
  | cons b bytes ih =>
    have hb : b.toNat < 256 := b.toNat_lt
    have hcons : leNat (b :: bytes) = b.toNat + 256 * leNat bytes := rfl
    rw [hcons, length_cons, pow_succ]
    omega

theorem field_lt (bytes : List UInt8) (off len : Nat) : field bytes off len < 256 ^ len := by
  refine lt_of_lt_of_le (leNat_lt _) (Nat.pow_le_pow_right (by decide) ?_)
  exact length_take_le _ _

theorem checkedAdd_ok {e : LoaderError} (h : checkedAdd a b e = ⟨.ok c, l⟩) :
    c = a + b ∧ a + b < 2 ^ 64 ∧ l = [] := by
  unfold checkedAdd at h
  split at h
  · obtain ⟨rfl, rfl⟩ := pure_eq_ok.1 h
    exact ⟨rfl, by assumption, rfl⟩
  · exact (fail_eq_ok.1 h).elim

theorem add64_ok (h : add64 a b = ⟨.ok c, l⟩) : c = (a + b) % 2 ^ 64 ∧ l = [.sum a b] := by
  obtain ⟨u, l₁, l₂, htell, hpure, rfl⟩ := bind_eq_ok.1 h
  obtain rfl := tell_eq_ok.1 htell
  obtain ⟨rfl, rfl⟩ := pure_eq_ok.1 hpure
  exact ⟨rfl, rfl⟩

theorem readAt_ok {off len : Nat} {b : List UInt8} (h : readAt file off len = ⟨.ok b, l⟩) :
    off + len ≤ file.length ∧ b = slice file off len ∧ l = [.read off len] := by
  obtain ⟨stop, l₁, l₂, hadd, hrest, rfl⟩ := bind_eq_ok.1 h
  obtain ⟨rfl, -, rfl⟩ := checkedAdd_ok hadd
  split at hrest
  · exact (fail_eq_ok.1 hrest).elim
  obtain ⟨u, l₃, l₄, htell, hpure, rfl⟩ := bind_eq_ok.1 hrest
  obtain rfl := tell_eq_ok.1 htell
  obtain ⟨rfl, rfl⟩ := pure_eq_ok.1 hpure
  exact ⟨by omega, rfl, rfl⟩

theorem readTable_ok {α : Type} {start step : Nat} {f : List UInt8 → α} {a : α} (h : (do
      let offset ← add64 start step
      pure (f (← readAt file offset n)) : Load α) = ⟨.ok a, l⟩) :
    (start + step) % 2 ^ 64 + n ≤ file.length ∧ a = f (slice file ((start + step) % 2 ^ 64) n) ∧
      l = [.sum start step, .read ((start + step) % 2 ^ 64) n] := by
  obtain ⟨offset, l₁, l₂, hadd, hrest, rfl⟩ := bind_eq_ok.1 h
  obtain ⟨rfl, rfl⟩ := add64_ok hadd
  obtain ⟨b, l₃, l₄, hread, hpure, rfl⟩ := bind_eq_ok.1 hrest
  obtain ⟨hle, rfl, rfl⟩ := readAt_ok hread
  obtain ⟨rfl, rfl⟩ := pure_eq_ok.1 hpure
  exact ⟨hle, rfl, rfl⟩

theorem readTable_safe {α : Type} {start step : Nat} {f : List UInt8 → α} {a : α}
    (hlen : file.length < 2 ^ 63) (hstart : start ≤ file.length) (hstep : step < 2 ^ 32)
    (h : (do
      let offset ← add64 start step
      pure (f (← readAt file offset n)) : Load α) = ⟨.ok a, l⟩) :
    a = f (slice file (start + step) n) ∧ ∀ ev, ev ∈ l → Safe file base size ev := by
  obtain ⟨hle, rfl, rfl⟩ := readTable_ok h
  refine ⟨by rw [mod_eq_of_lt (by omega)], ?_⟩
  intro ev hev
  simp only [mem_cons, not_mem_nil, or_false] at hev
  rcases hev with rfl | rfl
  · show start + step < 2 ^ 64
    omega
  · exact hle

structure HeaderOk (header : ElfHeader) : Prop where
  phoff : header.phoff < 2 ^ 64
  shoff : header.shoff < 2 ^ 64
  phentsize : header.phentsize < 2 ^ 16
  shentsize : header.shentsize < 2 ^ 16
  shnum : header.shnum < 2 ^ 16
  shstrndx : header.shstrndx < 2 ^ 16

theorem imageHeader_ok (file : List UInt8) : HeaderOk (imageHeader file) where
  phoff := field_lt _ 32 8
  shoff := field_lt _ 40 8
  phentsize := field_lt _ 54 2
  shentsize := field_lt _ 58 2
  shnum := field_lt _ 60 2
  shstrndx := field_lt _ 62 2

theorem parseElfHeader_ok {header : ElfHeader} (h : parseElfHeader file = ⟨.ok header, l⟩) :
    header = imageHeader file ∧ ∀ ev, ev ∈ l → Safe file base size ev := by
  obtain ⟨b, l₁, l₂, hread, hrest, rfl⟩ := bind_eq_ok.1 h
  obtain ⟨hle, rfl, rfl⟩ := readAt_ok hread
  have hpure : (pure (ElfHeader.ofBytes (slice file 0 ElfHeader.size)) : Load ElfHeader) = ⟨.ok header, l₂⟩ := by
    -- the checks only refuse
    dsimp only at hrest
    repeat' split at hrest
    all_goals first | exact (fail_eq_ok.1 hrest).elim | exact hrest
  obtain ⟨rfl, rfl⟩ := pure_eq_ok.1 hpure
  refine ⟨rfl, ?_⟩
  intro ev hev
  obtain rfl : ev = .read 0 ElfHeader.size := by simpa using hev
  exact hle

theorem mul_lt_of_lt {i : Nat} (hi : i < 2 ^ 16) (hn : n < 2 ^ 16) : i * n < 2 ^ 32 := by
  calc i * n < 2 ^ 16 * 2 ^ 16 := mul_lt_mul'' hi hn
    _ = 2 ^ 32 := by decide

theorem parseProgramHeaders_safe {header : ElfHeader} (hlen : file.length < 2 ^ 63) (hh : HeaderOk header)
    (h : parseProgramHeaders file header = ⟨.ok phdrs, l⟩) : ∀ ev, ev ∈ l → Safe file base size ev := by
  unfold parseProgramHeaders at h
  split at h
  · exact (fail_eq_ok.1 h).elim
  rename_i hmax
  obtain ⟨rfl, hall⟩ := mapEach_eq_ok h
  intro ev hev
  obtain ⟨i, hi, hev⟩ := mem_flatMap.1 hev
  have hlt := mem_range.1 hi
  obtain ⟨ph₀, h₀⟩ := hall 0 (mem_range.2 (by omega))
  have hstart := (readTable_ok (eq_of_result h₀)).1
  have hphoff := hh.phoff
  obtain ⟨ph, hph⟩ := hall i hi
  refine (readTable_safe hlen ?_ (mul_lt_of_lt ?_ hh.phentsize) (eq_of_result hph)).2 ev hev
  · rw [zero_mul, add_zero, mod_eq_of_lt hphoff] at hstart
    omega
  · unfold maxProgramHeaders at hmax
    omega

theorem maxEnd_ok {m : Nat} (h : maxEnd phdrs m = ⟨.ok n, l⟩) : l = [] := by
  induction phdrs generalizing m l with
  | nil => exact (pure_eq_ok.1 h).2
  | cons ph rest ih =>
    unfold maxEnd at h
    split at h
    · obtain ⟨stop, l₁, l₂, hadd, hrest, rfl⟩ := bind_eq_ok.1 h
      obtain ⟨-, -, rfl⟩ := checkedAdd_ok hadd
      rw [ih hrest]
      rfl
    · exact ih h

theorem regionSize_ok {header : ElfHeader} {top : Nat} (h : (if top = 0 then .fail .noLoadSegments else
        let regionPages := (top + (pageSize - 1)) / pageSize + tailPages
        if slotPages < regionPages then .fail (.regionTooLarge regionPages)
        else pure (header, phdrs, regionPages * pageSize) : Load _) = ⟨.ok r, l⟩) :
    r.1 = header ∧ r.2.1 = phdrs ∧ 0 < r.2.2 ∧ r.2.2 ≤ 2 * 1024 * 1024 ∧ l = [] := by
  split at h
  · exact (fail_eq_ok.1 h).elim
  dsimp only at h
  split at h
  · exact (fail_eq_ok.1 h).elim
  rename_i hpages
  obtain ⟨rfl, rfl⟩ := pure_eq_ok.1 h
  unfold slotPages tailPages heapPages guardPages stackPages pageSize at *
  exact ⟨rfl, rfl, by dsimp only; omega, by dsimp only; omega, rfl⟩

/-- **A size that was found is that of a region in one slot.** -/
theorem elfRegionSize_bound (h : (elfRegionSize file).result = .ok r) : 0 < r.2.2 ∧ r.2.2 ≤ 2 * 1024 * 1024 := by
  obtain ⟨hd, l₁, l₂, -, h₁, -⟩ := bind_eq_ok.1 (eq_of_result h)
  obtain ⟨phs, l₃, l₄, -, h₂, -⟩ := bind_eq_ok.1 h₁
  obtain ⟨top, l₅, l₆, -, h₃, -⟩ := bind_eq_ok.1 h₂
  obtain ⟨-, -, hpos, hle, -⟩ := regionSize_ok h₃
  exact ⟨hpos, hle⟩

/-- **Finding the size reads only the image.** -/
theorem elfRegionSize_safe (hlen : file.length < 2 ^ 63) (h : (elfRegionSize file).result = .ok r) :
    r.1 = imageHeader file ∧ ∀ ev, ev ∈ (elfRegionSize file).log → Safe file base size ev := by
  obtain ⟨hd, l₁, l₂, hhead, h₁, hl⟩ := bind_eq_ok.1 (eq_of_result h)
  obtain ⟨phs, l₃, l₄, hphs, h₂, rfl⟩ := bind_eq_ok.1 h₁
  obtain ⟨top, l₅, l₆, htop, h₃, rfl⟩ := bind_eq_ok.1 h₂
  obtain ⟨rfl, hsafe⟩ := @parseElfHeader_ok file base size _ _ hhead
  have hsafe' := @parseProgramHeaders_safe file base size _ _ _ hlen (imageHeader_ok file) hphs
  obtain rfl := maxEnd_ok htop
  obtain ⟨hr, -, -, -, rfl⟩ := regionSize_ok h₃
  refine ⟨hr, ?_⟩
  intro ev hev
  have hev' : ev ∈ l₁ ++ (l₃ ++ ([] ++ [])) := hl ▸ hev
  rw [mem_append, append_nil, append_nil] at hev'
  exact hev'.elim (hsafe ev) (hsafe' ev)

theorem searchSections_ok {strtab name : List UInt8} {is : List Nat} {sh : Option SectionHeader}
    (hlen : file.length < 2 ^ 63) (hstart : (imageHeader file).shoff ≤ file.length)
    (his : ∀ i, i ∈ is → i < 2 ^ 16)
    (h : searchSections file (imageHeader file) strtab name is = ⟨.ok sh, l⟩) :
    sh = (is.map (sectionAt file)).find? (isNamed strtab name) ∧ ∀ ev, ev ∈ l → Safe file base size ev := by
  induction is generalizing l with
  | nil =>
    obtain ⟨rfl, rfl⟩ := pure_eq_ok.1 h
    exact ⟨rfl, by rintro ev ⟨⟩⟩
  | cons i rest ih =>
    obtain ⟨s, l₁, l₂, hread, hrest, rfl⟩ := bind_eq_ok.1 h
    have hi := mul_lt_of_lt (his i mem_cons_self) (imageHeader_ok file).shentsize
    obtain ⟨rfl, hsafe⟩ := @readTable_safe file base size _ _ _ _ _ _ _ hlen hstart hi hread
    have hnamed : isNamed strtab name (sectionAt file i) ↔
        (sectionAt file i).name < strtab.length ∧ nameAt strtab (sectionAt file i).name = name := by
      simp [isNamed]
    split at hrest
    · rename_i hyes
      obtain ⟨rfl, rfl⟩ := pure_eq_ok.1 hrest
      refine ⟨(find?_cons_of_pos (hnamed.2 hyes)).symm, ?_⟩
      rwa [append_nil]
    · rename_i hno
      obtain ⟨hsh, hsafe'⟩ := ih (fun j hj => his j (mem_cons_of_mem _ hj)) hrest
      refine ⟨?_, fun ev hev => (mem_append.1 hev).elim (hsafe ev) (hsafe' ev)⟩
      rw [map_cons, find?_cons_of_neg (fun hyes => hno (hnamed.1 hyes))]
      exact hsh

theorem searchSections_start {strtab name : List UInt8} {sh : Option SectionHeader}
    (hnum : (imageHeader file).shnum ≠ 0)
    (h : searchSections file (imageHeader file) strtab name (range (imageHeader file).shnum)
      = ⟨.ok sh, l⟩) : (imageHeader file).shoff ≤ file.length := by
  obtain ⟨n, hn⟩ := exists_eq_succ_of_ne_zero hnum
  rw [hn, range_succ_eq_map] at h
  obtain ⟨s, l₁, l₂, hread, -, -⟩ := bind_eq_ok.1 h
  have hle := (readTable_ok hread).1
  have hshoff := (imageHeader_ok file).shoff
  rw [zero_mul, add_zero, mod_eq_of_lt hshoff] at hle
  omega

/-- **The section search finds the first section of that name and reads only the image.** -/
theorem findSectionByName_ok {name : List UInt8} {sh : Option SectionHeader}
    (hlen : file.length < 2 ^ 63) (h : findSectionByName file (imageHeader file) name = ⟨.ok sh, l⟩) :
    sh = sectionNamed file name ∧ ∀ ev, ev ∈ l → Safe file base size ev := by
  have hh := imageHeader_ok file
  unfold sectionNamed
  unfold findSectionByName at h
  split at h
  · rename_i hnone
    obtain ⟨rfl, rfl⟩ := pure_eq_ok.1 h
    refine ⟨?_, by rintro ev ⟨⟩⟩
    rcases hnone with hoff | hnum
    · rw [if_pos hoff]
    · rw [hnum]
      exact (ite_self _).symm
  rename_i hnum
  rw [not_or] at hnum
  obtain ⟨tab, l₁, l₂, hread, h₁, rfl⟩ := bind_eq_ok.1 h
  obtain ⟨stop, l₃, l₄, hadd, h₂, rfl⟩ := bind_eq_ok.1 h₁
  obtain ⟨rfl, -, rfl⟩ := checkedAdd_ok hadd
  split at h₂
  · exact (fail_eq_ok.1 h₂).elim
  rename_i hstop
  obtain ⟨u, l₅, l₆, htell, hsearch, rfl⟩ := bind_eq_ok.1 h₂
  obtain rfl := tell_eq_ok.1 htell
  have hstart := searchSections_start hnum.2 hsearch
  obtain ⟨rfl, hfirst⟩ := @readTable_safe file base size _ _ _ _ _ _ _ hlen hstart
    (mul_lt_of_lt hh.shstrndx hh.shentsize) hread
  have hrange : ∀ i, i ∈ range (imageHeader file).shnum → i < 2 ^ 16 := by
    intro i hi
    exact lt_trans (mem_range.1 hi) hh.shnum
  obtain ⟨rfl, hrest⟩ := @searchSections_ok file base size _ _ _ _ _ hlen hstart hrange hsearch
  refine ⟨(if_neg hnum.1).symm, ?_⟩
  intro ev hev
  simp only [mem_append, nil_append, mem_singleton] at hev
  rcases hev with hev | rfl | hev
  · exact hfirst ev hev
  · exact Nat.le_of_not_lt hstop
  · exact hrest ev hev

end Steps

end Ouroboros.Loader
