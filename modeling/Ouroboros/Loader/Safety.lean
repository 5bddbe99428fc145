import Ouroboros.Loader.Populate
import Ouroboros.Kernel.Entry

/-!
# The program loader: what loading a program touches

* `copySegments_safe`  the segments stay in the region;
* `relocation_safe_iff`  a relocation is safe exactly if its target and its value are;
* `populate_safe_iff`  hence a loaded program was loaded safely exactly if it is `Contained`;
* `load_writes_below_region` an accepted program that is not;
* `withLoader_frame`  in the kernel with this loader a contained program changes its region only.
-/

namespace Ouroboros.Loader

open List Logged Nat

section Events
variable {file : List UInt8} {base size : Nat} {l : List Event} {phdrs : List ProgramHeader} {p : LoadedProgram}

/-! ## The segments -/

theorem copySegment_safe {ph : ProgramHeader} (hfit : base + size < 2 ^ 64)
    (h : copySegment file base size ph = ⟨.ok (), l⟩) : ∀ ev, ev ∈ l → Safe file base size ev := by
  unfold copySegment at h
  split at h
  · obtain ⟨-, rfl⟩ := pure_eq_ok.1 h
    rintro ev ⟨⟩
  obtain ⟨srcEnd, l₁, l₂, hsrc, h₁, rfl⟩ := bind_eq_ok.1 h
  obtain ⟨rfl, -, rfl⟩ := checkedAdd_ok hsrc
  split at h₁
  · exact (fail_eq_ok.1 h₁).elim
  obtain ⟨segEnd, l₃, l₄, hseg, h₂, rfl⟩ := bind_eq_ok.1 h₁
  obtain ⟨rfl, -, rfl⟩ := checkedAdd_ok hseg
  split at h₂
  · exact (fail_eq_ok.1 h₂).elim
  split at h₂
  · exact (fail_eq_ok.1 h₂).elim
  rename_i hread hend hmem
  obtain ⟨dst, l₅, l₆, hdst, h₃, rfl⟩ := bind_eq_ok.1 h₂
  obtain ⟨rfl, rfl⟩ := add64_ok hdst
  obtain ⟨u₁, l₇, l₈, htell, h₄, rfl⟩ := bind_eq_ok.1 h₃
  obtain rfl := tell_eq_ok.1 htell
  obtain ⟨u₂, l₉, l₁₀, hwrite, h₅, rfl⟩ := bind_eq_ok.1 h₄
  obtain rfl := tell_eq_ok.1 hwrite
  have hdst : (base + ph.vaddr) % 2 ^ 64 = base + ph.vaddr := mod_eq_of_lt (by omega)
  have hslice : (slice file ph.offset ph.filesz).length ≤ ph.filesz := length_take_le _ _
  have hbss : ∀ ev, ev ∈ l₁₀ → Safe file base size ev := by
    rw [hdst] at h₅
    split at h₅
    · obtain ⟨bss, l₁₁, l₁₂, hadd, hzero, rfl⟩ := bind_eq_ok.1 h₅
      obtain ⟨rfl, rfl⟩ := add64_ok hadd
      obtain rfl := tell_eq_ok.1 hzero
      intro ev hev
      simp only [cons_append, nil_append, mem_cons, not_mem_nil, or_false] at hev
      rcases hev with rfl | rfl
      · show base + ph.vaddr + ph.filesz < 2 ^ 64
        omega
      rw [mod_eq_of_lt (by omega)]
      refine ⟨by omega, ?_⟩
      rw [length_replicate]
      omega
    · obtain ⟨-, rfl⟩ := pure_eq_ok.1 h₅
      rintro ev ⟨⟩
  intro ev hev
  simp only [nil_append, cons_append, mem_cons] at hev
  rcases hev with rfl | rfl | rfl | hev
  · show base + ph.vaddr < 2 ^ 64
    omega
  · exact Nat.le_of_not_lt hread
  · rw [hdst]
    exact ⟨by omega, by omega⟩
  · exact hbss ev hev

theorem copySegments_safe (hfit : base + size < 2 ^ 64)
    (h : copySegments file phdrs base size = ⟨.ok (), l⟩) : ∀ ev, ev ∈ l → Safe file base size ev := by
  obtain ⟨rfl, hall⟩ := forEach_eq_ok h
  intro ev hev
  obtain ⟨ph, hph, hev⟩ := mem_flatMap.1 hev
  exact copySegment_safe hfit (eq_of_result (hall ph hph)) ev hev

/-! ## The relocations -/

def RelaOk (base size : Nat) (rela : Rela) : Prop := rela.offset + 8 ≤ size ∧ base + rela.addend < 2 ^ 64

def relaEvents (base : Nat) (rela : Rela) : List Event := [.sum base rela.offset, .sum base rela.addend,
    .write ((base + rela.offset) % 2 ^ 64) (leBytes 8 ((base + rela.addend) % 2 ^ 64))]

@[simp] theorem length_leBytes (len n : Nat) : (leBytes len n).length = len := by
  rw [leBytes, length_map, length_range]

/-- **A record is applied safely exactly if it is `RelaOk`.** -/
theorem relocation_safe_iff {rela : Rela} (hfit : base + size < 2 ^ 64) :
    (∀ ev, ev ∈ relaEvents base rela → Safe file base size ev) ↔ RelaOk base size rela := by
  unfold relaEvents RelaOk
  simp only [forall_mem_cons, not_mem_nil, false_implies, implies_true, and_true, Safe, length_leBytes]
  constructor
  · rintro ⟨htarget, hvalue, -, hstop⟩
    rw [mod_eq_of_lt htarget] at hstop
    exact ⟨by omega, hvalue⟩
  · rintro ⟨hoff, hvalue⟩
    rw [mod_eq_of_lt (by omega)]
    exact ⟨by omega, hvalue, by omega, by omega⟩

structure Applies (file : List UInt8) (base size : Nat) (relas : List Rela) (l : List Event) : Prop where
  mem : ∀ rela, rela ∈ relas → ∀ ev, ev ∈ relaEvents base rela → ev ∈ l
  safe : ∀ ev, ev ∈ l → Safe file base size ev ∨ ∃ rela, rela ∈ relas ∧ ev ∈ relaEvents base rela

theorem Applies.safe_iff {relas : List Rela} (h : Applies file base size relas l) (hfit : base + size < 2 ^ 64) :
    (∀ ev, ev ∈ l → Safe file base size ev) ↔ ∀ rela, rela ∈ relas → RelaOk base size rela := by
  constructor
  · intro hsafe rela hrela
    exact (relocation_safe_iff hfit).1 fun ev hev => hsafe ev (h.mem rela hrela ev hev)
  · intro hok ev hev
    rcases h.safe ev hev with hev | ⟨rela, hrela, hev⟩
    · exact hev
    · exact (relocation_safe_iff hfit).2 (hok rela hrela) ev hev

theorem applyRelocation_ok {start i : Nat} (hlt : start + i * Rela.size < 2 ^ 64)
    (h : applyRelocation file start base i = ⟨.ok (), l⟩) :
    l = .sum start (i * Rela.size) :: .read (start + i * Rela.size) Rela.size :: relaEvents base
      (relaAt file start i) := by
  obtain ⟨off, l₁, l₂, hoff, h₁, rfl⟩ := bind_eq_ok.1 h
  obtain ⟨rfl, rfl⟩ := add64_ok hoff
  rw [mod_eq_of_lt hlt] at h₁
  obtain ⟨b, l₃, l₄, hread, h₂, rfl⟩ := bind_eq_ok.1 h₁
  obtain ⟨-, rfl, rfl⟩ := readAt_ok hread
  dsimp only at h₂
  split at h₂
  · exact (fail_eq_ok.1 h₂).elim
  obtain ⟨target, l₅, l₆, htarget, h₃, rfl⟩ := bind_eq_ok.1 h₂
  obtain ⟨rfl, rfl⟩ := add64_ok htarget
  obtain ⟨value, l₇, l₈, hvalue, h₄, rfl⟩ := bind_eq_ok.1 h₃
  obtain ⟨rfl, rfl⟩ := add64_ok hvalue
  obtain rfl := tell_eq_ok.1 h₄
  rfl

theorem applyRelocations_applies {sh : SectionHeader} (hlen : file.length < 2 ^ 63)
    (h : applyRelocations file sh base = ⟨.ok (), l⟩) :
    Applies file base size ((range (sh.size / Rela.size)).map (relaAt file sh.offset)) l := by
  obtain ⟨stop, l₁, l₂, hadd, h₁, rfl⟩ := bind_eq_ok.1 h
  obtain ⟨rfl, -, rfl⟩ := checkedAdd_ok hadd
  split at h₁
  · exact (fail_eq_ok.1 h₁).elim
  rename_i hstop
  obtain ⟨rfl, hall⟩ := forEach_eq_ok h₁
  have hin : ∀ i, i ∈ range (sh.size / Rela.size) → sh.offset + i * Rela.size + Rela.size ≤ file.length := by
    intro i hi
    have hmul : (i + 1) * Rela.size ≤ sh.size := (le_div_iff_mul_le (by decide)).1 (mem_range.1 hi)
    rw [succ_mul] at hmul
    omega
  have hlog : ∀ i (hi : i ∈ range (sh.size / Rela.size)), _ := fun i hi =>
    @applyRelocation_ok file base _ _ _ (lt_of_le_of_lt (le_of_add_right_le (hin i hi)) (by omega))
      (eq_of_result (hall i hi))
  constructor
  · intro rela hrela ev hev
    obtain ⟨i, hi, rfl⟩ := mem_map.1 hrela
    refine mem_flatMap.2 ⟨i, hi, ?_⟩
    rw [hlog i hi]
    exact mem_cons_of_mem _ (mem_cons_of_mem _ hev)
  · intro ev hev
    obtain ⟨i, hi, hev⟩ := mem_flatMap.1 hev
    have hle := hin i hi
    rw [hlog i hi, mem_cons, mem_cons] at hev
    rcases hev with rfl | rfl | hev
    · exact .inl (lt_of_le_of_lt (le_of_add_right_le hle) (by omega))
    · exact .inl hle
    · exact .inr ⟨_, mem_map_of_mem hi, hev⟩

theorem relocate_applies (hlen : file.length < 2 ^ 63)
    (h : relocate file (imageHeader file) base = ⟨.ok (), l⟩) :
    Applies file base size (relocations file) l := by
  obtain ⟨sh, l₁, l₂, hfind, hrela, rfl⟩ := bind_eq_ok.1 h
  obtain ⟨hsh, hfind⟩ := @findSectionByName_ok file base size _ _ _ hlen hfind
  have hrest : Applies file base size (relocations file) l₂ := by
    unfold relocations
    rw [← hsh]
    cases sh with
    | none =>
      obtain ⟨-, rfl⟩ := pure_eq_ok.1 hrela
      exact ⟨by rintro rela ⟨⟩, by rintro ev ⟨⟩⟩
    | some sh => exact applyRelocations_applies hlen hrela
  constructor
  · exact fun rela hrela ev hev => mem_append_right _ (hrest.mem rela hrela ev hev)
  · exact fun ev hev => (mem_append.1 hev).elim (fun h => .inl (hfind ev h)) (hrest.safe ev)

/-! ## The whole load -/

/-- the program's relocations and its entry point stay in the region and in 64 bits. -/
structure Contained (file : List UInt8) (base size : Nat) : Prop where
  relocations : ∀ rela, rela ∈ relocations file → RelaOk base size rela
  entry : base + (imageHeader file).entry < 2 ^ 64

theorem populate_applies (hlen : file.length < 2 ^ 63) (hfit : base + size < 2 ^ 64)
    (h : populateRegion file (imageHeader file) phdrs base size = ⟨.ok p, l⟩) :
    ∃ l', l = l' ++ [.sum base (imageHeader file).entry] ∧ Applies file base size (relocations file) l' := by
  obtain ⟨u₁, l₁, l₂, hzero, h₁, rfl⟩ := bind_eq_ok.1 h
  obtain rfl := tell_eq_ok.1 hzero
  obtain ⟨u₂, l₃, l₄, hcopy, h₂, rfl⟩ := bind_eq_ok.1 h₁
  obtain ⟨u₃, l₅, l₆, hrela, h₃, rfl⟩ := bind_eq_ok.1 h₂
  obtain ⟨entry, l₇, l₈, hentry, hpure, rfl⟩ := bind_eq_ok.1 h₃
  obtain ⟨rfl, rfl⟩ := add64_ok hentry
  obtain ⟨-, rfl⟩ := pure_eq_ok.1 hpure
  have hrela := @relocate_applies file base size _ hlen hrela
  refine ⟨[.write base (replicate size 0)] ++ (l₃ ++ l₅), by simp, ?_, ?_⟩
  · intro rela hmem ev hev
    exact mem_append_right _ (mem_append_right _ (hrela.mem rela hmem ev hev))
  intro ev hev
  simp only [mem_append, mem_singleton] at hev
  rcases hev with rfl | hev | hev
  · exact .inl ⟨le_rfl, le_of_eq (by rw [length_replicate])⟩
  · exact .inl (copySegments_safe hfit hcopy ev hev)
  · exact hrela.safe ev hev

/-- **A program is populated safely exactly if it is `Contained`.** -/
theorem populate_safe_iff (hlen : file.length < 2 ^ 63) (hfit : base + size < 2 ^ 64)
    (h : populateRegion file (imageHeader file) phdrs base size = ⟨.ok p, l⟩) :
    (∀ ev, ev ∈ l → Safe file base size ev) ↔ Contained file base size := by
  obtain ⟨l', rfl, happlies⟩ := populate_applies hlen hfit h
  have hiff := happlies.safe_iff hfit
  constructor
  · intro hsafe
    exact ⟨hiff.1 fun ev hev => hsafe ev (mem_append_left _ hev),
      hsafe (.sum _ _) (mem_append_right _ (mem_singleton.2 rfl))⟩
  · intro hok ev hev
    rcases mem_append.1 hev with hev | hev
    · exact hiff.2 hok.relocations ev hev
    · obtain rfl := mem_singleton.1 hev
      exact hok.entry

/-- **Loading a program reads only the image, writes only the region and wraps no address, exactly if
the program is `Contained`.** -/
theorem load_safe_iff {r : ElfHeader × List ProgramHeader × Nat} {p : LoadedProgram}
    (hlen : file.length < 2 ^ 63) (hsize : (elfRegionSize file).result = .ok r)
    (hfit : base + r.2.2 < 2 ^ 64)
    (hload : (populateRegion file r.1 r.2.1 base r.2.2).result = .ok p) :
    (∀ ev, ev ∈ (elfRegionSize file).log ++ (populateRegion file r.1 r.2.1 base r.2.2).log →
      Safe file base r.2.2 ev) ↔ Contained file base r.2.2 := by
  obtain ⟨hheader, hfind⟩ := @elfRegionSize_safe file base r.2.2 _ hlen hsize
  rw [hheader] at hload ⊢
  rw [← populate_safe_iff hlen hfit (eq_of_result hload)]
  constructor
  · exact fun hsafe ev hev => hsafe ev (mem_append_right _ hev)
  · exact fun hsafe ev hev => (mem_append.1 hev).elim (hfind ev) (hsafe ev)

/-! ## Two programs -/

def oneRelocation (rela : Rela) : List UInt8 :=
  imageStart 120 2 1 0 64 ++
  -- `.rela.dyn`, then the names
  leBytes 24 0 ++ leBytes 8 258 ++ leBytes 8 Rela.size ++ leBytes 24 0 ++
  leBytes 24 9 ++ leBytes 8 248 ++ leBytes 8 10 ++ leBytes 24 0 ++
  relaDyn ++ [0] ++ leBytes 8 rela.offset ++ leBytes 8 rela.info ++ leBytes 8 rela.addend

def firstSegment : ProgramHeader := ⟨ptLoad, 0, 0, 64, 4096⟩

def tameImage : List UInt8 := oneRelocation ⟨0, rAarch64Relative, 16⟩

theorem tameImage_size : (elfRegionSize tameImage).result =
    .ok (imageHeader tameImage, [firstSegment], 0x110000) := by
  decide +kernel

theorem tameImage_loads :
    (populateRegion tameImage (imageHeader tameImage) [firstSegment] 0x50000000 0x110000).result
      = .ok ⟨0x50000000, 0x110000, 0x50000000⟩ := by
  decide +kernel

theorem tameImage_contained : Contained tameImage 0x50000000 0x110000 := by
  have hrela : relocations tameImage = [⟨0, rAarch64Relative, 16⟩] := by decide +kernel
  refine ⟨?_, by decide +kernel⟩
  rw [hrela]
  intro rela hmem
  obtain rfl := mem_singleton.1 hmem
  exact ⟨by decide, by decide⟩

theorem load_safe_tame : Contained tameImage 0x50000000 0x110000 ∧ ∀ ev, ev ∈ (elfRegionSize tameImage).log ++
      (populateRegion tameImage (imageHeader tameImage) [firstSegment] 0x50000000 0x110000).log →
      Safe tameImage 0x50000000 0x110000 ev :=
  ⟨tameImage_contained, (load_safe_iff (by decide +kernel) tameImage_size (by decide) tameImage_loads).2
    tameImage_contained⟩

def wildImage : List UInt8 := oneRelocation ⟨2 ^ 64 - 0x1000000, rAarch64Relative, 16⟩

theorem wildImage_loads :
    (populateRegion wildImage (imageHeader wildImage) [firstSegment] 0x50000000 0x110000).result
      = .ok ⟨0x50000000, 0x110000, 0x50000000⟩ := by
  decide +kernel

/-- **The loader accepts a program and writes, on its word, outside the program's region.** -/
theorem load_writes_below_region :
    (elfRegionSize wildImage).result = .ok (imageHeader wildImage, [firstSegment], 0x110000) ∧
    (populateRegion wildImage (imageHeader wildImage) [firstSegment] 0x50000000 0x110000).result
      = .ok ⟨0x50000000, 0x110000, 0x50000000⟩ ∧
    .write 0x4f000000 (leBytes 8 0x50000010) ∈
      (populateRegion wildImage (imageHeader wildImage) [firstSegment] 0x50000000 0x110000).log ∧
    ¬ Safe wildImage 0x50000000 0x110000 (.write 0x4f000000 (leBytes 8 0x50000010)) := by
  have hrela : relocations wildImage = [⟨2 ^ 64 - 0x1000000, rAarch64Relative, 16⟩] := by decide +kernel
  obtain ⟨l, hl, happlies⟩ := populate_applies (by decide +kernel) (by decide) (eq_of_result wildImage_loads)
  refine ⟨by decide +kernel, wildImage_loads, ?_, fun h => absurd h.1 (by decide)⟩
  rw [hl]
  refine mem_append_left _ (happlies.mem _ (hrela ▸ mem_singleton.2 rfl) _ ?_)
  exact mem_cons_of_mem _ (mem_cons_of_mem _ (mem_singleton.2 rfl))

end Events

/-! ## The kernel with this loader -/

section Kernel
variable {base size : Nat}

/-- memory stays as it is outside a region that every write is in. -/
theorem apply_frame {l : List Event} {a : Nat} (ha : a < base ∨ base + size ≤ a)
    (hin : ∀ addr bytes, .write addr bytes ∈ l → base ≤ addr ∧ addr + bytes.length ≤ base + size)
    (mem : Nat → UInt8) : l.foldl Event.apply mem a = mem a := by
  induction l generalizing mem with
  | nil => rfl
  | cons ev l ih =>
    rw [foldl_cons, ih (fun addr bytes hw => hin addr bytes (mem_cons_of_mem _ hw))]
    cases ev with
    | read off len | sum x y => rfl
    | write addr bytes =>
      obtain ⟨hlo, hhi⟩ := hin addr bytes mem_cons_self
      exact if_neg (by omega)

theorem populate_writes {file : List UInt8} {phdrs : List ProgramHeader} {p : LoadedProgram} {l : List Event}
    (hlen : file.length < 2 ^ 63) (hfit : base + size < 2 ^ 64)
    (hok : ∀ rela, rela ∈ relocations file → rela.offset + 8 ≤ size)
    (h : populateRegion file (imageHeader file) phdrs base size = ⟨.ok p, l⟩) (addr : Nat) (bytes : List UInt8)
    (hw : .write addr bytes ∈ l) : base ≤ addr ∧ addr + bytes.length ≤ base + size := by
  obtain ⟨l', rfl, happlies⟩ := populate_applies hlen hfit h
  rcases mem_append.1 hw with hw | hw
  · rcases happlies.safe _ hw with hsafe | ⟨rela, hrela, hev⟩
    · exact hsafe
    have hoff := hok rela hrela
    simp only [relaEvents, mem_cons, reduceCtorEq, Event.write.injEq, not_mem_nil, or_false, false_or] at hev
    obtain ⟨rfl, rfl⟩ := hev
    rw [mod_eq_of_lt (by omega), length_leBytes]
    omega
  · cases mem_singleton.1 hw

/-- **A program whose relocations have their targets in its region changes, when the kernel loads it, the memory
of that region only.** -/
theorem withLoader_frame {M : Kernel.Machine} {image : List UInt8} {mem mem' : Nat → UInt8}
    (hlen : image.length < 2 ^ 63) (hsize : (withLoader M).elfRegionSize image = .ok size)
    (hfit : base + size < 2 ^ 64) (hok : ∀ rela, rela ∈ relocations image → rela.offset + 8 ≤ size)
    (h : (withLoader M).populateRegion image base size mem = (true, mem')) (a : Nat)
    (ha : a < base ∨ base + size ≤ a) : mem' a = mem a := by
  dsimp only [withLoader] at hsize h
  cases hr : (elfRegionSize image).result with
  | error e => rw [hr] at hsize; cases hsize
  | ok r =>
    rw [hr] at hsize h
    cases hsize
    obtain ⟨hloaded, rfl⟩ := Prod.mk.inj h
    cases hp : (populateRegion image r.1 r.2.1 base r.2.2).result with
    | error e => rw [hp] at hloaded; cases hloaded
    | ok p =>
      have hheader := (@elfRegionSize_safe image base r.2.2 _ hlen hr).1
      rw [hheader] at hp ⊢
      exact apply_frame ha (populate_writes hlen hfit hok (eq_of_result hp)) mem

theorem withLoader_frame_tame : ∃ mem,
    Kernel.twoCores.populateRegion tameImage 0x50000000 0x110000 (fun _ => 7) = (true, mem) ∧ mem 0 = 7 := by
  rw [Kernel.twoCores]
  have hsize : (withLoader Kernel.bareCores).elfRegionSize tameImage = .ok 0x110000 := by
    simp only [withLoader, tameImage_size]
  obtain ⟨mem, h⟩ : ∃ mem,
      (withLoader Kernel.bareCores).populateRegion tameImage 0x50000000 0x110000 (fun _ => 7) = (true, mem) := by
    simp only [withLoader, tameImage_size, tameImage_loads]
    exact ⟨_, rfl⟩
  refine ⟨mem, h, withLoader_frame (by decide +kernel) hsize (by decide) ?_ h 0 (.inl (by decide))⟩
  exact fun rela hrela => (tameImage_contained.relocations rela hrela).1

end Kernel

end Ouroboros.Loader
