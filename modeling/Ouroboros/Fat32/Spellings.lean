import Ouroboros.Fat32.Insert
import Ouroboros.Lib.Hex

/-!
# FAT32: names as slots

* `IsRow`  a slot's worth of bytes that does not start with a zero;
* `isRow_of_nameRows`  every slot that an insertion writes is one.
-/

namespace Ouroboros.Fat32

open Fsd (Bytes)
open Buffer Image Volume List

structure IsRow (row : List UInt8) : Prop where
  length : row.length = dirEntrySize
  used : row.head? ≠ some dirEntryEnd ∧ row.head? ≠ some dirEntryFree

structure IsShort (short : List UInt8) : Prop where
  length : short.length = 11
  used : short.head? ≠ some dirEntryEnd ∧ short.head? ≠ some dirEntryFree

theorem length_padTo {n : Nat} {b : List UInt8} (h : b.length ≤ n) : (padTo n b).length = n := by
  rw [padTo, length_append, length_replicate]
  omega

variable {short : List UInt8} {b : UInt8} {name : Bytes}

theorem isRow_writeRawEntry (h : IsShort short) (ntres attr : UInt8) (cluster size : Nat) :
    IsRow (writeRawEntry short ntres attr cluster size) := by
  obtain ⟨hlen, hused⟩ := h
  refine ⟨by simp [writeRawEntry, hlen, Buffer.length_le, dirEntrySize], ?_⟩
  cases short with
  | nil => cases hlen
  | cons b rest => exact hused

/-! ## Short names -/

def isPlain (b : UInt8) : Bool := b ≠ dirEntryEnd && b ≠ dirEntryFree && b ≠ space

theorem isPlain_upper (h : isValidShortNameByte b) : isPlain (upper b) := by
  have hall : ∀ b, isValidShortNameByte b → isPlain (upper b) := Hex.forall_byte (by decide +kernel)
  exact hall b h

theorem isPlain_iff : isPlain b ↔ b ≠ dirEntryEnd ∧ b ≠ dirEntryFree ∧ b ≠ space := by
  simp [isPlain, and_assoc]

theorem isShort_makeShortName {ntres : UInt8} (h : makeShortName name = some (short, ntres)) :
    IsShort short := by
  unfold makeShortName at h
  split at h
  · cases h
  obtain ⟨⟨base, ext⟩, -, h⟩ := Option.bind_eq_some_iff.1 h
  dsimp only at h
  split at h
  · cases h
  rename_i hlen
  split at h
  · cases h
  rename_i hvalid
  obtain ⟨baseLower, -, h⟩ := Option.bind_eq_some_iff.1 h
  obtain ⟨extLower, -, h⟩ := Option.map_eq_some_iff.1 h
  cases h
  push Not at hlen
  obtain ⟨hne, hbase, hext⟩ := hlen
  refine ⟨?_, ?_⟩
  · rw [length_append, length_padTo (by simpa using hbase), length_padTo (by simpa using hext)]
  cases base with
  | nil => exact absurd rfl hne
  | cons b rest =>
    simp only [Bool.or_eq_true, Bool.not_eq_true', not_or, Bool.not_eq_false, all_cons,
      Bool.and_eq_true] at hvalid
    have hb := isPlain_iff.1 (isPlain_upper hvalid.1.1)
    simp [padTo, hb.1, hb.2.1]

/-! ## Aliases -/

theorem length_decimal (n v : Nat) : (decimal n v).length ≤ n := by
  induction n generalizing v with
  | zero => exact Nat.le_refl 0
  | succ n ih =>
    rw [decimal]
    split
    · exact Nat.zero_le _
    · rw [length_append, length_singleton]
      exact Nat.succ_le_succ (ih _)

theorem isPlain_sanitize {c : UInt8} (h : sanitizeShortChar b = some c) : isPlain c := by
  have hall : ∀ b, isValidShortNameByte b → isPlain b := Hex.forall_byte (by decide +kernel)
  unfold sanitizeShortChar at h
  split at h
  · cases h
    exact hall _ ‹_›
  · cases h

theorem isPlain_aliasBase {name : Bytes} {b : UInt8} (hb : b ∈ aliasBase name) : isPlain b := by
  unfold aliasBase at hb
  dsimp only at hb
  split at hb
  · rw [mem_singleton.1 hb]
    decide
  · obtain ⟨a, -, ha⟩ := mem_filterMap.1 (mem_of_mem_take hb)
    exact isPlain_sanitize ha

theorem isShort_composeAlias (name : Bytes) (n : Nat) :
    IsShort (composeAlias (aliasBase name) (aliasExt name) n) := by
  have hdigits : (if n = 0 then [48] else decimal 7 n).length ≤ 7 := by
    split
    · decide
    · exact length_decimal 7 n
  have hext : (aliasExt name).length ≤ 3 := by
    rw [aliasExt, length_take]
    exact min_le_left _ _
  unfold composeAlias
  dsimp only
  generalize (if n = 0 then [48] else decimal 7 n) = digits at hdigits
  refine ⟨?_, ?_⟩
  · rw [length_append, length_padTo, length_padTo hext]
    rw [length_append, length_take, length_cons]
    omega
  have hvalid := @isPlain_aliasBase name
  generalize aliasBase name = base at hvalid
  cases hk : 8 - (1 + digits.length) with
  | zero => simp [padTo, dirEntryEnd, dirEntryFree]
  | succ k =>
    cases base with
    | nil => simp [padTo, dirEntryEnd, dirEntryFree]
    | cons b rest =>
      have hb := isPlain_iff.1 (hvalid mem_cons_self)
      simp [padTo, hb.1, hb.2.1]

/-! ## Long names -/

theorem length_lfnEntry (name : List UInt16) (first checksum : UInt8) (start : Nat) :
    (lfnEntry name first checksum start).length = dirEntrySize := rfl

theorem seq_used (seq : Nat) (hpos : 1 ≤ seq) (hlt : seq ≤ 20) (last : Bool) :
    let b := UInt8.ofNat seq ||| if last then lfnLastMask else 0
    b ≠ dirEntryEnd ∧ b ≠ dirEntryFree := by
  have hall : ∀ seq < 21, 1 ≤ seq → ∀ last :
        Bool, UInt8.ofNat seq ||| (if last then lfnLastMask else 0) ≠ dirEntryEnd
        ∧ UInt8.ofNat seq ||| (if last then lfnLastMask else 0) ≠ dirEntryFree := by decide
  exact hall seq (by omega) hpos last

theorem isRow_buildNameEntries {name : List UInt16} (hname : name.length ≤ 255) (hshort : IsShort short)
    (attr : UInt8) (cluster size : Nat) : ∀ row ∈ buildNameEntries name short attr cluster size, IsRow row := by
  intro row hrow
  rcases mem_append.1 hrow with hrow | hrow
  · obtain ⟨idx, hidx, rfl⟩ := mem_map.1 hrow
    have hlt := mem_range.1 hidx
    unfold lfnCharsPerEntry at hlt ⊢
    have hused := seq_used ((name.length + 13 - 1) / 13 - idx) (by omega) (by omega) (decide (idx = 0))
    simp only [decide_eq_true_eq] at hused
    refine ⟨length_lfnEntry _ _ _ _, ?_⟩
    simpa [lfnEntry] using hused
  · rw [mem_singleton.1 hrow]
    exact isRow_writeRawEntry hshort 0 attr cluster size

theorem isRow_of_nameRows {g : Geometry} {disk : Nat → Sector} {n c cluster size : Nat} {attr : UInt8}
    {rows : List (List UInt8)} (h : NameRows g disk n c name attr cluster size short rows) :
    ∀ row ∈ rows, IsRow row := by
  cases h with
  | short hshort =>
    intro row hrow
    rw [mem_singleton.1 hrow]
    exact isRow_writeRawEntry (isShort_makeShortName hshort) _ _ _ _
  | long _ _ _ heq _ =>
    subst heq
    exact isRow_buildNameEntries (Utf16.length_unitsOf name) (isShort_composeAlias name _) attr cluster size

end Ouroboros.Fat32
