import Mathlib.Data.List.Induction
import Mathlib.Data.List.Nodup
import Ouroboros.Parttable.Reading

/-!
# Blank disks

* `blank_spec`  what is listed of a disk that the kernel takes for blank, and whose boot disk it is;
* `blankForAll_iff`  when such a disk is blank to everyone.
-/

namespace Ouroboros.Parttable

open Image Buffer List Option

variable {boot : BootPartition} {disk : Disk} {capacity : Nat} {e : List UInt8}
    {entries : List (Nat × List UInt8)}

theorem blank_spec (h : isBlank disk = some true) :
    (∀ capacity, partitions disk capacity = some []) ∧ ∀ boot capacity,
      isBootDisk boot disk capacity = some .yes ↔
      boot.table = .gpt ∧ ∃ last, gptBackup capacity = some last ∧ gptHolds boot disk last capacity =
        some (some true) := by
  obtain ⟨⟨gpt, mbr⟩, hread, hblank⟩ := bind_eq_some_iff.1 h
  simp only [some.injEq, Bool.and_eq_true, Bool.not_eq_true', List.any_eq_false, Bool.or_eq_true,
    decide_eq_true_eq] at hblank
  obtain ⟨⟨rfl, hsig⟩, hlisted⟩ := hblank
  obtain ⟨lba1, hlba1, hlba0, hgpt⟩ := gptAndMbr_eq_some hread
  refine ⟨fun capacity => ?_, fun boot capacity => ?_⟩
  · have hnone : (mbrEntries mbr).filterMap mbrPartition = [] := by
      refine filterMap_eq_nil_iff.2 fun e he => if_pos ?_
      by_contra hlists
      simp only [not_or] at hlists
      exact hlisted e he (.inr ⟨hlists.1, hlists.2.2⟩)
    rw [partitions, hread, ← hnone]
    rfl
  have hprimary : gptHolds boot disk gptPrimary capacity = none := by
    have hmagic : read lba1 0 8 ≠ efiPart := fun heq => by simp [heq] at hgpt
    simp only [gptHolds, readGpt, gptPrimary, hlba1, GptArray.ofHeader, if_pos hmagic]
  unfold isBootDisk
  cases htable : boot.table with
  | unknown => simp
  | mbr => simp [hlba0, mbrHolds, hsig, Boot.ofBool]
  | gpt =>
    simp only [hprimary, true_and]
    cases hlast : gptBackup capacity with
    | none => simp
    | some last =>
      rcases hbackup : gptHolds boot disk last capacity with _ | _ | _ | _ <;> simp [hbackup, Boot.ofBool]

/-- a disk that is blank is so for everyone: nothing is listed, and it is nobody's boot disk. -/
def BlankForAll (disk : Disk) (capacity : Nat) : Prop := isBlank disk = some true →
    (∀ capacity room, discover disk capacity room = some []) ∧ ∀ boot, isBootDisk boot disk capacity ≠ some .yes

/-- the end of an entry, the sector past its last one, is a 64-bit number that is not below its start. -/
def Spans (entry : List UInt8) : Prop :=
  ofLe (slice entry 32 40) ≤ ofLe (slice entry 40 48) + 1 ∧ ofLe (slice entry 40 48) + 1 < 2 ^ 64

/-- the boot partition that is the entry with this index, on a disk without a signature. -/
def bootAt (index : Nat) (entry : List UInt8) : BootPartition :=
  ⟨.gpt, index + 1, ofLe (slice entry 32 40), ofLe (slice entry 40 48) + 1 - ofLe (slice entry 32 40), .none⟩

section Holds

theorem foldl_named (boot : BootPartition) (entries : List (Nat × List UInt8)) (found : Option (List UInt8)) :
    entries.foldl (fun found x => if x.1 + 1 = boot.number then some x.2 else found) found =
      ((entries.filter (·.1 + 1 = boot.number)).getLast?.map Prod.snd).or found := by
  induction entries using reverseRecOn with
  | nil => rfl
  | append_singleton l x ih =>
    rw [foldl_append, ih, filter_append, foldl_cons, foldl_nil]
    by_cases hx : x.1 + 1 = boot.number <;> simp [hx]

theorem mem_of_named (h : boot.named entries = some e) : ∃ i, (i, e) ∈ entries := by
  rw [BootPartition.named, foldl_named, or_none, map_eq_some_iff] at h
  obtain ⟨⟨i, e⟩, hlast, rfl⟩ := h
  exact ⟨i, mem_of_mem_filter (mem_of_getLast? hlast)⟩

theorem named_of_mem {i : Nat} (hnodup : (entries.map Prod.fst).Nodup) (h : (i, e) ∈ entries)
    (hboot : i + 1 = boot.number) : boot.named entries = some e := by
  have hmem : (i, e) ∈ entries.filter (·.1 + 1 = boot.number) := mem_filter.2 ⟨h, decide_eq_true hboot⟩
  obtain ⟨x, hx⟩ := isSome_iff_exists.1 (getLast?_isSome.2 (ne_nil_of_mem hmem))
  obtain ⟨hin, hnumber⟩ := mem_filter.1 (mem_of_getLast? hx)
  have hsame : x.1 = i := Nat.succ.inj ((of_decide_eq_true hnumber).trans hboot.symm)
  obtain rfl : x = (i, e) := inj_on_of_nodup_map hnodup hin h hsame
  rw [BootPartition.named, foldl_named, hx]
  rfl

theorem is_of_spans (h : Spans e) (i : Nat) : (bootAt i e).is e := by
  obtain ⟨hle, hlt⟩ := h
  have hends : ofLe (slice e 32 40) + (ofLe (slice e 40 48) + 1 - ofLe (slice e 32 40)) =
      ofLe (slice e 40 48) + 1 := by
    omega
  simp only [BootPartition.is, bootAt, hends, Bool.true_and, Bool.and_eq_true, decide_eq_true_eq]
  exact ⟨trivial, ⟨hlt, hlt⟩, trivial⟩

theorem spans_of_is (h : boot.is e) : Spans e := by
  simp only [BootPartition.is, Bool.and_eq_true, decide_eq_true_eq] at h
  obtain ⟨⟨-, hfirst⟩, ⟨hlast, -⟩, hends⟩ := h
  exact ⟨by omega, hlast⟩

/-- a copy of a GPT holds the boot partition of someone just if it is valid and one of its entries spans. -/
theorem holds_iff (disk : Disk) (header capacity : Nat) :
    (∃ boot : BootPartition, boot.table = .gpt ∧ gptHolds boot disk header capacity = some (some true)) ↔
      (readGpt disk header (some capacity)).1 = .valid ∧ ∃ x ∈
      (readGpt disk header (some capacity)).2, Spans x.2 := by
  constructor
  · rintro ⟨boot, -, h⟩
    unfold gptHolds at h
    rcases hread : readGpt disk header (some capacity) with ⟨_ | _ | _, es⟩ <;> rw [hread] at h
    · obtain ⟨e, hnamed, his⟩ := (any_eq_true _ _).1 (some.inj (some.inj h))
      obtain ⟨i, hi⟩ := mem_of_named hnamed
      exact ⟨rfl, (i, e), hi, spans_of_is his⟩
    all_goals cases h
  · rintro ⟨hvalid, ⟨i, e⟩, hmem, hspans⟩
    refine ⟨bootAt i e, rfl, ?_⟩
    have hnamed := @named_of_mem (bootAt i e) _ _ _ (readGpt_nodup hvalid) hmem rfl
    unfold gptHolds
    rcases hread : readGpt disk header (some capacity) with ⟨copy, es⟩
    rw [hread] at hvalid hnamed
    cases hvalid
    dsimp only
    rw [hnamed]
    exact congrArg (some ∘ some) (is_of_spans hspans i)

end Holds

/-- **A blank disk is blank for everyone just if its last sector is no header of a valid GPT with an entry that
spans**: only `is_boot_disk` looks there without a primary header or a protective entry. -/
theorem blankForAll_iff (disk : Disk) (capacity : Nat) : BlankForAll disk capacity ↔
    (isBlank disk = some true → ∀ last, gptBackup capacity = some last →
      (readGpt disk last (some capacity)).1 = .valid → ∀ x ∈
      (readGpt disk last (some capacity)).2, ¬ Spans x.2) := by
  refine forall_congr' fun h => ?_
  obtain ⟨hnone, hboot⟩ := blank_spec h
  constructor
  · intro hall last hlast hvalid x hx hspans
    obtain ⟨boot, htable, hholds⟩ := (holds_iff disk last capacity).2 ⟨hvalid, x, hx, hspans⟩
    exact hall.2 boot ((hboot ..).2 ⟨htable, last, hlast, hholds⟩)
  · refine fun hlost => ⟨fun capacity room => ?_, fun boot hyes => ?_⟩
    · rw [discover, hnone]
      exact congrArg some take_nil
    · obtain ⟨htable, last, hlast, hholds⟩ := (hboot ..).1 hyes
      obtain ⟨hvalid, x, hx, hspans⟩ := (holds_iff disk last capacity).1 ⟨boot, htable, hholds⟩
      exact hlost last hlast hvalid x hx hspans

def backupDisk : Disk
  | 0 | 1 => some fun _ => 0
  | 99 => unusedDisk 1
  | lba => unusedDisk lba

/-- the disk is blank, and the boot disk. -/
theorem backup_not_blank : ¬ BlankForAll backupDisk 100 := by
  intro h
  exact (h (by decide +kernel)).2 ⟨.gpt, 1, 10, 10, .none⟩ (by decide +kernel)

end Ouroboros.Parttable
