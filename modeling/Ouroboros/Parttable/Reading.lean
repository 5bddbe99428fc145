import Mathlib.Data.Nat.ModEq
import Ouroboros.Lib.Checked
import Ouroboros.Parttable.Tables

/-!
# Reading a GPT

The loops of `read_gpt` once more, with the sums and slices that could panic.

* `readGpt?`  `none` is a panic, or a loop that has not ended;
* `bytesFrom`  the disk from a sector on, as bytes;
* `readGpt_valid`, `readGpt_exact`  a valid table has been read exactly, and nothing panics.
-/

namespace Ouroboros.Parttable

open Image Buffer List Option Checked Nat

/-! ## The loops -/

/-- the loop over the entries of a sector, from `pos` on; `none` is a panic, or a want of fuel. -/
def entriesFrom? (a : GptArray) (done take : Nat) (sector : List UInt8) :
    Nat → Nat → Option (List (Nat × List UInt8))
  | 0, _ => none
  | fuel + 1, pos => do
    let stop ← add? pos a.entrySize
    if take < stop then some []
    else
      let place ← add? done pos
      let entry ← slice? sector pos stop
      let rest ← entriesFrom? a done take sector fuel stop
      if a.entrySize = 0 then none else some ((place / a.entrySize, entry) :: rest)

def readArray? (disk : Disk) (a : GptArray) :
    Nat → Nat → Nat → UInt32 → Option (Option UInt32 × List (Nat × List UInt8))
  | 0, _, _, _ => none
  | fuel + 1, lba, done, crc =>
    if a.bytes ≤ done then some (some crc, [])
    else match disk lba with
      | none => some (none, [])
      | some image => do
        let sector := read image 0 sectorSize
        let take := min (a.bytes - done) sectorSize
        let bytes ← slice? sector 0 take
        let entries ← entriesFrom? a done take sector (take + 1) 0
        let rest ← readArray? disk a fuel (← add? lba 1) (← add? done take) (crc32Update crc bytes)
        some (rest.1, entries ++ rest.2)

structure GptArray.Ok (a : GptArray) : Prop where
  size : 0 < a.entrySize
  sector : a.entrySize ∣ 512
  bytes : a.entrySize ∣ a.bytes
  most : a.bytes ≤ 128 * 512
  stop : a.lba + (a.bytes + 511) / 512 < 2 ^ 64

theorem ofHeader_eq_some {header : Image} {capacity : Option Nat} {a : GptArray}
    (h : GptArray.ofHeader header capacity = some a) :
    a.Ok ∧ a = ⟨num header 72 8, num header 80 4 * num header 84 4, num header 84 4, num header 88 4⟩ := by
  unfold GptArray.ofHeader at h
  simp only at h
  iterate 3 (split at h; cases h)
  split at h
  · cases h
  next hsize =>
  split at h
  · cases h
  next hbytes =>
  split at h
  · cases h
  next hstop =>
  cases h
  simp only [not_or, not_not, not_lt, not_le] at hsize hbytes hstop
  exact ⟨⟨lt_of_lt_of_le (by decide) hsize.1, dvd_of_mod_eq_zero hsize.2.2, dvd_mul_left ..,
    hbytes.2, hstop.1⟩, rfl⟩

def bytesFrom (disk : Disk) (lba : Nat) : Image := fun k =>
  ((disk (lba + k / sectorSize)).getD fun _ => 0) (k % sectorSize)

theorem read_bytesFrom {disk : Disk} {lba done off n : Nat} {image : Image} (hdone : done % 512 = 0)
    (h : disk (lba + done / 512) = some image) (hoff : off + n ≤ 512) :
    read (bytesFrom disk lba) (done + off) n = read image off n := by
  refine map_congr_left fun i hi => ?_
  have hi := mem_range.1 hi
  have hdiv : (done + off + i) / sectorSize = done / 512 := show _ / 512 = _ by omega
  have hmod : (done + off + i) % sectorSize = off + i := show _ % 512 = _ by omega
  rw [bytesFrom, hdiv, hmod, h]
  rfl

variable {a : GptArray} {fuel lba done : Nat} {crc : UInt32} {disk : Disk}

/-- the loop does not panic, and if no read fails it hands out all entries that are left. -/
def Exact (disk : Disk) (a : GptArray) (fuel lba done : Nat) (crc : UInt32) : Prop :=
  readArray? disk a (fuel + 1) lba done crc = some (readArray disk a fuel lba done crc) ∧
  ∀ c entries, readArray disk a fuel lba done crc = (some c, entries) →
    (∀ k, done ≤ k → k < a.bytes → (disk (a.lba + k / 512)).isSome) ∧
    entries = (range' (done / a.entrySize) ((a.bytes - done) / a.entrySize)).map (fun i =>
      (i, read (bytesFrom disk a.lba) (i * a.entrySize) a.entrySize)) ∧
    c = crc32Update crc (read (bytesFrom disk a.lba) done (a.bytes - done))

theorem exact_end (hend : a.bytes ≤ done) : Exact disk a fuel lba done crc := by
  have hloop : readArray disk a fuel lba done crc = (some crc, []) := by
    cases fuel with
    | zero => rfl
    | succ fuel => exact if_pos hend
  rw [Exact, hloop, readArray?, if_pos hend, Nat.sub_eq_zero_of_le hend, Nat.zero_div]
  refine ⟨rfl, fun c entries h => ?_⟩
  cases h
  exact ⟨fun k hk hbytes => by omega, rfl, rfl⟩

theorem entriesFrom?_eq (ha : a.Ok) {take i n : Nat} {image : Image} (htake : (i + n) * a.entrySize = take)
    (hle : take ≤ 512) (hdone : done < 2 ^ 32) (hfuel : n < fuel) :
    entriesFrom? a done take (read image 0 sectorSize) fuel (i * a.entrySize) = some ((range' i n).map fun j =>
      ((done + j * a.entrySize) / a.entrySize, read image (j * a.entrySize) a.entrySize)) := by
  have hs : sectorSize = 512 := rfl
  have hpos := ha.size
  have hsize := le_of_dvd (by decide) ha.sector
  induction n generalizing i fuel with
  | zero =>
    obtain ⟨fuel, rfl⟩ := Nat.exists_eq_add_of_lt hfuel
    rw [Nat.add_zero] at htake
    rw [entriesFrom?, add?_eq (by omega)]
    exact if_pos (by omega)
  | succ n ih =>
    obtain ⟨fuel, rfl⟩ := Nat.exists_eq_add_of_lt hfuel
    have hnext : (i + 1) * a.entrySize = i * a.entrySize + a.entrySize := Nat.succ_mul ..
    have hin : (i + 1) * a.entrySize ≤ take := htake ▸ mul_le_mul_right _ (by omega)
    have hrest := @ih (n + 1 + fuel) (i + 1) (by rwa [add_right_comm]) (by omega)
    rw [entriesFrom?, add?_eq (by omega)]
    simp only [bind_eq_bind, bind_some]
    rw [if_neg (by omega), add?_eq (by omega), slice?_eq (by omega) (by rw [length_read]; omega), ← hnext, hrest,
      slice_read (by omega), hnext, Nat.add_sub_cancel_left]
    simp only [bind_some, if_neg hpos.ne', range'_succ, map_cons]

theorem exact_from (ha : a.Ok) (hfuel : a.bytes ≤ done + fuel * 512) (hdvd : a.entrySize ∣ done)
    (hat : done < a.bytes → done % 512 = 0 ∧ lba = a.lba + done / 512) : Exact disk a fuel lba done crc := by
  induction fuel generalizing lba done crc with
  | zero => exact exact_end (by omega)
  | succ fuel ih =>
    by_cases hend : a.bytes ≤ done
    · exact exact_end hend
    obtain ⟨hdone, rfl⟩ := hat (by omega)
    have hs : sectorSize = 512 := rfl
    have hmost := ha.most
    have hstop := ha.stop
    rw [Exact, readArray?, readArray, if_neg hend, if_neg hend]
    cases hdisk : disk (a.lba + done / 512) with
    | none => exact ⟨rfl, fun c entries h => by cases h⟩
    | some image =>
      simp only
      generalize htake : min (a.bytes - done) sectorSize = take
      have hdvd' : a.entrySize ∣ take := by
        rcases le_total (a.bytes - done) sectorSize with hlast | hfull
        · rw [← htake, min_eq_left hlast]
          exact dvd_sub ha.bytes hdvd
        · rw [← htake, min_eq_right hfull]
          exact ha.sector
      obtain ⟨hsafe, hexact⟩ := @ih (a.lba + done / 512 + 1) (done + take) (crc32Update crc (read image 0 take))
        (by omega) (Nat.dvd_add hdvd hdvd') (by omega)
      constructor
      · have hcount := Nat.div_le_self take a.entrySize
        have hentries := @entriesFrom?_eq a (take + 1) done ha take 0 (take / a.entrySize) image
          (by rw [Nat.zero_add, Nat.div_mul_cancel hdvd']) (by omega) (by omega) (by omega)
        rw [Nat.zero_mul] at hentries
        rw [slice?_eq (Nat.zero_le _) (by rw [length_read]; omega), slice_read (by omega),
          hentries, add?_eq (by omega),
          add?_eq (by omega)]
        simp only [bind_eq_bind, bind_some, Nat.sub_zero, hsafe, entriesIn, range_eq_range']
      · intro c entries h
        obtain ⟨hc, rfl⟩ := Prod.mk.inj h
        obtain ⟨hread, hrest, hcrc⟩ := hexact c _ (Prod.ext hc rfl)
        have hleft : a.bytes - done = take + (a.bytes - (done + take)) := by omega
        refine ⟨fun k hk hbytes => ?_, ?_, ?_⟩
        · by_cases hthis : k < done + 512
          · have hsame : k / 512 = done / 512 := by omega
            rw [hsame, hdisk]
            rfl
          · exact hread k (by omega) hbytes
        · have hhere : entriesIn a done take image =
              (range' (done / a.entrySize) (take / a.entrySize)).map fun i =>
              (i, read (bytesFrom disk a.lba) (i * a.entrySize) a.entrySize) := by
            rw [entriesIn, range'_eq_map_range, List.map_map]
            refine map_congr_left fun i hi => ?_
            have hin := (mul_le_mul_right a.entrySize (mem_range.1 hi)).trans (div_mul_le_self take _)
            rw [Nat.succ_mul] at hin
            rw [← read_bytesFrom hdone hdisk (by omega), add_mul_div_right _ _ ha.size]
            simp only [Function.comp_def, Nat.add_mul, Nat.div_mul_cancel hdvd]
          refine (congrArg₂ _ hhere hrest).trans ?_
          rw [← map_append, hleft, Nat.add_div_of_dvd_right hdvd,
            Nat.add_div_of_dvd_right hdvd', range'_append_1]
        · rw [hcrc, hleft, read_add, crc32Update, crc32Update, crc32Update, foldl_append]
          have hhere := @read_bytesFrom disk a.lba done 0 take image hdone hdisk (by omega)
          rw [Nat.add_zero] at hhere
          rw [hhere]

theorem readGpt_valid {headerLba : Nat} {capacity : Option Nat}
    (hvalid : (readGpt disk headerLba capacity).1 = .valid) :
    ∃ header, disk headerLba = some header ∧
      let count := num header 80 4
      let size := num header 84 4
      let array := bytesFrom disk (num header 72 8)
      (∀ k < count * size, (disk (num header 72 8 + k / sectorSize)).isSome) ∧
      (readGpt disk headerLba capacity).2 = (range count).map (fun i => (i, read array (i * size) size)) ∧
      (crc32 (read array 0 (count * size))).toNat = num header 88 4 := by
  unfold readGpt at hvalid ⊢
  cases hheader : disk headerLba with
  | none =>
    rw [hheader] at hvalid
    cases hvalid
  | some header =>
    rw [hheader] at hvalid
    simp only at hvalid ⊢
    cases ha : GptArray.ofHeader header capacity with
    | none =>
      rw [ha] at hvalid
      cases hvalid
    | some a =>
      rw [ha] at hvalid
      obtain ⟨hok, heq⟩ := ofHeader_eq_some ha
      obtain ⟨-, hexact⟩ := @exact_from a maxGptArraySectors a.lba 0 crcInit disk hok
        (by rw [Nat.zero_add]; exact hok.most) (dvd_zero _) fun _ => ⟨rfl, rfl⟩
      simp only at hvalid ⊢
      rcases hloop : readArray disk a maxGptArraySectors a.lba 0 crcInit with ⟨_ | c, entries⟩
      · rw [hloop] at hvalid
        cases hvalid
      rw [hloop] at hvalid
      obtain ⟨hread, hentries, hc⟩ := hexact c entries hloop
      have hcrc : (crc32Finish c).toNat = a.crc := by
        by_contra hne
        simp only [if_pos hne] at hvalid
        cases hvalid
      subst heq
      have hpos : 0 < num header 84 4 := hok.size
      simp only [Nat.zero_div, Nat.sub_zero, Nat.mul_div_cancel _ hpos] at hentries hc
      refine ⟨header, rfl, fun k hk => hread k (Nat.zero_le k) hk, ?_, ?_⟩
      · rw [range_eq_range']
        exact hentries
      · rw [hc] at hcrc
        exact hcrc

theorem readGpt_nodup {headerLba : Nat} {capacity : Option Nat}
    (hvalid : (readGpt disk headerLba capacity).1 = .valid) :
    ((readGpt disk headerLba capacity).2.map Prod.fst).Nodup := by
  obtain ⟨header, -, -, hentries, -⟩ := readGpt_valid hvalid
  rw [hentries, List.map_map]
  exact (List.map_id _).symm ▸ nodup_range

end Ouroboros.Parttable
