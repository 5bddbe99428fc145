import Ouroboros.Fat32.Changes

/-!
# FAT32: where things lie

* `Geometry.Fits`  what `mountAt` makes sure of;
* `mountAt_fits`  a volume that mounts fits;
* `fatLba`, `dataLba` the sectors of an entry of the table and of a cluster, as the driver computes them; they
  are told apart even where the sums wrap;
* `table`  the entries of the live copy.
-/

namespace Ouroboros.Fat32

open Image Try Nat

/-! ## Sums -/

theorem word_apply (bits n : Nat) (s : Fs) :
    word bits n s = (.ok (n % 2 ^ bits), if n < 2 ^ bits then s else s.record .wrapped) := by
  unfold word
  split
  · rw [mod_eq_of_lt ‹_›]
    rfl
  · rfl

theorem u64_eq {n : Nat} (h : n < 2 ^ 64) (s : Fs) : u64 n s = (.ok n, s) := by
  rw [u64, word_apply, if_pos h, mod_eq_of_lt h]

/-! ## Geometry -/

/-- a volume of `total` sectors, the first `reserved` of them before the table. -/
structure Geometry.Fits (g : Geometry) (reserved total : Nat) : Prop where
  lba_lt : g.partitionLba < 2 ^ 32
  sectors_pos : 0 < g.sectorsPerCluster
  sectors_lt : g.sectorsPerCluster < 2 ^ 8
  live : g.fats.readCopy < g.numFats
  reserved_pos : 0 < reserved
  fatStart : g.fatStartLba = (g.partitionLba + reserved) % 2 ^ 32
  dataStart : g.dataStartLba = (g.partitionLba + (reserved + g.numFats * g.fatSize32)) % 2 ^ 32
  room : reserved + g.numFats * g.fatSize32 + (g.clusterEnd - 2) * g.sectorsPerCluster ≤ total
  total_lt : total < 2 ^ 32
  described : g.clusterEnd ≤ g.fatSize32 * 128
  small : g.clusterEnd ≤ badCluster
  root : g.inHeap g.rootCluster

theorem inHeap_iff {g : Geometry} {c : Nat} : g.inHeap c ↔ 2 ≤ c ∧ c < g.clusterEnd := by
  rw [Geometry.inHeap, Bool.and_eq_true, decide_eq_true_iff, decide_eq_true_iff]

section Mount
variable {d : Device} {lba sectors : Nat} {s t : Fs} {g : Geometry} {area : Area}

theorem totalSectors_lt (bpb : Sector) : totalSectors bpb < 2 ^ 32 := by
  have h₁ := num_lt bpb 19 2
  have h₂ := num_lt bpb 32 4
  unfold totalSectors
  split <;> omega

theorem clusterEnd_room {bpb : Sector} (h : metaSectors bpb < totalSectors bpb) :
    metaSectors bpb + (clusterEnd bpb - 2) * num bpb 13 1 ≤ totalSectors bpb := by
  have hle : clusterEnd bpb - 2 ≤ (totalSectors bpb - metaSectors bpb) / num bpb 13 1 :=
    sub_le_of_le_add ((min_le_left _ _).trans (min_le_left _ _))
  have hmul : (clusterEnd bpb - 2) * num bpb 13 1 ≤ totalSectors bpb - metaSectors bpb :=
    (mul_le_mul_right _ hle).trans (div_mul_le_self _ _)
  omega

theorem readSector_of_fails (h : d.fails s.log (.read area lba)) :
    d.readSector area lba s = (.error (.error .io), s.record (.read area lba)) := if_pos h

theorem readSector_of_passes (h : d.fails s.log (.read area lba) = false) :
    d.readSector area lba s = (.ok (s.disk lba), s.record (.read area lba)) :=
  if_neg (h ▸ Bool.false_ne_true)

theorem readSector_ok {b : Sector} (h : d.readSector area lba s = (.ok b, t)) :
    b = s.disk lba ∧ t = s.record (.read area lba) := by
  unfold Device.readSector at h
  dsimp only at h
  split at h
  · cases h
  · cases h
    exact ⟨rfl, rfl⟩

theorem mountAt_ok (h : d.mountAt lba sectors s = (.ok g, t)) :
    let bpb := s.disk lba
    (0 < num bpb 13 1 ∧ 0 < num bpb 14 2 ∧ metaSectors bpb < totalSectors bpb
      ∧ (fatCopies bpb).readCopy < num bpb 16 1 ∧ totalSectors bpb ≤ sectors ∧ g.inHeap g.rootCluster)
    ∧ g = ⟨lba, num bpb 13 1, (lba + num bpb 14 2) % 2 ^ 32, (lba + metaSectors bpb) % 2 ^ 32, num bpb 44 4,
        num bpb 16 1, fatCopies bpb, num bpb 36 4, clusterEnd bpb⟩
    ∧ t = { s with log := t.log }
    ∧ (lba + totalSectors bpb ≤ 2 ^ 32 → t.log = s.log ++ [.read .boot lba]) := by
  obtain ⟨bpb, u, hread, h⟩ := bind_eq_ok.1 h
  obtain ⟨rfl, rfl⟩ := readSector_ok hread
  obtain ⟨-, h⟩ := ite_fail_eq_ok.1 h
  obtain ⟨-, h⟩ := ite_fail_eq_ok.1 h
  obtain ⟨hfields, h⟩ := ite_fail_eq_ok.1 h
  obtain ⟨hlive, h⟩ := ite_fail_eq_ok.1 h
  obtain ⟨hsize, h⟩ := ite_fail_eq_ok.1 h
  obtain ⟨fatStart, t₁, hfat, h⟩ := bind_eq_ok.1 h
  obtain ⟨dataStart, t₂, hdata, h⟩ := bind_eq_ok.1 h
  rw [u32, word_apply] at hfat hdata
  cases hfat
  cases hdata
  dsimp only at h
  split at h
  case isTrue hroot =>
    cases h
    refine ⟨⟨by omega, by omega, by omega, by omega, by omega, hroot⟩, rfl, ?_, fun hle => ?_⟩
    · split <;> split <;> rfl
    have hres : num (s.disk lba) 14 2 ≤ metaSectors (s.disk lba) := le_add_right _ _
    rw [if_pos (by omega), if_pos (by omega)]
    rfl
  case isFalse => cases h

theorem mountAt_fits (hlba : lba < 2 ^ 32) (h : d.mountAt lba sectors s = (.ok g, t)) :
    g.Fits (num (s.disk lba) 14 2) (totalSectors (s.disk lba)) := by
  obtain ⟨⟨hspc, hres, hmeta, hlive, -, hroot⟩, rfl, -⟩ := mountAt_ok h
  exact
    { lba_lt := hlba
      sectors_pos := hspc
      sectors_lt := num_lt _ 13 1
      live := hlive
      reserved_pos := hres
      fatStart := rfl
      dataStart := rfl
      room := clusterEnd_room hmeta
      total_lt := totalSectors_lt _
      described := (min_le_left _ _).trans (min_le_right _ _)
      small := min_le_right _ _
      root := hroot }

end Mount

/-! ## Addresses -/

namespace Geometry
variable (g : Geometry)

def fatLba (copy c : Nat) : Nat := (g.fatStartLba + copy * g.fatSize32 + c * 4 / sectorSize) % 2 ^ 32

def dataLba (c k : Nat) : Nat := (g.dataStartLba + (c - 2) * g.sectorsPerCluster + k) % 2 ^ 32

/-- a sector of the clusters; `write_at` adds in 64 bits. -/
def IsData (lba : Nat) : Prop :=
  ∃ c k, g.inHeap c ∧ k < g.sectorsPerCluster ∧ (lba = g.dataLba c k ∨ lba = g.dataLba c 0 + k)

def IsFat (copy lba : Nat) : Prop := copy < g.numFats ∧ ∃ c, g.inHeap c ∧ lba = g.fatLba copy c

end Geometry

theorem mul_add_inj {a a' n r r' : Nat} (hr : r < n) (hr' : r' < n) (h : a * n + r = a' * n + r') :
    a = a' ∧ r = r' := by
  have hn : 0 < n := Nat.zero_lt_of_lt hr
  have h₁ := (Nat.div_mod_unique hn).2 ⟨(by rw [Nat.mul_comm n, Nat.add_comm] : r + n * a = a * n + r), hr⟩
  have h₂ := (Nat.div_mod_unique hn).2 ⟨(by rw [h, Nat.mul_comm n, Nat.add_comm] : r' + n * a' = a * n + r), hr'⟩
  exact ⟨h₁.1.symm.trans h₂.1, h₁.2.symm.trans h₂.2⟩

section Fits
variable {g : Geometry} {reserved total : Nat} (fits : g.Fits reserved total) {copy c k c' : Nat}
include fits

theorem fatLba_eq (copy c : Nat) :
    g.fatLba copy c = (g.partitionLba + (reserved + copy * g.fatSize32 + c / 128)) % 2 ^ 32 := by
  have hdiv : c * 4 / sectorSize = c / 128 := by
    rw [sectorSize]
    omega
  rw [Geometry.fatLba, fits.fatStart, hdiv]
  omega

theorem dataLba_eq (c k : Nat) : g.dataLba c k =
      (g.partitionLba + (reserved + g.numFats * g.fatSize32 + (c - 2) * g.sectorsPerCluster + k)) % 2 ^ 32 := by
  rw [Geometry.dataLba, fits.dataStart]
  omega

theorem fat_offset_lt (hcopy : copy < g.numFats) (hc : g.inHeap c) :
    reserved + copy * g.fatSize32 + c / 128 < reserved + g.numFats * g.fatSize32 := by
  have hdesc := fits.described
  have hlt := (inHeap_iff.1 hc).2
  have hmul : (copy + 1) * g.fatSize32 ≤ g.numFats * g.fatSize32 := mul_le_mul_right _ hcopy
  rw [succ_mul] at hmul
  omega

theorem data_offset_lt (hc : g.inHeap c) (hk : k < g.sectorsPerCluster) :
    reserved + g.numFats * g.fatSize32 + (c - 2) * g.sectorsPerCluster + k < total := by
  have hroom := fits.room
  obtain ⟨hlo, hhi⟩ := inHeap_iff.1 hc
  have hmul : (c - 2 + 1) * g.sectorsPerCluster ≤ (g.clusterEnd - 2) * g.sectorsPerCluster :=
    mul_le_mul_right _ (by omega)
  rw [succ_mul] at hmul
  omega

theorem meta_lt : reserved + g.numFats * g.fatSize32 < total := by
  have := data_offset_lt fits fits.root fits.sectors_pos
  omega

theorem isFat_ne_isData {a b : Nat} (ha : g.IsFat copy a) (hb : g.IsData b) : a ≠ b := by
  obtain ⟨hcopy, c, hc, rfl⟩ := ha
  obtain ⟨c', k, hc', hk, hb⟩ := hb
  have hfat := fat_offset_lt fits hcopy hc
  have hdata := data_offset_lt fits hc' hk
  have htotal := fits.total_lt
  rw [dataLba_eq fits, dataLba_eq fits] at hb
  rw [fatLba_eq fits]
  omega

theorem fatLba_inj {copy' : Nat} (hcopy : copy < g.numFats) (hcopy' : copy' < g.numFats)
    (hc : g.inHeap c) (hc' : g.inHeap c') (h : g.fatLba copy c = g.fatLba copy' c') :
    copy = copy' ∧ c / 128 = c' / 128 := by
  have h₁ := fat_offset_lt fits hcopy hc
  have h₂ := fat_offset_lt fits hcopy' hc'
  have hmeta := meta_lt fits
  have htotal := fits.total_lt
  have hdesc := fits.described
  have hlt := (inHeap_iff.1 hc).2
  have hlt' := (inHeap_iff.1 hc').2
  rw [fatLba_eq fits, fatLba_eq fits] at h
  have hsum : copy * g.fatSize32 + c / 128 = copy' * g.fatSize32 + c' / 128 := by omega
  have hq : c / 128 < g.fatSize32 := by omega
  have hq' : c' / 128 < g.fatSize32 := by omega
  exact mul_add_inj hq hq' hsum

theorem dataLba_inj {k' : Nat} (hc : g.inHeap c) (hc' : g.inHeap c') (hk : k < g.sectorsPerCluster)
    (hk' : k' < g.sectorsPerCluster) (h : g.dataLba c k = g.dataLba c' k') : c = c' ∧ k = k' := by
  have h₁ := data_offset_lt fits hc hk
  have h₂ := data_offset_lt fits hc' hk'
  have htotal := fits.total_lt
  rw [dataLba_eq fits, dataLba_eq fits] at h
  have hsum : (c - 2) * g.sectorsPerCluster + k = (c' - 2) * g.sectorsPerCluster + k' := by omega
  obtain ⟨heq, hk⟩ := mul_add_inj hk hk' hsum
  have hlo := (inHeap_iff.1 hc).1
  have hlo' := (inHeap_iff.1 hc').1
  exact ⟨by omega, hk⟩

end Fits

/-! ## The table -/

def Geometry.rawEntry (g : Geometry) (disk : Nat → Sector) (copy c : Nat) : Nat :=
  num (disk (g.fatLba copy c)) (c * 4 % sectorSize) 4

def Geometry.table (g : Geometry) (disk : Nat → Sector) (c : Nat) : Nat :=
  if g.inHeap c then g.rawEntry disk g.fats.readCopy c % 2 ^ 28 else 0

def Geometry.next (g : Geometry) (T : Nat → Nat) (c : Nat) : Option Nat := g.link (T c)

theorem inHeap_of_link {g : Geometry} {value d : Nat} (h : g.link value = some d) : g.inHeap d := by
  unfold Geometry.link at h
  split at h
  · cases h
  rename_i hne
  cases h
  simp only [Bool.or_eq_true, Bool.not_eq_true', not_or] at hne
  exact eq_true_of_ne_false hne.2

def Geometry.reach (g : Geometry) (T : Nat → Nat) (head : Nat) : Nat → Option Nat
  | 0 => some head
  | n + 1 => (g.reach T head n).bind (g.next T)

/-- a cursor stands where a walk from the head of its chain comes to. -/
def Geometry.At (g : Geometry) (T : Nat → Nat) (k : ChainCursor) : Prop :=
  ∃ n, k.clusterPos = n * g.clusterBytes ∧ g.reach T k.fileCluster n = some k.cluster

end Ouroboros.Fat32
