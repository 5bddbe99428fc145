import Ouroboros.Fat32.Updates

/-!
# FAT32: no access outside the volume

* `Call`, `run`  operations one after another, each with its own failing accesses;
* `Steps.log`  every access of a step is one the volume has a place for;
* `run_inside`  **in every run on a volume below sector 2³² every access is inside it**;
-/

namespace Ouroboros.Fat32

open Image Relation List

/-! ## Runs -/

/-- an operation, the accesses that fail in it and how often its loops may go round. -/
structure Call where
  device : Device
  fuel : Nat
  request : Request

def Geometry.volume (g : Geometry) (c : Call) : Volume := { c.device with geo := g, fuel := c.fuel }

def Geometry.run (g : Geometry) (calls : List Call) (s : Fs) : Fs :=
  calls.foldl (fun s c => ((g.volume c).exec c.request s).2) s

section Run
variable {g : Geometry} {reserved total : Nat} (fits : g.Fits reserved total) {s : Fs}
include fits

theorem run_steps {calls : List Call} (hs : Sound g s) (htyped : ∀ c ∈ calls, c.request.Typed) :
    Steps g total s (g.run calls s) := by
  induction calls generalizing s with
  | nil => exact .refl
  | cons c rest ih =>
    have hgo : Goes g total ((g.volume c).exec c.request) s fun _ _ => True :=
      goes_exec (v := g.volume c) fits hs (htyped c mem_cons_self)
    have hstep : Steps g total s ((g.volume c).exec c.request s).2 := by
      rcases hm : (g.volume c).exec c.request s with ⟨e | a, t⟩
      · exact hgo.sat.error hm
      · exact (hgo.sat.ok hm).1
    exact hstep.trans (ih (hstep.sound fits hs) fun c' hc' => htyped c' (mem_cons_of_mem c hc'))

end Run

variable {g : Geometry} {s : Fs}

theorem sound_of_empty (hcache : s.fatCache = none) (hr : s.readCursor = none) (hw : s.writeCursor = none) :
    Sound g s := by
  refine ⟨fun lba b h => ?_, fun k h => ?_, fun k h => ?_⟩
  · cases hcache.symm.trans h
  · cases hr.symm.trans h
  · cases hw.symm.trans h

theorem mountAt_sound {d : Device} {disk : Nat → Sector} {lba sectors : Nat}
    (h : d.mountAt lba sectors (Fs.fresh disk) = (.ok g, s)) : Sound g s ∧ s.disk = disk := by
  obtain ⟨-, -, heq, -⟩ := mountAt_ok h
  rw [heq]
  exact ⟨sound_of_empty rfl rfl rfl, rfl⟩

/-! ## Accesses -/

section Log
variable {g : Geometry} {reserved total : Nat} (fits : g.Fits reserved total) {s t : Fs} {e : Event}
include fits

theorem Prim.log (h : Prim g total s t) (he : e ∈ t.log) : e ∈ s.log ∨ e.Fine g total := by
  have hadd {x : Event} (hfine : x.Fine g total) (he : e ∈ s.log ++ [x]) : e ∈ s.log ∨ e.Fine g total := by
    rcases mem_append.1 he with he | he
    · exact .inl he
    · rw [mem_singleton.1 he]
      exact .inr hfine
  cases h with
  | event hfine => exact hadd hfine he
  | data hd => exact hadd (x := .write .data _ _) hd he
  | cache _ | hint | drop | readCursor _ | writeCursor _ => exact .inl he
  | entry hc _ => exact hadd (x := .write .fat _ _) ⟨_, fits.live, _, hc, rfl⟩ he
  | mirror hc hcopy _ => exact hadd (x := .write .fat _ _) ⟨_, hcopy, _, hc, rfl⟩ he

theorem Steps.log (h : Steps g total s t) (he : e ∈ t.log) : e ∈ s.log ∨ e.Fine g total := by
  induction h with
  | refl => exact .inl he
  | tail _ hstep ih => exact (hstep.log fits he).elim ih .inr

end Log

/-- where an access belongs: the boot sector, one copy of the table, or the clusters. -/
def Geometry.Holds (g : Geometry) (total : Nat) : Area → Nat → Prop
  | .boot, lba => lba = g.partitionLba
  | .fat, lba => ∃ copy < g.numFats,
      g.fatStartLba + copy * g.fatSize32 ≤ lba ∧ lba < g.fatStartLba + (copy + 1) * g.fatSize32
  | .data, lba => g.dataStartLba ≤ lba ∧ lba < g.partitionLba + total

def Event.Inside (g : Geometry) (total : Nat) : Event → Prop
  | .read area lba => g.partitionLba ≤ lba ∧ lba < g.partitionLba + total ∧ g.Holds total area lba
  | .write area lba _ => g.partitionLba ≤ lba ∧ lba < g.partitionLba + total ∧ g.Holds total area lba
  | .wrapped => False

section Inside
variable {g : Geometry} {reserved total : Nat} (fits : g.Fits reserved total)
    (hbound : g.partitionLba + total ≤ 2 ^ 32)
variable {lba : Nat}
include fits hbound

theorem isFat_inside {copy : Nat} (h : g.IsFat copy lba) :
    g.partitionLba ≤ lba ∧ lba < g.partitionLba + total ∧ g.Holds total .fat lba := by
  obtain ⟨hcopy, c, hc, rfl⟩ := h
  have hoff := fat_offset_lt fits hcopy hc
  have hmeta := meta_lt fits
  have hdesc := fits.described
  have hlt := (inHeap_iff.1 hc).2
  have hstart := fits.fatStart
  rw [fatLba_eq fits, Nat.mod_eq_of_lt (by omega)]
  refine ⟨by omega, by omega, copy, hcopy, ?_⟩
  rw [hstart, Nat.mod_eq_of_lt (by omega), Nat.succ_mul]
  omega

theorem isData_inside (h : g.IsData lba) :
    g.partitionLba ≤ lba ∧ lba < g.partitionLba + total ∧ g.Holds total .data lba := by
  obtain ⟨c, k, hc, hk, h⟩ := h
  have hoff := data_offset_lt fits hc hk
  have hstart := fits.dataStart
  rw [dataLba_eq fits, dataLba_eq fits] at h
  have heq : lba = g.partitionLba +
    (reserved + g.numFats * g.fatSize32 + (c - 2) * g.sectorsPerCluster + k) := by omega
  refine ⟨by omega, by omega, ?_, by omega⟩
  rw [hstart, Nat.mod_eq_of_lt (by omega)]
  omega

theorem Event.Fine.inside {e : Event} (h : e.Fine g total) : e.Inside g total := by
  cases e with
  | read area lba | write area lba data =>
    cases area with
    | boot => exact h.elim
    | fat => exact isFat_inside fits hbound h.choose_spec
    | data => exact isData_inside fits hbound h
  | wrapped => exact absurd hbound (not_le.2 h)

end Inside

/-- **a volume that ends below sector 2³² is never left**: after the boot sector every access is inside a copy
of the table or among the clusters, and no sum wraps. -/
theorem run_inside {d : Device} {disk : Nat → Sector} {lba sectors : Nat} {g : Geometry} {s : Fs}
    (hmount : d.mountAt lba sectors (Fs.fresh disk) = (.ok g, s)) (hbound : lba + sectors ≤ 2 ^ 32)
    (calls : List Call) (htyped : ∀ c ∈ calls, c.request.Typed) :
    g.partitionLba = lba ∧ totalSectors (disk lba) ≤ sectors
      ∧ ∀ e ∈ (g.run calls s).log, e.Inside g (totalSectors (disk lba)) := by
  obtain ⟨⟨-, -, hmeta, -, hle, -⟩, hg, -, hlog⟩ := mountAt_ok hmount
  change totalSectors (disk lba) ≤ sectors at hle
  change metaSectors (disk lba) < totalSectors (disk lba) at hmeta
  have hlba : lba < 2 ^ 32 := by omega
  have fits : g.Fits (num (disk lba) 14 2) (totalSectors (disk lba)) := mountAt_fits hlba hmount
  have hpart : g.partitionLba = lba := by rw [hg]
  refine ⟨hpart, hle, fun e he => ?_⟩
  have hsteps := run_steps fits (mountAt_sound hmount).1 htyped
  rcases hsteps.log fits he with he | hfine
  · -- the access of the mount
    rw [hlog (by show lba + totalSectors (disk lba) ≤ 2 ^ 32; omega)] at he
    rw [mem_singleton.1 he]
    exact ⟨hpart.le, by omega, hpart.symm⟩
  · exact hfine.inside fits (by omega)

/-! ## A small volume -/

def sure : Device := ⟨fun _ _ => false⟩

def bootSector (sectorsPerCluster total : Nat) : Sector :=
  let b : Sector := fun _ => 0
  let b := write b 11 (Buffer.le 2 sectorSize)
  let b := write b 13 (Buffer.le 1 sectorsPerCluster)
  let b := write b 14 (Buffer.le 2 1)
  let b := write b 16 (Buffer.le 1 2)
  let b := write b 32 (Buffer.le 4 total)
  let b := write b 36 (Buffer.le 4 1)
  let b := write b 44 (Buffer.le 4 2)
  write b 82 fat32Label

def tableSector (entries : List Nat) : Sector := write (fun _ => 0) 8 (entries.flatMap (Buffer.le 4))

def image (lba sectorsPerCluster total : Nat) (entries : List Nat) (clusters : List Sector) : Nat → Sector :=
  fun a =>
  let k := (a + 2 ^ 32 - lba) % 2 ^ 32
  if k = 0 then bootSector sectorsPerCluster total
  else if k = 1 ∨ k = 2 then tableSector entries
  else clusters.getD (k - 3) fun _ => 0

def small : Nat → Sector := image 0 1 10 [endOfChainMin] []

def smallGeo : Geometry where
  partitionLba := 0
  sectorsPerCluster := 1
  fatStartLba := 1
  dataStartLba := 3
  rootCluster := 2
  numFats := 2
  fats := .mirrored
  fatSize32 := 1
  clusterEnd := 9

theorem small_mounts : (sure.mountAt 0 10 (Fs.fresh small)).1 = .ok smallGeo := by decide +kernel

/-- `/a` made and listed. -/
theorem run_inside_small : smallGeo.partitionLba = 0 ∧ totalSectors (small 0) ≤ 10 ∧
      ∀ e ∈ (smallGeo.run [⟨sure, 9, .mkdir [47, 97]⟩, ⟨sure, 9, .listDir [47, 97] fun _ => false⟩]
        (sure.mountAt 0 10 (Fs.fresh small)).2).log, e.Inside smallGeo (totalSectors (small 0)) := by
  refine run_inside (Prod.ext small_mounts rfl) (by decide) _ fun c hc => ?_
  rcases mem_cons.1 hc with rfl | hc
  · trivial
  · rw [mem_singleton.1 hc]
    trivial

def last : Nat → Sector := image (2 ^ 32 - 1) 1 10 [endOfChainMin] []

def lastGeo : Geometry := { smallGeo with partitionLba := 2 ^ 32 - 1, fatStartLba := 0, dataStartLba := 2 }

theorem last_mounts : (sure.mountAt (2 ^ 32 - 1) 10 (Fs.fresh last)).1 = .ok lastGeo := by decide +kernel

def isRead (area : Area) (lba : Nat) : Event → Bool
  | .read a l => a = area ∧ l = lba
  | _ => false

/-- a volume that starts at the last sector mounts, and a listing of its root reads sector 2. -/
theorem last_leaves_volume :
    ∃ (d : Device) (disk : Nat → Sector) (lba sectors : Nat) (g : Geometry) (s : Fs) (calls : List Call),
      lba < 2 ^ 32 ∧ d.mountAt lba sectors (Fs.fresh disk) = (.ok g, s) ∧ (∀ c ∈ calls, c.request.Typed)
      ∧ ∃ e ∈ (g.run calls s).log, ¬ e.Inside g (totalSectors (disk lba)) := by
  have hread : (lastGeo.run [⟨sure, 9, .listDir [47] fun _ => false⟩]
      (sure.mountAt (2 ^ 32 - 1) 10 (Fs.fresh last)).2).log.any (isRead .data 2) = true := by decide +kernel
  refine ⟨sure, last, 2 ^ 32 - 1, 10, lastGeo, _, [⟨sure, 9, .listDir [47] fun _ => false⟩], by decide,
    Prod.ext last_mounts rfl, fun c hc => ?_, ?_⟩
  · rw [mem_singleton.1 hc]
    trivial
  obtain ⟨e, he, hread⟩ := any_eq_true.1 hread
  refine ⟨e, he, fun hin => ?_⟩
  cases e with
  | read area lba =>
    obtain ⟨-, rfl⟩ := of_decide_eq_true hread
    exact absurd hin.1 (by decide)
  | write _ _ _ | wrapped => cases hread

end Ouroboros.Fat32
