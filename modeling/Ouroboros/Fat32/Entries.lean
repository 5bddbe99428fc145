import Ouroboros.Fat32.Steps

/-!
# FAT32: the functions of the table

One statement for each: the steps it takes, what it yields, and what it leaves as it was.

* `goes_fatEntry`, `goes_nextCluster`  the entry on the disk, whether it was cached or not;
* `goes_writeFatEntry`  the entry is the value, and no other entry is changed;
* `goes_findFreeCluster`  a free cluster.
-/

namespace Ouroboros.Fat32

open Image Relation List Function Nat Volume

variable {g : Geometry} {reserved total : Nat} {s : Fs} {v : Volume}

section Sums
variable (fits : g.Fits reserved total)

theorem goes_u64 {n : Nat} (h : n < 2 ^ 64) : Goes g total (u64 n) s fun a t => a = n ∧ t = s := by
  refine ⟨?_⟩
  unfold Try.Sat
  rw [u64, word_apply, if_pos h, mod_eq_of_lt h]
  exact ⟨.refl, rfl, rfl⟩

theorem goes_u32 {n : Nat} (h : n < 2 ^ 32 ∨ 2 ^ 32 < g.partitionLba + total) :
    Goes g total (u32 n) s fun a t => a = n % 2 ^ 32 ∧ Looks s t := by
  refine ⟨?_⟩
  unfold Try.Sat
  rw [u32, word_apply]
  by_cases hn : n < 2 ^ 32
  · rw [if_pos hn]
    exact ⟨.refl, rfl, Looks.refl s⟩
  · rw [if_neg hn]
    exact ⟨.single (.event (h.resolve_left hn)), rfl, rfl, rfl, rfl⟩

include fits

theorem goes_sectorAt {c k : Nat} (hc : g.inHeap c) (hk : k < g.sectorsPerCluster) :
    Goes g total (sectorAt (g.dataLba c 0) k) s fun a t => a = g.dataLba c k ∧ Looks s t := by
  have hoff := data_offset_lt fits hc hk
  have heq : (g.dataLba c 0 + k) % 2 ^ 32 = g.dataLba c k := by
    rw [Geometry.dataLba, Geometry.dataLba]
    omega
  refine (goes_u32 ?_).mono fun a t _ h => ⟨h.1.trans heq, h.2⟩
  rw [dataLba_eq fits]
  omega

end Sums

section Disk
variable (fits : v.geo.Fits reserved total)

theorem goes_readSector (area : Area) {lba : Nat} (h : (Event.read area lba).Fine v.geo total) :
    Goes v.geo total (v.readSector area lba) s fun b t => b = s.disk lba ∧ Looks s t ∧
      t.fatCache = s.fatCache := by
  refine ⟨?_⟩
  unfold Try.Sat Device.readSector
  dsimp only
  by_cases hf : v.fails s.log (.read area lba)
  · rw [if_pos hf]
    exact .single (.event h)
  · rw [if_neg hf]
    exact ⟨.single (.event h), rfl, ⟨rfl, rfl, rfl⟩, rfl⟩

theorem goes_readData {lba : Nat} (h : v.geo.IsData lba) :
    Goes v.geo total (v.readSector .data lba) s fun b t => b = s.disk lba ∧ Looks s t :=
  (goes_readSector .data h).mono fun _ _ _ h => ⟨h.1, h.2.1⟩

include fits in
theorem goes_writeData {lba : Nat} {b : Sector} (h : v.geo.IsData lba) :
    Goes v.geo total (v.writeSector .data lba b) s fun _ t =>
      t.disk = update s.disk lba b ∧ Keeps v.geo s t := by
  refine ⟨?_⟩
  unfold Try.Sat Device.writeSector
  dsimp only
  by_cases hf : v.fails s.log (.write .data lba b)
  · rw [if_pos hf]
    exact .single (.event h)
  · rw [if_neg hf]
    exact ⟨.single (.data h), rfl, table_data fits h, rfl, rfl⟩

include fits in
theorem goes_clusterToLba {c : Nat} :
    Goes v.geo total (v.clusterToLba c) s fun a t => v.geo.inHeap c ∧ a = v.geo.dataLba c 0 ∧ Looks s t := by
  refine .ite (fun hc => ?_) fun _ => .err
  have hoff := data_offset_lt fits hc fits.sectors_pos
  have htotal := fits.total_lt
  have hmul : (c - 2) * v.geo.sectorsPerCluster < 2 ^ 32 := by omega
  refine (goes_u32 (.inl hmul)).bind fun a t _ h => ?_
  rw [mod_eq_of_lt hmul] at h
  obtain ⟨rfl, hl⟩ := h
  refine (goes_u32 ?_).mono fun a u _ h => ⟨hc, ?_, hl.trans h.2⟩
  · rw [fits.dataStart]
    omega
  · rw [h.1, Geometry.dataLba, add_zero]

theorem isData_dataLba {c k : Nat} (hc : g.inHeap c) (hk : k < g.sectorsPerCluster) :
    g.IsData (g.dataLba c k) := ⟨c, k, hc, hk, .inl rfl⟩

include fits in
theorem goes_fatPlaceIn {copy c : Nat} (hcopy : copy < v.geo.numFats) (hc : v.geo.inHeap c) :
    Goes v.geo total (v.fatPlaceIn copy c) s fun a t => a = (v.geo.fatLba copy c, c * 4 % sectorSize) ∧
      Looks s t := by
  have hoff := fat_offset_lt fits hcopy hc
  have hmeta := meta_lt fits
  have htotal := fits.total_lt
  have hsmall := fits.small
  have hlt := (inHeap_iff.1 hc).2
  have hbyte : c * 4 < 2 ^ 32 := by
    unfold badCluster at hsmall
    omega
  have hmul : copy * v.geo.fatSize32 < 2 ^ 32 := by omega
  have hdiv : c * 4 / sectorSize = c / 128 := by
    rw [sectorSize]
    omega
  refine (goes_u32 (.inl hbyte)).bind fun a t _ h => ?_
  rw [mod_eq_of_lt hbyte] at h
  obtain ⟨rfl, hl⟩ := h
  refine (goes_u32 (.inl hmul)).bind fun a t _ h => ?_
  rw [mod_eq_of_lt hmul] at h
  obtain ⟨rfl, hl'⟩ := h
  refine (goes_u32 ?_).bind fun a t _ h => ?_
  · rw [fits.fatStart]
    omega
  obtain ⟨rfl, hl''⟩ := h
  refine (goes_u32 ?_).bind fun a u _ h => .pure ⟨?_, hl.trans (hl'.trans (hl''.trans h.2))⟩
  · rw [fits.fatStart, hdiv]
    omega
  rw [h.1, Geometry.fatLba]
  congr 1
  omega

end Disk

/-! ## Entries -/

section Entries
variable (fits : v.geo.Fits reserved total) (hs : Coherent v.geo s)
include fits hs

theorem goes_fatSector {c : Nat} (hc : v.geo.inHeap c) :
    Goes v.geo total (v.fatSector (v.geo.fatLba v.geo.fats.readCopy c)) s fun b t =>
      b = s.disk (v.geo.fatLba v.geo.fats.readCopy c) ∧ Looks s t := by
  have hfetch : Goes v.geo total (fatSector.fetch v (v.geo.fatLba v.geo.fats.readCopy c)) s fun b t =>
      b = s.disk (v.geo.fatLba v.geo.fats.readCopy c) ∧ Looks s t := by
    refine (goes_readSector .fat ⟨_, fits.live, c, hc, rfl⟩).bind fun b t _ h => ?_
    obtain ⟨rfl, hl, -⟩ := h
    rw [← hl.disk]
    refine (Goes.change (Q := fun _ u => Looks s u) (.cache hc) ?_).bind fun _ u _ hu => .pure ⟨rfl, hu⟩
    exact ⟨hl.disk, hl.readCursor, hl.writeCursor⟩
  refine (Goes.ask (Q := fun a t => a = s.fatCache ∧ t = s) ⟨rfl, rfl⟩).bind fun a t _ h => ?_
  obtain ⟨rfl, rfl⟩ := h
  split
  · rename_i cached data hcache
    refine .ite (fun heq => .pure ⟨?_, Looks.refl _⟩) fun _ => hfetch
    rw [(hs _ _ hcache).1, heq]
  · exact hfetch

theorem goes_fatEntry {c : Nat} :
    Goes v.geo total (v.fatEntry c) s fun a t => v.geo.inHeap c ∧ a = v.geo.table s.disk c ∧ Looks s t := by
  refine .ite (fun hc => ?_) fun _ => .err
  refine (goes_fatPlaceIn fits fits.live hc).next fits hs fun a t ht h => ?_
  obtain ⟨rfl, hl⟩ := h
  refine (goes_fatSector fits ht hc).bind fun b u _ h => .pure ⟨hc, ?_, hl.trans h.2⟩
  rw [h.1, hl.disk, Geometry.table, if_pos hc, Geometry.rawEntry]

theorem goes_nextCluster {c : Nat} : Goes v.geo total (v.nextCluster c) s fun a t =>
      v.geo.inHeap c ∧ a = v.geo.next (v.geo.table s.disk) c ∧ Looks s t :=
  (goes_fatEntry fits hs).bind fun a t _ h => .pure ⟨h.1, by rw [h.2.1, Geometry.next], h.2.2⟩

end Entries

/-- an entry has been written: nothing else of the table has, and nothing of the clusters. -/
structure Entered (g : Geometry) (c value : Nat) (s t : Fs) : Prop where
  heap : g.inHeap c
  table : g.table t.disk = update (g.table s.disk) c (value % 2 ^ 28)
  cursors : g.next (g.table s.disk) c = none → t.readCursor = s.readCursor ∧ t.writeCursor = s.writeCursor
  data : ∀ lba, g.IsData lba → t.disk lba = s.disk lba

section Entries
variable (fits : v.geo.Fits reserved total) {t : Fs} {c value : Nat}
include fits

theorem goes_each {β : Type} {l : List β} {f : β → Op Unit} {K : Fs → Fs → Prop} (hrefl : ∀ s, K s s)
    (htrans : ∀ s t u, K s t → K t u → K s u) (hs : Coherent v.geo s)
    (hf : ∀ b ∈ l, ∀ s, Coherent v.geo s → Goes v.geo total (f b) s fun _ t => K s t) :
    Goes v.geo total (Try.each l f) s fun _ t => K s t := by
  induction l generalizing s with
  | nil => exact .pure (hrefl s)
  | cons b bs ih =>
    refine (hf b mem_cons_self s hs).next fits hs fun _ t htc ht => ?_
    refine (ih htc fun c hc => hf c (mem_cons_of_mem b hc)).mono fun _ u _ hu => ?_
    exact htrans _ _ _ ht hu

structure KeepsAll (g : Geometry) (s t : Fs) : Prop extends Keeps g s t where
  data : ∀ lba, g.IsData lba → t.disk lba = s.disk lba

omit fits in
theorem KeepsAll.refl (g : Geometry) (s : Fs) : KeepsAll g s s := ⟨Keeps.refl g s, fun _ _ => rfl⟩

omit fits in
theorem KeepsAll.trans {u : Fs} (h : KeepsAll g s t) (k : KeepsAll g t u) : KeepsAll g s u :=
  ⟨h.toKeeps.trans k.toKeeps, fun a ha => (k.data a ha).trans (h.data a ha)⟩

omit fits in
theorem Looks.keepsAll (h : Looks s t) (g : Geometry) : KeepsAll g s t := ⟨h.keeps g, fun _ _ => by rw [h.disk]⟩

theorem goes_writeMirror {copy : Nat} {b : Sector} (hc : v.geo.inHeap c) (hcopy : copy < v.geo.numFats)
    (hne : copy ≠ v.geo.fats.readCopy) :
    Goes v.geo total (v.writeSector .fat (v.geo.fatLba copy c) b) s fun _ t => KeepsAll v.geo s t := by
  have hfat : v.geo.IsFat copy (v.geo.fatLba copy c) := ⟨hcopy, c, hc, rfl⟩
  refine ⟨?_⟩
  unfold Try.Sat Device.writeSector
  dsimp only
  by_cases hf : v.fails s.log (.write .fat (v.geo.fatLba copy c) b)
  · rw [if_pos hf]
    exact .single (.event ⟨copy, hfat⟩)
  rw [if_neg hf]
  refine ⟨.single (.mirror hc hcopy hne), ⟨?_, rfl, rfl⟩, fun lba hd => ?_⟩
  · exact table_update_of_not_fat fits (not_isFat_of_copy_ne fits hc hcopy hne)
  · exact update_of_ne (isFat_ne_isData fits hfat hd).symm _ _

omit fits in
theorem mirror_of_mem {i : Nat} (hfats : v.geo.fats = .mirrored) (h : i ∈ range' 1 (v.geo.numFats - 1)) :
    i < v.geo.numFats ∧ i ≠ v.geo.fats.readCopy := by
  obtain ⟨h₁, h₂⟩ := mem_range'_1.1 h
  rw [hfats, FatCopies.readCopy]
  omega

theorem goes_mirror {b : Sector} (hs : Coherent v.geo s) (hc : v.geo.inHeap c) :
    Goes v.geo total (v.mirror c b) s fun _ t => KeepsAll v.geo s t := by
  unfold mirror
  cases hfats : v.geo.fats with
  | single n => exact .pure (KeepsAll.refl _ _)
  | mirrored =>
    refine goes_each fits (KeepsAll.refl _) (fun _ _ _ => KeepsAll.trans) hs fun i hi s _ => ?_
    obtain ⟨hi, hne⟩ := mirror_of_mem hfats hi
    refine (goes_fatPlaceIn fits hi hc).bind fun a t _ h => ?_
    obtain ⟨rfl, hl⟩ := h
    exact (goes_writeMirror fits hc hi hne).mono fun _ u _ hu => (hl.keepsAll _).trans hu

theorem goes_enter {β : Type} {k : Op β} {R : β → Fs → Prop} (hc : v.geo.inHeap c)
    (hdrop : (v.geo.next (v.geo.table s.disk) c).isSome → s.readCursor = none ∧ s.writeCursor = none)
    (hk : Goes v.geo total k (s.entered v.geo c value) R) :
    let lba := v.geo.fatLba v.geo.fats.readCopy c
    let buf := setEntry (s.disk lba) (c * 4 % sectorSize) value
    Goes v.geo total
      (do v.writeSector .fat lba buf; Try.change ({ · with fatCache := some (lba, buf) }); k) s R := by
  intro lba buf
  by_cases hf : v.fails s.log (.write .fat lba buf)
  · have hw : v.writeSector .fat lba buf s = (.error (.error .io), s.record (.write .fat lba buf)) := if_pos hf
    refine ⟨?_⟩
    unfold Try.Sat
    rw [Try.bind_error hw]
    exact .single (.event ⟨_, fits.live, c, hc, rfl⟩)
  · have hw : v.writeSector .fat lba buf s = (.ok (), s.written .fat lba buf) := if_neg hf
    have hstep : Steps v.geo total s (s.entered v.geo c value) := .single (.entry hc hdrop)
    refine ⟨?_⟩
    unfold Try.Sat
    rw [Try.bind_ok hw]
    exact Try.Sat.mono hk.sat (fun _ _ h => ⟨hstep.trans h.1, h.2⟩) fun _ _ h => hstep.trans h

theorem entered_data {lba : Nat} (hc : v.geo.inHeap c) (h : v.geo.IsData lba) :
    (s.entered v.geo c value).disk lba = s.disk lba :=
  update_of_ne (isFat_ne_isData fits ⟨fits.live, c, hc, rfl⟩ h).symm _ _

omit fits in
theorem goes_dropCursors {next : Option Nat} : Goes v.geo total (dropCursors next) s fun _ u =>
      u.disk = s.disk ∧ (next.isSome → u.readCursor = none ∧ u.writeCursor = none)
      ∧ (next = none → u.readCursor = s.readCursor ∧ u.writeCursor = s.writeCursor) := by
  refine .ite (fun hn => ?_) fun hn => ?_
  · refine .change .drop ⟨rfl, fun _ => ⟨rfl, rfl⟩, fun hnone => ?_⟩
    rw [hnone] at hn
    cases hn
  · exact .pure ⟨rfl, fun h => absurd h hn, fun _ => ⟨rfl, rfl⟩⟩

theorem goes_writeFatEntry (hs : Coherent v.geo s) :
    Goes v.geo total (v.writeFatEntry c value) s fun _ t => Entered v.geo c value s t := by
  refine .ite (fun hc => ?_) fun _ => .err
  refine (goes_nextCluster fits hs).bind fun next t hst h => ?_
  obtain ⟨-, rfl, hl⟩ := h
  refine goes_dropCursors.bind fun _ u htu hu => ?_
  obtain ⟨hdisk, hnone, hsame⟩ := hu
  rw [hl.disk] at hdisk
  have hu : Coherent v.geo u := Steps.coherent fits (hst.trans htu) hs
  refine (goes_fatPlaceIn fits fits.live hc).bind fun a w huw h => ?_
  obtain ⟨rfl, hl'⟩ := h
  refine (goes_fatSector fits (huw.coherent fits hu) hc).bind fun buf x hwx h => ?_
  obtain ⟨rfl, hl''⟩ := h
  have hx := hl'.trans hl''
  have hdx : x.disk = s.disk := hx.disk.trans hdisk
  have hcoh : Coherent v.geo x := Steps.coherent fits (huw.trans hwx) hu
  rw [← hl''.disk]
  refine goes_enter fits hc ?_ ?_
  · rw [hdx, hx.readCursor, hx.writeCursor]
    exact hnone
  have hent : Coherent v.geo (x.entered v.geo c value) :=
    Prim.coherent fits (.entry hc (by rw [hdx, hx.readCursor, hx.writeCursor]; exact hnone)) hcoh
  refine (goes_mirror fits hent hc).mono fun _ y _ hy => ?_
  refine ⟨hc, ?_, fun hn => ?_, fun lba hd => ?_⟩
  · rw [hy.table, table_entered fits c value x hc, hdx]
  · rw [hy.readCursor, hy.writeCursor]
    obtain ⟨hr, hw⟩ := hsame hn
    exact ⟨hx.readCursor.trans (hr.trans hl.readCursor), hx.writeCursor.trans (hw.trans hl.writeCursor)⟩
  · rw [hy.data lba hd, entered_data fits hc hd, hdx]

/-! ## Free clusters and chains -/

theorem goes_firstFree {l : List Nat} (hs : Coherent v.geo s) :
    Goes v.geo total (v.firstFree l) s fun a t => v.geo.inHeap a ∧ v.geo.table s.disk a = 0 ∧ Looks s t := by
  induction l generalizing s with
  | nil => exact .err
  | cons c rest ih =>
    refine (goes_fatEntry fits hs).next fits hs fun a t ht h => ?_
    obtain ⟨hc, rfl, hl⟩ := h
    refine .ite (fun hzero => ?_) fun _ => ?_
    · refine (Goes.change (Q := fun _ u => Looks s u) .hint ⟨hl.disk, hl.readCursor, hl.writeCursor⟩).bind ?_
      exact fun _ u _ hu => .pure ⟨hc, hzero, hu⟩
    refine (ih ht).mono fun a u _ h => ⟨h.1, ?_, hl.trans h.2.2⟩
    rw [← hl.disk]
    exact h.2.1

theorem goes_findFreeCluster (hs : Coherent v.geo s) :
    Goes v.geo total v.findFreeCluster s fun a t => v.geo.inHeap a ∧ v.geo.table s.disk a = 0 ∧ Looks s t := by
  refine (Goes.ask (Q := fun _ t => t = s) rfl).bind fun a t _ h => ?_
  subst h
  exact goes_firstFree fits hs

/-- the sectors `k ∈ l` of a cluster hold `f k`, and nothing else has changed. -/
structure Filled (g : Geometry) (c : Nat) (f : Nat → Sector) (l : List Nat) (s t : Fs) :
    Prop extends Keeps g s t where
  inside : ∀ k ∈ l, t.disk (g.dataLba c k) = f k
  outside : ∀ lba, (∀ k ∈ l, lba ≠ g.dataLba c k) → t.disk lba = s.disk lba

theorem goes_eachSector {f : Nat → Sector} {l : List Nat} (hc : v.geo.inHeap c)
    (hl : ∀ k ∈ l, k < v.geo.sectorsPerCluster) :
    Goes v.geo total (Try.each l fun k => do
        let sector ← sectorAt (v.geo.dataLba c 0) k
        v.writeSector .data sector (f k)) s fun _ t => Filled v.geo c f l s t := by
  induction l generalizing s with
  | nil => exact .pure ⟨Keeps.refl _ s, fun _ hk => absurd hk not_mem_nil, fun _ _ => rfl⟩
  | cons k rest ih =>
    have hk := hl k mem_cons_self
    have hrest : ∀ j ∈ rest, j < v.geo.sectorsPerCluster := fun j hj => hl j (mem_cons_of_mem k hj)
    have hwrite : Goes v.geo total (do
        let sector ← sectorAt (v.geo.dataLba c 0) k
        v.writeSector .data sector (f k)) s fun _ t =>
          t.disk = update s.disk (v.geo.dataLba c k) (f k) ∧ Keeps v.geo s t := by
      refine (goes_sectorAt fits hc hk).bind fun a t _ h => ?_
      obtain ⟨rfl, hl⟩ := h
      exact (goes_writeData fits (isData_dataLba hc hk)).mono fun _ u _ hu =>
        ⟨by rw [hu.1, hl.disk], (hl.keeps _).trans hu.2⟩
    refine hwrite.bind fun _ t _ ht => (ih hrest).mono fun _ u _ hu => ?_
    refine ⟨ht.2.trans hu.toKeeps, fun j hj => ?_, fun lba hlba => ?_⟩
    · rcases mem_cons.1 hj with rfl | hj
      · by_cases hmem : j ∈ rest
        · exact hu.inside j hmem
        · rw [hu.outside _ fun i hi heq => hmem ((dataLba_inj fits hc hc hk (hrest i hi) heq).2 ▸ hi), ht.1,
            update_self]
      · exact hu.inside j hj
    · rw [hu.outside lba fun j hj => hlba j (mem_cons_of_mem k hj), ht.1, update_of_ne (hlba k mem_cons_self)]

theorem goes_eachOf {f : Nat → Sector} : Goes v.geo total (do
        let lba ← v.clusterToLba c
        Try.each (range v.geo.sectorsPerCluster) fun k => do
          let sector ← sectorAt lba k
          v.writeSector .data sector (f k)) s fun _ t =>
      v.geo.inHeap c ∧ Filled v.geo c f (range v.geo.sectorsPerCluster) s t := by
  refine (goes_clusterToLba fits).bind fun a t _ h => ?_
  obtain ⟨hc, rfl, hl⟩ := h
  refine (goes_eachSector fits hc fun k hk => mem_range.1 hk).mono fun _ u _ hu => ⟨hc, ?_⟩
  exact ⟨(hl.keeps _).trans hu.toKeeps, hu.inside, fun lba h => (hu.outside lba h).trans (by rw [hl.disk])⟩

theorem goes_zeroCluster : Goes v.geo total (v.zeroCluster c) s fun _ t =>
      v.geo.inHeap c ∧ Filled v.geo c (fun _ _ => 0) (range v.geo.sectorsPerCluster) s t :=
  goes_eachOf fits

def Frees (g : Geometry) (s t : Fs) : Prop :=
  (∀ c, g.table t.disk c = g.table s.disk c ∨ g.table t.disk c = 0) ∧ ∀ lba, g.IsData lba →
    t.disk lba = s.disk lba

omit fits in
theorem Frees.trans {u : Fs} (h : Frees g s t) (k : Frees g t u) : Frees g s u :=
  ⟨fun c => (k.1 c).elim (fun e => (h.1 c).imp e.trans e.trans) .inr, fun a ha => (k.2 a ha).trans (h.2 a ha)⟩

omit fits in
theorem Looks.frees (h : Looks s t) (g : Geometry) : Frees g s t :=
  ⟨fun _ => .inl (by rw [h.disk]), fun _ _ => by rw [h.disk]⟩

omit fits in
theorem Entered.frees (h : Entered g c 0 s t) : Frees g s t := by
  refine ⟨fun x => ?_, h.data⟩
  rw [h.table]
  by_cases hx : x = c
  · subst hx
    rw [update_self]
    exact .inr rfl
  · rw [update_of_ne hx]
    exact .inl rfl

theorem goes_freeFrom {fuel : Nat} (hs : Coherent v.geo s) :
    Goes v.geo total (v.freeFrom fuel c) s fun _ t => Frees v.geo s t := by
  induction fuel generalizing s c with
  | zero => exact .fail
  | succ fuel ih =>
    refine (goes_nextCluster fits hs).next fits hs fun next t ht h => ?_
    refine (goes_writeFatEntry fits ht).next fits ht fun _ u hcu hu => ?_
    have hsu : Frees v.geo s u := (h.2.2.frees _).trans hu.frees
    refine (Goes.change (Q := fun _ w => Frees v.geo s w) .hint hsu).next fits hcu fun _ w hwc hw => ?_
    cases next with
    | none => exact .pure hw
    | some n => exact (ih hwc).mono fun _ x _ hx => hw.trans hx

theorem goes_freeChain (hs : Coherent v.geo s) : Goes v.geo total (v.freeChain c) s fun _ t => Frees v.geo s t :=
  Goes.ite (fun _ => goes_freeFrom fits hs) fun _ => .pure ((Looks.refl s).frees _)

end Entries
end Ouroboros.Fat32
