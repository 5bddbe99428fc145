import Ouroboros.Fat32.Updates

/-!
# FAT32: reads that do not fail

* `Device.Reads`  no read fails;
* `Yields`  an operation comes to a result;
* `yields_scan_chain`  a scan of a directory whose chain ends does;
* `Geometry.DirsEnd`  every directory's chain ends;
* `find_of_resolve`  **a path is found where `resolve` leads it**.
-/

namespace Ouroboros.Fat32

open Fsd (Bytes)
open Image Relation Volume List Try

variable {α : Type} {s : Fs} {v : Volume} {c total reserved : Nat}

def Device.Reads (d : Device) : Prop := ∀ log area lba, d.fails log (.read area lba) = false

def Yields {α : Type} (m : Op α) (s : Fs) : Prop := ∃ a t, m s = (.ok a, t)

section Rules
variable {β : Type} {m : Op α}

theorem Yields.pure (a : α) : Yields (pure a : Op α) s := ⟨a, s, rfl⟩

theorem Yields.change (f : Fs → Fs) : Yields (Try.change f : Op Unit) s := ⟨(), f s, rfl⟩

theorem Yields.bind {f : α → Op β} (h : Yields m s) (hf : ∀ a t, m s = (.ok a, t) → Yields (f a) t) :
    Yields (m >>= f) s := by
  obtain ⟨a, t, hm⟩ := h
  obtain ⟨b, u, hu⟩ := hf a t hm
  exact ⟨b, u, by rw [bind_ok hm, hu]⟩

theorem Yields.ask_bind {f : Fs → α} {k : α → Op β} (h : Yields (k (f s)) s) : Yields (Try.ask f >>= k) s := h

theorem Yields.ite {c : Prop} [Decidable c] {n : Op α} (hm : c → Yields m s) (hn : ¬ c → Yields n s) :
    Yields (if c then m else n) s := by
  split
  · exact hm ‹_›
  · exact hn ‹_›

theorem Yields.goes {g : Geometry} {Q : α → Fs → Prop} (h : Yields m s) (hg : Goes g total m s Q) :
    ∃ a t, m s = (.ok a, t) ∧ Steps g total s t ∧ Q a t := by
  obtain ⟨a, t, hm⟩ := h
  exact ⟨a, t, hm, hg.sat.ok hm⟩

end Rules

section Accesses
variable (hr : v.toDevice.Reads)

theorem yields_word (bits n : Nat) : Yields (word bits n) s := ⟨_, _, word_apply bits n s⟩

include hr in
theorem yields_readSector (area : Area) (lba : Nat) : Yields (v.readSector area lba) s :=
  ⟨_, _, readSector_of_passes (hr _ _ _)⟩

theorem yields_clusterToLba (hc : v.geo.inHeap c) : Yields (v.clusterToLba c) s := by
  unfold clusterToLba
  rw [if_pos hc]
  exact (yields_word _ _).bind fun _ _ _ => yields_word _ _

theorem yields_fatPlaceIn (copy c : Nat) : Yields (v.fatPlaceIn copy c) s := by
  refine (yields_word _ _).bind fun _ _ _ => (yields_word _ _).bind fun _ _ _ => ?_
  exact (yields_word _ _).bind fun _ _ _ => (yields_word _ _).bind fun _ _ _ => .pure _

include hr

theorem yields_fatSector (lba : Nat) : Yields (v.fatSector lba) s := by
  have hfetch : Yields (fatSector.fetch v lba) s :=
    (yields_readSector hr _ _).bind fun _ _ _ => (Yields.change _).bind fun _ _ _ => .pure _
  refine .ask_bind ?_
  split
  · exact .ite (fun _ => .pure _) fun _ => hfetch
  · exact hfetch

theorem yields_fatEntry (hc : v.geo.inHeap c) : Yields (v.fatEntry c) s := by
  unfold fatEntry
  rw [if_pos hc]
  refine (yields_fatPlaceIn _ _).bind fun _ _ _ => ?_
  exact (yields_fatSector hr _).bind fun _ _ _ => .pure _

theorem yields_nextCluster (hc : v.geo.inHeap c) : Yields (v.nextCluster c) s :=
  (yields_fatEntry hr hc).bind fun _ _ _ => .pure _

end Accesses

/-! ## Scans -/

def Event.isRead : Event → Bool
  | .read _ _ => true
  | _ => false

def Fs.reads (s : Fs) : Nat := s.log.countP Event.isRead

variable {t : Fs}

theorem reads_record (s : Fs) (e : Event) : s.reads ≤ (s.record e).reads := by
  rw [Fs.reads, Fs.reads, Fs.record, countP_append]
  exact Nat.le_add_right _ _

theorem Steps.reads {g : Geometry} (h : Steps g total s t) : s.reads ≤ t.reads := by
  induction h with
  | refl => exact le_rfl
  | @tail u w _ hstep ih =>
    refine ih.trans ?_
    cases hstep with
    | event _ => exact reads_record _ _
    | data _ => exact reads_record u (.write .data _ _)
    | entry _ _ | mirror _ _ _ => exact reads_record u (.write .fat _ _)
    | cache _ | hint | drop | readCursor _ | writeCursor _ => exact le_rfl

theorem scanSectors_reads (fits : v.geo.Fits reserved total) {ρ : Type}
    {look : α → Sector → Place → α ⊕ ρ} (hc : v.geo.inHeap c) {l : List Nat} (hne : l ≠ [])
    (hl : ∀ k ∈ l, k < v.geo.sectorsPerCluster) {a : α} {x : α ⊕ ρ}
    (h : v.scanSectors look (v.geo.dataLba c 0) l a s = (.ok x, t)) : s.reads < t.reads := by
  cases l with
  | nil => exact absurd rfl hne
  | cons k rest =>
    obtain ⟨sector, u, hu, h⟩ := bind_eq_ok.1 h
    obtain ⟨buf, w, hw, h⟩ := bind_eq_ok.1 h
    have hsu : s.reads ≤ u.reads := ((goes_sectorAt fits hc (hl k mem_cons_self)).sat.ok hu).1.reads
    have huw : u.reads < w.reads := by
      rw [(readSector_ok hw).2, Fs.reads, Fs.reads, Fs.record, countP_append]
      exact Nat.lt_add_one _
    have hwt : w.reads ≤ t.reads := by
      cases hx : eachSlot look buf sector slotOffsets a with
      | inl b =>
        rw [hx] at h
        exact ((goes_scanSectors_eq fits hc fun j hj => hl j (mem_cons_of_mem k hj)).sat.ok h).1.reads
      | inr r =>
        rw [hx] at h
        cases h
        exact le_rfl
    omega

section Scan
variable (hr : v.toDevice.Reads) {ρ : Type} {look : α → Sector → Place → α ⊕ ρ}

include hr in
theorem yields_scanSectors (lba : Nat) (l : List Nat) (a : α) : Yields (v.scanSectors look lba l a) s := by
  induction l generalizing s a with
  | nil => exact .pure _
  | cons k rest ih =>
    refine (yields_word _ _).bind fun _ _ _ => (yields_readSector hr _ _).bind fun _ _ _ => ?_
    split
    · exact ih _
    · exact .pure _

variable (fits : v.geo.Fits reserved total)
include hr fits

variable (look) in
/-- one cluster of a scan: what stops it is the result, and otherwise it goes on where the link leads;
a sector has been read. -/
theorem scan_step (atEnd : Nat → α → Op (Nat ⊕ ρ)) (fuel : Nat) (a : α) (hs : Coherent v.geo s)
    (hc : v.geo.inHeap c) : ∃ t, Steps v.geo total s t ∧ t.disk = s.disk ∧ s.reads < t.reads ∧
      v.scanFrom look atEnd (fuel + 1) c a s = match foldSlots look s.disk (v.geo.slotsOf c) a with
        | .inr r =>
          (.ok r, t) | .inl b => v.scanOn look atEnd fuel c (v.geo.next (v.geo.table s.disk) c) b t := by
  obtain ⟨lba, t, ht, hst, -, rfl, hl⟩ := (yields_clusterToLba (s := s) hc).goes (goes_clusterToLba fits)
  obtain ⟨x, u, hu, htu, hx, hl'⟩ :=
    (yields_scanSectors hr (v.geo.dataLba c 0) (List.range v.geo.sectorsPerCluster) a).goes
    (goes_scanSectors_eq (s := t) fits hc fun k hk => mem_range.1 hk)
  rw [hl.disk] at hx
  have hx : foldSlots look s.disk (v.geo.slotsOf c) a = x := hx.symm
  have huc : Coherent v.geo u := Steps.coherent fits (hst.trans htu) hs
  have hread : s.reads < u.reads := lt_of_le_of_lt hst.reads (scanSectors_reads fits hc (by
    rw [Ne, range_eq_nil]
    exact Nat.pos_iff_ne_zero.1 fits.sectors_pos) (fun k hk => mem_range.1 hk) hu)
  rw [hx, scanFrom, bind_ok ht, bind_ok hu]
  cases x with
  | inr r => exact ⟨u, hst.trans htu, hl'.disk.trans hl.disk, hread, rfl⟩
  | inl b =>
    obtain ⟨next, w, hw, huw, -, hnext, hl''⟩ :=
      (yields_nextCluster hr hc).goes (goes_nextCluster (s := u) fits huc)
    rw [hl'.disk, hl.disk] at hnext
    refine ⟨w, (hst.trans htu).trans huw, hl''.disk.trans (hl'.disk.trans hl.disk),
      lt_of_lt_of_le hread huw.reads, ?_⟩
    dsimp only
    rw [bind_ok hw, hnext]
    rfl

variable (hs : Coherent v.geo s) {n : Nat} {a : α} {atEnd : Nat → α → Op (Nat ⊕ ρ)}
include hs

theorem yields_scan_chain {fin : α → ρ} {fuel : Nat} (hc : v.geo.inHeap c)
    (hend : Chain.down (v.geo.next (v.geo.table s.disk)) n c = none) (hfuel : n ≤ fuel) :
    Yields (v.scanFrom look (fun _ a => pure (.inr (fin a))) fuel c a) s := by
  induction n generalizing fuel s c a with
  | zero => cases hend
  | succ n ih =>
    obtain ⟨fuel, rfl⟩ : ∃ f, fuel = f + 1 := ⟨fuel - 1, by omega⟩
    obtain ⟨t, hst, hdisk, -, heq⟩ := scan_step hr look fits (fun _ a => pure (.inr (fin a))) fuel a hs hc
    unfold Yields
    rw [heq]
    cases foldSlots look s.disk (v.geo.slotsOf c) a with
    | inr r => exact ⟨_, _, rfl⟩
    | inl b =>
      rw [Chain.down] at hend
      dsimp only
      cases hn : v.geo.next (v.geo.table s.disk) c with
      | none => exact ⟨_, _, rfl⟩
      | some d =>
        rw [hn, Option.bind_some] at hend
        exact ih (hst.coherent fits hs) (inHeap_of_link hn) (by rwa [hdisk]) (Nat.le_of_succ_le_succ hfuel)

end Scan

/-! ## The directories of a volume -/

/-- the clusters of the directories that a walk from the root can come to. -/
inductive Geometry.Directory (g : Geometry) (disk : Nat → Sector) : Nat → Prop where
  | root : g.Directory disk g.rootCluster
  | entry {c n : Nat} {x : DirEntry × Place} : g.Directory disk c → g.inHeap c →
      x ∈ g.entries disk n c → x.1.isDir →
      g.Directory disk (if x.1.cluster = 0 then g.rootCluster else x.1.cluster)

def Geometry.DirsEnd (g : Geometry) (disk : Nat → Sector) : Prop :=
  ∀ c, g.Directory disk c → g.inHeap c → g.Ended (g.table disk) c

theorem Geometry.Directory.resolve {disk : Nat → Sector} {l : List Bytes} {e x : DirEntry}
    (he : e.isDir → v.geo.Directory disk e.cluster) (hx : v.resolve disk l e = some x) (hdir : x.isDir) :
    v.geo.Directory disk x.cluster := by
  induction l generalizing e with
  | nil =>
    cases hx
    exact he hdir
  | cons name rest ih =>
    rw [Volume.resolve] at hx
    split at hx
    · rename_i h
      obtain ⟨y, hy, hrest⟩ := Option.bind_eq_some_iff.1 hx
      refine ih (fun hydir => ?_) hrest
      unfold orRoot at hydir ⊢
      split at hydir
      · rename_i hzero
        rw [if_pos hzero]
        exact .root
      rename_i hne
      rw [if_neg hne]
      have := Geometry.Directory.entry (he h.1) h.2 (mem_of_find?_eq_some hy) hydir
      rwa [if_neg fun hzero => hne ⟨hydir, hzero⟩] at this
    · cases hx

/-! ## Names and paths -/

section Names
variable (hr : v.toDevice.Reads) (fits : v.geo.Fits reserved total)
include hr fits

theorem walk_eq {f : α → DirEntry → Place → α × Bool} {a : α} (hs : Coherent v.geo s)
    (hc : v.geo.inHeap c) (hend : v.geo.Ended (v.geo.table s.disk) c) (hfuel : v.geo.clusterEnd ≤ v.fuel) :
    ∃ t, v.walkDirWithLocation c a f s = (.ok (foldEntries f (v.geo.entries s.disk v.fuel c) a), t)
      ∧ Steps v.geo total s t ∧ Looks s t := by
  have hyields : Yields (v.walkDirWithLocation c a f) s := yields_scan_chain hr fits hs hc (hend.short hc) hfuel
  obtain ⟨b, t, ht, hst, -, rfl, hl⟩ := hyields.goes (goes_walk fits hs)
  exact ⟨t, ht, hst, hl⟩

theorem lookup_eq (name : Bytes) (hs : Coherent v.geo s) (hc : v.geo.inHeap c)
    (hend : v.geo.Ended (v.geo.table s.disk) c) (hfuel : v.geo.clusterEnd ≤ v.fuel) :
    ∃ t, v.lookup c name s = (.ok ((v.geo.entries s.disk v.fuel c).find? fun x => namesMatch x.1.name name), t)
      ∧ Steps v.geo total s t ∧ Looks s t := by
  obtain ⟨t, ht, hst, hl⟩ :=
    walk_eq hr fits (f := fun a e p => if namesMatch e.name name then (some (e, p), true) else (a, false))
    (a := none) hs hc hend hfuel
  refine ⟨t, ?_, hst, hl⟩
  rw [← foldEntries_find]
  exact ht

variable (hs : Coherent v.geo s) (hd : v.geo.DirsEnd s.disk) {x : DirEntry} {path : Bytes}
include hs hd

theorem findFrom_of_resolve {l : List Bytes} {e : DirEntry}
    (he : e.isDir → v.geo.Directory s.disk e.cluster) (hfuel : v.geo.clusterEnd ≤ v.fuel)
    (hx : v.resolve s.disk l e = some x) :
    ∃ t, v.findFrom l e s = (.ok x, t) ∧ Steps v.geo total s t ∧ Looks s t := by
  induction l generalizing s e with
  | nil =>
    cases hx
    exact ⟨s, rfl, .refl, Looks.refl s⟩
  | cons name rest ih =>
    have hx' := hx
    rw [resolve] at hx'
    split at hx'
    · rename_i hdir
      obtain ⟨y, hy, hrest⟩ := Option.bind_eq_some_iff.1 hx'
      obtain ⟨t, ht, hst, hl⟩ := lookup_eq hr fits name hs hdir.2 (hd _ (he hdir.1) hdir.2) hfuel
      rw [hy] at ht
      have he' : (v.orRoot y.1).isDir → v.geo.Directory t.disk (v.orRoot y.1).cluster := by
        intro h
        rw [hl.disk]
        refine Geometry.Directory.resolve (l := [name]) he ?_ h
        rw [resolve, if_pos hdir, hy]
        rfl
      obtain ⟨u, hu, htu, hl'⟩ := ih (hst.coherent fits hs) (hl.disk ▸ hd) he' (by rwa [hl.disk])
      refine ⟨u, ?_, hst.trans htu, hl.trans hl'⟩
      rw [findFrom, if_neg (by simp [hdir.1]), bind_ok ht]
      exact hu
    · cases hx'

theorem find_of_resolve (hfuel : v.geo.clusterEnd ≤ v.fuel)
    (hx : v.resolve s.disk (Fsd.components path) (DirEntry.root v.geo.rootCluster) = some x) :
    ∃ t, v.find path s = (.ok x, t) ∧ Steps v.geo total s t ∧ Looks s t :=
  findFrom_of_resolve hr fits hs hd (fun _ => .root) hfuel hx

theorem findDir_of_resolve (hfuel : v.geo.clusterEnd ≤ v.fuel)
    (hx : v.resolve s.disk (Fsd.components path) (DirEntry.root v.geo.rootCluster) = some x) (hdir : x.isDir) :
    ∃ t, v.findDir path s = (.ok x, t) ∧ Steps v.geo total s t ∧ Looks s t := by
  obtain ⟨t, ht, hst, hl⟩ := find_of_resolve hr fits hs hd hfuel hx
  refine ⟨t, ?_, hst, hl⟩
  rw [findDir, bind_ok ht, if_neg (by simp [hdir])]
  rfl

end Names
end Ouroboros.Fat32
