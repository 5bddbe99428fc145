import Ouroboros.Fat32.Contents

/-!
# FAT32: how many writes an operation takes

* `failingFrom k`  the first `k` writes pass and no later one does;
* `Spends k n m s`  on such a disk `m` takes `n` writes;
* `freeSet`  the clusters that are free;
* `spends_writeChain`  what a new chain takes, given the clusters for it;
* `stuck_freeFrom`, `freeFrom_zeroes`  a chain freed when no write passes, and when one does.
-/

namespace Ouroboros.Fat32

open Fsd (Bytes)
open Image Relation Volume List Function Finset Try Nat

variable {k : Nat} {s : Fs} {c : Nat} {v : Volume} {reserved total : Nat}

def failingFrom (k : Nat) : Device := ⟨fun log e => e.isWrite && decide (k ≤ log.countP Event.isWrite)⟩

theorem failingFrom_reads (k : Nat) : (failingFrom k).Reads := fun _ _ _ => rfl

/-- `m` takes `n` writes: it has a result if they all pass, and only then. -/
structure Spends (k n : Nat) {α : Type} (m : Op α) (s : Fs) : Prop where
  yields : s.writes + n ≤ k → Yields m s
  writes : ∀ a t, m s = (.ok a, t) → t.writes = s.writes + n ∧ (n = 0 ∨ t.writes ≤ k)

section Rules
variable {α β : Type} {n : Nat} {m : Op α}

theorem Spends.of_same (hy : Yields m s) (h : Leaves Same m s) : Spends k 0 m s :=
  ⟨fun _ => hy, fun _ _ hm => ⟨(h.ok hm).writes, .inl rfl⟩⟩

theorem Spends.pure (a : α) : Spends k 0 (pure a : Op α) s := .of_same (.pure a) (.refl s)

theorem Spends.change {f : Fs → Fs} (h : (f s).log = s.log) : Spends k 0 (Try.change f : Op Unit) s := by
  refine ⟨fun _ => .change f, fun a t ht => ?_⟩
  cases ht
  exact ⟨by rw [Fs.writes, h, Fs.writes, add_zero], .inl rfl⟩

theorem Spends.bind {n' : Nat} {f : α → Op β} (h : Spends k n m s)
    (hf : ∀ a t, m s = (.ok a, t) → Spends k n' (f a) t) : Spends k (n + n') (m >>= f) s := by
  refine ⟨fun hle => ?_, fun b u hu => ?_⟩
  · refine (h.yields (by omega)).bind fun a t ht => (hf a t ht).yields ?_
    have := (h.writes a t ht).1
    omega
  obtain ⟨a, t, ht, hu⟩ := bind_eq_ok.1 hu
  have h₁ := h.writes a t ht
  have h₂ := (hf a t ht).writes b u hu
  omega

theorem Spends.each {f : β → Op Unit} {l : List β} (hf : ∀ b ∈ l, ∀ s, Spends k n (f b) s) :
    Spends k (l.length * n) (Try.each l f) s := by
  induction l generalizing s with
  | nil =>
    rw [length_nil, zero_mul]
    exact .pure ()
  | cons b rest ih =>
    rw [length_cons, succ_mul, add_comm]
    exact (hf b mem_cons_self s).bind fun _ t _ => ih fun c hc => hf c (mem_cons_of_mem b hc)

end Rules

/-! ## What a chain takes -/

def Geometry.copies (g : Geometry) : Nat :=
  match g.fats with
  | .single _ => 1
  | .mirrored => g.numFats

/-- the writes of a chain of `n` clusters: each is claimed and filled, and all but the first linked. -/
def Geometry.chainWrites (g : Geometry) (n : Nat) : Nat :=
  n * (g.copies + g.sectorsPerCluster) + (n - 1) * g.copies

def Geometry.clustersFor (g : Geometry) (n : Nat) : Nat := (n + g.clusterBytes - 1) / g.clusterBytes

def Geometry.freeSet (g : Geometry) (T : Nat → Nat) : Finset Nat :=
  (Finset.range g.clusterEnd).filter fun c => g.inHeap c ∧ T c = 0

section Free
variable {g : Geometry} {T : Nat → Nat} {value : Nat}

theorem mem_freeSet : c ∈ g.freeSet T ↔ g.inHeap c ∧ T c = 0 := by
  rw [Geometry.freeSet, Finset.mem_filter, Finset.mem_range, and_iff_right_iff_imp]
  exact fun h => (inHeap_iff.1 h.1).2

theorem freeSet_claim (hvalue : value ≠ 0) : g.freeSet (update T c value) = (g.freeSet T).erase c := by
  ext x
  rw [mem_erase, mem_freeSet, mem_freeSet]
  by_cases hx : x = c
  · subst hx
    simp [hvalue]
  · simp [hx]

theorem card_freeSet_claim (hc : g.inHeap c) (hfree : T c = 0) (hvalue : value ≠ 0) :
    (g.freeSet (update T c value)).card + 1 = (g.freeSet T).card := by
  rw [freeSet_claim hvalue, card_erase_add_one (mem_freeSet.2 ⟨hc, hfree⟩)]

theorem freeSet_relink (hused : T c ≠ 0) (hvalue : value ≠ 0) : g.freeSet (update T c value) = g.freeSet T := by
  rw [freeSet_claim hvalue, erase_eq_of_notMem fun h => hused (mem_freeSet.1 h).2]

theorem mod_ne_zero (fits : g.Fits reserved total) (hc : g.inHeap c) : c % 2 ^ 28 ≠ 0 := by
  have hsmall := fits.small
  have hlt := inHeap_iff.1 hc
  unfold badCluster at hsmall
  omega

theorem mem_scanFrom {hint : Nat} : c ∈ g.scanFrom hint ↔ g.inHeap c := by
  unfold Geometry.scanFrom
  rw [mem_append, mem_range'_1, mem_range'_1]
  have hstart : (if g.inHeap hint then hint else 2) ≤ g.clusterEnd ∧ 2 ≤ (if g.inHeap hint then hint else 2) ∨
      g.clusterEnd < 2 ∧
      (if g.inHeap hint then hint else 2) = 2 := by
    split
    · have := inHeap_iff.1 ‹_›
      omega
    · omega
  generalize (if g.inHeap hint then hint else 2) = start at hstart ⊢
  rw [inHeap_iff]
  omega

end Free

section Chains
variable (hd : v.toDevice = failingFrom k) {ends : Option (Nat × Nat)} {data : Bytes}
variable {area : Area} {lba : Nat} {b : Sector}
include hd

theorem writeSector_passes (h : s.writes < k) : v.writeSector area lba b s = (.ok (), s.written area lba b) := by
  refine writeSector_of_passes ?_
  rw [hd]
  exact decide_eq_false (not_le.2 h)

theorem writeSector_fails (h : k ≤ s.writes) :
    v.writeSector area lba b s = (.error (.error .io), s.record (.write area lba b)) := by
  refine writeSector_of_fails ?_
  rw [hd]
  exact decide_eq_true h

theorem spends_writeSector (area : Area) (lba : Nat) (b : Sector) : Spends k 1 (v.writeSector area lba b) s := by
  rcases lt_or_ge s.writes k with h | h
  · have heq : v.writeSector area lba b s = _ := writeSector_passes hd h
    refine ⟨fun _ => ⟨_, _, heq⟩, fun a t ht => ?_⟩
    cases heq.symm.trans ht
    have hw : (s.written area lba b).writes = s.writes + 1 := writes_record s (.write area lba b)
    exact ⟨hw, .inr (hw ▸ h)⟩
  · refine ⟨fun hle => absurd hle (by omega), fun a t ht => ?_⟩
    cases (writeSector_fails hd h).symm.trans ht

theorem volume_reads : v.toDevice.Reads := hd ▸ failingFrom_reads k

theorem spends_mirror (c : Nat) (b : Sector) : Spends k (v.geo.copies - 1) (v.mirror c b) s := by
  unfold mirror Geometry.copies
  cases v.geo.fats with
  | single n => exact .pure ()
  | mirrored =>
    have heach : ∀ i ∈ List.range' 1 (v.geo.numFats - 1), ∀ s, Spends k 1
        (v.fatPlaceIn i c >>= fun x => v.writeSector .fat x.1 b) s := by
      intro i _ s
      have hplace : Spends k 0 (v.fatPlaceIn i c) s :=
        .of_same (yields_fatPlaceIn _ _) (looks_same.fatPlaceIn _ _ _)
      exact hplace.bind fun _ t _ => spends_writeSector hd _ _ _
    have hall := Spends.each (s := s) heach
    rwa [length_range', mul_one] at hall

theorem spends_writeFatEntry {value : Nat} (hc : v.geo.inHeap c) (hpos : 0 < v.geo.copies) :
    Spends k v.geo.copies (v.writeFatEntry c value) s := by
  have hr := volume_reads hd
  unfold writeFatEntry
  rw [if_pos hc, show v.geo.copies = 0 + (0 + (0 + (0 + (1 + (0 + (v.geo.copies - 1)))))) by omega]
  have hnext : Spends k 0 (v.nextCluster c) s := .of_same (yields_nextCluster hr hc) (looks_same.nextCluster c _)
  refine hnext.bind fun next t _ => ?_
  have hdrop : Spends k 0 (dropCursors next) t :=
    .of_same (.ite (fun _ => .change _) fun _ => .pure _) (same_dropCursors next)
  refine hdrop.bind fun _ u _ => ?_
  have hplace : Spends k 0 (v.fatPlace c) u := .of_same (yields_fatPlaceIn _ _) (looks_same.fatPlaceIn _ _ _)
  refine hplace.bind fun a w _ => ?_
  have hsector : Spends k 0 (v.fatSector a.1) w := .of_same (yields_fatSector hr _) (looks_same.fatSector _ _)
  refine hsector.bind fun buf x _ => (spends_writeSector hd _ _ _).bind fun _ y _ => ?_
  exact (Spends.change rfl).bind fun _ z _ => spends_mirror hd _ _

theorem spends_each_sector {f : Nat → Sector} (hc : v.geo.inHeap c) : Spends k v.geo.sectorsPerCluster (do
        let lba ← v.clusterToLba c
        Try.each (List.range v.geo.sectorsPerCluster) fun i => do
          let sector ← sectorAt lba i
          v.writeSector .data sector (f i)) s := by
  have hlba : Spends k 0 (v.clusterToLba c) s := .of_same (yields_clusterToLba hc) (looks_same.clusterToLba c _)
  rw [show v.geo.sectorsPerCluster = 0 + (List.range v.geo.sectorsPerCluster).length * 1 by simp]
  refine hlba.bind fun lba t _ => ?_
  rw [length_range, mul_one, zero_add]
  have heach : ∀ i ∈ List.range v.geo.sectorsPerCluster, ∀ s, Spends k 1
      (do let sector ← sectorAt lba i; v.writeSector .data sector (f i)) s := by
    intro i _ s
    have hat : Spends k 0 (sectorAt lba i) s := .of_same (yields_word _ _) (same_word _ _)
    exact hat.bind fun _ u _ => spends_writeSector hd _ _ _
  have hall := Spends.each (s := t) heach
  rwa [length_range, mul_one] at hall

variable (fits : v.geo.Fits reserved total)
include fits

omit hd in
theorem copies_pos : 0 < v.geo.copies := by
  have hlive := fits.live
  unfold Geometry.copies
  cases hfats : v.geo.fats with
  | single n => exact one_pos
  | mirrored =>
    rw [hfats] at hlive
    exact hlive

variable (hs : Coherent v.geo s)
include hs

theorem yields_firstFree {l : List Nat} (hl : ∀ c ∈ l, v.geo.inHeap c) (hc : c ∈ l)
    (hfree : v.geo.table s.disk c = 0) : Yields (v.firstFree l) s := by
  have hr := volume_reads hd
  induction l generalizing s with
  | nil => cases hc
  | cons d rest ih =>
    refine (yields_fatEntry hr (hl d mem_cons_self)).bind fun value t ht => ?_
    obtain ⟨htc, -, rfl, hlook⟩ := (goes_fatEntry fits hs).ok fits hs ht
    refine .ite (fun _ => (Yields.change _).bind fun _ _ _ => .pure _) fun hused => ?_
    refine ih htc (fun e he => hl e (mem_cons_of_mem d he)) ?_ (by rw [hlook.disk, hfree])
    rcases mem_cons.1 hc with rfl | hc
    · exact absurd hfree hused
    · exact hc

theorem spends_findFreeCluster (hfree : 0 < (v.geo.freeSet (v.geo.table s.disk)).card) :
    Spends k 0 v.findFreeCluster s := by
  obtain ⟨c, hc⟩ := card_pos.1 hfree
  obtain ⟨hheap, hzero⟩ := mem_freeSet.1 hc
  refine .of_same (.ask_bind ?_) same_findFreeCluster
  exact yields_firstFree hd fits hs (fun _ h => mem_scanFrom.1 h) (mem_scanFrom.2 hheap) hzero

omit hd in
theorem goes_linkAfter_table : Goes v.geo total (v.linkAfter ends c) s fun _ t =>
      v.geo.table t.disk = ends.elim (v.geo.table s.disk) fun e =>
        update (v.geo.table s.disk) e.2 (c % 2 ^ 28) := by
  unfold linkAfter
  split
  · exact (goes_writeFatEntry fits hs).mono fun _ _ _ h => h.table
  · exact .pure rfl

omit hd hs in
theorem claimed_free {T U : Nat → Nat} (hc : v.geo.inHeap c)
    (hfree : T c = 0) (hends : ∀ a p, ends = some (a, p) → T p ≠ 0)
    (hU : U = ends.elim (update T c (endOfChainMin % 2 ^ 28)) fun e =>
      update (update T c (endOfChainMin % 2 ^ 28)) e.2 (c % 2 ^ 28)) :
    (v.geo.freeSet U).card + 1 = (v.geo.freeSet T).card ∧ U c ≠ 0 := by
  have hclaim := card_freeSet_claim hc hfree (show endOfChainMin % 2 ^ 28 ≠ 0 by decide)
  cases ends with
  | none =>
    rw [hU]
    exact ⟨hclaim, by rw [Option.elim_none, update_self]; decide⟩
  | some e =>
    have hused := hends e.1 e.2 rfl
    have hne : e.2 ≠ c := fun heq => hused (heq ▸ hfree)
    rw [hU, Option.elim_some, freeSet_relink (by rwa [update_of_ne hne]) (mod_ne_zero fits hc)]
    exact ⟨hclaim, by rw [update_of_ne hne.symm, update_self]; decide⟩

structure LastOf (g : Geometry) (T : Nat → Nat) (ends : Option (Nat × Nat)) : Prop where
  heap : ∀ a p, ends = some (a, p) → g.inHeap p
  used : ∀ a p, ends = some (a, p) → T p ≠ 0

theorem spends_writeClusters {n written : Nat}
    (hfree : n ≤ (v.geo.freeSet (v.geo.table s.disk)).card) (hends : LastOf v.geo (v.geo.table s.disk) ends) :
    Spends k (n * (v.geo.copies + v.geo.sectorsPerCluster) + (if ends = none then n - 1 else n) * v.geo.copies)
      (v.writeClusters data n ends written) s := by
  have hpos := copies_pos fits
  induction n generalizing s ends written with
  | zero =>
    have hzero : 0 * (v.geo.copies + v.geo.sectorsPerCluster) +
        (if ends = none then 0 - 1 else 0) * v.geo.copies = 0 := by
      split <;> omega
    rw [hzero]
    exact .pure _
  | succ n ih =>
    have hsum : (n + 1) * (v.geo.copies + v.geo.sectorsPerCluster) +
        (if ends = none then n + 1 - 1 else n + 1) * v.geo.copies
        = 0 + (v.geo.copies + ((if ends = none then 0 else v.geo.copies) + (v.geo.sectorsPerCluster
          + (n * (v.geo.copies + v.geo.sectorsPerCluster) + n * v.geo.copies)))) := by
      rw [succ_mul]
      split
      · rw [Nat.add_sub_cancel]
        omega
      · rw [succ_mul]
        omega
    rw [hsum]
    refine (spends_findFreeCluster hd fits hs (by omega)).bind fun c t ht => ?_
    obtain ⟨htc, hc, hzero, hl⟩ := (goes_findFreeCluster fits hs).ok fits hs ht
    refine (spends_writeFatEntry hd hc hpos).bind fun _ u hu => ?_
    obtain ⟨huc, hclaim⟩ := (goes_writeFatEntry fits htc).ok fits htc hu
    have hlink : Spends k (if ends = none then 0 else v.geo.copies) (v.linkAfter ends c) u := by
      unfold linkAfter
      cases ends with
      | none => exact .pure ()
      | some e => exact spends_writeFatEntry hd (hends.heap e.1 e.2 rfl) hpos
    refine hlink.bind fun _ w hw => ?_
    obtain ⟨hwc, hlinked⟩ := (goes_linkAfter_table fits huc).ok fits huc hw
    refine (spends_each_sector hd hc).bind fun _ x hx => ?_
    obtain ⟨hxc, -, hfill⟩ := (goes_fillCluster fits).ok fits hwc hx
    have hU : v.geo.table x.disk = _ := hfill.table.trans hlinked
    rw [hclaim.table, hl.disk] at hU
    obtain ⟨hcard, hused⟩ := claimed_free fits hc hzero hends.used hU
    have hlast : LastOf v.geo (v.geo.table x.disk) (some (ends.elim c Prod.fst, c)) :=
      ⟨fun a p h => by cases h; exact hc, fun a p h => by cases h; exact hused⟩
    have hrest :
        Spends k _ (v.writeClusters data n (some (ends.elim c Prod.fst, c)) (written + v.geo.clusterBytes)) x :=
      ih hxc (by omega) hlast
    rwa [if_neg (Option.some_ne_none _)] at hrest

omit hd in
theorem goes_writeClusters_free {n written : Nat} (hends : LastOf v.geo (v.geo.table s.disk) ends) :
    Goes v.geo total (v.writeClusters data n ends written) s fun _ _ =>
      n ≤ (v.geo.freeSet (v.geo.table s.disk)).card := by
  induction n generalizing s ends written with
  | zero => exact .pure (zero_le _)
  | succ n ih =>
    refine (goes_findFreeCluster fits hs).next fits hs fun c t htc h => ?_
    obtain ⟨hc, hzero, hl⟩ := h
    refine (goes_writeFatEntry fits htc).next fits htc fun _ u huc hclaim => ?_
    refine (goes_linkAfter_table fits huc).next fits huc fun _ w hwc hlinked => ?_
    refine (goes_fillCluster fits).next fits hwc fun _ x hx hfill => ?_
    have hU : v.geo.table x.disk = _ := hfill.2.table.trans hlinked
    rw [hclaim.table, hl.disk] at hU
    obtain ⟨hcard, hused⟩ := claimed_free fits hc hzero hends.used hU
    refine (ih hx ⟨fun a p h => ?_, fun a p h => ?_⟩).mono fun _ _ _ hle => by omega
    · cases h
      exact hc
    · cases h
      exact hused

omit hd fits hs in
theorem clustersFor_nil (g : Geometry) : g.clustersFor 0 = 0 := by
  unfold Geometry.clustersFor
  rcases Nat.eq_zero_or_pos g.clusterBytes with h | h
  · rw [h]
  · exact div_eq_of_lt (by omega)

omit hs in
theorem spends_writeChain (hs : Coherent v.geo s)
    (hfree : v.geo.clustersFor data.length ≤ (v.geo.freeSet (v.geo.table s.disk)).card) :
    Spends k (v.geo.chainWrites (v.geo.clustersFor data.length)) (v.writeChain data) s := by
  unfold writeChain
  split
  · rename_i hnil
    rw [hnil, length_nil, clustersFor_nil, Geometry.chainWrites, Nat.zero_mul, Nat.zero_sub, Nat.zero_mul]
    exact .pure 0
  have hall : Spends k _ (v.writeClusters data (v.geo.clustersFor data.length) none 0) s :=
    spends_writeClusters hd fits hs hfree ⟨nofun, nofun⟩
  rwa [if_pos rfl] at hall

omit hd in
theorem goes_writeChain_free : Goes v.geo total (v.writeChain data) s fun _ _ =>
      v.geo.clustersFor data.length ≤ (v.geo.freeSet (v.geo.table s.disk)).card := by
  refine .ite (fun hnil => .pure ?_) fun _ => goes_writeClusters_free fits hs ⟨nofun, nofun⟩
  rw [hnil, length_nil, clustersFor_nil]
  exact zero_le _

end Chains

/-! ## A chain freed while writes begin to fail -/

def Stuck (k : Nat) (s t : Fs) : Prop := k ≤ s.writes → t.disk = s.disk ∧ k ≤ t.writes

section Stuck

theorem Stuck.refl (s : Fs) : Stuck k s s := fun h => ⟨rfl, h⟩

theorem Stuck.trans (s t u : Fs) (h : Stuck k s t) (h' : Stuck k t u) : Stuck k s u := by
  intro hk
  obtain ⟨hdisk, hk⟩ := h hk
  exact ⟨(h' hk).1.trans hdisk, (h' hk).2⟩

theorem Same.stuck {t : Fs} (h : Same s t) : Stuck k s t := fun hk => ⟨h.disk, h.writes ▸ hk⟩

variable (hd : v.toDevice = failingFrom k)
include hd

theorem stuck_writeSector (area : Area) (lba : Nat) (b : Sector) :
    Leaves (Stuck k) (v.writeSector area lba b) s := by
  intro hk
  rw [writeSector_fails hd hk]
  exact ⟨rfl, by rw [writes_record]; omega⟩

theorem stuck_writeFatEntry (c value : Nat) : Leaves (Stuck k) (v.writeFatEntry c value) s := by
  refine .ite (fun _ => ?_) fun _ => .refl s
  refine ((looks_same.nextCluster c _).mono fun _ h => h.stuck).bind Stuck.trans fun _ _ _ => ?_
  refine ((same_dropCursors _).mono fun _ h => h.stuck).bind Stuck.trans fun _ _ _ => ?_
  refine ((looks_same.fatPlaceIn _ _ _).mono fun _ h => h.stuck).bind Stuck.trans fun _ _ _ => ?_
  refine ((looks_same.fatSector _ _).mono fun _ h => h.stuck).bind Stuck.trans fun _ _ _ => ?_
  refine (stuck_writeSector hd _ _ _).bind Stuck.trans fun _ t _ => ?_
  refine .bind Stuck.trans (fun hk => ⟨rfl, hk⟩ : Stuck k t _) fun _ u _ => ?_
  unfold mirror
  split
  · exact .refl u
  · refine .each Stuck.refl Stuck.trans fun i _ s => ?_
    exact ((looks_same.fatPlaceIn _ _ _).mono fun _ h => h.stuck).bind Stuck.trans fun _ _ _ =>
      stuck_writeSector hd _ _ _

theorem stuck_freeFrom (fuel c : Nat) : Leaves (Stuck k) (v.freeFrom fuel c) s := by
  induction fuel generalizing s c with
  | zero => exact .refl s
  | succ fuel ih =>
    refine ((looks_same.nextCluster c _).mono fun _ h => h.stuck).bind Stuck.trans fun _ _ _ => ?_
    refine (stuck_writeFatEntry hd c 0).bind Stuck.trans fun _ t _ => ?_
    refine .bind Stuck.trans (fun hk => ⟨rfl, hk⟩ : Stuck k t _) fun _ u _ => ?_
    split
    · exact ih _
    · exact .refl u

variable (fits : v.geo.Fits reserved total)
include fits

theorem writeFatEntry_enters {value : Nat} (hs : Coherent v.geo s) (hc : v.geo.inHeap c) (hk : s.writes < k) :
    v.geo.table (v.writeFatEntry c value s).2.disk c = value % 2 ^ 28 := by
  have hr := volume_reads hd
  obtain ⟨next, t, ht⟩ := yields_nextCluster (s := s) hr hc
  obtain ⟨u, hu⟩ : ∃ u, dropCursors next t = (.ok (), u) := by
    unfold dropCursors
    split <;> exact ⟨_, rfl⟩
  obtain ⟨a, w, hw⟩ := yields_fatPlaceIn (v := v) (s := u) v.geo.fats.readCopy c
  obtain ⟨buf, x, hx⟩ := yields_fatSector (s := w) hr a.1
  have htc := ((goes_nextCluster fits hs).ok fits hs ht).1
  have huc := (goes_dropCursors.ok fits htc hu).1
  obtain ⟨hwc, rfl, -⟩ := (goes_fatPlaceIn fits fits.live hc).ok fits huc hw
  obtain ⟨-, rfl, hl⟩ := (goes_fatSector fits hwc hc).sat.ok hx
  have hsame : Same s x :=
    ((((looks_same.nextCluster c _).ok ht).trans _ _ _ ((same_dropCursors next).ok hu)).trans _ _ _
    ((looks_same.fatPlaceIn _ _ _).ok hw)).trans _ _ _ ((looks_same.fatSector _ _).ok hx)
  unfold writeFatEntry
  rw [if_pos hc, bind_ok ht, bind_ok hu, fatPlace, bind_ok hw]
  dsimp only
  rw [bind_ok hx, bind_ok (writeSector_passes hd (hsame.writes ▸ hk)), ← hl.disk]
  have hmirror : Leaves (Aside v.geo) (v.mirror c (setEntry (x.disk (v.geo.fatLba v.geo.fats.readCopy c))
      (c * 4 % sectorSize) value)) (x.entered v.geo c value) := leaves_mirror fits hc
  have htable := hmirror.table
  rw [table_entered fits c value x hc] at htable
  exact (congrFun htable c).trans (update_self c _ _)

theorem freeFrom_zeroes {fuel : Nat} (hs : Coherent v.geo s) (hc : v.geo.inHeap c) (hk : s.writes < k) :
    v.geo.table (v.freeFrom (fuel + 1) c s).2.disk c = 0 := by
  obtain ⟨next, t, ht⟩ := yields_nextCluster (s := s) (volume_reads hd) hc
  have htc := ((goes_nextCluster fits hs).ok fits hs ht).1
  have hzero : v.geo.table (v.writeFatEntry c 0 t).2.disk c = 0 :=
    writeFatEntry_enters hd fits htc hc (((looks_same.nextCluster c _).ok ht).writes ▸ hk)
  unfold freeFrom
  rw [bind_ok ht]
  rcases hu : v.writeFatEntry c 0 t with ⟨e | a, u⟩
  · rw [bind_error hu]
    rwa [hu] at hzero
  rw [bind_ok hu]
  rw [hu] at hzero
  have huc := ((goes_writeFatEntry fits htc).ok fits htc hu).1
  cases next with
  | none => exact hzero
  | some d =>
    have hrest : Leaves (Loses v.geo fun _ => True) (v.freeFrom fuel d)
        { u with nextFreeHint := min u.nextFreeHint c } :=
      leaves_freeFrom fits huc trivial fun _ _ _ _ => trivial
    exact (hrest.zero c).elim (·.trans hzero) id

end Stuck

end Ouroboros.Fat32
