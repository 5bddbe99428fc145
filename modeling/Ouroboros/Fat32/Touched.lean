import Ouroboros.Fat32.Sure

/-!
# FAT32: what an operation leaves alone, however it ends

* `Leaves R m s`  `R` holds between `s` and the state after `m`, whether `m` fails or not;
* `leaves_writeChain`  a new chain is written into clusters that were free;
* `leaves_freeFrom`  a chain that is freed loses its own entries only.
-/

namespace Ouroboros.Fat32

open Fsd (Bytes)
open Image Relation Volume List Function

variable {α : Type} {s t : Fs} {v : Volume} {g : Geometry} {F : Nat → Prop}

def Leaves {α : Type} (R : Fs → Fs → Prop) (m : Op α) (s : Fs) : Prop := R s (m s).2

section Rules
variable {β : Type} {R : Fs → Fs → Prop} {m : Op α}

theorem Leaves.bind (htrans : ∀ s t u, R s t → R t u → R s u) {f : α → Op β} (h : Leaves R m s)
    (hf : ∀ a t, m s = (.ok a, t) → Leaves R (f a) t) : Leaves R (m >>= f) s := by
  unfold Leaves at h ⊢
  rcases hm : m s with ⟨e | a, t⟩
  · rw [Try.bind_error hm]
    rwa [hm] at h
  rw [Try.bind_ok hm]
  rw [hm] at h
  exact htrans _ _ _ h (hf a t hm)

theorem Leaves.ok (h : Leaves R m s) {a : α} (hm : m s = (.ok a, t)) : R s t := by
  unfold Leaves at h
  rwa [hm] at h

theorem Leaves.error (h : Leaves R m s) {e : Stop} (hm : m s = (.error e, t)) : R s t := by
  unfold Leaves at h
  rwa [hm] at h

theorem Leaves.mono {R' : Fs → Fs → Prop} (h : Leaves R m s) (hR : ∀ t, R s t → R' s t) : Leaves R' m s := hR _ h

theorem Leaves.ite {c : Prop} [Decidable c] {n : Op α} (hm : c → Leaves R m s) (hn : ¬ c → Leaves R n s) :
    Leaves R (if c then m else n) s := by
  split
  · exact hm ‹_›
  · exact hn ‹_›

theorem Leaves.each (hrefl : ∀ s, R s s) (htrans : ∀ s t u, R s t → R t u → R s u) {f : β → Op Unit} {l : List β}
    (hf : ∀ b ∈ l, ∀ s, Leaves R (f b) s) : Leaves R (Try.each l f) s := by
  induction l generalizing s with
  | nil => exact hrefl s
  | cons b rest ih =>
    exact (hf b mem_cons_self s).bind htrans fun _ t _ => ih fun c hc => hf c (mem_cons_of_mem b hc)

end Rules

/-! ## Operations that only look -/

/-- `C` holds of what the operations that look are built from, and building keeps it. -/
structure Looking (v : Volume) (C : (α : Type) → Op α → Prop) : Prop where
  pure : ∀ {α : Type} (a : α), C α (pure a)
  bind : ∀ {α β : Type} {m : Op α} {f : α → Op β}, C α m → (∀ a, C β (f a)) → C β (m >>= f)
  io : ∀ {α : Type}, C α (err .io)
  spent : ∀ {α : Type}, C α (Try.fail .spent)
  word : ∀ bits n, C Nat (word bits n)
  read : ∀ area lba, C Sector (v.readSector area lba)
  ask : ∀ {α : Type} (f : Fs → α), C α (Try.ask f)
  cache : ∀ x, C Unit (Try.change fun s => { s with fatCache := x })

namespace Looking
variable {C : (α : Type) → Op α → Prop} (h : Looking v C) {ρ : Type}
include h

omit h in
theorem branch {c : Prop} [Decidable c] {m n : Op α} (hm : C α m) (hn : C α n) : C α (if c then m else n) := by
  split
  · exact hm
  · exact hn

theorem clusterToLba (c : Nat) : C Nat (v.clusterToLba c) :=
  branch (h.bind (h.word _ _) fun _ => h.word _ _) h.io

theorem fatPlaceIn (copy c : Nat) : C (Nat × Nat) (v.fatPlaceIn copy c) :=
  h.bind (h.word _ _) fun _ => h.bind (h.word _ _) fun _ => h.bind (h.word _ _) fun _ =>
    h.bind (h.word _ _) fun _ => h.pure _

theorem fatSector (lba : Nat) : C Sector (v.fatSector lba) := by
  have hfetch : C Sector (fatSector.fetch v lba) :=
    h.bind (h.read _ _) fun _ => h.bind (h.cache _) fun _ => h.pure _
  refine h.bind (h.ask _) fun cache => ?_
  split
  · exact branch (h.pure _) hfetch
  · exact hfetch

theorem fatEntry (c : Nat) : C Nat (v.fatEntry c) :=
  branch (h.bind (h.fatPlaceIn _ _) fun _ => h.bind (h.fatSector _) fun _ => h.pure _) h.io

theorem nextCluster (c : Nat) : C (Option Nat) (v.nextCluster c) := h.bind (h.fatEntry c) fun _ => h.pure _

theorem scanSectors {look : α → Sector → Place → α ⊕ ρ} (lba : Nat) (l : List Nat) (a : α) :
    C (α ⊕ ρ) (v.scanSectors look lba l a) := by
  induction l generalizing a with
  | nil => exact h.pure _
  | cons k rest ih =>
    refine h.bind (h.word _ _) fun _ => h.bind (h.read _ _) fun _ => ?_
    split
    · exact ih _
    · exact h.pure _

theorem scan {look : α → Sector → Place → α ⊕ ρ} {fin : α → ρ} (fuel c : Nat) (a : α) :
    C ρ (v.scanFrom look (fun _ a => Pure.pure (.inr (fin a))) fuel c a) := by
  induction fuel generalizing c a with
  | zero => exact h.spent
  | succ fuel ih =>
    refine h.bind (h.clusterToLba c) fun _ => h.bind (h.scanSectors _ _ _) fun _ => ?_
    split
    · exact h.pure _
    refine h.bind (h.nextCluster c) fun _ => ?_
    split
    · exact ih _ _
    · exact h.pure _

theorem lookup (c : Nat) (name : Bytes) : C (Option (DirEntry × Place)) (v.lookup c name) := h.scan _ _ _

end Looking

def Fs.writes (s : Fs) : Nat := s.log.countP Event.isWrite

theorem writes_record (s : Fs) (e : Event) : (s.record e).writes = s.writes + if e.isWrite then 1 else 0 := by
  rw [Fs.writes, Fs.record, countP_append, countP_singleton, Fs.writes]

structure Same (s t : Fs) : Prop where
  disk : t.disk = s.disk
  writes : t.writes = s.writes

theorem Same.refl (s : Fs) : Same s s := ⟨rfl, rfl⟩

theorem Same.trans (s t u : Fs) (h : Same s t) (k : Same t u) : Same s u :=
  ⟨k.disk.trans h.disk, k.writes.trans h.writes⟩

section Looks

theorem same_word (bits n : Nat) : Leaves Same (word bits n) s := by
  unfold Leaves
  rw [word_apply]
  dsimp only
  split
  · exact .refl s
  · exact ⟨rfl, writes_record s .wrapped⟩

theorem same_readSector (area : Area) (lba : Nat) : Leaves Same (v.readSector area lba) s := by
  have hrecord : Same s (s.record (.read area lba)) := ⟨rfl, writes_record s (.read area lba)⟩
  unfold Leaves
  cases hf : v.fails s.log (.read area lba)
  · rwa [readSector_of_passes hf]
  · rwa [readSector_of_fails hf]

theorem looks_same : Looking v fun _ m => ∀ s, Leaves Same m s where
  pure _ s := .refl s
  bind h hf s := (h s).bind Same.trans fun a t _ => hf a t
  io := .refl
  spent := .refl
  word bits n _ := same_word bits n
  read area lba _ := same_readSector area lba
  ask _ s := .refl s
  cache _ _ := ⟨rfl, rfl⟩

theorem same_firstFree (l : List Nat) : Leaves Same (v.firstFree l) s := by
  induction l generalizing s with
  | nil => exact .refl s
  | cons c rest ih =>
    exact (looks_same.fatEntry c _).bind Same.trans fun _ _ _ => .ite (fun _ => ⟨rfl, rfl⟩) fun _ => ih

theorem same_dropCursors (next : Option Nat) : Leaves Same (dropCursors next) s :=
  Leaves.ite (fun _ => ⟨rfl, rfl⟩) fun _ => .refl s

theorem same_findFreeCluster : Leaves Same v.findFreeCluster s :=
  same_firstFree (s := s) (v.geo.scanFrom s.nextFreeHint)

theorem same_findFrom (l : List Bytes) (e : DirEntry) : Leaves Same (v.findFrom l e) s := by
  induction l generalizing s e with
  | nil => exact .refl s
  | cons name rest ih =>
    refine .ite (fun _ => .refl s) fun _ => (looks_same.lookup _ _ _).bind Same.trans fun _ _ _ => ?_
    split
    · exact ih _
    · exact .refl _

theorem same_findDir (path : Bytes) : Leaves Same (v.findDir path) s :=
  (same_findFrom _ _).bind Same.trans fun _ t _ => .ite (fun _ => .refl t) fun _ => .refl t

end Looks

/-! ## Clusters that are touched -/

/-- outside the clusters of `F` the table and the clusters are as they were. -/
structure Touches (g : Geometry) (F : Nat → Prop) (s t : Fs) : Prop where
  table : ∀ c, ¬ F c → g.table t.disk c = g.table s.disk c
  data : ∀ c k, g.inHeap c → ¬ F c → k < g.sectorsPerCluster → t.disk (g.dataLba c k) = s.disk (g.dataLba c k)

section Touches
variable {u : Fs}

theorem Touches.refl (s : Fs) : Touches g F s s := ⟨fun _ _ => rfl, fun _ _ _ _ _ => rfl⟩

theorem Touches.trans (s t u : Fs) (h : Touches g F s t) (k : Touches g F t u) : Touches g F s u :=
  ⟨fun c hc => (k.table c hc).trans (h.table c hc), fun c i hc hF hi =>
    (k.data c i hc hF hi).trans (h.data c i hc hF hi)⟩

theorem Touches.mono {F' : Nat → Prop} (h : Touches g F s t) (hF : ∀ c, F c → F' c) : Touches g F' s t :=
  ⟨fun c hc => h.table c fun hFc => hc (hF c hFc), fun c k hc hFc hk =>
    h.data c k hc (fun hFc' => hFc (hF c hFc')) hk⟩

theorem Touches.of_disk (h : t.disk = s.disk) : Touches g F s t :=
  ⟨fun _ _ => by rw [h], fun _ _ _ _ _ => by rw [h]⟩

theorem Same.touches (h : Same s t) : Touches g F s t := .of_disk h.disk

end Touches

section Ops
variable {reserved total : Nat} (fits : v.geo.Fits reserved total) {c value : Nat}
include fits

omit fits in
theorem leaves_writeSector {R : Fs → Fs → Prop} {area : Area} {lba : Nat} {b : Sector}
    (hfail : R s (s.record (.write area lba b))) (hpass : R s (s.written area lba b)) :
    Leaves R (v.writeSector area lba b) s := by
  unfold Leaves
  cases hf : v.fails s.log (.write area lba b) with
  | true => rwa [writeSector_of_fails hf]
  | false => rwa [writeSector_of_passes hf]

/-- the live copy of the table and the clusters are as they were. -/
structure Aside (g : Geometry) (s t : Fs) : Prop where
  table : g.table t.disk = g.table s.disk
  data : ∀ lba, g.IsData lba → t.disk lba = s.disk lba

omit fits in
theorem Aside.trans (s t u : Fs) (h : Aside g s t) (k : Aside g t u) : Aside g s u :=
  ⟨k.table.trans h.table, fun lba hd => (k.data lba hd).trans (h.data lba hd)⟩

omit fits in
theorem Aside.of_disk (h : t.disk = s.disk) : Aside g s t := ⟨by rw [h], fun _ _ => by rw [h]⟩

theorem leaves_mirror {b : Sector} (hc : v.geo.inHeap c) : Leaves (Aside v.geo) (v.mirror c b) s := by
  unfold Volume.mirror
  cases hfats : v.geo.fats with
  | single n => exact .of_disk rfl
  | mirrored =>
    refine .each (fun _ => .of_disk rfl) Aside.trans fun i hi s => ?_
    obtain ⟨hi, hne⟩ := mirror_of_mem hfats hi
    refine .bind Aside.trans ((looks_same.fatPlaceIn i c _).mono fun _ h => .of_disk h.disk) fun a t ht => ?_
    obtain ⟨-, rfl, -⟩ := (goes_fatPlaceIn fits hi hc).sat.ok ht
    refine leaves_writeSector (.of_disk rfl) ⟨?_, fun lba hd => ?_⟩
    · exact table_update_of_not_fat fits (not_isFat_of_copy_ne fits hc hi hne)
    · exact update_of_ne (isFat_ne_isData fits ⟨hi, c, hc, rfl⟩ hd).symm _ _

def MayEnter (g : Geometry) (c value : Nat) (s t : Fs) : Prop :=
  (g.table t.disk = g.table s.disk ∨ g.table t.disk = Function.update (g.table s.disk) c (value % 2 ^ 28))
    ∧ ∀ lba, g.IsData lba → t.disk lba = s.disk lba

omit fits in
theorem MayEnter.of_disk (h : t.disk = s.disk) : MayEnter g c value s t :=
  ⟨.inl (by rw [h]), fun _ _ => by rw [h]⟩

omit fits in
theorem MayEnter.trans (s t u : Fs) (h : MayEnter g c value s t) (k : MayEnter g c value t u) :
    MayEnter g c value s u := by
  refine ⟨?_, fun lba hd => (k.2 lba hd).trans (h.2 lba hd)⟩
  rcases k.1 with hk | hk <;> rcases h.1 with hh | hh <;> rw [hk, hh]
  · exact .inl rfl
  · exact .inr rfl
  · exact .inr rfl
  · rw [update_idem]
    exact .inr rfl

theorem leaves_writeFatEntry (hs : Coherent v.geo s) :
    Leaves (MayEnter v.geo c value) (v.writeFatEntry c value) s := by
  have hlook {α : Type} {m : Op α} {s : Fs} (h : Leaves Same m s) : Leaves (MayEnter v.geo c value) m s :=
    h.mono fun _ h => .of_disk h.disk
  refine .ite (fun hc => ?_) fun _ => .of_disk rfl
  refine (hlook (looks_same.nextCluster c _)).bind MayEnter.trans fun next t ht => ?_
  have htc := ((goes_nextCluster fits hs).ok fits hs ht).1
  have hdrop : Leaves Same (dropCursors next) t := same_dropCursors next
  refine (hlook hdrop).bind MayEnter.trans fun _ u hu => ?_
  have huc := (goes_dropCursors.ok fits htc hu).1
  refine (hlook (looks_same.fatPlaceIn _ _ _)).bind MayEnter.trans fun a w hw => ?_
  obtain ⟨hwc, rfl, -⟩ := (goes_fatPlaceIn fits fits.live hc).ok fits huc hw
  refine (hlook (looks_same.fatSector _ _)).bind MayEnter.trans fun buf x hx => ?_
  obtain ⟨-, rfl, hl⟩ := (goes_fatSector fits hwc hc).sat.ok hx
  rw [← hl.disk]
  have hwrite : Leaves (MayEnter v.geo c value) (v.writeSector .fat (v.geo.fatLba v.geo.fats.readCopy c)
      (setEntry (x.disk (v.geo.fatLba v.geo.fats.readCopy c)) (c * 4 % sectorSize) value)) x :=
    leaves_writeSector (.of_disk rfl) ⟨.inr (table_entered fits c value x hc), fun lba hd =>
      entered_data fits hc hd⟩
  refine hwrite.bind MayEnter.trans fun _ y _ => ?_
  exact .bind MayEnter.trans (.of_disk rfl) fun _ z _ => (leaves_mirror fits hc).mono fun t h =>
    ⟨.inl h.table, h.data⟩

omit fits in
theorem MayEnter.touches (h : MayEnter g c value s t) (hF : F c) : Touches g F s t := by
  refine ⟨fun d hd => ?_, fun d k hd _ hk => h.2 _ (isData_dataLba hd hk)⟩
  rcases h.1 with h | h <;> rw [h]
  rw [update_of_ne]
  rintro rfl
  exact hd hF

theorem leaves_eachSector {f : Nat → Sector} (hF : F c) : Leaves (Touches v.geo F) (do
        let lba ← v.clusterToLba c
        Try.each (List.range v.geo.sectorsPerCluster) fun k => do
          let sector ← sectorAt lba k
          v.writeSector .data sector (f k)) s := by
  refine .bind Touches.trans ((looks_same.clusterToLba c _).mono fun _ h => h.touches) fun lba t ht => ?_
  obtain ⟨-, hc, rfl, -⟩ := (goes_clusterToLba fits).sat.ok ht
  refine .each Touches.refl Touches.trans fun k hk s => ?_
  have hk := mem_range.1 hk
  refine .bind Touches.trans ((same_word _ _).mono fun _ h => h.touches) fun a u hu => ?_
  obtain ⟨-, rfl, -⟩ := (goes_sectorAt fits hc hk).sat.ok hu
  refine leaves_writeSector (.of_disk rfl) ⟨fun d _ => ?_, fun d i hd hFd hi => ?_⟩
  · exact congrFun (table_data fits (isData_dataLba hc hk)) d
  refine update_of_ne (fun heq => hFd ?_) _ _
  rw [(dataLba_inj fits hd hc hi hk heq).1]
  exact hF

theorem leaves_writeClusters {data : Bytes} {n written : Nat} {ends : Option (Nat × Nat)}
    (hs : Coherent v.geo s) (hfree : ∀ c, v.geo.inHeap c → v.geo.table s.disk c = 0 → F c)
    (hends : ∀ a p, ends = some (a, p) → F p) :
    Leaves (Touches v.geo F) (v.writeClusters data n ends written) s := by
  induction n generalizing s ends written with
  | zero => exact .refl s
  | succ n ih =>
    have hfind : Leaves (Touches v.geo F) v.findFreeCluster s := same_findFreeCluster.mono fun _ h => h.touches
    refine hfind.bind Touches.trans fun c t ht => ?_
    obtain ⟨htc, hc, hzero, hl⟩ := (goes_findFreeCluster fits hs).ok fits hs ht
    have hF := hfree c hc hzero
    have hclaim : Leaves (Touches v.geo F) (v.writeFatEntry c endOfChainMin) t :=
      (leaves_writeFatEntry fits htc).mono fun _ h => h.touches hF
    refine hclaim.bind Touches.trans fun _ u hu => ?_
    have huc := ((goes_writeFatEntry fits htc).ok fits htc hu).1
    have hlink : Leaves (Touches v.geo F) (v.linkAfter ends c) u := by
      unfold Volume.linkAfter
      split
      · exact (leaves_writeFatEntry fits huc).mono fun _ h => h.touches (hends _ _ rfl)
      · exact .refl u
    refine hlink.bind Touches.trans fun _ w hw => ?_
    have hwc := ((goes_linkAfter fits huc).ok fits huc hw).1
    have hfill : Leaves (Touches v.geo F) (v.fillCluster data written c) w := leaves_eachSector fits hF
    refine hfill.bind Touches.trans fun _ x hx => ?_
    have hxc := ((goes_fillCluster fits).ok fits hwc hx).1
    have hall : Touches v.geo F s x :=
      ((((hfind.ok ht).trans _ _ _ (hclaim.ok hu)).trans _ _ _ (hlink.ok hw)).trans _ _ _ (hfill.ok hx))
    refine ih hxc (fun d hd hzero => ?_) fun a p heq => ?_
    · by_contra hFd
      rw [hall.table d hFd] at hzero
      exact hFd (hfree d hd hzero)
    · cases heq
      exact hF

theorem leaves_writeChain {data : Bytes} (hs : Coherent v.geo s) :
    Leaves (Touches v.geo fun c => v.geo.inHeap c ∧ v.geo.table s.disk c = 0) (v.writeChain data) s :=
  Leaves.ite (fun _ => .refl s) fun _ => leaves_writeClusters fits hs (fun _ hc h => ⟨hc, h⟩) nofun

/-- clusters of `F` lose their entries, and nothing else changes. -/
structure Loses (g : Geometry) (F : Nat → Prop) (s t : Fs) : Prop extends Touches g F s t where
  zero : ∀ c, g.table t.disk c = g.table s.disk c ∨ g.table t.disk c = 0
  clusters : ∀ lba, g.IsData lba → t.disk lba = s.disk lba

omit fits in
theorem Loses.trans (s t u : Fs) (h : Loses g F s t) (k : Loses g F t u) : Loses g F s u :=
  ⟨h.toTouches.trans _ _ _ k.toTouches, fun c => (k.zero c).elim (fun e => (h.zero c).imp e.trans e.trans) .inr,
    fun lba hd => (k.clusters lba hd).trans (h.clusters lba hd)⟩

omit fits in
theorem Loses.of_disk (h : t.disk = s.disk) : Loses g F s t :=
  ⟨.of_disk h, fun _ => .inl (by rw [h]), fun _ _ => by rw [h]⟩

omit fits in
theorem MayEnter.loses (h : MayEnter g c 0 s t) (hF : F c) : Loses g F s t := by
  refine ⟨h.touches hF, fun d => ?_, h.2⟩
  rcases h.1 with h | h <;> rw [h]
  · exact .inl rfl
  by_cases hd : d = c
  · rw [hd, update_self]
    exact .inr rfl
  · rw [update_of_ne hd]
    exact .inl rfl

theorem leaves_freeFrom {fuel : Nat} (hs : Coherent v.geo s) (hc : F c)
    (hF : ∀ c d, F c → v.geo.next (v.geo.table s.disk) c = some d → F d) :
    Leaves (Loses v.geo F) (v.freeFrom fuel c) s := by
  induction fuel generalizing s c with
  | zero => exact .of_disk rfl
  | succ fuel ih =>
    have hnext : Leaves (Loses v.geo F) (v.nextCluster c) s :=
      (looks_same.nextCluster c _).mono fun _ h => .of_disk h.disk
    refine hnext.bind Loses.trans fun next t ht => ?_
    obtain ⟨htc, -, rfl, hl⟩ := (goes_nextCluster fits hs).ok fits hs ht
    have hzero : Leaves (Loses v.geo F) (v.writeFatEntry c 0) t :=
      (leaves_writeFatEntry fits htc).mono fun _ h => h.loses hc
    refine hzero.bind Loses.trans fun _ u hu => ?_
    have huc := ((goes_writeFatEntry fits htc).ok fits htc hu).1
    refine .bind Loses.trans (.of_disk rfl) fun _ w hw => ?_
    cases hw
    split
    · rename_i d hd
      refine ih huc (hF c d hc hd) fun a b ha hab => hF a b ha ?_
      have hall := (hnext.ok ht).trans _ _ _ (hzero.ok hu)
      rcases hall.zero a with h | h
      · rwa [Geometry.next, ← h]
      · rw [Geometry.next, h] at hab
        cases hab
    · exact .of_disk rfl

end Ops
end Ouroboros.Fat32
