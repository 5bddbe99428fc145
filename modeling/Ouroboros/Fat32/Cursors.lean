import Ouroboros.Fat32.Bounds

/-!
# FAT32: the cursors are not seen

Two runs from states that differ only in what the driver remembers: cursors, cached sector, reads of the table.

* `Twin`  the two states have one disk and one history of everything else;
* `from_head`  a walk from the head of a chain comes to where a cursor stands and goes on there;
* `sim_readEntry`, `sim_writeAt`  both runs yield one result, and access the same clusters alike;
* `cursors_unseen`  **so it is after any operations, on any image**.
-/

namespace Ouroboros.Fat32

open Fsd (Bytes)
open Image Relation Try List Volume Nat

variable {s t : Fs} {v : Volume} {reserved total : Nat} {α : Type} {c pos head offset : Nat}

def Event.seen : Event → Bool
  | .read .fat _ => false
  | .wrapped => false
  | _ => true

/-- the table can be read, and which other access fails does not depend on how it was. -/
structure Device.Blind (d : Device) : Prop where
  fat : ∀ log lba, d.fails log (.read .fat lba) = false
  same : ∀ log log' e, log.filter Event.seen = log'.filter Event.seen → d.fails log e = d.fails log' e

structure Twin (s t : Fs) : Prop where
  disk : s.disk = t.disk
  hint : s.nextFreeHint = t.nextFreeHint
  log : s.log.filter Event.seen = t.log.filter Event.seen

variable {g : Geometry}

theorem Twin.record (h : Twin s t) (e : Event) : Twin (s.record e) (t.record e) :=
  ⟨h.disk, h.hint, by rw [Fs.record, Fs.record, filter_append, filter_append, h.log]⟩

theorem Twin.unseen_left (h : Twin s t) {e : Event} (he : e.seen = false) : Twin (s.record e) t := by
  refine ⟨h.disk, h.hint, ?_⟩
  rw [Fs.record, filter_append, filter_cons_of_neg (by rw [he]; exact Bool.false_ne_true),
    filter_nil, append_nil, h.log]

theorem Twin.symm (h : Twin s t) : Twin t s := ⟨h.disk.symm, h.hint.symm, h.log.symm⟩

theorem Twin.cache (h : Twin s t) (a b : Option (Nat × Sector)) :
    Twin { s with fatCache := a } { t with fatCache := b } := ⟨h.disk, h.hint, h.log⟩

structure Sim (g : Geometry) (s t : Fs) : Prop where
  twin : Twin s t
  left : Sound g s
  right : Sound g t

/-- both runs of `m` come to one result, and `P` holds of it and of the first state after it. -/
abbrev Unseen (v : Volume) {α : Type} (m : Op α) (s t : Fs) (P : α → Fs → Prop) : Prop :=
  Matches (Sim v.geo) m m s t P

/-! ## Accesses -/

section Accesses

theorem twin_word (h : Twin s t) (bits n : Nat) :
    Matches Twin (word bits n) (word bits n) s t fun _ _ => True := by
  refine .of_eq (word_apply bits n s) (word_apply bits n t) ?_ fun _ _ => trivial
  split
  · exact h
  · exact h.record _

variable (hv : v.toDevice.Blind)
include hv

theorem twin_readSector (h : Twin s t) (area : Area) (lba : Nat) :
    Matches Twin (v.readSector area lba) (v.readSector area lba) s t fun _ _ => True := by
  have hsame := hv.same _ _ (.read area lba) h.log
  cases hf : v.fails s.log (.read area lba) with
  | true =>
    exact .of_eq (readSector_of_fails hf) (readSector_of_fails (hsame ▸ hf)) (h.record _) fun _ _ => trivial
  | false =>
    refine .of_eq (readSector_of_passes hf) ?_ (h.record _) fun _ _ => trivial
    rw [readSector_of_passes (hsame ▸ hf), h.disk]

theorem twin_writeSector (h : Twin s t) (area : Area) (lba : Nat) (b : Sector) :
    Matches Twin (v.writeSector area lba b) (v.writeSector area lba b) s t fun _ _ => True := by
  have hsame := hv.same _ _ (.write area lba b) h.log
  cases hf : v.fails s.log (.write area lba b) with
  | true =>
    exact .of_eq (writeSector_of_fails hf) (writeSector_of_fails (hsame ▸ hf)) (h.record _) fun _ _ => trivial
  | false =>
    refine .of_eq (writeSector_of_passes hf) (writeSector_of_passes (hsame ▸ hf)) ?_ fun _ _ => trivial
    exact ⟨by rw [Fs.written, Fs.written, h.disk], h.hint, (h.record _).log⟩

omit hv in
theorem Sim.lift (fits : g.Fits reserved total) {m : Op α}
    {Q Q' : α → Fs → Prop} (h : Sim g s t) (hm : Matches Twin m m s t fun _ _ => True) (hs : Goes g total m s Q)
    (ht : Goes g total m t Q') : Matches (Sim g) m m s t Q := by
  have hleft : Steps g total s (m s).2 ∧ ∀ a, (m s).1 = .ok a → Q a (m s).2 := by
    rcases hr : m s with ⟨e | a, u⟩
    · exact ⟨hs.sat.error hr, nofun⟩
    · exact ⟨(hs.sat.ok hr).1, fun b hb => by cases hb; exact (hs.sat.ok hr).2⟩
  have hright : Steps g total t (m t).2 := by
    rcases hr : m t with ⟨e | a, u⟩
    · exact ht.sat.error hr
    · exact (ht.sat.ok hr).1
  exact ⟨hm.result, ⟨hm.states, hleft.1.sound fits h.left, hright.sound fits h.right⟩, hleft.2⟩

omit hv in
theorem matches_goes {m n : Op α} {P Q : α → Fs → Prop}
    (hm : Matches (Sim g) m n s t P) (hs : Goes g total m s Q) : Matches (Sim g) m n s t Q :=
  ⟨hm.result, hm.states, fun _ ha => (hs.sat.ok (Prod.ext ha rfl)).2⟩

end Accesses

/-! ## The table -/

section Table
variable (hv : v.toDevice.Blind) (fits : v.geo.Fits reserved total)

theorem twin_fatPlaceIn (h : Twin s t) (copy c : Nat) :
    Matches Twin (v.fatPlaceIn copy c) (v.fatPlaceIn copy c) s t fun _ _ => True :=
  (twin_word h _ _).bind fun _ _ _ h _ => (twin_word h _ _).bind fun _ _ _ h _ =>
    (twin_word h _ _).bind fun _ _ _ h _ => (twin_word h _ _).bind fun _ _ _ h _ => .pure h trivial

include hv

theorem fatSector_eq (lba : Nat) (hs : Coherent v.geo s) :
    ∃ u, v.fatSector lba s = (.ok (s.disk lba), u) ∧ ∀ t, Twin s t → Twin u t := by
  have hread := readSector_of_passes (d := v.toDevice) (s := s) (hv.fat s.log lba)
  have hfetch : fatSector.fetch v lba s
      = (.ok (s.disk lba), { s.record (.read .fat lba) with fatCache := some (lba, s.disk lba) }) := by
    unfold fatSector.fetch
    rw [bind_ok hread]
    rfl
  have htwin (t : Fs) (h : Twin s t) :
      Twin { s.record (.read .fat lba) with fatCache := some (lba, s.disk lba) } t :=
    (h.unseen_left rfl).cache _ t.fatCache
  rcases hcache : s.fatCache with _ | ⟨cached, data⟩
  · have heq : v.fatSector lba s = fatSector.fetch v lba s := by
      unfold fatSector
      rw [bind_ok (show ask _ s = (.ok none, s) by rw [ask, hcache])]
    exact ⟨_, heq.trans hfetch, htwin⟩
  · have heq : v.fatSector lba s = if cached = lba then (.ok data, s) else fatSector.fetch v lba s := by
      unfold fatSector
      rw [bind_ok (show ask _ s = (.ok (some (cached, data)), s) by rw [ask, hcache])]
      dsimp only
      split <;> rfl
    by_cases hlba : cached = lba
    · rw [if_pos hlba, (hs _ _ hcache).1, hlba] at heq
      exact ⟨s, heq, fun _ h => h⟩
    · rw [if_neg hlba] at heq
      exact ⟨_, heq.trans hfetch, htwin⟩

theorem twin_fatSector (h : Twin s t) (hs : Coherent v.geo s) (ht : Coherent v.geo t) (lba : Nat) :
    Matches Twin (v.fatSector lba) (v.fatSector lba) s t fun _ _ => True := by
  obtain ⟨u, hu, hut⟩ := fatSector_eq hv lba hs
  obtain ⟨w, hw, hwt⟩ := fatSector_eq hv lba ht
  refine .of_eq hu (by rw [hw, h.disk]) ?_ fun _ _ => trivial
  exact (hwt u (hut t h).symm).symm

include fits

section
variable (h : Sim v.geo s t)
include h

omit hv in
theorem sim_fatPlaceIn {copy : Nat} (hcopy : copy < v.geo.numFats) (hc : v.geo.inHeap c) :
    Unseen v (v.fatPlaceIn copy c) s t fun a u => a = (v.geo.fatLba copy c, c * 4 % sectorSize) ∧ Looks s u :=
  h.lift fits (twin_fatPlaceIn h.twin _ c) (goes_fatPlaceIn fits hcopy hc) (goes_fatPlaceIn fits hcopy hc)

theorem sim_fatSector (hc : v.geo.inHeap c) : let lba := v.geo.fatLba v.geo.fats.readCopy c
    Unseen v (v.fatSector lba) s t fun b u => b = s.disk lba ∧ Looks s u :=
  h.lift fits (twin_fatSector hv h.twin h.left.coherent h.right.coherent _)
    (goes_fatSector fits h.left.coherent hc)
    (goes_fatSector fits h.right.coherent hc)

theorem sim_fatEntry (c : Nat) : Unseen v (v.fatEntry c) s t fun a u =>
      v.geo.inHeap c ∧ a = v.geo.table s.disk c ∧ Looks s u := by
  refine .ite (fun hc => ?_) fun _ => .fail h
  refine (sim_fatPlaceIn fits h fits.live hc).bind fun a u w h hu => ?_
  obtain ⟨rfl, hl⟩ := hu
  refine (sim_fatSector hv fits h hc).bind fun b x y h hx => .pure h ⟨hc, ?_, hl.trans hx.2⟩
  rw [hx.1, hl.disk, Geometry.table, if_pos hc, Geometry.rawEntry]

theorem sim_nextCluster (c : Nat) : Unseen v (v.nextCluster c) s t fun a u =>
      v.geo.inHeap c ∧ a = v.geo.next (v.geo.table s.disk) c ∧ Looks s u :=
  (sim_fatEntry hv fits h c).bind fun _ _ _ h hu => .pure h ⟨hu.1, by rw [hu.2.1, Geometry.next], hu.2.2⟩

end

omit fits in
theorem twin_mirror (h : Twin s t) (c : Nat) (b : Sector) :
    Matches Twin (v.mirror c b) (v.mirror c b) s t fun _ _ => True := by
  unfold mirror
  split
  · exact .pure h trivial
  · refine .each h fun i _ s t h => ?_
    exact (twin_fatPlaceIn h i c).bind fun a u w h _ => twin_writeSector hv h _ _ _

variable (h : Sim v.geo s t)
include h

omit hv in
theorem sim_dropCursors (next : Option Nat) :
    Unseen v (Volume.dropCursors next) s t fun _ u => u.disk = s.disk := by
  refine .mono (h.lift fits ?_ goes_dropCursors goes_dropCursors) fun _ _ hu => hu.1
  exact .ite (fun _ => .change ⟨h.twin.disk, h.twin.hint, h.twin.log⟩ trivial) fun _ =>
    Matches.pure h.twin trivial

theorem sim_writeFatEntry (c value : Nat) :
    Unseen v (v.writeFatEntry c value) s t fun _ u => Entered v.geo c value s u := by
  refine h.lift fits ?_ (goes_writeFatEntry fits h.left.coherent) (goes_writeFatEntry fits h.right.coherent)
  refine .ite (fun hc => ?_) fun _ => .fail h.twin
  refine (sim_nextCluster hv fits h c).bind_weaken (fun _ _ h => h.twin) fun next u w h _ => ?_
  refine (sim_dropCursors fits h next).bind_weaken (fun _ _ h => h.twin) fun _ u w h _ => ?_
  refine (sim_fatPlaceIn fits h fits.live hc).bind_weaken (fun _ _ h => h.twin) fun a u w h hu => ?_
  obtain ⟨rfl, -⟩ := hu
  refine (sim_fatSector hv fits h hc).bind_weaken (fun _ _ h => h.twin) fun buf u w h _ => ?_
  -- from here on the cache lags behind the disk
  refine (twin_writeSector hv h.twin _ _ _).bind fun _ u w h _ => ?_
  refine (Matches.change (P := fun _ _ => True) (h.cache _ _) trivial).bind fun _ u w h _ => ?_
  exact twin_mirror hv h c _

theorem sim_firstFree (l : List Nat) : Unseen v (v.firstFree l) s t fun _ _ => True := by
  induction l generalizing s t with
  | nil => exact .fail h
  | cons c rest ih =>
    refine (sim_fatEntry hv fits h c).bind fun a u w h _ => ?_
    refine .ite (fun _ => ?_) fun _ => ih h
    have hnext : Sim v.geo { u with nextFreeHint := c + 1 } { w with nextFreeHint := c + 1 } :=
      ⟨⟨h.twin.disk, rfl, h.twin.log⟩, h.left.of_table h.left.coherent rfl rfl rfl,
        h.right.of_table h.right.coherent rfl rfl rfl⟩
    exact (Matches.change (P := fun _ _ => True) hnext trivial).bind fun _ _ _ h _ => .pure h trivial

theorem sim_findFreeCluster : Unseen v v.findFreeCluster s t fun a u =>
      v.geo.inHeap a ∧ v.geo.table s.disk a = 0 ∧ Looks s u := by
  refine matches_goes (P := fun _ _ => True) ?_ (goes_findFreeCluster fits h.left.coherent)
  exact (Matches.ask (P := fun _ _ => True) h h.twin.hint trivial).bind fun hint u w h _ =>
    sim_firstFree hv fits h _

end Table

/-! ## Walks -/

section Walks
variable (hv : v.toDevice.Blind) (fits : v.geo.Fits reserved total) {lba : Nat}
include fits

theorem sim_clusterToLba (h : Sim v.geo s t) (c : Nat) : Unseen v (v.clusterToLba c) s t fun a u =>
      v.geo.inHeap c ∧ a = v.geo.dataLba c 0 ∧ Looks s u := by
  refine h.lift fits ?_ (goes_clusterToLba fits) (goes_clusterToLba fits)
  refine .ite (fun _ => ?_) fun _ => .fail h.twin
  exact (twin_word h.twin _ _).bind fun _ _ _ h _ => twin_word h _ _

theorem sim_sectorAt (h : Sim v.geo s t) {k : Nat} (hc : v.geo.inHeap c) (hk : k < v.geo.sectorsPerCluster) :
    Unseen v (Volume.sectorAt (v.geo.dataLba c 0) k) s t fun a u => a = v.geo.dataLba c k ∧ Looks s u :=
  h.lift fits (twin_word h.twin _ _) (goes_sectorAt fits hc hk) (goes_sectorAt fits hc hk)

theorem sim_u64 (h : Sim v.geo s t) {n : Nat} (hn : n < 2 ^ 64) :
    Unseen v (u64 n) s t fun a u => a = n ∧ u = s :=
  h.lift fits (twin_word h.twin _ _) (goes_u64 hn) (goes_u64 hn)

include hv

theorem sim_readData (h : Sim v.geo s t) (hd : v.geo.IsData lba) :
    Unseen v (v.readSector .data lba) s t fun b u => b = s.disk lba ∧ Looks s u :=
  h.lift fits (twin_readSector hv h.twin _ _) (goes_readData hd) (goes_readData hd)

theorem sim_writeData (h : Sim v.geo s t) (hd : v.geo.IsData lba) (b : Sector) :
    Unseen v (v.writeSector .data lba b) s t fun _ u => Keeps v.geo s u :=
  (h.lift fits (twin_writeSector hv h.twin _ _ b) (goes_writeData fits hd) (goes_writeData fits hd)).mono
    fun _ _ hu => hu.2

section Scan
variable {ρ : Type} {look : α → Sector → Place → α ⊕ ρ}

theorem sim_scanSectors (h : Sim v.geo s t) (hc : v.geo.inHeap c) {l : List Nat}
    (hl : ∀ k ∈ l, k < v.geo.sectorsPerCluster) (a : α) :
    Unseen v (v.scanSectors look (v.geo.dataLba c 0) l a) s t
      fun _ _ => True := by
  induction l generalizing s t a with
  | nil => exact .pure h trivial
  | cons k rest ih =>
    have hk := hl k mem_cons_self
    refine (sim_sectorAt fits h hc hk).bind fun lba u w h hu => ?_
    obtain ⟨rfl, -⟩ := hu
    refine (sim_readData hv fits h (isData_dataLba hc hk)).bind fun buf u w h _ => ?_
    split
    · exact ih h (fun j hj => hl j (mem_cons_of_mem k hj)) _
    · exact .pure h trivial

theorem sim_scanFrom {atEnd : Nat → α → Op (Nat ⊕ ρ)}
    (hend : ∀ s t c a, Sim v.geo s t → Unseen v (atEnd c a) s t fun _ _ => True)
    (h : Sim v.geo s t) (fuel c : Nat) (a : α) :
    Unseen v (v.scanFrom look atEnd fuel c a) s t fun _ _ => True := by
  induction fuel generalizing s t c a with
  | zero => exact .fail h
  | succ fuel ih =>
    refine (sim_clusterToLba fits h c).bind fun lba u w h hu => ?_
    obtain ⟨hc, rfl, -⟩ := hu
    refine (sim_scanSectors hv fits h hc (fun k hk => mem_range.1 hk) a).bind fun x u w h _ => ?_
    rcases x with a | r
    · refine (sim_nextCluster hv fits h c).bind fun next u w h _ => ?_
      split
      · exact ih h _ _
      refine (hend u w c a h).bind fun x u w h _ => ?_
      rcases x with next | r
      · exact ih h _ _
      · exact .pure h trivial
    · exact .pure h trivial

end Scan

theorem sim_lookup (h : Sim v.geo s t) (c : Nat) (name : Bytes) : Unseen v (v.lookup c name) s t fun x u =>
      (∀ e p, x = some (e, p) → v.geo.IsData p.lba ∧ e.size < 2 ^ 32) ∧ Looks s u := by
  refine matches_goes (P := fun _ _ => True) ?_ (goes_lookup fits h.left.coherent)
  exact sim_scanFrom hv fits (fun _ _ _ _ h => .pure h trivial) h _ _ _

theorem sim_findFrom (h : Sim v.geo s t) (l : List Bytes) (e : DirEntry) :
    Unseen v (v.findFrom l e) s t fun _ _ => True := by
  induction l generalizing s t e with
  | nil => exact .pure h trivial
  | cons name rest ih =>
    refine .ite (fun _ => .fail h) fun _ => ?_
    refine (sim_lookup hv fits h _ name).bind fun x u w h _ => ?_
    split
    · exact ih h _
    · exact .fail h

theorem sim_findDir (h : Sim v.geo s t) (path : Bytes) : Unseen v (v.findDir path) s t fun _ _ => True :=
  (sim_findFrom hv fits h _ _).bind fun _ _ _ h _ =>
    Matches.ite (fun _ => .fail h) fun _ => .pure h trivial

end Walks

/-! ## From the head of a chain -/

/-- a walk to the cluster that holds `target`: it goes on with what `step` finds after each one. -/
structure Stride (v : Volume) {α : Type} (target : Nat) (walk : Nat → Nat → Nat → Op α)
    (step : Nat → (Nat → Op α) → Op α) (stay : Nat → Nat → α) : Prop where
  spent : ∀ c pos, walk 0 c pos = Try.fail .spent
  round : ∀ fuel c pos, walk (fuel + 1) c pos = u64 (pos + v.geo.clusterBytes) >>= fun stop =>
    if stop ≤ target then step c fun next => walk fuel next stop else pure (stay c pos)
  link : ∀ {s c n} k, Sound v.geo s → v.geo.next (v.geo.table s.disk) c = some n →
    ∃ u, step c k s = k n u ∧ Sound v.geo u ∧ u.disk = s.disk ∧ ∀ t, Twin s t → Twin u t
  sim : ∀ {s t} c {k}, Sim v.geo s t → (∀ n u w, Sim v.geo u w → Unseen v (k n) u w fun _ _ => True) →
    Unseen v (step c k) s t fun _ _ => True

structure Calm {α : Type} (m : Op α) (s : Fs) : Prop where
  yields : ∃ a u, m s = (.ok a, u) ∧ ∀ t, Twin s t → Twin u t

section Calm
variable {β : Type} {m : Op α}

theorem Calm.pure (a : α) : Calm (Pure.pure a : Op α) s := ⟨a, s, rfl, fun _ h => h⟩

theorem Calm.bind {f : α → Op β} (h : Calm m s) (hf : ∀ a u, m s = (.ok a, u) → Calm (f a) u) :
    Calm (m >>= f) s := by
  obtain ⟨a, u, hm, hu⟩ := h.yields
  obtain ⟨b, w, hfa, hw⟩ := (hf a u hm).yields
  exact ⟨b, w, (bind_ok hm).trans hfa, fun t ht => hw t (hu t ht)⟩

theorem calm_word (bits n : Nat) (s : Fs) : Calm (word bits n) s := by
  refine ⟨_, _, word_apply bits n s, fun t h => ?_⟩
  split
  · exact h
  · exact h.unseen_left rfl

theorem calm_fatPlaceIn (v : Volume) (copy c : Nat) (s : Fs) : Calm (v.fatPlaceIn copy c) s :=
  (calm_word _ _ _).bind fun _ _ _ => (calm_word _ _ _).bind fun _ _ _ => (calm_word _ _ _).bind fun _ _ _ =>
    (calm_word _ _ _).bind fun _ _ _ => .pure _

variable (hv : v.toDevice.Blind) (fits : v.geo.Fits reserved total) {n target : Nat}
include hv fits

theorem calm_nextCluster (hs : Coherent v.geo s) (hc : v.geo.inHeap c) : Calm (v.nextCluster c) s := by
  have hentry : Calm (v.fatEntry c) s := by
    unfold fatEntry
    rw [if_pos hc]
    refine (calm_fatPlaceIn v _ c s).bind fun a u hu => ?_
    have hcoh := ((goes_fatPlaceIn fits fits.live hc).ok fits hs hu).1
    refine .bind (m := v.fatSector a.1) ?_ fun _ _ _ => .pure _
    obtain ⟨w, hw, habsorb⟩ := fatSector_eq hv a.1 hcoh
    exact ⟨_, w, hw, habsorb⟩
  exact hentry.bind fun _ _ _ => .pure _

omit hv fits in
theorem inHeap_of_next {disk : Nat → Sector} (h : v.geo.next (v.geo.table disk) c = some n) :
    v.geo.inHeap c := by
  by_contra hc
  rw [Geometry.next, Geometry.table, if_neg hc, link_of_endsWalk (by decide)] at h
  cases h

theorem nextCluster_eq (hs : Sound v.geo s) (hn : v.geo.next (v.geo.table s.disk) c = some n) :
    ∃ u, v.nextCluster c s = (.ok (some n), u) ∧ Sound v.geo u ∧ u.disk = s.disk ∧ ∀ t, Twin s t → Twin u t := by
  obtain ⟨a, u, hu, habsorb⟩ := (calm_nextCluster hv fits hs.coherent (inHeap_of_next hn)).yields
  obtain ⟨hsteps, -, rfl, hl⟩ := (goes_nextCluster fits hs.coherent).sat.ok hu
  exact ⟨u, by rw [hu, hn], hsteps.sound fits hs, hl.disk, habsorb⟩

theorem stride_seek (offset : Nat) : Stride v offset (v.seek offset)
    (fun c k => v.nextCluster c >>= fun next => match next with | some n => k n | none => pure none)
    fun c pos => some (c, pos) where
  spent _ _ := rfl
  round _ _ _ := rfl
  link k hs hn := by
    obtain ⟨u, hu, hrest⟩ := nextCluster_eq hv fits hs hn
    exact ⟨u, bind_ok hu, hrest⟩
  sim c _ h hk := by
    refine (sim_nextCluster hv fits h c).bind fun next u w h _ => ?_
    split
    · exact hk _ u w h
    · exact .pure h trivial

section Stride
variable {walk : Nat → Nat → Nat → Op α} {step : Nat → (Nat → Op α) → Op α} {stay : Nat → Nat → α}
variable (hw : Stride v target walk step stay) (htarget : target < 2 ^ 63 + 2 ^ 40)
include hw htarget
omit hv

theorem walk_fuel {f f' : Nat} (hpos : pos ≤ target) (hf : target - pos < f) (hf' : target - pos < f') :
    walk f c pos s = walk f' c pos s := by
  have hcb := clusterBytes_lt fits
  have hcb0 := clusterBytes_pos fits
  induction f generalizing f' c pos s with
  | zero => omega
  | succ f ih =>
    obtain ⟨f', rfl⟩ := exists_eq_add_one_of_ne_zero (ne_zero_of_lt hf')
    rw [hw.round, hw.round, bind_ok (u64_eq (by omega) s), bind_ok (u64_eq (by omega) s)]
    by_cases hle : pos + v.geo.clusterBytes ≤ target
    · rw [if_pos hle, if_pos hle]
      congr 2
      funext n u
      exact ih hle (by omega) (by omega)
    · rw [if_neg hle, if_neg hle]

omit fits in
theorem from_head (hs : Sound v.geo s) (hreach : v.geo.reach (v.geo.table s.disk) head n = some c)
    (hle : n * v.geo.clusterBytes ≤ target) (fuel : Nat) :
    ∃ u, walk (n + fuel) head 0 s = walk fuel c (n * v.geo.clusterBytes) u
      ∧ Sound v.geo u ∧ u.disk = s.disk ∧ ∀ t, Twin s t → Twin u t := by
  induction n generalizing c fuel with
  | zero =>
    cases hreach
    exact ⟨s, by rw [zero_add, zero_mul], hs, rfl, fun _ h => h⟩
  | succ n ih =>
    obtain ⟨b, hb, hn⟩ := Option.bind_eq_some_iff.1 hreach
    rw [succ_mul] at hle
    obtain ⟨u, hu, hsu, hdu, habs⟩ := ih hb (by omega) (fuel + 1)
    rw [← hdu] at hn
    obtain ⟨w, hw', hsw, hdw, habs'⟩ := hw.link (fun next => walk fuel next _) hsu hn
    refine ⟨w, ?_, hsw, hdw.trans hdu, fun t ht => habs' t (habs t ht)⟩
    rw [show n + 1 + fuel = n + (fuel + 1) by omega, hu, hw.round, bind_ok (u64_eq (by omega) u),
      if_pos hle, hw', succ_mul]

theorem sim_walk_same (h : Sim v.geo s t) (fuel c : Nat) (hpos : pos ≤ target) :
    Unseen v (walk fuel c pos) s t fun _ _ => True := by
  have hcb := clusterBytes_lt fits
  induction fuel generalizing s t c pos with
  | zero => exact hw.spent c pos ▸ Matches.fail h
  | succ fuel ih =>
    rw [hw.round]
    refine (sim_u64 fits h (by omega)).bind fun stop u w h hu => ?_
    exact .ite (fun hle => hw.sim c h fun n _ _ h => ih h n hle) fun _ => .pure h trivial

end Stride

end Calm

/-! ## Reads -/

theorem Sim.refl (h : Sound g s) : Sim g s s := ⟨⟨rfl, rfl, rfl⟩, h, h⟩

theorem Sim.symm (h : Sim g s t) : Sim g t s := ⟨h.twin.symm, h.right, h.left⟩

theorem Sim.trans {u : Fs} (h : Sim g s t) (k : Sim g t u) : Sim g s u :=
  ⟨⟨h.twin.disk.trans k.twin.disk, h.twin.hint.trans k.twin.hint, h.twin.log.trans k.twin.log⟩, h.left, k.right⟩

section Reads
variable (hv : v.toDevice.Blind) (fits : v.geo.Fits reserved total) {want : Nat}
include hv fits

omit hv in
theorem sim_walk {walk : Nat → Nat → Nat → Op α} {step : Nat → (Nat → Op α) → Op α}
    {stay : Nat → Nat → α} {target : Nat} (hw : Stride v target walk step stay)
    (htarget : target < 2 ^ 63 + 2 ^ 40) (h : Sim v.geo s t)
    {c' pos' : Nat} (hat : v.geo.At (v.geo.table s.disk) ⟨head, c, pos⟩)
    (hat' : v.geo.At (v.geo.table t.disk) ⟨head, c', pos'⟩) (hpos : pos ≤ target) (hpos' : pos' ≤ target) :
    Matches (Sim v.geo) (walk (target + 1) c pos) (walk (target + 1) c' pos') s t fun _ _ => True := by
  -- each walk is compared with the one from the head of the chain
  have hhead : ∀ {s t c pos}, Sim v.geo s t → v.geo.At (v.geo.table t.disk) ⟨head, c, pos⟩ → pos ≤ target →
      Matches (Sim v.geo) (walk (target + 1) c pos) (walk (target + 1) head 0) s t fun _ _ => True := by
    intro s t c _ h hat hpos
    obtain ⟨n, rfl, hreach⟩ := hat
    have hn : n ≤ n * v.geo.clusterBytes := Nat.le_mul_of_pos_right n (clusterBytes_pos fits)
    obtain ⟨u, hu, hsu, -, habs⟩ := from_head hw htarget h.right hreach hpos (target + 1 - n)
    have heq : walk (target + 1) head 0 t = walk (target + 1) c (n * v.geo.clusterBytes) u := by
      rw [show target + 1 = n + (target + 1 - n) by omega, hu]
      exact walk_fuel fits hw htarget hpos (by omega) (by omega)
    have hrun := sim_walk_same fits hw htarget ⟨(habs s h.twin.symm).symm, h.left, hsu⟩ (target + 1) c hpos
    exact ⟨by rw [heq]; exact hrun.result, by rw [heq]; exact hrun.states, fun _ _ => trivial⟩
  have hleft := hhead h (h.twin.disk ▸ hat) hpos
  have hright := hhead (Sim.refl h.right) hat' hpos'
  exact ⟨hleft.result.trans hright.result.symm, hleft.states.trans hright.states.symm, fun _ _ => trivial⟩

variable (h : Sim v.geo s t) {fuel : Nat}
include h

theorem sim_seek {c' pos' : Nat}
    (hat : v.geo.At (v.geo.table s.disk) ⟨head, c, pos⟩) (hat' : v.geo.At (v.geo.table t.disk) ⟨head, c', pos'⟩)
    (hpos : pos ≤ offset) (hpos' : pos' ≤ offset) (hoffset : offset < 2 ^ 63) :
    Matches (Sim v.geo) (v.seek offset (offset + 1) c pos) (v.seek offset (offset + 1) c' pos') s t fun x u =>
      Looks s u ∧ ∀ c pos, x = some (c, pos) →
        v.geo.At (v.geo.table s.disk) ⟨head, c, pos⟩ ∧ pos ≤ offset ∧ offset < pos + v.geo.clusterBytes := by
  refine matches_goes (P := fun _ _ => True) ?_ (goes_seek fits h.left.coherent hat hpos hoffset)
  exact sim_walk fits (stride_seek hv fits offset) (by omega) h hat hat' hpos hpos'

theorem sim_copySectors (hc : v.geo.inHeap c) (hpos : pos < 2 ^ 63)
    {l : List Nat} (hl : ∀ k ∈ l, k < v.geo.sectorsPerCluster) (out : Bytes) :
    let m := v.copySectors offset want (v.geo.dataLba c 0) pos l out
    Unseen v m s t fun _ _ => True := by
  induction l generalizing s t out with
  | nil => exact .pure h trivial
  | cons k rest ih =>
    have hk := hl k mem_cons_self
    have hrest : ∀ j ∈ rest, j < v.geo.sectorsPerCluster := fun j hj => hl j (mem_cons_of_mem k hj)
    refine .ite (fun _ => .pure h trivial) fun _ => ?_
    have hstop : pos + k * sectorSize + sectorSize < 2 ^ 64 := by
      have hlt := fits.sectors_lt
      unfold sectorSize
      omega
    refine (sim_u64 fits h hstop).bind fun stop u w h hu => ?_
    refine .ite (fun _ => ih h hrest _) fun _ => ?_
    refine (sim_sectorAt fits h hc hk).bind fun lba u w h hu => ?_
    obtain ⟨rfl, -⟩ := hu
    exact (sim_readData hv fits h (isData_dataLba hc hk)).bind fun data u w h _ => ih h hrest _

theorem sim_copyClusters_any (hpos : pos + fuel * 2 ^ 17 < 2 ^ 63) (out : Bytes) :
    let m := v.copyClusters offset want fuel c pos out
    Unseen v m s t fun _ _ => True := by
  have hcb := clusterBytes_lt fits
  induction fuel generalizing s t c pos out with
  | zero => exact .fail h
  | succ fuel ih =>
    refine (sim_clusterToLba fits h c).bind fun lba u w h hu => ?_
    obtain ⟨hc, rfl, -⟩ := hu
    refine (sim_copySectors hv fits h hc (by omega) (fun k hk => mem_range.1 hk) out).bind fun out u w h _ => ?_
    refine .ite (fun _ => .pure h trivial) fun _ => ?_
    refine (sim_nextCluster hv fits h c).bind fun next u w h _ => ?_
    split
    · refine (sim_u64 fits h (by omega)).bind fun pos' u w h hu => ?_
      exact ih h (by omega) _
    · exact .pure h trivial

theorem sim_copyClusters (hat : v.geo.At (v.geo.table s.disk) ⟨head, c, pos⟩)
    (hpos : pos + fuel * 2 ^ 17 < 2 ^ 63) :
    let m := v.copyClusters offset want fuel c pos []
    Unseen v m s t fun x u => Looks s u ∧ v.geo.At (v.geo.table s.disk) ⟨head, x.2.1, x.2.2⟩ :=
  (matches_goes (sim_copyClusters_any hv fits h hpos [])
    (goes_copyClusters fits h.left.coherent hat hpos (zero_le _))).mono fun _ _ hu => hu.2

theorem sim_readEntry {file : DirEntry} {room : Nat} (hsize : file.size < 2 ^ 32) :
    Unseen v (v.readEntry file offset room) s t fun _ _ => True := by
  refine .ite (fun _ => .pure h trivial) fun hne => ?_
  have hoffset : offset < file.size := by omega
  obtain ⟨hat, hle⟩ := at_start h.left.readCursor file.cluster offset
  obtain ⟨hat', hle'⟩ := at_start h.right.readCursor file.cluster offset
  refine .ask_bind ?_
  refine (sim_seek hv fits h hat hat' hle hle' (by omega)).bind fun x u w h hu => ?_
  rcases x with _ | ⟨c, pos⟩
  · exact .pure h trivial
  obtain ⟨hat, hpos, -⟩ := hu.2 c pos rfl
  rw [← hu.1.disk] at hat
  refine (sim_copyClusters hv fits h hat (by omega)).bind fun x u w h hu => ?_
  have hk := hu.2
  rw [← hu.1.disk] at hk
  have hset : Sim v.geo { u with readCursor := some ⟨file.cluster, x.2.1, x.2.2⟩ }
      { w with readCursor := some ⟨file.cluster, x.2.1, x.2.2⟩ } :=
    ⟨⟨h.twin.disk, h.twin.hint, h.twin.log⟩, (Prim.readCursor hk : Prim v.geo total _ _).sound fits h.left,
      (Prim.readCursor (h.twin.disk ▸ hk) : Prim v.geo total _ _).sound fits h.right⟩
  exact (Matches.change (P := fun _ _ => True) hset trivial).bind fun _ _ _ h _ => .pure h trivial

end Reads

/-! ## Writes -/

section Writes
variable (hv : v.toDevice.Blind) (fits : v.geo.Fits reserved total) {data : Bytes}
include hv fits

variable (h : Sim v.geo s t) {oldSize : Nat} {p : Place}
include h

theorem sim_nextOrExtend (c : Nat) : Unseen v (v.nextOrExtend c) s t fun _ _ => True := by
  refine (sim_nextCluster hv fits h c).bind fun next u w h _ => ?_
  split
  · exact .pure h trivial
  refine (sim_findFreeCluster hv fits h).bind fun new u w h _ => ?_
  refine (sim_writeFatEntry hv fits h _ _).bind fun _ u w h _ => ?_
  exact (sim_writeFatEntry hv fits h _ _).bind fun _ u w h _ => .pure h trivial

omit h in
theorem stride_advance (target : Nat) : Stride v target (v.advance target) (fun c k => v.nextOrExtend c >>= k)
    fun c pos => (c, pos) where
  spent _ _ := rfl
  round _ _ _ := rfl
  link k hs hn := by
    obtain ⟨u, hu, hrest⟩ := nextCluster_eq hv fits hs hn
    refine ⟨u, bind_ok ?_, hrest⟩
    rw [nextOrExtend, bind_ok hu]
    rfl
  sim c _ h hk := (sim_nextOrExtend hv fits h c).bind fun n u w h _ => hk n u w h

theorem sim_advance {target c' pos' : Nat}
    (hat : v.geo.At (v.geo.table s.disk) ⟨head, c, pos⟩) (hat' : v.geo.At (v.geo.table t.disk) ⟨head, c', pos'⟩)
    (hpos : pos ≤ target) (hpos' : pos' ≤ target) (htarget : target < 2 ^ 63 + 2 ^ 40) :
    Matches (Sim v.geo) (v.advance target (target + 1) c pos)
      (v.advance target (target + 1) c' pos') s t fun x u =>
      v.geo.At (v.geo.table u.disk) ⟨head, x.1, x.2⟩ ∧ x.2 ≤ target ∧ target < x.2 + v.geo.clusterBytes := by
  refine matches_goes (P := fun _ _ => True) ?_ (goes_advance fits h.left.coherent hat hpos htarget)
  exact sim_walk fits (stride_advance hv fits target) htarget h hat hat' hpos hpos'

theorem sim_writeSpan {lba start n : Nat} (hd : v.geo.IsData lba) :
    let m := v.writeSpan lba start oldSize offset pos n data
    Unseen v m s t fun _ u => Keeps v.geo s u := by
  refine .ite (fun _ => sim_writeData hv fits h hd _) fun _ => .ite (fun _ => ?_) fun _ =>
    sim_writeData hv fits h hd _
  refine (sim_readData hv fits h hd).bind fun buf u w h hu => ?_
  exact (sim_writeData hv fits h hd _).mono fun _ _ hx => (hu.2.keeps _).trans hx

theorem sim_writeSpans {stop fuel clusterPos : Nat}
    (hat : v.geo.At (v.geo.table s.disk) ⟨head, c, clusterPos⟩) (hpos : clusterPos ≤ pos)
    (hstop : stop < 2 ^ 63 + 2 ^ 40) : let m := v.writeSpans oldSize offset stop data fuel pos c clusterPos
    Unseen v m s t fun x u => v.geo.At (v.geo.table u.disk) ⟨head, x.1, x.2⟩ := by
  induction fuel generalizing s t pos c clusterPos with
  | zero => exact .fail h
  | succ fuel ih =>
    refine .ite (fun hlt => ?_) fun _ => .pure h hat
    refine (sim_advance hv fits h hat (h.twin.disk ▸ hat) hpos hpos (by omega)).bind fun x u w h hu => ?_
    obtain ⟨hat, hle, hin⟩ := hu
    refine (sim_clusterToLba fits h _).bind fun lba u' w h hu => ?_
    obtain ⟨hc, rfl, hl⟩ := hu
    refine (sim_writeSpan hv fits h ⟨_, _, hc, sector_lt hle hin, .inr rfl⟩).bind fun _ y z h hy => ?_
    rw [← hl.disk, ← hy.table] at hat
    exact ih h hat (by omega)

theorem sim_patchEntryClusterSize (cluster size : Nat) (hp : v.geo.IsData p.lba) :
    let m := v.patchEntryClusterSize p cluster size
    Unseen v m s t fun _ _ => True :=
  (sim_readData hv fits h hp).bind fun _ _ _ h _ => (sim_writeData hv fits h hp _).mono fun _ _ _ => trivial

theorem sim_headCluster (c : Nat) : Unseen v (v.headCluster c) s t fun _ _ => True := by
  refine .ite (fun _ => ?_) fun _ => .pure h trivial
  refine (sim_findFreeCluster hv fits h).bind fun new u w h _ => ?_
  exact (sim_writeFatEntry hv fits h _ _).bind fun _ u w h _ => .pure h trivial

theorem sim_writeEntry {e : DirEntry} (hsize : e.size < 2 ^ 32) (hp : v.geo.IsData p.lba)
    (hdata : data.length < 2 ^ 63) :
    let m := v.writeEntry e p offset data
    Unseen v m s t fun _ _ => True := by
  refine .ite (fun _ => .fail h) fun hgap => ?_
  have hoffset : offset ≤ 2 ^ 32 + 2 ^ 20 := by
    unfold maxGapFill at hgap
    omega
  refine (sim_headCluster hv fits h _).bind fun head u w h _ => ?_
  refine (sim_u64 fits h (by omega)).bind fun stop u w h hu => ?_
  refine .ask_bind ?_
  obtain ⟨hat, hle⟩ := at_start h.left.writeCursor head (min e.size offset)
  obtain ⟨hat', hle'⟩ := at_start h.right.writeCursor head (min e.size offset)
  refine (sim_advance hv fits h hat hat' hle hle' (by omega)).bind fun x u w h hu => ?_
  refine (sim_writeSpans hv fits h hu.1 hu.2.1 (by omega)).bind fun x u w h hk => ?_
  have hset : Sim v.geo { u with writeCursor := some ⟨head, x.1, x.2⟩ }
      { w with writeCursor := some ⟨head, x.1, x.2⟩ } :=
    ⟨⟨h.twin.disk, h.twin.hint, h.twin.log⟩, (Prim.writeCursor hk : Prim v.geo total _ _).sound fits h.left,
      (Prim.writeCursor (h.twin.disk ▸ hk) : Prim v.geo total _ _).sound fits h.right⟩
  refine (Matches.change (P := fun _ _ => True) hset trivial).bind fun _ u w h _ => ?_
  exact sim_patchEntryClusterSize hv fits h _ _ hp

theorem sim_writeAt {path : Bytes} (hdata : data.length < 2 ^ 63) :
    Unseen v (v.writeAt path offset data) s t fun _ _ => True := by
  refine .ite (fun _ => .pure h trivial) fun _ => ?_
  split
  · exact .fail h
  refine (sim_findDir hv fits h _).bind fun parent u w h _ => ?_
  refine (sim_lookup hv fits h _ _).bind fun found u w h hu => ?_
  split
  · exact .fail h
  · obtain ⟨hp, hsize⟩ := hu.1 _ _ rfl
    exact .ite (fun _ => .fail h) fun _ => sim_writeEntry hv fits h hsize hp hdata

end Writes

/-! ## The driver without cursors -/

def Fs.forget (s : Fs) : Fs := { s with readCursor := none, writeCursor := none }

/-- the same result, the same disk after it, and everything but the reads of the table alike. -/
def SameRun {α : Type} (m : Op α) (s t : Fs) : Prop := (m s).1 = (m t).1 ∧ (m s).2.disk = (m t).2.disk
    ∧ (m s).2.log.filter Event.seen = (m t).2.log.filter Event.seen

theorem sameRun_of_matches {m : Op α} {P : α → Fs → Prop}
    (h : Matches (Sim g) m m s t P) : SameRun m s t := ⟨h.result, h.states.twin.disk, h.states.twin.log⟩

/-- **cursors are not seen**: after any operations a read or a write that goes on from a cursor comes to what it
comes to from the head of the chain. -/
theorem cursors_unseen {d : Device} {disk : Nat → Sector} {lba sectors : Nat} {g : Geometry} {s₀ : Fs}
    (hlba : lba < 2 ^ 32) (hmount : d.mountAt lba sectors (Fs.fresh disk) = (.ok g, s₀)) (calls : List Call)
    (htyped : ∀ c ∈ calls, c.request.Typed) (v : Volume) (hgeo : v.geo = g) (hv : v.toDevice.Blind) :
    let s := g.run calls s₀
    (∀ (file : DirEntry) (offset room : Nat), file.size < 2 ^ 32 →
      SameRun (v.readEntry file offset room) s s.forget)
      ∧ ∀ (path : Bytes) (offset : Nat) (data : Bytes), data.length < 2 ^ 63 →
        SameRun (v.writeAt path offset data) s s.forget := by
  intro s
  subst hgeo
  have fits := mountAt_fits hlba hmount
  have hs : Sound v.geo s := (run_steps fits (mountAt_sound hmount).1 htyped).sound fits (mountAt_sound hmount).1
  have hsim : Sim v.geo s s.forget := ⟨⟨rfl, rfl, rfl⟩, hs, hs.coherent, nofun, nofun⟩
  exact ⟨fun file offset room hsize => sameRun_of_matches (sim_readEntry hv fits hsim hsize),
    fun path offset data hdata => sameRun_of_matches (sim_writeAt hv fits hsim hdata)⟩

/-- `/a` made and written, so that a cursor stands at its second cluster. -/
def smallWritten : List Call :=
  [⟨sure, 9, .touch [47, 97]⟩, ⟨sure, 9, .writeAt [47, 97] 0 (List.replicate 600 65)⟩]

theorem cursors_unseen_small :
    let v : Volume := { sure with geo := smallGeo, fuel := 9 }
    let s := smallGeo.run smallWritten (sure.mountAt 0 10 (Fs.fresh small)).2
    s.writeCursor = some ⟨3, 4, 512⟩ ∧ SameRun (v.writeAt [47, 97] 600 [66]) s s.forget := by
  refine ⟨by decide +kernel, ?_⟩
  refine (cursors_unseen (by decide) (Prod.ext small_mounts rfl) smallWritten (fun c hc => ?_) _ rfl
    ⟨fun _ _ => rfl, fun _ _ _ _ => rfl⟩).2 _ _ _ (by decide)
  rcases mem_cons.1 hc with rfl | hc
  · trivial
  · rw [mem_singleton.1 hc]
    exact ⟨by decide, length_replicate.trans_lt (by decide)⟩

end Ouroboros.Fat32
