import Ouroboros.Mmu.Plans

/-!
# The page tables: one view

* `Slotted`  a region in one slot below 512 GiB, or none;
* `buildView_ok`  and that it is so;
* `buildViews_ok`  for all views, as each writes its own tables only.
-/

namespace Ouroboros.Mmu

open Kernel (Slot)
open List Option Store Pool

variable {id : TableId} {ram : Nat × Nat}

/-! ## Regions in one slot -/

def Slotted (region : Nat × Nat) : Prop :=
  region.2 = 0 ∨ region.1 % mib2 = 0 ∧ region.2 ≤ mib2 ∧ region.1 < 2 ^ 39

section Overlap
variable {region : Nat × Nat} (h : Slotted region)
include h

theorem overlaps_iff {start stop : Nat} :
    overlaps region start stop ↔ region.2 ≠ 0 ∧ region.1 < stop ∧ start < region.1 + region.2 := by
  unfold overlaps
  rw [Bool.and_eq_true, Bool.and_eq_true, decide_eq_true_iff, decide_eq_true_iff, decide_eq_true_iff, and_assoc]
  rcases h with hzero | ⟨-, hsize, hbase⟩
  · simp only [hzero, ne_eq, not_true_eq_false, false_and]
  have hadd : add64 region.1 region.2 = region.1 + region.2 := by
    unfold add64 mib2 at *
    omega
  rw [hadd]

theorem overlaps_block {block : Nat} :
    overlaps region (block * gib) (block * gib + gib) ↔ region.2 ≠ 0 ∧ block = region.1 / gib := by
  rw [overlaps_iff h]
  refine and_congr_right fun hne => ?_
  obtain ⟨haligned, hsize, -⟩ := h.resolve_left hne
  unfold gib mib2 at *
  omega

theorem overlaps_slot {k : Nat} : overlaps region (k * mib2) (k * mib2 + mib2) ↔ region.2 ≠ 0 ∧
    k * mib2 = region.1 := by
  rw [overlaps_iff h]
  refine and_congr_right fun hne => ?_
  obtain ⟨haligned, hsize, -⟩ := h.resolve_left hne
  unfold mib2 at *
  omega

theorem Slotted.block_lt (hne : region.2 ≠ 0) : region.1 / gib < entriesPerTable := by
  obtain ⟨-, -, hbase⟩ := h.resolve_left hne
  unfold gib entriesPerTable
  omega

end Overlap

/-! ## Loops over cells -/

theorem foldl_hit {α : Type} [DecidableEq α] {step : Store → α → Store} {id : TableId} {i v : Nat} {l : List α}
    {a : α} (hhit : ∀ st, step st a id i = v)
    (hmiss : ∀ st b, b ∈ l → b ≠ a → step st b id i = st id i) (st : Store) :
    l.foldl step st id i = if a ∈ l then v else st id i := by
  induction l generalizing st with
  | nil => rfl
  | cons b l ih =>
    rw [foldl_cons, ih fun st c hc => hmiss st c (mem_cons_of_mem _ hc)]
    by_cases hba : b = a
    · subst hba
      rw [hhit, ite_self, if_pos mem_cons_self]
    · rw [hmiss st b mem_cons_self hba]
      simp only [mem_cons, Ne.symm hba, false_or]

/-! ## A split block -/

section View
variable (P : Placement) (nc : NcPlan) (view : Slot) (region : Nat × Nat)

def l2Entry (base : Nat) : Nat :=
  if overlaps region base (base + mib2) then tableDesc (P.addr (.el0L3 view)) else nc.slotEntry P base

def l1Entry (block : Nat) : Nat :=
  if overlaps region (block * gib) (block * gib + gib) then tableDesc (P.addr (.el0L2 view))
  else (nc.l2ForBlock P block).getD (normalBlock (block * gib))

variable {P nc view region} {st : Store} {start i j : Nat} {block : Nat}
variable {first last : Nat} {device : Nat × Nat} {devices : List (Nat × Nat)}
    {owners : Pool Nat maxExtraL1Tables}

theorem mapSlot_l2 : mapSlot P nc view region start st i (.el0L2 view) i = l2Entry P nc view region
    (start + i * mib2) := by
  unfold mapSlot l2Entry
  split
  · exact set_same _
  · exact set_same _

theorem mapSlot_l2_other (h : j ≠ i) :
    mapSlot P nc view region start st j (.el0L2 view) i = st (.el0L2 view) i := by
  unfold mapSlot
  split
  · rw [set_other_index _ (Ne.symm h), fill_other _ (by rintro ⟨⟩)]
  · exact set_other_index _ (Ne.symm h)

theorem mapSlot_l3 (h : overlaps region (start + i * mib2) (start + i * mib2 + mib2)) :
    mapSlot P nc view region start st i (.el0L3 view) j = regionPage nc region
      (start + i * mib2 + j * 4096) := by
  unfold mapSlot
  rw [if_pos h, set_other _ (by rintro ⟨⟩), fill_same]

theorem mapSlot_l3_other (h : overlaps region (start + i * mib2) (start + i * mib2 + mib2) ≠ true) :
    mapSlot P nc view region start st i (.el0L3 view) = st (.el0L3 view) := by
  unfold mapSlot
  rw [if_neg h, set_other _ (by rintro ⟨⟩)]

theorem mapSlot_other (h2 : id ≠ .el0L2 view) (h3 : id ≠ .el0L3 view) :
    mapSlot P nc view region start st i id = st id := by
  unfold mapSlot
  split
  · rw [set_other _ h2, fill_other _ h3]
  · exact set_other _ h2

theorem mapSlots_other (h2 : id ≠ .el0L2 view) (h3 : id ≠ .el0L3 view) :
    mapSlots P nc view region start st id = st id := by
  unfold mapSlots
  exact foldl_other (fun st k => mapSlot_other h2 h3) _ st

/-! ## The blocks of RAM -/

theorem mapBlock_cases (st : Store) (hlt : block < entriesPerTable) :
    (overlaps region (block * gib) (block * gib + gib) ∧ mapBlock P nc view region st block
        = (mapSlots P nc view region (block * gib) st).set (.l1 view) block (l1Entry P nc view region block)) ∨
    (overlaps region (block * gib) (block * gib + gib) ≠ true ∧
      mapBlock P nc view region st block = st.set (.l1 view) block (l1Entry P nc view region block)) := by
  by_cases hover : overlaps region (block * gib) (block * gib + gib)
  · have hentry : l1Entry P nc view region block = tableDesc (P.addr (.el0L2 view)) := if_pos hover
    refine .inl ⟨hover, ?_⟩
    rw [mapBlock, if_neg (not_le.2 hlt), if_pos hover, hentry]
  have hentry : l1Entry P nc view region block = (nc.l2ForBlock P block).getD (normalBlock (block * gib)) :=
    if_neg hover
  refine .inr ⟨hover, ?_⟩
  rw [mapBlock, if_neg (not_le.2 hlt), if_neg hover, hentry]
  cases nc.l2ForBlock P block with
  | none => rw [getD_none]
  | some shared => rw [getD_some]

theorem mapBlock_past (st : Store) (h : entriesPerTable ≤ block) : mapBlock P nc view region st block = st := by
  unfold mapBlock
  rw [if_pos h]

theorem mapBlock_l1 (h : i < entriesPerTable) :
    mapBlock P nc view region st i (.l1 view) i = l1Entry P nc view region i := by
  rcases mapBlock_cases st h with ⟨-, heq⟩ | ⟨-, heq⟩
  · rw [heq, set_same]
  · rw [heq, set_same]

theorem mapBlock_l1_other (h : j ≠ i) : mapBlock P nc view region st j (.l1 view) i = st (.l1 view) i := by
  by_cases hlt : j < entriesPerTable
  · rcases mapBlock_cases st hlt with ⟨-, heq⟩ | ⟨-, heq⟩
    · rw [heq, set_other_index _ (Ne.symm h), mapSlots_other (by rintro ⟨⟩) (by rintro ⟨⟩)]
    · rw [heq, set_other_index _ (Ne.symm h)]
  · rw [mapBlock_past st (Nat.le_of_not_lt hlt)]

theorem mapBlock_miss (h : overlaps region (block * gib) (block * gib + gib) ≠ true)
    (h1 : id ≠ .l1 view) : mapBlock P nc view region st block id = st id := by
  by_cases hlt : block < entriesPerTable
  · rcases mapBlock_cases st hlt with ⟨hover, -⟩ | ⟨-, heq⟩
    · exact absurd hover h
    · rw [heq, set_other _ h1]
  · rw [mapBlock_past st (Nat.le_of_not_lt hlt)]

theorem mapBlock_hit (hlt : block < entriesPerTable)
    (h : overlaps region (block * gib) (block * gib + gib)) (h1 : id ≠ .l1 view) :
    mapBlock P nc view region st block id = mapSlots P nc view region (block * gib) st id := by
  rcases mapBlock_cases st hlt with ⟨-, heq⟩ | ⟨hover, -⟩
  · rw [heq, set_other _ h1]
  · exact absurd h hover

theorem mapBlock_other (h1 : id ≠ .l1 view) (h2 : id ≠ .el0L2 view) (h3 : id ≠ .el0L3 view)
    (block : Nat) : mapBlock P nc view region st block id = st id := by
  by_cases hlt : block < entriesPerTable
  · by_cases hover : overlaps region (block * gib) (block * gib + gib)
    · rw [mapBlock_hit hlt hover h1, mapSlots_other h2 h3]
    · exact mapBlock_miss hover h1
  · rw [mapBlock_past st (Nat.le_of_not_lt hlt)]

theorem mapBlock_l2 (hlt : block < entriesPerTable) (hi : i < entriesPerTable)
    (h : overlaps region (block * gib) (block * gib + gib)) :
    mapBlock P nc view region st block (.el0L2 view) i = l2Entry P nc view region (block * gib + i * mib2) := by
  rw [mapBlock_hit hlt h (by rintro ⟨⟩), mapSlots,
    foldl_hit (a := i) (fun st => mapSlot_l2) (fun st k _ hk => mapSlot_l2_other hk) st]
  exact if_pos (mem_range.2 hi)

theorem region_slot (h : Slotted region) (hne : region.2 ≠ 0) :
    region.1 / gib * gib + region.1 / mib2 % entriesPerTable * mib2 = region.1 := by
  obtain ⟨haligned, -, -⟩ := h.resolve_left hne
  unfold gib mib2 entriesPerTable at *
  omega

theorem mapBlock_l3 (h : Slotted region) (hne : region.2 ≠ 0) :
    mapBlock P nc view region st (region.1 / gib) (.el0L3 view) j = regionPage nc region
      (region.1 + j * 4096) := by
  have hlt := h.block_lt hne
  have hslot := region_slot h hne
  have hit : overlaps region (region.1 / gib * gib + region.1 / mib2 % entriesPerTable * mib2)
      (region.1 / gib * gib + region.1 / mib2 % entriesPerTable * mib2 + mib2) := by
    rw [overlaps_iff h]
    unfold gib mib2 entriesPerTable at *
    omega
  rw [mapBlock_hit hlt ((overlaps_block h).2 ⟨hne, rfl⟩) (by rintro ⟨⟩), mapSlots]
  refine (foldl_hit (a := region.1 / mib2 % entriesPerTable) (v := regionPage nc region (region.1 + j * 4096))
    (fun st => ?_) (fun st k hk hne' => ?_) st).trans (if_pos (mem_range.2 (Nat.mod_lt _ (by decide))))
  · rw [mapSlot_l3 hit, hslot]
  rw [mapSlot_l3_other fun hover => hne' ?_]
  rw [overlaps_iff h] at hover
  have hk' := mem_range.1 hk
  obtain ⟨haligned, hsize, -⟩ := h.resolve_left hne
  unfold gib mib2 entriesPerTable at *
  omega

def InRam (ram : Nat × Nat) (block : Nat) : Prop :=
  ∃ first last, ramBlocks ram = some (first, last) ∧ first ≤ block ∧ block ≤ last

theorem mapRam_eq (h : ramBlocks ram = some (first, last)) : mapRam P nc view region ram st
      = (List.range' first (last + 1 - first)).foldl (mapBlock P nc view region) st := by
  unfold mapRam
  rw [h]

theorem mapRam_none (h : ramBlocks ram = none) : mapRam P nc view region ram st = st := by
  unfold mapRam
  rw [h]

theorem mem_blocks : block ∈ List.range' first (last + 1 - first) ↔ first ≤ block ∧ block ≤ last := by
  rw [mem_range'_1]
  omega

theorem mapRam_hit {v : Nat} (hram : InRam ram block) (hhit : ∀ st, mapBlock P nc view region st block id i = v)
    (hmiss : ∀ st b, b ≠ block → mapBlock P nc view region st b id i = st id i) :
    mapRam P nc view region ram st id i = v := by
  obtain ⟨first, last, hblocks, hin⟩ := hram
  rw [mapRam_eq hblocks, foldl_hit hhit (fun st b _ hb => hmiss st b hb)]
  exact if_pos (mem_blocks.2 hin)

theorem mapRam_l1 {ram : Nat × Nat} (hi : i < entriesPerTable) (hram : InRam ram i) :
    mapRam P nc view region ram st (.l1 view) i = l1Entry P nc view region i :=
  mapRam_hit hram (fun _ => mapBlock_l1 hi) (fun _ _ hb => mapBlock_l1_other hb)

theorem mapRam_l1_other (hram : ¬ InRam ram i) :
    mapRam P nc view region ram st (.l1 view) i = st (.l1 view) i := by
  cases hblocks : ramBlocks ram with
  | none => rw [mapRam_none hblocks]
  | some span =>
    obtain ⟨first, last⟩ := span
    rw [mapRam_eq hblocks]
    -- every round is one of another block
    refine foldlRecOn (motive := fun u : Store => u (.l1 view) i = st (.l1 view) i) _ _ rfl fun u hu b hb => ?_
    refine (mapBlock_l1_other ?_).trans hu
    rintro rfl
    exact hram ⟨first, last, hblocks, mem_blocks.1 hb⟩

theorem mapRam_l2 (h : Slotted region) (hne : region.2 ≠ 0) (hram : InRam ram (region.1 / gib))
    (hi : i < entriesPerTable) :
    mapRam P nc view region ram st (.el0L2 view) i = l2Entry P nc view region
      (region.1 / gib * gib + i * mib2) := by
  refine mapRam_hit hram (fun st => mapBlock_l2 (h.block_lt hne) hi ((overlaps_block h).2 ⟨hne, rfl⟩))
    fun st b hb => ?_
  rw [mapBlock_miss (fun hover => hb ((overlaps_block h).1 hover).2) (by rintro ⟨⟩)]

theorem mapRam_l3 (h : Slotted region) (hne : region.2 ≠ 0) (hram : InRam ram (region.1 / gib)) :
    mapRam P nc view region ram st (.el0L3 view) j = regionPage nc region (region.1 + j * 4096) := by
  refine mapRam_hit hram (fun st => mapBlock_l3 h hne) fun st b hb => ?_
  rw [mapBlock_miss (fun hover => hb ((overlaps_block h).1 hover).2) (by rintro ⟨⟩)]

theorem mapRam_other (h1 : id ≠ .l1 view) (h2 : id ≠ .el0L2 view)
    (h3 : id ≠ .el0L3 view) : mapRam P nc view region ram st id = st id := by
  cases hblocks : ramBlocks ram with
  | none => rw [mapRam_none hblocks]
  | some span =>
    rw [mapRam_eq hblocks]
    exact foldl_other (fun st b => mapBlock_other h1 h2 h3 b) _ st

/-! ## The devices and the L0 -/

theorem mapSpanDevice_other (h1 : id ≠ .l1 view) (device : Nat × Nat) :
    mapSpanDevice view st device id = st id := by
  unfold mapSpanDevice
  split
  · exact set_other _ h1
  · rfl

theorem linkExtra_other (h0 : id ≠ .l0 view) (entry : Fin maxExtraL1Tables × Nat) :
    linkExtra P view st entry id = st id := by
  unfold linkExtra
  split
  · exact set_other _ h0
  · rfl

theorem mapSpanDevice_mapped (h : st (.l1 view) i ≠ 0) :
    mapSpanDevice view st device (.l1 view) i = st (.l1 view) i := by
  unfold mapSpanDevice
  split
  · rename_i hzero
    refine set_other_index _ ?_
    rintro rfl
    exact h hzero
  · rfl

theorem mapSpanDevices_mapped (h : st (.l1 view) i ≠ 0) :
    devices.foldl (mapSpanDevice view) st (.l1 view) i = st (.l1 view) i :=
  foldlRecOn (motive := fun u : Store => u (.l1 view) i = st (.l1 view) i) devices _ rfl fun _ hu _ _ =>
    (mapSpanDevice_mapped (hu ▸ h)).trans hu

theorem mapSpanDevice_isDevice (hdev : device.1 = device.2 / gib ∧ device.2 < 2 ^ 48)
    (h : IsDevice i (st (.l1 view) i)) : IsDevice i (mapSpanDevice view st device (.l1 view) i) := by
  unfold mapSpanDevice
  split
  · by_cases hi : i = device.1
    · subst hi
      rw [set_same]
      exact .inr ⟨device.2, hdev.2, hdev.1.symm, rfl⟩
    · rwa [set_other_index _ hi]
  · exact h

theorem mapSpanDevices_isDevice
    (hdev : ∀ d, d ∈ devices → d.1 = d.2 / gib ∧ d.2 < 2 ^ 48) (h : IsDevice i (st (.l1 view) i)) :
    IsDevice i (devices.foldl (mapSpanDevice view) st (.l1 view) i) :=
  foldlRecOn (motive := fun u : Store => IsDevice i (u (.l1 view) i)) devices _ h fun _ hu d hd =>
    mapSpanDevice_isDevice (hdev d hd) hu

theorem linkExtras_owned {slot : Fin maxExtraL1Tables}
    (h : owners.owner slot = some i) (hi : i < entriesPerTable) :
    owners.entries.foldl (linkExtra P view) st (.l0 view) i = tableDesc (P.addr (.extraL1 slot)) := by
  have hmem : (slot, i) ∈ owners.entries := mem_entries.2 h
  refine (foldl_hit (a := (slot, i)) (fun st => ?_) (fun st e he hne => ?_) st).trans (if_pos hmem)
  · rw [linkExtra, if_pos hi, set_same]
  obtain ⟨slot', k⟩ := e
  have hki : k ≠ i := by
    rintro rfl
    have hslot := index?_eq_some.2 (mem_entries.1 he)
    rw [index?_eq_some.2 h] at hslot
    exact hne (congrArg (·, k) (Option.some.inj hslot).symm)
  unfold linkExtra
  split
  · exact set_other_index _ (Ne.symm hki)
  · rfl

theorem linkExtras_free (h : i ∉ owners.keys) :
    owners.entries.foldl (linkExtra P view) st (.l0 view) i = st (.l0 view) i := by
  refine foldlRecOn (motive := fun u : Store => u (.l0 view) i = st (.l0 view) i) _ _ rfl fun u hu e he => ?_
  unfold linkExtra
  split
  · refine (set_other_index _ ?_).trans hu
    rintro rfl
    exact h (mem_of_owner (mem_entries.1 he))
  · exact hu

end View

/-! ## The view -/

/-- the tables of a view after `build_view`, `old` being those before and `region` what it maps. -/
structure ViewOk (P : Placement) (nc : NcPlan) (devices : DevicePlan) (ram : Nat × Nat) (view : Slot)
    (region : Nat × Nat) (old st : Store) : Prop where
  l0_zero : st (.l0 view) 0 = tableDesc (P.addr (.l1 view))
  l0_owned : ∀ slot i, devices.owners.owner slot = some i → st (.l0 view) i = tableDesc (P.addr (.extraL1 slot))
  l0_free : ∀ i, i ≠ 0 → i ∉ devices.owners.keys → st (.l0 view) i = old (.l0 view) i
  l1_ram : ∀ i, i < entriesPerTable → InRam ram i → st (.l1 view) i = l1Entry P nc view region i
  l1_rest : ∀ i, ¬ InRam ram i → IsDevice i (old (.l1 view) i) → IsDevice i (st (.l1 view) i)
  l2 : Slotted region → region.2 ≠ 0 → InRam ram (region.1 / gib) → ∀ i, i < entriesPerTable →
    st (.el0L2 view) i = l2Entry P nc view region (region.1 / gib * gib + i * mib2)
  l3 : Slotted region → region.2 ≠ 0 → InRam ram (region.1 / gib) → ∀ j,
    st (.el0L3 view) j = regionPage nc region (region.1 + j * 4096)

/-- the tables `build_view` writes. -/
def TableId.isOf (view : Slot) (id : TableId) : Prop :=
  id = .l0 view ∨ id = .l1 view ∨ id = .el0L2 view ∨ id = .el0L3 view

section Build
variable {P : Placement} {nc : NcPlan} {devices : DevicePlan} {view : Slot} {region : Nat × Nat} {st : Store}

theorem normalBlock_ne_zero (base : Nat) : normalBlock base ≠ 0 := by
  intro hzero
  exact absurd (Nat.or_eq_zero_iff.1 hzero).2 (by decide)

theorem tableDesc_ne_zero (next : Nat) : tableDesc next ≠ 0 := by
  intro hzero
  have hlow := (Nat.or_eq_zero_iff.1 hzero).1
  exact absurd hlow (by decide)

theorem l1Entry_ne_zero (block : Nat) : l1Entry P nc view region block ≠ 0 := by
  unfold l1Entry
  split
  · exact tableDesc_ne_zero _
  unfold NcPlan.l2ForBlock
  cases nc.l2Blocks.index? block with
  | none =>
    rw [map_none, getD_none]
    exact normalBlock_ne_zero _
  | some i =>
    rw [map_some, getD_some]
    exact tableDesc_ne_zero _

theorem buildView_other (h : ¬ id.isOf view) : buildView P nc devices ram view region st id = st id := by
  unfold TableId.isOf at h
  simp only [not_or] at h
  obtain ⟨h0, h1, h2, h3⟩ := h
  unfold buildView
  rw [foldl_other fun st e => linkExtra_other h0 e, set_other _ h0,
    foldl_other fun st d => mapSpanDevice_other h1 d, mapRam_other h1 h2 h3, set_other _ h1]

theorem buildView_mapped (h0 : id ≠ .l0 view) (h1 : id ≠ .l1 view) : buildView P nc devices ram view region st id
      = mapRam P nc view (mapped region) ram (st.set (.l1 view) 0 (deviceBlock 0)) id := by
  unfold buildView
  rw [foldl_other fun st e => linkExtra_other h0 e, set_other _ h0, foldl_other fun st d =>
    mapSpanDevice_other h1 d]

theorem buildView_l1 (i : Nat) : buildView P nc devices ram view region st (.l1 view) i
    = devices.l1Span.foldl (mapSpanDevice view)
        (mapRam P nc view (mapped region) ram (st.set (.l1 view) 0 (deviceBlock 0))) (.l1 view) i := by
  unfold buildView
  rw [foldl_other fun st e => linkExtra_other (by rintro ⟨⟩) e, set_other _ (by rintro ⟨⟩)]

/-- **`build_view` builds the view.** -/
theorem buildView_ok (hdev : devices.Ok) :
    ViewOk P nc devices ram view (mapped region) st (buildView P nc devices ram view region st) where
  l0_zero := by
    have hfree : (0 : Nat) ∉ devices.owners.keys := fun h => (hdev.owners 0 h).1 rfl
    rw [buildView, linkExtras_free hfree, set_same]
  l0_owned := by
    intro slot i hi
    rw [buildView, linkExtras_owned hi (hdev.owners i (mem_of_owner hi)).2]
  l0_free := by
    intro i hi hfree
    rw [buildView, linkExtras_free hfree, set_other_index _ hi,
      foldl_other fun st d => mapSpanDevice_other (by rintro ⟨⟩) d,
      mapRam_other (by rintro ⟨⟩) (by rintro ⟨⟩) (by rintro ⟨⟩), set_other _ (by rintro ⟨⟩)]
  l1_ram := by
    intro i hi hram
    have hentry := @mapRam_l1 P nc view (mapped region) (st.set (.l1 view) 0 (deviceBlock 0)) i _ hi hram
    rw [buildView_l1, mapSpanDevices_mapped (by rw [hentry]; exact l1Entry_ne_zero i), hentry]
  l1_rest := by
    intro i hram hold
    rw [buildView_l1]
    refine mapSpanDevices_isDevice (fun d hd => ⟨(hdev.l1Span d hd).1, (hdev.l1Span d hd).2.2⟩) ?_
    rw [mapRam_l1_other hram]
    by_cases hi : i = 0
    · subst hi
      rw [set_same]
      exact .inr ⟨0, by decide, by decide, rfl⟩
    · rwa [set_other_index _ hi]
  l2 := by
    intro hslot hne hram i hi
    rw [buildView_mapped (by rintro ⟨⟩) (by rintro ⟨⟩), mapRam_l2 hslot hne hram hi]
  l3 := by
    intro hslot hne hram j
    rw [buildView_mapped (by rintro ⟨⟩) (by rintro ⟨⟩), mapRam_l3 hslot hne hram]

/-! ## All views -/

theorem isOf_unique {view' : Slot} (h : id.isOf view) (h' : id.isOf view') : view = view' := by
  rcases h with rfl | rfl | rfl | rfl <;> rcases h' with h' | h' | h' | h' <;> cases h' <;> rfl

theorem ViewOk.congr {old old' st' : Store} (h : ViewOk P nc devices ram view region old st)
    (hold : ∀ id : TableId, id.isOf view → old' id = old id)
    (hst : ∀ id : TableId, id.isOf view → st' id = st id) :
    ViewOk P nc devices ram view region old' st' := by
  have h0 : st' (.l0 view) = st (.l0 view) := hst _ (.inl rfl)
  have h1 : st' (.l1 view) = st (.l1 view) := hst _ (.inr (.inl rfl))
  have h2 : st' (.el0L2 view) = st (.el0L2 view) := hst _ (.inr (.inr (.inl rfl)))
  have h3 : st' (.el0L3 view) = st (.el0L3 view) := hst _ (.inr (.inr (.inr rfl)))
  constructor
  · rw [h0]
    exact h.l0_zero
  · rw [h0]
    exact h.l0_owned
  · rw [h0, hold _ (.inl rfl)]
    exact h.l0_free
  · rw [h1]
    exact h.l1_ram
  · rw [h1, hold _ (.inr (.inl rfl))]
    exact h.l1_rest
  · rw [h2]
    exact h.l2
  · rw [h3]
    exact h.l3

section Views
variable {regions : Slot → Nat × Nat} {views : List Slot}

theorem buildViews_other {id : TableId} (h : ∀ v, v ∈ views → ¬ id.isOf v) :
    views.foldl (fun st v => buildView P nc devices ram v (regions v) st) st id = st id :=
  foldlRecOn (motive := fun u : Store => u id = st id) views _ rfl fun _ hu v hv =>
    (buildView_other (h v hv)).trans hu

/-- **Each view ends up as its own `build_view` has built it.** -/
theorem buildViews_ok (hdev : devices.Ok) (hnodup : views.Nodup) (hmem : view ∈ views) :
    ViewOk P nc devices ram view (mapped (regions view)) st
      (views.foldl (fun st v => buildView P nc devices ram v (regions v) st) st) := by
  induction views generalizing st with
  | nil => cases hmem
  | cons v views ih =>
    obtain ⟨hv, hnodup⟩ := nodup_cons.1 hnodup
    rw [foldl_cons]
    rcases mem_cons.1 hmem with rfl | hrest
    · -- the views after it leave its tables alone
      refine (buildView_ok hdev).congr (fun _ _ => rfl) fun id hid => buildViews_other ?_
      rintro w hw hid'
      obtain rfl := isOf_unique hid hid'
      exact hv hw
    · -- and so do those before it
      refine (ih hnodup hrest).congr (fun id hid => (buildView_other ?_).symm) (fun _ _ => rfl)
      intro hid'
      obtain rfl := isOf_unique hid hid'
      exact hv hrest

end Views

end Build

end Ouroboros.Mmu
