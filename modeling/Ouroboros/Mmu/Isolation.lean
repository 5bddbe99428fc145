import Ouroboros.Mmu.Views

/-!
# The page tables: what a task can reach

* `Left`  tables that are zero or left by earlier builds;
* `Built`  what the tables of all views hold after `build_tables`;
* `translate_ram`, `translate_device`  the walk of every address;
* `views_isolated`  identity, EL0 access to the task's own region only, and one memory type in all views.
-/

namespace Ouroboros.Mmu

open List Option NcPlan Pool Loader Nat Bool

open Kernel (Slot)
open Loader (guardPageAddr)
open Vmsa (Mapping)

/-! ## A build -/

/-- no words but those of devices, outside what every build writes. -/
structure Left (devices : DevicePlan) (ram : Nat × Nat) (st : Store) : Prop where
  l0 : ∀ view i, i ≠ 0 → i ∉ devices.owners.keys → st (.l0 view) i = 0
  l1 : ∀ view i, ¬ InRam ram i → IsDevice i (st (.l1 view) i)
  extra : ExtraOk devices.owners st

structure Built (P : Placement) (nc : NcPlan) (devices : DevicePlan) (ram : Nat × Nat)
    (regions : Slot → Nat × Nat) (st : Store) : Prop extends Left devices ram st where
  devices_ok : devices.Ok
  complete : nc.Complete
  nc_l3 : ∀ i base j, nc.l3Slots.owner i = some base → st (.ncL3 i) j = nc.kernelPage (base + j * 4096)
  nc_l2 : ∀ i block k, nc.l2Blocks.owner i = some block →
    st (.ncL2 i) k = nc.slotEntry P (block * gib + k * mib2)
  view : ∀ view, ∃ old, ViewOk P nc devices ram view (mapped (regions view)) old st

section Build
variable {P : Placement} {map : List MemoryDescriptor} {regions : Slot → Nat × Nat}
  {extraDevices uncached planned : List (Nat × Nat)} {st st' : Store} {devices : DevicePlan}

theorem left_zero (h : ∀ id i, st id i = 0) (ram : Nat × Nat) : Left devices ram st where
  l0 := fun _ _ _ _ => h _ _
  l1 := fun _ _ _ => .inl (h _ _)
  extra := fun _ _ _ _ => .inl (h _ _)

/-- **A build on tables that are zero or left by earlier builds.** -/
theorem buildTables_built (hplan : extraDevices.foldlM DevicePlan.add .empty = some devices)
    (hleft : Left devices (ramSpan map) st)
    (h : buildTables P map regions extraDevices uncached st = some (st', planned)) :
    ∃ nc, Built P nc devices (ramSpan map) regions st' := by
  obtain ⟨⟨devs, st₁⟩, hdevs, h₁⟩ := bind_eq_some_iff.1 h
  obtain ⟨⟨nc, st₂⟩, hnc, h₂⟩ := bind_eq_some_iff.1 h₁
  have hst' := congrArg Prod.fst (some.inj h₂)
  dsimp only at hst'
  have hok : devs.Ok := planDevices_ok DevicePlan.ok_empty hdevs
  obtain rfl : devs = devices := some.inj ((planDevices_plan hdevs).symm.trans hplan)
  unfold build at hnc
  dsimp only at hnc
  split at hnc
  · cases hnc
  cases hnc
  generalize acceptAll _ _ = accepted at *
  -- the shared tables survive the views, the view's own tables come out of its own build
  have hshared : ∀ {id : TableId}, (∀ v, ¬ id.isOf v) → st' id = (assign accepted).write P st₁ id := by
    intro id hid
    rw [← hst']
    exact buildViews_other fun v _ => hid v
  have hold : ∀ view (id : TableId), id.isOf view → (assign accepted).write P st₁ id = st id := by
    intro view id hid
    rw [write_other, planDevices_other hdevs]
    all_goals
      rintro i rfl
      rcases hid with h | h | h | h <;> cases h
  have hview : ∀ view, ViewOk P (assign accepted) devs (ramSpan map) view (mapped (regions view)) st st' := by
    intro view
    rw [← hst']
    refine (buildViews_ok hok (nodup_finRange _) (mem_finRange view)).congr ?_ (fun _ _ => rfl)
    exact fun id hid => (hold view id hid).symm
  refine ⟨assign accepted, ⟨⟨?_, ?_, ?_⟩, hok, assign_complete _, ?_, ?_, fun view => ⟨st, hview view⟩⟩⟩
  · intro view i hi hfree
    rw [(hview view).l0_free i hi hfree]
    exact hleft.l0 view i hi hfree
  · intro view i hram
    exact (hview view).l1_rest i hram (hleft.l1 view i hram)
  · intro slot k i hk
    rw [hshared (by rintro v (h | h | h | h) <;> cases h), write_other _ _ _ (by rintro j ⟨⟩) (by rintro j ⟨⟩)]
    exact planDevices_extra DevicePlan.ok_empty hdevs hleft.extra slot k i hk
  · intro i base j hi
    rw [hshared (by rintro v (h | h | h | h) <;> cases h), write_l3 _ _ _ hi]
  · intro i block k hi
    rw [hshared (by rintro v (h | h | h | h) <;> cases h), write_l2 _ _ _ hi]

end Build

/-! ## Pages -/

def pageOf (va : Nat) : Nat := va / 4096 * 4096

def wbMapping (va : Nat) : Mapping := ⟨va, mairIdxNormalWb, false, false, false⟩

def kernelMapping (nc : NcPlan) (va : Nat) : Mapping :=
  if NcPlan.pageIsNc nc.ranges (pageOf va) then ⟨va, mairIdxNormalNc, false, false, false⟩ else wbMapping va

def el0Mapping (va : Nat) : Mapping := ⟨va, mairIdxNormalWb, true, true, true⟩

def pageMapping (nc : NcPlan) (region : Nat × Nat) (va : Nat) : Mapping :=
  if some (pageOf va) = guardPageAddr region then wbMapping va
  else if overlaps region (pageOf va) (pageOf va + 4096) then el0Mapping va
  else kernelMapping nc va

section Pages
variable {mem : Vmsa.Memory} {nc : NcPlan} {region : Nat × Nat} {va : Nat} {page : Nat}
    {ranges : List (Nat × Nat)}
variable {base : Nat}

theorem pageOf_div (va : Nat) : pageOf va / 2 ^ 12 = va / 2 ^ 12 := by
  unfold pageOf
  omega

theorem pageOf_lt (hva : va < 2 ^ 48) : pageOf va < 2 ^ 64 := by
  unfold pageOf
  omega

theorem resolve_kernelPage (hva : va < 2 ^ 48) :
    Vmsa.resolve mem 0 (nc.kernelPage (pageOf va)) va = some (kernelMapping nc va) := by
  unfold kernelPage kernelMapping
  split <;>
    exact resolve_leafDesc (by decide) rfl (by decide) (by decide) hva (pageOf_lt hva) (pageOf_div va)

theorem resolve_regionPage (hva : va < 2 ^ 48) :
    Vmsa.resolve mem 0 (regionPage nc region (pageOf va)) va = some (pageMapping nc region va) := by
  unfold regionPage pageMapping
  split
  · exact resolve_leafDesc (by decide) rfl (by decide) (by decide) hva (pageOf_lt hva) (pageOf_div va)
  split
  · exact resolve_leafDesc (by decide) rfl (by decide) (by decide) hva (pageOf_lt hva) (pageOf_div va)
  · exact resolve_kernelPage hva

theorem guard_overlaps (h : Slotted region) (hguard : guardPageAddr region = some page) :
    overlaps region page (page + 4096) := by
  obtain ⟨hsize, hpage⟩ := guardPageAddr_eq_some.1 hguard
  rw [overlaps_iff h]
  unfold tailPages heapPages guardPages stackPages pageSize at *
  omega

theorem pageMapping_off (h : Slotted region) (hoff : overlaps region (pageOf va) (pageOf va + 4096) ≠ true) :
    pageMapping nc region va = kernelMapping nc va := by
  unfold pageMapping
  rw [if_neg fun hguard => hoff (guard_overlaps h hguard.symm), if_neg hoff]

theorem overlaps_of_page (h : Slotted region) (hover : overlaps region (pageOf va) (pageOf va + 4096)) :
    overlaps region (va / mib2 * mib2) (va / mib2 * mib2 + mib2) ∧
    overlaps region (va / gib * gib) (va / gib * gib + gib) := by
  rw [overlaps_iff h] at hover
  rw [overlaps_iff h, overlaps_iff h]
  unfold pageOf at hover
  unfold mib2 gib
  omega

/-! ## Slots and blocks -/

theorem pageIsNc_iff : NcPlan.pageIsNc ranges page ↔ ∃ r, r ∈ ranges ∧ r.1 ≤ page ∧ page < r.2 := by
  unfold pageIsNc
  simp only [List.any_eq_true, and_eq_true, decide_eq_true_iff]

theorem slot_none (hbase : base + mib2 < 2 ^ 64)
    (hlo : base ≤ page) (hhi : page < base + mib2) (h : NcPlan.slot ranges base = .none) :
    NcPlan.pageIsNc ranges page ≠ true := by
  intro hnc
  obtain ⟨r, hr, hstart, hstop⟩ := pageIsNc_iff.1 hnc
  have htouch : ranges.any (fun r => decide (r.1 < add64 base mib2) && decide (base < r.2)) := by
    refine any_eq_true.2 ⟨r, hr, ?_⟩
    rw [add64, mod_eq_of_lt hbase, and_eq_true, decide_eq_true_iff, decide_eq_true_iff]
    omega
  unfold slot at h
  split at h
  · cases h
  · cases h

theorem slot_full (hbase : base + mib2 < 2 ^ 64)
    (hlo : base ≤ page) (hhi : page < base + mib2) (h : NcPlan.slot ranges base = .full) :
    NcPlan.pageIsNc ranges page := by
  unfold slot at h
  split at h
  · rename_i hany
    obtain ⟨r, hr, hcover⟩ := any_eq_true.1 hany
    rw [add64, mod_eq_of_lt hbase, and_eq_true, decide_eq_true_iff, decide_eq_true_iff] at hcover
    exact pageIsNc_iff.2 ⟨r, hr, by omega, by omega⟩
  · split at h <;> cases h

end Pages

/-! ## The walk -/

section Walk
variable {P : Placement} {nc : NcPlan} {devices : DevicePlan} {ram : Nat × Nat} {regions : Slot → Nat × Nat}
  {st : Store} {rest : Vmsa.Memory} {va : Nat}

theorem translate_eq (view : Slot) (hva : va < 2 ^ 44) :
    translate P rest st view va = Vmsa.resolve (P.memory rest st) 3 (st (.l0 view) (va / 2 ^ 39 % 512)) va := by
  rw [translate, Vmsa.walk, if_pos hva, Placement.memory_addr]

theorem resolve_next {n : Nat} (id : TableId) :
    Vmsa.resolve (P.memory rest st) (n + 1) (tableDesc (P.addr id)) va
      = Vmsa.resolve (P.memory rest st) n (st id (va / 2 ^ (12 + 9 * n) % 512)) va := by
  rw [resolve_tableDesc (P.ok id), Placement.memory_addr]

theorem resolve_isDevice {d : Nat} (hva : va < 2 ^ 48) (h : IsDevice (va / gib) d) :
    Vmsa.resolve (P.memory rest st) 2 d va = none ∨
    Vmsa.resolve (P.memory rest st) 2 d va = some ⟨va, mairIdxDeviceNgnrne, false, false, false⟩ := by
  rcases h with rfl | ⟨base, hbase, hblock, rfl⟩
  · exact .inl (Vmsa.resolve_invalid (by decide))
  · refine .inr ?_
    exact resolve_leafDesc (by decide) rfl (by decide) (by decide) hva (lt_trans hbase (by decide)) hblock

theorem page_of_slot (va : Nat) : va / mib2 * mib2 + va / 2 ^ (12 + 9 * 0) % 512 * 4096 = pageOf va := by
  unfold mib2 pageOf
  omega

theorem slot_of_block (va : Nat) : va / gib * gib + va / 2 ^ (12 + 9 * 1) % 512 * mib2 = va / mib2 * mib2 := by
  unfold gib mib2
  omega

variable (h : Built P nc devices ram regions st)
include h

/-- **The shared entry of a slot maps its pages as the plan says.** -/
theorem Built.resolve_slotEntry (hva : va < 2 ^ 44) :
    Vmsa.resolve (P.memory rest st) 1 (nc.slotEntry P (va / mib2 * mib2)) va = some (kernelMapping nc va) := by
  have hbase : va / mib2 * mib2 + mib2 < 2 ^ 64 := by
    unfold mib2
    omega
  have hlo : va / mib2 * mib2 ≤ pageOf va := by
    unfold mib2 pageOf
    omega
  have hhi : pageOf va < va / mib2 * mib2 + mib2 := by
    unfold mib2 pageOf
    omega
  have hdiv : va / mib2 * mib2 / 2 ^ 21 = va / 2 ^ 21 := by
    unfold mib2
    omega
  unfold slotEntry kernelMapping
  cases hslot : slot nc.ranges (va / mib2 * mib2) with
  | none =>
    rw [if_neg (slot_none hbase hlo hhi hslot)]
    exact resolve_leafDesc (by decide) rfl (by decide) (by decide) (by omega) (by omega) hdiv
  | full =>
    rw [if_pos (slot_full hbase hlo hhi hslot)]
    exact resolve_leafDesc (by decide) rfl (by decide) (by decide) (by omega) (by omega) hdiv
  | partly =>
    obtain ⟨i, hi⟩ := exists_index? (h.complete.slots _ hslot)
    simp only [hi]
    rw [resolve_next, h.nc_l3 i _ _ (index?_eq_some.1 hi), page_of_slot, resolve_kernelPage (by omega)]
    rfl

theorem Built.translate_low (view : Slot) (hva : va < 2 ^ 39) :
    translate P rest st view va = Vmsa.resolve (P.memory rest st) 2 (st (.l1 view) (va / gib)) va := by
  obtain ⟨old, hview⟩ := h.view view
  have h0 : va / 2 ^ 39 % 512 = 0 := by omega
  have h1 : va / 2 ^ (12 + 9 * 2) % 512 = va / gib := by
    unfold gib
    omega
  rw [translate_eq view (by omega), h0, hview.l0_zero, resolve_next, h1]

/-- **An address of RAM, in the view of a task.** -/
theorem Built.translate_ram {view : Slot} (hva : va < 2 ^ 39) (hslot : Slotted (mapped (regions view)))
    (hram : InRam ram (va / gib)) :
    translate P rest st view va = some (pageMapping nc (mapped (regions view)) va) := by
  obtain ⟨old, hview⟩ := h.view view
  have hlt : va / gib < entriesPerTable := by
    unfold gib entriesPerTable
    omega
  generalize mapped (regions view) = region at *
  rw [h.translate_low view hva, hview.l1_ram _ hlt hram]
  by_cases hblock : overlaps region (va / gib * gib) (va / gib * gib + gib)
  · -- the view's own L2
    obtain ⟨hne, hb⟩ := (overlaps_block hslot).1 hblock
    have hl1 : l1Entry P nc view region (va / gib) = tableDesc (P.addr (.el0L2 view)) := if_pos hblock
    have hidx : va / 2 ^ (12 + 9 * 1) % 512 < entriesPerTable := mod_lt _ (by decide)
    rw [hl1, resolve_next, hview.l2 hslot hne (hb ▸ hram) _ hidx, ← hb, slot_of_block]
    by_cases hover : overlaps region (va / mib2 * mib2) (va / mib2 * mib2 + mib2)
    · -- and its L3
      have hbase := ((overlaps_slot hslot).1 hover).2
      have hl2 : l2Entry P nc view region (va / mib2 * mib2) = tableDesc (P.addr (.el0L3 view)) := if_pos hover
      rw [hl2, resolve_next, hview.l3 hslot hne (hb ▸ hram), ← hbase, page_of_slot,
        resolve_regionPage (by omega)]
    · have hl2 : l2Entry P nc view region (va / mib2 * mib2) = nc.slotEntry P (va / mib2 * mib2) := if_neg hover
      rw [hl2, h.resolve_slotEntry (by omega), pageMapping_off hslot fun hpage =>
        hover (overlaps_of_page hslot hpage).1]
  · have hl1 : l1Entry P nc view region (va / gib) =
        (nc.l2ForBlock P (va / gib)).getD (normalBlock (va / gib * gib)) :=
      if_neg hblock
    rw [hl1, pageMapping_off hslot fun hpage => hblock (overlaps_of_page hslot hpage).2, l2ForBlock]
    cases hl2 : nc.l2Blocks.index? (va / gib) with
    | some i =>
      -- the L2 all views share
      rw [map_some, getD_some, resolve_next, h.nc_l2 i _ _ (index?_eq_some.1 hl2), slot_of_block,
        h.resolve_slotEntry (by omega)]
    | none =>
      -- a block without non-cacheable pages
      have hnc : pageIsNc nc.ranges (pageOf va) ≠ true := by
        intro hnc
        have hpage : pageOf va / gib = va / gib := by
          unfold pageOf gib
          omega
        exact index?_eq_none.1 hl2 (hpage ▸ h.complete.blocks _ hnc)
      have hdiv : va / gib * gib / 2 ^ 30 = va / 2 ^ 30 := by
        unfold gib
        omega
      rw [map_none, getD_none, kernelMapping, if_neg hnc, normalBlock,
        resolve_leafDesc (by decide) rfl (by decide) (by decide) (by omega) (by unfold gib; omega) hdiv]
      rfl

omit h in
/-- **Any other address: unmapped, or a device.** -/
theorem Built.translate_device (h : Built P nc devices ram regions st) {view : Slot}
    (hva : 2 ^ 39 ≤ va ∨ ¬ InRam ram (va / gib)) :
    translate P rest st view va = none ∨
    translate P rest st view va = some ⟨va, mairIdxDeviceNgnrne, false, false, false⟩ := by
  obtain ⟨old, hview⟩ := h.view view
  by_cases hlow : va < 2 ^ 39
  · rw [h.translate_low view hlow]
    exact resolve_isDevice (by omega) (h.l1 view _ (hva.resolve_left (by omega)))
  by_cases hhigh : va < 2 ^ 44
  · rw [translate_eq view hhigh]
    have h0 : va / 2 ^ 39 % 512 ≠ 0 := by omega
    by_cases hkey : va / 2 ^ 39 % 512 ∈ devices.owners.keys
    · -- an extra table
      obtain ⟨slot, hslot⟩ := exists_index? hkey
      have hown := index?_eq_some.1 hslot
      rw [hview.l0_owned slot _ hown, resolve_next]
      have hdev := h.extra slot _ (va / 2 ^ (12 + 9 * 2) % 512) hown
      have hidx : va / 2 ^ 39 % 512 * entriesPerTable + va / 2 ^ (12 + 9 * 2) % 512 = va / gib := by
        unfold entriesPerTable gib
        omega
      rw [hidx] at hdev
      exact resolve_isDevice (by omega) hdev
    · rw [h.l0 view _ h0 hkey]
      exact .inl (Vmsa.resolve_invalid (by decide))
  · exact .inl (if_neg hhigh)

theorem Built.translate_high (view view' : Slot) (hva : 2 ^ 39 ≤ va) :
    translate P rest st view va = translate P rest st view' va := by
  by_cases hhigh : va < 2 ^ 44
  · rw [translate_eq view hhigh, translate_eq view' hhigh]
    have h0 : va / 2 ^ 39 % 512 ≠ 0 := by omega
    obtain ⟨old, hview⟩ := h.view view
    obtain ⟨old', hview'⟩ := h.view view'
    by_cases hkey : va / 2 ^ 39 % 512 ∈ devices.owners.keys
    · obtain ⟨slot, hslot⟩ := exists_index? hkey
      have hown := index?_eq_some.1 hslot
      rw [hview.l0_owned slot _ hown, hview'.l0_owned slot _ hown]
    · rw [h.l0 view _ h0 hkey, h.l0 view' _ h0 hkey]
  · exact (if_neg hhigh).trans (if_neg hhigh).symm

end Walk

/-! ## Isolation -/

structure RegionOk (ram region : Nat × Nat) : Prop where
  size : region.2 < 2 ^ 64
  base : region.2 = 0 ∨ region.1 % mib2 = 0 ∧ ram.1 ≤ region.1 ∧ region.1 < ram.2 ∧ region.1 < 512 * gib

def OnPage (region : Nat × Nat) (va : Nat) : Prop :=
  0 < region.2 ∧ region.1 < pageOf va + 4096 ∧ pageOf va < region.1 + region.2

instance (region : Nat × Nat) (va : Nat) : Decidable (OnPage region va) :=
  inferInstanceAs (Decidable (_ ∧ _ ∧ _))

/-- the page is one of the region's, not its guard page, and the region lies in one slot. -/
structure OwnPage (region : Nat × Nat) (va : Nat) : Prop where
  on : OnPage region va
  guard : guardPageAddr region ≠ some (pageOf va)
  slot : region.1 / mib2 = (region.1 + region.2 - 1) / mib2

section Regions
variable {ram region : Nat × Nat} {va : Nat}

theorem contained_iff (h : RegionOk ram region) (hne : region.2 ≠ 0) :
    contained region ↔ region.1 / mib2 = (region.1 + region.2 - 1) / mib2 := by
  obtain ⟨haligned, -, -, hbase⟩ := h.base.resolve_left hne
  have hsize := h.size
  unfold contained add64 sub64
  rw [or_eq_true, decide_eq_true_iff, decide_eq_true_iff]
  unfold mib2 gib at *
  omega

theorem mapped_of_contained (h : contained region) : mapped region = region := if_pos h

theorem mapped_of_not_contained (h : contained region ≠ true) : mapped region = (0, 0) := if_neg h

theorem slotted_mapped (h : RegionOk ram region) : Slotted (mapped region) := by
  by_cases hin : contained region
  · rw [mapped_of_contained hin]
    by_cases hne : region.2 = 0
    · exact .inl hne
    obtain ⟨haligned, -, -, hbase⟩ := h.base.resolve_left hne
    have hslot := (contained_iff h hne).1 hin
    refine .inr ⟨haligned, ?_, hbase⟩
    unfold mib2 at *
    omega
  · rw [mapped_of_not_contained hin]
    exact .inl rfl

theorem overlaps_mapped (h : RegionOk ram region)
    (hover : overlaps (mapped region) (pageOf va) (pageOf va + 4096)) :
    mapped region = region ∧ OnPage region va ∧ region.1 / mib2 = (region.1 + region.2 - 1) / mib2 := by
  have hmapped := (overlaps_iff (slotted_mapped h)).1 hover
  by_cases hin : contained region
  · rw [mapped_of_contained hin] at hmapped ⊢
    exact ⟨rfl, ⟨Nat.pos_of_ne_zero hmapped.1, hmapped.2⟩, (contained_iff h hmapped.1).1 hin⟩
  · rw [mapped_of_not_contained hin] at hmapped
    exact absurd rfl hmapped.1

theorem OwnPage.mapped_eq (h : RegionOk ram region) (hown : OwnPage region va) : mapped region = region :=
  mapped_of_contained ((contained_iff h (ne_of_gt hown.on.1)).2 hown.slot)

/-- **A view gives EL0 access to the region's own pages and to no other.** -/
theorem pageMapping_own (nc : NcPlan) (h : RegionOk ram region) (hown : OwnPage region va) :
    pageMapping nc (mapped region) va = el0Mapping va := by
  have hslot := slotted_mapped h
  rw [hown.mapped_eq h] at hslot ⊢
  have hover : overlaps region (pageOf va) (pageOf va + 4096) :=
    (overlaps_iff hslot).2 ⟨ne_of_gt hown.on.1, hown.on.2⟩
  rw [pageMapping, if_neg fun hguard => hown.guard hguard.symm, if_pos hover]

theorem OwnPage.block (h : RegionOk ram region) (hown : OwnPage region va) :
    va / gib = region.1 / gib ∧ va < 2 ^ 39 := by
  have hslot := slotted_mapped h
  rw [hown.mapped_eq h] at hslot
  obtain ⟨haligned, hsize, hbase⟩ := hslot.resolve_left (ne_of_gt hown.on.1)
  have hon := hown.on.2
  unfold pageOf mib2 gib at *
  omega

theorem ownPage_of_el0 {nc : NcPlan} (h : RegionOk ram region) (hel0 : (pageMapping nc (mapped region) va).el0) :
    OwnPage region va := by
  unfold pageMapping at hel0
  split at hel0
  · cases hel0
  rename_i hguard
  split at hel0
  · rename_i hover
    obtain ⟨hmapped, hon, hslot⟩ := overlaps_mapped h hover
    rw [hmapped] at hguard
    exact ⟨hon, fun hsome => hguard hsome.symm, hslot⟩
  · unfold kernelMapping at hel0
    split at hel0 <;> cases hel0

theorem pageMapping_off_region (nc : NcPlan) (h : RegionOk ram region) (hoff : ¬ OnPage region va) :
    pageMapping nc (mapped region) va = kernelMapping nc va :=
  pageMapping_off (slotted_mapped h) fun hover => hoff (overlaps_mapped h hover).2.1

end Regions

theorem foldl_max_lt {l : List MemoryDescriptor} {span : Nat × Nat} (h : span.2 < 2 ^ 64) :
    (l.foldl (fun span desc => (min span.1 desc.physStart,
      max span.2 (add64 desc.physStart (desc.pageCount * 4096 % 2 ^ 64)))) span).2 < 2 ^ 64 := by
  induction l generalizing span with
  | nil => exact h
  | cons desc l ih =>
    refine ih (Nat.max_lt.2 ⟨h, Nat.mod_lt _ (by decide)⟩)

theorem inRam_of_span {map : List MemoryDescriptor}
    {a : Nat} (hlo : (ramSpan map).1 ≤ a) (hhi : a < (ramSpan map).2) :
    InRam (ramSpan map) (a / gib) := by
  have hlt : (ramSpan map).2 < 2 ^ 64 := foldl_max_lt (by decide)
  have hsub : sub64 (ramSpan map).2 1 = (ramSpan map).2 - 1 := by
    unfold sub64
    omega
  refine ⟨_, _, if_pos (by omega), Nat.div_le_div_right hlo, ?_⟩
  exact Nat.div_le_div_right (by omega)

/-- tables all zero, or left by builds with the same memory map and devices. -/
inductive LeftBy (P : Placement) (map : List MemoryDescriptor) (extraDevices : List (Nat × Nat)) : Store → Prop
  | zero {st : Store} (h : ∀ id i, st id i = 0) : LeftBy P map extraDevices st
  | built {st st' : Store} {regions : Slot → Nat × Nat} {uncached planned : List (Nat × Nat)}
      (h : LeftBy P map extraDevices st)
      (hbuild : buildTables P map regions extraDevices uncached st = some (st', planned)) :
      LeftBy P map extraDevices st'

section Main
variable {P : Placement} {map : List MemoryDescriptor} {regions : Slot → Nat × Nat}
  {extraDevices uncached planned : List (Nat × Nat)} {st st' : Store}
variable {r : Nat × Nat}

theorem buildTables_plan (h : buildTables P map regions extraDevices uncached st = some (st', planned)) :
    ∃ devices, extraDevices.foldlM DevicePlan.add .empty = some devices := by
  obtain ⟨⟨devices, st₁⟩, hdevs, -⟩ := bind_eq_some_iff.1 h
  exact ⟨devices, planDevices_plan hdevs⟩

theorem LeftBy.left {devices : DevicePlan} (hplan : extraDevices.foldlM DevicePlan.add .empty = some devices)
    (h : LeftBy P map extraDevices st) : Left devices (ramSpan map) st := by
  induction h with
  | zero h => exact left_zero h _
  | built h hbuild ih =>
    obtain ⟨nc, hbuilt⟩ := buildTables_built hplan ih hbuild
    exact hbuilt.toLeft

/-- **The page tables isolate the tasks.** -/
theorem views_isolated (rest : Vmsa.Memory) (hst : LeftBy P map extraDevices st)
    (hregions : ∀ t, RegionOk (ramSpan map) (regions t))
    (hbuild : buildTables P map regions extraDevices uncached st = some (st', planned)) :
    (∀ t va m, translate P rest st' t va = some m → m.pa = va) ∧
    (∀ t va, OwnPage (regions t) va → translate P rest st' t va = some (el0Mapping va)) ∧
    (∀ t va m, translate P rest st' t va = some m → m.el0 = true → OwnPage (regions t) va) ∧
    (∀ t u va, (ramSpan map).1 ≤ va → va < (ramSpan map).2 → ¬ OnPage (regions t) va → ¬ OnPage (regions u) va →
      (translate P rest st' t va).map Mapping.attrIndx = (translate P rest st' u va).map Mapping.attrIndx) := by
  obtain ⟨devices, hplan⟩ := buildTables_plan hbuild
  obtain ⟨nc, h⟩ := buildTables_built hplan (hst.left hplan) hbuild
  -- every address is one of RAM below 512 GiB, or unmapped, or a device
  have hcases : ∀ t va m, translate P rest st' t va = some m →
      m = pageMapping nc (mapped (regions t)) va ∨ m = ⟨va, mairIdxDeviceNgnrne, false, false, false⟩ := by
    intro t va m hm
    by_cases hram : va < 2 ^ 39 ∧ InRam (ramSpan map) (va / gib)
    · rw [h.translate_ram hram.1 (slotted_mapped (hregions t)) hram.2] at hm
      exact .inl (some.inj hm).symm
    have hout : 2 ^ 39 ≤ va ∨ ¬ InRam (ramSpan map) (va / gib) := by
      rw [not_and_or, not_lt] at hram
      exact hram
    rcases @Built.translate_device _ _ _ _ _ _ rest _ h t hout with hnone | hdev
    · rw [hnone] at hm
      cases hm
    · rw [hdev] at hm
      exact .inr (some.inj hm).symm
  refine ⟨?_, ?_, ?_, ?_⟩
  · intro t va m hm
    rcases hcases t va m hm with rfl | rfl
    · unfold pageMapping kernelMapping wbMapping el0Mapping
      repeat' split
      all_goals rfl
    · rfl
  · intro t va hown
    obtain ⟨-, hlo, hhi, -⟩ := (hregions t).base.resolve_left (ne_of_gt hown.on.1)
    have hblock := hown.block (hregions t)
    rw [h.translate_ram hblock.2 (slotted_mapped (hregions t)) (hblock.1 ▸ inRam_of_span hlo hhi),
      pageMapping_own nc (hregions t) hown]
  · intro t va m hm hel0
    rcases hcases t va m hm with rfl | rfl
    · exact ownPage_of_el0 (hregions t) hel0
    · cases hel0
  · intro t u va hlo hhi ht hu
    by_cases hlow : va < 2 ^ 39
    · have hram := inRam_of_span hlo hhi
      rw [h.translate_ram hlow (slotted_mapped (hregions t)) hram,
        h.translate_ram hlow (slotted_mapped (hregions u)) hram,
        pageMapping_off_region nc (hregions t) ht, pageMapping_off_region nc (hregions u) hu]
    · rw [h.translate_high t u (Nat.le_of_not_lt hlow)]

/-! ## A build returns -/

theorem DevicePlan.add_returns {plan : DevicePlan} {device : Nat × Nat}
    (h : plan.l1Span.length < maxExtraDevices) :
    ∃ plan', plan.add device = some plan' ∧ plan'.l1Span.length ≤ plan.l1Span.length + 1 := by
  unfold DevicePlan.add
  dsimp only
  split
  · exact ⟨_, rfl, le_succ _⟩
  split
  · exact ⟨_, rfl, by rw [length_append, length_singleton]⟩
  split
  · exact ⟨_, rfl, le_succ _⟩
  · exact ⟨_, rfl, le_succ _⟩

theorem planDevices_returns {plan : DevicePlan}
    (h : plan.l1Span.length + extraDevices.length ≤ maxExtraDevices) :
    ∃ r, planDevices plan st extraDevices = some r := by
  induction extraDevices generalizing plan st with
  | nil => exact ⟨_, rfl⟩
  | cons device rest ih =>
    rw [length_cons] at h
    obtain ⟨plan', hadd, hlen⟩ := @DevicePlan.add_returns plan device (by omega)
    obtain ⟨r, hr⟩ := @ih (mapDevice plan'.owners st device) plan' (by omega)
    exact ⟨r, bind_eq_some_iff.2 ⟨plan', hadd, hr⟩⟩

theorem mem_acceptAll {ram : Option (Nat × Nat)} {ranges : List (Nat × Nat)}
    (h : r ∈ NcPlan.acceptAll ram ranges) : ∃ range, NcPlan.accept ram range = some r := by
  refine foldlRecOn (motive := fun acc => ∀ r ∈ acc, ∃ range, accept ram range = some r) ranges _
    (by rintro r ⟨⟩) (fun acc hacc range _ => ?_) r h
  split
  · exact hacc
  split
  · rename_i r' hr'
    intro r hr
    rcases mem_append.1 hr with hr | hr
    · exact hacc r hr
    · obtain rfl := mem_singleton.1 hr
      exact ⟨range, hr'⟩
  · exact hacc

theorem not_overruns {ram : Nat × Nat} {range : Nat × Nat} (hpos : 0 < ram.2)
    (hram : ram.2 + gib ≤ 2 ^ 64) (h : NcPlan.accept (ramBlocks ram) range = some r) :
    NcPlan.overruns r ≠ true := by
  unfold accept at h
  cases hblocks : ramBlocks ram with
  | none =>
    rw [hblocks] at h
    cases h
  | some span =>
    rw [hblocks] at h
    dsimp only at h
    split at h
    · cases h
    rename_i hin
    split at h
    · cases h
    split at h
    · cases h
    cases h
    unfold ramBlocks at hblocks
    split at hblocks
    · cases hblocks
      have hstop : add64 (add64 range.1 range.2) 4095 &&& not64 4095 < 2 ^ 64 :=
        lt_of_le_of_lt and_le_left (mod_lt _ (by decide))
      unfold overruns
      rw [ne_eq, and_eq_true, decide_eq_true_iff, decide_eq_true_iff]
      unfold sub64 gib at *
      omega
    · cases hblocks

/-- **With at most five devices, and RAM that is there and off the top of the address space, the build
returns.** -/
theorem buildTables_returns (hdev : extraDevices.length ≤ maxExtraDevices) (hpos : 0 < (ramSpan map).2)
    (hram : (ramSpan map).2 + gib ≤ 2 ^ 64) :
    ∃ st' planned, buildTables P map regions extraDevices uncached st = some (st', planned) := by
  obtain ⟨⟨devices, st₁⟩, hdevs⟩ :=
    @planDevices_returns extraDevices st .empty (le_trans (le_of_eq (zero_add _)) hdev)
  have hnone : (acceptAll (ramBlocks (ramSpan map)) (uncached.take maxUncached)).any overruns ≠ true := by
    intro hany
    obtain ⟨r, hr, hover⟩ := any_eq_true.1 hany
    obtain ⟨range, haccept⟩ := mem_acceptAll hr
    exact not_overruns hpos hram haccept hover
  refine ⟨_, _, bind_eq_some_iff.2 ⟨_, hdevs, bind_eq_some_iff.2 ⟨_, if_neg hnone, rfl⟩⟩⟩

end Main

/-! ## One task -/

/-- the tables in a row. -/
def rowPlacement : Placement where
  addr := fun id => 0x70000000 + 4096 * TableId.all.idxOf id
  inj := by
    intro id id' h
    exact (idxOf_inj id.mem_all).1 (by omega)
  ok := by
    intro id
    have hlt : TableId.all.idxOf id < 65 := idxOf_lt_length_of_mem id.mem_all
    exact ⟨by omega, by omega⟩

def oneGib : List MemoryDescriptor := [⟨.other 7, 0x40000000, 0x40000⟩]

def shellOnly : Slot → Nat × Nat := fun t => if t = Slot.first then (0x50000000, 0x110000) else (0, 0)

theorem views_isolated_shell :
    ∃ st' planned, buildTables rowPlacement oneGib shellOnly [] [(0x60000000, 0x1000)] (fun _ _ => 0)
        = some (st', planned) ∧
      translate rowPlacement (fun _ _ => 0) st' Slot.first 0x50000000 = some (el0Mapping 0x50000000) ∧
      ∀ m, translate rowPlacement (fun _ _ => 0) st' Slot.idle 0x50000000 = some m → m.el0 = false := by
  have hregions : ∀ t, RegionOk (ramSpan oneGib) (shellOnly t) := by
    intro t
    unfold shellOnly
    split
    · exact ⟨by decide, .inr (by decide)⟩
    · exact ⟨by decide, .inl rfl⟩
  obtain ⟨st', planned, hbuild⟩ := @buildTables_returns rowPlacement oneGib shellOnly [] [(0x60000000, 0x1000)]
    (fun _ _ => 0) (by decide) (by decide) (by decide)
  obtain ⟨-, hown, hel0, -⟩ := views_isolated (fun _ _ => 0) (.zero fun _ _ => rfl) hregions hbuild
  refine ⟨st', planned, hbuild, hown Slot.first _ ⟨by decide, by decide, by decide⟩, ?_⟩
  intro m hm
  by_contra hne
  have hpage := hel0 Slot.idle _ m hm (by simpa using hne)
  exact absurd hpage.on (by decide)

end Ouroboros.Mmu
