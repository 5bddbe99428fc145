import Ouroboros.Mmu.Build

/-!
# The page tables: what all views share

* `NcPlan.Complete`  every page of a non-cacheable range has its shared tables;
* `NcPlan.write_l2`, `NcPlan.write_l3`  what is in them;
* `DevicePlan.Ok`, `planDevices_extra`  the same of the devices past the first 512 GiB.
-/

namespace Ouroboros.Mmu

open List Store Pool Nat

variable {id : TableId} {plan plan' : DevicePlan} {device : Nat × Nat}

/-! ## Loops over tables -/

section Loops
variable {α : Type} {step : Store → α → Store}

theorem foldl_other (h : ∀ st a, step st a id = st id) (l : List α) (st : Store) :
    l.foldl step st id = st id := by
  induction l generalizing st with
  | nil => rfl
  | cons a l ih => rw [foldl_cons, ih, h]

theorem foldl_entries {n : Nat} {pool : Pool Nat n}
    {f : Fin n → TableId} {g : Nat → Nat → Nat} (hf : f.Injective) {i : Fin n}
    {k : Nat} (h : pool.owner i = some k) (st : Store) :
    pool.entries.foldl (fun st e => st.fill (f e.1) (g e.2)) st (f i) = g k := by
  obtain ⟨before, after, hl⟩ := append_of_mem (mem_entries.2 h)
  rw [hl, foldl_append, foldl_cons]
  refine foldlRecOn (motive := fun st : Store => st (f i) = g k) after _ (fill_same _) ?_
  rintro st hst ⟨i', k'⟩ hmem
  have hown : pool.owner i' = some k' := mem_entries.1 (by simp [hl, hmem])
  by_cases hi : i' = i
  · -- a later round may fill the table again, with the same words
    subst hi
    cases hown.symm.trans h
    exact fill_same _
  · rw [fill_other _ fun heq => hi (hf heq.symm), hst]

end Loops

/-! ## Non-cacheable ranges -/

theorem mem_multiples {unit : Nat} (hunit : 0 < unit) {r : Nat × Nat} {b : Nat} :
    b ∈ NcPlan.multiples unit r ↔ ∃ k, b = k * unit ∧ r.1 / unit ≤ k ∧ b < r.2 := by
  have hceil : ∀ k, k < (r.2 + (unit - 1)) / unit ↔ k * unit < r.2 := by
    intro k
    rw [← succ_le_iff, le_div_iff_mul_le hunit, succ_mul]
    omega
  unfold NcPlan.multiples
  simp only [mem_map, mem_range'_1]
  constructor
  · rintro ⟨k, ⟨hlo, hhi⟩, rfl⟩
    exact ⟨k, rfl, hlo, (hceil k).1 (by omega)⟩
  · rintro ⟨k, rfl, hlo, hlt⟩
    have := (hceil k).2 hlt
    exact ⟨k, ⟨hlo, by omega⟩, rfl⟩

namespace NcPlan

structure Complete (plan : NcPlan) : Prop where
  slots : ∀ k, slot plan.ranges (k * mib2) = .partly → k * mib2 ∈ plan.l3Slots.keys
  blocks : ∀ page, pageIsNc plan.ranges page = true → page / gib ∈ plan.l2Blocks.keys

variable {base : Nat}

theorem slot_eq_partly {ranges : List (Nat × Nat)} (h : slot ranges base = .partly) :
    ∃ r, r ∈ ranges ∧ r.1 < base + mib2 ∧ base < r.2 := by
  unfold slot at h
  split at h
  · cases h
  split at h
  · rename_i hany
    obtain ⟨r, hr, htouch⟩ := any_eq_true.1 hany
    rw [Bool.and_eq_true, decide_eq_true_iff, decide_eq_true_iff] at htouch
    exact ⟨r, hr, lt_of_lt_of_le htouch.1 (mod_le _ _), htouch.2⟩
  · cases h

theorem complete_empty : Complete ⟨[], .empty, .empty⟩ where
  slots := by
    intro k h
    obtain ⟨r, hr, -⟩ := slot_eq_partly h
    cases hr
  blocks := by
    rintro page ⟨⟩

/-- **Every partial slot and every block of a range has its table, or nothing is planned.** -/
theorem assign_complete (ranges : List (Nat × Nat)) : Complete (assign ranges) := by
  unfold assign
  dsimp only
  split
  · rename_i l3 l2 hl3 hl2
    refine ⟨?_, ?_⟩
    · intro k h
      obtain ⟨r, hr, hlo, hhi⟩ := slot_eq_partly h
      refine (mem_claimAll hl3).2 (.inl (mem_flatMap.2 ⟨r, hr, mem_filter.2 ⟨?_, by simpa using h⟩⟩))
      refine (mem_multiples (by decide)).2 ⟨k, rfl, ?_, hhi⟩
      unfold mib2 at *
      omega
    · intro page h
      obtain ⟨r, hr, hin⟩ := any_eq_true.1 h
      rw [Bool.and_eq_true, decide_eq_true_iff, decide_eq_true_iff] at hin
      refine (mem_claimAll hl2).2 (.inl (mem_flatMap.2 ⟨r, hr, mem_map.2 ⟨page / gib * gib, ?_, ?_⟩⟩))
      · refine (mem_multiples (by decide)).2 ⟨page / gib, rfl, Nat.div_le_div_right hin.1, ?_⟩
        exact lt_of_le_of_lt (Nat.div_mul_le_self _ _) hin.2
      · exact Nat.mul_div_cancel _ (by decide)
  · exact complete_empty

theorem write_l3 (P : Placement) (plan : NcPlan) (st : Store) {i : Fin maxNcL3Tables}
    (h : plan.l3Slots.owner i = some base) :
    plan.write P st (.ncL3 i) = fun j => plan.kernelPage (base + j * 4096) := by
  unfold write
  rw [foldl_other (fun st e => fill_other st (by rintro ⟨⟩))]
  exact foldl_entries (g := fun base j => plan.kernelPage (base + j * 4096)) (fun _ _ => TableId.ncL3.inj) h st

theorem write_l2 (P : Placement) (plan : NcPlan) (st : Store) {i : Fin maxNcL2Tables} {block : Nat}
    (h : plan.l2Blocks.owner i = some block) :
    plan.write P st (.ncL2 i) = fun k => plan.slotEntry P (block * gib + k * mib2) := by
  unfold write
  exact foldl_entries (g := fun block k => plan.slotEntry P (block * gib + k * mib2))
    (fun _ _ => TableId.ncL2.inj) h _

theorem write_other (P : Placement) (plan : NcPlan) (st : Store) (h2 : ∀ i, id ≠ .ncL2 i)
    (h3 : ∀ i, id ≠ .ncL3 i) : plan.write P st id = st id := by
  unfold write
  refine (foldl_other ?_ _ _).trans (foldl_other ?_ _ _)
  · exact fun st e => fill_other st (h2 e.1)
  · exact fun st e => fill_other st (h3 e.1)

end NcPlan

/-! ## Devices -/

namespace DevicePlan

/-- extra tables cover what the view's own L1 does not, and its L1 takes the rest. -/
structure Ok (plan : DevicePlan) : Prop where
  owners : ∀ k, k ∈ plan.owners.keys → k ≠ 0 ∧ k < entriesPerTable
  l1Span : ∀ d, d ∈ plan.l1Span → d.1 = d.2 / gib ∧ d.1 < entriesPerTable ∧ d.2 < 2 ^ 48

theorem ok_empty : DevicePlan.empty.Ok where
  owners := by rintro k ⟨⟩
  l1Span := by rintro d ⟨⟩


theorem add_cases (h : plan.add device = some plan') : plan' = plan ∨ (device.1 / l0EntrySize = 0 ∧
      plan' = { plan with l1Span := plan.l1Span ++ [(device.1 / gib % entriesPerTable, device.1)] }) ∨
    ∃ owners, device.1 / l0EntrySize ≠ 0 ∧ device.1 / l0EntrySize < entriesPerTable ∧
      plan.owners.claim (device.1 / l0EntrySize) = some owners ∧ plan' = { plan with owners } := by
  unfold add at h
  dsimp only at h
  split at h
  · cases h
    exact .inl rfl
  rename_i hskip
  split at h
  · rename_i hzero
    split at h
    · cases h
      exact .inr (.inl ⟨hzero, rfl⟩)
    · cases h
  rename_i hne
  split at h
  · rename_i owners hclaim
    cases h
    exact .inr (.inr ⟨owners, hne, Nat.lt_of_not_le fun hle => hskip (.inr hle), hclaim, rfl⟩)
  · cases h
    exact .inl rfl

theorem Ok.add (hok : plan.Ok) (h : plan.add device = some plan') : plan'.Ok := by
  rcases add_cases h with rfl | ⟨hzero, rfl⟩ | ⟨owners, hne, hlt, hclaim, rfl⟩
  · exact hok
  · refine ⟨hok.owners, ?_⟩
    intro d hd
    rcases mem_append.1 hd with hd | hd
    · exact hok.l1Span d hd
    obtain rfl := mem_singleton.1 hd
    unfold l0EntrySize gib entriesPerTable at *
    dsimp only
    omega
  · refine ⟨?_, hok.l1Span⟩
    intro k hk
    rcases (mem_claim hclaim).1 hk with rfl | hk
    · exact ⟨hne, hlt⟩
    · exact hok.owners k hk

theorem owner_add (h : plan.add device = some plan')
    {i : Fin maxExtraL1Tables} {k : Nat} (hi : plan.owners.owner i = some k) :
    plan'.owners.owner i = some k := by
  rcases add_cases h with rfl | ⟨-, rfl⟩ | ⟨owners, -, -, hclaim, rfl⟩
  · exact hi
  · exact hi
  · exact owner_claim hclaim hi

end DevicePlan

/-- a word that maps nothing, or the 1 GiB block `i` as a device. -/
def IsDevice (i d : Nat) : Prop := d = 0 ∨ ∃ base, base < 2 ^ 48 ∧ base / gib = i ∧ d = deviceBlock base

def ExtraOk (owners : Pool Nat maxExtraL1Tables) (st : Store) : Prop :=
  ∀ slot k i, owners.owner slot = some k → IsDevice (k * entriesPerTable + i) (st (.extraL1 slot) i)

section Devices
variable {st st' : Store} {devices : List (Nat × Nat)} {owners : Pool Nat maxExtraL1Tables}

theorem planDevices_plan (h : planDevices plan st devices = some (plan', st')) :
    devices.foldlM DevicePlan.add plan = some plan' := by
  induction devices generalizing plan st with
  | nil =>
    cases h
    rfl
  | cons device rest ih =>
    obtain ⟨p, hp, hrest⟩ := Option.bind_eq_some_iff.1 h
    rw [foldlM_cons]
    exact Option.bind_eq_some_iff.2 ⟨p, hp, ih hrest⟩

theorem planDevices_keeps {P : DevicePlan → Store → Prop} (h : planDevices plan st devices = some (plan', st'))
    (h₀ : P plan st) (hstep : ∀ {plan p device st}, P plan st → plan.add device = some p →
      P p (mapDevice p.owners st device)) : P plan' st' := by
  induction devices generalizing plan st with
  | nil =>
    cases h
    exact h₀
  | cons device rest ih =>
    obtain ⟨p, hp, hrest⟩ := Option.bind_eq_some_iff.1 h
    exact ih hrest (hstep h₀ hp)

theorem planDevices_ok (hok : plan.Ok) (h : planDevices plan st devices = some (plan', st')) : plan'.Ok :=
  planDevices_keeps (P := fun p _ => p.Ok) h hok fun hok hp => hok.add hp

theorem planDevices_owner (h : planDevices plan st devices = some (plan', st')) {i : Fin maxExtraL1Tables}
    {k : Nat} (hi : plan.owners.owner i = some k) : plan'.owners.owner i = some k :=
  planDevices_keeps (P := fun p _ => p.owners.owner i = some k) h hi fun hi hp => DevicePlan.owner_add hp hi

theorem mapDevice_cases (owners : Pool Nat maxExtraL1Tables) (st : Store) (device : Nat × Nat) :
    mapDevice owners st device = st ∨
    ∃ slot, owners.owner slot = some (device.1 / l0EntrySize) ∧ mapDevice owners st device
        = st.set (.extraL1 slot) (device.1 / gib % entriesPerTable) (deviceBlock device.1) := by
  unfold mapDevice
  split
  · exact .inl rfl
  split
  · exact .inl rfl
  rename_i slot hslot
  dsimp only
  split
  · exact .inr ⟨slot, index?_eq_some.1 hslot, rfl⟩
  · exact .inl rfl

theorem mapDevice_other (hid : ∀ slot, id ≠ .extraL1 slot) : mapDevice owners st device id = st id := by
  rcases mapDevice_cases owners st device with h | ⟨slot, -, h⟩
  · rw [h]
  · rw [h, set_other _ (hid slot)]

theorem planDevices_other (h : planDevices plan st devices = some (plan', st'))
    (hid : ∀ slot, id ≠ .extraL1 slot) : st' id = st id :=
  planDevices_keeps (P := fun _ u => u id = st id) h rfl fun hu _ => (mapDevice_other hid).trans hu

theorem mapDevice_extra {final : Pool Nat maxExtraL1Tables}
    (hfinal : ∀ i k, owners.owner i = some k → final.owner i = some k)
    (hkeys : ∀ k, k ∈ owners.keys → k < entriesPerTable) (h : ExtraOk final st) :
    ExtraOk final (mapDevice owners st device) := by
  rcases mapDevice_cases owners st device with hsame | ⟨slot, hown, hset⟩
  · rwa [hsame]
  rw [hset]
  intro slot' k i hk
  by_cases hcell : slot' = slot ∧ i = device.1 / gib % entriesPerTable
  · obtain ⟨rfl, rfl⟩ := hcell
    have hlt := hkeys _ (mem_of_owner hown)
    obtain rfl : device.1 / l0EntrySize = k := Option.some.inj ((hfinal _ _ hown).symm.trans hk)
    rw [set_same]
    refine .inr ⟨device.1, ?_, ?_, rfl⟩ <;> unfold l0EntrySize gib entriesPerTable at * <;> omega
  · have hsame : st.set (.extraL1 slot) (device.1 / gib % entriesPerTable) (deviceBlock device.1)
        (.extraL1 slot') i = st (.extraL1 slot') i :=
      if_neg fun hc => hcell ⟨TableId.extraL1.inj hc.1, hc.2⟩
    rw [hsame]
    exact h slot' k i hk

/-- **The extra tables hold device blocks only.** -/
theorem planDevices_extra (hok : plan.Ok) (h : planDevices plan st devices = some (plan', st'))
    (hextra : ExtraOk plan'.owners st) : ExtraOk plan'.owners st' := by
  induction devices generalizing plan st with
  | nil =>
    cases h
    exact hextra
  | cons device rest ih =>
    obtain ⟨p, hp, hrest⟩ := Option.bind_eq_some_iff.1 h
    refine ih (hok.add hp) hrest (mapDevice_extra ?_ (fun k hk => ((hok.add hp).owners k hk).2) hextra)
    exact fun i k hi => planDevices_owner hrest hi

end Devices

end Ouroboros.Mmu
