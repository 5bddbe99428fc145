import Ouroboros.Kernel.State
import Ouroboros.Loader.Elf
import Ouroboros.Lib.Pool
import Ouroboros.Mmu.Descriptors

/-!
# The page tables: building them

The tables are statics: a `Store` holds them by name, a `Placement` says where the linker has put them,
and `Placement.memory` is what the walker reads.

* `ramSpan`, `planDevices`, `NcPlan.build`  what all views share;
* `buildView`, `buildTables`  the tables of one task and of all.

`none` is a build that does not return: an index past an array, or a loop at the top of the address space.
-/

namespace Ouroboros.Mmu

open List

open Kernel (Slot)
open Loader (guardPageAddr)

/-! ## The tables -/

def maxExtraDevices : Nat := 5
def maxExtraL1Tables : Nat := maxExtraDevices
def maxUncached : Nat := 4
def maxNcRanges : Nat := maxUncached
def maxNcL2Tables : Nat := 2 * maxNcRanges
def maxNcL3Tables : Nat := 2 * maxNcRanges

inductive TableId where
  | l0 (view : Slot)
  | l1 (view : Slot)
  | extraL1 (slot : Fin maxExtraL1Tables)
  | el0L2 (view : Slot)
  | el0L3 (view : Slot)
  | ncL2 (i : Fin maxNcL2Tables)
  | ncL3 (i : Fin maxNcL3Tables)
deriving DecidableEq, Repr

def TableId.all : List TableId :=
  Slot.all.map .l0 ++ Slot.all.map .l1 ++ (finRange _).map .extraL1 ++ Slot.all.map .el0L2 ++
    Slot.all.map .el0L3 ++ (finRange _).map .ncL2 ++ (finRange _).map .ncL3

theorem TableId.mem_all (id : TableId) : id ∈ TableId.all := by
  cases id <;> simp [TableId.all, Slot.all]

abbrev Store := TableId → Nat → Nat

namespace Store

def set (st : Store) (id : TableId) (i v : Nat) : Store := fun id' i' =>
  if id' = id ∧ i' = i then v else st id' i'

def fill (st : Store) (id : TableId) (f : Nat → Nat) : Store := fun id' i' =>
  if id' = id then f i' else st id' i'

variable (st : Store) {id id' : TableId} {i i' v : Nat} {f : Nat → Nat}

@[simp] theorem set_same : st.set id i v id i = v := if_pos ⟨rfl, rfl⟩

@[simp] theorem fill_same : st.fill id f id = f := funext fun _ => if_pos rfl

theorem set_other (h : id' ≠ id) : st.set id i v id' = st id' :=
  funext fun _ => if_neg fun hc => h hc.1

theorem set_other_index (h : i' ≠ i) : st.set id i v id' i' = st id' i' := if_neg fun hc => h hc.2

theorem fill_other (h : id' ≠ id) : st.fill id f id' = st id' := funext fun _ => if_neg h

end Store

/-- where the linker has put the tables: page-aligned, apart, and in the address field of a descriptor. -/
structure Placement where
  addr : TableId → Nat
  inj : ∀ {id id'}, addr id = addr id' → id = id'
  ok : ∀ id, Vmsa.Addr (addr id)

/-- physical memory, the tables in it and `rest` elsewhere. -/
def Placement.memory (P : Placement) (rest : Vmsa.Memory) (st : Store) : Vmsa.Memory := fun a i =>
  match TableId.all.find? (P.addr · = a) with
  | some id => st id i
  | none => rest a i

@[simp] theorem Placement.memory_addr (P : Placement) (rest : Vmsa.Memory) (st : Store)
    (id : TableId) (i : Nat) :
    P.memory rest st (P.addr id) i = st id i := by
  unfold Placement.memory
  cases h : TableId.all.find? (fun id' => decide (P.addr id' = P.addr id)) with
  | none =>
    have hno := find?_eq_none.1 h id id.mem_all
    exact absurd (decide_eq_true rfl) hno
  | some id' =>
    have heq := find?_some (p := fun id' => decide (P.addr id' = P.addr id)) h
    rw [P.inj (of_decide_eq_true heq)]

/-! ## What all views share -/

inductive MemoryType where
  | mmio
  | mmioPortSpace
  | reserved
  | unaccepted
  | other (code : Nat)
deriving DecidableEq, Repr

structure MemoryDescriptor where
  ty : MemoryType
  physStart : Nat
  pageCount : Nat

def isGeneralRam : MemoryType → Bool
  | .mmio | .mmioPortSpace | .reserved | .unaccepted => false
  | .other _ => true

/-- `(min_addr, max_addr)`. -/
def ramSpan (map : List MemoryDescriptor) : Nat × Nat := (map.filter fun desc => isGeneralRam desc.ty).foldl
    (fun span desc => (min span.1 desc.physStart,
      max span.2 (add64 desc.physStart (desc.pageCount * 4096 % 2 ^ 64))))
    (2 ^ 64 - 1, 0)

def ramBlocks (ram : Nat × Nat) : Option (Nat × Nat) :=
  if ram.1 ≤ ram.2 then some (ram.1 / gib, sub64 ram.2 1 / gib) else none

def overlaps (region : Nat × Nat) (start stop : Nat) : Bool :=
  region.2 ≠ 0 && region.1 < stop && start < add64 region.1 region.2

def l0EntrySize : Nat := gib * entriesPerTable

/-- the L0 index each extra table covers, and the devices each view's own L1 takes. -/
structure DevicePlan where
  owners : Pool Nat maxExtraL1Tables
  l1Span : List (Nat × Nat)

def DevicePlan.add (plan : DevicePlan) (device : Nat × Nat) : Option DevicePlan :=
  let l0Idx := device.1 / l0EntrySize
  if device.2 = 0 ∨ entriesPerTable ≤ l0Idx then some plan
  else if l0Idx = 0 then
    if plan.l1Span.length < maxExtraDevices then
      some { plan with l1Span := plan.l1Span ++ [(device.1 / gib % entriesPerTable, device.1)] }
    else none
  else match plan.owners.claim l0Idx with
    | some owners => some { plan with owners }
    | none => some plan

def mapDevice (owners : Pool Nat maxExtraL1Tables) (st : Store) (device : Nat × Nat) : Store :=
  let l1Idx := device.1 / gib % entriesPerTable
  if device.2 = 0 then st
  else match owners.index? (device.1 / l0EntrySize) with
    | none => st
    | some slot =>
      if st (.extraL1 slot) l1Idx = 0 then st.set (.extraL1 slot) l1Idx (deviceBlock device.1) else st

/-- the loop over `extra_devices`. -/
def planDevices : DevicePlan → Store → List (Nat × Nat) → Option (DevicePlan × Store)
  | plan, st, [] => some (plan, st)
  | plan, st, device :: rest => do
    let plan ← plan.add device
    planDevices plan (mapDevice plan.owners st device) rest

def DevicePlan.empty : DevicePlan := ⟨.empty, []⟩

/-! ## Non-cacheable ranges -/

structure NcPlan where
  /-- `(start, end)` -/
  ranges : List (Nat × Nat)
  l2Blocks : Pool Nat maxNcL2Tables
  l3Slots : Pool Nat maxNcL3Tables

inductive NcSlot where
  | none
  | full
  | partly
deriving DecidableEq, Repr

namespace NcPlan

def accept (ram : Option (Nat × Nat)) (range : Nat × Nat) : Option (Nat × Nat) :=
  let stop := add64 (add64 range.1 range.2) 0xfff &&& not64 0xfff
  match ram with
  | none => none
  | some (first, last) =>
    if ¬ (first ≤ range.1 / gib ∧ sub64 stop 1 / gib ≤ last) then none
    else if range.1 &&& 0xfff ≠ 0 then none
    else if gib < sub64 stop range.1 then none
    else some (range.1, stop)

/-- the first loop of `NcPlan::build`. -/
def acceptAll (ram : Option (Nat × Nat)) (ranges : List (Nat × Nat)) : List (Nat × Nat) :=
  ranges.foldl (fun acc range =>
    if range.2 = 0 ∨ acc.length = maxNcRanges then acc
    else match accept ram range with
      | some r => acc ++ [r]
      | none => acc) []

def pageIsNc (ranges : List (Nat × Nat)) (page : Nat) : Bool := ranges.any fun r => r.1 ≤ page && page < r.2

def slot (ranges : List (Nat × Nat)) (base : Nat) : NcSlot :=
  if ranges.any fun r => r.1 ≤ base && add64 base mib2 ≤ r.2 then .full
  else if ranges.any fun r => r.1 < add64 base mib2 && base < r.2 then .partly
  else .none

/-- the multiples of `unit` from the one at or below `r.1` up to `r.2`. -/
def multiples (unit : Nat) (r : Nat × Nat) : List Nat :=
  (range' (r.1 / unit) ((r.2 + (unit - 1)) / unit - r.1 / unit)).map (· * unit)

def partialSlots (ranges : List (Nat × Nat)) (r : Nat × Nat) : List Nat :=
  (multiples mib2 r).filter fun base => slot ranges base = .partly

def blocks (r : Nat × Nat) : List Nat := (multiples gib r).map (· / gib)

def overruns (r : Nat × Nat) : Bool := r.1 / gib * gib < r.2 && 2 ^ 64 < r.2 + gib

/-- the loops that assign the shared tables; when one pool is exhausted, nothing is planned. -/
def assign (ranges : List (Nat × Nat)) : NcPlan :=
  let l3 := Pool.claimAll .empty (ranges.flatMap (partialSlots ranges))
  let l2 := Pool.claimAll .empty (ranges.flatMap blocks)
  match l3, l2 with
  | some l3Slots, some l2Blocks => ⟨ranges, l2Blocks, l3Slots⟩
  | _, _ => ⟨[], .empty, .empty⟩

def kernelPage (plan : NcPlan) (page : Nat) : Nat :=
  if pageIsNc plan.ranges page then ncPage4k page else kernelPage4k page

def slotEntry (P : Placement) (plan : NcPlan) (base : Nat) : Nat :=
  match slot plan.ranges base with
  | .none => kernelBlock2m base
  | .full => ncBlock2m base
  | .partly =>
    match plan.l3Slots.index? base with
    | some i => tableDesc (P.addr (.ncL3 i))
    | none => kernelBlock2m base

def l2ForBlock (P : Placement) (plan : NcPlan) (block : Nat) : Option Nat :=
  (plan.l2Blocks.index? block).map fun i => tableDesc (P.addr (.ncL2 i))

def write (P : Placement) (plan : NcPlan) (st : Store) : Store :=
  let st := plan.l3Slots.entries.foldl (fun (st : Store) e =>
    st.fill (.ncL3 e.1) fun j => plan.kernelPage (e.2 + j * 4096)) st
  plan.l2Blocks.entries.foldl (fun (st : Store) e =>
    st.fill (.ncL2 e.1) fun k => plan.slotEntry P (e.2 * gib + k * mib2)) st

def build (P : Placement) (ranges : List (Nat × Nat)) (ram : Option (Nat × Nat)) (st : Store) :
    Option (NcPlan × Store) :=
  let accepted := acceptAll ram ranges
  if accepted.any overruns then none
  else some (assign accepted, (assign accepted).write P st)

end NcPlan

/-! ## The views -/

def contained (region : Nat × Nat) : Bool :=
  region.2 = 0 || region.1 / mib2 = sub64 (add64 region.1 region.2) 1 / mib2

/-- the region `build_view` maps: none of one that is not contained. -/
def mapped (region : Nat × Nat) : Nat × Nat := if contained region then region else (0, 0)

def regionPage (nc : NcPlan) (region : Nat × Nat) (page : Nat) : Nat :=
  if some page = guardPageAddr region then kernelPage4k page
  else if overlaps region page (page + 4096) then el0Page4k page
  else nc.kernelPage page

section View
variable (P : Placement) (nc : NcPlan) (view : Slot) (region : Nat × Nat)

def mapSlot (blockStart : Nat) (st : Store) (i : Nat) : Store :=
  let subBase := blockStart + i * mib2
  if overlaps region subBase (subBase + mib2) then
    (st.fill (.el0L3 view) fun j => regionPage nc region (subBase + j * 4096)).set (.el0L2 view) i
      (tableDesc (P.addr (.el0L3 view)))
  else st.set (.el0L2 view) i (nc.slotEntry P subBase)

def mapSlots (blockStart : Nat) (st : Store) : Store :=
  (range entriesPerTable).foldl (mapSlot P nc view region blockStart) st

def mapBlock (st : Store) (block : Nat) : Store :=
  if entriesPerTable ≤ block then st
  else if overlaps region (block * gib) (block * gib + gib) then
    (mapSlots P nc view region (block * gib) st).set (.l1 view) block (tableDesc (P.addr (.el0L2 view)))
  else match nc.l2ForBlock P block with
    | some shared => st.set (.l1 view) block shared
    | none => st.set (.l1 view) block (normalBlock (block * gib))

def mapRam (ram : Nat × Nat) (st : Store) : Store :=
  match ramBlocks ram with
  | none => st
  | some (first, last) => (range' first (last + 1 - first)).foldl (mapBlock P nc view region) st

def mapSpanDevice (st : Store) (device : Nat × Nat) : Store :=
  if st (.l1 view) device.1 = 0 then st.set (.l1 view) device.1 (deviceBlock device.2) else st

def linkExtra (st : Store) (entry : Fin maxExtraL1Tables × Nat) : Store :=
  if entry.2 < entriesPerTable then st.set (.l0 view) entry.2 (tableDesc (P.addr (.extraL1 entry.1))) else st

end View

def buildView (P : Placement) (nc : NcPlan) (devices : DevicePlan) (ram : Nat × Nat) (view : Slot)
    (region : Nat × Nat) (st : Store) : Store :=
  let st := st.set (.l1 view) 0 (deviceBlock 0)
  let st := mapRam P nc view (mapped region) ram st
  let st := devices.l1Span.foldl (mapSpanDevice view) st
  let st := st.set (.l0 view) 0 (tableDesc (P.addr (.l1 view)))
  devices.owners.entries.foldl (linkExtra P view) st

/-- `build_tables`: the tables, and the ranges it has planned. -/
def buildTables (P : Placement) (map : List MemoryDescriptor) (regions : Slot → Nat × Nat)
    (extraDevices uncached : List (Nat × Nat)) (st : Store) : Option (Store × List (Nat × Nat)) := do
  let ram := ramSpan map
  let (devices, st) ← planDevices .empty st extraDevices
  let (nc, st) ← NcPlan.build P (uncached.take maxUncached) (ramBlocks ram) st
  some (Slot.all.foldl (fun st view => buildView P nc devices ram view (regions view) st) st, nc.ranges)

/-- `activate_task` and a walk: T0SZ is 20. -/
def translate (P : Placement) (rest : Vmsa.Memory) (st : Store) (view : Slot) (va : Nat) : Option Vmsa.Mapping :=
  Vmsa.walk (P.memory rest st) (64 - 20) (P.addr (.l0 view)) va

end Ouroboros.Mmu
