import Ouroboros.Kernel.Identity
import Ouroboros.Kernel.Places

/-!
# Where task regions lie

The allocator moves one cursor down and never refuses, so regions are disjoint only as long as each fits into the
RAM above the boot regions.

* `Fits`  the next region lies in RAM and off every boot region;
* `Laid`  the invariant: live runtime regions are slots of 2 MiB at or above the cursor;
* `regions_placed`  in a run whose regions all fit, the live tasks are placed well.
-/

namespace Ouroboros.Kernel

open Transition Nat List Option

/-! ## Extents -/

def Apart (r r' : Nat × Nat) : Prop := r.1 + r.2 ≤ r'.1 ∨ r'.1 + r'.2 ≤ r.1

instance (r r' : Nat × Nat) : Decidable (Apart r r') := inferInstanceAs (Decidable (_ ∨ _))

variable {r r' : Nat × Nat}

theorem Apart.symm (h : Apart r r') : Apart r' r := h.elim .inr .inl

theorem apart_of_slots (hr : r.1 % slotAlign = 0) (hr' : r'.1 % slotAlign = 0)
    (hs : r.2 ≤ slotAlign) (hs' : r'.2 ≤ slotAlign) (hne : r.1 ≠ r'.1) : Apart r r' := by
  unfold Apart
  unfold slotAlign at *
  omega

theorem alignedSize_slot {size : Nat} (h : 0 < size) (hle : size ≤ slotAlign) :
    alignedSize size = slotAlign := by
  unfold alignedSize
  unfold slotAlign at *
  omega

theorem cursor_of_range {top : Int} (h : 0 ≤ top) (hlt : top < 2 ^ 64) : (cursor top : Int) = top := by
  unfold cursor
  omega

section Regions
variable {M : Machine} {o : Origin} {p : Slot} {c : Fin M.cores} {s s' : State M}
variable {b : BootLoad} {lo hi : Nat} {n : Nat}

/-! ## The layout -/

/-- what the firmware promises: the boot regions are in RAM, off each other, and physical addresses have
48 bits. -/
structure Layout (b : BootLoad) (lo hi : Nat) : Prop where
  small : hi ≤ 2 ^ 48
  inside : ∀ t r, b.region t = some r → lo ≤ r.1 ∧ r.1 + r.2 ≤ hi
  apart : ∀ t u r r', b.region t = some r → b.region u = some r' → t ≠ u → Apart r r'

/-- `init_runtime_allocator`: the top of RAM, rounded down. -/
def initTop (hi : Nat) : Int := (hi / slotAlign * slotAlign : Nat)

def Free (b : BootLoad) (lo hi : Nat) (r : Nat × Nat) : Prop :=
  lo ≤ r.1 ∧ r.1 + r.2 ≤ hi ∧ ∀ t r', b.region t = some r' → Apart r r'

def Fits (b : BootLoad) (lo hi : Nat) (req : Int × Nat) : Prop :=
  Free b lo hi (cursor (allocateRuntimeRegion req.1 req.2), req.2)

/-- what is wanted: live regions are disjoint, and those of the tasks started since boot, whose
generations begin at `n`, are free. -/
structure Placed (b : BootLoad) (lo hi n : Nat) (s : State M) : Prop where
  apart : ∀ t u, (s.task t).state.isOccupied = true → (s.task u).state.isOccupied = true → t ≠ u →
    Apart (s.task t).region (s.task u).region
  free : ∀ t, (s.task t).state.isOccupied = true → n ≤ (s.task t).gen → Free b lo hi (s.task t).region

structure Laid (b : BootLoad) (lo hi n : Nat) (s : State M) : Prop where
  nonneg : 0 ≤ s.top
  bound : s.top ≤ 2 ^ 48 + slotAlign
  aligned : s.top % slotAlign = 0
  gens : n ≤ s.nextGen
  empty : ∀ t, (s.task t).state.isOccupied = false → (s.task t).region = (0, 0)
  boot : ∀ t, (s.task t).state.isOccupied = true → (s.task t).gen < n → b.region t = some (s.task t).region
  slot : ∀ t, (s.task t).state.isOccupied = true → n ≤ (s.task t).gen →
    s.top ≤ (s.task t).region.1 ∧ (s.task t).region.1 % slotAlign = 0 ∧ 0 < (s.task t).region.2 ∧
      (s.task t).region.2 ≤ slotAlign ∧ Free b lo hi (s.task t).region
  distinct : ∀ t u, (s.task t).state.isOccupied = true → (s.task u).state.isOccupied = true →
    n ≤ (s.task t).gen → n ≤ (s.task u).gen → t ≠ u → (s.task t).region.1 ≠ (s.task u).region.1

theorem Laid.placed (hb : Layout b lo hi) (h : Laid b lo hi n s) : Placed b lo hi n s where
  apart := by
    intro t u ht hu hne
    rcases lt_or_ge (s.task t).gen n with htn | htn
    · have htb := h.boot t ht htn
      rcases lt_or_ge (s.task u).gen n with hun | hun
      · exact hb.apart t u _ _ htb (h.boot u hu hun) hne
      · exact ((h.slot u hu hun).2.2.2.2.2.2 t _ htb).symm
    · obtain ⟨-, hta, -, hts, htf⟩ := h.slot t ht htn
      rcases lt_or_ge (s.task u).gen n with hun | hun
      · exact htf.2.2 u _ (h.boot u hu hun)
      · obtain ⟨-, hua, -, hus, -⟩ := h.slot u hu hun
        exact apart_of_slots hta hua hts hus (h.distinct t u ht hu htn hun hne)
  free := fun t ht htn => (h.slot t ht htn).2.2.2.2

/-! ## Acts that move no region -/

theorem Laid.same (h : Laid b lo hi n s) (htop : s'.top = s.top) (hgen : s.nextGen ≤ s'.nextGen)
    (hp : ∀ t, SamePlace (s.task t) (s'.task t)) : Laid b lo hi n s' where
  nonneg := by
    rw [htop]
    exact h.nonneg
  bound := by
    rw [htop]
    exact h.bound
  aligned := by
    rw [htop]
    exact h.aligned
  gens := le_trans h.gens hgen
  empty := by
    intro t
    rw [(hp t).occupied, (hp t).region]
    exact h.empty t
  boot := by
    intro t
    rw [(hp t).occupied, (hp t).region, (hp t).gen]
    exact h.boot t
  slot := by
    intro t
    rw [(hp t).occupied, (hp t).region, (hp t).gen, htop]
    exact h.slot t
  distinct := by
    intro t u
    rw [(hp t).occupied, (hp t).region, (hp t).gen, (hp u).occupied, (hp u).region, (hp u).gen]
    exact h.distinct t u

/-! ## The end of a task -/

section
variable (hb : Layout b lo hi) (h : Laid b lo hi n s)
include hb h

theorem Laid.freed (i : Slot) :
    let top := freeRuntimeRegion s.top (s.task i).region.1 (s.task i).region.2
    s.top ≤ top ∧ top ≤ 2 ^ 48 + slotAlign ∧ top % slotAlign = 0 ∧
      ∀ t, t ≠ i → (s.task t).state.isOccupied → n ≤ (s.task t).gen → top ≤ (s.task t).region.1 := by
  have hnn := h.nonneg
  have hbd := h.bound
  have hal := h.aligned
  have hsm := hb.small
  simp only
  unfold freeRuntimeRegion
  split
  swap
  · exact ⟨Int.le_refl _, hbd, hal, fun t _ ht htn => (h.slot t ht htn).1⟩
  rename_i hcur
  have hlt : s.top < 2 ^ 64 := by
    unfold slotAlign at hbd
    omega
  rw [← Int.ofNat_inj, cursor_of_range hnn hlt] at hcur
  cases hi' : (s.task i).state.isOccupied with
  | false =>
    -- an empty slot has the empty region, and the cursor stays
    rw [h.empty i hi']
    have hzero : alignedSize 0 = 0 := by decide
    simp only [hzero, Int.natCast_zero, Int.add_zero]
    exact ⟨Int.le_refl _, hbd, hal, fun t _ ht htn => (h.slot t ht htn).1⟩
  | true =>
    rcases lt_or_ge (s.task i).gen n with hin | hin
    · -- a boot region: the runtime regions are off it, and aligned
      have hboot := h.boot i hi' hin
      have hend := (hb.inside i _ hboot).2
      have hup : (s.task i).region.2 ≤ alignedSize (s.task i).region.2 ∧
          alignedSize (s.task i).region.2 < (s.task i).region.2 + slotAlign ∧
          alignedSize (s.task i).region.2 % slotAlign = 0 := by
        unfold alignedSize slotAlign
        omega
      refine ⟨by omega, by omega, ?_, ?_⟩
      · unfold slotAlign at *
        omega
      intro t _ ht htn
      obtain ⟨hle, hta, htp, -, htf⟩ := h.slot t ht htn
      have hap := htf.2.2 i _ hboot
      unfold Apart at hap
      unfold slotAlign at *
      omega
    · obtain ⟨-, -, hip, his, hif⟩ := h.slot i hi' hin
      rw [alignedSize_slot hip his]
      have hend := hif.2.1
      refine ⟨?_, ?_, ?_, ?_⟩
      · unfold slotAlign
        omega
      · unfold slotAlign at *
        omega
      · unfold slotAlign at *
        omega
      intro t hti ht htn
      obtain ⟨hle, hta, -⟩ := h.slot t ht htn
      have hne := h.distinct t i ht hi' htn hin hti
      unfold slotAlign at *
      omega

theorem Laid.endTask (i : Slot) {final : TaskState}
    (hfinal : final.isOccupied = false) (htop : s'.top = (endTask s i final).top)
    (hgen : s.nextGen ≤ s'.nextGen) (htask : s'.task = (endTask s i final).task) : Laid b lo hi n s' := by
  obtain ⟨hle, hbd, hal, habove⟩ := h.freed hb i
  have htop' : s'.top = freeRuntimeRegion s.top (s.task i).region.1 (s.task i).region.2 := htop
  have hend : (s'.task i).state.isOccupied = false ∧ (s'.task i).region = (0, 0) := by
    rw [htask, endTask_same]
    exact ⟨hfinal, rfl⟩
  have hother : ∀ t, t ≠ i → SamePlace (s.task t) (s'.task t) := by
    intro t hti
    rw [htask, endTask_other s i final hti]
    exact .failCall _ _
  -- a task that is live afterwards is another one
  have hlive : ∀ t, (s'.task t).state.isOccupied → t ≠ i := by
    rintro t ht rfl
    rw [hend.1] at ht
    cases ht
  have hnn := h.nonneg
  rw [← htop'] at hle hbd hal habove
  refine ⟨Int.le_trans hnn hle, hbd, hal, le_trans h.gens hgen, ?_, ?_, ?_, ?_⟩
  · intro t ht
    by_cases hti : t = i
    · rw [hti]
      exact hend.2
    rw [(hother t hti).occupied] at ht
    rw [(hother t hti).region]
    exact h.empty t ht
  · intro t ht htn
    have hp := hother t (hlive t ht)
    rw [hp.occupied] at ht
    rw [hp.gen] at htn
    rw [hp.region]
    exact h.boot t ht htn
  · intro t ht htn
    have hti := hlive t ht
    have hp := hother t hti
    rw [hp.occupied] at ht
    rw [hp.gen] at htn
    rw [hp.region]
    exact ⟨habove t hti ht htn, (h.slot t ht htn).2⟩
  · intro t u ht hu htn hun
    have hp := hother t (hlive t ht)
    have hq := hother u (hlive u hu)
    rw [hp.occupied] at ht
    rw [hq.occupied] at hu
    rw [hp.gen] at htn
    rw [hq.gen] at hun
    rw [hp.region, hq.region]
    exact h.distinct t u ht hu htn hun

/-! ## The start of a task -/

theorem Laid.allocated {size : Nat} (hpos : 0 < size) (hsize : size ≤ slotAlign)
    (hfit : Fits b lo hi (s.top, size)) :
    0 ≤ allocateRuntimeRegion s.top size ∧ allocateRuntimeRegion s.top size = s.top - slotAlign ∧
      (cursor (allocateRuntimeRegion s.top size) : Int) = allocateRuntimeRegion s.top size := by
  have hnn := h.nonneg
  have hbd := h.bound
  have hsm := hb.small
  have hend : cursor (allocateRuntimeRegion s.top size) + size ≤ hi := hfit.2.1
  have heq : allocateRuntimeRegion s.top size = s.top - slotAlign := by
    unfold allocateRuntimeRegion
    rw [alignedSize_slot hpos hsize]
  rw [heq] at hend ⊢
  -- below zero the base would be beyond every address
  have hpos : 0 ≤ s.top - slotAlign := by
    by_contra hneg
    unfold cursor slotAlign at hend
    unfold slotAlign at hneg hbd
    omega
  refine ⟨hpos, rfl, cursor_of_range hpos ?_⟩
  unfold slotAlign at hbd ⊢
  omega

theorem Laid.start {size : Nat} {slot : Slot} (hpos : 0 < size)
    (hsize : size ≤ slotAlign) (hfit : Fits b lo hi (s.top, size))
    (htop : s'.top = allocateRuntimeRegion s.top size) (hgens : s.nextGen ≤ s'.nextGen)
    (hocc : (s'.task slot).state.isOccupied) (hgen : (s'.task slot).gen = s.nextGen)
    (hregion : (s'.task slot).region = (cursor (allocateRuntimeRegion s.top size), size))
    (hother : ∀ t, t ≠ slot → SamePlace (s.task t) (s'.task t)) : Laid b lo hi n s' := by
  obtain ⟨hnn, heq, hcur⟩ := h.allocated hb hpos hsize hfit
  have hbd := h.bound
  have hal := h.aligned
  have hle := h.gens
  refine ⟨?_, ?_, ?_, le_trans hle hgens, ?_, ?_, ?_, ?_⟩
  · rw [htop]
    exact hnn
  · rw [htop, heq]
    unfold slotAlign at *
    omega
  · rw [htop, heq]
    unfold slotAlign at *
    omega
  · intro t ht
    by_cases hts : t = slot
    · rw [hts, hocc] at ht
      cases ht
    rw [(hother t hts).occupied] at ht
    rw [(hother t hts).region]
    exact h.empty t ht
  · intro t ht htn
    by_cases hts : t = slot
    · subst hts
      omega
    have hp := hother t hts
    rw [hp.occupied] at ht
    rw [hp.gen] at htn
    rw [hp.region]
    exact h.boot t ht htn
  · intro t ht htn
    by_cases hts : t = slot
    · subst hts
      rw [hregion, htop]
      refine ⟨by simp only; omega, ?_, hpos, hsize, hfit⟩
      simp only
      unfold slotAlign at *
      omega
    · have hp := hother t hts
      rw [hp.occupied] at ht
      rw [hp.gen] at htn
      rw [hp.region, htop, heq]
      obtain ⟨habove, hrest⟩ := h.slot t ht htn
      refine ⟨?_, hrest⟩
      unfold slotAlign
      omega
  · -- the others are at or above the old cursor, the new one below it
    have hbelow : ∀ u, u ≠ slot → (s'.task u).state.isOccupied → n ≤ (s'.task u).gen →
        (s'.task slot).region.1 ≠ (s'.task u).region.1 := by
      intro u hus hu hun
      have hq := hother u hus
      rw [hq.occupied] at hu
      rw [hq.gen] at hun
      rw [hq.region, hregion]
      have habove := (h.slot u hu hun).1
      simp only
      unfold slotAlign at heq
      omega
    intro t u ht hu htn hun hne
    by_cases hts : t = slot
    · subst hts
      exact hbelow u (fun hu => hne hu.symm) hu hun
    by_cases hus : u = slot
    · subst hus
      exact fun heq => hbelow t hts ht htn heq.symm
    have hp := hother t hts
    have hq := hother u hus
    rw [hp.occupied] at ht
    rw [hq.occupied] at hu
    rw [hp.gen] at htn
    rw [hq.gen] at hun
    rw [hp.region, hq.region]
    exact h.distinct t u ht hu htn hun hne

end

/-! ## Entries -/

def AllFit (b : BootLoad) (lo hi : Nat) (s : State M) : Prop := ∀ req, req ∈ s.handed → Fits b lo hi req

variable {k : Sys} {u : State M}

theorem AllFit.split {req : Int × Nat} (hfit : AllFit b lo hi s') (hhanded : s'.handed = s.handed ++ [req]) :
    AllFit b lo hi s ∧ Fits b lo hi req := by
  unfold AllFit at hfit
  rw [hhanded] at hfit
  exact ⟨fun req hreq => hfit req (mem_append_left _ hreq), hfit _ (by simp)⟩

theorem Laid.shift (hb : Layout b lo hi) (hst : Shift s s') (h : AllFit b lo hi s → Laid b lo hi n s)
    (hfit : AllFit b lo hi s') : Laid b lo hi n s' := by
  cases hst with
  | keep htop hhanded hgen hp _ =>
    refine (h ?_).same htop (le_of_eq hgen.symm) hp
    unfold AllFit at hfit ⊢
    rwa [hhanded] at hfit
  | ended i final _ hfinal current heq =>
    subst heq
    exact (h hfit).endTask hb i hfinal rfl le_rfl rfl
  | installed slot m size _ _ himage _ heq =>
    subst heq
    obtain ⟨image, -, hsize⟩ := himage
    obtain ⟨hpos, hle⟩ := M.elfRegionSize_bound image size hsize
    obtain ⟨hold, hnew⟩ := hfit.split (rfl : _ = s.handed ++ [(s.top, size)])
    refine @Laid.start M _ _ _ _ _ _ hb (h hold) _ slot hpos hle hnew rfl (le_succ _) ?_ ?_ ?_ ?_
    · rw [installTask_task, if_pos rfl]
      rfl
    · rw [installTask_task, if_pos rfl]
      rfl
    · rw [installTask_task, if_pos rfl]
    intro t ht
    rw [installTask_task, if_neg ht]
    exact .refl _

theorem Laid.shifts (hb : Layout b lo hi) (hst : Shifts s s') (h : AllFit b lo hi s → Laid b lo hi n s)
    (hfit : AllFit b lo hi s') : Laid b lo hi n s' := by
  induction hst with
  | refl => exact h hfit
  | tail _ hlast ih => exact .shift hb hlast ih hfit

theorem Special.place (h : Special s p k u) :
    (u.top = s.top ∧ u.handed = s.handed ∧ ∀ t, SamePlace (s.task t) (u.task t)) ∨
    ∃ slot size out m, 0 < size ∧ size ≤ slotAlign ∧ u = spawned s p slot size out m := by
  cases h with
  | quiet m => exact .inl ⟨rfl, rfl, fun t => .refl _⟩
  | reply ht =>
    refine .inl ⟨rfl, rfl, ?_⟩
    rw [State.setMisc_task]
    refine .modify ?_
    obtain ⟨buf, len, hst⟩ := inCallTo_eq_true.1 (replyTarget_eq_some.1 ht).1
    exact ⟨rfl, rfl, by rw [hst]; rfl⟩
  | @spawn _ _ _ _ slot size out m program hslot hout hsize =>
    obtain ⟨hpos, hle⟩ := M.elfRegionSize_bound program size hsize
    exact .inr ⟨slot, size, out, m, hpos, hle, rfl⟩
  | setId | delegate =>
    refine .inl ⟨rfl, rfl, ?_⟩
    rw [State.setMisc_task]
    exact .modify ⟨rfl, rfl, rfl⟩

theorem Laid.special (hb : Layout b lo hi) (h : AllFit b lo hi s → Laid b lo hi n s)
    (hu : Special s p k u) (hfit : AllFit b lo hi u) : Laid b lo hi n u := by
  rcases hu.place with ⟨htop, hhanded, hp⟩ | ⟨slot, size, out, m, hpos, hle, rfl⟩
  · refine (h ?_).same htop hu.nextGen_le hp
    unfold AllFit at hfit ⊢
    rwa [hhanded] at hfit
  obtain ⟨hold, hnew⟩ := hfit.split (rfl : _ = s.handed ++ [(s.top, size)])
  refine @Laid.start M _ _ _ _ _ _ hb (h hold) _ slot hpos hle hnew rfl (le_succ _) ?_ ?_ ?_ ?_
  · simp only [spawned, spawnedTable, if_true]
    rfl
  · simp only [spawned, spawnedTable, if_true]
    rfl
  · simp only [spawned, spawnedTable, if_true]
    rfl
  intro t ht
  simp only [spawned, spawnedTable, if_neg ht]
  exact ⟨rfl, rfl, rfl⟩

theorem Laid.step (hb : Layout b lo hi) {e : Entry M} (hs : Steady s)
    (h : AllFit b lo hi s → Laid b lo hi n s) (hstep : step s e = some s') (hfit : AllFit b lo hi s') :
    Laid b lo hi n s' := by
  rcases step_cases hs hstep with hacts | ⟨c, d, k, r, u, -, hu, rfl⟩
  · exact .shifts hb (hacts.shifts hs) h hfit
  refine (Laid.special hb h hu hfit).same rfl le_rfl ?_
  refine .modify ?_
  exact ⟨rfl, rfl, rfl⟩

/-! ## Runs -/

theorem booted_laid (hb : Layout b lo hi) (q : M.Queue) (d : Dev) :
    Laid b lo hi (bootState M b (initTop hi) q d).nextGen (bootState M b (initTop hi) q d) := by
  have hn : Numbered (bootState M b (initTop hi) q d) := booted_numbered ⟨_, _, _, _, rfl⟩
  have hsm := hb.small
  have htop : (bootState M b (initTop hi) q d).top = (hi / slotAlign * slotAlign : Nat) := rfl
  refine ⟨?_, ?_, ?_, le_rfl, ?_, ?_, ?_, ?_⟩
  · rw [htop]
    omega
  · rw [htop]
    unfold slotAlign
    omega
  · rw [htop]
    unfold slotAlign
    omega
  · intro t ht
    simp only [bootState] at ht ⊢
    split
    · rfl
    rename_i r hr
    rw [hr] at ht
    cases ht
  · intro t ht _
    simp only [bootState] at ht ⊢
    cases hr : b.region t with
    | none =>
      rw [hr] at ht
      cases ht
    | some r => rfl
  · intro t _ htn
    exact absurd (hn.gens t) (not_lt.2 htn)
  · intro t _ _ _ htn
    exact absurd (hn.gens t) (not_lt.2 htn)

theorem endIfDoomed_handed {r : Bool × State M} (h : endIfDoomed s c = some r) : r.2.handed = s.handed := by
  unfold endIfDoomed at h
  simp only at h
  split at h
  · cases h
    rfl
  split at h
  · cases h
    rfl
  rw [map_eq_some_iff] at h
  obtain ⟨u, hu, rfl⟩ := h
  obtain ⟨next, -, rfl⟩ := endCurrent_eq_some hu
  rfl

theorem spawn_handed {d : Dev} {totalLen stdout argvLen cwdLen : Nat} (hs : Steady s)
    (h : step s (.syscall c d (.spawn totalLen stdout argvLen cwdLen)) = some s') :
    s'.handed = s.handed ∨ ∃ slot size, s'.handed = s.handed ++ [(s.top, size)] ∧
      (s'.task slot).state.isOccupied ∧ (s'.task slot).gen = s.nextGen ∧
      (s'.task slot).region = (cursor (allocateRuntimeRegion s.top size), size) := by
  simp only [step] at h
  split at h
  · cases h
  unfold trapEntry at h
  rw [bind_eq_some_iff] at h
  obtain ⟨⟨ended, u⟩, hu, h⟩ := h
  have hhanded : u.handed = s.handed := endIfDoomed_handed hu
  cases ended with
  | true =>
    cases h
    exact .inl hhanded
  | false =>
    obtain ⟨m, -, rfl⟩ := (endIfDoomed_acts (p := s.current c) (o := .other) hu).2.1 rfl
    have hd : (dispatch (s.setMisc m) c (.spawn totalLen stdout argvLen cwdLen)).finish c = some s' := h
    obtain ⟨r, w, hw, rfl⟩ := dispatch_special hs rfl hd
    cases hw with
    | quiet => exact .inl rfl
    | @spawn _ _ _ _ slot size out m' program hslot hout hsize =>
      have hplace : SamePlace ((spawned s (s.current c) slot size out m').task slot) _ :=
        SamePlace.modify (f := fun t => { t with x0 := r }) (i := s.current c) ⟨rfl, rfl, rfl⟩ slot
      refine .inr ⟨slot, size, rfl, ?_, ?_, ?_⟩
      · rw [hplace.occupied]
        simp only [spawned, spawnedTable, if_true]
        rfl
      · rw [hplace.gen]
        simp only [spawned, spawnedTable, if_true]
        rfl
      rw [hplace.region]
      simp only [spawned, spawnedTable, if_true]
      rfl

/-- **Regions are placed well as long as every region handed out fits.**  If each region handed out so far
lies in RAM and off the boot regions, the regions of live tasks are disjoint, and those started since boot lie
so too; a `SPAWN` keeps this up exactly if the region it takes fits. -/
theorem regions_placed (hb : Layout b lo hi) {q : M.Queue} {d : Dev} {k : List (State M × Entry M × State M)}
    (h : Trace Step (bootState M b (initTop hi) q d) k s) :
    (AllFit b lo hi s → Placed b lo hi (bootState M b (initTop hi) q d).nextGen s) ∧
    ∀ c d' totalLen stdout argvLen cwdLen s', AllFit b lo hi s →
      step s (.syscall c d' (.spawn totalLen stdout argvLen cwdLen)) = some s' →
      (Placed b lo hi (bootState M b (initTop hi) q d).nextGen s' ↔ AllFit b lo hi s') := by
  have hinv := h.invariant (P := fun u => Steady u ∧
      (AllFit b lo hi u → Laid b lo hi (bootState M b (initTop hi) q d).nextGen u))
    ⟨booted_steady ⟨_, _, _, _, rfl⟩, fun _ => booted_laid hb q d⟩ fun u e u' hu hstep =>
      ⟨hu.1.step hstep, Laid.step hb hu.1 hu.2 hstep⟩
  obtain ⟨hs, hlaid⟩ := hinv
  refine ⟨fun hfit => (hlaid hfit).placed hb, ?_⟩
  intro c d' totalLen stdout argvLen cwdLen s' hfit hstep
  refine ⟨?_, fun hfit' => (Laid.step hb hs hlaid hstep hfit').placed hb⟩
  intro hplaced
  rcases spawn_handed hs hstep with hsame | ⟨slot, size, hhanded, hocc, hgen, hregion⟩
  · unfold AllFit at hfit ⊢
    rwa [hsame]
  intro req hreq
  rw [hhanded, mem_append, mem_singleton] at hreq
  rcases hreq with hreq | rfl
  · exact hfit req hreq
  · have hfree := hplaced.free slot hocc (by rw [hgen]; exact (hlaid hfit).gens)
    rwa [hregion] at hfree

theorem twoCoresLoad_layout (hle : 0x500000 ≤ hi) (hsm : hi ≤ 2 ^ 48) : Layout twoCoresLoad 0x200000 hi := by
  have hregion : ∀ t r, twoCoresLoad.region t = some r →
      t = Slot.first ∧ r = (0x400000, 0x100000) ∨ t = Slot.idle ∧ r = (0x200000, 0x1000) := by
    intro t r hr
    simp only [twoCoresLoad] at hr
    split at hr
    · rename_i ht
      exact .inl ⟨ht, (some.inj hr).symm⟩
    split at hr
    · rename_i ht
      exact .inr ⟨ht, (some.inj hr).symm⟩
    · cases hr
  refine ⟨hsm, ?_, ?_⟩
  · intro t r hr
    rcases hregion t r hr with ⟨-, rfl⟩ | ⟨-, rfl⟩
    · exact ⟨by decide, hle⟩
    · exact ⟨by decide, le_trans (by decide) hle⟩
  · intro t u r r' hr hr' hne
    rcases hregion t r hr with ⟨rfl, rfl⟩ | ⟨rfl, rfl⟩
    · rcases hregion u r' hr' with ⟨rfl, rfl⟩ | ⟨rfl, rfl⟩
      · exact absurd rfl hne
      · decide
    rcases hregion u r' hr' with ⟨rfl, rfl⟩ | ⟨rfl, rfl⟩
    · decide
    · exact absurd rfl hne

/-- the run with a spawn, in 16 MiB of RAM. -/
theorem regions_placed_child : AllFit twoCoresLoad 0x200000 0x1000000 childSpawned ∧
    Placed twoCoresLoad 0x200000 0x1000000 twoCoresBoot.nextGen childSpawned := by
  have hlay : Layout twoCoresLoad 0x200000 0x1000000 := twoCoresLoad_layout (by decide) (by decide)
  have hfit : AllFit twoCoresLoad 0x200000 0x1000000 childSpawned := by
    intro req hreq
    have hhanded : childSpawned.handed = [(0x1000000, 0x110000)] := by
      decide +kernel
    rw [hhanded, mem_singleton] at hreq
    subst hreq
    refine ⟨by decide, by decide, ?_⟩
    intro t r hr
    simp only [twoCoresLoad] at hr
    split at hr
    · cases hr
      decide
    split at hr
    · cases hr
      decide
    · cases hr
  exact ⟨hfit, (regions_placed hlay childRun_trace).1 hfit⟩

/-! ## Less memory -/

def cramped : State twoCores := bootState twoCores twoCoresLoad (initTop 0x600000) [] noDev

def crampedStaged : State twoCores := (step cramped stagesImage).getD cramped

def crampedSpawned : State twoCores := (step crampedStaged spawnsChild).getD crampedStaged

/-- **With RAM up to 6 MiB the first program the shell spawns is put into the shell's own region.** -/
theorem spawn_overlaps_shell : Layout twoCoresLoad 0x200000 0x600000 ∧ Reached crampedSpawned ∧
    (crampedSpawned.task Slot.first).state.isOccupied = true ∧
    (crampedSpawned.task 6).state.isOccupied = true ∧
    (crampedSpawned.task Slot.first).region = (0x400000, 0x100000) ∧
    (crampedSpawned.task 6).region = (0x400000, 0x110000) ∧
    ¬ Apart (crampedSpawned.task Slot.first).region (crampedSpawned.task 6).region := by
  have hboot : Reached cramped := .init ⟨_, _, _, _, rfl⟩
  have hstage : Step cramped stagesImage crampedStaged := step_getD rfl
  have hspawn : Step crampedStaged spawnsChild crampedSpawned := step_getD (by decide +kernel)
  have hshell : (crampedSpawned.task Slot.first).region = (0x400000, 0x100000) := by
    decide +kernel
  have hchild : (crampedSpawned.task 6).region = (0x400000, 0x110000) := by
    decide +kernel
  refine ⟨twoCoresLoad_layout (by decide) (by decide), (hboot.tail hstage).tail hspawn, by decide +kernel,
    by decide +kernel, hshell, hchild, ?_⟩
  rw [hshell, hchild]
  decide

end Regions

end Ouroboros.Kernel
