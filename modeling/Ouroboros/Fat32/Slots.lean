import Ouroboros.Fat32.Entries
import Ouroboros.Lib.Chain

/-!
# FAT32: a directory as a row of slots

* `chain`, `Ended`  the clusters of a chain, and a chain that leads out of the clusters;
* `Chained`  one that ends in an end mark;
* `foldSlots`  what a scan gathers from the slots at some places;
* `goes_scan`  **a scan comes to what the fold over the slots of the chain comes to**;
* `entries`  the entries of a directory, as a walk meets them;
* `goes_walk`, `goes_lookup_eq`  a walk goes through the entries, a search finds the first that answers;
* `resolve`  what a path leads to.
-/

namespace Ouroboros.Fat32

open Fsd (Bytes)
open Image Relation List Option Volume Chain

variable {g : Geometry} {T : Nat → Nat} {c d : Nat} {α ρ : Type} {a : α} {v : Volume} {reserved total : Nat}
variable (fits : v.geo.Fits reserved total) {s : Fs}

/-! ## Chains -/

section Chains
variable {n : Nat}

def Geometry.chain (g : Geometry) (T : Nat → Nat) : Nat → Nat → List Nat
  | 0, _ => []
  | n + 1, c => c :: (g.next T c).elim [] (g.chain T n)

def Geometry.Ended (g : Geometry) (T : Nat → Nat) (c : Nat) : Prop := ∃ n, g.reach T c n = none

theorem reach_eq_down (c n : Nat) : g.reach T c n = Chain.down (g.next T) n c := by
  induction n with
  | zero => rfl
  | succ n ih =>
    rw [Geometry.reach, ih, down_add]
    refine congrArg _ (funext fun d => ?_)
    simp [down]

theorem Geometry.Ended.short (h : g.Ended T c) (hc : g.inHeap c) :
    Chain.down (g.next T) g.clusterEnd c = none := by
  obtain ⟨n, hn⟩ := h
  rw [reach_eq_down] at hn
  have hcard := down_card (f := g.next T) (s := Finset.range g.clusterEnd) (a := c) ?_ ⟨n, hn⟩
  · rwa [Finset.card_range] at hcard
  · intro k b hb
    refine Finset.mem_range.2 (inHeap_iff.1 (?_ : g.inHeap b)).2
    rw [← reach_eq_down] at hb
    cases k with
    | zero =>
      cases hb
      exact hc
    | succ k =>
      obtain ⟨d, -, hd⟩ := bind_eq_some_iff.1 hb
      exact inHeap_of_link hd

theorem chain_of_none (h : g.next T c = none) (n : Nat) : g.chain T (n + 1) c = [c] := by
  rw [Geometry.chain, h]
  rfl

theorem mem_chain (h : d ∈ g.chain T n c) : ∃ k, g.reach T c k = some d := by
  induction n generalizing c with
  | zero => cases h
  | succ n ih =>
    rcases mem_cons.1 h with rfl | h
    · exact ⟨0, rfl⟩
    cases hn : g.next T c with
    | none =>
      rw [hn] at h
      cases h
    | some e =>
      rw [hn] at h
      obtain ⟨k, hk⟩ := ih h
      refine ⟨k + 1, ?_⟩
      rw [reach_eq_down, down, hn, bind_some, ← reach_eq_down, hk]

theorem mem_chain_inHeap (hc : g.inHeap c) (h : d ∈ g.chain T n c) : g.inHeap d := by
  induction n generalizing c with
  | zero => cases h
  | succ n ih =>
    rcases mem_cons.1 h with rfl | h
    · exact hc
    cases hn : g.next T c with
    | none =>
      rw [hn] at h
      cases h
    | some e =>
      rw [hn] at h
      exact ih (inHeap_of_link hn) h

end Chains

def Geometry.Chained (g : Geometry) (T : Nat → Nat) (c : Nat) : Prop :=
  g.inHeap c ∧ ∃ n d, g.reach T c n = some d ∧ endOfChainMin ≤ T d

section Chained

theorem Geometry.Chained.stops (h : g.Chained T c)
    {m : Nat} (hm : g.reach T c m = some d) (hstop : g.next T d = none) :
    endOfChainMin ≤ T d := by
  obtain ⟨-, n, e, hn, hmark⟩ := h
  have hlast : g.next T e = none := by
    rw [Geometry.next, Geometry.link, if_pos]
    simp [endsWalk, hmark]
  have hm' : g.reach T c (m + 1) = none := by rw [Geometry.reach, hm, bind_some, hstop]
  have hn' : g.reach T c (n + 1) = none := by rw [Geometry.reach, hn, bind_some, hlast]
  rw [reach_eq_down] at hm hn hm' hn'
  rcases Nat.lt_trichotomy m n with hlt | rfl | hlt
  · rw [down_none_of_le hm' hlt] at hn
    cases hn
  · cases hm.symm.trans hn
    exact hmark
  · rw [down_none_of_le hn' hlt] at hm
    cases hm

theorem Geometry.Chained.used (h : g.Chained T c) {n : Nat} (hd : g.reach T c n = some d) : T d ≠ 0 := by
  intro hzero
  have hstop : g.next T d = none := by
    rw [Geometry.next, hzero]
    rfl
  have := h.stops hd hstop
  rw [hzero] at this
  exact absurd this (by decide)

theorem Geometry.Chained.ended (h : g.Chained T c) : g.Ended T c := by
  obtain ⟨-, n, d, hn, hmark⟩ := h
  refine ⟨n + 1, ?_⟩
  rw [Geometry.reach, hn, bind_some, Geometry.next, Geometry.link, if_pos]
  simp [endsWalk, hmark]

theorem reach_of_next (hn : g.next T c = some d) (n : Nat) : g.reach T c (n + 1) = g.reach T d n := by
  rw [reach_eq_down, reach_eq_down, down, hn, bind_some]

theorem Geometry.Chained.next (h : g.Chained T c) (hn : g.next T c = some d) : g.Chained T d := by
  obtain ⟨-, n, e, hr, hmark⟩ := h
  refine ⟨inHeap_of_link hn, ?_⟩
  cases n with
  | zero =>
    cases hr
    rw [Geometry.next, Geometry.link, if_pos (by simp [endsWalk, hmark])] at hn
    cases hn
  | succ n =>
    rw [reach_of_next hn] at hr
    exact ⟨n, e, hr, hmark⟩

theorem Geometry.Chained.cons (h : g.Chained T d) (hc : g.inHeap c) (hn : g.next T c = some d) :
    g.Chained T c := by
  obtain ⟨-, n, e, hr, hmark⟩ := h
  exact ⟨hc, n + 1, e, by rw [reach_of_next hn, hr], hmark⟩

end Chained

/-! ## Slots -/

def Geometry.slotsIn (g : Geometry) (c : Nat) (sectors : List Nat) : List Place :=
  sectors.flatMap fun k => slotOffsets.map fun offset => ⟨g.dataLba c k, offset⟩

def Geometry.slotsOf (g : Geometry) (c : Nat) : List Place := g.slotsIn c (List.range g.sectorsPerCluster)

def Geometry.places (g : Geometry) (disk : Nat → Sector) (n c : Nat) : List Place :=
  (g.chain (g.table disk) n c).flatMap g.slotsOf

variable {p : Place}

theorem mem_slotsOf (h : p ∈ g.slotsOf c) : ∃ k < g.sectorsPerCluster, p.lba = g.dataLba c k := by
  obtain ⟨k, hk, hp⟩ := mem_flatMap.1 h
  obtain ⟨offset, -, rfl⟩ := mem_map.1 hp
  exact ⟨k, mem_range.1 hk, rfl⟩

theorem isData_of_mem_slotsOf (hc : g.inHeap c) (h : p ∈ g.slotsOf c) : g.IsData p.lba := by
  obtain ⟨k, hk, hlba⟩ := mem_slotsOf h
  rw [hlba]
  exact isData_dataLba hc hk

theorem isData_of_mem_places {disk : Nat → Sector} {n : Nat} (hc : g.inHeap c) (h : p ∈ g.places disk n c) :
    g.IsData p.lba := by
  obtain ⟨d, hd, hp⟩ := mem_flatMap.1 h
  exact isData_of_mem_slotsOf (mem_chain_inHeap hc hd) hp

section Fold
variable (look : α → Sector → Place → α ⊕ ρ) (disk : Nat → Sector)

def foldSlots : List Place → α → α ⊕ ρ
  | [], a => .inl a
  | p :: rest, a =>
    match look a (disk p.lba) p with
    | .inl a => foldSlots rest a
    | .inr r => .inr r

variable {look disk} {l : List Place}

theorem foldSlots_append (l l' : List Place) (a : α) :
    foldSlots look disk (l ++ l') a = (foldSlots look disk l a).elim (foldSlots look disk l') .inr := by
  induction l generalizing a with
  | nil => rfl
  | cons p rest ih =>
    rw [cons_append, foldSlots, foldSlots]
    cases look a (disk p.lba) p with
    | inl a => exact ih a
    | inr r => rfl

theorem eachSlot_eq (lba : Nat) (offsets : List Nat) (a : α) :
    eachSlot look (disk lba) lba offsets a = foldSlots look disk
      (offsets.map fun offset => ⟨lba, offset⟩) a := by
  induction offsets generalizing a with
  | nil => rfl
  | cons offset rest ih =>
    rw [map_cons, foldSlots, eachSlot]
    cases look a (disk lba) ⟨lba, offset⟩ with
    | inl a => exact ih a
    | inr r => rfl

theorem foldSlots_congr {disk' : Nat → Sector} (h : ∀ p ∈ l, disk p.lba = disk' p.lba) (a : α) :
    foldSlots look disk l a = foldSlots look disk' l a := by
  induction l generalizing a with
  | nil => rfl
  | cons p rest ih =>
    rw [foldSlots, foldSlots, h p mem_cons_self]
    cases look a (disk' p.lba) p with
    | inl a => exact ih (fun q hq => h q (mem_cons_of_mem p hq)) a
    | inr r => rfl

theorem foldSlots_elim {A : α → Prop} {R : ρ → Prop} {P : Place → Prop}
    (hlook : ∀ a buf p, A a → P p → Sum.elim A R (look a buf p)) (hl : ∀ p ∈ l, P p) (ha : A a) :
    Sum.elim A R (foldSlots look disk l a) := by
  induction l generalizing a with
  | nil => exact ha
  | cons p rest ih =>
    have h := hlook a (disk p.lba) p ha (hl p mem_cons_self)
    rw [foldSlots]
    cases hp : look a (disk p.lba) p with
    | inl b => exact ih (fun q hq => hl q (mem_cons_of_mem p hq)) (by rwa [hp] at h)
    | inr r => rwa [hp] at h

end Fold

section Scan
variable {look : α → Sector → Place → α ⊕ ρ} {fuel : Nat} {fin : α → ρ}

/-- what a scan goes on with after the cluster `c`. -/
def Volume.scanOn (v : Volume) (look : α → Sector → Place → α ⊕ ρ) (atEnd : Nat → α → Op (Nat ⊕ ρ))
    (fuel c : Nat) (next : Option Nat) (a : α) : Op ρ :=
  match next with
  | some next => v.scanFrom look atEnd fuel next a
  | none => do
    match ← atEnd c a with
    | .inl next => v.scanFrom look atEnd fuel next a
    | .inr r => pure r

include fits



theorem goes_scanSectors_eq (hc : v.geo.inHeap c) {l : List Nat} (hl : ∀ k ∈ l, k < v.geo.sectorsPerCluster) :
    Goes v.geo total (v.scanSectors look (v.geo.dataLba c 0) l a) s fun x t =>
      x = foldSlots look s.disk (v.geo.slotsIn c l) a ∧ Looks s t := by
  induction l generalizing s a with
  | nil => exact .pure ⟨rfl, Looks.refl s⟩
  | cons k rest ih =>
    have hk := hl k mem_cons_self
    refine (goes_sectorAt fits hc hk).bind fun lba t _ h => ?_
    obtain ⟨rfl, ht⟩ := h
    refine (goes_readData (isData_dataLba hc hk)).bind fun buf u _ h => ?_
    obtain ⟨rfl, htu⟩ := h
    have hu := ht.trans htu
    rw [Geometry.slotsIn, flatMap_cons, foldSlots_append, ← eachSlot_eq, ht.disk]
    cases eachSlot look (s.disk (v.geo.dataLba c k)) (v.geo.dataLba c k) slotOffsets a with
    | inl a =>
      refine (ih fun j hj => hl j (mem_cons_of_mem k hj)).mono fun x w _ h => ⟨?_, hu.trans h.2⟩
      rw [h.1, hu.disk]
      rfl
    | inr r => exact .pure ⟨rfl, hu⟩

theorem goes_scan_step {atEnd : Nat → α → Op (Nat ⊕ ρ)} {Q : ρ → Fs → Prop} (hs : Coherent v.geo s)
    (hstop : ∀ r t, v.geo.inHeap c → foldSlots look s.disk (v.geo.slotsOf c) a = .inr r → Looks s t → Q r t)
    (hrest : ∀ b t, v.geo.inHeap c → foldSlots look s.disk (v.geo.slotsOf c) a = .inl b →
      Looks s t → Coherent v.geo t →
      Goes v.geo total (v.scanOn look atEnd fuel c (v.geo.next (v.geo.table s.disk) c) b) t Q) :
    Goes v.geo total (v.scanFrom look atEnd (fuel + 1) c a) s Q := by
  refine (goes_clusterToLba fits).bind fun lba t hst h => ?_
  obtain ⟨hc, rfl, ht⟩ := h
  refine (goes_scanSectors_eq fits hc fun k hk => mem_range.1 hk).bind fun x u htu h => ?_
  obtain ⟨hx, htu'⟩ := h
  have hu := ht.trans htu'
  have hcoh : Coherent v.geo u := Steps.coherent fits (hst.trans htu) hs
  rw [ht.disk] at hx
  cases x with
  | inr r => exact .pure (hstop r u hc hx.symm hu)
  | inl b =>
    refine (goes_nextCluster fits hcoh).next fits hcoh fun next w hw h => ?_
    obtain ⟨-, rfl, huw'⟩ := h
    rw [hu.disk]
    exact hrest b w hc hx.symm (hu.trans huw') hw

omit fits in
theorem foldSlots_places (disk : Nat → Sector) : foldSlots look disk (v.geo.places disk (fuel + 1) c) a =
    (foldSlots look disk (v.geo.slotsOf c) a).elim
      (foldSlots look disk ((v.geo.next (v.geo.table disk) c).elim [] (v.geo.places disk fuel))) .inr := by
  rw [Geometry.places, Geometry.chain, flatMap_cons, foldSlots_append]
  cases v.geo.next (v.geo.table disk) c with
  | none | some d => rfl

theorem goes_scan (hs : Coherent v.geo s) :
    Goes v.geo total (v.scanFrom look (fun _ a => pure (.inr (fin a))) fuel c a) s fun r t =>
      v.geo.inHeap c ∧ r = (foldSlots look s.disk (v.geo.places s.disk fuel c) a).elim fin id ∧ Looks s t := by
  induction fuel generalizing s c a with
  | zero => exact .fail
  | succ fuel ih =>
    rw [foldSlots_places]
    refine goes_scan_step fits hs (fun r t hc hx ht => ?_) fun b t hc hx ht htc => ?_
    · rw [hx]
      exact ⟨hc, rfl, ht⟩
    rw [hx]
    cases v.geo.next (v.geo.table s.disk) c with
    | none => exact .pure ⟨hc, rfl, ht⟩
    | some d =>
      refine (ih htc).mono fun r u _ h => ⟨hc, ?_, ht.trans h.2.2⟩
      rw [h.2.1, ht.disk]
      rfl

theorem goes_scan_elim {A : α → Prop} {R : ρ → Prop} (hs : Coherent v.geo s)
    (hlook : ∀ a buf p, A a → v.geo.IsData p.lba → Sum.elim A R (look a buf p))
    (hfin : ∀ a, A a → R (fin a)) (ha : A a) :
    Goes v.geo total (v.scanFrom look (fun _ a => pure (.inr (fin a))) fuel c a) s fun r t =>
      R r ∧ Looks s t := by
  refine (goes_scan fits hs).mono fun r t _ h => ⟨?_, h.2.2⟩
  have hall : Sum.elim A R (foldSlots look s.disk (v.geo.places s.disk fuel c) a) :=
    foldSlots_elim hlook (fun p hp => isData_of_mem_places h.1 hp) ha
  rw [h.2.1]
  cases hx : foldSlots look s.disk (v.geo.places s.disk fuel c) a with
  | inl b => exact hfin b (by rwa [hx] at hall)
  | inr r => rwa [hx] at hall

end Scan

/-! ## Entries -/

def entriesFrom (disk : Nat → Sector) : List Place → Lfn → List (DirEntry × Place)
  | [], _ => []
  | p :: rest, l =>
    match scanSlot l (slot (disk p.lba) p.offset) with
    | .stop => []
    | .skip l => entriesFrom disk rest l
    | .entry e l => (e, p) :: entriesFrom disk rest l

def Geometry.entries (g : Geometry) (disk : Nat → Sector) (n c : Nat) : List (DirEntry × Place) :=
  entriesFrom disk (g.places disk n c) Lfn.empty

theorem scanSlot_size {l l' : Lfn} {raw : Sector} {e : DirEntry} (h : scanSlot l raw = .entry e l') :
    e.size < 2 ^ 32 := by
  unfold scanSlot at h
  repeat' split at h
  all_goals cases h
  exact num_lt raw 28 4

theorem entriesFrom_congr {disk disk' : Nat → Sector} {l : List Place}
    (h : ∀ p ∈ l, disk p.lba = disk' p.lba) (n : Lfn) :
    entriesFrom disk l n = entriesFrom disk' l n := by
  induction l generalizing n with
  | nil => rfl
  | cons p rest ih =>
    have hrest := ih fun q hq => h q (mem_cons_of_mem p hq)
    rw [entriesFrom, entriesFrom, h p mem_cons_self]
    cases scanSlot n (slot (disk' p.lba) p.offset) with
    | stop => rfl
    | skip n => exact hrest n
    | entry e n => exact congrArg _ (hrest n)

theorem mem_entriesFrom {disk : Nat → Sector} {l : List Place} {n : Lfn} {x : DirEntry × Place}
    (h : x ∈ entriesFrom disk l n) : x.2 ∈ l ∧ x.1.size < 2 ^ 32 := by
  induction l generalizing n with
  | nil => cases h
  | cons p rest ih =>
    rw [entriesFrom] at h
    cases hslot : scanSlot n (slot (disk p.lba) p.offset) with
    | stop =>
      rw [hslot] at h
      cases h
    | skip n =>
      rw [hslot] at h
      exact (ih h).imp_left (mem_cons_of_mem p)
    | entry e n =>
      rw [hslot] at h
      rcases mem_cons.1 h with rfl | h
      · exact ⟨mem_cons_self, scanSlot_size hslot⟩
      · exact (ih h).imp_left (mem_cons_of_mem p)

/-- `f` on some entries one after another, until it says so. -/
def foldEntries {α : Type} (f : α → DirEntry → Place → α × Bool) : List (DirEntry × Place) → α → α
  | [], a => a
  | x :: rest, a => if (f a x.1 x.2).2 then (f a x.1 x.2).1 else foldEntries f rest (f a x.1 x.2).1

section Entries
variable {f : α → DirEntry → Place → α × Bool} {disk : Nat → Sector}

theorem foldSlots_visit (l : List Place) (n : Lfn) (a : α) :
    (foldSlots (Volume.visit f) disk l (n, a)).elim Prod.snd id = foldEntries f (entriesFrom disk l n) a := by
  induction l generalizing n a with
  | nil => rfl
  | cons p rest ih =>
    rw [foldSlots, entriesFrom, visit]
    cases scanSlot n (slot (disk p.lba) p.offset) with
    | stop => rfl
    | skip n => exact ih n a
    | entry e n =>
      dsimp only
      rw [foldEntries]
      rcases hf : f a e p with ⟨b, _ | _⟩
      · exact ih n b
      · rfl

theorem foldEntries_find {p : DirEntry × Place → Bool} (l : List (DirEntry × Place)) :
    foldEntries (fun a e q => if p (e, q) then (some (e, q), true) else (a, false)) l none = l.find? p := by
  induction l with
  | nil => rfl
  | cons x rest ih =>
    rw [foldEntries, find?_cons]
    cases hp : p x with
    | false => exact ih
    | true => rfl

include fits

theorem goes_walk (hs : Coherent v.geo s) : Goes v.geo total (v.walkDirWithLocation c a f) s fun b t =>
      v.geo.inHeap c ∧ b = foldEntries f (v.geo.entries s.disk v.fuel c) a ∧ Looks s t := by
  refine (goes_scan fits hs).mono fun b t _ h => ⟨h.1, ?_, h.2.2⟩
  rw [h.2.1, foldSlots_visit]
  rfl

theorem goes_lookup_eq {name : Bytes} (hs : Coherent v.geo s) : Goes v.geo total (v.lookup c name) s fun x t =>
      v.geo.inHeap c ∧ x = (v.geo.entries s.disk v.fuel c).find? (fun x => namesMatch x.1.name name) ∧
        Looks s t := by
  refine (goes_walk fits hs).mono fun b t _ h => ⟨h.1, ?_, h.2.2⟩
  rw [h.2.1]
  exact foldEntries_find (p := fun x => namesMatch x.1.name name) _

end Entries

/-! ## Paths -/

def Volume.resolve (v : Volume) (disk : Nat → Sector) : List Bytes → DirEntry → Option DirEntry
  | [], e => some e
  | name :: rest, e =>
    if e.isDir ∧ v.geo.inHeap e.cluster then
      ((v.geo.entries disk v.fuel e.cluster).find? fun x => namesMatch x.1.name name).bind fun x =>
        v.resolve disk rest (v.orRoot x.1)
    else none

section Paths
variable {disk : Nat → Sector} {l : List Bytes} {e x : DirEntry}

theorem resolve_append (l l' : List Bytes) (e : DirEntry) :
    v.resolve disk (l ++ l') e = (v.resolve disk l e).bind (v.resolve disk l') := by
  induction l generalizing e with
  | nil => rfl
  | cons name rest ih =>
    rw [cons_append, resolve, resolve]
    split
    · cases (v.geo.entries disk v.fuel e.cluster).find? fun x => namesMatch x.1.name name with
      | none => rfl
      | some x => exact ih (v.orRoot x.1)
    · rfl

theorem orRoot_size (e : DirEntry) : (v.orRoot e).size = e.size := by
  unfold orRoot
  split <;> rfl

theorem resolve_size (he : e.size < 2 ^ 32) (h : v.resolve disk l e = some x) : x.size < 2 ^ 32 := by
  induction l generalizing e with
  | nil =>
    cases h
    exact he
  | cons name rest ih =>
    rw [resolve] at h
    split at h
    · obtain ⟨y, hy, h⟩ := bind_eq_some_iff.1 h
      exact ih (by rw [orRoot_size]; exact (mem_entriesFrom (mem_of_find?_eq_some hy)).2) h
    · cases h

include fits

theorem goes_findFrom_eq (hs : Coherent v.geo s) :
    Goes v.geo total (v.findFrom l e) s fun x t => v.resolve s.disk l e = some x ∧ Looks s t := by
  induction l generalizing s e with
  | nil => exact .pure ⟨rfl, Looks.refl s⟩
  | cons name rest ih =>
    refine .ite (fun _ => .err) fun hdir => ?_
    refine (goes_lookup_eq fits hs).next fits hs fun found t ht h => ?_
    obtain ⟨hheap, rfl, hl⟩ := h
    rw [resolve, if_pos ⟨by simpa using hdir, hheap⟩]
    split
    · rename_i x p hx
      refine (ih ht).mono fun e u _ hu => ⟨?_, hl.trans hu.2⟩
      rw [hx, bind_some, ← hu.1, hl.disk]
    · exact .err

theorem goes_find_eq {path : Bytes} (hs : Coherent v.geo s) : Goes v.geo total (v.find path) s fun x t =>
      v.resolve s.disk (Fsd.components path) (DirEntry.root v.geo.rootCluster) = some x ∧ Looks s t :=
  goes_findFrom_eq fits hs

end Paths
end Ouroboros.Fat32
