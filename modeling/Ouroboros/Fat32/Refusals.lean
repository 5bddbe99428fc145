import Ouroboros.Fat32.Spellings
import Ouroboros.Fat32.Overwrite

/-!
# FAT32: what a refused call costs

* `Granted m`  `m` is never refused, whatever else may end it;
* `Refuses m s E`  a refusal of `m` is as `E` says;
* `refuses_insertNamedEntry`  an insertion is refused when no cluster is free or no alias is;
* `Shows`  a slot that a scan gets to; an insertion keeps it;
* `refused_free_iff`  **when a refused call leaves the free clusters as they were**.
-/

namespace Ouroboros.Fat32

open Fsd (Bytes Error components splitParent)
open Image Relation Volume List Option Function Nat

variable {α β : Type} {m : Op α} {v : Volume} {s : Fs} {E : Error → Fs → Prop} {reserved total : Nat}
variable (fits : v.geo.Fits reserved total) (hs : Coherent v.geo s) {c n dir : Nat} {data name : Bytes}
variable {disk disk' : Nat → Sector} {l : List Place} {p : Place} {g : Geometry} {t : Fs}

/-- the errors of a call that is turned down; the others are of the disk, or of what stands in the way. -/
def isRefusal : Error → Bool
  | .diskFull | .invalidName | .alreadyExists | .notFound => true
  | _ => false

def Granted {α : Type} (m : Op α) : Prop := ∀ s e t, m s = (.error (.error e), t) → isRefusal e = false

def Refuses {α : Type} (m : Op α) (s : Fs) (E : Error → Fs → Prop) : Prop :=
  ∀ e t, m s = (.error (.error e), t) → isRefusal e → E e t

section Granted

theorem Granted.pure (a : α) : Granted (pure a : Op α) := nofun

theorem Granted.ask (f : Fs → α) : Granted (Try.ask f : Op α) := nofun

theorem Granted.change (f : Fs → Fs) : Granted (Try.change f : Op Unit) := nofun

theorem Granted.spent : Granted (Try.fail .spent : Op α) := nofun

theorem Granted.err {e : Error} (h : isRefusal e = false) : Granted (err e : Op α) := by
  intro s e' t he
  cases he
  exact h

theorem Granted.bind {f : α → Op β} (h : Granted m) (hf : ∀ a, Granted (f a)) : Granted (m >>= f) := by
  intro s e t he
  rcases Try.bind_cases he with ⟨a, u, -, he⟩ | ⟨e', hm, he⟩
  · exact hf a u e t he
  · cases he
    exact h s e t hm

theorem Granted.ite {c : Prop} [Decidable c] {n : Op α} (hm : c → Granted m) (hn : ¬ c → Granted n) :
    Granted (if c then m else n) := by
  split
  · exact hm ‹_›
  · exact hn ‹_›

theorem Granted.each {f : β → Op Unit} (l : List β) (h : ∀ b, Granted (f b)) : Granted (Try.each l f) := by
  induction l with
  | nil => exact .pure ()
  | cons b rest ih => exact (h b).bind fun _ => ih

theorem Granted.refuses (h : Granted m) : Refuses m s E := by
  intro e t he hr
  rw [h s e t he] at hr
  cases hr

end Granted

/-! ## Steps that are never refused -/

section Steps

theorem granted_word (bits n : Nat) : Granted (word bits n) :=
  Granted.ite (fun _ => .pure n) fun _ => (Granted.change _).bind fun _ => .pure _

theorem granted_readSector (area : Area) (lba : Nat) : Granted (v.readSector area lba) := by
  intro s e t he
  unfold Device.readSector at he
  dsimp only at he
  split at he <;> cases he
  rfl

theorem granted_writeSector (area : Area) (lba : Nat) (b : Sector) : Granted (v.writeSector area lba b) := by
  intro s e t he
  unfold Device.writeSector at he
  dsimp only at he
  split at he <;> cases he
  rfl

theorem looks_granted : Looking v fun _ m => Granted m where
  pure := .pure
  bind := .bind
  io := .err rfl
  spent := .spent
  word := granted_word
  read := granted_readSector
  ask := .ask
  cache _ := .change _

theorem granted_writeFatEntry (c value : Nat) : Granted (v.writeFatEntry c value) := by
  refine .ite (fun _ => ?_) fun _ => .err rfl
  refine (looks_granted.nextCluster c).bind fun next => .bind ?_ fun _ => ?_
  · exact .ite (fun _ => .change _) fun _ => .pure _
  refine (looks_granted.fatPlaceIn _ _).bind fun _ => (looks_granted.fatSector _).bind fun _ => ?_
  refine (granted_writeSector _ _ _).bind fun _ => (Granted.change _).bind fun _ => ?_
  unfold mirror
  split
  · exact .pure _
  · exact .each _ fun i => (looks_granted.fatPlaceIn i c).bind fun _ => granted_writeSector _ _ _

theorem granted_eachSector (lba : Nat) (l : List Nat) (f : Nat → Sector) : Granted (Try.each l fun k => do
      let sector ← sectorAt lba k
      v.writeSector .data sector (f k)) :=
  .each l fun _ => (granted_word _ _).bind fun _ => granted_writeSector _ _ _

theorem granted_zeroCluster (c : Nat) : Granted (v.zeroCluster c) :=
  (looks_granted.clusterToLba c).bind fun _ => granted_eachSector _ _ _

theorem granted_fillCluster (data : Bytes) (written c : Nat) : Granted (v.fillCluster data written c) :=
  (looks_granted.clusterToLba c).bind fun _ => granted_eachSector _ _ _

theorem granted_linkAfter (ends : Option (Nat × Nat)) (c : Nat) : Granted (v.linkAfter ends c) := by
  unfold linkAfter
  split
  · exact granted_writeFatEntry _ _
  · exact .pure _

theorem granted_freeFrom (fuel c : Nat) : Granted (v.freeFrom fuel c) := by
  induction fuel generalizing c with
  | zero => exact .spent
  | succ fuel ih =>
    refine (looks_granted.nextCluster c).bind fun next => (granted_writeFatEntry c 0).bind fun _ =>
      (Granted.change _).bind fun _ => ?_
    split
    · exact ih _
    · exact .pure _

theorem granted_freeChain (c : Nat) : Granted (v.freeChain c) :=
  Granted.ite (fun _ => granted_freeFrom _ _) fun _ => .pure _

theorem granted_freeFile (c : Nat) : Granted (v.freeFile c) :=
  Granted.ite (fun _ => granted_freeChain _) fun _ => .pure _

theorem granted_patchEntryClusterSize (p : Place) (cluster size : Nat) :
    Granted (v.patchEntryClusterSize p cluster size) :=
  (granted_readSector _ _).bind fun _ => granted_writeSector _ _ _

theorem granted_rewrite (changes : List (Place × List UInt8)) : Granted (v.rewrite changes) := by
  refine .each _ fun group => ?_
  split
  · exact .pure _
  · exact (granted_readSector _ _).bind fun _ => granted_writeSector _ _ _

theorem granted_writeSpan (lba start oldSize offset pos n : Nat) (data : Bytes) :
    Granted (v.writeSpan lba start oldSize offset pos n data) :=
  Granted.ite (fun _ => granted_writeSector _ _ _) fun _ =>
    Granted.ite (fun _ => (granted_readSector _ _).bind fun _ => granted_writeSector _ _ _) fun _ =>
      granted_writeSector _ _ _

end Steps

/-! ## Refusals -/

section Refuses
variable {E' : Error → Fs → Prop}

theorem Refuses.mono (h : Refuses m s E) (hE : ∀ e t, E e t → E' e t) : Refuses m s E' :=
  fun e t he hr => hE e t (h e t he hr)

theorem Refuses.err {e : Error} (h : E e s) : Refuses (Fat32.err e : Op α) s E := by
  intro e' t he _
  cases he
  exact h

theorem Refuses.bind {f : α → Op β} (h : Refuses m s E) (hf : ∀ a t, m s = (.ok a, t) → Refuses (f a) t E) :
    Refuses (m >>= f) s E := by
  intro e u he hr
  rcases Try.bind_cases he with ⟨a, t, hm, he⟩ | ⟨e', hm, he⟩
  · exact hf a t hm e u he hr
  · cases he
    exact h e u hm hr

theorem Refuses.ite {c : Prop} [Decidable c] {n : Op α} (hm : c → Refuses m s E) (hn : ¬ c → Refuses n s E) :
    Refuses (if c then m else n) s E := by
  split
  · exact hm ‹_›
  · exact hn ‹_›

theorem Refuses.map {f : α → β} (h : Refuses m s E) : Refuses (f <$> m) s E :=
  h.bind fun _ _ _ => (Granted.pure _).refuses

end Refuses

def Geometry.free (g : Geometry) (disk : Nat → Sector) : Finset Nat := g.freeSet (g.table disk)

section Claims
include fits hs

theorem refuses_firstFree {l : List Nat} :
    Refuses (v.firstFree l) s fun _ t => t.disk = s.disk ∧ ∀ c ∈ l, v.geo.table s.disk c ≠ 0 := by
  induction l generalizing s with
  | nil => exact .err ⟨rfl, fun _ h => absurd h not_mem_nil⟩
  | cons c rest ih =>
    refine (looks_granted.fatEntry c).refuses.bind fun value t ht => ?_
    obtain ⟨htc, -, rfl, hl⟩ := (goes_fatEntry fits hs).ok fits hs ht
    refine .ite (fun _ => ((Granted.change _).bind fun _ => .pure _).refuses) fun hused => ?_
    refine (ih htc).mono fun _ u hu => ⟨hu.1.trans hl.disk, fun d hd => ?_⟩
    rcases mem_cons.1 hd with rfl | hd
    · exact hused
    · exact hl.disk ▸ hu.2 d hd

theorem refuses_findFreeCluster : Refuses v.findFreeCluster s fun _ t => t.disk = s.disk ∧
    v.geo.free t.disk = ∅ := by
  refine (refuses_firstFree (l := v.geo.scanFrom s.nextFreeHint) fits hs).mono fun _ _ h => ⟨h.1, ?_⟩
  rw [h.1]
  refine Finset.eq_empty_of_forall_notMem fun c hc => ?_
  obtain ⟨hheap, hzero⟩ := mem_freeSet.1 hc
  exact h.2 c (mem_scanFrom.2 hheap) hzero

theorem refuses_grow : Refuses (v.grow c) s fun _ t => v.geo.free t.disk = ∅ := by
  refine ((refuses_findFreeCluster fits hs).mono fun _ _ h => h.2).bind fun new _ _ => ?_
  exact ((granted_writeFatEntry _ _).bind fun _ => (granted_zeroCluster _).bind fun _ =>
    (granted_writeFatEntry _ _).bind fun _ => .pure _).refuses

theorem refuses_scan_grow {ρ : Type} {look : α → Sector → Place → α ⊕ ρ} {fuel : Nat} {a : α} :
    Refuses (v.scanFrom look (fun c _ => Sum.inl <$> v.grow c) fuel c a) s fun _ t => v.geo.free t.disk = ∅ := by
  induction fuel generalizing s c a with
  | zero => exact Granted.spent.refuses
  | succ fuel ih =>
    refine (looks_granted.clusterToLba c).refuses.bind fun lba t ht => ?_
    obtain ⟨hst, hheap, rfl, -⟩ := (goes_clusterToLba fits).sat.ok ht
    refine (looks_granted.scanSectors _ _ _).refuses.bind fun x u hu => ?_
    obtain ⟨htu, -⟩ := (goes_scanSectors_eq fits hheap fun k hk => mem_range.1 hk).sat.ok hu
    have huc := Steps.coherent fits (hst.trans htu) hs
    split
    · exact (Granted.pure _).refuses
    refine (looks_granted.nextCluster c).refuses.bind fun next w hw => ?_
    have hwc := ((goes_nextCluster fits huc).ok fits huc hw).1
    split
    · exact ih hwc
    refine (refuses_grow fits hwc).map.bind fun y z hz => ?_
    obtain ⟨n, z', hgrow, heq⟩ := Try.bind_eq_ok.1 hz
    cases heq
    exact ih (((goes_grow fits hwc).ok fits hwc hgrow).1)

def Volume.AliasFree (v : Volume) (disk : Nat → Sector) (dir : Nat) (name : Bytes) : Prop :=
  (makeShortName name).isSome ∨ ∃ i, 1 ≤ i ∧ i ≤ 999999 ∧
    v.geo.hasShort disk v.fuel dir (composeAlias (aliasBase name) (aliasExt name) i) = false

theorem refuses_aliasFrom {k : Nat} {base ext : List UInt8} :
    Refuses (v.aliasFrom dir base ext k n) s fun _ t => t.disk = s.disk ∧
      ∀ i, n ≤ i → i < n + k → v.geo.hasShort s.disk v.fuel dir (composeAlias base ext i) := by
  induction k generalizing s n with
  | zero => exact .err ⟨rfl, fun i _ _ => by omega⟩
  | succ k ih =>
    refine (looks_granted.scan _ _ _).refuses.bind fun taken t ht => ?_
    obtain ⟨htc, rfl, hl⟩ := (goes_shortAliasExists fits hs).ok fits hs ht
    refine .ite (fun htaken => ?_) fun _ => (Granted.pure _).refuses
    refine (ih htc).mono fun _ u hu => ⟨hu.1.trans hl.disk, fun i hlo hhi => ?_⟩
    rcases eq_or_lt_of_le hlo with rfl | hlo
    · exact htaken
    · exact hl.disk ▸ hu.2 i hlo (by omega)

theorem refuses_insertNamedEntry {attr : UInt8} {cluster size : Nat} :
    Refuses (v.insertNamedEntry dir name attr cluster size) s fun _ t =>
      (v.AliasFree s.disk dir name ∧ v.geo.free t.disk = ∅) ∨
      (¬ v.AliasFree s.disk dir name ∧ t.disk = s.disk) := by
  unfold insertNamedEntry
  cases hshort : makeShortName name with
  | some x =>
    have halias : v.AliasFree s.disk dir name := .inl (by rw [hshort]; rfl)
    exact (refuses_scan_grow fits hs).bind (fun _ _ _ => (granted_writeSector _ _ _).refuses) |>.mono
      fun _ _ h => .inl ⟨halias, h⟩
  | none =>
    have hfree (disk : Nat → Sector) : v.AliasFree disk dir name ↔ ∃ i, 1 ≤ i ∧ i ≤ 999999 ∧
        v.geo.hasShort disk v.fuel dir (composeAlias (aliasBase name) (aliasExt name) i) = false := by
      unfold Volume.AliasFree
      rw [hshort]
      exact or_iff_right nofun
    have hall : Refuses (v.generateShortAlias name dir) s fun _ t => ¬ v.AliasFree s.disk dir name ∧
        t.disk = s.disk := by
      refine (refuses_aliasFrom fits hs).mono fun _ t h => ⟨?_, h.1⟩
      rw [hfree]
      rintro ⟨i, hlo, hhi, hnot⟩
      rw [h.2 i hlo (by omega)] at hnot
      cases hnot
    refine (hall.mono fun _ _ => .inr).bind fun short t ht => ?_
    obtain ⟨htc, ⟨i, hlo, hhi, rfl⟩, hnot, hl⟩ := (goes_aliasFrom fits hs).ok fits hs ht
    have hrun : Refuses (v.writeEntryRun dir (buildNameEntries ((Utf16.unitsOf name).getD [])
        (composeAlias (aliasBase name) (aliasExt name) i) attr cluster size)) t fun _ u =>
            v.geo.free u.disk = ∅ :=
      (refuses_scan_grow fits htc).bind fun _ _ _ => (granted_rewrite _).refuses
    exact hrun.mono fun _ _ h => .inl ⟨(hfree _).2 ⟨i, hlo, by omega, hnot⟩, h⟩

theorem refuses_writeClusters {written : Nat} {ends : Option (Nat × Nat)} :
    Refuses (v.writeClusters data n ends written) s fun _ t => v.geo.free t.disk = ∅ := by
  induction n generalizing s ends written with
  | zero => exact (Granted.pure _).refuses
  | succ n ih =>
    refine ((refuses_findFreeCluster fits hs).mono fun _ _ h => h.2).bind fun c t ht => ?_
    have htc := ((goes_findFreeCluster fits hs).ok fits hs ht).1
    refine (granted_writeFatEntry _ _).refuses.bind fun _ u hu => ?_
    have huc := ((goes_writeFatEntry fits htc).ok fits htc hu).1
    refine (granted_linkAfter _ _).refuses.bind fun _ w hw => ?_
    have hwc := ((goes_linkAfter fits huc).ok fits huc hw).1
    refine (granted_fillCluster _ _ _).refuses.bind fun _ x hx => ?_
    exact ih (((goes_fillCluster fits).ok fits hwc hx).1)

theorem refuses_writeChain : Refuses (v.writeChain data) s fun _ t => data ≠ [] ∧ v.geo.free t.disk = ∅ :=
  Refuses.ite (fun _ => (Granted.pure _).refuses) fun hne =>
    (refuses_writeClusters fits hs).mono fun _ _ h => ⟨hne, h⟩

end Claims

/-! ## Slots that a scan gets to -/

structure IsEntry (raw : Sector) : Prop where
  used : raw 0 ≠ dirEntryEnd ∧ raw 0 ≠ dirEntryFree
  short : raw 11 ≠ attrLfn
  named : raw 11 &&& attrVolumeId = 0

/-- `p` is the slot of an entry, and the slots before it do not end the directory. -/
def Shows (disk : Nat → Sector) (l : List Place) (p : Place) : Prop :=
  ∃ before after, l = before ++ p :: after ∧ (∀ q ∈ before, slot (disk q.lba) q.offset 0 ≠ dirEntryEnd)
    ∧ IsEntry (slot (disk p.lba) p.offset)

section Shows
variable {changes : List (Place × List UInt8)}

theorem shows_of_mem_entriesFrom {n : Lfn} {e : DirEntry} (h : (e, p) ∈ entriesFrom disk l n) :
    Shows disk l p := by
  induction l generalizing n with
  | nil => cases h
  | cons q rest ih =>
    have hcons {n : Lfn} (hq : slot (disk q.lba) q.offset 0 ≠ dirEntryEnd)
        (h : (e, p) ∈ entriesFrom disk rest n) :
        Shows disk (q :: rest) p := by
      obtain ⟨before, after, rfl, hbefore, hp⟩ := ih h
      exact ⟨q :: before, after, rfl, forall_mem_cons.2 ⟨hq, hbefore⟩, hp⟩
    rw [entriesFrom, scanSlot] at h
    split_ifs at h with hend hfree hlfn hvol
    · cases h
    · exact hcons hend h
    · exact hcons hend h
    · exact hcons hend h
    rcases mem_cons.1 h with heq | h
    · cases heq
      exact ⟨[], rest, rfl, fun _ h => absurd h not_mem_nil, ⟨hend, hfree⟩, hlfn, not_not.1 hvol⟩
    · exact hcons hend h

theorem Shows.runBefore (h : Shows disk l p)
    {P : Place → Prop} (hl : ∀ q ∈ l, slot (disk q.lba) q.offset 11 = attrLfn → P q)
    {a : List Place × UInt8} (ha : ∀ q ∈ a.1, P q) :
    ∃ slots, foldSlots (Volume.runBefore p) disk l a = .inr (some slots) ∧ ∀ q ∈ slots, q = p ∨ P q := by
  obtain ⟨before, after, rfl, hbefore, ⟨hend, hfree⟩, hshort, hnamed⟩ := h
  have hfound {a : List Place × UInt8} {rest : List Place} (ha : ∀ q ∈ a.1, P q) :
      ∃ slots, foldSlots (runBefore p) disk (p :: rest) a = .inr (some slots) ∧ ∀ q ∈ slots, q = p ∨ P q := by
    refine ⟨_, by
      rw [foldSlots, runBefore, if_neg hend, if_neg hfree, if_neg hshort,
        if_neg (not_not.2 hnamed), if_pos rfl], ?_⟩
    intro q hq
    rcases mem_append.1 hq with hq | hq
    · split at hq
      · exact .inr (ha q hq)
      · cases hq
    · exact .inl (mem_singleton.1 hq)
  induction before generalizing a with
  | nil => exact hfound ha
  | cons q rest ih =>
    obtain ⟨hq, hrest⟩ := forall_mem_cons.1 hbefore
    have hl' : ∀ x ∈ rest ++ p :: after, slot (disk x.lba) x.offset 11 = attrLfn → P x :=
      fun x hx => hl x (mem_cons_of_mem q hx)
    have hnil (sum : UInt8) := @ih ([], sum) (fun _ h => absurd h not_mem_nil) hl' hrest
    by_cases heq : q = p
    · subst heq
      exact hfound ha
    rw [cons_append, foldSlots, runBefore, if_neg hq]
    by_cases hqfree : slot (disk q.lba) q.offset 0 = dirEntryFree
    · rw [if_pos hqfree]
      exact hnil _
    rw [if_neg hqfree]
    by_cases hqlfn : slot (disk q.lba) q.offset 11 = attrLfn
    · rw [if_pos hqlfn]
      refine ih (fun x hx => ?_) hl' hrest
      split at hx
      · rcases mem_append.1 hx with hx | hx
        · exact ha x hx
        · rw [mem_singleton.1 hx]
          exact hl q mem_cons_self hqlfn
      · exact ha x hx
    rw [if_neg hqlfn, if_neg heq, ite_self]
    exact hnil _

theorem Alike.isEntry (h : Alike disk disk' p) (hp : IsEntry (slot (disk' p.lba) p.offset)) :
    IsEntry (slot (disk p.lba) p.offset) := by
  have hbyte (k : Nat) (hk : k < dirEntrySize) :
    slot (disk p.lba) p.offset k = slot (disk' p.lba) p.offset k := h k hk
  obtain ⟨hused, hshort, hnamed⟩ := hp
  rw [← hbyte 0 (by decide)] at hused
  rw [← hbyte 11 (by decide)] at hshort hnamed
  exact ⟨hused, hshort, hnamed⟩

theorem used_puts {q : Place} (hq : q.Aligned)
    (hc : ∀ c ∈ changes, c.1.Aligned ∧ c.2.length ≤ dirEntrySize ∧ ∃ b rest, c.2 = b :: rest ∧ b ≠ dirEntryEnd)
    (hused : slot (disk q.lba) q.offset 0 ≠ dirEntryEnd) :
    slot (puts disk changes q.lba) q.offset 0 ≠ dirEntryEnd := by
  refine foldlRecOn (motive := fun d : Nat → Sector => slot (d q.lba) q.offset 0 ≠ dirEntryEnd) changes _
    hused ?_
  intro disk hused c hmem
  obtain ⟨hal, hlen, b, more, hb, hne⟩ := hc c hmem
  by_cases heq : c.1 = q
  · subst heq
    rw [put, update_self, slot, write_inside (by rw [hb]; exact succ_pos _)]
    simpa [hb] using hne
  · have hsame : slot (put disk c q.lba) q.offset 0 = slot (disk q.lba) q.offset 0 :=
      alike_put hq hal hlen heq 0 (by decide)
    rwa [hsame]

theorem Shows.puts (h : Shows disk l p) (hl : ∀ q ∈ l, q.Aligned)
    (hc : ∀ c ∈ changes, c.1.Aligned ∧ c.2.length ≤ dirEntrySize ∧ ∃ b rest, c.2 = b :: rest ∧ b ≠ dirEntryEnd)
    (hne : ∀ c ∈ changes, c.1 ≠ p) : Shows (puts disk changes) l p := by
  obtain ⟨before, after, rfl, hbefore, hp⟩ := h
  refine ⟨before, after, rfl, fun q hq => used_puts (hl q (mem_append_left _ hq)) hc (hbefore q hq), ?_⟩
  refine Alike.isEntry ?_ hp
  exact alike_puts (hl p (mem_append_right _ mem_cons_self)) (fun c h => ⟨(hc c h).1, (hc c h).2.1⟩) hne

end Shows

section Kept
variable (hfit : g.Fits reserved total) {src : Nat} {new : List Nat}

theorem aligned_of_mem_places (h : p ∈ g.places disk n c) : p.Aligned := by
  obtain ⟨d, -, hp⟩ := mem_flatMap.1 h
  obtain ⟨k, -, hp⟩ := mem_flatMap.1 hp
  obtain ⟨offset, hoffset, rfl⟩ := mem_map.1 hp
  obtain ⟨i, -, rfl⟩ := mem_map.1 hoffset
  exact mul_mod_left i dirEntrySize

theorem Extends.chain_append {T U : Nat → Nat} (h : Extends g T U) (n c : Nat) :
    ∃ more, g.chain U n c = g.chain T n c ++ more := by
  induction n generalizing c with
  | zero => exact ⟨[], rfl⟩
  | succ n ih =>
    rw [Geometry.chain, Geometry.chain]
    cases hn : g.next T c with
    | none => exact ⟨_, rfl⟩
    | some d =>
      obtain ⟨more, hmore⟩ := ih d
      exact ⟨more, by rw [h c d hn]; exact congrArg (c :: ·) hmore⟩

theorem Extends.places_append (h : Extends g (g.table disk) (g.table disk')) (n c : Nat) :
    ∃ more, g.places disk' n c = g.places disk n c ++ more := by
  obtain ⟨more, hmore⟩ := h.chain_append n c
  exact ⟨more.flatMap g.slotsOf, by rw [Geometry.places, hmore, flatMap_append, Geometry.places]⟩

theorem Shows.append (h : Shows disk l p) (more : List Place) : Shows disk (l ++ more) p := by
  obtain ⟨before, after, rfl, hbefore, hp⟩ := h
  exact ⟨before, after ++ more, by simp, hbefore, hp⟩

theorem Shows.congr (h : Shows disk l p) (hl : ∀ q ∈ l, disk' q.lba = disk q.lba) : Shows disk' l p := by
  obtain ⟨before, after, rfl, hbefore, hp⟩ := h
  refine ⟨before, after, rfl, fun q hq => ?_, ?_⟩
  · rw [hl q (mem_append_left _ hq)]
    exact hbefore q hq
  · rwa [hl p (mem_append_right _ mem_cons_self)]

theorem Lengthened.extends (h : Lengthened g c new disk disk') :
    Extends g (g.table disk) (g.table disk') :=
  fun x d hd => by rw [Geometry.next, h.links x d hd, ← hd, Geometry.next]

include hfit

theorem table_puts {changes : List (Place × List UInt8)} (h : ∀ c ∈ changes, g.IsData c.1.lba) :
    g.table (puts disk changes) = g.table disk :=
  foldlRecOn (motive := fun d => g.table d = g.table disk) changes _ rfl fun _ hd c hc =>
    (table_data hfit (h c hc)).trans hd

theorem Lengthened.places_same (h : Lengthened g c new disk disk')
    (hsrc : g.Chained (g.table disk) src) : ∀ q ∈ g.places disk n src, disk' q.lba = disk q.lba := by
  intro q hq
  obtain ⟨d, hd, hq⟩ := mem_flatMap.1 hq
  obtain ⟨k, hk, hlba⟩ := mem_slotsOf hq
  obtain ⟨i, hi⟩ := mem_chain hd
  have hheap : g.inHeap d := mem_chain_inHeap hsrc.1 hd
  rw [hlba]
  refine h.data _ (isData_dataLba hheap hk) fun m hm j hj heq => ?_
  have hdm := (dataLba_inj hfit hheap (h.free m hm).1 hk hj heq).1
  exact hsrc.used hi (hdm ▸ (h.free m hm).2)

theorem Inserted.shows {dst : Nat} {rows : List (List UInt8)} (h : Inserted g n dst rows disk disk')
    (hrows : ∀ row ∈ rows, IsRow row) (hsrc : g.Chained (g.table disk) src)
    (hp : Shows disk (g.places disk n src) p) :
    Shows disk' (g.places disk' n src) p := by
  obtain ⟨mid, new, before, locs, after, hlen, hrun, rfl⟩ := h
  have hloc {c : Place × List UInt8} (hc : c ∈ locs.zip rows) : c.1 ∈ g.places mid n dst := by
    rw [hrun.split]
    exact mem_append_left _ (mem_append_right _ (of_mem_zip hc).1)
  have htable : g.table (puts mid (locs.zip rows)) = g.table mid :=
    table_puts hfit fun c hc => hlen.isData (hloc hc)
  have hsame := hlen.places_same hfit (n := n) hsrc
  obtain ⟨more, hmore⟩ := hlen.extends.places_append n src
  have hmid : Shows mid (g.places mid n src) p := by
    rw [hmore]
    exact (hp.congr hsame).append more
  have hplaces : g.places (puts mid (locs.zip rows)) n src = g.places mid n src := by
    rw [Geometry.places, htable, Geometry.places]
  rw [hplaces]
  refine hmid.puts (fun q hq => aligned_of_mem_places hq) (fun c hc => ?_) fun c hc heq => ?_
  · obtain ⟨hlength, hused⟩ := hrows c.2 (of_mem_zip hc).2
    refine ⟨aligned_of_mem_places (hloc hc), hlength.le, ?_⟩
    obtain ⟨q, row⟩ := c
    cases row with
    | nil => cases hlength
    | cons b rest => exact ⟨b, rest, rfl, fun hb => hused.1 (congrArg some hb)⟩
  · -- the slot of an entry is not open
    have hopen := hrun.slots c.1 (of_mem_zip hc).1
    obtain ⟨-, -, -, -, ⟨hend, hfree⟩, -, -⟩ := hmid
    rw [heq] at hopen
    simp [isOpen, hend, hfree] at hopen

end Kept

section Free
variable (h : Shows s.disk (v.geo.places s.disk v.fuel dir) p)
include fits hs h

theorem goes_freeEntryWithLfn_eq : Goes v.geo total (v.freeEntryWithLfn dir p) s fun _ t => ∃ slots : List Place,
      t.disk = puts s.disk (slots.map (·, [dirEntryFree]))
      ∧ ∀ q ∈ slots, v.geo.IsData q.lba ∧ q.Aligned ∧ (q = p ∨ slot (s.disk q.lba) q.offset 11 = attrLfn) := by
  refine (goes_scan fits hs).bind fun found t hst hfound => ?_
  obtain ⟨hheap, hfound, hl⟩ := hfound
  obtain ⟨slots, hslots, hall⟩ := h.runBefore (a := ([], 0))
    (P := fun q => q ∈ v.geo.places s.disk v.fuel dir ∧ slot (s.disk q.lba) q.offset 11 = attrLfn)
    (fun q hq hlfn => ⟨hq, hlfn⟩) fun _ h => absurd h not_mem_nil
  rw [hslots] at hfound
  subst hfound
  have hplace {q : Place} (hq : q ∈ slots) : q ∈ v.geo.places s.disk v.fuel dir := by
    rcases hall q hq with rfl | hq
    · obtain ⟨before, after, heq, -⟩ := h
      rw [heq]
      exact mem_append_right _ mem_cons_self
    · exact hq.1
  have hdata {q : Place} (hq : q ∈ slots) : v.geo.IsData q.lba := isData_of_mem_places hheap (hplace hq)
  refine (goes_rewrite fits fun x hx => ?_).mono fun _ u _ hu => ⟨slots, by rw [hu.1, hl.disk], fun q hq => ?_⟩
  · obtain ⟨q, hq, rfl⟩ := mem_map.1 hx
    exact hdata hq
  · exact ⟨hdata hq, aligned_of_mem_places (hplace hq), (hall q hq).imp_right And.right⟩

theorem refuses_freeEntryWithLfn : Refuses (v.freeEntryWithLfn dir p) s E := by
  refine (looks_granted.scan _ _ _).refuses.bind fun found t ht => ?_
  obtain ⟨-, -, hfound, -⟩ := (goes_scan fits hs).sat.ok ht
  obtain ⟨slots, hslots, -⟩ :=
    h.runBefore (a := ([], 0)) (P := fun _ => True) (fun _ _ _ => trivial) fun _ _ => trivial
  rw [hslots] at hfound
  subst hfound
  exact (granted_rewrite _).refuses

theorem goes_freeEntryWithLfn_shows {src : Nat} {q : Place}
    (hq : Shows s.disk (v.geo.places s.disk v.fuel src) q) (hne : q ≠ p) :
    Goes v.geo total (v.freeEntryWithLfn dir p) s fun _ t => Shows t.disk
      (v.geo.places t.disk v.fuel src) q := by
  refine (goes_freeEntryWithLfn_eq fits hs h).mono fun _ t _ ht => ?_
  obtain ⟨slots, hdisk, hslots⟩ := ht
  have hmem {c : Place × List UInt8} (hc : c ∈ slots.map (·, [dirEntryFree])) :
      c.1 ∈ slots ∧ c.2 = [dirEntryFree] := by
    obtain ⟨x, hx, rfl⟩ := mem_map.1 hc
    exact ⟨hx, rfl⟩
  have htable : v.geo.table t.disk = v.geo.table s.disk := by
    rw [hdisk]
    exact table_puts fits fun c hc => (hslots c.1 (hmem hc).1).1
  have hplaces : v.geo.places t.disk v.fuel src = v.geo.places s.disk v.fuel src := by
    rw [Geometry.places, htable, Geometry.places]
  rw [hplaces, hdisk]
  refine hq.puts (fun x hx => aligned_of_mem_places hx) (fun c hc => ?_) fun c hc heq => ?_
  · rw [(hmem hc).2]
    exact ⟨(hslots c.1 (hmem hc).1).2.1, by decide, _, _, rfl, by decide⟩
  obtain ⟨-, -, -, -, -, hshort, -⟩ := hq
  rcases (hslots c.1 (hmem hc).1).2.2 with hp | hlfn
  · exact hne (heq.symm.trans hp)
  · rw [heq] at hlfn
    exact hshort hlfn

end Free

/-! ## Calls that claim -/

def Volume.target (v : Volume) (disk : Nat → Sector) (path : Bytes) : Option (Nat × Bytes) :=
  (splitParent path).bind fun x =>
    (v.resolve disk (components x.1) (DirEntry.root v.geo.rootCluster)).bind fun dir =>
      if dir.isDir then some (dir.cluster, x.2) else none

def Volume.answer (v : Volume) (disk : Nat → Sector) (dir : Nat) (name : Bytes) : Option (DirEntry × Place) :=
  (v.geo.entries disk v.fuel dir).find? fun x => namesMatch x.1.name name

def Volume.Creates (v : Volume) (disk : Nat → Sector) (dir : Nat) (name : Bytes) : Prop :=
  validateCreateName name ∧ v.answer disk dir name = none

/-- the call gets as far as the first cluster it would claim: `mkdir` and a new file of some bytes when the
name is free, an entry when it has an alias, a file overwritten, an empty file written to. -/
def Volume.Claims (v : Volume) (disk : Nat → Sector) : Request → Prop
  | .mkdir path => ∃ dir name, v.target disk path = some (dir, name) ∧ v.Creates disk dir name
  | .touch path =>
    ∃ dir name, v.target disk path = some (dir, name) ∧ v.Creates disk dir name ∧ v.AliasFree disk dir name
  | .writeFile path data => ∃ dir name, v.target disk path = some (dir, name) ∧
      ((data ≠ [] ∧ ∃ x, v.answer disk dir name = some x ∧ ¬ x.1.isDir)
        ∨ (v.Creates disk dir name ∧ (data ≠ [] ∨ v.AliasFree disk dir name)))
  | .writeAt path offset data =>
    ∃ dir name x, v.target disk path = some (dir, name) ∧ v.answer disk dir name = some x ∧
      ¬ x.1.isDir ∧ x.1.cluster = 0 ∧ data ≠ [] ∧ ¬ (x.1.size < offset ∧ maxGapFill < offset - x.1.size)
  | .mv src dst => ∃ srcDir srcName dstDir dstName x, v.target disk src = some (srcDir, srcName) ∧
      v.target disk dst = some (dstDir, dstName) ∧ validateCreateName dstName ∧
        v.answer disk srcDir srcName = some x ∧
      v.AliasFree disk dstDir dstName ∧
      ∀ y, v.answer disk dstDir dstName = some y → ¬ (y.2 = x.2 ∧ srcName = dstName) ∧ ¬ x.1.isDir ∧ ¬ y.1.isDir
  | _ => False

/-- a call refused: before it claims, or when no cluster is left, or with one it keeps. -/
def Verdict (g : Geometry) (claims : Prop) (s t : Fs) : Prop :=
  (¬ claims ∧ t.disk = s.disk) ∨ (claims ∧ (g.free t.disk = ∅ ∨ ∃ c ∈ g.free s.disk, c ∉ g.free t.disk))

theorem Verdict.free_iff {claims : Prop} (h : Verdict g claims s t) :
    g.free t.disk = g.free s.disk ↔ g.free s.disk = ∅ ∨ ¬ claims := by
  rcases h with ⟨hnot, hdisk⟩ | ⟨hclaims, hfree | ⟨c, hc, hnot⟩⟩
  · exact iff_of_true (by rw [hdisk]) (.inr hnot)
  · rw [hfree, eq_comm]
    exact ⟨.inl, fun h => h.resolve_right (not_not.2 hclaims)⟩
  refine iff_of_false (fun heq => hnot (heq ▸ hc)) fun h => ?_
  rcases h with h | h
  · rw [h] at hc
    cases hc
  · exact h hclaims

theorem Volume.target_name {path dir n : Bytes}
    (hsplit : splitParent path = some (dir, name)) (h : v.target disk path = some (c, n)) : n = name := by
  rw [target, hsplit, bind_some] at h
  obtain ⟨parent, -, h⟩ := bind_eq_some_iff.1 h
  split at h <;> cases h
  rfl

section Paths
include fits

theorem refuses_findFrom {l : List Bytes} {e : DirEntry} (hs : Coherent v.geo s) :
    Refuses (v.findFrom l e) s fun _ t => t.disk = s.disk ∧ v.resolve s.disk l e = none := by
  induction l generalizing s e with
  | nil => exact (Granted.pure _).refuses
  | cons name rest ih =>
    refine .ite (fun _ => (Granted.err rfl).refuses) fun hdir => ?_
    refine (looks_granted.lookup _ _).refuses.bind fun found t ht => ?_
    obtain ⟨htc, hheap, rfl, hl⟩ := (goes_lookup_eq fits hs).ok fits hs ht
    rw [resolve, if_pos ⟨by simpa using hdir, hheap⟩]
    split
    · rename_i x p hx
      rw [hx, bind_some]
      exact (ih htc).mono fun _ u hu => ⟨hu.1.trans hl.disk, hl.disk ▸ hu.2⟩
    rename_i hx
    rw [hx]
    exact .err ⟨hl.disk, rfl⟩

theorem refuses_findDir_bind {path dir : Bytes} {f : DirEntry → Op α}
    (hsplit : splitParent path = some (dir, name)) (hs : Coherent v.geo s)
    (hnone : v.target s.disk path = none → ∀ e t, t.disk = s.disk → E e t)
    (hf : ∀ parent t, v.target s.disk path = some (parent.cluster, name) →
      v.geo.Directory s.disk parent.cluster →
      Steps v.geo total s t → Coherent v.geo t → t.disk = s.disk → Refuses (f parent) t E) :
    Refuses (v.findDir dir >>= f) s E := by
  have htarget (x : Option DirEntry)
      (hx : v.resolve s.disk (components dir) (DirEntry.root v.geo.rootCluster) = x) :
      v.target s.disk path = x.bind fun dir => if dir.isDir then some (dir.cluster, name) else none := by
    rw [target, hsplit, bind_some, hx]
  have hfind : Refuses (v.findDir dir) s E := by
    refine ((refuses_findFrom fits hs).mono fun e t h => ?_).bind fun _ _ _ => ?_
    · exact hnone (htarget _ h.2) e t h.1
    · exact .ite (fun _ => (Granted.err rfl).refuses) fun _ => (Granted.pure _).refuses
  refine hfind.bind fun parent t ht => ?_
  obtain ⟨x, u, hx, hu⟩ := Try.bind_eq_ok.1 ht
  obtain ⟨hdir, hu⟩ := Try.ite_fail_eq_ok.1 hu
  cases hu
  obtain ⟨hsu, hresolve, hl⟩ := (goes_find_eq fits hs).sat.ok hx
  have hdir : parent.isDir := by simpa using hdir
  refine hf parent t ?_ (Geometry.Directory.resolve (fun _ => .root) hresolve hdir) hsu
    (hsu.coherent fits hs) hl.disk
  rw [htarget _ hresolve, bind_some, if_pos hdir]

theorem refuses_lookup_bind {f : Option (DirEntry × Place) → Op α}
    (hs : Coherent v.geo s) (hf : ∀ t, Steps v.geo total s t → Coherent v.geo t → t.disk = s.disk →
      Refuses (f (v.answer s.disk c name)) t E) : Refuses (v.lookup c name >>= f) s E := by
  refine (looks_granted.lookup _ _).refuses.bind fun found t ht => ?_
  obtain ⟨hst, -, rfl, hl⟩ := (goes_lookup_eq fits hs).sat.ok ht
  exact hf t hst (hst.coherent fits hs) hl.disk

end Paths

/-! ## The operations -/

theorem Verdict.kept {claims : Prop} (h : ¬ claims) (ht : t.disk = s.disk) : Verdict g claims s t := .inl ⟨h, ht⟩

section Operations
variable {path : Bytes} {cluster size srcDir dstDir : Nat} {srcName dstName : Bytes} {attr : UInt8}
    {src : DirEntry × Place}
include fits

theorem claimed_notMem {value : Nat} (hs : Coherent v.geo s) (h : v.writeFatEntry c value s = (.ok (), t))
    (hvalue : value % 2 ^ 28 ≠ 0) : c ∉ v.geo.free t.disk := by
  obtain ⟨-, hent⟩ := (goes_writeFatEntry fits hs).sat.ok h
  intro hmem
  have hzero := (mem_freeSet.1 hmem).2
  rw [hent.table, update_self] at hzero
  exact hvalue hzero

theorem refuses_insert (ht : Coherent v.geo t) (hdisk : t.disk = s.disk) :
    Refuses (v.insertNamedEntry dir name attr cluster size) t fun _ u => Verdict v.geo
      (v.AliasFree s.disk dir name) s u := by
  refine (refuses_insertNamedEntry fits ht).mono fun _ u hu => ?_
  rw [hdisk] at hu
  exact hu.elim (fun h => .inr ⟨h.1, .inl h.2⟩) fun h => .kept h.1 h.2

theorem refuses_create {m : Op Unit} {K : DirEntry → Bytes → Option (DirEntry × Place) → Op Unit}
    {P : Nat → Bytes → Prop} (hs : Coherent v.geo s) (hroot : splitParent path = none → m = err .invalidName)
    (hm : ∀ dir name, splitParent path = some (dir, name) →
      m = if !validateCreateName name then err .invalidName else do
      let parent ← v.findDir dir
      let found ← v.lookup parent.cluster name
      K parent name found)
    (hfound : ∀ parent name x t, t.disk = s.disk → Refuses (K parent name (some x)) t fun _ u => u.disk = s.disk)
    (hfree : ∀ parent name t, Coherent v.geo t → t.disk = s.disk →
      Refuses (K parent name none) t fun _ u => Verdict v.geo (P parent.cluster name) s u) :
    Refuses m s fun _ t =>
      Verdict v.geo (∃ dir name, v.target s.disk path = some (dir, name) ∧ v.Creates s.disk dir name ∧
        P dir name) s t := by
  cases hsplit : splitParent path with
  | none =>
    rw [hroot hsplit]
    exact .err (.kept (by simp [target, hsplit]) rfl)
  | some x =>
    obtain ⟨dir, name⟩ := x
    rw [hm dir name hsplit]
    cases hvalid : validateCreateName name with
    | false =>
      refine .err (.kept ?_ rfl)
      rintro ⟨c, n, htarget, ⟨hn, -⟩, -⟩
      rw [target_name hsplit htarget, hvalid] at hn
      cases hn
    | true =>
      refine refuses_findDir_bind fits hsplit hs (fun hnone _ t ht => .kept (by simp [hnone]) ht)
        fun parent t htarget _ _ htc ht => ?_
      refine refuses_lookup_bind fits htc fun u _ huc hu => ?_
      rw [ht] at hu ⊢
      cases hx : v.answer s.disk parent.cluster name with
      | some x =>
        refine (hfound parent name x u hu).mono fun _ w hw => .kept ?_ hw
        simp [htarget, Volume.Creates, hx]
      | none =>
        refine (hfree parent name u huc hu).mono fun _ w hw => ?_
        simpa [htarget, Volume.Creates, hvalid, hx] using hw

theorem refuses_touch (hs : Coherent v.geo s) :
    Refuses (v.touch path) s fun _ t => Verdict v.geo (v.Claims s.disk (.touch path)) s t := by
  refine refuses_create (P := v.AliasFree s.disk) fits hs (fun h => by rw [touch, h])
    (fun dir name h => by rw [touch, h]) (fun parent name x t _ => ?_) fun parent name t htc ht => ?_
  · exact (Granted.ite (fun _ => .err rfl) fun _ => .pure _).refuses
  · exact refuses_insert fits htc ht

theorem refuses_mkdir (hs : Coherent v.geo s) :
    Refuses (v.mkdir path) s fun _ t => Verdict v.geo (v.Claims s.disk (.mkdir path)) s t := by
  have hcreate := refuses_create (m := v.mkdir path) (P := fun _ _ => True) fits hs
    (fun h => by rw [mkdir, h]) (fun dir name h => by rw [mkdir, h])
    (fun parent name x t ht => ?_) fun parent name t htc ht => ?_
  · refine hcreate.mono fun _ t h => ?_
    simpa only [Volume.Claims, and_true] using h
  · exact .err ht
  · refine ((refuses_findFreeCluster fits htc).mono fun _ u h => .inr ⟨trivial, .inl h.2⟩).bind
      fun new u hu => ?_
    obtain ⟨huc, hheap, hzero, hl⟩ := (goes_findFreeCluster fits htc).ok fits htc hu
    have hnew : new ∈ v.geo.free s.disk := mem_freeSet.2 ⟨hheap, by rw [← ht]; exact hzero⟩
    refine (granted_writeFatEntry _ _).refuses.bind fun _ w hw => ?_
    have hwc := ((goes_writeFatEntry fits huc).ok fits huc hw).1
    have hclaimed := claimed_notMem fits huc hw (by decide)
    refine (granted_zeroCluster _).refuses.bind fun _ x hx => ?_
    obtain ⟨hwx, hfill⟩ := (goes_zeroCluster fits).sat.ok hx
    refine (looks_granted.clusterToLba _).refuses.bind fun lba y hy => ?_
    obtain ⟨hxy, hnewHeap, rfl, hly⟩ := (goes_clusterToLba fits).sat.ok hy
    refine (granted_writeSector _ _ _).refuses.bind fun _ z hz => ?_
    obtain ⟨hyz, -, hkeep⟩ := (goes_writeData fits (isData_dataLba hnewHeap fits.sectors_pos)).sat.ok hz
    have hzc := Steps.coherent fits ((hwx.trans hxy).trans hyz) hwc
    have hfree : v.geo.free z.disk = v.geo.free w.disk := by
      rw [Geometry.free, hkeep.table, hly.disk, hfill.2.table, Geometry.free]
    refine (refuses_insertNamedEntry fits hzc).mono fun _ a ha => .inr ⟨trivial, ?_⟩
    rcases ha with ⟨-, ha⟩ | ⟨-, ha⟩
    · exact .inl ha
    · exact .inr ⟨new, hnew, by rwa [ha, hfree]⟩

omit fits in
theorem free_claim_subset {value : Nat} (hvalue : value ≠ 0)
    (h : v.geo.table disk' = Function.update (v.geo.table disk) c value) :
    v.geo.free disk' = (v.geo.free disk).erase c := by
  rw [Geometry.free, h, freeSet_claim hvalue, Geometry.free]

theorem goes_writeClusters_claims {written : Nat} {ends : Option (Nat × Nat)} (hs : Coherent v.geo s) :
    Goes v.geo total (v.writeClusters data n ends written) s fun _ t =>
      v.geo.free t.disk ⊆ v.geo.free s.disk ∧ (0 < n → ∃ c ∈ v.geo.free s.disk, c ∉ v.geo.free t.disk) := by
  induction n generalizing s ends written with
  | zero => exact .pure ⟨Finset.Subset.refl _, nofun⟩
  | succ n ih =>
    refine (goes_findFreeCluster fits hs).next fits hs fun c t htc h => ?_
    obtain ⟨hheap, hzero, hl⟩ := h
    refine (goes_writeFatEntry fits htc).next fits htc fun _ u huc hu => ?_
    have hclaim : v.geo.free u.disk = (v.geo.free s.disk).erase c := by
      rw [free_claim_subset (by decide) hu.table, hl.disk]
    have hlink : Goes v.geo total (v.linkAfter ends c) u fun _ w => v.geo.free w.disk ⊆ v.geo.free u.disk := by
      unfold linkAfter
      split
      · refine (goes_writeFatEntry fits huc).mono fun _ w _ hw => ?_
        rw [free_claim_subset (mod_ne_zero fits hheap) hw.table]
        exact Finset.erase_subset _ _
      · exact .pure (Finset.Subset.refl _)
    refine hlink.bind fun _ w huw hw => (goes_fillCluster fits).bind fun _ x hwx hx => ?_
    have hxfree : v.geo.free x.disk ⊆ (v.geo.free s.disk).erase c := by
      rw [← hclaim, Geometry.free, hx.2.table]
      exact hw
    refine (ih (Steps.coherent fits (huw.trans hwx) huc)).mono fun _ y _ hy => ?_
    refine ⟨(hy.1.trans hxfree).trans (Finset.erase_subset _ _), fun _ =>
      ⟨c, mem_freeSet.2 ⟨hheap, hzero⟩, fun hmem => ?_⟩⟩
    exact (Finset.mem_erase.1 (hxfree (hy.1 hmem))).1 rfl

theorem goes_writeChain_claims (hs : Coherent v.geo s) (hne : data ≠ []) :
    Goes v.geo total (v.writeChain data) s fun _ t => ∃ c ∈ v.geo.free s.disk, c ∉ v.geo.free t.disk := by
  refine .ite (fun hnil => absurd hnil hne) fun _ => (goes_writeClusters_claims fits hs).mono
    fun _ t _ h => h.2 ?_
  have hpos : 0 < v.geo.clusterBytes := mul_pos fits.sectors_pos (by decide)
  have hlen := length_pos_iff.2 hne
  exact div_pos (by omega) hpos

theorem refuses_writeFile (hs : Coherent v.geo s) :
    Refuses (v.writeFile path data) s fun _ t => Verdict v.geo (v.Claims s.disk (.writeFile path data)) s t := by
  unfold writeFile
  cases hsplit : splitParent path with
  | none =>
    exact .err (.kept (by simp [Volume.Claims, target, hsplit]) rfl)
  | some x =>
    obtain ⟨dir, name⟩ := x
    refine refuses_findDir_bind fits hsplit hs (fun hnone _ t ht => .kept (by simp [Volume.Claims, hnone]) ht)
      fun parent t htarget _ _ htc ht => ?_
    refine refuses_lookup_bind fits htc fun u _ huc hu => ?_
    rw [ht] at hu ⊢
    cases hx : v.answer s.disk parent.cluster name with
    | some x =>
      obtain ⟨e, p⟩ := x
      refine .ite (fun _ => (Granted.err rfl).refuses) fun hfile => ?_
      refine .bind ?_ fun new w _ =>
        ((granted_freeFile _).bind fun _ => granted_patchEntryClusterSize _ _ _).refuses
      refine (refuses_writeChain fits huc).mono fun _ w hw => .inr ⟨?_, .inl hw.2⟩
      exact ⟨_, _, htarget, .inl ⟨hw.1, (e, p), hx, hfile⟩⟩
    | none =>
      refine .ite (fun hinvalid => .err ?_) fun hvalid => ?_
      · refine .kept ?_ hu
        simp only [Bool.not_eq_true'] at hinvalid
        simp [Volume.Claims, htarget, hx, Volume.Creates, hinvalid]
      have hcreates : v.Creates s.disk parent.cluster name := ⟨by simpa using hvalid, hx⟩
      have hclaims (h : data ≠ [] ∨ v.AliasFree s.disk parent.cluster name) :
          v.Claims s.disk (.writeFile path data) :=
        ⟨_, _, htarget, .inr ⟨hcreates, h⟩⟩
      refine .bind ((refuses_writeChain fits huc).mono fun _ w hw => .inr ⟨hclaims (.inl hw.1), .inl hw.2⟩)
        fun new w hw => ?_
      have hwc := ((goes_writeChain fits huc).ok fits huc hw).1
      by_cases hnil : data = []
      · -- an empty file has no chain
        have hwdisk : w.disk = s.disk := by
          rw [writeChain, if_pos hnil] at hw
          cases hw
          exact hu
        refine (refuses_insertNamedEntry fits hwc).mono fun _ z hz => ?_
        rw [hwdisk] at hz
        refine hz.elim (fun h => .inr ⟨hclaims (.inr h.1), .inl h.2⟩) fun h => .kept ?_ h.2
        simp [Volume.Claims, htarget, hnil, h.1]
      · obtain ⟨-, c, hc, hcw⟩ := (goes_writeChain_claims fits huc hnil).sat.ok hw
        rw [hu] at hc
        refine (refuses_insertNamedEntry fits hwc).mono fun _ z hz => .inr ⟨hclaims (.inl hnil), ?_⟩
        exact hz.imp And.right fun h => ⟨c, hc, by rwa [h.2]⟩

omit fits in
theorem shows_of_answer {x : DirEntry × Place}
    (h : v.answer disk dir name = some x) : Shows disk (v.geo.places disk v.fuel dir) x.2 :=
  shows_of_mem_entriesFrom (e := x.1) (mem_of_find?_eq_some h)

theorem insertNamedEntry_shows {dst src : Nat}
    (hs : Coherent v.geo s) (hdst : v.geo.Chained (v.geo.table s.disk) dst)
    (hsrc : v.geo.Chained (v.geo.table s.disk) src) (hp : Shows s.disk (v.geo.places s.disk v.fuel src) p)
    (h : v.insertNamedEntry dst name attr cluster size s = (.ok (), t)) :
    Coherent v.geo t ∧ Shows t.disk (v.geo.places t.disk v.fuel src) p := by
  obtain ⟨ht, short, rows, hrows, hins⟩ := (goes_insertNamedEntry_eq fits hs hdst).ok fits hs h
  exact ⟨ht, hins.shows fits (isRow_of_nameRows hrows) hsrc hp⟩

theorem refuses_replace {dst : DirEntry × Place} {C : Prop}
    (ht : Coherent v.geo t) (hdisk : t.disk = s.disk) (hdst : v.geo.Chained (v.geo.table s.disk) dstDir)
    (hsrc : v.geo.Chained (v.geo.table s.disk) srcDir) (hx : v.answer s.disk srcDir srcName = some src)
    (hy : v.answer s.disk dstDir dstName = some dst)
    (hC : C ↔ v.AliasFree s.disk dstDir dstName ∧ ¬ (dst.2 = src.2 ∧ srcName = dstName) ∧
      ¬ src.1.isDir ∧ ¬ dst.1.isDir) :
    Refuses (v.replace srcDir dstDir srcName dstName src dst) t fun _ u => Verdict v.geo C s u := by
  rw [← hdisk] at hx hy hdst hsrc
  refine .ite (fun _ => (Granted.pure _).refuses) fun hsame => .ite (fun hdir => .err ?_) fun hdir => ?_
  · refine .kept ?_ hdisk
    rw [hC]
    exact fun h => hdir.elim h.2.2.1 h.2.2.2
  have hC : C ↔ v.AliasFree s.disk dstDir dstName := by
    rw [hC]
    simp only [decide_eq_true_eq] at hsame
    exact and_iff_left ⟨hsame, not_or.1 hdir⟩
  rw [hC]
  refine (refuses_insert fits ht hdisk).bind fun _ u hu => ?_
  obtain ⟨huc, hdstShows⟩ := insertNamedEntry_shows fits ht hdst hdst (shows_of_answer hy) hu
  have hsrcShows := (insertNamedEntry_shows fits ht hdst hsrc (shows_of_answer hx) hu).2
  refine (refuses_freeEntryWithLfn fits huc hdstShows).bind fun _ w hw => ?_
  refine .ite (fun _ => (Granted.pure _).refuses) fun hne => ?_
  simp only [decide_eq_true_eq] at hne
  obtain ⟨hwc, hshows⟩ := (goes_freeEntryWithLfn_shows fits huc hdstShows hsrcShows (Ne.symm hne)).ok fits huc hw
  refine (refuses_freeEntryWithLfn fits hwc hshows).bind fun _ x _ => ?_
  exact (Granted.ite (fun _ => granted_freeChain _) fun _ => .pure _).refuses

theorem refuses_relink (ht : Coherent v.geo t)
    (hdisk : t.disk = s.disk) (hdst : v.geo.Chained (v.geo.table s.disk) dstDir)
    (hsrc : v.geo.Chained (v.geo.table s.disk) srcDir) (hx : v.answer s.disk srcDir srcName = some src) :
    Refuses (v.relink srcDir dstDir dstName src) t fun _ u => Verdict v.geo
      (v.AliasFree s.disk dstDir dstName) s u := by
  rw [← hdisk] at hx hdst hsrc
  refine (refuses_insert fits ht hdisk).bind fun _ u hu => ?_
  obtain ⟨huc, hshows⟩ := insertNamedEntry_shows fits ht hdst hsrc (shows_of_answer hx) hu
  refine (refuses_freeEntryWithLfn fits huc hshows).bind fun _ w _ => ?_
  exact (Granted.ite (fun _ => (looks_granted.clusterToLba _).bind fun _ => granted_patchEntryClusterSize _ _ _)
    fun _ => .pure _).refuses

theorem refuses_mv {src dst : Bytes} (hs : Coherent v.geo s)
    (hdirs : ∀ c, v.geo.Directory s.disk c → v.geo.Chained (v.geo.table s.disk) c) :
    Refuses (v.mv src dst) s fun _ t => Verdict v.geo (v.Claims s.disk (.mv src dst)) s t := by
  unfold mv
  cases hsrc : splitParent src with
  | none =>
    refine .err ?_
    exact .kept (by simp [Volume.Claims, target, hsrc]) rfl
  | some x =>
    obtain ⟨srcPath, srcName⟩ := x
    cases hdst : splitParent dst with
    | none =>
      refine .err ?_
      exact .kept (by simp [Volume.Claims, (by simp [target, hdst] : v.target s.disk dst = none)]) rfl
    | some y =>
      obtain ⟨dstPath, dstName⟩ := y
      refine .ite (fun hinvalid => .err (.kept ?_ rfl)) fun hvalid => ?_
      · rintro ⟨-, -, c, n, -, -, htarget, hn, -⟩
        rw [target_name hdst htarget] at hn
        simp [hn] at hinvalid
      have hvalid : validateCreateName dstName := by simpa using hvalid
      refine refuses_findDir_bind fits hsrc hs (fun hnone _ t ht => .kept (by simp [Volume.Claims, hnone]) ht)
        fun srcParent t hsrcTarget hsrcDir _ htc ht => ?_
      refine refuses_findDir_bind fits hdst htc (fun hnone _ u hu => .kept ?_ (hu.trans ht))
        fun dstParent u hdstTarget hdstDir _ huc hu => ?_
      · rw [ht] at hnone
        simp [Volume.Claims, hnone]
      rw [ht] at hdstTarget hdstDir hu
      refine refuses_lookup_bind fits huc fun w _ hwc hw => ?_
      rw [hu] at hw ⊢
      cases hx : v.answer s.disk srcParent.cluster srcName with
      | none =>
        refine .err (.kept ?_ hw)
        simp [Volume.Claims, hsrcTarget, hx]
      | some x =>
        obtain ⟨e, p⟩ := x
        refine refuses_lookup_bind fits hwc fun z _ hzc hz => ?_
        rw [hw] at hz ⊢
        cases hy : v.answer s.disk dstParent.cluster dstName with
        | some y =>
          obtain ⟨e', q⟩ := y
          refine refuses_replace fits hzc hz (hdirs _ hdstDir) (hdirs _ hsrcDir) hx hy ?_
          simp [Volume.Claims, hsrcTarget, hdstTarget, hvalid, hx, hy]
        | none =>
          refine (refuses_relink fits hzc hz (hdirs _ hdstDir) (hdirs _ hsrcDir) hx).mono fun _ a ha => ?_
          simpa [Volume.Claims, hsrcTarget, hdstTarget, hvalid, hx, hy] using ha

end Operations

/-! ## Writing at an offset -/

/-- no link is lost, and what has been claimed is on the chain from `head`. -/
structure Owns (g : Geometry) (head : Nat) (s t : Fs) : Prop where
  links : Extends g (g.table s.disk) (g.table t.disk)
  subset : g.free t.disk ⊆ g.free s.disk
  claimed : ∀ c ∈ g.free s.disk, c ∉ g.free t.disk → ∃ n, g.reach (g.table t.disk) head n = some c

section Owns
variable {head : Nat} {u : Fs}

theorem Owns.of_table (h : g.table t.disk = g.table s.disk) : Owns g head s t where
  links := by
    rw [h]
    exact Extends.refl _ _
  subset := by rw [Geometry.free, h, Geometry.free]
  claimed c hc hnot := by
    rw [Geometry.free, h] at hnot
    exact absurd hc hnot

theorem Owns.trans (h : Owns g head s t) (k : Owns g head t u) : Owns g head s u where
  links := h.links.trans k.links
  subset := k.subset.trans h.subset
  claimed c hc hnot := by
    by_cases ht : c ∈ g.free t.disk
    · exact k.claimed c ht hnot
    · obtain ⟨n, hn⟩ := h.claimed c hc ht
      exact ⟨n, k.links.reach hn⟩

variable {offset : Nat}
include fits

theorem goes_extendChain_owns {tail : Nat} (hs : Coherent v.geo s)
    (htail : v.geo.next (v.geo.table s.disk) tail = none)
    (hreach : v.geo.reach (v.geo.table s.disk) head n = some tail) :
    Goes v.geo total (v.extendChain tail) s fun new t =>
      Owns v.geo head s t ∧ v.geo.next (v.geo.table t.disk) tail = some new := by
  have htable : Goes v.geo total (v.extendChain tail) s fun new t => v.geo.inHeap new ∧ v.geo.table t.disk =
      update (update (v.geo.table s.disk) new (endOfChainMin % 2 ^ 28)) tail (new % 2 ^ 28) := by
    refine (goes_findFreeCluster fits hs).bind fun new t hst h => ?_
    have ht := hst.coherent fits hs
    refine (goes_writeFatEntry fits ht).next fits ht fun _ u huc hu => ?_
    refine (goes_writeFatEntry fits huc).bind fun _ w _ hw => .pure ⟨h.1, ?_⟩
    rw [hw.table, hu.table, h.2.2.disk]
  refine .mk (Try.sat_iff.2 ⟨fun new t hm => ?_, fun e t hm => (goes_extendChain fits hs htail).sat.error hm⟩)
  obtain ⟨hst, hlinks, hnext⟩ := (goes_extendChain fits hs htail).sat.ok hm
  obtain ⟨-, hheap, htable⟩ := htable.sat.ok hm
  have hfree : v.geo.free t.disk = ((v.geo.free s.disk).erase new).erase tail := by
    rw [Geometry.free, htable, freeSet_claim (mod_ne_zero fits hheap), freeSet_claim (by decide), Geometry.free]
  have htailT := hlinks.reach hreach
  refine ⟨hst, ⟨hlinks, ?_, fun c hc hnot => ?_⟩, hnext⟩
  · rw [hfree]
    exact (Finset.erase_subset _ _).trans (Finset.erase_subset _ _)
  rw [hfree, Finset.mem_erase, Finset.mem_erase] at hnot
  by_cases hct : c = tail
  · exact ⟨n, by rw [hct]; exact htailT⟩
  have hcn : c = new := by
    by_contra hne
    exact hnot ⟨hct, hne, hc⟩
  refine ⟨n + 1, ?_⟩
  rw [Geometry.reach, htailT, bind_some, hcn, hnext]

/-- `m` claims for the chain from `head` only, and is refused when no cluster is left. -/
structure Lengthens (g : Geometry) (total head : Nat) {α : Type} (m : Op α) (s : Fs) (Q : α → Fs → Prop) :
    Prop where
  goes : Goes g total m s fun a t => Owns g head s t ∧ Q a t
  refuses : Refuses m s fun _ t => Owns g head s t ∧ g.free t.disk = ∅

omit fits in
theorem Lengthens.of_granted {Q : α → Fs → Prop} (h : Granted m)
    (hm : Goes g total m s fun a t => g.table t.disk = g.table s.disk ∧ Q a t) : Lengthens g total head m s Q :=
  ⟨hm.mono fun _ _ _ h => ⟨.of_table h.1, h.2⟩, h.refuses⟩

omit fits in
theorem Lengthens.bind {f : α → Op β} {Q : α → Fs → Prop} {R : β → Fs → Prop} (h : Lengthens g total head m s Q)
    (hf : ∀ a t, Steps g total s t → Owns g head s t → Q a t → Lengthens g total head (f a) t R) :
    Lengthens g total head (m >>= f) s R where
  goes := h.goes.bind fun a t hst ha => (hf a t hst ha.1 ha.2).goes.mono fun _ _ _ hu => ⟨ha.1.trans hu.1, hu.2⟩
  refuses := h.refuses.bind fun a t hm => by
    obtain ⟨hst, howns, hQ⟩ := h.goes.sat.ok hm
    exact (hf a t hst howns hQ).refuses.mono fun _ _ hu => ⟨howns.trans hu.1, hu.2⟩

theorem lengthens_nextOrExtend (hs : Coherent v.geo s)
    (hreach : v.geo.reach (v.geo.table s.disk) head n = some c) :
    Lengthens v.geo total head (v.nextOrExtend c) s fun d t => v.geo.next (v.geo.table t.disk) c = some d := by
  refine .bind (.of_granted (looks_granted.nextCluster c)
    ((goes_nextCluster fits hs).mono fun _ _ _ h => ⟨by rw [h.2.2.disk], h⟩)) fun next t hst _ h => ?_
  obtain ⟨-, rfl, hl⟩ := h
  have ht := hst.coherent fits hs
  rw [← hl.disk] at hreach ⊢
  split
  · exact .of_granted (.pure _) (.pure ⟨rfl, ‹_›⟩)
  refine ⟨goes_extendChain_owns fits ht ‹_› hreach, ?_⟩
  refine ((refuses_findFreeCluster fits ht).mono fun _ u hu => ?_).bind fun _ _ _ => ?_
  · exact ⟨.of_table (by rw [hu.1]), hu.2⟩
  · exact ((granted_writeFatEntry _ _).bind fun _ => (granted_writeFatEntry _ _).bind fun _ => .pure _).refuses

theorem lengthens_advance {target fuel pos : Nat} (hs : Coherent v.geo s)
    (hreach : v.geo.reach (v.geo.table s.disk) head n = some c) (hpos : pos ≤ target)
    (htarget : target < 2 ^ 63 + 2 ^ 40) :
    Lengthens v.geo total head (v.advance target fuel c pos) s fun x t =>
      (∃ m, v.geo.reach (v.geo.table t.disk) head m = some x.1) ∧ x.2 ≤ target ∧
        target < x.2 + v.geo.clusterBytes := by
  induction fuel generalizing s c pos n with
  | zero => exact ⟨Goes.fail, Granted.spent.refuses⟩
  | succ fuel ih =>
    have hcb := clusterBytes_lt fits
    refine .bind (.of_granted (granted_word _ _)
      ((goes_u64 (by omega)).mono fun _ _ _ h => ⟨by rw [h.2], h⟩)) fun stop t _ _ h => ?_
    obtain ⟨rfl, rfl⟩ := h
    by_cases hstop : pos + v.geo.clusterBytes ≤ target
    · rw [if_pos hstop]
      refine (lengthens_nextOrExtend fits hs hreach).bind fun d u hsu howns hd => ?_
      refine ih (hsu.coherent fits hs) (n := n + 1) ?_ hstop
      rw [Geometry.reach, howns.links.reach hreach, bind_some, hd]
    · rw [if_neg hstop]
      exact .of_granted (.pure _) (.pure ⟨rfl, ⟨n, hreach⟩, hpos, by omega⟩)

theorem lengthens_writeSpans {oldSize stop fuel pos clusterPos : Nat} (hs : Coherent v.geo s)
    (hreach : v.geo.reach (v.geo.table s.disk) head n = some c) (hpos : clusterPos ≤ pos)
    (hstop : stop < 2 ^ 63 + 2 ^ 40) :
    Lengthens v.geo total head (v.writeSpans oldSize offset stop data fuel pos c clusterPos) s fun _ _ =>
      True := by
  induction fuel generalizing s pos c clusterPos n with
  | zero => exact ⟨Goes.fail, Granted.spent.refuses⟩
  | succ fuel ih =>
    unfold writeSpans
    by_cases hlt : pos < stop
    swap
    · rw [if_neg hlt]
      exact .of_granted (.pure _) (.pure ⟨rfl, trivial⟩)
    rw [if_pos hlt]
    refine (lengthens_advance fits hs hreach hpos (by omega)).bind fun x t hst _ h => ?_
    obtain ⟨⟨m, hm⟩, hle, hin⟩ := h
    have ht := hst.coherent fits hs
    refine .bind (.of_granted (looks_granted.clusterToLba _)
      ((goes_clusterToLba fits).mono fun _ _ _ h => ⟨by rw [h.2.2.disk], h⟩)) fun lba u htu _ h => ?_
    obtain ⟨hheap, rfl, hl⟩ := h
    refine .bind (.of_granted (granted_writeSpan _ _ _ _ _ _ _)
      ((goes_writeSpan fits ⟨_, _, hheap, sector_lt hle hin, .inr rfl⟩).mono fun _ _ _ h => ⟨h.table, h⟩))
        fun _ w huw _ hw => ?_
    refine ih (Steps.coherent fits (htu.trans huw) ht) (n := m) ?_ (by omega)
    rwa [hw.table, hl.disk]

theorem refuses_writeEntry {e : DirEntry} (hs : Sound v.geo s)
    (hsize : e.size < 2 ^ 32) (hdata : data.length < 2 ^ 63) :
    Refuses (v.writeEntry e p offset data) s fun _ t => ¬ (e.size < offset ∧ maxGapFill < offset - e.size) ∧
      (e.cluster = 0 ∧ v.geo.free t.disk = ∅ ∨ e.cluster ≠ 0 ∧ Owns v.geo e.cluster s t) := by
  refine .ite (fun _ => (Granted.err rfl).refuses) fun hgap => ?_
  have hoffset : offset ≤ 2 ^ 32 + 2 ^ 20 := by
    unfold maxGapFill at hgap
    omega
  have hhead : Refuses (v.headCluster e.cluster) s fun _ t => e.cluster = 0 ∧ v.geo.free t.disk = ∅ :=
    Refuses.ite (fun hzero => ((refuses_findFreeCluster fits hs.coherent).mono fun _ _ h => ⟨hzero, h.2⟩).bind
      fun _ _ _ => ((granted_writeFatEntry _ _).bind fun _ => .pure _).refuses) fun _ => (Granted.pure _).refuses
  refine (hhead.mono fun _ _ h => ⟨hgap, .inl h⟩).bind fun head t hm => ?_
  have ht := ((goes_headCluster fits hs.coherent).sat.ok hm).1.sound fits hs
  -- a file with a chain keeps its head
  have howned (u : Fs) (h : Owns v.geo head t u ∧ v.geo.free u.disk = ∅) :
      e.cluster = 0 ∧ v.geo.free u.disk = ∅ ∨ e.cluster ≠ 0 ∧ Owns v.geo e.cluster s u := by
    by_cases hzero : e.cluster = 0
    · exact .inl ⟨hzero, h.2⟩
    rw [headCluster, if_neg hzero] at hm
    cases hm
    exact .inr ⟨hzero, h.1⟩
  refine (granted_word _ _).refuses.bind fun stop u hu => ?_
  have hword : Goes v.geo total (u64 (offset + data.length)) t fun a u => a = offset + data.length ∧
    u = t := goes_u64 (by omega)
  obtain ⟨-, rfl, rfl⟩ := hword.sat.ok hu
  refine (Granted.ask _).refuses.bind fun cursor w hw => ?_
  cases hw
  obtain ⟨⟨n, -, hreach⟩, hle⟩ := at_start ht.writeCursor head (min e.size offset)
  have hadvance (fuel : Nat) := @lengthens_advance v u _ _ fits _ n head (min e.size offset) fuel _ ht.coherent
    hreach hle (by omega)
  refine ((hadvance _).refuses.mono fun _ y hy => ⟨hgap, howned y hy⟩).bind fun x y hxy => ?_
  obtain ⟨hyc, howns, ⟨m, hm'⟩, hle', -⟩ := (hadvance _).goes.ok fits ht.coherent hxy
  refine (lengthens_writeSpans fits hyc hm' hle' (by omega)).refuses.mono (fun _ z hz =>
    ⟨hgap, howned z ⟨howns.trans hz.1, hz.2⟩⟩) |>.bind fun x z _ => ?_
  exact ((Granted.change _).bind fun _ => granted_patchEntryClusterSize _ _ _).refuses

/-- the free clusters are those of before, or those missing are on the file's own chain. -/
def Volume.Costless (v : Volume) (disk disk' : Nat → Sector) : Request → Prop
  | .writeAt path _ _ => v.geo.free disk' ⊆ v.geo.free disk ∧ ∀ c ∈ v.geo.free disk, c ∉ v.geo.free disk' →
      ∃ dir name x n, v.target disk path = some (dir, name) ∧ v.answer disk dir name = some x ∧ x.1.cluster ≠ 0
        ∧ v.geo.reach (v.geo.table disk') x.1.cluster n = some c
  | _ => v.geo.free disk' = v.geo.free disk

theorem refuses_writeAt {path : Bytes} (hs : Sound v.geo s) (hdata : data.length < 2 ^ 63) :
    Refuses (v.writeAt path offset data) s fun _ t => (v.Costless s.disk t.disk (.writeAt path offset data) ↔
        v.geo.free s.disk = ∅ ∨ ¬ v.Claims s.disk (.writeAt path offset data)) := by
  have hkept {C : Prop} {t : Fs} (hC : ¬ C) (h : t.disk = s.disk) :
      v.Costless s.disk t.disk (.writeAt path offset data) ↔ v.geo.free s.disk = ∅ ∨ ¬ C := by
    rw [h]
    exact iff_of_true ⟨Finset.Subset.refl _, fun c hc hnot => absurd hc hnot⟩ (.inr hC)
  refine .ite (fun _ => (Granted.pure _).refuses) fun hne => ?_
  cases hsplit : splitParent path with
  | none =>
    refine .err ?_
    exact hkept (by simp [Volume.Claims, target, hsplit]) rfl
  | some x =>
    obtain ⟨dir, name⟩ := x
    refine refuses_findDir_bind fits hsplit hs.coherent
      (fun hnone _ t ht => hkept (by simp [Volume.Claims, hnone]) ht)
      fun parent t htarget _ hst htc ht => ?_
    refine refuses_lookup_bind fits htc fun u htu _ hu => ?_
    have hus := Steps.sound fits (hst.trans htu) hs
    rw [ht] at hu ⊢
    cases hx : v.answer s.disk parent.cluster name with
    | none =>
      refine .err ?_
      exact hkept (by simp [Volume.Claims, htarget, hx]) hu
    | some x =>
      obtain ⟨e, p⟩ := x
      have hsize : e.size < 2 ^ 32 := (mem_entriesFrom (mem_of_find?_eq_some hx)).2
      refine .ite (fun _ => (Granted.err rfl).refuses) fun hfile => ?_
      refine (refuses_writeEntry fits hus hsize hdata).mono fun _ w hw => ?_
      obtain ⟨hgap, ⟨hzero, hfree⟩ | ⟨hcluster, howns⟩⟩ := hw
      · -- nothing of what is missing can be reached
        have hclaims : v.Claims s.disk (.writeAt path offset data) :=
          ⟨_, _, (e, p), htarget, hx, hfile, hzero, hne, hgap⟩
        have hcost : v.Costless s.disk w.disk (.writeAt path offset data) ↔ v.geo.free s.disk = ∅ := by
          simp [Volume.Costless, htarget, hx, hzero, hfree, Finset.eq_empty_iff_forall_notMem]
        rw [hcost]
        exact ⟨.inl, fun h => h.resolve_right (not_not.2 hclaims)⟩
      · refine iff_of_true ?_ (.inr ?_)
        · obtain ⟨-, hsubset, hclaimed⟩ := howns
          rw [hu] at hsubset hclaimed
          refine ⟨hsubset, fun c hc hnot => ?_⟩
          obtain ⟨n, hn⟩ := hclaimed c hc hnot
          exact ⟨_, _, (e, p), n, htarget, hx, hcluster, hn⟩
        · simp [Volume.Claims, htarget, hx, hcluster]

end Owns

def Request.takes : Request → Bool
  | .mkdir _ | .touch _ | .writeFile _ _ | .writeAt _ _ _ | .mv _ _ => true
  | _ => false

/-- **a refused call**: on a tidy volume the free clusters are those of before exactly if there were none,
or the call was turned down before its first claim. -/
theorem refused_free_iff {d : Device} {disk : Nat → Sector} {lba sectors : Nat} {g : Geometry} {s₀ : Fs}
    (hlba : lba < 2 ^ 32) (hmount : d.mountAt lba sectors (Fs.fresh disk) = (.ok g, s₀)) (calls : List Call)
    (htyped : ∀ c ∈ calls, c.request.Typed) (htidy : g.Tidy (g.run calls s₀).disk)
    (c : Call) (hc : c.request.Typed) (htakes : c.request.takes) :
    let s := g.run calls s₀
    let v := g.volume c
    ∀ e t, v.exec c.request s = (.error (.error e), t) → isRefusal e →
      (v.Costless s.disk t.disk c.request ↔ g.free s.disk = ∅ ∨ ¬ v.Claims s.disk c.request) := by
  intro s v
  have fits : v.geo.Fits _ _ := mountAt_fits hlba hmount
  have hs : Sound v.geo s := (run_steps fits (mountAt_sound hmount).1 htyped).sound fits (mountAt_sound hmount).1
  obtain ⟨device, fuel, request⟩ := c
  cases request with
  | mkdir path => exact (refuses_mkdir fits hs.coherent).map.mono fun _ _ h => h.free_iff
  | touch path => exact (refuses_touch fits hs.coherent).map.mono fun _ _ h => h.free_iff
  | writeFile path data => exact (refuses_writeFile fits hs.coherent).map.mono fun _ _ h => h.free_iff
  | writeAt path offset data => exact (refuses_writeAt fits hs hc.2).map
  | mv src dst => exact (refuses_mv fits hs.coherent htidy.dirs).map.mono fun _ _ h => h.free_iff
  | _ => cases htakes

/-- a directory that is there already. -/
theorem refused_free_pair :
    let s := (sure.mountAt 0 10 (Fs.fresh pair)).2
    let v := smallGeo.volume ⟨sure, 10, .mkdir [47, 65]⟩
    (v.exec (.mkdir [47, 65]) s).1 = .error (.error .alreadyExists)
      ∧ smallGeo.free (v.exec (.mkdir [47, 65]) s).2.disk = smallGeo.free s.disk := by
  intro s v
  have herr : (v.exec (.mkdir [47, 65]) s).1 = .error (.error .alreadyExists) := by decide +kernel
  have hiff := refused_free_iff (by decide) (Prod.ext pair_mounts rfl) [] (fun _ h => nomatch h) mounted_tidy
    ⟨sure, 10, .mkdir [47, 65]⟩ trivial rfl
  refine ⟨herr, ?_⟩
  rcases hrun : v.exec (.mkdir [47, 65]) s with ⟨r, t⟩
  rw [hrun] at herr
  subst herr
  refine (hiff _ _ hrun rfl).2 (.inr ?_)
  rintro ⟨dir, name, htarget, -, hnone⟩
  have hroot : v.target s.disk [47, 65] = some (2, [65]) := by decide +kernel
  cases hroot.symm.trans htarget
  have hsome : (v.answer s.disk 2 [65]).isSome := by decide +kernel
  rw [show v.answer s.disk 2 [65] = none from hnone] at hsome
  cases hsome

/-- five clusters of data on a volume with four free ones: the four stay claimed. -/
theorem refused_keeps_clusters :
    ∃ (disk : Nat → Sector) (lba sectors : Nat) (g : Geometry) (s : Fs) (c : Call) (e : Error) (t : Fs),
      lba < 2 ^ 32 ∧ sure.mountAt lba sectors (Fs.fresh disk) = (.ok g, s) ∧ g.Tidy s.disk ∧ c.device = sure
      ∧ c.request.takes ∧ (g.volume c).exec c.request s = (.error (.error e), t) ∧ isRefusal e
      ∧ ¬ (g.volume c).Costless s.disk t.disk c.request := by
  let c : Call := ⟨sure, 10, .writeFile [47, 66] (List.replicate 2049 7)⟩
  let s := (sure.mountAt 0 10 (Fs.fresh pair)).2
  have herr : ((smallGeo.volume c).exec c.request s).1 = .error (.error .diskFull) := by decide +kernel
  have hfree : ¬ smallGeo.free ((smallGeo.volume c).exec c.request s).2.disk =
    smallGeo.free s.disk := by decide +kernel
  rcases hrun : (smallGeo.volume c).exec c.request s with ⟨r, t⟩
  rw [hrun] at herr hfree
  subst herr
  exact ⟨pair, 0, 10, smallGeo, s, c, .diskFull, t, by decide, Prod.ext pair_mounts rfl, mounted_tidy, rfl,
    rfl, hrun, rfl, hfree⟩

end Ouroboros.Fat32
