import Ouroboros.Fat32.Operations
import Mathlib.Data.List.SplitBy

/-!
# FAT32: every operation goes by steps

* `puts`  bytes put at some places; `goes_rewrite`: that is what `rewrite` does;
* `goes_grow`, `goes_extendChain`  a chain is lengthened at its end only;
* `goes_writeEntry`  sets a cursor: it stands where a walk comes to;
* `goes_exec`  any operation on a sound volume.
-/

namespace Ouroboros.Fat32

open Fsd (Bytes)
open Image Relation List Function Volume

variable {v : Volume} {reserved total : Nat} {s : Fs} {c : Nat}

/-! ## Bytes at places -/

def put (disk : Nat → Sector) (c : Place × List UInt8) : Nat → Sector :=
  update disk c.1.lba (write (disk c.1.lba) c.1.offset c.2)

def puts (disk : Nat → Sector) (changes : List (Place × List UInt8)) : Nat → Sector := changes.foldl put disk

theorem puts_group {disk : Nat → Sector} {changes : List (Place × List UInt8)}
    {lba : Nat} (h : ∀ c ∈ changes, c.1.lba = lba) :
    puts disk changes = update disk lba (changes.foldl (fun buf c => write buf c.1.offset c.2) (disk lba)) := by
  induction changes generalizing disk with
  | nil => exact (update_eq_self lba disk).symm
  | cons c rest ih =>
    have hc := h c mem_cons_self
    rw [puts, foldl_cons]
    refine (ih fun d hd => h d (mem_cons_of_mem c hd)).trans ?_
    rw [put, hc, update_self, update_idem, foldl_cons]

theorem isChain_lba {c : Place × List UInt8} {rest : List (Place × List UInt8)}
    (h : (c :: rest).IsChain fun a b => decide (a.1.lba = b.1.lba)) : ∀ d ∈ c :: rest, d.1.lba = c.1.lba := by
  induction rest generalizing c with
  | nil =>
    intro d hd
    rw [mem_singleton.1 hd]
  | cons e rest ih =>
    obtain ⟨hce, h⟩ := isChain_cons_cons.1 h
    intro d hd
    rcases mem_cons.1 hd with rfl | hd
    · rfl
    · exact (ih h d hd).trans (of_decide_eq_true hce).symm

section Slots
variable (fits : v.geo.Fits reserved total) {dir cluster size : Nat} {p : Place}
include fits

omit fits in
/-- a chain that ends in `c` has got the cluster `new`, which was free and is empty. -/
structure Grown (g : Geometry) (c new : Nat) (s t : Fs) : Prop where
  heap : g.inHeap new
  free : g.table s.disk new = 0
  table : g.table t.disk = update (update (g.table s.disk) new endOfChainMin) c (new % 2 ^ 28)
  empty : ∀ k < g.sectorsPerCluster, t.disk (g.dataLba new k) = fun _ => 0
  data : ∀ lba, g.IsData lba → (∀ k < g.sectorsPerCluster, lba ≠ g.dataLba new k) → t.disk lba = s.disk lba

variable (hs : Coherent v.geo s) {ρ : Type} {short : List UInt8} {attr : UInt8} {target : Place}
include hs

theorem goes_grow : Goes v.geo total (v.grow c) s fun new t => Grown v.geo c new s t := by
  refine (goes_findFreeCluster fits hs).next fits hs fun new t ht h => ?_
  obtain ⟨hnew, hfree, hl⟩ := h
  refine (goes_writeFatEntry fits ht).next fits ht fun _ u hcu hu => ?_
  refine (goes_zeroCluster fits).next fits hcu fun _ w hwc hw => ?_
  refine (goes_writeFatEntry fits hwc).bind fun _ x _ hx => .pure ?_
  refine ⟨hnew, hfree, ?_, fun k hk => ?_, fun lba hd hout => ?_⟩
  · rw [hx.table, hw.2.table, hu.table, hl.disk]
    rfl
  · rw [hx.data _ (isData_dataLba hnew hk), hw.2.inside k (mem_range.2 hk)]
  · rw [hx.data _ hd, hw.2.outside _ fun k hk => hout k (mem_range.1 hk), hu.data _ hd, hl.disk]

theorem goes_grow_inl :
    Goes v.geo total (Sum.inl <$> v.grow c : Op (Nat ⊕ ρ)) s fun x t => ∃ n, x = .inl n ∧ Grown v.geo c n s t :=
  (goes_grow fits hs).bind fun n _ _ h => .pure ⟨n, rfl, h⟩

theorem goes_scanFrom_grow {α : Type} {look : α → Sector → Place → α ⊕ ρ} {A : α → Prop} {R : ρ → Prop}
    (hlook : ∀ a buf p, A a → v.geo.IsData p.lba → Sum.elim A R (look a buf p)) {fuel : Nat} {a : α} (ha : A a) :
    Goes v.geo total (v.scanFrom look (fun c _ => Sum.inl <$> v.grow c) fuel c a) s fun r _ => R r := by
  induction fuel generalizing s c a with
  | zero => exact .fail
  | succ fuel ih =>
    have hslots (hc : v.geo.inHeap c) : Sum.elim A R (foldSlots look s.disk (v.geo.slotsOf c) a) :=
      foldSlots_elim hlook (fun _ hp => isData_of_mem_slotsOf hc hp) ha
    refine goes_scan_step fits hs (fun r t hc hx _ => ?_) fun b t hc hx _ htc => ?_
    · have hr := hslots hc
      rwa [hx] at hr
    have hb := hslots hc
    rw [hx] at hb
    unfold scanOn
    split
    · exact ih htc hb
    refine (goes_grow_inl fits htc).next fits htc fun x u hu h => ?_
    obtain ⟨n, rfl, -⟩ := h
    exact ih hu hb

theorem goes_insertDirEntry {ntres : UInt8} :
    Goes v.geo total (v.insertDirEntry dir short ntres attr cluster size) s fun _ _ => True := by
  refine (goes_scanFrom_grow fits hs (A := fun _ => True) (R := fun x => v.geo.IsData x.2.lba) ?_ trivial).bind
    fun x t _ h => ?_
  · intro _ buf p _ hp
    unfold firstOpen
    split
    · exact hp
    · trivial
  · exact (goes_writeData fits h).any

omit fits hs in
def Geometry.hasShort (g : Geometry) (disk : Nat → Sector) (n c : Nat) (short : List UInt8) : Bool :=
  (foldSlots (Volume.hasShort short) disk (g.places disk n c) ()).elim (fun _ => false) id

theorem goes_shortAliasExists :
    Goes v.geo total (v.shortAliasExists dir short) s fun x t => x = v.geo.hasShort s.disk v.fuel dir short ∧
      Looks s t :=
  (goes_scan fits hs).mono fun _ _ _ h => h.2

theorem goes_aliasFrom {k n : Nat} {base ext : List UInt8} :
    Goes v.geo total (v.aliasFrom dir base ext k n) s fun short t =>
      (∃ i, n ≤ i ∧ i < n + k ∧ short = composeAlias base ext i) ∧ v.geo.hasShort s.disk v.fuel dir short =
        false ∧ Looks s t := by
  induction k generalizing s n with
  | zero => exact .err
  | succ k ih =>
    refine (goes_shortAliasExists fits hs).next fits hs fun taken t ht h => ?_
    obtain ⟨rfl, hl⟩ := h
    refine .ite (fun _ => ?_) fun hfree =>
      .pure ⟨⟨n, Nat.le_refl n, by omega, rfl⟩, eq_false_of_ne_true hfree, hl⟩
    refine (ih ht).mono fun short u _ hu => ?_
    obtain ⟨⟨i, hlo, hhi, heq⟩, hfree, hl'⟩ := hu
    rw [hl.disk] at hfree
    exact ⟨⟨i, by omega, by omega, heq⟩, hfree, hl.trans hl'⟩

omit hs in
theorem goes_groups {groups : List (List (Place × List UInt8))}
    (hg : ∀ group ∈ groups, group.IsChain fun a b => decide (a.1.lba = b.1.lba))
    (hp : ∀ x ∈ groups.flatten, v.geo.IsData x.1.lba) :
    Goes v.geo total (Try.each groups fun group =>
      match group with
      | [] => pure ()
      | (p, _) :: _ => do
        let buf ← v.readSector .data p.lba
        v.writeSector .data p.lba (group.foldl (fun buf c => write buf c.1.offset c.2) buf)) s fun _ t =>
      t.disk = puts s.disk groups.flatten ∧ Keeps v.geo s t := by
  induction groups generalizing s with
  | nil => exact .pure ⟨rfl, Keeps.refl _ s⟩
  | cons group rest ih =>
    have hrest : ∀ x ∈ rest.flatten, v.geo.IsData x.1.lba := fun x hx => hp x (mem_append_right _ hx)
    rw [flatten_cons]
    rcases group with _ | ⟨⟨p, b⟩, more⟩
    · exact ih (fun g h => hg g (mem_cons_of_mem _ h)) hrest
    have hdata := hp (p, b) (mem_append_left _ mem_cons_self)
    have hone : Goes v.geo total (do
        let buf ← v.readSector .data p.lba
        v.writeSector .data p.lba (((p, b) :: more).foldl (fun buf c => write buf c.1.offset c.2) buf)) s
            fun _ t =>
        t.disk = puts s.disk ((p, b) :: more) ∧ Keeps v.geo s t := by
      refine (goes_readData hdata).bind fun buf t _ h => (goes_writeData fits hdata).mono fun _ u _ hu => ?_
      refine ⟨?_, (h.2.keeps _).trans hu.2⟩
      rw [hu.1, h.1, h.2.disk, puts_group (isChain_lba (hg _ mem_cons_self))]
    refine hone.bind fun _ t _ ht => (ih (fun g h => hg g (mem_cons_of_mem _ h)) hrest).mono fun _ u _ hu => ?_
    exact ⟨by rw [hu.1, ht.1, puts, puts, puts, foldl_append], ht.2.trans hu.2⟩

omit hs in
theorem goes_rewrite {changes : List (Place × List UInt8)} (hp : ∀ x ∈ changes, v.geo.IsData x.1.lba) :
    Goes v.geo total (v.rewrite changes) s fun _ t => t.disk = puts s.disk changes ∧ Keeps v.geo s t := by
  have hflat := flatten_splitBy (fun a b : Place × List UInt8 => decide (a.1.lba = b.1.lba)) changes
  have hall := goes_groups (s := s) fits (fun _ h => isChain_of_mem_splitBy h) (by rwa [hflat])
  rwa [hflat] at hall

omit fits in
def InData (g : Geometry) (l : List Place) : Prop := ∀ p ∈ l, g.IsData p.lba

omit fits hs in
theorem inData_nil (g : Geometry) : InData g [] := fun _ h => absurd h not_mem_nil

omit fits hs in
theorem InData.concat {g : Geometry} {l : List Place} (h : InData g l) (hp : g.IsData p.lba) :
    InData g (l ++ [p]) := by
  intro q hq
  rcases mem_append.1 hq with hq | hq
  · exact h q hq
  · rw [mem_singleton.1 hq]
    exact hp

theorem goes_writeEntryRun {entries : List (List UInt8)} :
    Goes v.geo total (v.writeEntryRun dir entries) s fun _ _ => True := by
  refine (goes_scanFrom_grow fits hs (A := InData v.geo) (R := InData v.geo) ?_ (inData_nil _)).bind
    fun locs t hst h => ?_
  · intro run buf p hr hp
    unfold openRun
    split
    · split <;> exact hr.concat hp
    · exact inData_nil _
  · refine (goes_rewrite fits fun x hx => ?_).any
    exact h _ (of_mem_zip hx).1

theorem goes_insertNamedEntry {name : Bytes} :
    Goes v.geo total (v.insertNamedEntry dir name attr cluster size) s fun _ _ => True := by
  unfold insertNamedEntry
  split
  · exact goes_insertDirEntry fits hs
  · exact (goes_aliasFrom fits hs).next fits hs fun _ _ hcoh _ => goes_writeEntryRun fits hcoh

omit fits hs in
theorem runBefore_elim {g : Geometry} {a : List Place × UInt8} {buf : Sector}
    (ha : InData g a.1 ∧ a.1.length ≤ maxLfnEntries) (hp : g.IsData p.lba) :
    Sum.elim (fun a : List Place × UInt8 => InData g a.1 ∧ a.1.length ≤ maxLfnEntries)
      (fun r : Option (List Place) => ∀ l, r = some l → InData g l ∧ l.length ≤ maxLfnEntries + 1)
      (Volume.runBefore target a buf p) := by
  have none : InData g [] ∧ ([] : List Place).length ≤ maxLfnEntries := ⟨inData_nil g, Nat.zero_le _⟩
  have concat {l : List Place} {n : Nat} (hl : InData g l ∧ l.length ≤ n) : InData g (l ++ [p]) ∧
      (l ++ [p]).length ≤ n + 1 :=
    ⟨hl.1.concat hp, by rw [length_append]; exact Nat.succ_le_succ hl.2⟩
  unfold runBefore
  dsimp only
  split
  · exact nofun
  split
  · exact none
  split
  · -- a slot of a long name: one more, unless the table of them is full
    dsimp only [Sum.elim_inl]
    split
    · exact ⟨ha.1.concat hp, by rw [length_append]; assumption⟩
    · exact ha
  split
  · exact none
  split
  · intro l hl
    cases hl
    split
    · exact concat ha
    · exact concat none
  · exact none

theorem goes_runBefore :
    Goes v.geo total (v.scanFrom (Volume.runBefore target) (fun _ _ => pure (.inr none)) v.fuel dir ([], 0)) s
      fun r t =>
      (∀ l, r = some l → InData v.geo l ∧ l.length ≤ maxLfnEntries + 1) ∧ Looks s t :=
  goes_scan_elim fits hs (fun _ _ _ => runBefore_elim) (fun _ _ => nofun) ⟨inData_nil v.geo, Nat.zero_le _⟩

theorem goes_freeEntryWithLfn :
    Goes v.geo total (v.freeEntryWithLfn dir target) s fun _ t => Keeps v.geo s t := by
  refine (goes_runBefore fits hs).bind fun found t hst h => ?_
  rcases found with _ | slots
  · exact .err
  refine (goes_rewrite fits fun x hx => ?_).mono fun _ u _ hu => (h.2.keeps _).trans hu.2
  obtain ⟨q, hq, rfl⟩ := mem_map.1 hx
  exact (h.1 slots rfl).1 q hq

omit hs in
theorem goes_patchEntryClusterSize (hp : v.geo.IsData p.lba) :
    Goes v.geo total (v.patchEntryClusterSize p cluster size) s fun _ t => Keeps v.geo s t := by
  refine (goes_readData hp).bind fun buf t _ h => ?_
  exact (goes_writeData fits hp).mono fun _ u _ hu => (h.2.keeps _).trans hu.2

end Slots

/-! ## Chains that are written -/

section Writes
variable (fits : v.geo.Fits reserved total) {pos offset : Nat} {data : Bytes}
include fits

variable (hs : Coherent v.geo s) {ends : Option (Nat × Nat)} {fuel head : Nat}
include hs

theorem goes_freeFile : Goes v.geo total (v.freeFile c) s fun _ t => Frees v.geo s t :=
  Goes.ite (fun _ => goes_freeChain fits hs) fun _ => .pure ((Looks.refl s).frees _)

omit hs in
theorem goes_fillCluster {written : Nat} : Goes v.geo total (v.fillCluster data written c) s fun _ t =>
      v.geo.inHeap c ∧ Filled v.geo c
        (fun k => sectorOf ((data.drop (written + k * sectorSize)).take sectorSize))
        (List.range v.geo.sectorsPerCluster) s t :=
  goes_eachOf fits

theorem goes_linkAfter : Goes v.geo total (v.linkAfter ends c) s fun _ _ => True := by
  unfold linkAfter
  split
  · exact (goes_writeFatEntry fits hs).any
  · exact .pure trivial

theorem goes_writeClusters {n written : Nat} :
    Goes v.geo total (v.writeClusters data n ends written) s fun _ _ => True := by
  induction n generalizing s ends written with
  | zero => exact .pure trivial
  | succ n ih =>
    refine (goes_findFreeCluster fits hs).next fits hs fun c t ht _ => ?_
    refine (goes_writeFatEntry fits ht).next fits ht fun _ u hu _ => ?_
    refine (goes_linkAfter fits hu).next fits hu fun _ w hw _ => ?_
    exact (goes_fillCluster fits).next fits hw fun _ x hx _ => ih hx

theorem goes_writeChain : Goes v.geo total (v.writeChain data) s fun _ _ => True :=
  Goes.ite (fun _ => .pure trivial) fun _ => goes_writeClusters fits hs

omit fits hs in
theorem endOfChain_link (g : Geometry) : g.link (endOfChainMin % 2 ^ 28) = none := link_of_endsWalk (by decide)

theorem goes_extendChain {tail : Nat} (htail : v.geo.next (v.geo.table s.disk) tail = none) :
    Goes v.geo total (v.extendChain tail) s fun new t =>
      Extends v.geo (v.geo.table s.disk) (v.geo.table t.disk) ∧
        v.geo.next (v.geo.table t.disk) tail = some new := by
  refine (goes_findFreeCluster fits hs).next fits hs fun new t ht h => ?_
  obtain ⟨hnew, hfree, hl⟩ := h
  refine (goes_writeFatEntry fits ht).next fits ht fun _ u huc hu => ?_
  have hfree' : v.geo.next (v.geo.table t.disk) new = none := by
    rw [Geometry.next, hl.disk, hfree]
    exact link_of_endsWalk (by decide)
  have hext := hu.extends hfree'
  rw [hl.disk] at hext
  have htail' : v.geo.next (v.geo.table u.disk) tail = none := by
    by_cases heq : tail = new
    · rw [Geometry.next, hu.table, heq, update_self]
      exact endOfChain_link _
    · rw [Geometry.next, hu.table, update_of_ne heq, hl.disk]
      exact htail
  refine (goes_writeFatEntry fits huc).bind fun _ w _ hw => .pure ⟨?_, ?_⟩
  · exact hext.trans (hw.extends htail')
  · rw [Geometry.next, hw.table, update_self]
    exact link_of_inHeap fits hnew

theorem goes_nextOrExtend : Goes v.geo total (v.nextOrExtend c) s fun n t =>
      Extends v.geo (v.geo.table s.disk) (v.geo.table t.disk) ∧ v.geo.next (v.geo.table t.disk) c = some n := by
  refine (goes_nextCluster fits hs).next fits hs fun next t ht h => ?_
  obtain ⟨-, rfl, hl⟩ := h
  split
  · rename_i n hn
    refine .pure ?_
    rw [hl.disk]
    exact ⟨Extends.refl _ _, hn⟩
  · rename_i hn
    rw [← hl.disk] at hn ⊢
    exact goes_extendChain fits ht hn

theorem goes_advance {target : Nat}
    (hat : v.geo.At (v.geo.table s.disk) ⟨head, c, pos⟩)
    (hpos : pos ≤ target) (htarget : target < 2 ^ 63 + 2 ^ 40) :
    Goes v.geo total (v.advance target fuel c pos) s fun x t =>
      v.geo.At (v.geo.table t.disk) ⟨head, x.1, x.2⟩ ∧ x.2 ≤ target ∧ target < x.2 + v.geo.clusterBytes := by
  induction fuel generalizing s c pos with
  | zero => exact .fail
  | succ fuel ih =>
    have hcb := clusterBytes_lt fits
    refine (goes_u64 (by omega)).bind fun stop t _ h => ?_
    obtain ⟨rfl, rfl⟩ := h
    refine .ite (fun hstop => ?_) fun hstop => .pure ⟨hat, hpos, by omega⟩
    refine (goes_nextOrExtend fits hs).next fits hs fun n t ht h => ?_
    exact ih ht (at_next (h.1.at hat) h.2) hstop

omit hs in
theorem goes_writeSpan {lba start oldSize n : Nat} (hd : v.geo.IsData lba) :
    Goes v.geo total (v.writeSpan lba start oldSize offset pos n data) s fun _ t => Keeps v.geo s t := by
  refine .ite (fun _ => ?_) fun _ => .ite (fun _ => ?_) fun _ => ?_
  · exact (goes_writeData fits hd).mono fun _ _ _ h => h.2
  · refine (goes_readData hd).bind fun buf t _ h => ?_
    exact (goes_writeData fits hd).mono fun _ u _ hu => (h.2.keeps _).trans hu.2
  · exact (goes_writeData fits hd).mono fun _ _ _ h => h.2

theorem goes_writeSpans {oldSize stop clusterPos : Nat}
    (hat : v.geo.At (v.geo.table s.disk) ⟨head, c, clusterPos⟩) (hpos : clusterPos ≤ pos)
    (hstop : stop < 2 ^ 63 + 2 ^ 40) :
    Goes v.geo total (v.writeSpans oldSize offset stop data fuel pos c clusterPos) s fun x t =>
      v.geo.At (v.geo.table t.disk) ⟨head, x.1, x.2⟩ := by
  induction fuel generalizing s pos c clusterPos with
  | zero => exact .fail
  | succ fuel ih =>
    refine .ite (fun hlt => ?_) fun _ => .pure hat
    refine (goes_advance fits hs hat hpos (by omega)).next fits hs fun x t ht h => ?_
    obtain ⟨hat', hle, hin⟩ := h
    refine (goes_clusterToLba fits).bind fun lba u htu h => ?_
    obtain ⟨hc, rfl, hl⟩ := h
    refine (goes_writeSpan fits ⟨_, _, hc, sector_lt hle hin, .inr rfl⟩).bind fun _ w huw hw => ?_
    have htable : v.geo.table w.disk = v.geo.table t.disk := by rw [hw.table, hl.disk]
    rw [← htable] at hat'
    exact ih (Steps.coherent fits (htu.trans huw) ht) hat' (by omega)

theorem goes_headCluster : Goes v.geo total (v.headCluster c) s fun _ _ => True := by
  refine .ite (fun _ => ?_) fun _ => .pure trivial
  refine (goes_findFreeCluster fits hs).next fits hs fun c t ht _ => ?_
  exact (goes_writeFatEntry fits ht).bind fun _ _ _ _ => .pure trivial

omit hs in
theorem goes_writeEntry {e : DirEntry} {p : Place} (hs : Sound v.geo s)
    (hsize : e.size < 2 ^ 32) (hp : v.geo.IsData p.lba) (hdata : data.length < 2 ^ 63) :
    Goes v.geo total (v.writeEntry e p offset data) s fun _ _ => True := by
  refine .ite (fun _ => .err) fun hgap => ?_
  have hoffset : offset ≤ 2 ^ 32 + 2 ^ 20 := by
    unfold maxGapFill at hgap
    omega
  refine (goes_headCluster fits hs.coherent).bind fun head t hst _ => ?_
  have ht := hst.sound fits hs
  refine (goes_u64 (by omega)).bind fun stop u _ h => ?_
  obtain ⟨rfl, rfl⟩ := h
  refine (Goes.ask (Q := fun a w => a = u.writeCursor ∧ w = u) ⟨rfl, rfl⟩).bind fun cursor w _ h => ?_
  obtain ⟨rfl, rfl⟩ := h
  obtain ⟨hat, hle⟩ := at_start ht.writeCursor head (min e.size offset)
  refine (goes_advance fits ht.coherent hat hle (by omega)).next fits ht.coherent fun x y hcy hy => ?_
  refine (goes_writeSpans fits hcy hy.1 hy.2.1 (by omega)).bind fun x z _ hz => ?_
  refine (Goes.change (Q := fun _ _ => True) (.writeCursor hz) trivial).bind fun _ _ _ _ => ?_
  exact (goes_patchEntryClusterSize fits hp).any

end Writes

/-! ## Operations -/

section Ops
variable (fits : v.geo.Fits reserved total)
include fits

variable (hs : Coherent v.geo s) {path dstName : Bytes} {srcDir dstDir : Nat} {src : DirEntry × Place}
include hs

theorem goes_mkdir : Goes v.geo total (v.mkdir path) s fun _ _ => True := by
  unfold mkdir
  split
  · exact .err
  refine .ite (fun _ => .err) fun _ => ?_
  refine (goes_findDir fits hs).next fits hs fun parent t ht _ => ?_
  refine (goes_lookup fits ht).next fits ht fun found u hu _ => ?_
  split
  · exact .err
  refine (goes_findFreeCluster fits hu).next fits hu fun new w hw _ => ?_
  refine (goes_writeFatEntry fits hw).next fits hw fun _ x hx _ => ?_
  refine (goes_zeroCluster fits).next fits hx fun _ y hy _ => ?_
  refine (goes_clusterToLba fits).next fits hy fun lba z hz h => ?_
  obtain ⟨hc, rfl, -⟩ := h
  refine (goes_writeData fits (isData_dataLba hc fits.sectors_pos)).next fits hz fun _ z' hz' _ => ?_
  exact goes_insertNamedEntry fits hz'

theorem goes_unlink {parentPath name : Bytes} :
    Goes v.geo total (v.unlink parentPath name) s fun _ t => Keeps v.geo s t := by
  refine (goes_find fits hs).next fits hs fun parent t htc ht => ?_
  refine (goes_lookup fits htc).next fits htc fun found u huc hu => ?_
  split
  · exact .err
  · refine (goes_freeEntryWithLfn fits huc).mono fun _ w _ hw => ?_
    exact ((ht.2.trans hu.2).keeps _).trans hw

theorem goes_isEmpty : Goes v.geo total (v.isEmpty c) s fun _ t => Looks s t :=
  (goes_walk fits hs).mono fun _ _ _ h => h.2.2

theorem goes_rmdir : Goes v.geo total (v.rmdir path) s fun _ _ => True := by
  unfold rmdir
  split
  · exact .err
  refine (goes_find fits hs).next fits hs fun target t ht _ => ?_
  refine .ite (fun _ => .err) fun _ => .ite (fun _ => .err) fun _ => ?_
  refine (goes_isEmpty fits ht).next fits ht fun empty u hu _ => ?_
  refine .ite (fun _ => ?_) fun _ => .err
  refine (goes_freeChain fits hu).next fits hu fun _ w hw _ => ?_
  exact (goes_unlink fits hw).any

theorem goes_touch : Goes v.geo total (v.touch path) s fun _ _ => True := by
  unfold touch
  split
  · exact .err
  refine .ite (fun _ => .err) fun _ => ?_
  refine (goes_findDir fits hs).next fits hs fun parent t ht _ => ?_
  refine (goes_lookup fits ht).next fits ht fun found u hu _ => ?_
  split
  · exact .ite (fun _ => .err) fun _ => .pure trivial
  · exact goes_insertNamedEntry fits hu

theorem goes_rm : Goes v.geo total (v.rm path) s fun _ _ => True := by
  unfold rm
  split
  · exact .err
  refine (goes_find fits hs).next fits hs fun target t ht _ => ?_
  refine .ite (fun _ => .err) fun _ => ?_
  refine (goes_freeFile fits ht).next fits ht fun _ u hu _ => ?_
  exact (goes_unlink fits hu).any

theorem goes_writeFile {data : Bytes} : Goes v.geo total (v.writeFile path data) s fun _ _ => True := by
  unfold writeFile
  split
  · exact .err
  refine (goes_findDir fits hs).next fits hs fun parent t ht _ => ?_
  refine (goes_lookup fits ht).next fits ht fun found u hu h => ?_
  split
  · refine .ite (fun _ => .err) fun _ => ?_
    refine (goes_writeChain fits hu).next fits hu fun new w hw _ => ?_
    refine (goes_freeFile fits hw).bind fun _ x _ _ => ?_
    exact (goes_patchEntryClusterSize fits (h.1 _ _ rfl).1).any
  · refine .ite (fun _ => .err) fun _ => ?_
    exact (goes_writeChain fits hu).next fits hu fun new w hwc _ => goes_insertNamedEntry fits hwc

omit hs in
theorem goes_writeAt {data : Bytes} {offset : Nat} (hs : Sound v.geo s) (hdata : data.length < 2 ^ 63) :
    Goes v.geo total (v.writeAt path offset data) s fun _ _ => True := by
  refine .ite (fun _ => .pure trivial) fun _ => ?_
  split
  · exact .err
  refine (goes_findDir fits hs.coherent).bind fun parent t hst _ => ?_
  have ht := hst.sound fits hs
  refine (goes_lookup fits ht.coherent).bind fun found u htu h => ?_
  split
  · exact .err
  · obtain ⟨hp, hsize⟩ := h.1 _ _ rfl
    exact .ite (fun _ => .err) fun _ => goes_writeEntry fits (htu.sound fits ht) hsize hp hdata

theorem goes_replace {srcName : Bytes} {dst : DirEntry × Place} :
    Goes v.geo total (v.replace srcDir dstDir srcName dstName src dst) s fun _ _ => True := by
  refine .ite (fun _ => .pure trivial) fun _ => .ite (fun _ => .err) fun _ => ?_
  refine (goes_insertNamedEntry fits hs).next fits hs fun _ t ht _ => ?_
  refine (goes_freeEntryWithLfn fits ht).next fits ht fun _ u hu _ => ?_
  refine .ite (fun _ => .pure trivial) fun _ => ?_
  refine (goes_freeEntryWithLfn fits hu).next fits hu fun _ w hw _ => .ite (fun _ => ?_) fun _ => .pure trivial
  exact (goes_freeChain fits hw).any

theorem goes_relink : Goes v.geo total (v.relink srcDir dstDir dstName src) s fun _ _ => True := by
  refine (goes_insertNamedEntry fits hs).next fits hs fun _ t ht _ => ?_
  refine (goes_freeEntryWithLfn fits ht).bind fun _ u _ _ => ?_
  refine .ite (fun _ => ?_) fun _ => .pure trivial
  refine (goes_clusterToLba fits).bind fun lba w _ h => ?_
  obtain ⟨hc, rfl, -⟩ := h
  exact (goes_patchEntryClusterSize fits (isData_dataLba hc fits.sectors_pos)).any

theorem goes_mv {src dst : Bytes} : Goes v.geo total (v.mv src dst) s fun _ _ => True := by
  unfold mv
  split
  · refine .ite (fun _ => .err) fun _ => ?_
    refine (goes_findDir fits hs).next fits hs fun srcParent t ht _ => ?_
    refine (goes_findDir fits ht).next fits ht fun dstParent u hu _ => ?_
    refine (goes_lookup fits hu).next fits hu fun found w hw _ => ?_
    split
    · exact .err
    refine (goes_lookup fits hw).next fits hw fun found x hx _ => ?_
    split
    · exact goes_replace fits hx
    · exact goes_relink fits hx
  · exact .err

end Ops

/-- the arguments fit their machine types: offsets and counts of 64 bits, slices shorter than 2⁶³. -/
def Request.Typed : Request → Prop
  | .readEach _ offset want _ _ => offset < 2 ^ 64 ∧ want < 2 ^ 64
  | .readAt _ offset _ => offset < 2 ^ 64
  | .writeAt _ offset data => offset < 2 ^ 64 ∧ data.length < 2 ^ 63
  | .writeFile _ data => data.length < 2 ^ 63
  | _ => True

theorem goes_exec (fits : v.geo.Fits reserved total) (hs : Sound v.geo s)
    {r : Request} (hr : r.Typed) : Goes v.geo total (v.exec r) s fun _ _ => True := by
  have hc := hs.coherent
  have reply {α : Type} {m : Op α} {f : α → Reply} {Q : α → Fs → Prop} (h : Goes v.geo total m s Q) :
      Goes v.geo total (f <$> m) s fun _ _ => True := h.bind fun _ _ _ _ => .pure trivial
  cases r with
  | listDir path stop => exact reply (goes_listDir fits hc)
  | stat path => exact reply (goes_stat fits hc)
  | readFile path room => exact reply (goes_readFile fits hc)
  | readAt path offset room => exact reply (goes_readAt fits hs)
  | readEach path offset want room stop => exact reply (goes_readEach fits hs hr.1)
  | mkdir path => exact reply (goes_mkdir fits hc)
  | rmdir path => exact reply (goes_rmdir fits hc)
  | touch path => exact reply (goes_touch fits hc)
  | rm path => exact reply (goes_rm fits hc)
  | writeFile path data => exact reply (goes_writeFile fits hc)
  | writeAt path offset data => exact reply (goes_writeAt fits hs hr.2)
  | mv src dst => exact reply (goes_mv fits hc)

end Ouroboros.Fat32
