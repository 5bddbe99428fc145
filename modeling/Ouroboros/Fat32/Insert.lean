import Ouroboros.Fat32.Spends

/-!
# FAT32: slots written into a directory

* `Alike`  two disks with the same bytes in a slot;
* `Lengthened`  a directory that has got clusters at its end;
* `goes_scan_grow`  **a scan that lengthens the directory ends in the slots as they then are**;
* `goes_insertNamedEntry_eq`  **an entry goes into such a row**.
-/

namespace Ouroboros.Fat32

open Fsd (Bytes)
open Image Relation Volume List Function Nat

variable {disk : Nat → Sector} {s : Fs} {reserved total : Nat} {v : Volume}

/-! ## Bytes at places -/

def Alike (disk disk' : Nat → Sector) (p : Place) : Prop :=
  ∀ k < dirEntrySize, disk p.lba (p.offset + k) = disk' p.lba (p.offset + k)

def Place.Aligned (p : Place) : Prop := p.offset % dirEntrySize = 0

section Puts
variable {p : Place} {changes : List (Place × List UInt8)}

theorem Alike.refl (disk : Nat → Sector) (p : Place) : Alike disk disk p := fun _ _ => rfl

theorem Alike.trans {disk' disk'' : Nat → Sector} (h : Alike disk disk' p) (h' : Alike disk' disk'' p) :
    Alike disk disk'' p :=
  fun k hk => (h k hk).trans (h' k hk)

theorem alike_put {c : Place × List UInt8} (hp : p.Aligned) (hc : c.1.Aligned) (hlen : c.2.length ≤ dirEntrySize)
    (hne : c.1 ≠ p) : Alike (put disk c) disk p := by
  intro k hk
  unfold put
  by_cases hlba : p.lba = c.1.lba
  · have hoff : c.1.offset ≠ p.offset := by
      intro h
      obtain ⟨⟨lba, offset⟩, b⟩ := c
      obtain ⟨lba', offset'⟩ := p
      cases hlba
      cases h
      exact hne rfl
    rw [hlba, update_self]
    refine write_outside ?_
    unfold Place.Aligned dirEntrySize at hp hc
    unfold dirEntrySize at hk hlen
    omega
  · rw [update_of_ne hlba]

theorem alike_puts (hp : p.Aligned) (hc : ∀ c ∈ changes, c.1.Aligned ∧ c.2.length ≤ dirEntrySize)
    (hne : ∀ c ∈ changes, c.1 ≠ p) :
    Alike (puts disk changes) disk p := by
  induction changes generalizing disk with
  | nil => exact .refl disk p
  | cons c rest ih =>
    obtain ⟨hal, hlen⟩ := hc c mem_cons_self
    refine .trans (ih (fun d hd => hc d (mem_cons_of_mem c hd)) fun d hd => hne d (mem_cons_of_mem c hd)) ?_
    exact alike_put hp hal hlen (hne c mem_cons_self)

end Puts

/-! ## Clusters at the end -/

/-- the chain from `c` has got the clusters `new`, which were free and are empty. -/
structure Lengthened (g : Geometry) (c : Nat) (new : List Nat) (disk disk' : Nat → Sector) : Prop where
  free : ∀ n ∈ new, g.inHeap n ∧ g.table disk n = 0
  nodup : new.Nodup
  zero : ∀ x, g.table disk' x = 0 ↔ g.table disk x = 0 ∧ x ∉ new
  links : ∀ x d, g.next (g.table disk) x = some d → g.table disk' x = g.table disk x
  other : ∀ x, x ∉ new → (∀ k, g.reach (g.table disk) c k ≠ some x) → g.table disk' x = g.table disk x
  chain : ∀ k, g.chain (g.table disk') k c = (g.chain (g.table disk) k c ++ new).take k
  chained : g.Chained (g.table disk') c
  empty : ∀ n ∈ new, ∀ k < g.sectorsPerCluster, disk' (g.dataLba n k) = fun _ => 0
  data : ∀ lba, g.IsData lba → (∀ n ∈ new, ∀ k < g.sectorsPerCluster, lba ≠ g.dataLba n k) → disk' lba = disk lba

section Lengthened
variable {g : Geometry} {c d n : Nat} {new : List Nat} {t u : Fs}

theorem length_chain_le (T : Nat → Nat) (k c : Nat) : (g.chain T k c).length ≤ k := by
  induction k generalizing c with
  | zero => exact le_refl 0
  | succ k ih =>
    rw [Geometry.chain, length_cons]
    cases g.next T c with
    | none => exact succ_le_succ (zero_le k)
    | some d => exact succ_le_succ (ih d)

theorem Lengthened.refl (h : t.disk = s.disk) (hc : g.Chained (g.table s.disk) c) :
    Lengthened g c [] s.disk t.disk where
  free := nofun
  nodup := nodup_nil
  zero x := by simp [h]
  links x d _ := by rw [h]
  other x _ _ := by rw [h]
  chain k := by rw [append_nil, h, take_of_length_le (length_chain_le _ k c)]
  chained := by rwa [h]
  empty := nofun
  data lba _ _ := by rw [h]

theorem Lengthened.next (h : Lengthened g d new s.disk t.disk) (hc : g.Chained (g.table s.disk) c)
    (hn : g.next (g.table s.disk) c = some d) : Lengthened g c new s.disk t.disk where
  free := h.free
  nodup := h.nodup
  zero := h.zero
  links := h.links
  other x hx hc := h.other x hx fun k hk => hc (k + 1) (by rw [reach_of_next hn, hk])
  chain k := by
    cases k with
    | zero => rfl
    | succ k =>
      have hn' : g.next (g.table t.disk) c = some d := by rw [Geometry.next, h.links c d hn, ← hn, Geometry.next]
      rw [Geometry.chain, Geometry.chain, hn, hn', cons_append, take_succ_cons]
      exact congrArg _ (h.chain k)
  chained := h.chained.cons hc.1 (by rw [Geometry.next, h.links c d hn, ← hn, Geometry.next])
  empty := h.empty
  data := h.data

theorem Lengthened.next_of_last {disk' : Nat → Sector} (h : Lengthened g c (n :: new) disk disk')
    (hn : g.next (g.table disk) c = none) : g.next (g.table disk') c = some n := by
  have hchain := h.chain 2
  rw [chain_of_none hn, Geometry.chain] at hchain
  cases hd : g.next (g.table disk') c with
  | none =>
    rw [hd] at hchain
    cases hchain
  | some d =>
    rw [hd] at hchain
    have hhead := congrArg List.head? (List.cons.inj hchain).2
    exact hhead

variable (fits : g.Fits reserved total)
include fits

theorem Lengthened.grow (h : Lengthened g n new t.disk u.disk) (hc : g.Chained (g.table s.disk) c)
    (hn : g.next (g.table s.disk) c = none) (hg : Grown g c n s t) :
    Lengthened g c (n :: new) s.disk u.disk := by
  have hused : g.table s.disk c ≠ 0 := hc.used (n := 0) rfl
  have hne : n ≠ c := fun heq => hused (heq ▸ hg.free)
  have hlink : g.next (g.table t.disk) c = some n := by
    rw [Geometry.next, hg.table, update_self]
    exact link_of_inHeap fits hg.heap
  have hsame (x : Nat) (hxc : x ≠ c) (hxn : x ≠ n) : g.table t.disk x = g.table s.disk x := by
    rw [hg.table, update_of_ne hxc, update_of_ne hxn]
  have hzero (x : Nat) : g.table t.disk x = 0 ↔ g.table s.disk x = 0 ∧ x ≠ n := by
    by_cases hxc : x = c
    · subst hxc
      rw [hg.table, update_self]
      exact iff_of_false (mod_ne_zero fits hg.heap) fun h => hused h.1
    by_cases hxn : x = n
    · subst hxn
      rw [hg.table, update_of_ne hxc, update_self]
      exact iff_of_false (by decide) fun h => h.2 rfl
    · rw [hsame x hxc hxn]
      exact (and_iff_left hxn).symm
  have hlast : g.next (g.table t.disk) n = none := by
    rw [Geometry.next, hg.table, update_of_ne hne, update_self]
    exact endOfChain_link g
  have hnot : n ∉ new := fun hmem => (((hzero n).1 (h.free n hmem).2).2 rfl).elim
  have hgoes : g.next (g.table u.disk) c = some n := by
    rw [Geometry.next, h.links c n hlink, ← hlink, Geometry.next]
  refine
    { free := fun m hm => ?_
      nodup := nodup_cons.2 ⟨hnot, h.nodup⟩
      zero := fun x => ?_
      links := fun x d hd => ?_
      other := fun x hx hreach => ?_
      chain := fun k => ?_
      chained := h.chained.cons hc.1 hgoes
      empty := fun m hm k hk => ?_
      data := fun lba hd hout => ?_ }
  · rcases mem_cons.1 hm with rfl | hm
    · exact ⟨hg.heap, hg.free⟩
    · exact ⟨(h.free m hm).1, ((hzero m).1 (h.free m hm).2).1⟩
  · rw [h.zero, hzero, mem_cons, not_or, and_assoc]
  · have hxc : x ≠ c := by
      rintro rfl
      rw [hn] at hd
      cases hd
    have hxn : x ≠ n := by
      rintro rfl
      rw [Geometry.next, hg.free] at hd
      cases hd
    rw [h.links x d (by rw [Geometry.next, hsame x hxc hxn, ← hd, Geometry.next]), hsame x hxc hxn]
  · have hxc : x ≠ c := fun heq => hreach 0 (congrArg some heq.symm)
    have hx := not_mem_of_not_mem_cons hx
    have hxn : x ≠ n := by
      rintro rfl
      exact ‹x ∉ x :: new› mem_cons_self
    rw [h.other x hx fun k hk => ?_, hsame x hxc hxn]
    cases k with
    | zero => exact hxn (Option.some.inj hk).symm
    | succ k =>
      rw [reach_eq_down, Chain.down, hlast] at hk
      cases hk
  · cases k with
    | zero => rfl
    | succ k =>
      rw [chain_of_none hn, Geometry.chain, hgoes, singleton_append, take_succ_cons, Option.elim_some, h.chain k]
      cases k with
      | zero => rfl
      | succ k => rw [chain_of_none hlast, singleton_append]
  · rcases mem_cons.1 hm with rfl | hm
    · rw [h.data _ (isData_dataLba hg.heap hk) fun j hj i hi heq => ?_, hg.empty k hk]
      exact hnot ((dataLba_inj fits hg.heap (h.free j hj).1 hk hi heq).1 ▸ hj)
    · exact h.empty m hm k hk
  · rw [h.data lba hd fun m hm => hout m (mem_cons_of_mem n hm), hg.data lba hd (hout n mem_cons_self)]

end Lengthened

section Scan
variable (fits : v.geo.Fits reserved total) {α ρ : Type} {look : α → Sector → Place → α ⊕ ρ}
include fits

theorem goes_scan_grow {fuel c : Nat} {a : α} (hs : Coherent v.geo s)
    (hc : v.geo.Chained (v.geo.table s.disk) c) :
    Goes v.geo total (v.scanFrom look (fun c _ => Sum.inl <$> v.grow c) fuel c a) s fun r t =>
      ∃ new, Lengthened v.geo c new s.disk t.disk ∧ foldSlots look t.disk (v.geo.places t.disk fuel c) a =
        .inr r := by
  induction fuel generalizing s c a with
  | zero => exact .fail
  | succ fuel ih =>
    -- the slots of `c` are not among the new ones
    have hslots {new : List Nat} {w : Fs} (h : Lengthened v.geo c new s.disk w.disk) :
        foldSlots look w.disk (v.geo.slotsOf c) a = foldSlots look s.disk (v.geo.slotsOf c) a := by
      refine foldSlots_congr (fun p hp => ?_) a
      obtain ⟨k, hk, hlba⟩ := mem_slotsOf hp
      rw [hlba]
      refine h.data _ (isData_dataLba hc.1 hk) fun n hn i hi heq => ?_
      have := (dataLba_inj fits hc.1 (h.free n hn).1 hk hi heq).1
      exact hc.used (n := 0) rfl (this ▸ (h.free n hn).2)
    refine goes_scan_step fits hs (fun r t _ hx ht => ?_) fun b w _ hx hw hcow => ?_
    · have hrefl := Lengthened.refl ht.disk hc
      refine ⟨[], hrefl, ?_⟩
      rw [foldSlots_places, hslots hrefl, hx, Sum.elim_inr]
    unfold Volume.scanOn
    cases hn : v.geo.next (v.geo.table s.disk) c with
    | some d =>
      refine (ih hcow (by rw [hw.disk]; exact hc.next hn)).mono fun r y _ h => ?_
      obtain ⟨new, hlen, hfold⟩ := h
      rw [hw.disk] at hlen
      have hnext : v.geo.next (v.geo.table y.disk) c = some d := by
        rw [Geometry.next, hlen.links c d hn, ← hn, Geometry.next]
      have hall := hlen.next hc hn
      refine ⟨new, hall, ?_⟩
      rw [foldSlots_places, hslots hall, hx, Sum.elim_inl, hnext]
      exact hfold
    | none =>
      refine (goes_grow_inl fits hcow).next fits hcow fun x y hy h => ?_
      obtain ⟨n, rfl, hgrown⟩ := h
      have hchained : v.geo.Chained (v.geo.table y.disk) n := by
        refine ⟨hgrown.heap, 0, n, rfl, ?_⟩
        have hne : n ≠ c := by
          rintro rfl
          exact hc.used (n := 0) rfl (hw.disk ▸ hgrown.free)
        rw [hgrown.table, update_of_ne hne, update_self]
      refine (ih hy hchained).mono fun r z _ h => ?_
      obtain ⟨new, hlen, hfold⟩ := h
      have hall := hlen.grow fits (by rw [hw.disk]; exact hc) (by rw [hw.disk]; exact hn) hgrown
      rw [hw.disk] at hall
      refine ⟨n :: new, hall, ?_⟩
      rw [foldSlots_places, hslots hall, hx, Sum.elim_inl, hall.next_of_last hn]
      exact hfold

end Scan
/-! ## Open slots -/

/-- `count` open slots in a row; the one before them, if there is one, is in use. -/
structure OpenRun (disk : Nat → Sector) (l before locs after : List Place) (count : Nat) : Prop where
  split : l = before ++ locs ++ after
  length : locs.length = count
  slots : ∀ p ∈ locs, isOpen (disk p.lba) p
  used : before = [] ∨ ∃ front q, before = front ++ [q] ∧ isOpen (disk q.lba) q = false

section OpenRun
variable {l locs : List Place} {count : Nat}

theorem foldSlots_openRun {run : List Place} (hrun : ∀ p ∈ run, isOpen (disk p.lba) p)
    (hlen : run.length < count) (h : foldSlots (openRun count) disk l run = .inr locs) :
    ∃ before after, OpenRun disk (run ++ l) before locs after count := by
  induction l generalizing run with
  | nil => cases h
  | cons p rest ih =>
    rw [foldSlots, openRun] at h
    by_cases hopen : isOpen (disk p.lba) p
    · have hrun' : ∀ q ∈ run ++ [p], isOpen (disk q.lba) q := by
        intro q hq
        rcases mem_append.1 hq with hq | hq
        · exact hrun q hq
        · rwa [mem_singleton.1 hq]
      rw [if_pos hopen] at h
      by_cases hcount : run.length + 1 = count
      · rw [if_pos hcount] at h
        cases h
        exact ⟨[], rest, by simp, by simp [hcount], hrun', .inl rfl⟩
      rw [if_neg hcount] at h
      have hrest := ih hrun' (by simp; omega) h
      rwa [append_assoc, singleton_append] at hrest
    · rw [if_neg hopen] at h
      obtain ⟨before, after, hsplit, hlength, hall, hused⟩ :=
        @ih [] (fun _ h => absurd h not_mem_nil) (zero_lt_of_lt hlen) h
      refine ⟨run ++ [p] ++ before, after, ?_, hlength, hall, .inr ?_⟩
      · rw [nil_append] at hsplit
        rw [hsplit]
        simp
      rcases hused with rfl | ⟨front, q, rfl, hq⟩
      · exact ⟨run, p, append_nil _, eq_false_of_ne_true hopen⟩
      · exact ⟨run ++ [p] ++ front, q, (append_assoc _ _ _).symm, hq⟩

theorem foldSlots_firstOpen {buf : Sector} {p : Place} (h : foldSlots firstOpen disk l () = .inr (buf, p)) :
    buf = disk p.lba ∧ ∃ before after, OpenRun disk l before [p] after 1 := by
  induction l with
  | nil => cases h
  | cons q rest ih =>
    rw [foldSlots, firstOpen] at h
    by_cases hopen : isOpen (disk q.lba) q
    · rw [if_pos hopen] at h
      cases h
      exact ⟨rfl, [], rest, rfl, rfl, by simpa using hopen, .inl rfl⟩
    rw [if_neg hopen] at h
    obtain ⟨hbuf, before, after, hsplit, hlength, hall, hused⟩ := ih h
    refine ⟨hbuf, q :: before, after, by rw [hsplit]; rfl, hlength, hall, .inr ?_⟩
    rcases hused with rfl | ⟨front, r, rfl, hr⟩
    · exact ⟨[], q, rfl, eq_false_of_ne_true hopen⟩
    · exact ⟨q :: front, r, rfl, hr⟩

end OpenRun

/-! ## Entries that are inserted -/

/-- the slot `rows` have been written into open slots of the directory `c`, which may have got longer. -/
def Inserted (g : Geometry) (n c : Nat) (rows : List (List UInt8)) (disk disk' : Nat → Sector) : Prop :=
  ∃ mid new before locs after, Lengthened g c new disk mid ∧
    OpenRun mid (g.places mid n c) before locs after rows.length
    ∧ disk' = puts mid (locs.zip rows)

section Insert
variable (fits : v.geo.Fits reserved total) {dir : Nat} {attr : UInt8} {cluster size : Nat}
include fits

omit fits in
theorem Lengthened.isData {g : Geometry} {c n : Nat} {new : List Nat}
    {disk' : Nat → Sector} (h : Lengthened g c new disk disk') {p : Place} (hp : p ∈ g.places disk' n c) :
    g.IsData p.lba := isData_of_mem_places h.chained.1 hp

theorem goes_insertDirEntry_eq {short : List UInt8} {ntres : UInt8} (hs : Coherent v.geo s)
    (hc : v.geo.Chained (v.geo.table s.disk) dir) :
    Goes v.geo total (v.insertDirEntry dir short ntres attr cluster size) s fun _ t =>
      Inserted v.geo v.fuel dir [writeRawEntry short ntres attr cluster size] s.disk t.disk := by
  refine (goes_scan_grow fits hs hc).bind fun x t _ h => ?_
  obtain ⟨buf, p⟩ := x
  obtain ⟨new, hlen, hfold⟩ := h
  obtain ⟨rfl, before, after, hrun⟩ := foldSlots_firstOpen hfold
  have hp : p ∈ v.geo.places t.disk v.fuel dir := by
    rw [hrun.split]
    simp
  refine (goes_writeData fits (hlen.isData hp)).mono fun _ u _ hu => ?_
  exact ⟨t.disk, new, before, [p], after, hlen, hrun, hu.1⟩

theorem goes_writeEntryRun_eq {entries : List (List UInt8)} (hpos : 0 < entries.length) (hs : Coherent v.geo s)
    (hc : v.geo.Chained (v.geo.table s.disk) dir) :
    Goes v.geo total (v.writeEntryRun dir entries) s fun _ t =>
      Inserted v.geo v.fuel dir entries s.disk t.disk := by
  refine (goes_scan_grow fits hs hc).bind fun locs t _ h => ?_
  obtain ⟨new, hlen, hfold⟩ := h
  obtain ⟨before, after, hrun⟩ := foldSlots_openRun (fun _ h => absurd h not_mem_nil) hpos hfold
  rw [nil_append] at hrun
  refine (goes_rewrite fits fun x hx => ?_).mono fun _ u _ hu =>
    ⟨t.disk, new, before, locs, after, hlen, hrun, hu.1⟩
  refine hlen.isData (n := v.fuel) (?_ : x.1 ∈ _)
  rw [hrun.split]
  exact mem_append_left _ (mem_append_right _ (of_mem_zip hx).1)

inductive NameRows (g : Geometry) (disk : Nat → Sector) (n c : Nat) (name : Bytes) (attr : UInt8)
    (cluster size : Nat) :
    List UInt8 → List (List UInt8) → Prop where
  | short {short : List UInt8} {ntres : UInt8} : makeShortName name = some (short, ntres) →
      NameRows g disk n c name attr cluster size short [writeRawEntry short ntres attr cluster size]
  | long {short : List UInt8} {i : Nat} : makeShortName name = none → 1 ≤ i → i ≤ 999999 →
      short = composeAlias (aliasBase name) (aliasExt name) i → g.hasShort disk n c short = false →
      NameRows g disk n c name attr cluster size short
        (buildNameEntries ((Utf16.unitsOf name).getD []) short attr cluster size)

theorem goes_insertNamedEntry_eq {name : Bytes} (hs : Coherent v.geo s)
    (hc : v.geo.Chained (v.geo.table s.disk) dir) :
    Goes v.geo total (v.insertNamedEntry dir name attr cluster size) s fun _ t => ∃ short rows,
      NameRows v.geo s.disk v.fuel dir name attr cluster size short rows ∧
        Inserted v.geo v.fuel dir rows s.disk t.disk := by
  unfold Volume.insertNamedEntry
  cases hshort : makeShortName name with
  | some x =>
    obtain ⟨short, ntres⟩ := x
    exact (goes_insertDirEntry_eq fits hs hc).mono fun _ t _ h => ⟨short, _, .short hshort, h⟩
  | none =>
    refine (goes_aliasFrom fits hs).next fits hs fun short t ht h => ?_
    obtain ⟨⟨i, hlo, hhi, heq⟩, hfree, hl⟩ := h
    have hrows : 0 < (buildNameEntries ((Utf16.unitsOf name).getD []) short attr cluster size).length := by
      simp [buildNameEntries]
    refine (goes_writeEntryRun_eq fits hrows ht (by rwa [hl.disk])).mono fun _ u _ hu => ?_
    rw [hl.disk] at hu
    exact ⟨short, _, .long hshort hlo (by omega) heq hfree, hu⟩

end Insert
end Ouroboros.Fat32
