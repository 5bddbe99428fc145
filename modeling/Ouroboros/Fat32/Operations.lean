import Ouroboros.Fat32.Slots

/-!
# FAT32: walks and reads go by steps

* `goes_readEntry`  sets a cursor: it stands where a walk comes to;
* `Steps.sound`  the cache and the cursors go on saying what the disk says.
-/

namespace Ouroboros.Fat32

open Fsd (Bytes)
open Image Relation List Nat

variable {v : Volume} {reserved total : Nat} {s : Fs} {c : Nat} {path : Bytes} {g : Geometry} {head : Nat}

/-! ## Walks -/

section Scan
variable (fits : v.geo.Fits reserved total) (hs : Coherent v.geo s)
include fits hs

theorem goes_lookup {name : Bytes} : Goes v.geo total (v.lookup c name) s fun x t =>
      (∀ e p, x = some (e, p) → v.geo.IsData p.lba ∧ e.size < 2 ^ 32) ∧ Looks s t := by
  refine (goes_lookup_eq fits hs).mono fun x t _ h => ⟨fun e p heq => ?_, h.2.2⟩
  have hmem := mem_entriesFrom (mem_of_find?_eq_some (h.2.1.symm.trans heq))
  exact hmem.imp_left (isData_of_mem_places h.1)

theorem goes_find : Goes v.geo total (v.find path) s fun e t => e.size < 2 ^ 32 ∧ Looks s t :=
  (goes_find_eq fits hs).mono fun _ _ _ h => ⟨resolve_size (Nat.two_pow_pos 32) h.1, h.2⟩

theorem goes_listDir {stop : List (Bytes × Bool) → Bool} :
    Goes v.geo total (v.listDir path stop) s fun _ t => Looks s t := by
  refine (goes_find fits hs).next fits hs fun dir t htc ht => .ite (fun _ => .err) fun _ => ?_
  exact (goes_walk fits htc).mono fun _ u _ hu => ht.2.trans hu.2.2

theorem goes_stat : Goes v.geo total (v.stat path) s fun _ t => Looks s t :=
  (goes_find fits hs).bind fun _ _ _ ht => .pure ht.2

theorem goes_findFile : Goes v.geo total (v.findFile path) s fun e t => e.size < 2 ^ 32 ∧ Looks s t :=
  (goes_find fits hs).bind fun _ _ _ ht => .ite (fun _ => .err) fun _ => .pure ht

theorem goes_findDir : Goes v.geo total (v.findDir path) s fun _ t => Looks s t :=
  (goes_find fits hs).bind fun _ _ _ ht => .ite (fun _ => .err) fun _ => .pure ht.2

end Scan

/-! ## Cursors -/

section At
variable {T U : Nat → Nat} {k : ChainCursor} {n value : Nat}

theorem at_head (c : Nat) : g.At T ⟨c, c, 0⟩ := ⟨0, by simp, rfl⟩

theorem at_start {cursor : Option ChainCursor} (h : ∀ k, cursor = some k → g.At T k) (head pos : Nat) :
    g.At T ⟨head, (ChainCursor.start cursor head pos).1, (ChainCursor.start cursor head pos).2⟩
      ∧ (ChainCursor.start cursor head pos).2 ≤ pos := by
  unfold ChainCursor.start
  split
  · split
    · rename_i k hk
      obtain ⟨rfl, hle⟩ := hk
      exact ⟨h k rfl, hle⟩
    · exact ⟨at_head head, zero_le _⟩
  · exact ⟨at_head head, zero_le _⟩

theorem at_next {pos : Nat} (h : g.At T ⟨head, c, pos⟩) (hn : g.next T c = some n) :
    g.At T ⟨head, n, pos + g.clusterBytes⟩ := by
  obtain ⟨i, hpos, hreach⟩ := h
  refine ⟨i + 1, ?_, ?_⟩
  · rw [succ_mul]
    exact congrArg (· + g.clusterBytes) hpos
  · rw [Geometry.reach, hreach]
    exact hn

def Extends (g : Geometry) (T U : Nat → Nat) : Prop := ∀ c n, g.next T c = some n → g.next U c = some n

theorem Extends.refl (g : Geometry) (T : Nat → Nat) : Extends g T T := fun _ _ h => h

theorem Extends.trans {V : Nat → Nat} (h : Extends g T U) (k : Extends g U V) : Extends g T V :=
  fun c n hn => k c n (h c n hn)

theorem Extends.reach (h : Extends g T U) (hr : g.reach T head n = some c) : g.reach U head n = some c := by
  induction n generalizing c with
  | zero => exact hr
  | succ n ih =>
    rw [Geometry.reach] at hr ⊢
    obtain ⟨b, hb, hc⟩ := Option.bind_eq_some_iff.1 hr
    rw [ih hb]
    exact h b c hc

theorem Extends.at (h : Extends g T U) (hk : g.At T k) : g.At U k := by
  obtain ⟨n, hpos, hreach⟩ := hk
  exact ⟨n, hpos, h.reach hreach⟩

theorem Entered.extends {t : Fs} (h : Entered g c value s t)
    (hn : g.next (g.table s.disk) c = none) : Extends g (g.table s.disk) (g.table t.disk) := by
  intro x n hx
  have hne : x ≠ c := by
    rintro rfl
    rw [hn] at hx
    cases hx
  rw [Geometry.next, h.table, Function.update_of_ne hne]
  exact hx

theorem link_of_endsWalk (h : endsWalk value) : g.link value = none := by
  rw [Geometry.link, h, Bool.true_or, if_pos rfl]

theorem link_of_inHeap (fits : g.Fits reserved total) (hc : g.inHeap c) : g.link (c % 2 ^ 28) = some c := by
  have hsmall := fits.small
  obtain ⟨hlo, hhi⟩ := inHeap_iff.1 hc
  unfold badCluster at hsmall
  have hmod : c % 2 ^ 28 = c := mod_eq_of_lt (by omega)
  have hends : endsWalk c = false := by
    rw [endsWalk, decide_eq_false_iff_not, endOfChainMin]
    omega
  rw [hmod, Geometry.link, hends, hc]
  rfl

end At

structure Sound (g : Geometry) (s : Fs) : Prop where
  coherent : Coherent g s
  readCursor : ∀ k, s.readCursor = some k → g.At (g.table s.disk) k
  writeCursor : ∀ k, s.writeCursor = some k → g.At (g.table s.disk) k

section Sound
variable (fits : g.Fits reserved total) {t : Fs}

theorem Sound.of_table (hs : Sound g s) (ht : Coherent g t) (htable : g.table t.disk = g.table s.disk)
    (hr : t.readCursor = s.readCursor) (hw : t.writeCursor = s.writeCursor) : Sound g t :=
  ⟨ht, by rw [htable, hr]; exact hs.readCursor, by rw [htable, hw]; exact hs.writeCursor⟩

include fits

theorem Prim.sound (h : Prim g total s t) (hs : Sound g s) : Sound g t := by
  have ht := h.coherent fits hs.coherent
  cases h with
  | event _ | cache _ | hint => exact hs.of_table ht rfl rfl rfl
  | data hd => exact hs.of_table ht (table_data fits hd) rfl rfl
  | drop => exact ⟨ht, nofun, nofun⟩
  | readCursor hk =>
    refine ⟨ht, fun k hk' => ?_, hs.writeCursor⟩
    cases hk'
    exact hk
  | writeCursor hk =>
    refine ⟨ht, hs.readCursor, fun k hk' => ?_⟩
    cases hk'
    exact hk
  | @entry c value hc hdrop =>
    cases hn : g.next (g.table s.disk) c with
    | some n =>
      obtain ⟨hr, hw⟩ := hdrop (by rw [hn]; rfl)
      refine ⟨ht, fun k hk => ?_, fun k hk => ?_⟩
      · cases hr.symm.trans hk
      · cases hw.symm.trans hk
    | none =>
      have hext : Extends g (g.table s.disk) (g.table (s.entered g c value).disk) := by
        have hent : Entered g c value s (s.entered g c value) :=
          ⟨hc, table_entered fits c value s hc, fun _ => ⟨rfl, rfl⟩, fun lba hd =>
            Function.update_of_ne (isFat_ne_isData fits ⟨fits.live, c, hc, rfl⟩ hd).symm _ _⟩
        exact hent.extends hn
      exact ⟨ht, fun k hk => hext.at (hs.readCursor k hk), fun k hk => hext.at (hs.writeCursor k hk)⟩
  | mirror hc hcopy hne =>
    exact hs.of_table ht (table_update_of_not_fat fits (not_isFat_of_copy_ne fits hc hcopy hne)) rfl rfl

theorem Steps.sound (h : Steps g total s t) (hs : Sound g s) : Sound g t := by
  induction h with
  | refl => exact hs
  | tail _ hstep ih => exact hstep.sound fits ih

end Sound

/-! ## Contents -/

def Geometry.clusterData (g : Geometry) (disk : Nat → Sector) (c : Nat) : Bytes :=
  (range g.sectorsPerCluster).flatMap fun k => read (disk (g.dataLba c k)) 0 sectorSize

def Geometry.contents (g : Geometry) (disk : Nat → Sector) (n c : Nat) : Bytes :=
  (g.chain (g.table disk) n c).flatMap (g.clusterData disk)

theorem length_clusterData (g : Geometry) (disk : Nat → Sector) (c : Nat) :
    (g.clusterData disk c).length = g.clusterBytes := by
  simp [Geometry.clusterData, Geometry.clusterBytes, length_flatMap]

theorem take_append_take {α : Type} {want : Nat} {out x r : List α} (h : out.length ≤ want) :
    (out ++ x.take (want - out.length) ++ r).take want = (out ++ x ++ r).take want := by
  rcases le_total x.length (want - out.length) with hx | hx
  · rw [take_of_length_le hx]
  have hout : (out ++ x.take (want - out.length)).length = want := by
    rw [length_append, length_take]
    omega
  rw [take_left' hout, append_assoc, take_append, take_of_length_le h, take_append_of_le_length hx]

theorem read_part (b : Sector) (o n m : Nat) : read b o (min (n - o) m) = ((read b 0 n).drop o).take m := by
  refine ext_getElem (by simp [min_comm]) fun i h₁ h₂ => ?_
  rw [getElem_read, getElem_take, getElem_drop, getElem_read, zero_add]

theorem copied_eq {disk : Nat → Sector} {offset pos : Nat} :
    (range g.sectorsPerCluster).flatMap (fun k => (read (disk (g.dataLba c k)) 0 sectorSize).drop
      (offset - (pos + k * sectorSize))) = (g.clusterData disk c).drop (offset - pos) := by
  unfold Geometry.clusterData
  induction g.sectorsPerCluster with
  | zero => rw [range_zero, flatMap_nil, flatMap_nil, drop_nil]
  | succ n ih =>
    have hlen : ((range n).flatMap fun k => read (disk (g.dataLba c k)) 0 sectorSize).length =
        n * sectorSize := by
      simp [length_flatMap]
    rw [range_succ, flatMap_append, ih, flatMap_append, drop_append, hlen, Nat.sub_sub]
    simp

section Reads
variable (fits : v.geo.Fits reserved total) {pos offset fuel want room : Nat} {out : Bytes}
include fits

theorem clusterBytes_lt : v.geo.clusterBytes < 2 ^ 17 := by
  have := fits.sectors_lt
  unfold Geometry.clusterBytes sectorSize
  omega

omit fits in
theorem sector_lt {start : Nat} (hle : start ≤ pos) (h : pos < start + v.geo.clusterBytes) :
    (pos - start) / sectorSize < v.geo.sectorsPerCluster := by
  refine Nat.div_lt_of_lt_mul ?_
  unfold Geometry.clusterBytes at h
  rw [Nat.mul_comm]
  omega

theorem clusterBytes_pos : 0 < v.geo.clusterBytes := mul_pos fits.sectors_pos (by decide)

theorem goes_seek (hs : Coherent v.geo s)
    (hat : v.geo.At (v.geo.table s.disk) ⟨head, c, pos⟩) (hpos : pos ≤ offset) (hoffset : offset < 2 ^ 63) :
    Goes v.geo total (v.seek offset fuel c pos) s fun x t => Looks s t ∧ ∀ c pos, x = some (c, pos) →
        v.geo.At (v.geo.table s.disk) ⟨head, c, pos⟩ ∧ pos ≤ offset ∧ offset < pos + v.geo.clusterBytes := by
  induction fuel generalizing s c pos with
  | zero => exact .fail
  | succ fuel ih =>
    have hcb := clusterBytes_lt fits
    refine (goes_u64 (by omega)).bind fun stop t _ h => ?_
    obtain ⟨rfl, rfl⟩ := h
    refine .ite (fun hstop => ?_) fun hin => ?_
    · refine (goes_nextCluster fits hs).next fits hs fun next t htc h => ?_
      obtain ⟨-, rfl, ht⟩ := h
      split
      · rename_i n hn
        have hat' := at_next hat hn
        rw [← ht.disk] at hat' ⊢
        exact (ih htc hat' hstop).mono fun x u _ hu => ⟨ht.trans hu.1, hu.2⟩
      · exact .pure ⟨ht, nofun⟩
    · refine .pure ⟨Looks.refl _, fun c pos heq => ?_⟩
      cases heq
      exact ⟨hat, hpos, Nat.lt_of_not_le hin⟩

theorem goes_copySectors (hc : v.geo.inHeap c) (hpos : pos < 2 ^ 63) {l : List Nat}
    (hl : ∀ k ∈ l, k < v.geo.sectorsPerCluster) (hout : out.length ≤ want) :
    Goes v.geo total (v.copySectors offset want (v.geo.dataLba c 0) pos l out) s fun out' t =>
      out' = (out ++ l.flatMap fun k =>
        (read (s.disk (v.geo.dataLba c k)) 0 sectorSize).drop (offset - (pos + k * sectorSize))).take want ∧
          Looks s t := by
  induction l generalizing s out with
  | nil =>
    refine .pure ⟨?_, Looks.refl s⟩
    rw [flatMap_nil, append_nil, take_of_length_le hout]
  | cons k rest ih =>
    have hk := hl k mem_cons_self
    have hrest : ∀ j ∈ rest, j < v.geo.sectorsPerCluster := fun j hj => hl j (mem_cons_of_mem k hj)
    refine .ite (fun hfull => .pure ⟨(take_left' (by omega)).symm, Looks.refl s⟩) fun _ => ?_
    have hstop : pos + k * sectorSize + sectorSize < 2 ^ 64 := by
      have hlt := fits.sectors_lt
      unfold sectorSize
      omega
    refine (goes_u64 hstop).bind fun stop t _ h => ?_
    obtain ⟨rfl, rfl⟩ := h
    rw [flatMap_cons]
    refine .ite (fun hskip => ?_) fun _ => ?_
    · rw [drop_eq_nil_of_le (by rw [length_read]; omega), nil_append]
      exact ih hrest hout
    refine (goes_sectorAt fits hc hk).bind fun lba u _ h => ?_
    obtain ⟨rfl, hu⟩ := h
    refine (goes_readData (isData_dataLba hc hk)).bind fun data w _ h => ?_
    obtain ⟨rfl, huw⟩ := h
    have hw := hu.trans huw
    have hstart : max offset (pos + k * sectorSize) - (pos + k * sectorSize) =
      offset - (pos + k * sectorSize) := by omega
    rw [hstart]
    dsimp only
    rw [read_part, hu.disk]
    refine (ih hrest ?_).mono fun out' x _ hx => ⟨?_, hw.trans hx.2⟩
    · rw [length_append, length_take]
      omega
    · rw [hx.1, hw.disk, take_append_take hout, append_assoc]

theorem goes_copyCluster (hc : v.geo.inHeap c) (hpos : pos < 2 ^ 63) (hout : out.length ≤ want) :
    Goes v.geo total (v.copySectors offset want (v.geo.dataLba c 0) pos (range v.geo.sectorsPerCluster) out) s
      fun out' t => out' = (out ++ (v.geo.clusterData s.disk c).drop (offset - pos)).take want ∧ Looks s t := by
  rw [← copied_eq]
  exact goes_copySectors fits hc hpos (fun k hk => mem_range.1 hk) hout

theorem goes_copyClusters (hs : Coherent v.geo s)
    (hat : v.geo.At (v.geo.table s.disk) ⟨head, c, pos⟩) (hpos : pos + fuel * 2 ^ 17 < 2 ^ 63)
    (hout : out.length ≤ want) : Goes v.geo total (v.copyClusters offset want fuel c pos out) s fun x t =>
      x.1 = (out ++ (v.geo.contents s.disk fuel c).drop (offset - pos)).take want ∧ Looks s t
        ∧ v.geo.At (v.geo.table s.disk) ⟨head, x.2.1, x.2.2⟩ := by
  induction fuel generalizing s c pos out with
  | zero => exact .fail
  | succ fuel ih =>
    have hcb := clusterBytes_lt fits
    refine (goes_clusterToLba fits).bind fun lba t hst h => ?_
    obtain ⟨hc, rfl, ht⟩ := h
    refine (goes_copyCluster fits hc (by omega) hout).bind fun out' u htu h => ?_
    obtain ⟨hout', htu'⟩ := h
    have hu := ht.trans htu'
    have huc : Coherent v.geo u := Steps.coherent fits (hst.trans htu) hs
    rw [ht.disk] at hout'
    have hlen : out'.length = min want (out ++ (v.geo.clusterData s.disk c).drop (offset - pos)).length := by
      rw [hout', length_take]
    rw [Geometry.contents, Geometry.chain, flatMap_cons, drop_append, ← append_assoc,
      length_clusterData, Nat.sub_sub]
    refine .ite (fun hfull => .pure ⟨?_, hu, hat⟩) fun hmore => ?_
    · rw [take_append_of_le_length (by omega)]
      exact hout'
    rw [take_of_length_le (by omega)] at hout'
    refine (goes_nextCluster fits huc).next fits huc fun next w hwc h => ?_
    obtain ⟨-, rfl, huw'⟩ := h
    have hw := hu.trans huw'
    rw [hu.disk]
    cases hn : v.geo.next (v.geo.table s.disk) c with
    | none =>
      refine .pure ⟨?_, hw, hat⟩
      show out' = ((out ++ (v.geo.clusterData s.disk c).drop (offset - pos)) ++ drop _ []).take want
      rw [drop_nil, append_nil, ← hout', take_of_length_le (by omega)]
    | some d =>
      refine (goes_u64 (by omega)).bind fun stop x _ h => ?_
      obtain ⟨rfl, rfl⟩ := h
      have hat' := at_next hat hn
      rw [← hw.disk] at hat' ⊢
      refine (ih hwc hat' (by omega) (by omega)).mono fun y z _ hz => ⟨?_, hw.trans hz.2.1, hz.2.2⟩
      rw [hz.1, hout', Option.elim_some, Geometry.contents, hw.disk]

/-- what `readFile` yields of a file. -/
def Volume.fileBytes (v : Volume) (disk : Nat → Sector) (e : DirEntry) (room : Nat) : Nat × Bytes :=
  if e.size = 0 then (0, [])
  else (e.size, (v.geo.contents disk (min e.size room + 1) e.cluster).take (min e.size room))

theorem goes_readFile (hs : Coherent v.geo s) : Goes v.geo total (v.readFile path room) s fun x t => ∃ e,
      v.resolve s.disk (Fsd.components path) (DirEntry.root v.geo.rootCluster) = some e ∧
        x = v.fileBytes s.disk e room
        ∧ Looks s t := by
  refine (goes_find_eq fits hs).next fits hs fun e t ht h => ?_
  have hsize : e.size < 2 ^ 32 := resolve_size (Nat.two_pow_pos 32) h.1
  refine .ite (fun _ => .err) fun _ => ?_
  refine .ite (fun hzero => .pure ⟨e, h.1, by rw [Volume.fileBytes, if_pos hzero], h.2⟩) fun hne => ?_
  refine (goes_copyClusters fits ht (at_head e.cluster) (by omega) (zero_le _)).bind fun x u _ hu => ?_
  refine .pure ⟨e, h.1, ?_, h.2.trans hu.2.1⟩
  rw [Volume.fileBytes, if_neg hne, hu.1, nil_append, Nat.sub_zero, drop_zero, h.2.disk]

variable (hs : Sound v.geo s) {file : DirEntry} {stop : List Bytes → Bool}
include hs

theorem goes_readEntry (hsize : file.size < 2 ^ 32) :
    Goes v.geo total (v.readEntry file offset room) s fun out t =>
      (out = [] ∨ offset + out.length ≤ file.size) ∧ t.disk = s.disk := by
  refine .ite (fun _ => .pure ⟨.inl rfl, rfl⟩) fun hne => ?_
  have hoffset : offset < file.size := by omega
  refine (Goes.ask (Q := fun a t => a = s.readCursor ∧ t = s) ⟨rfl, rfl⟩).bind fun cursor t _ h => ?_
  obtain ⟨rfl, rfl⟩ := h
  obtain ⟨hat, hle⟩ := at_start hs.readCursor file.cluster offset
  refine (goes_seek fits hs.coherent hat hle (by omega)).next fits hs.coherent fun x u huc hu => ?_
  rcases x with _ | ⟨c, pos⟩
  · exact .pure ⟨.inl rfl, hu.1.disk⟩
  obtain ⟨hat', hpos, -⟩ := hu.2 c pos rfl
  rw [← hu.1.disk] at hat'
  refine (goes_copyClusters fits huc hat' (by omega) (zero_le _)).bind ?_
  intro x w _ hw
  have hk := hw.2.2
  rw [← hw.2.1.disk] at hk
  have hdisk := hw.2.1.disk.trans hu.1.disk
  refine (Goes.change (Q := fun _ y => y.disk = _) (.readCursor hk) hdisk).bind fun _ _ _ hy => .pure ⟨?_, hy⟩
  refine .inr ?_
  rw [hw.1, length_take]
  omega

theorem goes_readAt : Goes v.geo total (v.readAt path offset room) s fun _ t => t.disk = s.disk := by
  refine (goes_findFile fits hs.coherent).bind fun file t hst h => ?_
  exact (goes_readEntry fits (hst.sound fits hs) h.1).mono fun _ u _ hu => hu.2.trans h.2.disk

theorem goes_readPieces {done : Nat} {given : List Bytes}
    (hsize : file.size < 2 ^ 32) (hoffset : offset < 2 ^ 64) (hdone : done = 0 ∨ offset + done ≤ file.size) :
    Goes v.geo total (v.readPieces file offset want room stop fuel done given) s fun _ t => t.disk = s.disk := by
  induction fuel generalizing s done given with
  | zero => exact .fail
  | succ fuel ih =>
    refine .ite (fun _ => ?_) fun _ => .pure rfl
    refine (goes_u64 (by omega)).bind fun start t _ h => ?_
    obtain ⟨rfl, rfl⟩ := h
    refine (goes_readEntry fits hs hsize).bind fun piece u htu hu => ?_
    refine .ite (fun _ => .pure hu.2) fun hne => ?_
    refine .ite (fun _ => .pure hu.2) fun _ => ?_
    refine .ite (fun _ => .pure hu.2) fun _ => ?_
    have hle := hu.1.resolve_left hne
    exact (ih (htu.sound fits hs) (.inr (by omega))).mono fun _ w _ hw => hw.trans hu.2

theorem goes_readEach (hoffset : offset < 2 ^ 64) :
    Goes v.geo total (v.readEach path offset want room stop) s fun _ t => t.disk = s.disk := by
  refine (goes_findFile fits hs.coherent).bind fun file t hst h => ?_
  exact (goes_readPieces fits (hst.sound fits hs) h.1 hoffset (.inl rfl)).mono fun _ u _ hu => hu.trans h.2.disk

end Reads
end Ouroboros.Fat32
