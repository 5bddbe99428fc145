import Ouroboros.Fat32.Bounds
import Ouroboros.Fat32.Spends

/-!
# FAT32: a file overwritten while writes begin to fail

* `Geometry.Tidy`  a volume whose directories and files have chains of their own;
* `writeFile_of_file`  `writeFile` on a file that is there;
* `overwrite_keeps_iff`  **when a failed `writeFile` leaves the file readable as it was**.
-/

namespace Ouroboros.Fat32

open Fsd (Bytes components splitParent)
open Image Relation Volume List Option Nat

/-! ## Tidy volumes -/

/-- every directory has a chain, and every file one that covers its size; no cluster of a file is one of
a directory. -/
structure Geometry.Tidy (g : Geometry) (disk : Nat → Sector) : Prop where
  dirs : ∀ c, g.Directory disk c → g.Chained (g.table disk) c
  files : ∀ c n x, g.Directory disk c → x ∈ g.entries disk n c → ¬ x.1.isDir → x.1.cluster ≠ 0 →
    g.Chained (g.table disk) x.1.cluster
      ∧ x.1.size ≤ (g.chain (g.table disk) g.clusterEnd x.1.cluster).length * g.clusterBytes
  empty : ∀ c n x, g.Directory disk c → x ∈ g.entries disk n c → ¬ x.1.isDir → x.1.cluster = 0 → x.1.size = 0
  apart : ∀ c n x, g.Directory disk c → x ∈ g.entries disk n c → ¬ x.1.isDir → ∀ c' i j d, g.Directory disk c' →
    g.reach (g.table disk) x.1.cluster i = some d → g.reach (g.table disk) c' j ≠ some d

variable {disk : Nat → Sector}

theorem Geometry.Tidy.dirsEnd {g : Geometry} (h : g.Tidy disk) : g.DirsEnd disk :=
  fun c hc _ => (h.dirs c hc).ended

theorem resolve_entry {v : Volume} {dir name : Bytes} {e : DirEntry}
    (he : v.resolve disk (components dir ++ [name]) (DirEntry.root v.geo.rootCluster) = some e)
    (hfile : ¬ e.isDir) :
    ∃ parent p, v.resolve disk (components dir) (DirEntry.root v.geo.rootCluster) = some parent ∧ parent.isDir
      ∧ v.geo.inHeap parent.cluster ∧ v.geo.Directory disk parent.cluster
      ∧ (v.geo.entries disk v.fuel parent.cluster).find? (fun x => namesMatch x.1.name name) = some (e, p) := by
  rw [resolve_append, bind_eq_some_iff] at he
  obtain ⟨parent, hparent, he⟩ := he
  rw [resolve] at he
  split at he
  · rename_i hdir
    obtain ⟨⟨x, p⟩, hx, he⟩ := bind_eq_some_iff.1 he
    cases he
    have heq : v.orRoot x = x := by
      unfold orRoot at hfile ⊢
      split
      · rename_i hzero
        rw [if_pos hzero] at hfile
        exact absurd hzero.1 hfile
      · rfl
    dsimp only at hfile ⊢
    rw [heq]
    exact ⟨parent, p, hparent, hdir.1, hdir.2, Geometry.Directory.resolve (fun _ => .root) hparent hdir.1, hx⟩
  · cases he

section Overwrite
variable {v : Volume} {s : Fs} {reserved total : Nat} (fits : v.geo.Fits reserved total) {t : Fs}
variable {path : Bytes} {e : DirEntry}
include fits

theorem writeFile_of_file (hr : v.toDevice.Reads) (hs : Coherent v.geo s) (hend : v.geo.DirsEnd s.disk)
    (hfuel : v.geo.clusterEnd ≤ v.fuel) {dir name : Bytes} {parent : DirEntry} {p : Place} (data : Bytes)
    (hsplit : splitParent path = some (dir, name))
    (hparent : v.resolve s.disk (components dir) (DirEntry.root v.geo.rootCluster) = some parent)
    (hdir : parent.isDir) (hheap : v.geo.inHeap parent.cluster) (hfile : ¬ e.isDir)
    (hfind : (v.geo.entries s.disk v.fuel parent.cluster).find? (fun x => namesMatch x.1.name name) =
      some (e, p)) :
    ∃ t, Same s t ∧ Coherent v.geo t ∧ v.writeFile path data s = (do
        let new ← v.writeChain data
        v.freeFile e.cluster
        v.patchEntryClusterSize p new data.length : Op Unit) t := by
  obtain ⟨t, ht, hst, hl⟩ := findDir_of_resolve hr fits hs hend hfuel hparent hdir
  have hended := hend parent.cluster (Geometry.Directory.resolve (fun _ => .root) hparent hdir) hheap
  rw [← hl.disk] at hended hfind
  obtain ⟨u, hu, htu, -⟩ := lookup_eq hr fits name (hst.coherent fits hs) hheap hended hfuel
  rw [hfind] at hu
  refine ⟨u, ((same_findDir dir).ok ht).trans _ _ _ ((looks_same.lookup _ _ _).ok hu),
    Steps.coherent fits (hst.trans htu) hs, ?_⟩
  unfold writeFile
  rw [hsplit]
  dsimp only
  rw [Try.bind_ok ht, Try.bind_ok hu]
  dsimp only
  rw [if_neg hfile]

theorem readFile_of_touches (hr : v.toDevice.Reads) {F : Nat → Prop}
    (ht : Coherent v.geo t) (h : Touches v.geo F s t) (hdirs : v.geo.AvoidsDirs s.disk F)
    (hend : v.geo.DirsEnd s.disk) (hfuel : v.geo.clusterEnd ≤ v.fuel)
    (he : v.resolve s.disk (components path) (DirEntry.root v.geo.rootCluster) = some e) (hfile : ¬ e.isDir)
    (hc : e.size ≠ 0 → v.geo.inHeap e.cluster) (room : Nat) :
    (v.readFile path room t).1 = .ok (v.fileBytes t.disk e room) :=
  readFile_eq hr fits room ht (h.dirsEnd hdirs hend) hfuel (by rwa [h.resolve hdirs fun _ => .root]) hfile hc

omit fits in
theorem fileBytes_of_touches {F : Nat → Prop} (h : Touches v.geo F s t)
    (hc : e.size ≠ 0 → v.geo.inHeap e.cluster ∧ v.geo.Avoids (v.geo.table s.disk) F e.cluster) (room : Nat) :
    v.fileBytes t.disk e room = v.fileBytes s.disk e room := by
  unfold fileBytes
  split
  · rfl
  · rename_i hne
    rw [h.contents (hc hne).1 (hc hne).2]

omit fits in
theorem contents_succ (g : Geometry) (disk : Nat → Sector) (n c : Nat) :
    g.contents disk (n + 1) c =
      g.clusterData disk c ++ ((g.next (g.table disk) c).map (g.contents disk n)).getD [] := by
  rw [Geometry.contents, Geometry.chain, flatMap_cons]
  cases g.next (g.table disk) c with
  | none | some d => rfl

omit fits in
theorem fileBytes_of_short (hsize : e.size ≤ v.geo.clusterBytes)
    (hc : e.size ≠ 0 → ∀ k < v.geo.sectorsPerCluster, t.disk (v.geo.dataLba e.cluster k) =
      s.disk (v.geo.dataLba e.cluster k))
    (room : Nat) : v.fileBytes t.disk e room = v.fileBytes s.disk e room := by
  have hwant : min e.size room ≤ v.geo.clusterBytes := (min_le_left _ _).trans hsize
  unfold fileBytes
  split
  · rfl
  rename_i hne
  have hdata : v.geo.clusterData t.disk e.cluster = v.geo.clusterData s.disk e.cluster :=
    flatMap_congr fun k hk => by rw [hc hne k (mem_range.1 hk)]
  rw [contents_succ, contents_succ, take_append_of_le_length (by rw [length_clusterData]; exact hwant),
    take_append_of_le_length (by rw [length_clusterData]; exact hwant), hdata]

omit fits in
theorem fileBytes_of_cut (hsize : v.geo.clusterBytes < e.size) (hpos : 0 < v.geo.clusterBytes)
    (hlong : e.size ≤ (v.geo.chain (v.geo.table s.disk) v.geo.clusterEnd e.cluster).length * v.geo.clusterBytes)
    (hcut : v.geo.table t.disk e.cluster = 0) :
    v.fileBytes t.disk e (v.geo.clusterBytes + 1) ≠ v.fileBytes s.disk e (v.geo.clusterBytes + 1) := by
  have hwant : min e.size (v.geo.clusterBytes + 1) = v.geo.clusterBytes + 1 := by omega
  -- the second cluster
  obtain ⟨d, hd⟩ : ∃ d, v.geo.next (v.geo.table s.disk) e.cluster = some d := by
    cases hn : v.geo.next (v.geo.table s.disk) e.cluster with
    | some d => exact ⟨d, rfl⟩
    | none =>
      have hone : (v.geo.chain (v.geo.table s.disk) v.geo.clusterEnd e.cluster).length ≤ 1 := by
        cases v.geo.clusterEnd with
        | zero => exact zero_le 1
        | succ n =>
          rw [Geometry.chain, hn]
          exact le_refl 1
      have := mul_le_mul_right v.geo.clusterBytes hone
      omega
  have hnone : v.geo.next (v.geo.table t.disk) e.cluster = none := by
    rw [Geometry.next, hcut]
    rfl
  intro heq
  have hlen := congrArg (fun x => x.2.length) heq
  unfold fileBytes at hlen
  rw [if_neg (by omega), if_neg (by omega), hwant] at hlen
  dsimp only at hlen
  rw [contents_succ, contents_succ, hnone, hd, map_some, getD_some, contents_succ] at hlen
  simp only [length_take, length_append, length_clusterData, map_none, getD_none, length_nil] at hlen
  omega

omit fits in
theorem Geometry.Tidy.file {dir name : Bytes} (h : v.geo.Tidy s.disk)
    (he : v.resolve s.disk (components dir ++ [name]) (DirEntry.root v.geo.rootCluster) = some e)
    (hfile : ¬ e.isDir) :
    (e.cluster = 0 → e.size = 0) ∧ (e.cluster ≠ 0 → v.geo.Chained (v.geo.table s.disk) e.cluster
      ∧ e.size ≤ (v.geo.chain (v.geo.table s.disk) v.geo.clusterEnd e.cluster).length * v.geo.clusterBytes)
    ∧ v.geo.AvoidsDirs s.disk fun d => ∃ i, v.geo.reach (v.geo.table s.disk) e.cluster i = some d := by
  obtain ⟨parent, p, -, -, -, hparent, hfind⟩ := resolve_entry he hfile
  have hmem := mem_of_find?_eq_some hfind
  refine ⟨h.empty _ _ _ hparent hmem hfile, h.files _ _ _ hparent hmem hfile, ?_⟩
  rintro c hc - j d hd ⟨i, hi⟩
  exact h.apart _ _ _ hparent hmem hfile c i j d hc hi hd

omit fits in
theorem patchEntryClusterSize_error {p : Place} {cluster size : Nat} {stop : Stop}
    (h : v.patchEntryClusterSize p cluster size s = (.error stop, t)) : t.disk = s.disk := by
  rcases Try.bind_cases h with ⟨buf, u, hu, h⟩ | ⟨_, hu, -⟩
  · rw [← ((same_readSector _ _).ok hu).disk]
    cases hf : v.fails u.log (.write .data p.lba _) with
    | true =>
      cases (writeSector_of_fails hf).symm.trans h
      rfl
    | false => cases (writeSector_of_passes hf).symm.trans h
  · have : Same s (v.readSector .data p.lba s).2 := same_readSector _ _
    rw [hu] at this
    exact this.disk

theorem leaves_freeFrom_chain (hs : Coherent v.geo s) (cluster : Nat) :
    Leaves (Loses v.geo fun d => ∃ i, v.geo.reach (v.geo.table s.disk) cluster i = some d)
      (v.freeFrom v.fuel cluster) s := by
  refine leaves_freeFrom fits hs ⟨0, rfl⟩ ?_
  rintro a b ⟨i, hi⟩ hab
  exact ⟨i + 1, by rw [Geometry.reach, hi, bind_some, hab]⟩

variable {k : Nat} (hd : v.toDevice = failingFrom (s.writes + k)) (hs : Coherent v.geo s)
    (htidy : v.geo.Tidy s.disk)
  (hfuel : v.geo.clusterEnd < v.fuel) {path data : Bytes} {e : DirEntry}
  (he : v.resolve s.disk (components path) (DirEntry.root v.geo.rootCluster) = some e) (hfile : ¬ e.isDir)
  {dir name : Bytes} (hsplit : splitParent path = some (dir, name))
include hd hs htidy hfuel he hfile hsplit

theorem kept_of_touches (ht : Coherent v.geo t)
    (h : Touches v.geo (fun c => v.geo.inHeap c ∧ v.geo.table s.disk c = 0) s t) (room : Nat) :
    (v.readFile path room t).1 = (v.readFile path room s).1 := by
  have hr := volume_reads hd
  have hdirs : v.geo.AvoidsDirs s.disk fun c => v.geo.inHeap c ∧ v.geo.table s.disk c = 0 :=
    fun c hc _ n d hn hF => (htidy.dirs c hc).used hn hF.2
  obtain ⟨hempty, hchain, -⟩ := htidy.file (by rwa [← Fsd.components_splitParent hsplit]) hfile
  have hc (hne : e.size ≠ 0) : v.geo.Chained (v.geo.table s.disk) e.cluster := (hchain fun h => hne (hempty h)).1
  rw [readFile_of_touches fits hr ht h hdirs htidy.dirsEnd hfuel.le he hfile (fun hne => (hc hne).1) room,
    readFile_eq hr fits room hs htidy.dirsEnd hfuel.le he hfile fun hne => (hc hne).1]
  exact congrArg _ (fileBytes_of_touches h
    (fun hne => ⟨(hc hne).1, fun n d hn hF => (hc hne).used hn hF.2⟩) room)

theorem kept_iff_of_freed (ht : Coherent v.geo t) (hne : e.cluster ≠ 0)
    (h : Touches v.geo (fun c => (v.geo.inHeap c ∧ v.geo.table s.disk c = 0)
      ∨ ∃ i, v.geo.reach (v.geo.table s.disk) e.cluster i = some c) s t)
    (hdata : ∀ i < v.geo.sectorsPerCluster, t.disk (v.geo.dataLba e.cluster i) =
      s.disk (v.geo.dataLba e.cluster i))
    (hcut : v.geo.table t.disk e.cluster = 0) :
    (∀ room, (v.readFile path room t).1 = (v.readFile path room s).1) ↔ e.size ≤ v.geo.clusterBytes := by
  have hr := volume_reads hd
  obtain ⟨-, hchain, hapart⟩ := htidy.file (by rwa [← Fsd.components_splitParent hsplit]) hfile
  obtain ⟨hchained, hlong⟩ := hchain hne
  have hdirs : v.geo.AvoidsDirs s.disk fun c => (v.geo.inHeap c ∧ v.geo.table s.disk c = 0)
      ∨ ∃ i, v.geo.reach (v.geo.table s.disk) e.cluster i = some c := by
    rintro c hc hheap n d hn (hF | hF)
    · exact (htidy.dirs c hc).used hn hF.2
    · exact hapart c hc hheap n d hn hF
  have hafter := readFile_of_touches fits hr ht h hdirs htidy.dirsEnd hfuel.le he hfile fun _ => hchained.1
  have hbefore := fun room => readFile_eq hr fits room hs htidy.dirsEnd hfuel.le he hfile fun _ => hchained.1
  constructor
  · intro hkept
    by_contra hsize
    have heq := (hafter _).symm.trans ((hkept (v.geo.clusterBytes + 1)).trans (hbefore _))
    exact fileBytes_of_cut (Nat.lt_of_not_le hsize) (Nat.mul_pos fits.sectors_pos (by decide)) hlong
      hcut (Except.ok.inj heq)
  · intro hsize room
    rw [hafter, hbefore]
    exact congrArg _ (fileBytes_of_short hsize (fun _ => hdata) room)

theorem kept_iff_of_split {stop : Stop} (herr : v.writeFile path data s = (.error stop, t)) :
    (∀ room, (v.readFile path room t).1 = (v.readFile path room s).1) ↔
      e.size ≤ v.geo.clusterBytes ∨ k ≤ v.geo.chainWrites (v.geo.clustersFor data.length)
      ∨ (v.geo.freeSet (v.geo.table s.disk)).card < v.geo.clustersFor data.length := by
  have hr := volume_reads hd
  have ht : Coherent v.geo t := Steps.coherent fits ((goes_writeFile fits hs).sat.error herr) hs
  have he' : v.resolve s.disk (components dir ++ [name]) (DirEntry.root v.geo.rootCluster) = some e := by
    rwa [← Fsd.components_splitParent hsplit]
  obtain ⟨parent, p, hparent, hdir, hheap, -, hfind⟩ := resolve_entry he' hfile
  obtain ⟨hempty, hchain, -⟩ := htidy.file he' hfile
  obtain ⟨t₀, hsame, ht₀, heq⟩ :=
    writeFile_of_file fits hr hs htidy.dirsEnd hfuel.le data hsplit hparent hdir hheap hfile hfind
  rw [heq] at herr
  have hwrites := hsame.writes
  have hkept {u : Fs} (hu : Coherent v.geo u) := kept_of_touches fits hd hs htidy hfuel he hfile hsplit hu
  have hleaves := @leaves_writeChain t₀ v _ _ fits data ht₀
  have hspends := @spends_writeChain _ t₀ v _ _ hd data fits ht₀
  rw [hsame.disk] at hleaves hspends
  rcases Try.bind_cases herr with ⟨new, u, hu, herr⟩ | ⟨stop', hu, -⟩
  · -- the new chain is there
    have hfree := ((goes_writeChain_free fits ht₀).sat.ok hu).2
    rw [hsame.disk] at hfree
    have hspent := ((hspends hfree).writes new u hu).1
    have huc : Coherent v.geo u := Steps.coherent fits ((goes_writeChain fits ht₀).sat.ok hu).1 ht₀
    have hsu := hsame.touches.trans _ _ _ (hleaves.ok hu)
    by_cases hzero : e.cluster = 0
    · have hdisk : t.disk = u.disk := by
        rw [freeFile, if_neg (not_not.2 hzero)] at herr
        exact patchEntryClusterSize_error herr
      have hst := hsu.trans _ _ _ (.of_disk hdisk)
      exact iff_of_true (hkept ht hst) (.inl ((hempty hzero).trans_le (zero_le _)))
    · obtain ⟨hchained, -⟩ := hchain hzero
      have hdisk : t.disk = (v.freeFrom v.fuel e.cluster u).2.disk := by
        rw [freeFile, if_pos hzero, freeChain, if_pos hchained.1] at herr
        rcases Try.bind_cases herr with ⟨_, w, hw, herr⟩ | ⟨_, hw, -⟩
        · rw [hw]
          exact patchEntryClusterSize_error herr
        · rw [hw]
      rcases lt_or_ge (v.geo.chainWrites (v.geo.clustersFor data.length)) k with hlt | hge
      · have havoids : v.geo.Avoids (v.geo.table s.disk)
            (fun c => v.geo.inHeap c ∧ v.geo.table s.disk c = 0) e.cluster :=
          fun n d hn hF => hchained.used hn hF.2
        have hloses : Loses v.geo (fun d => ∃ i, v.geo.reach (v.geo.table u.disk) e.cluster i = some d) u
            (v.freeFrom v.fuel e.cluster u).2 := leaves_freeFrom_chain fits huc e.cluster
        have hut := hloses.toTouches.trans _ _ t (.of_disk hdisk)
        simp only [hsu.reach havoids] at hut
        obtain ⟨f, hf⟩ : ∃ f, v.fuel = f + 1 := ⟨v.fuel - 1, by omega⟩
        have hiff := kept_iff_of_freed fits hd hs htidy hfuel he hfile hsplit ht hzero
          ((hsu.mono fun _ h => .inl h).trans _ _ _ (hut.mono fun _ h => .inr h)) (fun i hi => ?_) ?_
        · rw [hiff]
          exact ⟨.inl, fun h => h.resolve_right (by omega)⟩
        · rw [hdisk, hloses.clusters _ (isData_dataLba hchained.1 hi)]
          exact hsu.data _ _ hchained.1 (fun hF => hchained.used (n := 0) rfl hF.2) hi
        · rw [hdisk, hf]
          exact freeFrom_zeroes hd fits huc hchained.1 (by omega)
      · have hstuck := (stuck_freeFrom hd v.fuel e.cluster (s := u) (by omega)).1
        have hst := hsu.trans _ _ _ (.of_disk (hdisk.trans hstuck))
        exact iff_of_true (hkept ht hst) (.inr (.inl hge))
  · -- it is not
    have hst := hsame.touches.trans _ _ _ (hleaves.error hu)
    refine iff_of_true (hkept ht hst) ?_
    by_contra hnot
    push Not at hnot
    obtain ⟨x, w, hw⟩ := (hspends hnot.2.2).yields (by omega)
    cases hu.symm.trans hw

end Overwrite

/-- **a failed overwrite**: when the first `k` writes pass and the later ones fail, the file is read as before
exactly if it has at most one cluster or the old chain was not yet being freed. -/
theorem overwrite_keeps_iff {d : Device} {disk : Nat → Sector} {lba sectors : Nat} {g : Geometry} {s₀ : Fs}
    (hlba : lba < 2 ^ 32) (hmount : d.mountAt lba sectors (Fs.fresh disk) = (.ok g, s₀)) (calls : List Call)
    (htyped : ∀ c ∈ calls, c.request.Typed) (htidy : g.Tidy (g.run calls s₀).disk) (k fuel : Nat)
    (hfuel : g.clusterEnd < fuel) (path data : Bytes) (e : DirEntry) :
    let s := g.run calls s₀
    let v : Volume := { failingFrom (s.writes + k) with geo := g, fuel := fuel }
    v.resolve s.disk (components path) (DirEntry.root g.rootCluster) = some e → ¬ e.isDir →
    ∀ stop t, v.writeFile path data s = (.error stop, t) →
      ((∀ room, (v.readFile path room t).1 = (v.readFile path room s).1) ↔
        splitParent path = none ∨ e.size ≤ g.clusterBytes ∨ k ≤ g.chainWrites (g.clustersFor data.length)
        ∨ (g.freeSet (g.table s.disk)).card < g.clustersFor data.length) := by
  intro s v he hfile stop t herr
  have fits : v.geo.Fits _ _ := mountAt_fits hlba hmount
  have hs : Coherent v.geo s :=
    ((run_steps fits (mountAt_sound hmount).1 htyped).sound fits (mountAt_sound hmount).1).coherent
  cases hsplit : splitParent path with
  | none =>
    have hst : t = s := by
      unfold writeFile at herr
      rw [hsplit] at herr
      cases herr
      rfl
    rw [hst]
    exact iff_of_true (fun _ => rfl) (.inl rfl)
  | some x =>
    obtain ⟨dir, name⟩ := x
    rw [kept_iff_of_split fits rfl hs htidy hfuel he hfile hsplit herr]
    exact ⟨.inr, fun h => h.resolve_left nofun⟩

/-! ## Examples -/

/-- a volume with a file `/A` of 600 bytes in the clusters 3 and 4. -/
def pair : Nat → Sector := image 0 1 10 [endOfChainMin, 4, endOfChainMin]
    [sectorOf (writeRawEntry (padTo 11 [65]) 0 0 3 600), fun _ => 1, fun _ => 2]

def pairFile : DirEntry := ⟨[65], false, 600, 3, 0, 0⟩

theorem pair_mounts : (sure.mountAt 0 10 (Fs.fresh pair)).1 = .ok smallGeo := by decide +kernel

theorem pair_entries {n : Nat} {x : DirEntry × Place} (h : x ∈ smallGeo.entries pair n 2) : x.1 = pairFile := by
  cases n with
  | zero => cases h
  | succ n =>
    have hchain := chain_of_none (show smallGeo.next (smallGeo.table pair) 2 = none by decide +kernel)
    have hall : ∀ x ∈ smallGeo.entries pair 1 2, x.1 = pairFile := by decide +kernel
    refine hall x ?_
    rwa [Geometry.entries, Geometry.places, hchain n, ← hchain 0] at h

theorem pair_directory {c : Nat} (h : smallGeo.Directory pair c) : c = 2 := by
  induction h with
  | root => rfl
  | @entry c n x _ _ hx hdir ih =>
    rw [ih] at hx
    rw [pair_entries hx] at hdir
    cases hdir

theorem pair_reach {i d : Nat} (h : smallGeo.reach (smallGeo.table pair) 3 i = some d) : d = 3 ∨ d = 4 := by
  have hnext : smallGeo.next (smallGeo.table pair) 3 = some 4 := by decide +kernel
  have hlast : smallGeo.next (smallGeo.table pair) 4 = none := by decide +kernel
  induction i generalizing d with
  | zero =>
    cases h
    exact .inl rfl
  | succ i ih =>
    obtain ⟨b, hb, h⟩ := bind_eq_some_iff.1 h
    rcases ih hb with rfl | rfl
    · cases hnext.symm.trans h
      exact .inr rfl
    · cases hlast.symm.trans h

theorem pair_tidy : smallGeo.Tidy pair where
  dirs c hc := by
    rw [pair_directory hc]
    exact ⟨by decide, 0, 2, rfl, by decide +kernel⟩
  files c n x hc hx _ _ := by
    rw [pair_directory hc] at hx
    rw [pair_entries hx]
    exact ⟨⟨by decide, 1, 4, by decide +kernel, by decide +kernel⟩, by decide +kernel⟩
  empty c n x hc hx _ hzero := by
    rw [pair_directory hc] at hx
    rw [pair_entries hx] at hzero
    cases hzero
  apart c n x hc hx _ c' i j d hc' hi hj := by
    rw [pair_directory hc] at hx
    rw [pair_entries hx] at hi
    rw [pair_directory hc'] at hj
    have hnext : smallGeo.next (smallGeo.table pair) 2 = none := by decide +kernel
    cases j with
    | zero =>
      cases hj
      rcases pair_reach hi with h | h <;> cases h
    | succ j =>
      rw [reach_eq_down, Chain.down, hnext] at hj
      cases hj

theorem mounted_tidy : smallGeo.Tidy (sure.mountAt 0 10 (Fs.fresh pair)).2.disk := by
  have hdisk : (sure.mountAt 0 10 (Fs.fresh pair)).2.disk = pair := (mountAt_sound (Prod.ext pair_mounts rfl)).2
  rw [hdisk]
  exact pair_tidy

/-- three writes make the new chain of one cluster; the fourth, the first of the old one, fails. -/
theorem overwrite_keeps_pair :
    let s := (sure.mountAt 0 10 (Fs.fresh pair)).2
    let v : Volume := { failingFrom (s.writes + 3) with geo := smallGeo, fuel := 10 }
    (v.writeFile [47, 65] [7] s).1 = .error (.error .io)
      ∧ ∀ room, (v.readFile [47, 65] room (v.writeFile [47, 65] [7] s).2).1 =
          (v.readFile [47, 65] room s).1 := by
  intro s v
  have herr : (v.writeFile [47, 65] [7] s).1 = .error (.error .io) := by decide +kernel
  have hiff := overwrite_keeps_iff (by decide) (Prod.ext pair_mounts rfl) [] (fun _ h => nomatch h)
    mounted_tidy 3 10 (by decide)
    [47, 65] [7] pairFile
  refine ⟨herr, ?_⟩
  rcases hrun : v.writeFile [47, 65] [7] s with ⟨r, t⟩
  rw [hrun] at herr
  subst herr
  exact (hiff (by decide +kernel) (by decide) _ _ hrun).2 (.inr (.inr (.inl (by decide))))

/-- one write more, and the file cannot be read past its first cluster. -/
theorem overwrite_loses_pair :
    ∃ (d : Device) (disk : Nat → Sector) (lba sectors : Nat) (g : Geometry) (s : Fs)
    (k fuel : Nat) (path data : Bytes) (e : DirEntry), lba < 2 ^ 32 ∧ d.mountAt lba sectors (Fs.fresh disk) =
    (.ok g, s) ∧ g.Tidy s.disk ∧ g.clusterEnd < fuel
      ∧ let v : Volume := { failingFrom (s.writes + k) with geo := g, fuel := fuel }
        v.resolve s.disk (components path) (DirEntry.root g.rootCluster) = some e ∧ ¬ e.isDir
        ∧ (v.writeFile path data s).1 = .error (.error .io)
        ∧ (v.readFile path e.size (v.writeFile path data s).2).1 ≠ (v.readFile path e.size s).1 := by
  refine ⟨sure, pair, 0, 10, smallGeo, (sure.mountAt 0 10 (Fs.fresh pair)).2, 4, 10, [47, 65], [7],
    pairFile, by decide, Prod.ext pair_mounts rfl,
    mounted_tidy, by decide, ?_⟩
  decide +kernel

end Ouroboros.Fat32
