import Ouroboros.Fat32.Touched

/-!
# FAT32: what a file holds

* `readFile_eq`  on a disk whose reads do not fail `readFile` yields the bytes of the file its path leads to;
* `Touches.entries`, `Touches.resolve`, `Touches.contents`  clusters that are not touched show the same.
-/

namespace Ouroboros.Fat32

open Fsd (Bytes components)
open Image Relation Volume List

/-! ## Reading -/

section Sure
variable {v : Volume} (hr : v.toDevice.Reads) {s : Fs}

include hr in
theorem yields_copySectors {offset want lba pos : Nat} (l : List Nat) (out : Bytes) :
    Yields (v.copySectors offset want lba pos l out) s := by
  induction l generalizing s out with
  | nil => exact .pure _
  | cons k rest ih =>
    refine .ite (fun _ => .pure _) fun _ => ?_
    refine .bind (yields_word 64 (pos + k * sectorSize + sectorSize)) fun stop t _ => ?_
    refine .ite (fun _ => ih _) fun _ => ?_
    exact (yields_word _ _).bind fun _ _ _ => (yields_readSector hr _ _).bind fun _ _ _ => ih _

variable {reserved total : Nat} (fits : v.geo.Fits reserved total)
include hr fits

theorem yields_copyClusters {want fuel c pos : Nat} {out : Bytes} (hs : Coherent v.geo s) (hc : v.geo.inHeap c)
    (hpos : pos + fuel * 2 ^ 17 < 2 ^ 63) (hout : out.length ≤ want) (hfuel : want < out.length + fuel) :
    Yields (v.copyClusters 0 want fuel c pos out) s := by
  induction fuel generalizing s c pos out with
  | zero => omega
  | succ fuel ih =>
    have hcb := clusterBytes_lt fits
    have hcb0 := clusterBytes_pos fits
    refine (yields_clusterToLba hc).bind fun lba t ht => ?_
    obtain ⟨htc, -, rfl, -⟩ := (goes_clusterToLba fits).ok fits hs ht
    refine (yields_copySectors hr _ _).bind fun out' u hu => ?_
    obtain ⟨huc, hout', -⟩ := (goes_copyCluster fits hc (by omega) hout).ok fits htc hu
    have hlen : out'.length = min want (out.length + v.geo.clusterBytes) := by
      rw [hout', length_take, length_append, length_drop, length_clusterData, Nat.zero_sub, Nat.sub_zero]
    refine .ite (fun _ => .pure _) fun hmore => ?_
    refine (yields_nextCluster hr hc).bind fun next w hw => ?_
    obtain ⟨hwc, -, rfl, -⟩ := (goes_nextCluster fits huc).ok fits huc hw
    split
    · rename_i d hd
      refine .bind (yields_word 64 (pos + v.geo.clusterBytes)) fun stop x hx => ?_
      cases (u64_eq (by omega) w).symm.trans hx
      exact ih hwc (inHeap_of_link hd) (by omega) (by omega) (by omega)
    · exact .pure _

theorem readFile_eq {path : Bytes} {e : DirEntry} (room : Nat) (hs : Coherent v.geo s)
    (hd : v.geo.DirsEnd s.disk) (hfuel : v.geo.clusterEnd ≤ v.fuel)
    (he : v.resolve s.disk (components path) (DirEntry.root v.geo.rootCluster) = some e) (hfile : ¬ e.isDir)
    (hc : e.size ≠ 0 → v.geo.inHeap e.cluster) :
    (v.readFile path room s).1 = .ok (v.fileBytes s.disk e room) := by
  have hyields : Yields (v.readFile path room) s := by
    obtain ⟨t, ht, hst, hl⟩ := find_of_resolve hr fits hs hd hfuel he
    have hsize : e.size < 2 ^ 32 := resolve_size (Nat.two_pow_pos 32) he
    refine .bind ⟨e, t, ht⟩ fun e' t' ht' => ?_
    cases ht.symm.trans ht'
    rw [if_neg hfile]
    refine .ite (fun _ => .pure _) fun hne => ?_
    refine (yields_copyClusters hr fits (hst.coherent fits hs) (hc hne)
      (by omega) (Nat.zero_le _) (by simp)).bind ?_
    exact fun _ _ _ => .pure _
  obtain ⟨x, t, ht, -, e', he', hx, -⟩ := hyields.goes (goes_readFile fits hs)
  rw [he] at he'
  cases he'
  rw [ht, hx]

end Sure

/-! ## Clusters that are not touched -/

section Untouched
variable {g : Geometry} {F : Nat → Prop} {s t : Fs}

def Geometry.Avoids (g : Geometry) (T : Nat → Nat) (F : Nat → Prop) (c : Nat) : Prop :=
  ∀ n d, g.reach T c n = some d → ¬ F d

theorem Geometry.Avoids.next {T : Nat → Nat} {c d : Nat} (h : g.Avoids T F c) (hn : g.next T c = some d) :
    g.Avoids T F d := by
  intro n e he
  refine h (n + 1) e ?_
  rw [reach_eq_down] at he ⊢
  rw [Chain.down, hn, Option.bind_some, he]

variable (h : Touches g F s t) {c : Nat}
include h

theorem Touches.chain (hc : g.Avoids (g.table s.disk) F c) (n : Nat) :
    g.chain (g.table t.disk) n c = g.chain (g.table s.disk) n c := by
  induction n generalizing c with
  | zero => rfl
  | succ n ih =>
    have hsame : g.next (g.table t.disk) c = g.next (g.table s.disk) c := by
      rw [Geometry.next, h.table c (hc 0 c rfl), Geometry.next]
    rw [Geometry.chain, Geometry.chain, hsame]
    cases hn : g.next (g.table s.disk) c with
    | none => rfl
    | some d => exact congrArg _ (ih (hc.next hn))

theorem Touches.reach (hc : g.Avoids (g.table s.disk) F c) (n : Nat) :
    g.reach (g.table t.disk) c n = g.reach (g.table s.disk) c n := by
  rw [reach_eq_down, reach_eq_down]
  induction n generalizing c with
  | zero => rfl
  | succ n ih =>
    have hsame : g.next (g.table t.disk) c = g.next (g.table s.disk) c := by
      rw [Geometry.next, h.table c (hc 0 c rfl), Geometry.next]
    rw [Chain.down, Chain.down, hsame]
    cases hn : g.next (g.table s.disk) c with
    | none => rfl
    | some d => exact ih (hc.next hn)

theorem Touches.sector {d n k : Nat} (hheap : g.inHeap c) (hc : g.Avoids (g.table s.disk) F c)
    (hd : d ∈ g.chain (g.table s.disk) n c) (hk : k < g.sectorsPerCluster) :
    t.disk (g.dataLba d k) = s.disk (g.dataLba d k) := by
  obtain ⟨m, hm⟩ := mem_chain hd
  exact h.data d k (mem_chain_inHeap hheap hd) (hc m d hm) hk

theorem Touches.entries (hheap : g.inHeap c) (hc : g.Avoids (g.table s.disk) F c) (n : Nat) :
    g.entries t.disk n c = g.entries s.disk n c := by
  have hplaces : g.places t.disk n c = g.places s.disk n c := by
    rw [Geometry.places, h.chain hc, Geometry.places]
  rw [Geometry.entries, hplaces, Geometry.entries]
  refine entriesFrom_congr (fun p hp => ?_) _
  obtain ⟨d, hd, hp⟩ := mem_flatMap.1 hp
  obtain ⟨k, hk, hlba⟩ := mem_slotsOf hp
  rw [hlba]
  exact h.sector hheap hc hd hk

theorem Touches.contents (hheap : g.inHeap c) (hc : g.Avoids (g.table s.disk) F c) (n : Nat) :
    g.contents t.disk n c = g.contents s.disk n c := by
  rw [Geometry.contents, h.chain hc, Geometry.contents]
  refine flatMap_congr fun d hd => flatMap_congr fun k hk => ?_
  rw [h.sector hheap hc hd (mem_range.1 hk)]

def Geometry.AvoidsDirs (g : Geometry) (disk : Nat → Sector) (F : Nat → Prop) : Prop :=
  ∀ c, g.Directory disk c → g.inHeap c → g.Avoids (g.table disk) F c

theorem Touches.directory (hdirs : g.AvoidsDirs s.disk F) (hc : g.Directory t.disk c) :
    g.Directory s.disk c := by
  induction hc with
  | root => exact .root
  | @entry c n x _ hheap hx hdir ih =>
    refine .entry (n := n) ih hheap ?_ hdir
    rwa [h.entries hheap (hdirs c ih hheap)] at hx

theorem Touches.dirsEnd (hdirs : g.AvoidsDirs s.disk F) (hend : g.DirsEnd s.disk) : g.DirsEnd t.disk := by
  intro c hc hheap
  have hc := h.directory hdirs hc
  obtain ⟨n, hn⟩ := hend c hc hheap
  exact ⟨n, by rw [h.reach (hdirs c hc hheap), hn]⟩

omit h in
theorem Touches.resolve {v : Volume} (h : Touches v.geo F s t) (hdirs : v.geo.AvoidsDirs s.disk F)
    {l : List Bytes} {e : DirEntry} (he : e.isDir → v.geo.Directory s.disk e.cluster) :
    v.resolve t.disk l e = v.resolve s.disk l e := by
  induction l generalizing e with
  | nil => rfl
  | cons name rest ih =>
    rw [Volume.resolve, Volume.resolve]
    split
    · rename_i hdir
      rw [h.entries hdir.2 (hdirs _ (he hdir.1) hdir.2)]
      cases hfind : (v.geo.entries s.disk v.fuel e.cluster).find? fun x => namesMatch x.1.name name with
      | none => rfl
      | some y =>
        refine ih fun hy => Geometry.Directory.resolve (l := [name]) he ?_ hy
        rw [Volume.resolve, if_pos hdir, hfind]
        rfl
    · rfl

end Untouched
end Ouroboros.Fat32
