import Ouroboros.Fat32.Layout

/-!
# FAT32: what an operation is made of

* `Prim`  everything the driver does to its state, one change at a time;
* `Steps`  any number of them;
* `Goes`  a computation that takes such steps only, however it ends;
* `Coherent`  the cached sector of the table is the one on the disk.

What the later modules say of whole runs is read off `Prim`.
-/

namespace Ouroboros.Fat32

open Image Relation Function

/-- an access where the volume has what it is for; a sum wraps only on a volume that ends past the
last sector number. -/
def Event.Fine (g : Geometry) (total : Nat) : Event → Prop
  | .read .fat lba => ∃ copy, g.IsFat copy lba
  | .write .fat lba _ => ∃ copy, g.IsFat copy lba
  | .read .data lba => g.IsData lba
  | .write .data lba _ => g.IsData lba
  | .read .boot _ => False
  | .write .boot _ _ => False
  | .wrapped => 2 ^ 32 < g.partitionLba + total

def Fs.written (s : Fs) (area : Area) (lba : Nat) (data : Sector) : Fs :=
  { s.record (.write area lba data) with disk := update s.disk lba data }

theorem writeSector_of_fails {d : Device} {area : Area} {lba : Nat} {b : Sector} {s : Fs}
    (h : d.fails s.log (.write area lba b)) :
    d.writeSector area lba b s = (.error (.error .io), s.record (.write area lba b)) := if_pos h

theorem writeSector_of_passes {d : Device} {area : Area} {lba : Nat} {b : Sector} {s : Fs}
    (h : d.fails s.log (.write area lba b) = false) :
    d.writeSector area lba b s = (.ok (), s.written area lba b) := if_neg (h ▸ Bool.false_ne_true)

def Fs.entered (s : Fs) (g : Geometry) (c value : Nat) : Fs :=
  let lba := g.fatLba g.fats.readCopy c
  let buf := Volume.setEntry (s.disk lba) (c * 4 % sectorSize) value
  { s.written .fat lba buf with fatCache := some (lba, buf) }

inductive Prim (g : Geometry) (total : Nat) : Fs → Fs → Prop where
  | event {s e} : e.Fine g total → Prim g total s (s.record e)
  | data {s lba b} : g.IsData lba → Prim g total s (s.written .data lba b)
  | cache {s c} : g.inHeap c →
      Prim g total s
        { s with fatCache := some (g.fatLba g.fats.readCopy c, s.disk (g.fatLba g.fats.readCopy c)) }
  | hint {s n} : Prim g total s { s with nextFreeHint := n }
  | drop {s} : Prim g total s { s with readCursor := none, writeCursor := none }
  | readCursor {s k} : g.At (g.table s.disk) k → Prim g total s { s with readCursor := some k }
  | writeCursor {s k} : g.At (g.table s.disk) k → Prim g total s { s with writeCursor := some k }
  /-- an entry that a walk goes on from is written only without cursors. -/
  | entry {s c value} : g.inHeap c →
      ((g.next (g.table s.disk) c).isSome → s.readCursor = none ∧ s.writeCursor = none) →
      Prim g total s (s.entered g c value)
  | mirror {s copy c b} : g.inHeap c → copy < g.numFats → copy ≠ g.fats.readCopy →
      Prim g total s (s.written .fat (g.fatLba copy c) b)

abbrev Steps (g : Geometry) (total : Nat) : Fs → Fs → Prop := ReflTransGen (Prim g total)

/-- the cached sector is one of the live copy, as it is on the disk. -/
def Coherent (g : Geometry) (s : Fs) : Prop :=
  ∀ lba b, s.fatCache = some (lba, b) → b = s.disk lba ∧ g.IsFat g.fats.readCopy lba

/-! ## What one change does to the table -/

section Table
variable {g : Geometry} {reserved total : Nat} (fits : g.Fits reserved total) {disk : Nat → Sector}
include fits

theorem table_update_of_not_fat {lba : Nat} {b : Sector} (h : ¬ g.IsFat g.fats.readCopy lba) :
    g.table (update disk lba b) = g.table disk := by
  funext c
  unfold Geometry.table
  split
  · have hne : g.fatLba g.fats.readCopy c ≠ lba := fun he => h ⟨fits.live, c, ‹_›, he.symm⟩
    rw [Geometry.rawEntry, update_of_ne hne, Geometry.rawEntry]
  · rfl

theorem table_data {lba : Nat} {b : Sector} (h : g.IsData lba) : g.table (update disk lba b) = g.table disk :=
  table_update_of_not_fat fits fun hf => isFat_ne_isData fits hf h rfl

theorem not_isFat_of_copy_ne {copy c : Nat} (hc : g.inHeap c) (hcopy : copy < g.numFats)
    (hne : copy ≠ g.fats.readCopy) : ¬ g.IsFat g.fats.readCopy (g.fatLba copy c) := by
  rintro ⟨hlive, c', hc', he⟩
  exact hne (fatLba_inj fits hcopy hlive hc hc' he).1

theorem table_entered (c value : Nat) (s : Fs) (hc : g.inHeap c) :
    g.table (s.entered g c value).disk = update (g.table s.disk) c (value % 2 ^ 28) := by
  funext c'
  by_cases heq : c' = c
  · subst heq
    rw [update_self, Geometry.table, if_pos hc, Geometry.rawEntry]
    show num (update s.disk _ _ _) _ _ % 2 ^ 28 = _
    rw [update_self, Volume.setEntry, num_write]
    omega
  · rw [update_of_ne heq]
    unfold Geometry.table
    split
    · show num (update s.disk _ _ _) _ _ % 2 ^ 28 = _
      by_cases hlba : g.fatLba g.fats.readCopy c' = g.fatLba g.fats.readCopy c
      · -- the same sector, another entry of it
        have hdiv := (fatLba_inj fits fits.live fits.live ‹_› hc hlba).2
        rw [hlba, update_self, Volume.setEntry, num_write_of_apart, Geometry.rawEntry, hlba]
        rw [Buffer.length_le, sectorSize]
        omega
      · rw [update_of_ne hlba, Geometry.rawEntry]
    · rfl

end Table

/-! ## What every change keeps -/

section Prim
variable {g : Geometry} {reserved total : Nat} (fits : g.Fits reserved total) {s t : Fs}
include fits

theorem Prim.coherent (h : Prim g total s t) (hs : Coherent g s) : Coherent g t := by
  intro lba b hb
  cases h with
  | event _ | hint | drop | readCursor _ | writeCursor _ => exact hs lba b hb
  | data hd =>
    obtain ⟨rfl, hfat⟩ := hs lba b hb
    exact ⟨(update_of_ne (isFat_ne_isData fits hfat hd) _ _).symm, hfat⟩
  | cache hc =>
    cases hb
    exact ⟨rfl, fits.live, _, hc, rfl⟩
  | entry hc _ =>
    cases hb
    exact ⟨(update_self (f := s.disk) _ _).symm, fits.live, _, hc, rfl⟩
  | @mirror copy c _ hc hcopy hne =>
    obtain ⟨rfl, hfat⟩ := hs lba b hb
    have hlba : lba ≠ g.fatLba copy c := by
      rintro rfl
      exact not_isFat_of_copy_ne fits hc hcopy hne hfat
    exact ⟨(update_of_ne hlba _ _).symm, hfat⟩

theorem Steps.coherent (h : Steps g total s t) (hs : Coherent g s) : Coherent g t := by
  induction h with
  | refl => exact hs
  | tail _ hstep ih => exact hstep.coherent fits ih

end Prim

/-! ## Computations -/

/-- a computation that takes steps only, and whose result `Q` allows. -/
structure Goes (g : Geometry) (total : Nat) {α : Type} (m : Op α) (s : Fs) (Q : α → Fs → Prop) : Prop where
  sat : m.Sat s (fun a t => Steps g total s t ∧ Q a t) (fun _ t => Steps g total s t)

section Goes
variable {g : Geometry} {total : Nat} {α β : Type} {m : Op α} {s : Fs} {Q R : α → Fs → Prop}

theorem Goes.pure {a : α} (h : Q a s) : Goes g total (pure a : Op α) s Q := ⟨Try.Sat.pure ⟨.refl, h⟩⟩

theorem Goes.fail {e : Stop} : Goes g total (Try.fail e : Op α) s Q := ⟨Try.Sat.fail .refl⟩

theorem Goes.err {e : Fsd.Error} : Goes g total (Fat32.err e : Op α) s Q := .fail

theorem Goes.ask {f : Fs → α} (h : Q (f s) s) : Goes g total (Try.ask f) s Q := ⟨Try.Sat.ask ⟨.refl, h⟩⟩

theorem Goes.change {f : Fs → Fs} {Q : Unit → Fs → Prop} (hp : Prim g total s (f s)) (h : Q () (f s)) :
    Goes g total (Try.change f) s Q := ⟨Try.Sat.change ⟨.single hp, h⟩⟩

theorem Goes.mono (h : Goes g total m s Q) (hQ : ∀ a t, Steps g total s t → Q a t → R a t) :
    Goes g total m s R :=
  ⟨Try.Sat.mono h.sat (fun a t ht => ⟨ht.1, hQ a t ht.1 ht.2⟩) fun _ _ ht => ht⟩

theorem Goes.any (h : Goes g total m s Q) : Goes g total m s fun _ _ => True := h.mono fun _ _ _ _ => trivial

theorem Goes.bind {f : α → Op β} {R : β → Fs → Prop} (h : Goes g total m s Q)
    (hf : ∀ a t, Steps g total s t → Q a t → Goes g total (f a) t R) : Goes g total (m >>= f) s R :=
  ⟨Try.Sat.bind h.sat fun a t ht =>
    Try.Sat.mono (hf a t ht.1 ht.2).sat (fun _ _ hu => ⟨ht.1.trans hu.1, hu.2⟩) fun _ _ hu => ht.1.trans hu⟩

section Coherent
variable {reserved : Nat} (h : Goes g total m s Q) (fits : g.Fits reserved total) (hs : Coherent g s)
include h fits hs

theorem Goes.next {f : α → Op β}
    {R : β → Fs → Prop} (hf : ∀ a t, Coherent g t → Q a t → Goes g total (f a) t R) :
    Goes g total (m >>= f) s R := h.bind fun a t hst => hf a t (hst.coherent fits hs)

theorem Goes.ok {a : α} {t : Fs} (ht : m s = (.ok a, t)) : Coherent g t ∧ Q a t :=
  (h.sat.ok ht).imp_left fun hst => hst.coherent fits hs

end Coherent

theorem Goes.ite {c : Prop} [Decidable c] {n : Op α} (hm : c → Goes g total m s Q)
    (hn : ¬ c → Goes g total n s Q) :
    Goes g total (if c then m else n) s Q :=
  ⟨Try.Sat.ite (fun h => (hm h).sat) fun h => (hn h).sat⟩

end Goes

structure Looks (s t : Fs) : Prop where
  disk : t.disk = s.disk
  readCursor : t.readCursor = s.readCursor
  writeCursor : t.writeCursor = s.writeCursor

theorem Looks.refl (s : Fs) : Looks s s := ⟨rfl, rfl, rfl⟩

theorem Looks.trans {s t u : Fs} (h : Looks s t) (k : Looks t u) : Looks s u :=
  ⟨k.disk.trans h.disk, k.readCursor.trans h.readCursor, k.writeCursor.trans h.writeCursor⟩

structure Keeps (g : Geometry) (s t : Fs) : Prop where
  table : g.table t.disk = g.table s.disk
  readCursor : t.readCursor = s.readCursor
  writeCursor : t.writeCursor = s.writeCursor

theorem Keeps.refl (g : Geometry) (s : Fs) : Keeps g s s := ⟨rfl, rfl, rfl⟩

theorem Keeps.trans {g : Geometry} {s t u : Fs} (h : Keeps g s t) (k : Keeps g t u) : Keeps g s u :=
  ⟨k.table.trans h.table, k.readCursor.trans h.readCursor, k.writeCursor.trans h.writeCursor⟩

theorem Looks.keeps {s t : Fs} (h : Looks s t) (g : Geometry) : Keeps g s t :=
  ⟨by rw [h.disk], h.readCursor, h.writeCursor⟩

end Ouroboros.Fat32
