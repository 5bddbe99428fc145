import Ouroboros.Fat32.Touched
import Ouroboros.Fsd.ReadOnly

/-!
# FAT32 under the server

* `Volume.ops`  a FAT32 volume as fsd calls it;
* `Fs.stored`  its sectors, and how many sector writes were issued so far;
* `Volume.readsKeep`  the reading operations issue none, also where they fail;
* `unwritten_volume`  so a run that only reads from a mounted volume leaves it unwritten.
-/

namespace Ouroboros.Fat32

open Fsd (Bytes Error)

variable {α : Type}

/-! ## The operations -/

/-- what the caller is answered. A walk that goes round for ever has no answer, and is given an error here;
the other two stops are those of a mount. -/
def answer : Except Stop α → Except Error α
  | .ok a => .ok a
  | .error (.error e) => .error e
  | .error _ => .error .io

namespace Volume
variable (v : Volume)

def answers (m : Op α) (s : Fs) : Except Error α × Fs := (answer (m s).1, (m s).2)

/-- the pieces that `read_pieces` has given to the sink when it ends with an error. -/
def handed (file : DirEntry) (offset want room : Nat) (stop : List Bytes → Bool) :
    Nat → Nat → List Bytes → Fs → List Bytes
  | 0, _, given, _ => given
  | fuel + 1, done, given, s =>
    if done < want ∧ room ≠ 0 then
      let len := min (want - done) room
      match (do let start ← u64 (offset + done); v.readEntry file start len) s with
      | (.error _, _) => given
      | (.ok piece, t) =>
        if piece = [] then given
        else if stop (given ++ [piece]) then given ++ [piece]
        else if piece.length < len then given ++ [piece]
        else handed file offset want room stop fuel (done + piece.length) (given ++ [piece]) t
    else given

def eachOp (path : Bytes) (offset want room : Nat) (stop : List Bytes → Bool) (s : Fs) :
    (List Bytes × Except Error (Nat × Bool)) × Fs :=
  match v.findFile path s with
  | (.error e, t) => (([], answer (.error e)), t)
  | (.ok file, t) =>
    match v.readPieces file offset want room stop (want + 1) 0 [] t with
    | (.ok (given, read), u) => ((given, .ok read), u)
    | (.error e, u) => ((v.handed file offset want room stop (want + 1) 0 [] t, answer (.error e)), u)

/-- the FAT32 arm of `vfs.rs`. -/
def ops : Fsd.Ops Fs where
  isDisk _ := true
  partitionLba _ := v.geo.partitionLba
  name _ := .fat32
  namesMatch _ := namesMatch
  setCreator s _ _ := s
  stat s path := answers ((fun x => ⟨x.1, x.2.1, x.2.2, none⟩) <$> v.stat path) s
  listDir s path stop := answers (v.listDir path stop) s
  readFile s path len := answers (v.readFile path len) s
  readAt s path offset len := answers (v.readAt path offset len) s
  readEach s path offset want broke := v.eachOp path offset want Fsd.safecopyMax broke s
  writeFile s path data := answers (v.writeFile path data) s
  writeAt s path offset data := answers (v.writeAt path offset data) s
  mkdir s path := answers (v.mkdir path) s
  rmdir s path := answers (v.rmdir path) s
  touch s path := answers (v.touch path) s
  rm s path := answers (v.rm path) s
  mv s src dst := answers (v.mv src dst) s
  chmod s _ _ := (.error .unsupported, s)
  chown s _ _ _ := (.error .unsupported, s)

end Volume

/-! ## Reading -/

namespace Looking
variable {v : Volume} {C : (α : Type) → Op α → Prop} (h : Looking v C) {offset want : Nat}
include h

theorem copySectors (lba pos : Nat) (l : List Nat) (out : Bytes) :
    C Bytes (v.copySectors offset want lba pos l out) := by
  induction l generalizing out with
  | nil => exact h.pure _
  | cons k l ih =>
    refine branch (h.pure _) (h.bind (h.word _ _) fun _ => branch (ih out) ?_)
    exact h.bind (h.word _ _) fun _ => h.bind (h.read _ _) fun _ => ih _

theorem copyClusters (fuel c pos : Nat) (out : Bytes) :
    C (Bytes × Nat × Nat) (v.copyClusters offset want fuel c pos out) := by
  induction fuel generalizing c pos out with
  | zero => exact h.spent
  | succ fuel ih =>
    refine h.bind (h.clusterToLba c) fun lba => h.bind (h.copySectors lba pos _ out) fun out' => ?_
    refine branch (h.pure _) (h.bind (h.nextCluster c) fun next => ?_)
    cases next with
    | none => exact h.pure _
    | some next => exact h.bind (h.word _ _) fun pos' => ih next pos' out'

theorem seek (fuel c pos : Nat) : C (Option (Nat × Nat)) (v.seek offset fuel c pos) := by
  induction fuel generalizing c pos with
  | zero => exact h.spent
  | succ fuel ih =>
    refine h.bind (h.word _ _) fun stop => branch (h.bind (h.nextCluster c) fun next => ?_) (h.pure _)
    cases next with
    | none => exact h.pure _
    | some next => exact ih next stop

end Looking

section Reads
variable {v : Volume} {s : Fs}

theorem same_find (path : Bytes) : Leaves Same (v.find path) s := same_findFrom _ _

theorem same_findFile (path : Bytes) : Leaves Same (v.findFile path) s :=
  (same_find path).bind Same.trans fun _ t _ => .ite (fun _ => .refl t) fun _ => .refl t

theorem same_readEntry (file : DirEntry) (offset room : Nat) :
    Leaves Same (v.readEntry file offset room) s := by
  refine .ite (fun _ => .refl s) fun _ => ((looks_same (v := v)).ask _ s).bind Same.trans fun cursor t _ => ?_
  refine (looks_same.seek _ _ _ t).bind Same.trans fun found u _ => ?_
  cases found with
  | none => exact .refl u
  | some x => exact (looks_same.copyClusters _ _ _ _ u).bind Same.trans fun _ w _ => ⟨rfl, rfl⟩

theorem same_readPieces {offset want room : Nat} {stop : List Bytes → Bool} (file : DirEntry) (fuel done : Nat)
    (given : List Bytes) : Leaves Same (v.readPieces file offset want room stop fuel done given) s := by
  induction fuel generalizing done given s with
  | zero => exact .refl s
  | succ fuel ih =>
    refine .ite (fun _ => (same_word _ _).bind Same.trans fun start t _ => ?_) fun _ => .refl s
    refine (same_readEntry file start _).bind Same.trans fun piece u _ => .ite (fun _ => .refl u) fun _ => ?_
    exact .ite (fun _ => .refl u) fun _ => .ite (fun _ => .refl u) fun _ => ih _ _

def Fs.stored (s : Fs) : (Nat → Sector) × Nat := (s.disk, s.writes)

theorem Leaves.stored {m : Op α} (h : Leaves Same m s) : (m s).2.stored = s.stored := Prod.ext h.disk h.writes

/-- **The operations that read a FAT32 volume issue no sector write and leave every sector as it is**, whether or
not they fail. -/
theorem Volume.readsKeep (v : Volume) : Fsd.ReadsKeep v.ops Fs.stored where
  setCreator _ _ _ := rfl
  stat s path := Leaves.stored (.bind Same.trans (.bind Same.trans (same_find path) fun _ t _ => .refl t)
    fun _ t _ => .refl t)
  listDir s path _ := Leaves.stored (.bind Same.trans (same_find path) fun dir t _ =>
    .ite (fun _ => .refl t) fun _ => looks_same.scan _ _ _ t)
  readFile s path _ := by
    refine Leaves.stored (.bind Same.trans (same_find path) fun file t _ => .ite (fun _ => .refl t) fun _ => ?_)
    exact .ite (fun _ => .refl t) fun _ =>
      (looks_same.copyClusters _ _ _ _ t).bind Same.trans fun _ u _ => .refl u
  readAt s path offset room :=
    Leaves.stored (.bind Same.trans (same_findFile path) fun file t _ => same_readEntry file offset room)
  readEach s path offset want stop := by
    have hfind := (same_findFile (v := v) (s := s) path).stored
    dsimp only [ops, eachOp]
    rcases h : v.findFile path s with ⟨e | file, t⟩
    all_goals rw [h] at hfind
    · exact hfind
    have hread : (v.readPieces file offset want Fsd.safecopyMax stop (want + 1) 0 [] t).2.stored = t.stored :=
      (same_readPieces file _ _ _).stored
    refine Eq.trans ?_ (hread.trans hfind)
    dsimp only
    split <;> rename_i hr <;> rw [hr]

end Reads

/-! ## A mounted volume -/

open Fsd in
/-- a FAT32 volume from whose tree only was read: its sectors, and the sector writes issued, are as before. -/
theorem unwritten_volume {v : Volume} {tree : Fin maxMounts} {m : Mount (Filesystem Fs)} {s : Fs}
    {st : State (Filesystem Fs)} {calls : List (Fin maxMounts × Fsd.Call)}
    (h : Unwritten (Filesystem.ops v.ops) tree m st calls) (hm : m.fs = .other s) :
    ∃ m' s', st.mounts tree = some m' ∧ m'.fs = .other s' ∧ s'.stored = s.stored := by
  obtain ⟨m', hm', -, hmeasure⟩ := h.mounted
  have hkeep := hmeasure _ _ (Filesystem.readsKeep v.readsKeep)
  rw [hm] at hkeep
  cases hfs : m'.fs with
  | ext2 w =>
    rw [hfs] at hkeep
    cases hkeep
  | other s' =>
    rw [hfs] at hkeep
    exact ⟨m', s', hm', hfs, Sum.inr.inj hkeep⟩

end Ouroboros.Fat32
