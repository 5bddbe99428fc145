import Ouroboros.Kernel.State

/-!
# Lookups in the task tables

* `taskIdOf`, `liveIndex`, `liveOccupant`  packed identities: generation and slot;
* `capsForSlot`, `holdsSendRight`  the static send mask and the delegated rights;
* `runningCore`, `mayRunOn`  which core runs a task, and which may;
* `inCallerRegion`, `validUserRange`  the checks on pointers a caller passes.
-/

namespace Ouroboros.Kernel

open Option List

abbrev Table := Slot → Task

/-! ## Packed identities -/

/-- a number shifted past the slot bits, with the slot below it: `TASK_ID_SLOT_BITS` is 8. -/
def pack (n : Nat) (t : Slot) : Nat := n * 256 + t.val

theorem pack_slot (n : Nat) (t : Slot) : pack n t % 256 = t.val := by
  have := t.isLt
  unfold pack; omega

theorem pack_number (n : Nat) (t : Slot) : pack n t / 256 = n := by
  have := t.isLt
  unfold pack; omega

variable {t : Slot} {T : Table} {id : Nat} {i : Nat}

theorem pack_inj {m n : Nat} {u : Slot} (h : pack m t = pack n u) : m = n ∧ t = u := by
  have hn : pack m t / 256 = pack n u / 256 := by rw [h]
  have ht : pack m t % 256 = pack n u % 256 := by rw [h]
  rw [pack_number, pack_number] at hn
  rw [pack_slot, pack_slot] at ht
  exact ⟨hn, Fin.ext ht⟩

theorem Slot.new_eq_some : Slot.new i = some t ↔ i = t.val := by
  unfold Slot.new
  split
  · rw [some.injEq]
    constructor
    · rintro rfl
      rfl
    · intro h
      exact Fin.ext h
  · simp only [reduceCtorEq, false_iff]
    have := t.isLt
    omega

/-- `is_occupied`: Runnable or Blocked. -/
def TaskState.isOccupied : TaskState → Bool
  | .runnable | .blocked _ => true
  | .unused | .zombie _ => false

def TaskState.isBlocked : TaskState → Bool
  | .blocked _ => true
  | _ => false

def taskIdOf (T : Table) (t : Slot) : Option Nat :=
  if (T t).state = .unused then none else some (pack (T t).gen t)

def occupantIs (T : Table) (t : Slot) (id : Nat) : Bool := taskIdOf T t == some id

def liveIndex (T : Table) (i : Nat) : Option Slot := (Slot.new i).filter fun t => (T t).state.isOccupied

def liveOccupant (T : Table) (id : Nat) : Option Slot :=
  (liveIndex T (id % 256)).filter fun t => occupantIs T t id

theorem liveIndex_eq_some : liveIndex T i = some t ↔ i = t.val ∧ (T t).state.isOccupied := by
  unfold liveIndex
  rw [filter_eq_some_iff, Slot.new_eq_some]

theorem isOccupied_ne_unused {st : TaskState} (h : st.isOccupied) : st ≠ .unused := by
  rintro rfl
  cases h

theorem liveOccupant_occupied (h : liveOccupant T id = some t) : (T t).state.isOccupied := by
  unfold liveOccupant at h
  rw [filter_eq_some_iff, liveIndex_eq_some] at h
  exact h.1.2

def idOf (T : Table) (t : Slot) : Nat := pack (T t).gen t

theorem taskIdOf_eq_some : taskIdOf T t = some id ↔ (T t).state ≠ .unused ∧ id = idOf T t := by
  unfold taskIdOf idOf
  split
  · rename_i h
    simp [h]
  rename_i h
  rw [some.injEq]
  exact ⟨fun hid => ⟨h, hid.symm⟩, fun hid => hid.2.symm⟩

/-- **A packed identity names the live task in its slot exactly if the generation is that task's.** -/
theorem liveOccupant_eq_some : liveOccupant T id = some t ↔ (T t).state.isOccupied ∧ id = idOf T t := by
  unfold liveOccupant
  rw [filter_eq_some_iff, liveIndex_eq_some]
  unfold occupantIs
  rw [beq_iff_eq, taskIdOf_eq_some]
  constructor
  · rintro ⟨⟨-, hocc⟩, -, hid⟩
    exact ⟨hocc, hid⟩
  · rintro ⟨hocc, rfl⟩
    exact ⟨⟨pack_slot _ t, hocc⟩, isOccupied_ne_unused hocc, rfl⟩

theorem liveOccupant_idOf (h : (T t).state.isOccupied) :
    liveOccupant T (idOf T t) = some t := liveOccupant_eq_some.2 ⟨h, rfl⟩

/-! ## Capabilities -/

def capBlock : Nat := 1 <<< 16
def capCon : Nat := 1 <<< 17
def capNet : Nat := 1 <<< 18

def toShell : Nat := 1 <<< Slot.first.val
def toFsd : Nat := 1 <<< Slot.fsd.val
def toCon : Nat := 1 <<< Slot.con.val
def toNet : Nat := 1 <<< Slot.net.val
def toAcct : Nat := 1 <<< Slot.acct.val

def toSpawnable : Nat := (1 <<< 11 - 1) - (1 <<< 6 - 1)

def capsForSlot (t : Slot) : Nat :=
  match t.val with
  | 0 => toFsd ||| toCon ||| toNet ||| toAcct ||| toSpawnable
  | 1 => 0
  | 2 => toCon ||| capBlock
  | 3 => capCon
  | 4 => toFsd ||| toCon ||| capNet
  | 5 => toFsd ||| toCon
  | _ => toShell ||| toFsd ||| toCon ||| toAcct

def capHas (t : Slot) (cap : Nat) : Bool := capsForSlot t &&& cap != 0

def staticSend (src dest : Slot) : Bool := (capsForSlot src).testBit dest.val

/-- `holds_send_right`, and `may_grant`. -/
def holdsSendRight (T : Table) (src dest : Slot) : Bool := staticSend src dest || (T src).delegated dest

def maySend (T : Table) (src : Slot) (dest : Nat) : Bool := (Slot.new dest).any fun d => holdsSendRight T src d

def isChildOf (T : Table) (child parent : Slot) : Bool := occupantIs T parent (T child).parent

def mayDelegate (T : Table) (delegator grantee target : Slot) : Bool :=
  isChildOf T grantee delegator && holdsSendRight T delegator target

/-! ## Pointers -/

def u64Max : Nat := 2 ^ 64 - 1

def satAdd (a b : Nat) : Nat := min (a + b) u64Max

def inCallerRegion (region : Nat × Nat) (ptr len : Nat) : Bool :=
  region.2 != 0 && region.1 ≤ ptr && satAdd ptr (max len 1) ≤ region.1 + region.2

def maxUserLen : Nat := 512
def msgMaxLen : Nat := 768

def validRange (bound : Nat) (region : Nat × Nat) (ptr len : Nat) : Bool :=
  ptr != 0 && len != 0 && len ≤ bound && inCallerRegion region ptr len

def validUserRange := validRange maxUserLen
def validMsgRange := validRange msgMaxLen

def readMem (mem : Nat → UInt8) (ptr len : Nat) : List UInt8 := (range len).map fun i => mem (ptr + i)

def writeMem (mem : Nat → UInt8) (ptr : Nat) (bytes : List UInt8) : Nat → UInt8 := fun a =>
  if ptr ≤ a then bytes.getD (a - ptr) (mem a) else mem a

/-! ## Cores -/

section Cores
variable {M : Machine} {s : State M} {c : Fin M.cores}

/-- `running_core`: the first core whose current task is `t`; the idle task counts as running nowhere. -/
def runningCore (s : State M) (t : Slot) : Option (Fin M.cores) :=
  if t = Slot.idle then none else (finRange M.cores).find? fun c => s.current c == t

theorem runningCore_none (h : runningCore s t = none) (ht : t ≠ Slot.idle) (c : Fin M.cores) :
    s.current c ≠ t := by
  unfold runningCore at h
  rw [if_neg ht, find?_eq_none] at h
  have := h c (mem_finRange c)
  simpa using this

def secondariesUp (m : Misc M) : Bool := (finRange M.cores).any m.up

def mayRunOn (s : State M) (c : Fin M.cores) (t : Slot) : Bool :=
  if (s.task t).state ≠ .runnable then false
  else if t = Slot.idle then true
  else if (runningCore s t).any fun d => d != c then false
  else if c = M.boot then !t.isSpawnable || !secondariesUp s.misc
  else t.isSpawnable

theorem mayRunOn_runnable (h : mayRunOn s c t) : (s.task t).state = .runnable := by
  unfold mayRunOn at h
  split at h
  · cases h
  · rename_i hr
    exact not_not.1 hr

theorem mayRunOn_current {d : Fin M.cores} (h : mayRunOn s c t)
    (ht : t ≠ Slot.idle) (huniq : ∀ d d', s.current d = t → s.current d' = t → d = d')
    (hd : s.current d = t) : d = c := by
  unfold mayRunOn at h
  split at h
  · cases h
  split at h
  · cases h
  rename_i hcore
  -- `find?` stops at some core that runs `t`; there is only one
  cases hf : runningCore s t with
  | none => exact absurd hd (runningCore_none hf ht d)
  | some e =>
    have he : s.current e = t := by
      unfold runningCore at hf
      rw [if_neg ht] at hf
      have := find?_some hf
      simpa using this
    rw [hf] at hcore
    have hec : e = c := by simpa using hcore
    rw [← hec]
    exact huniq d e hd he

end Cores

end Ouroboros.Kernel
