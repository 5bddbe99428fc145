import Mathlib.Data.Nat.Bitwise

/-!
# The kernel's task tables

The eleven task slots and every table the kernel indexes by slot (`tasks.rs`).

* `Task`  one slot: state, region, generation, identity, call number, mailbox, credentials, send rights;
* `Misc`  argument blobs, keyboard ownership, staging, supervision counters, devices;
* `State`  a `Task` per slot, the current task per core, the boot-wide counters and `Misc`.

`NEXT_CALL` and `NEXT_GENERATION` never repeat a value; they are natural numbers here.  Three fields are not
kernel data: `State.sends` lists every message accepted so far, a message's `tag` is its position in that
list, and `State.handed` lists the regions given to tasks.
-/

namespace Ouroboros.Kernel

open Function

/-! ## Slots -/

/-- `TaskIndex`: `NUM_TASKS` is 11. -/
abbrev Slot := Fin 11

scoped instance neZero_slots : NeZero 11 := ⟨by decide⟩

namespace Slot

def first : Slot := 0
def idle : Slot := 1
def fsd : Slot := 2
def con : Slot := 3
def net : Slot := 4
def acct : Slot := 5

/-- `FIRST_SPAWNABLE` is 6. -/
def isSpawnable (t : Slot) : Bool := 6 ≤ t.val

def succ (t : Slot) : Slot := ⟨(t.val + 1) % 11, Nat.mod_lt _ (by decide)⟩

def new (i : Nat) : Option Slot := if h : i < 11 then some ⟨i, h⟩ else none

def all : List Slot := List.finRange 11

end Slot

/-! ## One slot -/

/-- a uid and gid pair, the two halves of the word in `IDS`. -/
structure Ident where
  uid : UInt32
  gid : UInt32
deriving DecidableEq, Repr

/-- the identity of task 0 at boot and of an ended slot. -/
def Ident.root : Ident := ⟨0, 0⟩

def Ident.pack (i : Ident) : Nat := i.gid.toNat <<< 32 ||| i.uid.toNat

def maxSuppGroups : Nat := 8

/-- what `cred_of` captures of a sender. -/
structure Cred where
  id : Ident
  task : Nat
  call : Nat
  groups : List UInt32
  present : Bool
deriving DecidableEq, Repr

def Cred.none : Cred := ⟨Ident.root, 0, 0, [], false⟩

def Cred.withCall (c : Cred) (call : Nat) : Cred := { c with call := call }

structure Message where
  sender : Nat
  data : List UInt8
  cred : Cred
  /-- position in `State.sends`; not kernel data -/
  tag : Nat
deriving DecidableEq, Repr

/-- `until_us` of the two timed waits and `deadline` are absolute. -/
inductive WaitReason where
  | keyboard
  | keyWait (untilUs : Nat)
  | sleep (untilUs : Nat)
  | taskExit (target : Slot)
  | message (buf len : Nat) (server : Option Slot)
  | netInput (deadline : Nat)
deriving DecidableEq, Repr

inductive TaskState where
  | unused
  | runnable
  | blocked (reason : WaitReason)
  | zombie (status : Nat)
deriving DecidableEq, Repr

structure Task where
  state : TaskState
  /-- base and size -/
  region : Nat × Nat
  gen : Nat
  id : Ident
  saved : Ident
  groups : List UInt32
  /-- `CURRENT_CALLS`; 0 is no call -/
  call : Nat
  mailbox : List Message
  /-- `SENDER_CREDS` -/
  cred : Cred
  /-- `PARENTS`: packed identity, 0 is none -/
  parent : Nat
  /-- `DELEGATED_SEND` -/
  delegated : Slot → Bool
  /-- `gpr[0]` of the saved or running frame -/
  x0 : Nat
  /-- tag of the message received last; not kernel data -/
  received : Option Nat

/-- a slot before any task was installed in it. -/
def Task.empty : Task where
  state := .unused
  region := (0, 0)
  gen := 0
  id := .root
  saved := .root
  groups := []
  call := 0
  mailbox := []
  cred := .none
  parent := 0
  delegated := fun _ => false
  x0 := 0
  received := Option.none

/-! ## The rest of the machine -/

inductive LoadError where
  | regionTooLarge
  | badElf
deriving DecidableEq, Repr

/-- the number of cores, the server images the supervisor keeps from boot, and what the task code
calls through an interface: the key queue and the program loader. -/
structure Machine where
  cores : Nat
  boot : Fin cores
  keptImage : Slot → Option (List UInt8)
  /-- only the boot loader registers images, and only of the four servers -/
  keptImage_server : ∀ t, (keptImage t).isSome = true → 2 ≤ t.val ∧ t.val < 6
  Queue : Type
  push : Queue → UInt8 → Nat → Queue
  pop : Queue → Option (UInt8 × Queue)
  isEmpty : Queue → Bool
  flush : Queue → Option UInt8 → Queue
  trimCutKey : Queue → Nat → Queue
  elfRegionSize : List UInt8 → Except LoadError Nat
  /-- a region has a stack and lies in one 2 MiB slot -/
  elfRegionSize_bound : ∀ image size, elfRegionSize image = .ok size → 0 < size ∧ size ≤ 2 * 1024 * 1024
  /-- image, base, size, memory before: was it loaded, and the memory after -/
  populateRegion : List UInt8 → Nat → Nat → (Nat → UInt8) → Bool × (Nat → UInt8)

structure Grant where
  grantee : Slot
  ptr : Nat
  len : Nat
  dir : Nat
  active : Bool
deriving DecidableEq, Repr

/-- the per-slot tables `Misc` holds. -/
structure Aux where
  doomed : Nat := 0
  previousOwner : Nat := 0
  foregroundCommand : Bool := false
  kbdRaw : Bool := false
  grant : Grant := ⟨0, 0, 0, 0, false⟩
  argv : List UInt8 := []
  cwd : List UInt8 := []
  env : List UInt8 := []
  ns : List UInt8 := []
  stdoutTarget : Nat := 3

/-- the spawn staging area: `stager` is the packed identity of the task that holds it. -/
structure Staging where
  stager : Nat
  image : List UInt8
  argv : List UInt8
  cwd : List UInt8
  env : List UInt8
deriving DecidableEq, Repr

def Staging.free : Staging := ⟨0, [], [], [], []⟩

/-- the counters of a supervised server. -/
structure Supervised where
  restarts : Nat
  runnableTicks : Nat
  pingOutstanding : Bool
  pingWait : Nat
  idleTicks : Nat
deriving DecidableEq, Repr

/-- what the devices and the caller's memory hold when the kernel is entered. -/
structure Dev where
  /-- answers of the keyboard devices to successive polls -/
  keys : List (Option UInt8)
  now : Nat
  netFrame : Bool
  mem : Nat → UInt8

structure Misc (M : Machine) where
  aux : Slot → Aux
  queue : M.Queue
  inputOwner : Slot
  pendingKill : Nat
  pendingQuit : Bool
  ticks : Nat
  round : Fin M.cores → Slot
  up : Fin M.cores → Bool
  staging : Staging
  /-- `REGISTRY`, looked up by slot -/
  registry : Slot → Supervised
  dev : Dev

/-- one accepted message: who sent it and what that task was then; not kernel data. -/
structure Sent where
  sender : Option Slot
  task : Task
  call : Nat

@[ext]
structure State (M : Machine) where
  task : Slot → Task
  current : Fin M.cores → Slot
  nextCall : Nat
  nextGen : Nat
  /-- `NEXT_RUNTIME_REGION_TOP` is this number modulo 2^64 -/
  top : Int
  misc : Misc M
  sends : List Sent
  /-- cursor before and size of every region a task was started in; not kernel data -/
  handed : List (Int × Nat)

/-! ## Updates -/

namespace State
variable {M : Machine}

def modify (s : State M) (t : Slot) (f : Task → Task) : State M :=
  { s with task := update s.task t (f (s.task t)) }

def setMisc (s : State M) (m : Misc M) : State M := { s with misc := m }

def setCurrent (s : State M) (c : Fin M.cores) (t : Slot) : State M :=
  { s with current := update s.current c t }

section modify
variable (s : State M) (t u : Slot) (f : Task → Task)

theorem modify_task : (s.modify t f).task u = if u = t then f (s.task t) else s.task u := by
  simp [modify, update_apply]

@[simp] theorem modify_same : (s.modify t f).task t = f (s.task t) := by simp [modify]

@[simp] theorem modify_other (h : u ≠ t) : (s.modify t f).task u = s.task u := by
  simp [modify, h]

variable {s t u f} in
/-- what holds of the slot as it was, and of the slot that changes, holds of any. -/
theorem modify_at {P : Task → Prop} (hother : P (s.task u)) (hself : u = t → P (f (s.task u))) :
    P ((s.modify t f).task u) := by
  rw [modify_task]
  split
  · rename_i h
    subst h
    exact hself rfl
  · exact hother

variable {s t f} in
theorem modify_proj {α : Type} (g : Task → α) (h : g (f (s.task t)) = g (s.task t)) :
    g ((s.modify t f).task u) = g (s.task u) :=
  modify_at (P := fun v => g v = g (s.task u)) rfl fun hu => hu ▸ h

@[simp] theorem modify_nextGen : (s.modify t f).nextGen = s.nextGen := rfl
@[simp] theorem modify_top : (s.modify t f).top = s.top := rfl
@[simp] theorem modify_misc : (s.modify t f).misc = s.misc := rfl
@[simp] theorem modify_sends : (s.modify t f).sends = s.sends := rfl
@[simp] theorem modify_handed : (s.modify t f).handed = s.handed := rfl

end modify

section setMisc
variable (s : State M) (m : Misc M)

@[simp] theorem setMisc_task : (s.setMisc m).task = s.task := rfl
@[simp] theorem setMisc_current : (s.setMisc m).current = s.current := rfl
@[simp] theorem setMisc_nextGen : (s.setMisc m).nextGen = s.nextGen := rfl
@[simp] theorem setMisc_top : (s.setMisc m).top = s.top := rfl
@[simp] theorem setMisc_misc : (s.setMisc m).misc = m := rfl
@[simp] theorem setMisc_handed : (s.setMisc m).handed = s.handed := rfl

end setMisc

section setCurrent
variable (s : State M) (c d : Fin M.cores) (t : Slot)

theorem setCurrent_apply : (s.setCurrent c t).current d = if d = c then t else s.current d := by
  simp [setCurrent, update_apply]

@[simp] theorem setCurrent_task : (s.setCurrent c t).task = s.task := rfl
@[simp] theorem setCurrent_misc : (s.setCurrent c t).misc = s.misc := rfl

end setCurrent

end State

def Misc.modify {M : Machine} (m : Misc M) (t : Slot) (f : Aux → Aux) : Misc M :=
  { m with aux := update m.aux t (f (m.aux t)) }

def Misc.setStaging {M : Machine} (m : Misc M) (g : Staging) : Misc M := { m with staging := g }

def Misc.setMem {M : Machine} (m : Misc M) (mem : Nat → UInt8) : Misc M :=
  { m with dev := { m.dev with mem := mem } }

end Ouroboros.Kernel
