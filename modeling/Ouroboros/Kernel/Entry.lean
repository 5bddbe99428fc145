import Ouroboros.Lib.Transition
import Ouroboros.Kernel.Syscall
import Ouroboros.Loader.Machine

/-!
# Kernel entries

A core enters the kernel by a system call, a fault or an interrupt.  Each entry runs under the kernel
lock from start to end, so a run of the system is a sequence of entries, by any cores in any order.

* `poll`, `onTick`  the boot core's timer: polls blocked tasks, ends one on Ctrl+C, watches the servers,
  switches;
* `Entry`, `step`  one entry; `none` is a halt, or an entry the core does not make;
* `Booted`  the states the boot code can leave;
* `Run`  a run of entries from boot.
-/

namespace Ouroboros.Kernel

open Transition List

section Entries
variable {M : Machine}

/-! ## The timer interrupt -/

/-- `WaitReason::poll`: the value the waiting task resumes with, if its wait is over. -/
def poll (s : State M) (waiter : Slot) : WaitReason → Option Nat × State M
  | .keyboard =>
    let (b, m) := pollKeyboardByte s.task s.misc waiter
    (b.map (·.toNat), s.setMisc m)
  | .keyWait us =>
    let (v, m) := keyWaitAnswer s.task s.misc waiter us
    (v, s.setMisc m)
  | .sleep us => (if us ≤ s.misc.dev.now then some 0 else none, s)
  | .taskExit target =>
    match (s.task target).state with
    | .zombie status => (some status, s.modify target fun u => { u with state := .unused })
    | .unused => (some taskKilledStatus, s)
    | _ =>
      let (hit, m) := readKeyboardAhead s.task s.misc waiter
      (if hit then some waitInterrupted else none, s.setMisc m)
  | .message buf len server =>
    match if server = none then tryRecvMessage s waiter buf len else none with
    | some (v, s) => (some v, s)
    | none =>
      match readKeyboardAhead s.task s.misc waiter with
      | (true, m) => (some recvInterrupted, endCall (s.setMisc m) waiter)
      | (false, m) => (none, s.setMisc m)
  | .netInput deadline =>
    let timedOut := deadline ≠ 0 ∧ deadline ≤ s.misc.ticks
    (if s.misc.dev.netFrame = true ∨ (s.task waiter).mailbox ≠ [] ∨ timedOut then some 0 else none, s)

def finishPoll (i : Slot) : Option Nat × State M → State M
  | (none, s) => s
  | (some v, s) => s.modify i fun t => { t with x0 := v, state := .runnable }

def pollSlot (s : State M) (i : Slot) : State M :=
  match (s.task i).state with
  | .blocked reason => finishPoll i (poll s i reason)
  | _ => s

def pollAll (s : State M) : State M := Slot.all.foldl pollSlot s

/-- the keyboard is read ahead for its owner, so that Ctrl+C is seen while the owner computes. -/
def readAheadForOwner (s : State M) : State M :=
  if s.misc.inputOwner = Slot.first then s
  else s.setMisc (readKeyboardAhead s.task s.misc s.misc.inputOwner).2

/-- the message a ping is: `SYSOP_PING` in `FS_REQ_PAYLOAD` bytes. -/
def pingData : List UInt8 := [0xFF, 0xFF] ++ replicate 38 0

def sendPing (s : State M) (slot : Slot) : PingAction → State M
  | .inject => (sendMessage s kernelSender slot pingData kernelSender).2
  | _ => s

/-- the two liveness checks of a server, with the ping they may send: whether it is stuck. -/
def checkServer (s : State M) (slot : Slot) : Bool × State M :=
  let blocked := (s.task slot).state.isBlocked
  let runnableWedge := heartbeat s.misc slot blocked
  let ping := pollPing runnableWedge.2 slot blocked
  (runnableWedge.1 || ping.1 == .wedged, sendPing (s.setMisc ping.2) slot ping.1)

/-- one server of the supervision loop; `true` ends the tick. -/
def superviseSlot (s : State M) (c : Fin M.cores) (slot : Slot) : Option (Bool × State M) :=
  if !isSupervised M slot then some (false, s)
  else match checkServer s slot with
    | (false, s) => some (false, s)
    | (true, s) =>
      if slot = s.current c then (endCurrent s c .unused).map fun s => (true, restart s slot)
      else match killTask s c slot with
        | some (.now, s) => some (false, restart s slot)
        | _ => none

def superviseAll (c : Fin M.cores) : List Slot → State M → Option (Bool × State M)
  | [], s => some (false, s)
  | slot :: rest, s =>
    match superviseSlot s c slot with
    | none => none
    | some (true, s) => some (true, s)
    | some (false, s) => superviseAll c rest s

def tickRest (s : State M) (c : Fin M.cores) : Option (State M) :=
  match superviseAll c Slot.all s with
  | none => none
  | some (true, s) => some s
  | some (false, s) => nextAtTick s c

/-- `on_tick`, on the boot core. -/
def onTick (s : State M) (c : Fin M.cores) : Option (State M) :=
  let s := readAheadForOwner (pollAll s)
  let victim := (liveOccupant s.task s.misc.pendingKill).filter Slot.isSpawnable
  let s := s.setMisc { s.misc with pendingKill := 0, pendingQuit := false }
  match victim with
  | none => tickRest s c
  | some v =>
    if v = s.current c then endCurrent s c .unused
    else match killTask s c v with
      | none => none
      | some (_, s) => tickRest s c

/-- `on_net_irq`: the first task that waits for network input is resumed here and now. -/
def onNetIrq (s : State M) (c : Fin M.cores) : State M :=
  match Slot.all.find? fun t => match (s.task t).state with
    | .blocked (.netInput _) => true
    | _ => false with
  | none => s
  | some t => (s.modify t fun u => { u with x0 := 0, state := .runnable }).setCurrent c t

/-- `el0_fault_locked`. -/
def onFault (s : State M) (c : Fin M.cores) : Option (State M) :=
  let slot := s.current c
  if slot = Slot.first ∨ slot = Slot.idle then none
  else (endCurrent s c .unused).map fun s => if isSupervised M slot then restart s slot else s

/-! ## Entries -/

inductive Entry (M : Machine) where
  | syscall (c : Fin M.cores) (d : Dev) (k : Sys)
  | fault (c : Fin M.cores) (d : Dev)
  | timer (c : Fin M.cores) (d : Dev)
  | kick (c : Fin M.cores) (d : Dev) (resched : Bool)
  | netIrq (c : Fin M.cores) (d : Dev)
  | irq (c : Fin M.cores) (d : Dev)
  | coreUp (c : Fin M.cores)
  | haltAlone (c : Fin M.cores)

def Entry.core : Entry M → Fin M.cores
  | .syscall c _ _ | .fault c _ | .timer c _ | .kick c _ _ | .netIrq c _ | .irq c _ => c
  | .coreUp c | .haltAlone c => c

def isActive (s : State M) (c : Fin M.cores) : Bool := c == M.boot || s.misc.up c

def State.load (s : State M) (d : Dev) : State M := s.setMisc { s.misc with dev := d }

def setUp (s : State M) (c : Fin M.cores) (b : Bool) : State M :=
  s.setMisc { s.misc with up := Function.update s.misc.up c b }

/-- what an interrupt does once a marked current task has been ended. -/
def irqLocked (s : State M) : Entry M → Option (State M)
  | .timer c _ =>
    if c = M.boot then onTick (s.setMisc { s.misc with ticks := s.misc.ticks + 1 }) c
    else nextAtTick s c
  | .kick c _ resched => if resched then rescheduleIfIdle s c else some s
  | .netIrq c _ => if c = M.boot then some (onNetIrq s c) else some s
  | _ => some s

/-- an interrupt: the current task is ended first if it is marked, and the interrupt is served. -/
def irqEntry (s : State M) (c : Fin M.cores) (d : Dev) (e : Entry M) : Option (State M) :=
  (endIfDoomed (s.load d) c).bind fun r => irqLocked r.2 e

/-- a system call or a fault: nothing else is done for a task that is ended here. -/
def trapEntry (s : State M) (c : Fin M.cores) (d : Dev) (body : State M → Option (State M)) : Option (State M) :=
  (endIfDoomed (s.load d) c).bind fun r => if r.1 then some r.2 else body r.2

/-- one kernel entry.  The idle task is a loop that makes no system call. -/
def step (s : State M) : Entry M → Option (State M)
  | .syscall c d k =>
    if !isActive s c || s.current c = Slot.idle then none
    else trapEntry s c d fun s => (dispatch s c k).finish c
  | .fault c d => if !isActive s c then none else trapEntry s c d fun s => onFault s c
  | .timer c d => if !isActive s c then none else irqEntry s c d (.timer c d)
  | .kick c d b => if !isActive s c then none else irqEntry s c d (.kick c d b)
  | .netIrq c d => if !isActive s c then none else irqEntry s c d (.netIrq c d)
  | .irq c d => if !isActive s c then none else irqEntry s c d (.irq c d)
  | .coreUp c => if isActive s c then none else some (setUp (s.setCurrent c Slot.idle) c true)
  | .haltAlone c =>
    if c = M.boot ∨ s.misc.up c = false ∨ s.current c ≠ Slot.idle then none
    else some (setUp s c false)

/-! ## Boot -/

/-- a slot after `init`: a program with its region and generation, or empty. -/
def bootTask (region : Nat × Nat) (gen : Nat) : Task :=
  { Task.empty with state := .runnable, region := region, gen := gen }

/-- the slots that hold a program after `init`, with their regions: the shell and the idle task do,
the servers may, the spawnable slots do not. -/
structure BootLoad where
  region : Slot → Option (Nat × Nat)
  shell : (region Slot.first).isSome = true
  idle : (region Slot.idle).isSome = true
  spawnable : ∀ t, t.isSpawnable = true → region t = none

/-- the generation `init` issues to a slot: 1 for the first loaded slot, and so on. -/
def BootLoad.gen (b : BootLoad) (t : Slot) : Nat :=
  ((finRange 11).filter fun u => decide (u ≤ t) && (b.region u).isSome).length

/-- the name `init` gives a loaded slot. -/
def bootName (t : Slot) : String :=
  if t = Slot.first then "shell" else if t = Slot.idle then "idle" else (serverName t).getD ""

def bootAux (b : BootLoad) (t : Slot) : Aux :=
  { argv := if (b.region t).isSome then nameBlob (bootName t) else [] }

def bootState (M : Machine) (b : BootLoad) (top : Int) (queue : M.Queue) (d : Dev) : State M where
  task := fun t =>
    match b.region t with
    | none => .empty
    | some r => bootTask r (b.gen t)
  current := fun c => if c = M.boot then Slot.first else Slot.idle
  nextCall := 1
  nextGen := ((finRange 11).filter fun u => (b.region u).isSome).length + 1
  top := top
  misc :=
    { aux := bootAux b
      queue := queue
      inputOwner := Slot.first
      pendingKill := 0
      pendingQuit := false
      ticks := 0
      round := fun _ => Slot.first
      up := fun _ => false
      staging := .free
      registry := fun _ => ⟨0, 0, false, 0, 0⟩
      dev := d }
  sends := []
  handed := []

def Booted (s : State M) : Prop := ∃ b top q d, s = bootState M b top q d

def Step (s : State M) (e : Entry M) (s' : State M) : Prop := step s e = some s'

theorem step_getD {s : State M} {e : Entry M} (h : (step s e).isSome) : Step s e ((step s e).getD s) := by
  obtain ⟨s', hs'⟩ := Option.isSome_iff_exists.1 h
  simp [Step, hs']

abbrev Reached (s : State M) : Prop := Reachable Step Booted s

/-! ## Lists of entries -/

def takes : State M → List (Entry M) → Bool
  | _, [] => true
  | s, e :: es => match step s e with
    | none => false
    | some s' => takes s' es

def record : State M → List (Entry M) → List (State M × Entry M × State M)
  | _, [] => []
  | s, e :: es => match step s e with
    | none => []
    | some s' => (s, e, s') :: record s' es

def after : State M → List (Entry M) → State M
  | s, [] => s
  | s, e :: es => match step s e with
    | none => s
    | some s' => after s' es

theorem record_trace {s : State M} {es : List (Entry M)} (h : takes s es) :
    Trace Step s (record s es) (after s es) := by
  induction es generalizing s with
  | nil => exact .nil
  | cons e es ih =>
    unfold takes at h
    unfold record after
    cases he : step s e with
    | none =>
      rw [he] at h
      cases h
    | some s' =>
      rw [he] at h
      exact (Trace.single he).append (ih h)

theorem step_after {s : State M} {e : Entry M} (h : (step s e).isSome) : Step s e (after s [e]) := by
  obtain ⟨s', hs'⟩ := Option.isSome_iff_exists.1 h
  simp [Step, after, hs']

theorem record_append {s : State M} {es : List (Entry M)} (fs : List (Entry M)) (h : takes s es) :
    record s (es ++ fs) = record s es ++ record (after s es) fs := by
  induction es generalizing s with
  | nil => rfl
  | cons e es ih =>
    unfold takes at h
    cases he : step s e with
    | none =>
      rw [he] at h
      cases h
    | some s' =>
      rw [he] at h
      simp only [record, after, he, ih h, cons_append]

theorem record_cons {s : State M} {e : Entry M} (es : List (Entry M)) (h : (step s e).isSome) :
    record s (e :: es) = (s, e, after s [e]) :: record (after s [e]) es := by
  obtain ⟨s', hs'⟩ := Option.isSome_iff_exists.1 h
  simp [record, after, hs']

theorem record_mem {s : State M} {es : List (Entry M)} {y : State M × Entry M × State M}
    (h : y ∈ record s es) : y.2.1 ∈ es := by
  induction es generalizing s with
  | nil => cases h
  | cons e es ih =>
    unfold record at h
    split at h
    · cases h
    rw [mem_cons] at h
    rcases h with rfl | h
    · exact mem_cons_self
    · exact mem_cons_of_mem _ (ih h)

/-! ## A small machine -/

scoped instance neZero_cores : NeZero 2 := ⟨by decide⟩

/-- two cores, no servers, a key queue that is a list, and no loader yet. -/
def bareCores : Machine where
  cores := 2
  boot := 0
  keptImage := fun _ => none
  keptImage_server := by simp
  Queue := List UInt8
  push := fun q b _ => q ++ [b]
  pop := fun q => match q with
    | [] => none
    | b :: q => some (b, q)
  isEmpty := isEmpty
  flush := fun _ _ => []
  trimCutKey := fun q _ => q
  elfRegionSize := fun _ => .error .badElf
  elfRegionSize_bound := nofun
  populateRegion := fun _ _ _ mem => (false, mem)

def twoCores : Machine := Loader.withLoader bareCores

def twoCoresLoad : BootLoad where
  region := fun t => if t = Slot.first then some (0x400000, 0x100000)
    else if t = Slot.idle then some (0x200000, 0x1000) else none
  shell := rfl
  idle := rfl
  spawnable := by decide

def noDev : Dev := ⟨[], 0, false, fun _ => 0⟩

/-- a program of eight bytes of code. -/
def program : List UInt8 := Loader.plainImage (replicate 8 0x1f)

/-- a memory with the program in it. -/
def programAt (base : Nat) : Dev := ⟨[], 0, false, Loader.poke (fun _ => 0) base program⟩

def twoCoresBoot : State twoCores := bootState twoCores twoCoresLoad 0x1000000 [] noDev

def secondCore : Fin twoCores.cores := (1 : Fin 2)

def stagesImage : Entry twoCores := .syscall (0 : Fin 2) (programAt 0x400000) (.spawnStage 0 0x400000 128)

def spawnsChild : Entry twoCores := .syscall (0 : Fin 2) noDev (.spawn 128 0 0 0)

/-- the task on the boot core makes a call. -/
def asksFirst (k : Sys) : Entry twoCores := .syscall (0 : Fin 2) noDev k

theorem twoCoresBoot_booted : Booted twoCoresBoot := ⟨_, _, _, _, rfl⟩

theorem reached_after {es : List (Entry twoCores)} (h : takes twoCoresBoot es) :
    Reached (after twoCoresBoot es) :=
  ⟨_, _, twoCoresBoot_booted, record_trace h⟩

end Entries

end Ouroboros.Kernel
