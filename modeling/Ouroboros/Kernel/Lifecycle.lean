import Ouroboros.Kernel.Keyboard
import Ouroboros.Kernel.Messages

/-!
# Starting and ending tasks

* `allocateRuntimeRegion`, `freeRuntimeRegion`  the region cursor, which moves down and comes back up only for
  the most recent region;
* `endTask`  the one teardown;
* `killTask`  of a task that runs nowhere; one that runs on another core is marked;
* `spawn`, `installTask`, `restart`  a new occupant of a slot;
* `heartbeat`, `pollPing`  the supervisor's two liveness checks.
-/

namespace Ouroboros.Kernel

section Lifecycle
variable {M : Machine}

/-! ## The region allocator -/

def slotAlign : Nat := 2 * 1024 * 1024

def alignedSize (size : Nat) : Nat := (size + (slotAlign - 1)) / slotAlign * slotAlign

def cursor (top : Int) : Nat := (top % 2 ^ 64).toNat

/-- `allocate_runtime_region`: the new cursor, which is also the base.  It never refuses. -/
def allocateRuntimeRegion (top : Int) (size : Nat) : Int := top - alignedSize size

/-- `free_runtime_region`: the cursor afterwards. -/
def freeRuntimeRegion (top : Int) (base size : Nat) : Int :=
  if cursor top = base then top + alignedSize size else top

theorem free_allocate (top : Int) (size : Nat) :
    freeRuntimeRegion (allocateRuntimeRegion top size) (cursor (allocateRuntimeRegion top size)) size = top := by
  unfold freeRuntimeRegion
  rw [if_pos rfl]
  unfold allocateRuntimeRegion
  omega

def takeRegion (s : State M) (size : Nat) : State M :=
  { s with top := allocateRuntimeRegion s.top size, handed := s.handed ++ [(s.top, size)] }

section takeRegion
variable (s : State M) (size : Nat)

@[simp] theorem takeRegion_task : (takeRegion s size).task = s.task := rfl
@[simp] theorem takeRegion_nextGen : (takeRegion s size).nextGen = s.nextGen := rfl

end takeRegion

/-! ## Ending a task -/

def releaseStagingOf (m : Misc M) (t : Slot) : Misc M :=
  if m.staging.stager ≠ 0 ∧ m.staging.stager % 256 = t.val then m.setStaging .free else m

/-- the per-slot tables `end_task` clears. -/
def Task.reset (t : Task) (final : TaskState) : Task :=
  { t with
    call := 0
    state := final
    region := (0, 0)
    mailbox := []
    cred := .none
    delegated := fun _ => false
    id := .root
    saved := .root
    groups := []
    received := none }

/-- the same for `Misc`: the grant is made inactive, the blobs are emptied. -/
def Aux.reset (a : Aux) : Aux :=
  { a with
    grant := { a.grant with active := false }
    argv := []
    cwd := []
    env := []
    kbdRaw := false
    ns := []
    stdoutTarget := Slot.con.val }

def endTask (s : State M) (i : Slot) (final : TaskState) : State M :=
  let m := s.misc.modify i fun a => { a with doomed := 0 }
  let m := revertInputOwnerIf s.task m i
  let top := freeRuntimeRegion s.top (s.task i).region.1 (s.task i).region.2
  let s := failCallsTo { s with misc := m, top := top } i
  let m := releaseStagingOf s.misc i
  (s.modify i fun t => t.reset final).setMisc (m.modify i Aux.reset)

inductive Ended (M : Machine) where
  | now
  | onCore (c : Fin M.cores)

/-- `kill_task`, called on core `c`; `none` is a halt of the kernel. -/
def killTask (s : State M) (c : Fin M.cores) (i : Slot) : Option (Ended M × State M) :=
  if i = s.current c then none
  else match runningCore s i with
    | some core =>
      match taskIdOf s.task i with
      | none => none
      | some id => some (.onCore core, s.setMisc (s.misc.modify i fun a => { a with doomed := id }))
    | none => some (.now, endTask s i .unused)

section endTask
variable (s : State M) (i t : Slot) (final : TaskState)

/-- `fail_calls_to`, seen from one slot. -/
def Task.failCall (dead : Slot) (t : Task) : Task :=
  if t.state.inCallTo dead then t.release taskErrNoSuchTask else t

theorem endTask_task : (endTask s i final).task t =
    if t = i then ((s.task i).failCall i).reset final else (s.task t).failCall i := by
  unfold endTask failCallsTo Task.failCall
  simp only [State.setMisc_task, State.modify_task]

@[simp] theorem endTask_same :
    (endTask s i final).task i = ((s.task i).failCall i).reset final := by simp [endTask_task]

theorem endTask_other {t : Slot} (h : t ≠ i) : (endTask s i final).task t = (s.task t).failCall i := by
  rw [endTask_task, if_neg h]

end endTask

/-! ## New occupants -/

def clearDelegationsOf (s : State M) (t : Slot) : State M :=
  s.modify t fun u => { u with delegated := fun _ => false }

def clearDelegationsAt (s : State M) (slot : Slot) : State M :=
  { s with task := fun t =>
      { s.task t with delegated := Function.update (s.task t).delegated slot false } }

def setDelegate (s : State M) (grantee target : Slot) : State M :=
  s.modify grantee fun u => { u with delegated := Function.update u.delegated target true }

def issueGeneration (s : State M) (t : Slot) : State M :=
  { s.modify t fun u => { u with gen := s.nextGen } with nextGen := s.nextGen + 1 }

def setParent (s : State M) (child : Slot) (spawner : Slot) : State M :=
  s.modify child fun u => { u with parent := (taskIdOf s.task spawner).getD 0 }

def clearPreviousOwner (s : State M) (t : Slot) : State M := s.setMisc (setPreviousOwner s.misc t 0)

def setContext (s : State M) (t : Slot) (region : Nat × Nat) : State M :=
  s.modify t fun u => { u with x0 := 0, region := region }

def setRunnable (s : State M) (t : Slot) : State M := s.modify t fun u => { u with state := .runnable }

def freeSlot (T : Table) : Option Slot := Slot.all.find? fun t => t.isSpawnable && (T t).state == .unused

/-- `spawn` into the slot `i` that `freeSlot` found. -/
def spawnAt (s : State M) (spawner i : Slot) (region : Nat × Nat) : State M :=
  let s := setContext s i region
  let s := clearDelegationsOf s i
  let s := clearDelegationsAt s i
  let s := issueGeneration s i
  let s := setParent s i spawner
  let s := clearPreviousOwner s i
  let s := setDelegate s i spawner
  let s := setDelegate s spawner i
  setRunnable s i

/-- `install_task`: the same slot again, for a restarted server. -/
def installTask (s : State M) (slot : Slot) (region : Nat × Nat) : State M :=
  let s := setContext s slot region
  let s := clearDelegationsOf s slot
  let s := s.modify slot fun u => { u with parent := 0 }
  let s := clearPreviousOwner s slot
  let s := issueGeneration s slot
  setRunnable s slot

/-! ## Identity -/

def applyId (s : State M) (t : Slot) (new : Ident) : State M :=
  s.modify t fun u => { u with saved := u.id, id := new }

def setGroups (s : State M) (t : Slot) (gids : List UInt32) : State M :=
  s.modify t fun u => { u with groups := gids.take maxSuppGroups }

def inheritId (s : State M) (child parent : Slot) : State M := s.modify child fun u =>
    { u with id := (s.task parent).id, saved := (s.task parent).id, groups := (s.task parent).groups }

/-! ## The supervisor -/

def maxRestarts : Nat := 3
def wedgeTicks : Nat := 128
def pingInterval : Nat := 64
def pingTimeout : Nat := 8

def Supervised.resetLiveness (e : Supervised) : Supervised :=
  { e with runnableTicks := 0, pingOutstanding := false, pingWait := 0, idleTicks := 0 }

def Misc.setEntry (m : Misc M) (t : Slot) (e : Supervised) : Misc M :=
  { m with registry := Function.update m.registry t e }

variable (M) in
def isSupervised (t : Slot) : Bool := (M.keptImage t).isSome

def noteProgress (m : Misc M) (t : Slot) : Misc M :=
  if isSupervised M t then m.setEntry t { m.registry t with runnableTicks := 0 } else m

def noteAck (m : Misc M) (t : Slot) : Misc M :=
  if isSupervised M t then
    noteProgress (m.setEntry t
      { m.registry t with pingOutstanding := false, pingWait := 0, idleTicks := 0 }) t
  else m

/-- `heartbeat`: whether the server has been runnable for too long. -/
def heartbeat (m : Misc M) (t : Slot) (blocked : Bool) : Bool × Misc M :=
  let e := m.registry t
  if blocked then (false, m.setEntry t { e with runnableTicks := 0 })
  else (e.runnableTicks + 1 == wedgeTicks, m.setEntry t { e with runnableTicks := e.runnableTicks + 1 })

inductive PingAction where
  | none
  | inject
  | wedged
deriving DecidableEq, Repr

def pollPing (m : Misc M) (t : Slot) (blocked : Bool) : PingAction × Misc M :=
  let e := m.registry t
  if !blocked then
    (.none, m.setEntry t { e with pingOutstanding := false, pingWait := 0, idleTicks := 0 })
  else if e.pingOutstanding then
    if pingTimeout ≤ e.pingWait + 1 then (.wedged, m.setEntry t e.resetLiveness)
    else (.none, m.setEntry t { e with pingWait := e.pingWait + 1 })
  else if pingInterval ≤ e.idleTicks + 1 then
    (.inject, m.setEntry t { e with pingOutstanding := true, pingWait := 0, idleTicks := 0 })
  else (.none, m.setEntry t { e with idleTicks := e.idleTicks + 1 })

theorem pollPing_inject {m m' : Misc M} {t : Slot} {blocked : Bool}
    (h : pollPing m t blocked = (.inject, m')) : blocked := by
  by_contra hb
  rw [Bool.not_eq_true] at hb
  subst hb
  unfold pollPing at h
  cases h

def serverName (t : Slot) : Option String :=
  match t.val with
  | 2 => some "fsd"
  | 3 => some "cond"
  | 4 => some "netd"
  | 5 => some "accountd"
  | _ => none

def u32le (n : Nat) : List UInt8 := [.ofNat n, .ofNat (n >>> 8), .ofNat (n >>> 16), .ofNat (n >>> 24)]

/-- the argument blob of one entry that `set_name` writes. -/
def nameBlob (name : String) : List UInt8 :=
  let bytes := name.toUTF8.toList.take 504
  u32le 1 ++ u32le bytes.length ++ bytes

def setName (m : Misc M) (t : Slot) (name : String) : Misc M :=
  m.modify t fun a => { a with argv := nameBlob name }

def setServerName (m : Misc M) (t : Slot) : Misc M :=
  match serverName t with
  | none => m
  | some name => setName m t name

def restart (s : State M) (slot : Slot) : State M :=
  match M.keptImage slot with
  | none => s
  | some image =>
    let e := { s.misc.registry slot with restarts := (s.misc.registry slot).restarts + 1 }
    if maxRestarts < e.restarts then s.setMisc (s.misc.setEntry slot e)
    else
      let m := s.misc.setEntry slot e.resetLiveness
      match M.elfRegionSize image with
      | .error _ => s.setMisc m
      | .ok size =>
        let base := allocateRuntimeRegion s.top size
        match M.populateRegion image (cursor base) size m.dev.mem with
        | (false, mem) => { s with misc := m.setMem mem, top := freeRuntimeRegion base (cursor base) size }
        | (true, mem) =>
          let s := installTask (takeRegion (s.setMisc (m.setMem mem)) size) slot (cursor base, size)
          s.setMisc (setServerName s.misc slot)

end Lifecycle

end Ouroboros.Kernel
