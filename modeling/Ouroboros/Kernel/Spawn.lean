import Ouroboros.Kernel.Sched

/-!
# Staging and spawning

A task stages an image, its arguments, directory and environment, and `SPAWN` starts it.  One task
holds the staging area at a time, by its packed identity.
-/

namespace Ouroboros.Kernel

open State Function

section Spawn
variable {M : Machine} {spawner slot : Slot} {o : Slot} {T : Table}

def spawnError : Nat := u64Max
def spawnErrBadElf : Nat := u64Max - 11
def spawnErrTooLarge : Nat := u64Max - 12
def spawnErrNoFreeSlot : Nat := u64Max - 13
def spawnErrImageTooLarge : Nat := u64Max - 41
def spawnErrStagingBusy : Nat := u64Max - 44

def spawnStagingSize : Nat := 1024 * 1024
def argvMax : Nat := 512
def cwdMax : Nat := 128
def envMax : Nat := 2048
def nsMax : Nat := 256

/-! ## The staging area -/

inductive StagingState where
  | mine
  | held
  | free
deriving DecidableEq, Repr

/-- `staging_state`: a holder that is gone frees the area. -/
def stagingState (T : Table) (m : Misc M) (cur : Slot) : StagingState × Misc M :=
  let held := m.staging.stager
  if held ≠ 0 ∧ taskIdOf T cur = some held then (.mine, m)
  else if held ≠ 0 ∧ (liveOccupant T held).isSome then (.held, m)
  else (.free, m.setStaging .free)

def claimFrom (T : Table) (m : Misc M) (cur : Slot) : StagingState → Except Nat (Misc M)
  | .mine => .ok m
  | .held => .error spawnErrStagingBusy
  | .free =>
    match taskIdOf T cur with
    | none => .error spawnError
    | some me => .ok (m.setStaging { m.staging with stager := me })

/-- one of `CWD_STAGE`, `ARGS_STAGE` and `ENV_STAGE`: `put` stores the bytes. -/
def stageBlob (T : Table) (m : Misc M) (cur : Slot) (bound ptr len : Nat)
    (put : Staging → List UInt8 → Staging) : Nat × Misc M :=
  if !validRange bound (T cur).region ptr len then (spawnError, m)
  else
    let (st, m) := stagingState T m cur
    match claimFrom T m cur st with
    | .error code => (code, m)
    | .ok m => (0, m.setStaging (put m.staging (readMem m.dev.mem ptr len)))

/-- `SPAWN_STAGE`: the image arrives in chunks, each at the end of the last; offset 0 starts over. -/
def stageImage (T : Table) (m : Misc M) (cur : Slot) (offset ptr len : Nat) : Nat × Misc M :=
  if !validUserRange (T cur).region ptr len then (spawnError, m)
  else if spawnStagingSize < offset + len then (spawnError, m)
  else
    let (st, m) := stagingState T m cur
    match st with
    | .held => (spawnErrStagingBusy, m)
    | st =>
      let expected := if st = .mine then m.staging.image.length else 0
      if offset ≠ 0 ∧ offset ≠ expected then (spawnError, m)
      else match claimFrom T m cur st with
        | .error code => (code, m)
        | .ok m =>
          let g := if offset = 0 then { m.staging with argv := [], cwd := [], env := [] } else m.staging
          (0, m.setStaging { g with image := g.image.take offset ++ readMem m.dev.mem ptr len })

/-! ## SPAWN -/

/-- the task named as standard output: `none` is the console, an error is a result code. -/
def stdoutTask (T : Table) (spawner : Slot) (stdout : Nat) : Except Nat (Option Slot) :=
  if stdout = Slot.con.val then .ok none
  else match liveIndex T stdout with
    | none => .error taskErrNoSuchTask
    | some t =>
      if t ≠ spawner ∧ holdsSendRight T spawner t = false then .error msgErrDenied else .ok (some t)

def setBlobs (m : Misc M) (slot spawner : Slot) (g : Staging) (stdout argvLen cwdLen : Nat) : Misc M :=
  let ns := (m.aux spawner).ns
  m.modify slot fun a =>
    { a with
      stdoutTarget := stdout
      argv := if g.argv.take argvLen = [] then a.argv else g.argv.take argvLen
      cwd := if g.cwd.take cwdLen = [] then a.cwd else g.cwd.take cwdLen
      env := if g.env.take envMax = [] then a.env else g.env.take envMax
      ns := ns }

/-- the part of `spawn_staged` after the new task has its slot: its standard output, its blobs and
the identity of its spawner. -/
def outfit (s : State M) (slot spawner : Slot) (out : Option Slot) (g : Staging) (stdout argvLen cwdLen : Nat) :
    State M :=
  let s := match out with
    | none => s
    | some t => if holdsSendRight s.task slot t then s else setDelegate s slot t
  inheritId (s.setMisc (setBlobs s.misc slot spawner g stdout argvLen cwdLen)) slot spawner

/-- the rest of `spawn_staged`, for a program the loader has found a size for. -/
def startStaged (s : State M) (spawner : Slot) (program : List UInt8) (size : Nat) (out : Option Slot)
    (g : Staging) (stdout argvLen cwdLen : Nat) : Nat × State M :=
  let base := allocateRuntimeRegion s.top size
  match M.populateRegion program (cursor base) size s.misc.dev.mem with
  | (false, mem) =>
    (spawnErrBadElf, { s.setMisc (s.misc.setMem mem) with top := freeRuntimeRegion base (cursor base) size })
  | (true, mem) =>
    let s := s.setMisc (s.misc.setMem mem)
    match freeSlot s.task with
    | none => (spawnErrNoFreeSlot, { s with top := freeRuntimeRegion base (cursor base) size })
    | some slot =>
      (slot.val, outfit (spawnAt (takeRegion s size) spawner slot (cursor base, size))
        slot spawner out g stdout argvLen cwdLen)

def spawnStaged (s : State M) (spawner : Slot) (totalLen stdout argvLen cwdLen : Nat) : Nat × State M :=
  let g := s.misc.staging
  let s := s.setMisc (s.misc.setStaging { g with env := [] })
  if totalLen = 0 ∨ spawnStagingSize < totalLen then (spawnErrTooLarge, s)
  else if g.image.length < totalLen then (spawnError, s)
  else match stdoutTask s.task spawner stdout with
    | .error code => (code, s)
    | .ok out =>
      match M.elfRegionSize (g.image.take totalLen) with
      | .error .regionTooLarge => (spawnErrImageTooLarge, s)
      | .error .badElf => (spawnErrBadElf, s)
      | .ok size => startStaged s spawner (g.image.take totalLen) size out g stdout argvLen cwdLen

/-- `SPAWN`: only the holder of the staging area may, and it gives the area up. -/
def spawnSyscall (s : State M) (cur : Slot) (totalLen stdout argvLen cwdLen : Nat) : Nat × State M :=
  let st := stagingState s.task s.misc cur
  let s := s.setMisc st.2
  match st.1 with
  | .held => (spawnErrStagingBusy, s)
  | .free => (spawnError, s)
  | .mine =>
    let r := spawnStaged s cur totalLen stdout argvLen cwdLen
    (r.1, r.2.setMisc (r.2.misc.setStaging .free))

/-! ## What a spawn does -/

/-- the new occupant of `slot`. -/
def spawnedTask (T : Table) (spawner slot : Slot) (gen : Nat) (region : Nat × Nat) (out : Option Slot) :
    Task :=
  { T slot with
    x0 := 0
    region := region
    gen := gen
    parent := (taskIdOf T spawner).getD 0
    state := .runnable
    id := (T spawner).id
    saved := (T spawner).id
    groups := (T spawner).groups
    delegated := fun u => u == spawner || (out == some u && !staticSend slot u) }

/-- the tables after a spawn: the new occupant, and the right of its spawner, and of no one else, to
send to it. -/
def spawnedTable (T : Table) (spawner slot : Slot) (gen : Nat) (region : Nat × Nat) (out : Option Slot) :
    Table := fun t =>
  if t = slot then spawnedTask T spawner slot gen region out
  else { T t with delegated := update (T t).delegated slot (t == spawner) }

theorem spawnAt_slot (s : State M) (region : Nat × Nat) (h : slot ≠ spawner) :
    (spawnAt s spawner slot region).task slot =
      { s.task slot with
        x0 := 0
        region := region
        gen := s.nextGen
        parent := (taskIdOf s.task spawner).getD 0
        state := .runnable
        delegated := fun u => u == spawner } := by
  have h' : spawner ≠ slot := h.symm
  have hd : update (fun _ => false) spawner true = fun u => u == spawner := by
    funext u
    by_cases hu : u = spawner <;> simp [hu]
  simp [spawnAt, setRunnable, setDelegate, clearPreviousOwner, setParent, issueGeneration,
    clearDelegationsAt, clearDelegationsOf, setContext, h, h', taskIdOf, hd]

theorem spawnAt_other (s : State M) {t : Slot} (region : Nat × Nat) (h : t ≠ slot) :
    (spawnAt s spawner slot region).task t =
      { s.task t with delegated := update (s.task t).delegated slot (t == spawner) } := by
  by_cases ht : t = spawner
  · subst ht
    simp [spawnAt, setRunnable, setDelegate, clearPreviousOwner, setParent, issueGeneration,
      clearDelegationsAt, clearDelegationsOf, setContext, h]
  have hb : (t == spawner) = false := by simpa using ht
  simp [spawnAt, setRunnable, setDelegate, clearPreviousOwner, setParent, issueGeneration,
    clearDelegationsAt, clearDelegationsOf, setContext, h, ht, hb]

theorem stdout_held (h : (staticSend slot o || o == spawner)) (u : Slot) :
    (u == spawner) = (u == spawner || (some o == some u && !staticSend slot u)) := by
  by_cases hu : o = u
  · subst hu
    cases hst : staticSend slot o
    · rw [hst] at h
      rw [Bool.false_or] at h
      simp [h]
    · simp
  · simp [hu]

theorem stdout_granted (h : ¬ (staticSend slot o || o == spawner)) (u : Slot) :
    update (fun u => u == spawner) o true u
      = (u == spawner || (some o == some u && !staticSend slot u)) := by
  rw [Bool.not_eq_true, Bool.or_eq_false_iff] at h
  by_cases hu : u = o
  · subst hu
    simp [h.1]
  · have hu' : o ≠ u := fun h => hu h.symm
    simp [hu, hu']

/-- **The tables after `spawn_staged` has started a task.** -/
theorem outfit_task (s : State M) (region : Nat × Nat) (out : Option Slot)
    (g : Staging) (stdout argvLen cwdLen : Nat) (h : slot ≠ spawner) :
    (outfit (spawnAt s spawner slot region) slot spawner out g stdout argvLen cwdLen).task =
      spawnedTable s.task spawner slot s.nextGen region out := by
  have h' : spawner ≠ slot := h.symm
  have hspawner : (spawnAt s spawner slot region).task spawner = _ := spawnAt_other s region h'
  have hslot := spawnAt_slot s region h
  funext t
  unfold outfit spawnedTable
  by_cases ht : t = slot
  · subst ht
    rw [if_pos rfl]
    cases out with
    | none => simp [inheritId, hslot, hspawner, spawnedTask]
    | some o =>
      by_cases hr : holdsSendRight (spawnAt s spawner t region).task t o
      · simp only [hr, if_true, inheritId, modify_same, setMisc_task, hslot, hspawner, spawnedTask]
        unfold holdsSendRight at hr
        rw [hslot] at hr
        congr 1
        funext u
        exact stdout_held hr u
      · simp only [hr, Bool.false_eq_true, if_false, inheritId, modify_same, setMisc_task, setDelegate,
          modify_other _ _ _ _ h', hslot, hspawner, spawnedTask]
        unfold holdsSendRight at hr
        rw [hslot] at hr
        congr 1
        funext u
        exact stdout_granted hr u
  · rw [if_neg ht]
    cases out with
    | none => simp [inheritId, ht, spawnAt_other s region ht]
    | some o =>
      simp only [inheritId, modify_other _ _ _ _ ht, setMisc_task]
      split
      · exact spawnAt_other s region ht
      · simp [setDelegate, ht, spawnAt_other s region ht]

/-- the state after a task was started in `slot`, in a region of `size` bytes below the cursor. -/
def spawned (s : State M) (spawner slot : Slot) (size : Nat) (out : Option Slot) (m : Misc M) : State M :=
  { takeRegion s size with
    task := spawnedTable s.task spawner slot s.nextGen (cursor (allocateRuntimeRegion s.top size), size) out
    nextGen := s.nextGen + 1
    misc := m }

theorem outfit_frame (s : State M) (spawner slot : Slot) (region : Nat × Nat) (out : Option Slot)
    (g : Staging) (stdout argvLen cwdLen : Nat) :
    ∃ T, outfit (spawnAt s spawner slot region) slot spawner out g stdout argvLen cwdLen =
      { s with
        task := T
        nextGen := s.nextGen + 1
        misc := setBlobs (setPreviousOwner s.misc slot 0) slot spawner g stdout argvLen cwdLen } := by
  unfold outfit
  cases out with
  | none => exact ⟨_, rfl⟩
  | some o =>
    simp only
    split
    · exact ⟨_, rfl⟩
    · exact ⟨_, rfl⟩

theorem outfit_eq (s : State M) (size : Nat) (out : Option Slot)
    (g : Staging) (stdout argvLen cwdLen : Nat) (h : slot ≠ spawner) :
    outfit (spawnAt (takeRegion s size) spawner slot (cursor (allocateRuntimeRegion s.top size), size))
      slot spawner out g stdout argvLen cwdLen = spawned s spawner slot size out
      (setBlobs (setPreviousOwner s.misc slot 0) slot spawner g stdout argvLen cwdLen) := by
  have htask := outfit_task (takeRegion s size) (cursor (allocateRuntimeRegion s.top size), size) out g
    stdout argvLen cwdLen h
  obtain ⟨T, heq⟩ := outfit_frame (takeRegion s size) spawner slot
    (cursor (allocateRuntimeRegion s.top size), size) out g stdout argvLen cwdLen
  rw [heq] at htask ⊢
  simp only [takeRegion_task, takeRegion_nextGen] at htask
  subst htask
  rfl

theorem freeSlot_eq_some (h : freeSlot T = some slot) : slot.isSpawnable ∧ (T slot).state = .unused := by
  have := List.find?_some h
  simpa using this

/-- the books after a refused `SPAWN`: the staging area may have been given up. -/
structure Refused (m m' : Misc M) : Prop where
  aux : m'.aux = m.aux
  owner : m'.inputOwner = m.inputOwner
  kill : m'.pendingKill = m.pendingKill
  staging : m'.staging = m.staging ∨ m'.staging = .free

def isRefusal (r : Nat) : Prop := 11 ≤ r

theorem startStaged_cases (s : State M) (program : List UInt8) (size : Nat)
    (out : Option Slot) (g : Staging) (stdout argvLen cwdLen : Nat) (hcur : (s.task spawner).state ≠ .unused) :
    (∃ code mem, isRefusal code ∧ startStaged s spawner program size out g stdout argvLen cwdLen
        = (code, s.setMisc (s.misc.setMem mem))) ∨ ∃ slot mem, freeSlot s.task = some slot ∧
      M.populateRegion program (cursor (allocateRuntimeRegion s.top size)) size s.misc.dev.mem = (true, mem) ∧
      startStaged s spawner program size out g stdout argvLen cwdLen = (slot.val, spawned s spawner slot size out
          (setBlobs (setPreviousOwner (s.misc.setMem mem) slot 0) slot spawner g stdout argvLen cwdLen)) := by
  unfold startStaged
  simp only
  split
  · rename_i mem _
    rw [free_allocate]
    exact .inl ⟨_, mem, (by decide : 11 ≤ spawnErrBadElf), rfl⟩
  rename_i mem hmem
  split
  · rw [free_allocate]
    exact .inl ⟨_, mem, (by decide : 11 ≤ spawnErrNoFreeSlot), rfl⟩
  rename_i slot hslot
  have hne : slot ≠ spawner := by
    rintro rfl
    exact hcur (freeSlot_eq_some hslot).2
  have heq := outfit_eq (s.setMisc (s.misc.setMem mem)) size out g stdout argvLen cwdLen hne
  exact .inr ⟨slot, mem, hslot, hmem, congrArg (Prod.mk slot.val) heq⟩

/-- the books after a task was started in `slot` from the staging `g`. -/
def startedMisc (m : Misc M) (mem : Nat → UInt8) (slot spawner : Slot) (g : Staging)
    (stdout argvLen cwdLen : Nat) : Misc M :=
  (setBlobs (setPreviousOwner (m.setMem mem) slot 0) slot spawner g stdout argvLen cwdLen).setStaging .free

theorem stdoutTask_error {stdout code : Nat} (h : stdoutTask T spawner stdout = .error code) :
    isRefusal code := by
  unfold stdoutTask at h
  split at h
  · cases h
  split at h
  · cases h
    exact (by decide : 11 ≤ taskErrNoSuchTask)
  split at h
  · cases h
    exact (by decide : 11 ≤ msgErrDenied)
  · cases h

/-- what `spawn_staged` has checked: a free slot, an output its spawner may pass on, a program the loader
took. -/
structure Starts (s : State M) (spawner slot : Slot) (program : List UInt8) (size : Nat)
    (out : Option Slot) (stdout : Nat) (mem : Nat → UInt8) : Prop where
  free : freeSlot s.task = some slot
  output : stdoutTask s.task spawner stdout = .ok out
  sized : M.elfRegionSize program = .ok size
  loaded : M.populateRegion program (cursor (allocateRuntimeRegion s.top size)) size s.misc.dev.mem = (true, mem)

theorem spawnStaged_cases (s : State M) (totalLen stdout argvLen cwdLen : Nat)
    (hcur : (s.task spawner).state ≠ .unused) : (∃ code m, isRefusal code ∧
      spawnStaged s spawner totalLen stdout argvLen cwdLen = (code, s.setMisc m) ∧
      m.aux = s.misc.aux ∧ m.inputOwner = s.misc.inputOwner ∧ m.pendingKill = s.misc.pendingKill) ∨
    ∃ slot size out mem, totalLen ≠ 0 ∧ totalLen ≤ s.misc.staging.image.length ∧
      Starts s spawner slot (s.misc.staging.image.take totalLen) size out stdout mem ∧
      (spawnStaged s spawner totalLen stdout argvLen cwdLen).1 = slot.val ∧
      (spawnStaged s spawner totalLen stdout argvLen cwdLen).2.setMisc
          ((spawnStaged s spawner totalLen stdout argvLen cwdLen).2.misc.setStaging .free)
        = spawned s spawner slot size out
          (startedMisc s.misc mem slot spawner s.misc.staging stdout argvLen cwdLen) := by
  unfold spawnStaged
  simp only
  split
  · exact .inl ⟨_, _, (by decide : 11 ≤ spawnErrTooLarge), rfl, rfl, rfl, rfl⟩
  rename_i hzero
  split
  · exact .inl ⟨_, _, (by decide : 11 ≤ spawnError), rfl, rfl, rfl, rfl⟩
  rename_i hlen
  split
  · rename_i code hout
    exact .inl ⟨_, _, stdoutTask_error hout, rfl, rfl, rfl, rfl⟩
  rename_i out hout
  split
  · exact .inl ⟨_, _, (by decide : 11 ≤ spawnErrImageTooLarge), rfl, rfl, rfl, rfl⟩
  · exact .inl ⟨_, _, (by decide : 11 ≤ spawnErrBadElf), rfl, rfl, rfl, rfl⟩
  rename_i size hsize
  rcases startStaged_cases (s.setMisc (s.misc.setStaging { s.misc.staging with env := [] }))
    (s.misc.staging.image.take totalLen) size out s.misc.staging stdout argvLen cwdLen hcur with
    ⟨code, mem, hcode, heq⟩ | ⟨slot, mem, hslot, hmem, heq⟩
  · exact .inl ⟨code, _, hcode, heq, rfl, rfl, rfl⟩
  refine .inr ⟨slot, size, out, mem, fun h => hzero (.inl h), Nat.le_of_not_lt hlen,
    ⟨hslot, hout, hsize, hmem⟩, ?_, ?_⟩
  · rw [heq]
  · rw [heq]
    rfl

/-- **`SPAWN` changes no task, or starts one in a free slot from what its caller has staged.** -/
theorem spawnSyscall_cases (s : State M) {cur : Slot} (totalLen stdout argvLen cwdLen : Nat)
    (hcur : (s.task cur).state ≠ .unused) :
    (∃ code m, isRefusal code ∧
      spawnSyscall s cur totalLen stdout argvLen cwdLen = (code, s.setMisc m) ∧ Refused s.misc m) ∨
    ∃ slot size out mem, s.misc.staging.stager ≠ 0 ∧ taskIdOf s.task cur = some s.misc.staging.stager ∧
      totalLen ≠ 0 ∧ totalLen ≤ s.misc.staging.image.length ∧
      Starts s cur slot (s.misc.staging.image.take totalLen) size out stdout mem ∧
      spawnSyscall s cur totalLen stdout argvLen cwdLen = (slot.val, spawned s cur slot size out
          (startedMisc s.misc mem slot cur s.misc.staging stdout argvLen cwdLen)) := by
  unfold spawnSyscall
  simp only
  unfold stagingState
  simp only
  by_cases hmine : s.misc.staging.stager ≠ 0 ∧ taskIdOf s.task cur = some s.misc.staging.stager
  · rw [if_pos hmine]
    simp only
    rcases spawnStaged_cases (s.setMisc s.misc) totalLen stdout argvLen cwdLen hcur with
      ⟨code, m, hcode, heq, haux, howner, hkill⟩ | ⟨slot, size, out, mem, hpos, hlen, hstart, hslot, heq⟩
    · rw [heq]
      exact .inl ⟨code, m.setStaging .free, hcode, rfl, ⟨haux, howner, hkill, .inr rfl⟩⟩
    · exact .inr ⟨slot, size, out, mem, hmine.1, hmine.2, hpos, hlen, hstart, Prod.ext hslot heq⟩
  · rw [if_neg hmine]
    split
    · rename_i hst
      refine .inl ⟨_, _, (by decide : 11 ≤ spawnErrStagingBusy), rfl, ?_⟩
      split
      · exact ⟨rfl, rfl, rfl, .inl rfl⟩
      · exact ⟨rfl, rfl, rfl, .inr rfl⟩
    · refine .inl ⟨_, _, (by decide : 11 ≤ spawnError), rfl, ?_⟩
      split
      · exact ⟨rfl, rfl, rfl, .inl rfl⟩
      · exact ⟨rfl, rfl, rfl, .inr rfl⟩
    · rename_i hst
      split at hst <;> cases hst

/-! ## What a staging call does -/

section stages
variable {T : Table} {m : Misc M} {cur : Slot} {me : Nat}

/-- the area that a staging call of the task `me` writes to: its own, or an empty one if the holder is
gone. -/
inductive Opened (T : Table) (held : Staging) (me : Nat) : Staging → Prop where
  | mine (hme : me ≠ 0) (h : held.stager = me) : Opened T held me held
  | free (hfree : held.stager = 0 ∨ liveOccupant T held.stager = none) :
      Opened T held me { Staging.free with stager := me }

theorem Opened.stager {held g : Staging} (h : Opened T held me g) : g.stager = me := by
  cases h with
  | mine _ h => exact h
  | free => rfl

theorem stagingState_cases (hcur : taskIdOf T cur = some me) :
    stagingState T m cur = (.mine, m) ∧ Opened T m.staging me m.staging ∨ stagingState T m cur = (.held, m) ∨
      stagingState T m cur = (.free, m.setStaging .free) ∧
        Opened T m.staging me { Staging.free with stager := me } := by
  unfold stagingState
  simp only
  by_cases hmine : m.staging.stager ≠ 0 ∧ taskIdOf T cur = some m.staging.stager
  · have hid : me = m.staging.stager := Option.some_inj.1 (hcur.symm.trans hmine.2)
    exact .inl ⟨if_pos hmine, .mine (hid ▸ hmine.1) hid.symm⟩
  rw [if_neg hmine]
  by_cases hheld : m.staging.stager ≠ 0 ∧ (liveOccupant T m.staging.stager).isSome
  · exact .inr (.inl (if_pos hheld))
  refine .inr (.inr ⟨if_neg hheld, .free ?_⟩)
  by_cases hz : m.staging.stager = 0
  · exact .inl hz
  · exact .inr (Option.not_isSome_iff_eq_none.1 fun hlive => hheld ⟨hz, hlive⟩)

theorem stageBlob_cases (hcur : taskIdOf T cur = some me) (bound ptr len : Nat)
    (put : Staging → List UInt8 → Staging) :
    (∃ code, code ≠ 0 ∧ stageBlob T m cur bound ptr len put = (code, m)) ∨
    ∃ g, Opened T m.staging me g ∧
      stageBlob T m cur bound ptr len put = (0, m.setStaging (put g (readMem m.dev.mem ptr len))) := by
  unfold stageBlob
  split
  · exact .inl ⟨_, (by decide : spawnError ≠ 0), rfl⟩
  rcases @stagingState_cases _ T m cur me hcur with ⟨hst, hopen⟩ | hst | ⟨hst, hopen⟩ <;> rw [hst]
  · exact .inr ⟨_, hopen, rfl⟩
  · exact .inl ⟨_, (by decide : spawnErrStagingBusy ≠ 0), rfl⟩
  · simp only [claimFrom, hcur]
    exact .inr ⟨_, hopen, rfl⟩

theorem stageImage_cases (hcur : taskIdOf T cur = some me) (offset ptr len : Nat) :
    (∃ code, code ≠ 0 ∧ (stageImage T m cur offset ptr len = (code, m) ∨
      stageImage T m cur offset ptr len = (code, m.setStaging .free))) ∨
    ∃ g, Opened T m.staging me g ∧ (offset = 0 ∨ offset = g.image.length) ∧
      stageImage T m cur offset ptr len =
          (0, m.setStaging (if offset = 0 then ⟨me, readMem m.dev.mem ptr len, [], [], []⟩
          else { g with image := g.image ++ readMem m.dev.mem ptr len })) := by
  unfold stageImage
  split
  · exact .inl ⟨_, (by decide : spawnError ≠ 0), .inl rfl⟩
  split
  · exact .inl ⟨_, (by decide : spawnError ≠ 0), .inl rfl⟩
  rcases @stagingState_cases _ T m cur me hcur with ⟨hst, hopen⟩ | hst | ⟨hst, hopen⟩ <;> rw [hst]
  · simp only [if_true]
    split
    · exact .inl ⟨_, (by decide : spawnError ≠ 0), .inl rfl⟩
    rename_i hoffset
    have hat : offset = 0 ∨ offset = m.staging.image.length := by tauto
    refine .inr ⟨m.staging, hopen, hat, ?_⟩
    simp only [claimFrom]
    by_cases hzero : offset = 0
    · simp [hzero, hopen.stager]
    · rw [if_neg hzero, if_neg hzero, hat.resolve_left hzero, List.take_length]
  · exact .inl ⟨_, (by decide : spawnErrStagingBusy ≠ 0), .inl rfl⟩
  · simp only [claimFrom, hcur]
    by_cases hzero : offset = 0
    · subst hzero
      exact .inr ⟨_, hopen, .inl rfl, rfl⟩
    · exact .inl ⟨_, (by decide : spawnError ≠ 0), .inr (if_pos ⟨hzero, hzero⟩)⟩

end stages

end Spawn

end Ouroboros.Kernel
