import Ouroboros.Loader.Elf
import Ouroboros.Kernel.Spawn

/-!
# System calls

`Sys` lists the calls that read or write the task tables, with the arguments a caller passes in its
registers; `Query` lists those that only copy a table to the caller.  Calls that only talk to a device
are `Sys.device`: their answer is not determined here.

`dispatch s c k` is `dispatch_locked` for the current task of core `c`.
-/

namespace Ouroboros.Kernel

inductive Query where
  | argc
  | arg (index ptr cap : Nat)
  | envc
  | env (index ptr cap : Nat)
  | cwd (ptr cap : Nat)
  | ns (ptr cap : Nat)
  | taskName (task ptr cap : Nat)
  | heapInfo (what : Nat)
deriving DecidableEq, Repr

inductive Sys where
  | device (answer : Nat)
  | query (q : Query)
  | tryReadChar
  | readChar
  | sleepUntil (us : Nat)
  | keyWaitUntil (us : Nat)
  | kbdMode (mode : Nat)
  | spawn (totalLen stdout argvLen cwdLen : Nat)
  | spawnStage (offset ptr len : Nat)
  | cwdStage (ptr len : Nat)
  | argsStage (ptr len : Nat)
  | envStage (ptr len : Nat)
  | nsSet (ptr len : Nat)
  | stdoutTarget
  | self
  | setId (uid gid ptr count : Nat)
  | getId (task : Nat)
  | getGroups (task ptr cap : Nat)
  | taskIdentity (task : Nat)
  | senderId
  | senderTask
  | senderGroups (ptr cap : Nat)
  | senderCall
  | exit (status : Nat)
  | taskState (task : Nat)
  | taskExitCode (task : Nat)
  | power (mode : Nat)
  | yield
  | kill (task : Nat)
  | wait (task : Nat)
  | msgSend (dest ptr len : Nat)
  | msgRecv (ptr len : Nat)
  | msgTryRecv (ptr len : Nat)
  | msgCall (dest ptr len reply : Nat)
  | msgReply (handle ptr len : Nat)
  | netWait (ms : Nat)
  | fg (task foreground : Nat)
  | grant (grantee ptr len dir : Nat)
  | safecopy (call offset loc len dir : Nat)
  | delegate (grantee target : Nat)
deriving DecidableEq, Repr

def noChar : Nat := u64Max
def noArg : Nat := u64Max
def exitDenied : Nat := u64Max
def taskNoExitCode : Nat := u64Max
def taskStateInvalid : Nat := u64Max
def setIdDenied : Nat := u64Max
def powerBadMode : Nat := u64Max
def kbdModeBad : Nat := u64Max - 1
def netError : Nat := u64Max - 1
def grantErr : Nat := u64Max - 26
def safecopyErr : Nat := u64Max - 27
def grantMax : Nat := 64 * 1024
def safecopyMax : Nat := 2048
def grantRead : Nat := 1
def grantWrite : Nat := 2
def tickIntervalMs : Nat := 20

section Syscall
variable {M : Machine}

/-- how a call ends: the kernel halts, the caller goes on with a result, or the core resumes the
task that is current now. -/
inductive Outcome (M : Machine) where
  | halt
  | ret (s : State M) (result : Nat)
  | resume (s : State M)

def Outcome.ofSwitch : Option (State M) → Outcome M
  | none => .halt
  | some s => .resume s

/-- the state a call leaves; a result goes to the caller's `x0`. -/
def Outcome.finish (c : Fin M.cores) : Outcome M → Option (State M)
  | .halt => none
  | .ret s r => some (s.modify (s.current c) fun t => { t with x0 := r })
  | .resume s => some s

/-! ## Identity -/

/-- the `n` group ids a caller passes at `ptr`, little endian. -/
def groupsAt (mem : Nat → UInt8) (ptr n : Nat) : List UInt32 := (List.range n).map fun i =>
    let b := fun k => (mem (ptr + i * 4 + k)).toUInt32
    b 0 ||| b 1 <<< 8 ||| b 2 <<< 16 ||| b 3 <<< 24

def setIdSyscall (s : State M) (cur : Slot) (uid gid ptr count : Nat) : Nat × State M :=
  let new : Ident := ⟨.ofNat uid, .ofNat gid⟩
  let isRoot := (s.task cur).id.uid = 0
  let n := min count maxSuppGroups
  if ¬ isRoot ∧ new ≠ (s.task cur).saved then (setIdDenied, s)
  else if ¬ isRoot ∧ 0 < n then (setIdDenied, s)
  else if 0 < n ∧ validUserRange (s.task cur).region ptr (n * 4) = false then (setIdDenied, s)
  else (0, applyId (setGroups s cur (groupsAt s.misc.dev.mem ptr n)) cur new)

def groupBytes (gids : List UInt32) : List UInt8 := gids.flatMap fun g => u32le g.toNat

def senderGroupsSyscall (s : State M) (cur : Slot) (ptr cap : Nat) : Nat × State M :=
  let cap := min cap maxSuppGroups
  if 0 < cap ∧ validUserRange (s.task cur).region ptr (cap * 4) = false then (getIdErr, s)
  else match senderGroupsOf s.task cur cap with
    | none => (getIdErr, s)
    | some (total, gids) => (total, s.setMisc (s.misc.write ptr (groupBytes gids)))

def getGroupsSyscall (s : State M) (cur : Slot) (task ptr cap : Nat) : Nat × State M :=
  match liveIndex s.task task with
  | none => (getIdErr, s)
  | some t =>
    let cap := min cap maxSuppGroups
    if 0 < cap ∧ validUserRange (s.task cur).region ptr (cap * 4) = false then (getIdErr, s)
    else ((s.task t).groups.length, s.setMisc (s.misc.write ptr (groupBytes ((s.task t).groups.take cap))))

/-! ## Messages -/

/-- the range check of `MSG_SEND` and `MSG_REPLY`, where an empty message is allowed. -/
def validDataRange (region : Nat × Nat) (ptr len : Nat) : Bool :=
  ptr != 0 && len ≤ msgMaxLen && inCallerRegion region ptr len

def msgSend (s : State M) (cur : Slot) (dest ptr len : Nat) : Nat × State M :=
  if !validDataRange (s.task cur).region ptr len then (fsError, s)
  else match liveIndex s.task dest with
    | none => (taskErrNoSuchTask, s)
    | some d =>
      if maySend s.task cur d.val = false then (msgErrDenied, s)
      else sendMessage s cur.val d (readMem s.misc.dev.mem ptr len) 0

/-- `MSG_CALL`: the number is taken before the message is sent, and given up if it is refused. -/
def msgCall (s : State M) (c : Fin M.cores) (dest ptr len reply : Nat) : Outcome M :=
  let cur := s.current c
  let region := (s.task cur).region
  if !validMsgRange region ptr len || !validMsgRange region reply msgMaxLen then .ret s fsError
  else match liveIndex s.task dest with
    | none => .ret s taskErrNoSuchTask
    | some d =>
      if d = cur then .ret s taskErrSelf
      else if maySend s.task cur d.val = false then .ret s msgErrDenied
      else
        let (handle, s) := beginCall s cur
        let (sent, s) := sendMessage s cur.val d (readMem s.misc.dev.mem ptr len) handle
        if sent ≠ 0 then .ret (endCall s cur) sent
        else .ofSwitch (blockCurrent s c (.message reply msgMaxLen (some d)) (some d))

def msgReply (s : State M) (cur : Slot) (handle ptr len : Nat) : Nat × State M :=
  if handle = kernelSender then (0, s.setMisc (noteAck s.misc cur))
  else if !validDataRange (s.task cur).region ptr len then (fsError, s)
  else match replyTarget s.task cur handle with
    | none => (replyStale, s)
    | some dest => (0, deliverReply s cur dest (readMem s.misc.dev.mem ptr len))

def msgRecv (s : State M) (c : Fin M.cores) (ptr len : Nat) : Outcome M :=
  let cur := s.current c
  if !validMsgRange (s.task cur).region ptr len then .ret s fsError
  else
    let s := s.setMisc (noteProgress s.misc cur)
    match tryRecvMessage s cur ptr len with
    | some (v, s) => .ret s v
    | none => .ofSwitch (blockCurrent s c (.message ptr len none) none)

def msgTryRecv (s : State M) (cur : Slot) (ptr len : Nat) : Nat × State M :=
  if !validMsgRange (s.task cur).region ptr len then (fsError, s)
  else (tryRecvMessage s cur ptr len).getD (noMsg, s)

/-! ## Tables copied to the caller -/

/-- the little endian word at `off`. -/
def blobWord (blob : List UInt8) (off : Nat) : Nat :=
  (blob.getD off 0).toNat + (blob.getD (off + 1) 0).toNat * 2 ^ 8 + (blob.getD (off + 2) 0).toNat * 2 ^ 16
    + (blob.getD (off + 3) 0).toNat * 2 ^ 24

def argvCount (blob : List UInt8) : Nat := if blob.length < 4 then 0 else blobWord blob 0

/-- the entry `k` entries after the one that starts at `off`. -/
def argvSkip (blob : List UInt8) : Nat → Nat → Option (List UInt8)
  | k, off =>
    if blob.length < off + 4 then none
    else if blob.length < off + 4 + blobWord blob off then none
    else match k with
      | 0 => some ((blob.drop (off + 4)).take (blobWord blob off))
      | k + 1 => argvSkip blob k (off + 4 + blobWord blob off)

def argvGet (blob : List UInt8) (index : Nat) : Option (List UInt8) :=
  if argvCount blob ≤ index then none else argvSkip blob index 4

/-- `copy_out`: the length of the entry, of which what fits in `cap` was written. -/
def copyOut (s : State M) (cur : Slot) (ptr cap : Nat) (entry : List UInt8) : Option (Nat × State M) :=
  let n := min entry.length cap
  if ptr = 0 ∨ cap = 0 ∨ inCallerRegion (s.task cur).region ptr n = false then none
  else some (entry.length, s.setMisc (s.misc.write ptr (entry.take n)))

def heapInfo (region : Nat × Nat) : Nat → Nat
  | 0 => ((Loader.tail region.1 region.2).map fun t => t.heap.1).getD 0
  | 1 => ((Loader.tail region.1 region.2).map fun t => t.heap.2).getD 0
  | 2 => ((Loader.tail region.1 region.2).map fun t => t.stack.1).getD 0
  | 3 => ((Loader.tail region.1 region.2).map fun t => t.stack.2).getD 0
  | 4 => (Loader.slotPages - Loader.tailPages) * Loader.pageSize
  | _ => 0

/-- `GET_ARGC`, `GET_ARG`, `GET_ENVC`, `GET_ENV`, `GET_CWD`, `GET_NS`, `TASK_NAME`, `HEAP_INFO`. -/
def querySyscall (s : State M) (cur : Slot) : Query → Nat × State M
  | .argc => (argvCount (s.misc.aux cur).argv, s)
  | .arg index ptr cap =>
    ((argvGet (s.misc.aux cur).argv index).bind (copyOut s cur ptr cap)).getD (noArg, s)
  | .envc => (argvCount (s.misc.aux cur).env, s)
  | .env index ptr cap =>
    ((argvGet (s.misc.aux cur).env index).bind (copyOut s cur ptr cap)).getD (noArg, s)
  | .cwd ptr cap => (copyOut s cur ptr cap (s.misc.aux cur).cwd).getD (0, s)
  | .ns ptr cap => (copyOut s cur ptr cap (s.misc.aux cur).ns).getD (0, s)
  | .taskName task ptr cap =>
    ((Slot.new task).bind fun t =>
      (argvGet (s.misc.aux t).argv 0).bind (copyOut s cur ptr cap)).getD (0, s)
  | .heapInfo what => (heapInfo (s.task cur).region what, s)

/-! ## Rights, grants and the keyboard -/

def delegateSyscall (s : State M) (cur : Slot) (grantee target : Nat) : Nat × State M :=
  if (Slot.new grantee).any fun g => !g.isSpawnable then (msgErrDenied, s)
  else match liveIndex s.task grantee, liveIndex s.task target with
    | some g, some t =>
      if mayDelegate s.task cur g t = false then (msgErrDenied, s) else (0, setDelegate s g t)
    | _, _ => (taskErrNoSuchTask, s)

def grantSyscall (s : State M) (cur : Slot) (grantee ptr len dir : Nat) : Nat × State M :=
  if dir = 0 ∨ 3 < dir ∨ len = 0 ∨ grantMax < len ∨ inCallerRegion (s.task cur).region ptr len = false then
    (grantErr, s)
  else match liveIndex s.task grantee with
    | none => (grantErr, s)
    | some g => (0, s.setMisc (s.misc.modify cur fun a => { a with grant := ⟨g, ptr, len, dir, true⟩ }))

/-- `safecopy`: between a server and the grant of the client whose call it is answering. -/
def safecopy (s : State M) (server : Slot) (call offset loc len dir : Nat) : Option (Misc M) :=
  match replyTarget s.task server call with
  | none => none
  | some client =>
    let g := (s.misc.aux client).grant
    let (base, size) := (s.task client).region
    if dir ≠ grantRead ∧ dir ≠ grantWrite then none
    else if g.active = false ∨ g.grantee ≠ server ∨ g.dir &&& dir = 0 then none
    else if u64Max < offset + len ∨ g.len < offset + len ∨ u64Max < g.ptr + offset then none
    else if size = 0 ∨ g.ptr + offset < base ∨ u64Max < g.ptr + offset + len ∨
      base + size < g.ptr + offset + len then none
    else
      let mem := s.misc.dev.mem
      if dir = grantRead then some (s.misc.write loc (readMem mem (g.ptr + offset) len))
      else some (s.misc.write (g.ptr + offset) (readMem mem loc len))

def safecopySyscall (s : State M) (cur : Slot) (call offset loc len dir : Nat) : Nat × State M :=
  if len = 0 ∨ safecopyMax < len ∨ inCallerRegion (s.task cur).region loc len = false then
    (safecopyErr, s)
  else match safecopy s cur call offset loc len dir with
    | none => (safecopyErr, s)
    | some m => (len, s.setMisc m)

def fgSyscall (s : State M) (cur : Slot) (task foreground : Nat) : Nat × State M :=
  match Slot.new task with
  | none => (taskErrNoSuchTask, s)
  | some t =>
    if t ≠ Slot.first ∧ t.isSpawnable = false then (taskErrProtected, s)
    else if (s.task t).state.isOccupied = false then (taskErrNoSuchTask, s)
    else if cur ≠ s.misc.inputOwner then (taskErrProtected, s)
    else (0, s.setMisc (setInputOwner s.task s.misc t (foreground != 0)))

/-- `KBD_MODE`: `KBD_FLUSH` is 0x100; cooked, raw and query are 0, 1 and 2. -/
def kbdModeSyscall (s : State M) (cur : Slot) (mode : Nat) : Nat × State M :=
  let flush := mode / 0x100 % 2
  let base := mode - flush * 0x100
  if 2 < base then (kbdModeBad, s)
  else
    let m := if flush = 1 then keyboardFlushInput s.task s.misc cur else s.misc
    let m := if base = 2 then m else m.modify cur fun a => { a with kbdRaw := base == 1 }
    (if (m.aux cur).kbdRaw then 1 else 0, s.setMisc m)

def nsSetSyscall (s : State M) (cur : Slot) (ptr len : Nat) : Nat × State M :=
  let set := fun blob => s.setMisc (s.misc.modify cur fun a => { a with ns := blob })
  if len = 0 then (0, set [])
  else if !validRange nsMax (s.task cur).region ptr len then (spawnError, s)
  else (0, set (readMem s.misc.dev.mem ptr len))

/-! ## Tasks -/

def killSyscall (s : State M) (c : Fin M.cores) (task : Nat) : Outcome M :=
  match Slot.new task with
  | none => .ret s taskErrNoSuchTask
  | some t =>
    if t.isSpawnable = false then .ret s taskErrProtected
    else if (s.task t).state.isOccupied = false then .ret s taskErrNoSuchTask
    else if t = s.current c then .ret s taskErrSelf
    else match killTask s c t with
      | none => .halt
      | some (_, s) => .ret s 0

def waitSyscall (s : State M) (c : Fin M.cores) (task : Nat) : Outcome M :=
  match Slot.new task with
  | none => .ret s taskErrNoSuchTask
  | some t =>
    if t.isSpawnable = false then .ret s taskErrProtected
    else if t = s.current c then .ret s taskErrSelf
    else match (s.task t).state with
      | .zombie status => .ret (s.modify t fun u => { u with state := .unused }) status
      | .unused => .ret s taskErrNoSuchTask
      | _ => .ofSwitch (blockCurrent s c (.taskExit t) none)

def taskStateCode : TaskState → Nat
  | .unused => 0
  | .runnable => 1
  | .blocked _ => 2
  | .zombie _ => 3

/-- `NET_WAIT`; a deadline of 0 is none. -/
def netWaitSyscall (s : State M) (c : Fin M.cores) (ms : Nat) : Outcome M :=
  if capHas (s.current c) capNet = false then .ret s netError
  else
    let ticks := max ((ms + (tickIntervalMs - 1)) / tickIntervalMs) 1
    let deadline := if ms = 0 then 0 else s.misc.ticks + ticks
    .ofSwitch (blockCurrent s c (.netInput deadline) none)

def Outcome.ofPair : Nat × State M → Outcome M
  | (r, s) => .ret s r

/-- `dispatch_locked` on core `c`. -/
def dispatch (s : State M) (c : Fin M.cores) (k : Sys) : Outcome M :=
  let cur := s.current c
  match k with
  | .device answer => .ret s answer
  | .query q => .ofPair (querySyscall s cur q)
  | .tryReadChar =>
    let (b, m) := pollKeyboardByte s.task s.misc cur
    .ret (s.setMisc m) ((b.map (·.toNat)).getD noChar)
  | .readChar =>
    match pollKeyboardByte s.task s.misc cur with
    | (some b, m) => .ret (s.setMisc m) b.toNat
    | (none, m) => .ofSwitch (blockCurrent (s.setMisc m) c .keyboard none)
  | .sleepUntil us =>
    if us ≤ s.misc.dev.now then .ret s 0 else .ofSwitch (blockCurrent s c (.sleep us) none)
  | .keyWaitUntil us =>
    match keyWaitAnswer s.task s.misc cur us with
    | (some v, m) => .ret (s.setMisc m) v
    | (none, m) => .ofSwitch (blockCurrent (s.setMisc m) c (.keyWait us) none)
  | .kbdMode mode => .ofPair (kbdModeSyscall s cur mode)
  | .spawn totalLen stdout argvLen cwdLen =>
    .ofPair (spawnSyscall s cur totalLen stdout argvLen cwdLen)
  | .spawnStage offset ptr len =>
    let (r, m) := stageImage s.task s.misc cur offset ptr len
    .ret (s.setMisc m) r
  | .cwdStage ptr len =>
    let (r, m) := stageBlob s.task s.misc cur cwdMax ptr len fun g b => { g with cwd := b }
    .ret (s.setMisc m) r
  | .argsStage ptr len =>
    let (r, m) := stageBlob s.task s.misc cur argvMax ptr len fun g b => { g with argv := b }
    .ret (s.setMisc m) r
  | .envStage ptr len =>
    let (r, m) := stageBlob s.task s.misc cur envMax ptr len fun g b => { g with env := b }
    .ret (s.setMisc m) r
  | .nsSet ptr len => .ofPair (nsSetSyscall s cur ptr len)
  | .stdoutTarget => .ret s (s.misc.aux cur).stdoutTarget
  | .self => .ret s cur.val
  | .setId uid gid ptr count => .ofPair (setIdSyscall s cur uid gid ptr count)
  | .getId task => .ret s (((liveIndex s.task task).map fun t => (s.task t).id.pack).getD getIdErr)
  | .getGroups task ptr cap => .ofPair (getGroupsSyscall s cur task ptr cap)
  | .taskIdentity task => .ret s (((Slot.new task).bind (taskIdOf s.task)).getD getIdErr)
  | .senderId => .ret s (((senderIdOf s.task cur).map Ident.pack).getD getIdErr)
  | .senderTask => .ret s ((senderTaskOf s.task cur).getD getIdErr)
  | .senderGroups ptr cap => .ofPair (senderGroupsSyscall s cur ptr cap)
  | .senderCall => .ret s ((senderCallOf s.task cur).getD getIdErr)
  | .exit status =>
    if cur.isSpawnable = false then .ret s exitDenied
    else .ofSwitch (endCurrent s c (.zombie (status % 256)))
  | .taskState task =>
    .ret s (((Slot.new task).map fun t => taskStateCode (s.task t).state).getD taskStateInvalid)
  | .taskExitCode task =>
    match (Slot.new task).map fun t => (s.task t).state with
    | some (.zombie status) => .ret s status
    | _ => .ret s taskNoExitCode
  | .power mode => if mode ≤ 1 then .halt else .ret s powerBadMode
  | .yield => .ofSwitch (yieldCurrent s c)
  | .kill task => killSyscall s c task
  | .wait task => waitSyscall s c task
  | .msgSend dest ptr len => .ofPair (msgSend s cur dest ptr len)
  | .msgRecv ptr len => msgRecv s c ptr len
  | .msgTryRecv ptr len => .ofPair (msgTryRecv s cur ptr len)
  | .msgCall dest ptr len reply => msgCall s c dest ptr len reply
  | .msgReply handle ptr len => .ofPair (msgReply s cur handle ptr len)
  | .netWait ms => netWaitSyscall s c ms
  | .fg task foreground => .ofPair (fgSyscall s cur task foreground)
  | .grant grantee ptr len dir => .ofPair (grantSyscall s cur grantee ptr len dir)
  | .safecopy call offset loc len dir => .ofPair (safecopySyscall s cur call offset loc len dir)
  | .delegate grantee target => .ofPair (delegateSyscall s cur grantee target)

/-! ## What the calls about identity, rights and replies do -/

/-- **A task other than root can only swap to its saved identity, and loses its groups.** -/
theorem setIdSyscall_cases (s : State M) (cur : Slot) (uid gid ptr count : Nat) :
    (setIdSyscall s cur uid gid ptr count).2 = s ∨
    ∃ new gids, ((s.task cur).id.uid ≠ 0 → new = (s.task cur).saved ∧ gids = []) ∧ gids.length ≤ maxSuppGroups ∧
      (setIdSyscall s cur uid gid ptr count).2 =
        s.modify cur fun u => { u with groups := gids, saved := u.id, id := new } := by
  unfold setIdSyscall
  simp only
  split
  · exact .inl rfl
  rename_i hsaved
  split
  · exact .inl rfl
  rename_i hgroups
  split
  · exact .inl rfl
  refine .inr ⟨⟨.ofNat uid, .ofNat gid⟩,
    (groupsAt s.misc.dev.mem ptr (min count maxSuppGroups)).take maxSuppGroups, ?_, List.length_take_le _ _, ?_⟩
  · intro hroot
    have hn : min count maxSuppGroups = 0 := by
      by_contra hn
      exact hgroups ⟨hroot, Nat.pos_of_ne_zero hn⟩
    refine ⟨?_, ?_⟩
    · by_contra hne
      exact hsaved ⟨hroot, hne⟩
    · rw [hn]
      rfl
  · simp [applyId, setGroups, State.modify]

/-- **A right is delegated by a parent that holds it, to its own child.** -/
theorem delegateSyscall_cases (s : State M) (cur : Slot) (grantee target : Nat) :
    (delegateSyscall s cur grantee target).2 = s ∨
    ∃ g t : Slot, grantee = g.val ∧ target = t.val ∧ (s.task g).state.isOccupied ∧
      (s.task t).state.isOccupied ∧ isChildOf s.task g cur ∧
      holdsSendRight s.task cur t ∧
      (delegateSyscall s cur grantee target).2 = setDelegate s g t := by
  unfold delegateSyscall
  split
  · exact .inl rfl
  split
  · rename_i g t hg ht
    split
    · exact .inl rfl
    rename_i hmay
    rw [Bool.not_eq_false] at hmay
    unfold mayDelegate at hmay
    rw [Bool.and_eq_true] at hmay
    obtain ⟨hgi, hgo⟩ := liveIndex_eq_some.1 hg
    obtain ⟨hti, hto⟩ := liveIndex_eq_some.1 ht
    exact .inr ⟨g, t, hgi, hti, hgo, hto, hmay.1, hmay.2, rfl⟩
  · exact .inl rfl

/-- the memory `safecopy` moves between: from, to. -/
def safecopyEnds (dir loc remote : Nat) : Nat × Nat := if dir = grantRead then (remote, loc) else (loc, remote)

/-- **A copy that is made is inside the active grant of the client blocked in the call, and inside its
region.** -/
theorem safecopy_eq_some {s : State M} {server : Slot} {call offset loc len dir : Nat} {m : Misc M}
    (h : safecopy s server call offset loc len dir = some m) :
    ∃ client g, replyTarget s.task server call = some client ∧ g = (s.misc.aux client).grant ∧
      g.active ∧ g.grantee = server ∧ (dir = grantRead ∨ dir = grantWrite) ∧ g.dir &&& dir ≠ 0 ∧
      offset + len ≤ g.len ∧ (s.task client).region.1 ≤ g.ptr + offset ∧
      g.ptr + offset + len ≤ (s.task client).region.1 + (s.task client).region.2 ∧
      m = s.misc.write (safecopyEnds dir loc (g.ptr + offset)).2
        (readMem s.misc.dev.mem (safecopyEnds dir loc (g.ptr + offset)).1 len) := by
  unfold safecopy at h
  split at h
  · cases h
  rename_i client hclient
  obtain ⟨base, size, hbase⟩ : ∃ base size, (s.task client).region = (base, size) := ⟨_, _, rfl⟩
  simp only [hbase] at h
  split at h
  · cases h
  rename_i hdir
  split at h
  · cases h
  rename_i hgrant
  split at h
  · cases h
  rename_i hlen
  split at h
  · cases h
  rename_i hregion
  rw [not_or, not_or, Bool.not_eq_false, not_not] at hgrant
  refine ⟨client, _, hclient, rfl, hgrant.1, hgrant.2.1, by omega, hgrant.2.2, by omega,
    by rw [hbase]; omega, by rw [hbase]; omega, ?_⟩
  unfold safecopyEnds
  split at h
  · rename_i hread
    rw [if_pos hread]
    exact (Option.some.inj h).symm
  rename_i hread
  rw [if_neg hread]
  exact (Option.some.inj h).symm

/-- **A reply changes no task, or releases the one blocked in the call it names.** -/
theorem msgReply_cases (s : State M) (cur : Slot) (handle ptr len : Nat) :
    (∃ m, (msgReply s cur handle ptr len).2 = s.setMisc m) ∨
    ∃ t x0 m, replyTarget s.task cur handle = some t ∧
      (msgReply s cur handle ptr len).2 = (s.modify t fun u => u.release x0).setMisc m := by
  unfold msgReply
  split
  · exact .inl ⟨_, rfl⟩
  split
  · exact .inl ⟨s.misc, rfl⟩
  split
  · exact .inl ⟨s.misc, rfl⟩
  rename_i t ht
  obtain ⟨x0, m, hm⟩ := deliverReply_eq cur (readMem s.misc.dev.mem ptr len) (replyTarget_eq_some.1 ht).1
  exact .inr ⟨t, x0, m, ht, hm⟩

end Syscall

end Ouroboros.Kernel
