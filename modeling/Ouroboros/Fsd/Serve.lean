import Ouroboros.Fsd.Access

/-!
# The filesystem server

`handle` takes one request to its reply; `serve` is one turn of the loop in `main`.

* `Env`  what the kernel answers while a request is served;
* `serveTree`  the path verbs, on the volume of the request's tree (`handle_ninep`);
* `fidOp`  the verbs on an open file (`handle_fid_op`);
* `handle`  the dispatch, with mounting and unmounting;
* `serve`  a request, its reply, and what a reply nobody hears undoes.
-/

namespace Ouroboros.Fsd

open Checked Buffer Option List Function

variable {F : Type} {req : Bytes}

def reqPayload : Nat := 40
def npReqPayload : Nat := 48
def replyPayload : Nat := 8
def msgMaxLen : Nat := 768
def npReadMax : Nat := 64 * 1024
def fidPathMax : Nat := 96
def fidBase : Nat := 3
def netTask : Nat := 4
def npIdFirstParty : Nat := 1
def statInfoLen : Nat := 27

def fsopMount : Nat := 10
def fsopMountInfo : Nat := 14
def fsopUnmount : Nat := 15
def fsopErase : Nat := 16
def fsopPartition : Nat := 17
def fsopFormat : Nat := 18
def fsopMountAt : Nat := 19

def rootTree : Fin maxMounts := ⟨0, by decide⟩

/-! ## Surroundings -/

structure Device (F : Type) where
  /-- `capacity_sectors`. -/
  capacity : Option Nat
  /-- `Filesystem::mount`, before and after the device is looked for again. -/
  mount : Except Error (Mount F)
  mountAgain : Except Error (Mount F)
  /-- `BLOCK_INFO` again, and the answer of `Device::replace`. -/
  capacityAgain : Option Nat
  replaced : Nat
  /-- `Filesystem::mount_partition`. -/
  mountPartition : Nat → Except Error (Mount F)
  /-- `erase_disk`, `partition_disk` and `format_disk`. -/
  prepare : Nat → Nat → Nat

structure Env (F : Type) where
  sender : Nat
  owner : Nat
  /-- `caller_id`. -/
  callerId : Option Caller
  identity : Nat → Nat
  copyIn : Nat → Option (Nat → UInt8)
  /-- the SAFECOPY of the last of these pieces into the caller's grant fails. -/
  copyOut : List Bytes → Bool
  device : Device F

structure State (F : Type) where
  mounts : Fin maxMounts → Option (Mount F)
  fids : Fids

/-! ## Replies -/

def statusReply (status : Nat) : Bytes := le 8 status

def dataReply (status : Nat) (data : Bytes) : Bytes := le 8 status ++ data

/-- `Ok(()) => 0, Err(e) => error_code(&e)`. -/
def doneReply : Except Error Unit → Bytes
  | .ok () => statusReply 0
  | .error e => statusReply (errorCode e)

def byte (n : Nat) : UInt8 := UInt8.ofNat n

def writeStatReply (st : Stat) : Bytes :=
  let time := match st.time with
    | some t => le 2 t.year ++ [byte t.month, byte t.day, byte t.hour, byte t.min, byte t.sec, 1]
    | none => replicate 8 0
  let mode := match st.mode with
    | some m => le 2 m.mode ++ le 2 m.uid ++ le 2 m.gid ++ [1]
    | none => replicate 7 0
  dataReply statInfoLen (le 8 st.size ++ le 4 (if st.isDir then 1 else 0) ++ time ++ mode)

/-- `&mut reply[..n]`. -/
def replyRoom {F : Type} (n : Nat) : Step F Unit := Act.lift (if n ≤ msgMaxLen then some () else none)

def capped (want : Nat) : Option Nat := if want > dataMax then none else some want

def wantLen (want : Nat) : Option Nat := (capped want).filter (· ≠ 0)

/-! ## A page of a directory -/

structure ReaddirFill where
  out : Bytes
  index : Nat
  full : Bool
  tooLong : Bool

/-- `ReaddirFill::push` into a window of `room` bytes, from entry `start` on. -/
def ReaddirFill.push (room start : Nat) (fill : ReaddirFill) (line : Bytes) : ReaddirFill :=
  let next := { fill with index := fill.index + 1 }
  if fill.full then next
  else if fill.index < start then next
  else if fill.out.length + line.length > room then { next with full := true, tooLong := fill.out.length = 0 }
  else
    let out := fill.out ++ line
    { next with out, full := out.length = room }

def lineOf (e : Bytes × Bool) : Bytes := e.1 ++ (if e.2 then [slash, 10] else [10])

def fillOf (room start : Nat) (shown : List (Bytes × Bool)) : ReaddirFill :=
  shown.foldl (fun fill e => fill.push room start (lineOf e)) ⟨[], 0, false, false⟩

/-! ## The path verbs -/

section Tree
variable (ops : Ops F) (env : Env F)

def withPath (payload : Bytes) (len : Nat) (serve : Bytes → Step F Bytes) : Step F Bytes := do
  match ← Act.lift (pathFrom payload 0 len) with
  | some path => serve path
  | none => pure (statusReply fsError)

def withWindow (want : Option Nat) (serve : Nat → Step F Bytes) : Step F Bytes :=
  match want with
  | some want => do
    replyRoom (replyPayload + want)
    serve want
  | none => pure (statusReply fsError)

def withGrant (len : Nat) (serve : Bytes → Step F Bytes) : Step F Bytes :=
  if len > safecopyMax then pure (statusReply fsError)
  else if len = 0 then serve []
  else
    match env.copyIn len with
    | some memory => serve ((range len).map memory)
    | none => pure (statusReply fsError)

def change (call : Call) (f : F → Except Error Unit × F) : Step F Bytes := do
  pure (doneReply (← volume call f))

def serveReaddir (path : Bytes) (start want : Nat) : Step F Bytes := do
  match ← volume (.listDir path) (ops.listDir · path fun shown => (fillOf want start shown).full) with
  | .error e => pure (statusReply (errorCode e))
  | .ok shown =>
    let fill := fillOf want start shown
    if fill.tooLong then pure (statusReply fsError) else pure (dataReply fill.out.length fill.out)

def serveReadAt (path : Bytes) (offset want : Nat) : Step F Bytes := do
  match ← volume (.readAt path) (ops.readAt · path offset want) with
  | .ok data => pure (dataReply data.length data)
  | .error e => pure (statusReply (errorCode e))

def serveStat (path : Bytes) : Step F Bytes := do
  match ← stat ops path with
  | .ok st =>
    replyRoom (replyPayload + statInfoLen)
    pure (writeStatReply st)
  | .error e => pure (statusReply (errorCode e))

def noteSent (pieces : List Bytes) : Step F Unit := fun w => some ((), { w with sent := w.sent ++ pieces })

def serveRead (path : Bytes) (offset want : Nat) : Step F Bytes := do
  let (pieces, result) ← volume (.readEach path) (ops.readEach · path offset (min want npReadMax) env.copyOut)
  noteSent pieces
  match result with
  | .ok (copied, false) => pure (statusReply copied)
  | .ok (_, true) => pure (statusReply fsError)
  | .error e => pure (statusReply (errorCode e))

def firstFree (fids : Fids) : Option (Fin maxFids) := (finRange maxFids).find? fun i => (fids i).isNone

def freeFidSlot : Step F (Option (Fin maxFids)) := do
  let fids ← getFids
  match firstFree fids with
  | some slot => pure (some slot)
  | none =>
    doFids (.reaped env.identity)
    pure (firstFree (reapDeadFids env.identity fids))

/-- what NP_OPEN does to the volume before it hands out a fid; an error is its reply. -/
def openEffect (flags : Nat) (path : Bytes) («exists» : Bool) : Step F (Except Nat Unit) := do
  if has flags openTrunc then
    if !has flags openCreate && !«exists» then pure (.error fsErrNotFound)
    else
      match ← volume (.writeFile path) (ops.writeFile · path []) with
      | .ok () => pure (.ok ())
      | .error e => pure (.error (errorCode e))
  else if has flags openCreate then
    if «exists» then pure (.ok ())
    else
      match ← volume (.touch path) (ops.touch · path) with
      | .ok () => pure (.ok ())
      | .error e => pure (.error (errorCode e))
  else if «exists» then pure (.ok ())
  else pure (.error fsErrNotFound)

def grantFid (slot : Fin maxFids) (fid : Fid) : Step F Bytes := do
  doFids (.opened slot fid)
  pure (statusReply (slot + fidBase))

def serveOpen (tree : Fin maxMounts) (who : Option Caller) (flags : Nat) (open_ : Option Found) : Step F Bytes :=
  match open_, who with
  | none, _ => pure (statusReply fsError)
  | _, none => pure (statusReply fsError)
  | some ⟨path, kind⟩, some opener => do
    match ← freeFidSlot env with
    | none => pure (statusReply fsError)
    | some slot =>
      if path.length > fidPathMax then pure (statusReply fsError)
      else
        match kind with
        | .error code => pure (statusReply code)
        | .ok kind =>
          match ← openEffect ops flags path kind.exists with
          | .error code => pure (statusReply code)
          | .ok () => grantFid slot ⟨env.owner, flags, opener.uid, tree, false, path⟩

/-- the arms of `handle_ninep`, after the check and the gate. -/
def serveVerb (tree : Fin maxMounts) (who : Option Caller) (verb : Verb) (p : Params) (payload : Bytes)
    (open_ : Option Found) : Step F Bytes :=
  match verb with
  | .npReaddir => withPath payload p.p0 fun path => withWindow (wantLen p.p1) fun want =>
    serveReaddir ops path p.p2 want
  | .npReadFile => withPath payload p.p0 fun path => withWindow (wantLen p.p1) fun want => do
    match ← volume (.readFile path) (ops.readFile · path want) with
    | .ok (size, data) => pure (dataReply size (data.take (min size want)))
    | .error e => pure (statusReply (errorCode e))
  | .npStat => withPath payload p.p0 fun path => serveStat ops path
  | .npRead => withPath payload p.p0 fun path => serveRead ops env path p.p1 p.p2
  | .npWrite => withPath payload p.p0 fun path => withGrant env p.p1 fun data =>
    change (.writeFile path) (ops.writeFile · path data)
  | .npWriteAt => withPath payload p.p0 fun path => withGrant env p.p2 fun data =>
    change (.writeAt path) (ops.writeAt · path p.p1 data)
  | .npTouch => withPath payload p.p0 fun path => change (.touch path) (ops.touch · path)
  | .npMkdir => withPath payload p.p0 fun path => change (.mkdir path) (ops.mkdir · path)
  | .npRmdir => withPath payload p.p0 fun path => change (.rmdir path) (ops.rmdir · path)
  | .npRm => withPath payload p.p0 fun path => change (.rm path) (ops.rm · path)
  | .npMv => withPath payload p.p0 fun src => do
    match ← Act.lift (pathFrom payload p.p0 p.p1) with
    | none => pure (statusReply fsError)
    | some dst =>
      if isWithin src dst (ops.namesMatch (← getFs)) then pure (statusReply fsErrInvalidName)
      else change (.mv src dst) (ops.mv · src dst)
  | .npReadAt => withPath payload p.p0 fun path => withWindow (wantLen p.p2) fun want =>
    serveReadAt ops path p.p1 want
  | .npWriteFile => withPath payload p.p0 fun path => do
    if p.p1 > dataMax then pure (statusReply fsError)
    else
      let stop ← Act.lift (add? p.p0 p.p1)
      if payload.length < stop then pure (statusReply fsError)
      else
        let data ← Act.lift (slice? payload p.p0 stop)
        change (.writeFile path) (ops.writeFile · path data)
  | .npChmod => withPath payload p.p0 fun path => change (.chmod path) (ops.chmod · path (p.p1 % 2 ^ 16))
  | .npChown => withPath payload p.p0 fun path =>
    let id (w : Nat) := if w = u64Max then none else some (w % 2 ^ 16)
    change (.chown path) (ops.chown · path (id p.p1) (id p.p2))
  | .npOpen => serveOpen ops env tree who p.p0 open_
  | .npPread | .npPwrite | .npFstat | .npClunk | .unknown => pure (statusReply fsError)

def flagsOk (flags : Nat) : Bool :=
  has flags (openRead ||| openWrite) && !(flags &&& (openExcl ||| openCreate) = openExcl) &&
    flags &&& (u64Max - openFlags) = 0

/-- what an NP_OPEN names that exists and may not be opened so is answered before the check. -/
def openEarly (who : Option Caller) (p : Params) (payload : Bytes) (open_ : Option Found) :
    Step F (Option Nat) :=
  match open_ with
  | some ⟨_, .ok kind⟩ =>
    if kind.exists && has p.p0 openExcl then do
      pure (some (← existsAnswer ops who p payload fsErrAlreadyExists))
    else if kind = .dir ∧ has p.p0 openDirRefused then do
      pure (some (← existsAnswer ops who p payload fsErrNotAFile))
    else pure none
  | _ => pure none

def serveChecked (refuses : Bool) (tree : Fin maxMounts) (who : Option Caller) (verb : Verb) (p : Params)
    (payload : Bytes) (open_ : Option Found) : Step F Bytes := do
  if ← checkAccess ops who verb p payload open_ then
    match ← refusedReadOnly ops refuses verb p open_ with
    | some status => pure (statusReply status)
    | none =>
      let (uid, gid) := match who with
        | some c => (c.uid, c.gid)
        | none => (2 ^ 32 - 1, 2 ^ 32 - 1)
      setCreator ops (uid % 2 ^ 16) (gid % 2 ^ 16)
      serveVerb ops env tree who verb p payload open_
  else pure (statusReply fsErrPerm)

/-- `handle_ninep` from where it has the mount of its tree. -/
def serveTree (refuses : Bool) (tree : Fin maxMounts) (who : Option Caller) (verb : Verb) (p : Params)
    (payload : Bytes) : Step F Bytes := do
  if verb = .npOpen then
    match ← Act.lift (pathFrom payload 0 p.p1) with
    | none => pure (statusReply fsError)
    | some path =>
      if !flagsOk p.p0 then pure (statusReply fsError)
      else
        let open_ ← found ops path
        match ← openEarly ops who p payload (some open_) with
        | some status => pure (statusReply status)
        | none => serveChecked ops env refuses tree who verb p payload (some open_)
  else serveChecked ops env refuses tree who verb p payload none

/-! ## The fid verbs -/

def fidAllows (verb : Verb) (flags : Nat) : Bool :=
  match verb with
  | .npPread => has flags openRead
  | .npPwrite => has flags openWrite
  | _ => true

/-- `handle_fid_op` from where it has the fid's mount. -/
def serveFid (refuses : Bool) (f : Fid) (verb : Verb) (p : Params) : Step F Bytes := do
  match ← refusedReadOnly ops refuses verb p none with
  | some status => pure (statusReply status)
  | none =>
    if !Utf8.valid f.path then pure (statusReply fsError)
    else
      match verb with
      | .npPread => withWindow (capped p.p2) fun want => serveReadAt ops f.path p.p1 want
      | .npPwrite => withGrant env p.p2 fun data => do
        match ← volume (.writeAt f.path) (ops.writeAt · f.path p.p1 data) with
        | .ok () => pure (statusReply p.p2)
        | .error e => pure (statusReply (errorCode e))
      | .npFstat => serveStat ops f.path
      | _ => pure (statusReply fsError)

end Tree

/-! ## A request -/

/-- a reply, the state it leaves, and the calls it made, each on the volume of a tree. -/
structure Outcome (F : Type) where
  reply : Bytes
  state : State F
  calls : List (Fin maxMounts × Call)
  table : List FidOp
  sent : List Bytes

section Server
variable (ops : Ops F) (env : Env F)

def answer (st : State F) (status : Nat) : Option (Outcome F) := some ⟨statusReply status, st, [], [], []⟩

def answerAfter (st : State F) (op : FidOp) (status : Nat) : Option (Outcome F) :=
  some ⟨statusReply status, { st with fids := op.apply st.fids }, [], [op], []⟩

def onTree (st : State F) (tree : Fin maxMounts) (m : Mount F) (step : Step F Bytes) : Option (Outcome F) :=
  (step (.start m.fs st.fids)).map fun (reply, w) =>
    ⟨reply, ⟨update st.mounts tree (some { m with fs := w.fs }), w.fids⟩, w.calls.map (tree, ·), w.table, w.sent⟩

def ownFid (st : State F) (fid : Nat) : Option (Fin maxFids × Fid) :=
  if fid < fidBase then none
  else if h : fid - fidBase < maxFids then
    (st.fids ⟨fid - fidBase, h⟩).bind fun f => if f.owner = env.owner then some (⟨fid - fidBase, h⟩, f) else none
  else none

def proxyOk (who : Option Caller) (f : Fid) : Bool :=
  taskIdSlot env.owner ≠ netTask || who.any fun c => c.uid = f.ownerUid

def handleFidOp (st : State F) (who : Option Caller) (verb : Verb) (p : Params) : Option (Outcome F) :=
  match ownFid env st p.p0 with
  | none => answer st fsError
  | some (slot, f) =>
    if !proxyOk env who f then answer st fsErrPerm
    else if verb = .npClunk then answerAfter st (.clunked slot) 0
    else if f.dead then answer st noFs
    else if !fidAllows verb f.flags then answer st fsErrPerm
    else
      match st.mounts f.tree with
      | none => answer st noFs
      | some m => onTree st f.tree m (serveFid ops env m.refusesChanges f verb p)

/-- `handle_ninep` on a request taken apart. -/
def dispatch (st : State F) (who : Option Caller) (verb : Verb) (tree : Nat) (p : Params) (payload : Bytes) :
    Option (Outcome F) :=
  if verb = .npPread ∨ verb = .npPwrite ∨ verb = .npFstat ∨
    verb = .npClunk then handleFidOp ops env st who verb p
  else if h : tree < maxMounts then
    match st.mounts ⟨tree, h⟩ with
    | none => answer st noFs
    | some m => onTree st ⟨tree, h⟩ m (serveTree ops env m.refusesChanges ⟨tree, h⟩ who verb p payload)
  else answer st fsError

def handleNinep (st : State F) (who : Option Caller) (verb : Verb) (req : Bytes) : Option (Outcome F) :=
  if req.length < npReqPayload then answer st fsError
  else do
    let tree ← readU64? req 8
    let p : Params := ⟨← readU64? req 16, ← readU64? req 24, ← readU64? req 32, ← readU64? req 40⟩
    let payload ← slice? req npReqPayload req.length
    dispatch ops env st who verb tree p payload

def effectiveCaller (op : Nat) (req : Bytes) : Option (Option Caller) :=
  if env.sender ≠ netTask then some env.callerId
  else if ¬ (npBase ≤ op ∧ op < npLimit) ∨ req.length < npReqPayload then some none
  else
    (readU64? req 40).map fun w =>
      if w = npIdFirstParty then env.callerId
      else if w < 2 ^ 63 then none
      else some ⟨w % 2 ^ 16, w / 2 ^ 16 % 2 ^ 16, []⟩

def isRoot (who : Option Caller) : Bool := who.any fun c => c.uid = 0

def treeOf (st : State F) (candidate : F) : Option (Fin maxMounts) :=
  if !ops.isDisk candidate then none
  else
    (finRange maxMounts).find? fun t =>
      (st.mounts t).any fun m => ops.isDisk m.fs && ops.partitionLba m.fs = ops.partitionLba candidate

def tryMount (st : State F) (capacity : Option Nat) (mount : Except Error (Mount F)) : Nat × State F :=
  if (st.mounts rootTree).isSome then (mountAlready, st)
  else if capacity.isNone then (noFs, st)
  else
    match mount with
    | .ok m =>
      if (treeOf ops st m.fs).isSome then (mountAlready, st)
      else (0, { st with mounts := update st.mounts rootTree (some m) })
    | .error .io => (fsErrIo, st)
    | .error _ => (noFs, st)

def diskMounted (st : State F) : Bool :=
  (finRange maxMounts).any fun t => (st.mounts t).any fun m => ops.isDisk m.fs

def mountOrRescan (st : State F) : Nat × State F :=
  let first := tryMount ops st env.device.capacity env.device.mount
  if first.1 ≠ noFs then first
  else if diskMounted ops st then first
  else if env.device.replaced = 0 then tryMount ops st env.device.capacityAgain env.device.mountAgain
  else (env.device.replaced, st)

def mountAt (st : State F) (index : Nat) : Nat × State F :=
  if (st.mounts rootTree).isNone then (noFs, st)
  else
    match env.device.mountPartition index with
    | .error .io => (fsErrIo, st)
    | .error _ => (noFs, st)
    | .ok m =>
      match treeOf ops st m.fs with
      | some t => (t, st)
      | none =>
        match (finRange maxMounts).find? fun t => t ≠ rootTree ∧ (st.mounts t).isNone with
        | none => (mountAlready, st)
        | some t => (t, { st with mounts := update st.mounts t (some m) })

/-- the FSOP_UNMOUNT arm: every disk goes, and the fids on it are dead. -/
def unmount (st : State F) : Option (Outcome F) :=
  if !diskMounted ops st then answer st noFs
  else
    let mounts := fun t => (st.mounts t).filter fun m => !ops.isDisk m.fs
    answerAfter { st with mounts } (.unmounted fun t => (mounts t).isNone) 0

def mountInfo (st : State F) : Option (Outcome F) :=
  match st.mounts rootTree with
  | none => answer st noFs
  | some m => onTree st rootTree m do
    let modes ← modelsModesOrUnknown ops
    let fs ← getFs
    replyRoom (32 + (ops.name fs).bytes.length)
    pure (le 8 0 ++ le 8 (ops.partitionLba fs) ++ le 8 (env.device.capacity.getD 0) ++
      le 8 (if modes = some true then 1 else 0) ++ (ops.name fs).bytes)

def rootOnly (st : State F) (who : Option Caller) (out : Option (Outcome F)) : Option (Outcome F) :=
  if isRoot who then out else answer st fsErrPerm

def mounted (r : Nat × State F) : Option (Outcome F) := answer r.2 r.1

/-- the operations of `handle` that are no `NP_*` verb. -/
def handleFsop (st : State F) (who : Option Caller) (op p0 : Nat) : Option (Outcome F) :=
  if op = fsopMount then rootOnly st who (mounted (mountOrRescan ops env st))
  else if op = fsopMountAt then rootOnly st who (mounted (mountAt ops env st p0))
  else if op = fsopMountInfo then mountInfo ops env st
  else if op = fsopUnmount then rootOnly st who (unmount ops st)
  else if op = fsopErase ∨ op = fsopPartition ∨ op = fsopFormat then
    rootOnly st who (answer st (if diskMounted ops st then mountAlready else env.device.prepare op p0))
  else answer st fsError

def handle (st : State F) (req : Bytes) : Option (Outcome F) :=
  if req.length < reqPayload then answer st fsError
  else do
    let op ← readU64? req 0
    let who ← effectiveCaller env op req
    if npBase ≤ op ∧ op < npLimit then handleNinep ops env st who (Verb.ofCode op) req
    else
      let p0 ← readU64? req 8
      handleFsop ops env st who op p0

/-- `forget_unheard_fid`: the slot it clears. -/
def forgetUnheardFid (req reply : Bytes) : Option (Option (Fin maxFids)) :=
  if req.length < 8 ∨ reply.length < 8 then some none
  else do
    let op ← readU64? req 0
    if Verb.ofCode op ≠ .npOpen then some none
    else
      let fid ← readU64? reply 0
      if fidBase ≤ fid ∧ fid < fsErrMin then
        if h : fid - fidBase < maxFids then some (some ⟨fid - fidBase, h⟩) else some none
      else some none

def Outcome.forget (out : Outcome F) : Option (Fin maxFids) → Outcome F
  | none => out
  | some slot =>
    { out with
      state := { out.state with fids := (FidOp.forgotten slot).apply out.state.fids },
      table := out.table ++ [.forgotten slot] }

/-- a turn of the loop of `main`: the request, and whether its reply was stale. -/
def serve (st : State F) (req : Bytes) (stale : Bool) : Option (Outcome F) := do
  let out ← handle ops env st req
  if stale then (forgetUnheardFid req out.reply).map out.forget else pure out

/-! ## Runs -/

structure Turn (F : Type) where
  env : Env F
  req : Bytes
  stale : Bool

structure Served (F : Type) where
  turn : Turn F
  before : State F
  out : Outcome F

def run : State F → List (Turn F) → Option (List (Served F) × State F)
  | st, [] => some ([], st)
  | st, turn :: turns => do
    let out ← serve ops turn.env st turn.req turn.stale
    let (rest, st') ← run out.state turns
    pure (⟨turn, st, out⟩ :: rest, st')

def callsOf (served : List (Served F)) : List (Fin maxMounts × Call) := served.flatMap (·.out.calls)

/-! ## A request taken apart -/

def word (req : Bytes) (off : Nat) : Nat := ofLe (slice req off (off + 8))

def params (req : Bytes) : Params := ⟨word req 16, word req 24, word req 32, word req 40⟩

def IsVerb (req : Bytes) : Prop := npBase ≤ word req 0 ∧ word req 0 < npLimit

def verbOf (req : Bytes) : Verb := Verb.ofCode (word req 0)

def Verb.onFid : Verb → Bool
  | .npPread | .npPwrite | .npFstat | .npClunk => true
  | _ => false

theorem readU64?_word {off : Nat} (h : off + 8 ≤ req.length) : readU64? req off = some (word req off) :=
  readU64?_eq h

theorem effectiveCaller_total (op : Nat) (req : Bytes) : ∃ who, effectiveCaller env op req = some who := by
  unfold effectiveCaller
  split
  · exact ⟨_, rfl⟩
  split
  · exact ⟨_, rfl⟩
  next h =>
  have hlen : 40 + 8 ≤ req.length := by
    simp only [not_or, npReqPayload] at h
    omega
  rw [readU64?_word hlen]
  exact ⟨_, rfl⟩

theorem handleNinep_eq (st : State F) (who : Option Caller) (verb : Verb) (h : npReqPayload ≤ req.length) :
    handleNinep ops env st who verb req =
      dispatch ops env st who verb (word req 8) (params req) (req.drop npReqPayload) := by
  have hlong : 48 ≤ req.length := h
  have hslice : slice? req npReqPayload req.length = some (req.drop npReqPayload) := by
    rw [slice?_eq h le_rfl, slice, take_length]
  rw [handleNinep, if_neg (not_lt.2 h), readU64?_word (by omega), readU64?_word (by omega),
    readU64?_word (by omega), readU64?_word (by omega), readU64?_word (by omega), hslice]
  rfl

theorem handle_cases (st : State F) (req : Bytes) :
    (req.length < npReqPayload ∧ handle ops env st req = answer st fsError) ∨
      ∃ who, effectiveCaller env (word req 0) req = some who ∧ ((IsVerb req ∧ npReqPayload ≤ req.length ∧
            handle ops env st req =
              dispatch ops env st who (verbOf req) (word req 8) (params req) (req.drop npReqPayload)) ∨
          (¬ IsVerb req ∧ reqPayload ≤ req.length ∧
            handle ops env st req = handleFsop ops env st who (word req 0) (word req 8))) := by
  by_cases hlen : req.length < reqPayload
  · refine .inl ⟨?_, by rw [handle, if_pos hlen]⟩
    simp only [reqPayload, npReqPayload] at hlen ⊢
    omega
  have hlong : 40 ≤ req.length := Nat.le_of_not_lt hlen
  obtain ⟨who, hwho⟩ := effectiveCaller_total env (word req 0) req
  rw [handle, if_neg hlen, readU64?_word (by omega)]
  simp only [bind_eq_bind, bind_some, hwho]
  by_cases hop : npBase ≤ word req 0 ∧ word req 0 < npLimit
  · rw [if_pos hop]
    by_cases hshort : req.length < npReqPayload
    · exact .inl ⟨hshort, by rw [handleNinep, if_pos hshort]⟩
    · have hnp := Nat.le_of_not_lt hshort
      exact .inr ⟨who, rfl, .inl ⟨hop, hnp, handleNinep_eq ops env st who _ hnp⟩⟩
  · rw [if_neg hop, readU64?_word (by omega)]
    exact .inr ⟨who, rfl, .inr ⟨hop, hlong, rfl⟩⟩

end Server

variable {st : State F} {out : Outcome F} {ops : Ops F} {env : Env F} {slot : Fin maxFids}

theorem onTree_eq_some {tree : Fin maxMounts} {m : Mount F} {step : Step F Bytes}
    (h : onTree st tree m step = some out) :
    ∃ reply w, step (.start m.fs st.fids) = some (reply, w) ∧
      out = ⟨reply, ⟨update st.mounts tree (some { m with fs := w.fs }), w.fids⟩,
        w.calls.map (tree, ·), w.table, w.sent⟩ := by
  obtain ⟨⟨reply, w⟩, hstep, rfl⟩ := map_eq_some_iff.1 h
  exact ⟨reply, w, hstep, rfl⟩

/-- a verb on a path is served by the volume of its tree. -/
theorem dispatch_path {who : Option Caller} {verb : Verb} {tree : Fin maxMounts} {m : Mount F} {t : Nat}
    {p : Params} {payload : Bytes} (ht : t = tree) (hverb : verb.onFid = false) (hm : st.mounts tree = some m) :
    dispatch ops env st who verb t p payload =
      onTree st tree m (serveTree ops env m.refusesChanges tree who verb p payload) := by
  have hfid : ¬ (verb = .npPread ∨ verb = .npPwrite ∨ verb = .npFstat ∨ verb = .npClunk) := by
    rintro (rfl | rfl | rfl | rfl) <;> cases hverb
  rw [dispatch, if_neg hfid, ht, dif_pos tree.isLt, Fin.eta, hm]

theorem verbOf_isVerb (h : verbOf req ≠ .unknown) : IsVerb req := by
  unfold verbOf Verb.ofCode at h
  split at h
  · exact absurd rfl h
  next hbase =>
  refine ⟨Nat.le_of_not_lt hbase, Nat.lt_of_not_le fun hlimit => h ?_⟩
  have hge : 20 ≤ word req 0 - npBase := Nat.le_sub_of_add_le' hlimit
  split <;> first | omega | rfl

theorem forgetUnheardFid_eq_some {reply : Bytes}
    (h : forgetUnheardFid req reply = some (some slot)) : verbOf req = .npOpen := by
  unfold forgetUnheardFid at h
  split at h
  · cases h
  next hlen =>
  obtain ⟨op, hop, h⟩ := bind_eq_some_iff.1 h
  rw [readU64?_word (by omega)] at hop
  cases hop
  split at h
  · cases h
  · next hverb => exact not_not.1 hverb

theorem run_cons {st' : State F} {turn : Turn F} {turns : List (Turn F)}
    {served : List (Served F)} (h : run ops st (turn :: turns) = some (served, st')) :
    ∃ out rest, serve ops turn.env st turn.req turn.stale = some out ∧
      run ops out.state turns = some (rest, st') ∧
      served = ⟨turn, st, out⟩ :: rest := by
  obtain ⟨out, hserve, h⟩ := bind_eq_some_iff.1 h
  obtain ⟨⟨rest, st₂⟩, hrun, h⟩ := bind_eq_some_iff.1 h
  cases h
  exact ⟨out, rest, hserve, hrun, rfl⟩

theorem serve_eq_some {stale : Bool} (h : serve ops env st req stale = some out) :
    ∃ out', handle ops env st req = some out' ∧
      (out = out' ∨ ∃ slot, stale ∧ forgetUnheardFid req out'.reply = some (some slot) ∧
        out = out'.forget (some slot)) := by
  obtain ⟨out', hhandle, h⟩ := bind_eq_some_iff.1 h
  refine ⟨out', hhandle, ?_⟩
  split at h
  · next hstale =>
    obtain ⟨slot, hslot, rfl⟩ := map_eq_some_iff.1 h
    cases slot with
    | none => exact .inl rfl
    | some slot => exact .inr ⟨slot, hstale, hslot, rfl⟩
  · exact .inl (Option.some.inj h).symm

theorem ownFid_eq_some {n : Nat} {f : Fid}
    (h : ownFid env st n = some (slot, f)) :
    n = slot + fidBase ∧ st.fids slot = some f ∧ f.owner = env.owner := by
  obtain ⟨hbase, h⟩ := ite_none_left_eq_some.1 h
  split at h
  · obtain ⟨g, hg, h⟩ := bind_eq_some_iff.1 h
    obtain ⟨howner, h⟩ := ite_none_right_eq_some.1 h
    cases h
    exact ⟨(Nat.sub_add_cancel (Nat.le_of_not_lt hbase)).symm, hg, howner⟩
  · cases h

theorem handleFidOp_cases {who : Option Caller} {verb : Verb}
    {p : Params} (h : handleFidOp ops env st who verb p = some out) :
    (∃ status, out = ⟨statusReply status, st, [], [], []⟩) ∨
      ∃ slot f, ownFid env st p.p0 = some (slot, f) ∧ proxyOk env who f ∧
        (verb = .npClunk ∧ answerAfter st (.clunked slot) 0 = some out ∨
          verb ≠ .npClunk ∧ f.dead = false ∧ fidAllows verb f.flags ∧
            ∃ m, st.mounts f.tree = some m ∧ onTree st f.tree m (serveFid ops env m.refusesChanges f verb p) =
              some out) := by
  have refused {status : Nat} (h : answer st status = some out) :
      ∃ status, out = ⟨statusReply status, st, [], [], []⟩ :=
    ⟨status, (Option.some.inj h).symm⟩
  unfold handleFidOp at h
  split at h
  · exact .inl (refused h)
  next slot f hown =>
  split at h
  · exact .inl (refused h)
  next hproxy =>
  replace hproxy : proxyOk env who f := by simpa using hproxy
  split at h
  · next hclunk => exact .inr ⟨slot, f, hown, hproxy, .inl ⟨hclunk, h⟩⟩
  next hclunk =>
  split at h
  · exact .inl (refused h)
  next hdead =>
  split at h
  · exact .inl (refused h)
  next hallows =>
  split at h
  · exact .inl (refused h)
  · next m hm =>
    exact .inr ⟨slot, f, hown, hproxy, .inr ⟨hclunk, by simpa using hdead, by simpa using hallows, m, hm, h⟩⟩

/-! ## Requests of local tasks -/

/-- a local task's surroundings: its identity, its user, and the memory it grants. -/
def localEnv {F : Type} (owner uid : Nat) (memory : Nat → UInt8) : Env F where
  sender := taskIdSlot owner
  owner := owner
  callerId := some ⟨uid, uid, []⟩
  identity slot := slot
  copyIn _ := some memory
  copyOut _ := false
  device :=
    ⟨some 4096, .error .notMounted, .error .notMounted, some 4096, 0, fun _ => .error .notMounted, fun _ _ => 0⟩

def request (op tree p0 p1 p2 p3 : Nat) (payload : Bytes) : Bytes :=
  le 8 op ++ le 8 tree ++ le 8 p0 ++ le 8 p1 ++ le 8 p2 ++ le 8 p3 ++ payload

/-- one ext2 volume is mounted, as `/`, and no file is open. -/
def ext2State (v : Ext2) : State (Filesystem Empty) where
  mounts t := if t = rootTree then some ⟨.ext2 v, false, false⟩ else none
  fids _ := none

end Ouroboros.Fsd
