import Ouroboros.Fsd.Volume

/-!
# Who may do what

`check_access` and what it asks, over any volume.

* `modeAllows`  the mode bits of one object against a caller;
* `ancestorsSearchable`  search permission on every directory a path goes through;
* `pathAllows`  that, and a permission on what the path names;
* `checkAccess`  the permission each verb needs;
* `refusedReadOnly`  the verbs a read-only mount refuses.
-/

namespace Ouroboros.Fsd

open Checked

/-! ## Codes -/

def u64Max : Nat := 2 ^ 64 - 1
def fsError : Nat := u64Max
def noFs : Nat := u64Max - 1
def fsErrNotFound : Nat := u64Max - 2
def fsErrNotAFile : Nat := u64Max - 3
def fsErrNotADirectory : Nat := u64Max - 4
def fsErrInvalidName : Nat := u64Max - 5
def fsErrAlreadyExists : Nat := u64Max - 6
def fsErrNotEmpty : Nat := u64Max - 7
def fsErrIsRoot : Nat := u64Max - 8
def fsErrDiskFull : Nat := u64Max - 9
def fsErrIo : Nat := u64Max - 10
def mountAlready : Nat := u64Max - 17
def fsErrReadOnly : Nat := u64Max - 29
def fsErrNotSupported : Nat := u64Max - 31
def fsErrPerm : Nat := u64Max - 32
def fsErrMin : Nat := u64Max - 45

def errorCode : Error → Nat
  | .notFound => fsErrNotFound
  | .notAFile => fsErrNotAFile
  | .notADirectory => fsErrNotADirectory
  | .invalidName => fsErrInvalidName
  | .alreadyExists => fsErrAlreadyExists
  | .directoryNotEmpty => fsErrNotEmpty
  | .cannotRemoveRoot => fsErrIsRoot
  | .diskFull => fsErrDiskFull
  | .readOnly => fsErrReadOnly
  | .unsupported => fsErrNotSupported
  | .invalidOffset | .notMounted | .io => fsErrIo

/-- the `NP_*` verbs. -/
inductive Verb where
  | npReaddir
  | npReadFile
  | npRead
  | npWrite
  | npWriteAt
  | npTouch
  | npMkdir
  | npRmdir
  | npRm
  | npMv
  | npReadAt
  | npWriteFile
  | npStat
  | npChmod
  | npChown
  | npOpen
  | npPread
  | npPwrite
  | npFstat
  | npClunk
  | unknown
deriving DecidableEq, Repr

def npBase : Nat := 0x100
def npLimit : Nat := npBase + 20

def Verb.ofCode (op : Nat) : Verb :=
  if op < npBase then .unknown
  else
    match op - npBase with
    | 0 => .npReaddir
    | 1 => .npReadFile
    | 2 => .npRead
    | 3 => .npWrite
    | 4 => .npWriteAt
    | 5 => .npTouch
    | 6 => .npMkdir
    | 7 => .npRmdir
    | 8 => .npRm
    | 9 => .npMv
    | 10 => .npReadAt
    | 11 => .npWriteFile
    | 12 => .npStat
    | 13 => .npChmod
    | 14 => .npChown
    | 15 => .npOpen
    | 16 => .npPread
    | 17 => .npPwrite
    | 18 => .npFstat
    | 19 => .npClunk
    | _ => .unknown

structure Params where
  p0 : Nat
  p1 : Nat
  p2 : Nat
  p3 : Nat
deriving DecidableEq, Repr

/-! ## Open flags -/

def openRead : Nat := 1
def openWrite : Nat := 2
def openCreate : Nat := 4
def openTrunc : Nat := 8
def openExcl : Nat := 16
def openFlags : Nat := openRead ||| openWrite ||| openCreate ||| openTrunc ||| openExcl
def openDirRefused : Nat := openWrite ||| openTrunc ||| openCreate

def has (flags mask : Nat) : Bool := flags &&& mask ≠ 0

def openChanges (flags : Nat) («exists» : Bool) : Bool :=
  has flags (openWrite ||| openTrunc) || (has flags openCreate && !«exists»)

/-! ## Callers and modes -/

structure Caller where
  uid : Nat
  gid : Nat
  groups : List Nat
deriving DecidableEq, Repr

def permR : Nat := 4
def permW : Nat := 2
def permX : Nat := 1
def permWX : Nat := permW ||| permX

def Caller.inGroup (c : Caller) (ownerGid : Nat) : Bool := c.gid = ownerGid || c.groups.contains ownerGid

def modeAllows (m : FileMode) (who : Caller) (need : Nat) : Bool :=
  if who.uid = 0 then true
  else
    let triad :=
      if who.uid = m.uid then m.mode / 64 % 8
      else if who.inGroup m.gid then m.mode / 8 % 8
      else m.mode % 8
    triad &&& need = need

/-- what a `stat` answer says of a permission; what does not stat, and what has no mode, is allowed. -/
def statAllows (who : Caller) (need : Nat) : Except Error Stat → Bool
  | .ok st => match st.mode with
    | some m => modeAllows m who need
    | none => true
  | .error _ => true

/-- what a `stat` answer tells of the volume's modes. -/
def modesOf : Except Error Stat → Option Bool
  | .ok st => some st.mode.isSome
  | .error _ => none

section Checks
variable {F : Type} (ops : Ops F)

def dirSearchable (dir : Bytes) (who : Caller) : Step F Bool := do
  pure (statAllows who permX (← stat ops dir))

/-- the loop of `ancestors_searchable`. -/
def ancestorsFrom (path : Bytes) (who : Caller) : Nat → Nat → Step F Bool
  | 0, _ => pure true
  | n + 1, i => do
    let c ← Act.lift path[i]?
    if c = slash then
      let dir ← Act.lift (slice? path 0 i)
      if Utf8.valid dir then
        if ← dirSearchable ops dir who then ancestorsFrom path who n (i + 1) else pure false
      else pure true
    else ancestorsFrom path who n (i + 1)

def ancestorsSearchable (path : Bytes) (who : Caller) : Step F Bool := do
  if ← Act.lift (hasDotdot path) then pure false
  else if ← dirSearchable ops root who then ancestorsFrom ops path who (path.length - 1) 1
  else pure false

def pathAllows (path : Bytes) (who : Caller) (need : Nat) : Step F Bool := do
  if ← ancestorsSearchable ops path who then pure (statAllows who need (← stat ops path)) else pure false

/-- `path_allows` of the parent of a path. -/
def parentAllows (path : Bytes) (who : Caller) : Step F Bool := do
  pathAllows ops (← Act.lift (parentOf path)) who permWX

def modelsModesOrUnknown : Step F (Option Bool) := do
  pure (modesOf (← stat ops root))

def modelsModes : Step F Bool := do
  pure ((← modelsModesOrUnknown ops).getD true)

/-! ## What NP_OPEN finds -/

inductive Kind where
  | missing
  | file
  | dir
deriving DecidableEq, Repr

def Kind.exists (k : Kind) : Bool := k ≠ .missing

/-- a path that NP_OPEN names and what `stat` says of it, or the code of its failure. -/
structure Found where
  path : Bytes
  kind : Except Nat Kind

/-- the kind a `stat` answer tells. -/
def kindOf : Except Error Stat → Except Nat Kind
  | .ok st => .ok (if st.isDir then .dir else .file)
  | .error .notFound => .ok .missing
  | .error e => .error (errorCode e)

def found (path : Bytes) : Step F Found := do
  pure ⟨path, kindOf (← stat ops path)⟩

/-! ## The check -/

def readAllowed (who : Caller) (flags : Nat) (path : Bytes) : Step F Bool :=
  if has flags openRead then pathAllows ops path who permR else pure true

def writeAllowed (who : Caller) (flags : Nat) (path : Bytes) (kind : Kind) : Step F Bool :=
  if openChanges flags kind.exists then
    if kind.exists then pathAllows ops path who permW else parentAllows ops path who
  else pure true

def checkOpen (who : Caller) (flags : Nat) (open_ : Found) : Step F Bool :=
  match open_.kind with
  | .error _ => ancestorsSearchable ops open_.path who
  | .ok kind => do
    if ← readAllowed ops who flags open_.path then writeAllowed ops who flags open_.path kind else pure false

def moveAllowed (who : Caller) : Option Bytes → Option Bytes → Step F Bool
  | some src, some dst => do
    if ← parentAllows ops src who then parentAllows ops dst who else pure false
  | _, _ => pure true

def onPath (payload : Bytes) (len : Nat) (check : Bytes → Step F Bool) : Step F Bool := do
  match ← Act.lift (pathFrom payload 0 len) with
  | some path => check path
  | none => pure true

/-- the arms of `check_access`, for a caller who is not root on a volume with modes. -/
def checkVerb (who : Caller) (verb : Verb) (p : Params) (payload : Bytes) (open_ : Option Found) : Step F Bool :=
  match verb with
  | .npStat => onPath payload p.p0 fun path => ancestorsSearchable ops path who
  | .npOpen => match open_ with
    | some f => checkOpen ops who p.p0 f
    | none => pure true
  | .npReaddir | .npReadFile | .npRead | .npReadAt =>
    onPath payload p.p0 fun path => pathAllows ops path who permR
  | .npWrite | .npWriteFile | .npWriteAt => onPath payload p.p0 fun path => do
    match ← stat ops path with
    | .ok _ => pathAllows ops path who permW
    | .error _ => parentAllows ops path who
  | .npTouch | .npMkdir | .npRm | .npRmdir => onPath payload p.p0 fun path => parentAllows ops path who
  | .npMv => do
    -- both paths are taken from the payload before either is looked at
    let src ← Act.lift (pathFrom payload 0 p.p0)
    let dst ← Act.lift (pathFrom payload p.p0 p.p1)
    moveAllowed ops who src dst
  | .npChmod => onPath payload p.p0 fun path => do
    if ← ancestorsSearchable ops path who then
      match ← stat ops path with
      | .ok st => pure (st.mode.all fun m => who.uid = m.uid)
      | .error _ => pure true
    else pure false
  | .npChown => onPath payload p.p0 fun path => do
    if ← ancestorsSearchable ops path who then
      match ← stat ops path with
      | .ok st => pure st.mode.isNone
      | .error _ => pure true
    else pure false
  | .npPread | .npPwrite | .npFstat | .npClunk | .unknown => pure false

def checkAccess (who : Option Caller) (verb : Verb) (p : Params) (payload : Bytes) (open_ : Option Found) :
    Step F Bool :=
  match who with
  | none => pure false
  | some who => do
    if who.uid = 0 then pure true
    else if ← modelsModes ops then checkVerb ops who verb p payload open_
    else pure true

def existsAnswer (who : Option Caller) (p : Params) (payload : Bytes) (known : Nat) : Step F Nat := do
  pure (if ← checkAccess ops who .npStat ⟨p.p1, 0, 0, 0⟩ payload none then known else fsErrPerm)

/-! ## Read-only mounts -/

/-- the NP_OPEN arm of `refused_read_only`, on a mount that refuses changes. -/
def refusedOpen (flags : Nat) (open_ : Option Found) : Step F (Option Nat) :=
  if !openChanges flags false then pure none
  else if openChanges flags true then pure (some fsErrReadOnly)
  else
    match open_ with
    | none => pure (some fsErrReadOnly)
    | some f =>
      match f.kind with
      | .error code => pure (some code)
      | .ok kind =>
        if kind.exists then pure none
        else do
          match ← stat ops (← Act.lift (parentOf f.path)) with
          | .ok st => pure (some (if st.isDir then fsErrReadOnly else fsErrNotADirectory))
          | .error e => pure (some (errorCode e))

def refusedReadOnly (refuses : Bool) (verb : Verb) (p : Params) (open_ : Option Found) : Step F (Option Nat) :=
  match verb with
  | .npReaddir | .npReadFile | .npRead | .npReadAt | .npStat | .npPread | .npFstat | .npClunk => pure none
  | .npOpen => if refuses then refusedOpen ops p.p0 open_ else pure none
  | _ => pure (if refuses then some fsErrReadOnly else none)

end Checks
end Ouroboros.Fsd
