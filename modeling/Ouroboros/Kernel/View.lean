import Ouroboros.Kernel.Places

/-!
# What a task can ask about itself

A task's calls about itself are answered from its own part of the tables, while no other task has acted on it.

* `View`, `view`  what the kernel holds about a task that the task's own calls read;
* `View.answer`  the answer to a call of a task about itself, from its view and its memory;
* `own_step`  so the kernel answers.

A task's addresses are taken from the start of its region, so that they do not tell where it lies.
-/

namespace Ouroboros.Kernel

open Relation Transition List Option State Loader

/-! ## A task's own memory -/

structure Addressable (region : Nat × Nat) : Prop where
  pos : 0 < region.1
  bound : region.1 + region.2 < u64Max

/-- an address, from the start of the region; one below the region is past its end. -/
def rel (base ptr : Nat) : Nat := if base ≤ ptr then ptr - base else u64Max

def window (region : Nat × Nat) (mem : Nat → UInt8) : Nat → UInt8 := fun a =>
  if a < region.2 then mem (region.1 + a) else 0

def fits (size ptr len : Nat) : Bool := size != 0 && ptr + max len 1 ≤ size

def fitsIn (bound size ptr len : Nat) : Bool := len != 0 && len ≤ bound && fits size ptr len

section window
variable {region : Nat × Nat} {ptr len : Nat} {mem : Nat → UInt8}

section
variable (h : Addressable region)
include h

theorem fits_rel (ptr len : Nat) : inCallerRegion region ptr len = fits region.2 (rel region.1 ptr) len := by
  have := h.bound
  unfold inCallerRegion fits rel satAdd
  rw [Bool.and_assoc]
  congr 1
  by_cases hle : region.1 ≤ ptr
  · rw [if_pos hle, decide_eq_true hle, Bool.true_and, decide_eq_decide]
    omega
  · rw [if_neg hle, decide_eq_false hle, Bool.false_and, eq_comm, decide_eq_false_iff_not]
    omega

theorem fits_ne_zero (ptr len : Nat) :
    (ptr != 0 && inCallerRegion region ptr len) = inCallerRegion region ptr len := by
  cases hin : inCallerRegion region ptr len with
  | false => exact Bool.and_false _
  | true =>
    have hpos := h.pos
    unfold inCallerRegion at hin
    simp only [Bool.and_eq_true, decide_eq_true_eq] at hin
    rw [Bool.and_true, bne_iff_ne]
    omega

theorem validRange_rel (bound ptr len : Nat) :
    validRange bound region ptr len = fitsIn bound region.2 (rel region.1 ptr) len := by
  unfold validRange fitsIn
  rw [← fits_rel h, ← fits_ne_zero h ptr len]
  cases ptr != 0 <;> simp

theorem validDataRange_rel (ptr len : Nat) :
    validDataRange region ptr len = (decide (len ≤ msgMaxLen) && fits region.2 (rel region.1 ptr) len) := by
  unfold validDataRange
  rw [← fits_rel h, ← fits_ne_zero h ptr len]
  cases ptr != 0 <;> simp

end

variable (h : fits region.2 (rel region.1 ptr) len = true)
include h

theorem fits_bounds (hsize : region.2 < u64Max) : region.1 ≤ ptr ∧ ptr + len ≤ region.1 + region.2 := by
  unfold fits rel at h
  simp only [Bool.and_eq_true, decide_eq_true_eq] at h
  split at h <;> omega

theorem readMem_window (hsize : region.2 < u64Max) :
    readMem mem ptr len = readMem (window region mem) (rel region.1 ptr) len := by
  obtain ⟨hlow, hhigh⟩ := fits_bounds h hsize
  refine map_congr_left fun i hi => ?_
  rw [mem_range] at hi
  unfold window rel
  rw [if_pos hlow, if_pos (by omega)]
  congr 1
  omega

omit h in
theorem writeMem_nil (mem : Nat → UInt8) (ptr : Nat) : writeMem mem ptr [] = mem := by
  funext a
  simp [writeMem]

theorem window_writeMem {bytes : List UInt8} (hsize : region.2 < u64Max) (hlen : bytes.length ≤ len) :
    window region (writeMem mem ptr bytes) = writeMem (window region mem) (rel region.1 ptr) bytes := by
  obtain ⟨hlow, hhigh⟩ := fits_bounds h hsize
  funext a
  unfold window writeMem rel
  rw [if_pos hlow]
  by_cases ha : a < region.2
  · simp only [if_pos ha]
    by_cases hp : ptr ≤ region.1 + a
    · rw [if_pos hp, if_pos (by omega)]
      congr 1
      omega
    · rw [if_neg hp, if_neg (by omega)]
  · simp only [if_neg ha]
    split
    · rw [getD_eq_getElem?_getD, getElem?_eq_none (by omega), getD_none]
    · rfl

end window

/-! ## What a task can ask about itself -/

/-- what the kernel holds about the task in a slot that its own calls read. -/
structure View where
  id : Ident
  saved : Ident
  groups : List UInt32
  cred : Cred
  rights : Slot → Bool
  size : Nat
  kbdRaw : Bool
  argv : List UInt8
  cwd : List UInt8
  env : List UInt8
  ns : List UInt8
  stdoutTarget : Nat
  queued : Bool
  owner : Bool
  doomed : Bool
  awaited : Bool

/-- nobody has sent to it, called it, condemned it, given it the keyboard or a right to itself. -/
structure View.Quiet (v : View) (t : Slot) : Prop where
  queued : v.queued = false
  owner : v.owner = false
  doomed : v.doomed = false
  awaited : v.awaited = false
  own : v.rights t = false

namespace View
variable (v : View) (t : Slot) (w : Nat → UInt8)

def copyOut (ptr cap : Nat) (entry : List UInt8) : Option (Nat × (Nat → UInt8)) :=
  let n := min entry.length cap
  if cap = 0 ∨ fits v.size ptr n = false then none else some (entry.length, writeMem w ptr (entry.take n))

/-- `none` for the name of another task, and for an address. -/
def query : Query → Option (Nat × (Nat → UInt8))
  | .argc => some (argvCount v.argv, w)
  | .arg index ptr cap => some (((argvGet v.argv index).bind (v.copyOut w ptr cap)).getD (noArg, w))
  | .envc => some (argvCount v.env, w)
  | .env index ptr cap => some (((argvGet v.env index).bind (v.copyOut w ptr cap)).getD (noArg, w))
  | .cwd ptr cap => some ((v.copyOut w ptr cap v.cwd).getD (0, w))
  | .ns ptr cap => some ((v.copyOut w ptr cap v.ns).getD (0, w))
  | .taskName task ptr cap =>
    if task = t.val then some (((argvGet v.argv 0).bind (v.copyOut w ptr cap)).getD (0, w)) else none
  | .heapInfo what => if what = 0 ∨ what = 2 then none else some (heapInfo (0, v.size) what, w)

/-- the groups `gids` copied out for `GET_GROUPS` and `SENDER_GROUPS`. -/
def groupsOut (ptr cap : Nat) (gids : List UInt32) : Nat × (Nat → UInt8) :=
  let cap := min cap maxSuppGroups
  if 0 < cap ∧ fits v.size ptr (cap * 4) = false then (getIdErr, w)
  else (gids.length, writeMem w ptr (groupBytes (gids.take cap)))

/-- the answer to a call of the task in slot `t` about itself, while nobody has acted on it: the result,
or none if the task waits, its memory, and its view after.  Other calls have no answer here. -/
def answer (k : Sys) : Option (Option Nat × (Nat → UInt8) × View) :=
  let say := fun r => some (some r, w, v)
  let tell := fun (x : Nat × (Nat → UInt8)) => (some x.1, x.2, v)
  match k with
  | .query q => (v.query t w q).map tell
  | .tryReadChar => say noChar
  | .readChar => some (none, w, v)
  | .kbdMode mode =>
    let base := mode - mode / 0x100 % 2 * 0x100
    let raw := if base = 2 then v.kbdRaw else base == 1
    if 2 < base then say kbdModeBad else some (some (if raw then 1 else 0), w, { v with kbdRaw := raw })
  | .nsSet ptr len =>
    if len = 0 then some (some 0, w, { v with ns := [] })
    else if fitsIn nsMax v.size ptr len = false then say spawnError
    else some (some 0, w, { v with ns := readMem w ptr len })
  | .stdoutTarget => say v.stdoutTarget
  | .self => say t.val
  | .setId uid gid ptr count =>
    let new : Ident := ⟨.ofNat uid, .ofNat gid⟩
    let n := min count maxSuppGroups
    if v.id.uid ≠ 0 ∧ (new ≠ v.saved ∨ 0 < n) ∨ 0 < n ∧ fits v.size ptr (n * 4) = false then say setIdDenied
    else some (some 0, w, { v with groups := groupsAt w ptr n, saved := v.id, id := new })
  | .getId task => if task = t.val then say v.id.pack else none
  | .getGroups task ptr cap => if task = t.val then some (tell (v.groupsOut w ptr cap v.groups)) else none
  | .senderId => say (((if v.cred.present then some v.cred.id else none).map Ident.pack).getD getIdErr)
  | .senderTask => say ((if v.cred.present ∧ v.cred.task ≠ 0 then some v.cred.task else none).getD getIdErr)
  | .senderGroups ptr cap =>
    if v.cred.present then some (tell (v.groupsOut w ptr cap v.cred.groups)) else say getIdErr
  | .senderCall => say ((if v.cred.call ≠ 0 then some v.cred.call else none).getD getIdErr)
  | .taskState task => if task = t.val then say (taskStateCode .runnable) else none
  | .taskExitCode task => if task = t.val then say taskNoExitCode else none
  | .power mode => if mode ≤ 1 then none else say powerBadMode
  | .kill task => if task = t.val then say taskErrSelf else none
  | .wait task => if task = t.val then say taskErrSelf else none
  | .msgSend dest ptr len =>
    if dest ≠ t.val then none
    else say (if (len ≤ msgMaxLen && fits v.size ptr len) = false then fsError else msgErrDenied)
  | .msgRecv ptr len => if fitsIn msgMaxLen v.size ptr len = false then say fsError else some (none, w, v)
  | .msgTryRecv ptr len => say (if fitsIn msgMaxLen v.size ptr len = false then fsError else noMsg)
  | .msgCall dest ptr len reply =>
    if dest ≠ t.val then none
    else say (if (fitsIn msgMaxLen v.size ptr len && fitsIn msgMaxLen v.size reply msgMaxLen) = false
      then fsError
      else taskErrSelf)
  | .msgReply handle ptr len =>
    say (if handle = kernelSender then 0
      else if (len ≤ msgMaxLen && fits v.size ptr len) = false then fsError else replyStale)
  | .netWait _ => say netError
  | .fg task _ => if task = t.val then say taskErrProtected else none
  | .grant grantee ptr len dir =>
    if grantee ≠ t.val then none
    else say (if dir = 0 ∨ 3 < dir ∨ len = 0 ∨ grantMax < len ∨ fits v.size ptr len = false then grantErr else 0)
  | .safecopy .. => say safecopyErr
  | _ => none

end View

/-! ## Calls in a task's own addresses -/

def Query.rel (base : Nat) : Query → Query
  | .arg index ptr cap => .arg index (Kernel.rel base ptr) cap
  | .env index ptr cap => .env index (Kernel.rel base ptr) cap
  | .cwd ptr cap => .cwd (Kernel.rel base ptr) cap
  | .ns ptr cap => .ns (Kernel.rel base ptr) cap
  | .taskName task ptr cap => .taskName task (Kernel.rel base ptr) cap
  | q => q

/-- the calls a task makes about itself, with their pointers taken from the start of its region. -/
def Sys.rel (base : Nat) : Sys → Sys
  | .query q => .query (q.rel base)
  | .nsSet ptr len => .nsSet (Kernel.rel base ptr) len
  | .setId uid gid ptr count => .setId uid gid (Kernel.rel base ptr) count
  | .getGroups task ptr cap => .getGroups task (Kernel.rel base ptr) cap
  | .senderGroups ptr cap => .senderGroups (Kernel.rel base ptr) cap
  | .msgSend dest ptr len => .msgSend dest (Kernel.rel base ptr) len
  | .msgRecv ptr len => .msgRecv (Kernel.rel base ptr) len
  | .msgTryRecv ptr len => .msgTryRecv (Kernel.rel base ptr) len
  | .msgCall dest ptr len reply => .msgCall dest (Kernel.rel base ptr) len (Kernel.rel base reply)
  | .msgReply handle ptr len => .msgReply handle (Kernel.rel base ptr) len
  | .grant grantee ptr len dir => .grant grantee (Kernel.rel base ptr) len dir
  | .safecopy call offset loc len dir => .safecopy call offset (Kernel.rel base loc) len dir
  | k => k

section View
variable {M : Machine} {s s' : State M} {t : Slot}

def view (s : State M) (t : Slot) : View where
  id := (s.task t).id
  saved := (s.task t).saved
  groups := (s.task t).groups
  cred := (s.task t).cred
  rights := holdsSendRight s.task t
  size := (s.task t).region.2
  kbdRaw := (s.misc.aux t).kbdRaw
  argv := (s.misc.aux t).argv
  cwd := (s.misc.aux t).cwd
  env := (s.misc.aux t).env
  ns := (s.misc.aux t).ns
  stdoutTarget := (s.misc.aux t).stdoutTarget
  queued := !(s.task t).mailbox.isEmpty
  owner := s.misc.inputOwner == t
  doomed := killPendingFor s.task s.misc t
  awaited := Slot.all.any fun u => (s.task u).state.inCallTo t

theorem view_size : (view s t).size = (s.task t).region.2 := rfl

/-! ## What leaves a view alone -/

def Task.facts (u : Task) : Ident × Ident × List UInt32 × Cred × (Slot → Bool) × (Nat × Nat) × List Message :=
  (u.id, u.saved, u.groups, u.cred, u.delegated, u.region, u.mailbox)

theorem view_modify {f : Task → Task} (hfacts : (f (s.task t)).facts = (s.task t).facts)
    (hgen : (f (s.task t)).gen = (s.task t).gen)
    (hused : (f (s.task t)).state = .unused ↔ (s.task t).state = .unused)
    (hcall : (f (s.task t)).state.inCallTo t = (s.task t).state.inCallTo t) :
    view (s.modify t f) t = view s t := by
  have hid : taskIdOf (s.modify t f).task t = taskIdOf s.task t := by
    unfold taskIdOf
    simp only [modify_same, hgen, hused]
  have hcalls (u : Slot) : ((s.modify t f).task u).state.inCallTo t = (s.task u).state.inCallTo t :=
    modify_proj u (·.state.inCallTo t) hcall
  simp only [Task.facts, Prod.mk.injEq] at hfacts
  unfold view holdsSendRight killPendingFor occupantIs
  simp only [modify_same, modify_misc, hid, hcalls, hfacts]

theorem view_result_other (s : State M) {i : Slot} (h : t ≠ i) (r : Nat) :
    view (s.modify i fun u => { u with x0 := r }) t = view s t := by
  have hstate (u : Slot) : ((s.modify i fun u => { u with x0 := r }).task u).state = (s.task u).state :=
    modify_proj u _ rfl
  unfold view holdsSendRight killPendingFor occupantIs taskIdOf
  simp only [hstate, modify_other _ _ _ _ h, modify_misc]

theorem view_unmarked {d : Dev} {m : Misc M} (h : Unmarked (s.load d).misc t m) (hq : (view s t).Quiet t) :
    view (s.setMisc m) t = view s t := by
  rcases h with rfl | rfl
  · rfl
  have hdoomed : killPendingFor s.task s.misc t = false := hq.doomed
  have hclear : killPendingFor s.task ((s.load d).misc.modify t fun a => { a with doomed := 0 }) t = false := by
    unfold killPendingFor at hdoomed ⊢
    rw [Bool.or_eq_false_iff] at hdoomed
    rw [Misc.modify_aux_same, Bool.or_eq_false_iff]
    exact ⟨hdoomed.1, rfl⟩
  unfold view
  simp only [setMisc_task, setMisc_misc, hclear, hdoomed, Misc.modify_aux_same]
  rfl

/-! ## One call -/

/-- what the task in slot `t` has got back: nothing while it waits. -/
def heard (s : State M) (t : Slot) : Option Nat :=
  if (s.task t).state = .runnable then some (s.task t).x0 else none

theorem heard_eq_some {r : Nat} : heard s t = some r ↔ (s.task t).state = .runnable ∧ (s.task t).x0 = r := by
  rw [heard, ite_none_right_eq_some, some.injEq]

/-- the task in slot `t` is about to be served on core `c`, and nobody has acted on it. -/
structure Asks (s : State M) (c : Fin M.cores) (t : Slot) : Prop where
  current : s.current c = t
  running : (s.task t).state = .runnable
  spawnable : t.isSpawnable = true
  quiet : (view s t).Quiet t
  region : Addressable (s.task t).region

structure Answered (s s' : State M) (t : Slot) (a : Option Nat × (Nat → UInt8) × View) : Prop where
  result : heard s' t = a.1
  mem : window (s.task t).region s'.misc.dev.mem = a.2.1
  view : view s' t = a.2.2
  region : (s'.task t).region = (s.task t).region

section call
variable {c : Fin M.cores} {u : State M} {r : Nat}

variable (hs : Asks s c t)
include hs

theorem Asks.ret (h : (Outcome.ret u r).finish c = some s') (hu : u.current c = t)
    (hrun : (u.task t).state = (s.task t).state) (hregion : (u.task t).region = (s.task t).region) :
    Answered s s' t (some r, window (s.task t).region u.misc.dev.mem, Kernel.view u t) := by
  have heq : s' = u.modify t fun u => { u with x0 := r } := by
    rw [← hu]
    exact (some.inj h).symm
  subst heq
  refine ⟨?_, rfl, view_modify rfl rfl Iff.rfl rfl, ?_⟩
  · unfold heard
    rw [modify_same, hrun, hs.running]
    rfl
  · rw [modify_same]
    exact hregion

theorem Asks.same (h : (Outcome.ret s r).finish c = some s') :
    Answered s s' t (some r, window (s.task t).region s.misc.dev.mem, Kernel.view s t) :=
  hs.ret h hs.current rfl rfl

theorem Asks.said {p : Prop} [Decidable p] {r' : Nat}
    (h : (Outcome.ofPair (if p then (r, s) else (r', s))).finish c = some s') :
    Answered s s' t (some (if p then r else r'), window (s.task t).region s.misc.dev.mem, Kernel.view s t) := by
  split at h
  · rename_i hp
    rw [if_pos hp]
    exact hs.same h
  rename_i hp
  rw [if_neg hp]
  exact hs.same h

theorem Asks.waits {m : Misc M} {reason : WaitReason} {prefer : Option Slot}
    (h : (Outcome.ofSwitch (blockCurrent (s.setMisc m) c reason prefer)).finish c = some s')
    (hm : Kernel.view (s.setMisc m) t = Kernel.view s t) (hmem : m.dev.mem = s.misc.dev.mem)
    (hreason : (TaskState.blocked reason).inCallTo t = false) :
    Answered s s' t (none, window (s.task t).region s.misc.dev.mem, Kernel.view s t) := by
  cases hb : blockCurrent (s.setMisc m) c reason prefer with
  | none =>
    rw [hb] at h
    cases h
  | some u =>
    rw [hb] at h
    cases h
    obtain ⟨next, -, rfl⟩ := blockCurrent_eq_some hb
    rw [setMisc_current, hs.current]
    refine ⟨?_, ?_, ?_, ?_⟩
    · unfold heard
      rw [setCurrent_task, modify_same]
      rfl
    · rw [setCurrent_misc, modify_misc, setMisc_misc, hmem]
    · rw [← hm]
      refine view_modify (s := s.setMisc m) (f := fun u => { u with state := .blocked reason }) rfl rfl ?_ ?_
      · simp [hs.running]
      · rw [hreason, setMisc_task, hs.running]
        rfl
    · rw [setCurrent_task, modify_same]
      rfl

/-! ### Tables copied out -/

/-- a call that only writes to the task's memory, and what it writes there. -/
def Copied (s : State M) (t : Slot) (x : Nat × State M) (y : Nat × (Nat → UInt8)) : Prop :=
  x.1 = y.1 ∧ ∃ mem, x.2 = s.setMisc (s.misc.setMem mem) ∧ window (s.task t).region mem = y.2

omit hs in
theorem Copied.nothing (r : Nat) : Copied s t (r, s) (r, window (s.task t).region s.misc.dev.mem) :=
  ⟨rfl, _, rfl, rfl⟩

theorem Copied.answered {x : Nat × State M} {y : Nat × (Nat → UInt8)} (hx : Copied s t x y)
    (h : (Outcome.ofPair x).finish c = some s') : Answered s s' t (some y.1, y.2, Kernel.view s t) := by
  obtain ⟨r, u⟩ := x
  obtain ⟨hr, mem, hu, hmem⟩ := hx
  subst hr hu
  rw [← hmem]
  exact hs.ret h hs.current rfl rfl

omit hs in
theorem Addressable.size_lt {region : Nat × Nat} (h : Addressable region) : region.2 < u64Max :=
  lt_of_le_of_lt (Nat.le_add_left _ _) h.bound

theorem Copied.entry (ptr cap : Nat) (entry : Option (List UInt8)) (r : Nat) :
    Copied s t ((entry.bind (copyOut s t ptr cap)).getD (r, s))
      ((entry.bind ((Kernel.view s t).copyOut (window (s.task t).region s.misc.dev.mem)
        (rel (s.task t).region.1 ptr) cap)).getD (r, window (s.task t).region s.misc.dev.mem)) := by
  cases entry with
  | none => exact .nothing r
  | some entry =>
    rw [bind_some, bind_some]
    unfold copyOut View.copyOut
    have hfits := fits_rel hs.region ptr (min entry.length cap)
    rw [← view_size] at hfits
    simp only [← hfits]
    cases hin : inCallerRegion (s.task t).region ptr (min entry.length cap) with
    | false =>
      simp only [or_true, if_true]
      exact .nothing r
    | true =>
      rw [hfits] at hin
      have hne : ptr ≠ 0 := by
        have hlow := (fits_bounds hin hs.region.size_lt).1
        have hpos := hs.region.pos
        omega
      simp only [hne, false_or, Bool.true_eq_false, or_false]
      split
      · exact .nothing r
      · refine ⟨rfl, _, rfl, ?_⟩
        exact window_writeMem hin hs.region.size_lt (by simp)

omit hs in
theorem groupBytes_length (gids : List UInt32) : (groupBytes gids).length = gids.length * 4 := by
  induction gids with
  | nil => rfl
  | cons g gids ih =>
    unfold groupBytes at ih ⊢
    rw [flatMap_cons, length_append, ih, length_cons]
    unfold u32le
    simp only [length_cons, length_nil]
    omega

theorem groups_range (ptr n : Nat) (hn : n ≤ maxSuppGroups) :
    (0 < n ∧ validUserRange (s.task t).region ptr (n * 4) = false) ↔
      0 < n ∧ fits (view s t).size (rel (s.task t).region.1 ptr) (n * 4) = false := by
  refine and_congr_right fun hpos => ?_
  unfold validUserRange
  rw [validRange_rel hs.region]
  unfold fitsIn
  have hlen : (n * 4 != 0) := by
    rw [bne_iff_ne]
    omega
  have hbound : n * 4 ≤ maxUserLen := by
    unfold maxSuppGroups at hn
    unfold maxUserLen
    omega
  rw [hlen, decide_eq_true hbound, Bool.true_and, Bool.true_and, view_size]

theorem Copied.groups (ptr cap : Nat) (gids : List UInt32) : Copied s t
      (if 0 < min cap maxSuppGroups ∧
        validUserRange (s.task t).region ptr (min cap maxSuppGroups * 4) = false then
        (getIdErr, s)
      else (gids.length, s.setMisc (s.misc.write ptr (groupBytes (gids.take (min cap maxSuppGroups))))))
      ((Kernel.view s t).groupsOut (window (s.task t).region s.misc.dev.mem) (rel (s.task t).region.1 ptr) cap
        gids) := by
  have hrange := groups_range hs ptr (min cap maxSuppGroups) (Nat.min_le_right _ _)
  unfold View.groupsOut
  split
  · rename_i hbad
    rw [if_pos (hrange.1 hbad)]
    exact .nothing getIdErr
  rename_i hok
  rw [if_neg fun h => hok (hrange.2 h)]
  refine ⟨rfl, _, rfl, ?_⟩
  rw [hrange, not_and, Bool.not_eq_false] at hok
  rcases Nat.eq_zero_or_pos (min cap maxSuppGroups) with hz | hpos
  · rw [hz, take_zero]
    exact (congrArg _ (writeMem_nil _ _)).trans (writeMem_nil _ _).symm
  refine window_writeMem (hok hpos) hs.region.size_lt ?_
  rw [groupBytes_length, length_take]
  exact Nat.mul_le_mul_right 4 (Nat.min_le_left _ _)

/-! ### The calls one by one -/

theorem Asks.live : liveIndex s.task t.val = some t := by
  rw [liveIndex_eq_some, hs.running]
  exact ⟨rfl, rfl⟩

theorem Asks.inRegion (ptr len : Nat) :
    inCallerRegion (s.task t).region ptr len = fits (view s t).size (rel (s.task t).region.1 ptr) len :=
  fits_rel hs.region ptr len

theorem Asks.inRange (bound ptr len : Nat) :
    validRange bound (s.task t).region ptr len = fitsIn bound (view s t).size
      (rel (s.task t).region.1 ptr) len :=
  validRange_rel hs.region bound ptr len

theorem Asks.inData (ptr len : Nat) : validDataRange (s.task t).region ptr len =
      (decide (len ≤ msgMaxLen) && fits (view s t).size (rel (s.task t).region.1 ptr) len) :=
  validDataRange_rel hs.region ptr len

theorem Asks.not_reads : mayRead s.task s.misc t = false := by
  have howner : (s.misc.inputOwner == t) = false := hs.quiet.owner
  unfold mayRead
  rw [beq_eq_false_iff_ne] at howner
  rw [beq_eq_false_iff_ne.2 howner.symm, Bool.false_and]

theorem Asks.no_key : pollKeyboardByte s.task s.misc t = (none, s.misc) := by
  unfold pollKeyboardByte keyboardKeyWaiting
  rw [hs.not_reads]
  rfl

theorem Asks.no_message : (s.task t).mailbox = [] := by
  have hqueued : (!(s.task t).mailbox.isEmpty) = false := hs.quiet.queued
  simpa using hqueued

theorem Asks.no_caller (handle : Nat) : replyTarget s.task t handle = none := by
  cases hr : replyTarget s.task t handle with
  | none => rfl
  | some f =>
    have hcall := (replyTarget_eq_some.1 hr).1
    have hnone : (Slot.all.any fun u => (s.task u).state.inCallTo t) = false := hs.quiet.awaited
    rw [List.any_eq_false] at hnone
    exact absurd hcall (hnone f (mem_finRange f))

theorem Asks.unsupervised : isSupervised M t = false := by
  cases hsup : isSupervised M t with
  | false => rfl
  | true =>
    have hnot := isSupervised_spawnable hsup
    rw [hs.spawnable] at hnot
    cases hnot

omit hs in
theorem heapInfo_size {what : Nat} (h : ¬ (what = 0 ∨ what = 2)) (region : Nat × Nat) :
    heapInfo region what = heapInfo (0, region.2) what := by
  have htail : ∀ (f : Loader.Tail → Nat), (∀ heap guard stack heap' guard' stack',
        f ⟨(heap, heapPages * pageSize), guard, (stack, stackPages * pageSize)⟩ =
        f ⟨(heap', heapPages * pageSize), guard', (stack', stackPages * pageSize)⟩) →
      (tail region.1 region.2).map f = (tail 0 region.2).map f := by
    intro f hf
    unfold Loader.tail
    by_cases hsmall : region.2 < Loader.tailPages * Loader.pageSize
    · simp only [if_pos hsmall]
    · simp only [if_neg hsmall, map_some]
      rw [hf]
  unfold heapInfo
  split
  · exact absurd (.inl rfl) h
  · rw [htail _ (fun _ _ _ _ _ _ => rfl)]
  · exact absurd (.inr rfl) h
  · rw [htail _ (fun _ _ _ _ _ _ => rfl)]
  · rfl
  · rfl

def ownAnswer (s : State M) (t : Slot) : Sys → Option (Option Nat × (Nat → UInt8) × View) :=
  (Kernel.view s t).answer t (window (s.task t).region s.misc.dev.mem)

variable {a : Option Nat × (Nat → UInt8) × View} {ptr len : Nat} {dest : Nat}

theorem query_answered {q : Query} (ha : ownAnswer s t (.query (q.rel (s.task t).region.1)) = some a)
    (h : (Outcome.ofPair (querySyscall s t q)).finish c = some s') : Answered s s' t a := by
  unfold ownAnswer View.answer at ha
  simp only [map_eq_some_iff] at ha
  obtain ⟨y, hy, rfl⟩ := ha
  refine Copied.answered hs ?_ h
  cases q with
  | argc | envc =>
    cases hy
    exact .nothing _
  | arg index ptr cap =>
    cases hy
    exact .entry hs ptr cap (argvGet (s.misc.aux t).argv index) noArg
  | env index ptr cap =>
    cases hy
    exact .entry hs ptr cap (argvGet (s.misc.aux t).env index) noArg
  | cwd ptr cap =>
    cases hy
    exact .entry hs ptr cap (some (s.misc.aux t).cwd) 0
  | ns ptr cap =>
    cases hy
    exact .entry hs ptr cap (some (s.misc.aux t).ns) 0
  | taskName task ptr cap =>
    simp only [Query.rel, View.query] at hy
    split at hy
    · rename_i htask
      cases hy
      subst htask
      simp only [querySyscall]
      rw [Slot.new_eq_some.2 rfl, bind_some]
      exact .entry hs ptr cap (argvGet (s.misc.aux t).argv 0) 0
    · cases hy
  | heapInfo what =>
    simp only [Query.rel, View.query] at hy
    split at hy
    · cases hy
    rename_i hwhat
    cases hy
    simp only [querySyscall]
    rw [heapInfo_size hwhat]
    exact .nothing _

omit hs in
theorem view_modify_aux (f : Aux → Aux) (hdoomed : (f (s.misc.aux t)).doomed = (s.misc.aux t).doomed) :
    let a := f (s.misc.aux t)
    Kernel.view (s.setMisc (s.misc.modify t f)) t =
      { Kernel.view s t with
        kbdRaw := a.kbdRaw, argv := a.argv, cwd := a.cwd, env := a.env, ns := a.ns,
            stdoutTarget := a.stdoutTarget } := by
  unfold Kernel.view killPendingFor
  simp only [setMisc_task, setMisc_misc, Misc.modify_aux_same, hdoomed]
  rfl

theorem kbdMode_answered {mode : Nat} (ha : ownAnswer s t (.kbdMode mode) = some a)
    (h : (dispatch s c (.kbdMode mode)).finish c = some s') : Answered s s' t a := by
  unfold ownAnswer View.answer at ha
  simp only at ha
  simp only [dispatch, hs.current, kbdModeSyscall, keyboardFlushInput, hs.not_reads, Bool.false_eq_true,
    if_false, ite_self] at h
  split at ha
  · rename_i hbad
    cases ha
    rw [if_pos hbad] at h
    exact hs.same h
  rename_i hbase
  rw [if_neg hbase] at h
  cases ha
  by_cases hquery : mode - mode / 0x100 % 2 * 0x100 = 2
  · simp only [if_pos hquery] at h ⊢
    exact hs.same h
  simp only [if_neg hquery] at h ⊢
  rw [Misc.modify_aux_same] at h
  have hset := hs.ret h hs.current rfl rfl
  rwa [view_modify_aux _ rfl] at hset

theorem nsSet_answered (ha : ownAnswer s t (.nsSet (rel (s.task t).region.1 ptr) len) = some a)
    (h : (dispatch s c (.nsSet ptr len)).finish c = some s') : Answered s s' t a := by
  unfold ownAnswer View.answer at ha
  simp only at ha
  simp only [dispatch, hs.current, nsSetSyscall, hs.inRange, Bool.not_eq_true'] at h
  split at ha
  · rename_i hzero
    cases ha
    rw [if_pos hzero] at h
    have hset := hs.ret h hs.current rfl rfl
    rwa [view_modify_aux _ rfl] at hset
  rename_i hzero
  rw [if_neg hzero] at h
  split at ha
  · rename_i hbad
    cases ha
    rw [if_pos hbad] at h
    exact hs.same h
  · rename_i hok
    cases ha
    rw [if_neg hok] at h
    rw [Bool.not_eq_false, fitsIn, Bool.and_eq_true] at hok
    have hset := hs.ret h hs.current rfl rfl
    rwa [view_modify_aux _ rfl, readMem_window hok.2 hs.region.size_lt] at hset

theorem groupsAt_window {n : Nat}
    (h : ¬ (0 < n ∧ fits (view s t).size (rel (s.task t).region.1 ptr) (n * 4) = false)) :
    groupsAt s.misc.dev.mem ptr n = groupsAt (window (s.task t).region s.misc.dev.mem)
      (rel (s.task t).region.1 ptr) n := by
  rcases Nat.eq_zero_or_pos n with rfl | hpos
  · rfl
  have hfits : fits (view s t).size (rel (s.task t).region.1 ptr) (n * 4) := by
    rw [← Bool.not_eq_false]
    exact fun hbad => h ⟨hpos, hbad⟩
  obtain ⟨hlow, hhigh⟩ := fits_bounds hfits hs.region.size_lt
  refine map_congr_left fun i hi => ?_
  rw [mem_range] at hi
  have hbyte : ∀ k < 4, s.misc.dev.mem (ptr + i * 4 + k) =
      window (s.task t).region s.misc.dev.mem (rel (s.task t).region.1 ptr + i * 4 + k) := by
    intro k hk
    unfold window rel
    rw [if_pos hlow, if_pos (by omega)]
    congr 1
    omega
  simp only [hbyte 0 (by decide), hbyte 1 (by decide), hbyte 2 (by decide), hbyte 3 (by decide)]

omit hs in
theorem setId_view (s : State M) (t : Slot) (gids : List UInt32) (new : Ident) :
    Kernel.view (applyId (setGroups s t gids) t new) t =
      { Kernel.view s t with groups := gids.take maxSuppGroups, saved := (s.task t).id, id := new } := by
  have hstate (u : Slot) : ((applyId (setGroups s t gids) t new).task u).state = (s.task u).state :=
    (modify_proj u _ rfl).trans (modify_proj u _ rfl)
  unfold Kernel.view holdsSendRight killPendingFor occupantIs taskIdOf
  simp only [hstate]
  simp only [applyId, setGroups, modify_same, modify_misc]

theorem setId_answered {uid gid count : Nat}
    (ha : ownAnswer s t (.setId uid gid (rel (s.task t).region.1 ptr) count) = some a)
    (h : (dispatch s c (.setId uid gid ptr count)).finish c = some s') : Answered s s' t a := by
  have hrange := groups_range hs ptr (min count maxSuppGroups) (Nat.min_le_right _ _)
  have hid : (view s t).id = (s.task t).id := rfl
  have hsaved : (view s t).saved = (s.task t).saved := rfl
  unfold ownAnswer View.answer at ha
  simp only [hid, hsaved] at ha
  simp only [dispatch, hs.current, setIdSyscall, hrange] at h
  split at ha
  · rename_i hbad
    cases ha
    have hdenied : (Outcome.ret s setIdDenied).finish c = some s' := by
      rcases hbad with ⟨huid, hnew | hn⟩ | hfits
      · rw [if_pos ⟨huid, hnew⟩] at h
        exact h
      · rw [if_pos (c := _ ∧ 0 < _) ⟨huid, hn⟩, ite_self] at h
        exact h
      · rw [if_pos (c := 0 < _ ∧ _) hfits, ite_self, ite_self] at h
        exact h
    exact hs.same hdenied
  · rename_i hok
    cases ha
    rw [not_or, not_and, not_or] at hok
    rw [if_neg fun hn => (hok.1 hn.1).1 hn.2, if_neg fun hn => (hok.1 hn.1).2 hn.2, if_neg hok.2] at h
    have hgroups : (groupsAt s.misc.dev.mem ptr (min count maxSuppGroups)).take maxSuppGroups =
        groupsAt (window (s.task t).region s.misc.dev.mem) (rel (s.task t).region.1 ptr)
            (min count maxSuppGroups) := by
      rw [← groupsAt_window hs hok.2]
      refine take_of_length_le ?_
      unfold groupsAt
      rw [length_map, length_range]
      exact Nat.min_le_right _ _
    have hset := hs.ret h hs.current (by simp [applyId, setGroups]) (by simp [applyId, setGroups])
    rw [setId_view, hgroups] at hset
    exact hset

theorem msgRecv_answered (ha : ownAnswer s t (.msgRecv (rel (s.task t).region.1 ptr) len) = some a)
    (h : (msgRecv s c ptr len).finish c = some s') : Answered s s' t a := by
  unfold ownAnswer View.answer at ha
  simp only at ha
  unfold msgRecv validMsgRange at h
  simp only [hs.current, hs.inRange, Bool.not_eq_true'] at h
  split at ha
  · rename_i hbad
    cases ha
    rw [if_pos hbad] at h
    exact hs.same h
  · rename_i hok
    cases ha
    rw [if_neg hok] at h
    have hidle : noteProgress s.misc t = s.misc := by
      unfold noteProgress
      rw [hs.unsupervised]
      rfl
    have hempty : tryRecvMessage (s.setMisc (noteProgress s.misc t)) t ptr len = none := by
      unfold tryRecvMessage
      rw [setMisc_task, hs.no_message]
    rw [hempty] at h
    exact hs.waits h (by rw [hidle]; rfl) (by rw [hidle]) rfl

theorem msgReply_answered {handle : Nat}
    (ha : ownAnswer s t (.msgReply handle (rel (s.task t).region.1 ptr) len) = some a)
    (h : (dispatch s c (.msgReply handle ptr len)).finish c = some s') : Answered s s' t a := by
  unfold ownAnswer View.answer at ha
  simp only [some.injEq] at ha
  subst ha
  simp only [dispatch, hs.current, msgReply, hs.inData, hs.no_caller, Bool.not_eq_true'] at h
  split
  · rename_i hping
    have hack : noteAck s.misc t = s.misc := by
      unfold noteAck
      rw [hs.unsupervised]
      rfl
    rw [if_pos hping, hack] at h
    exact hs.same h
  rename_i hping
  rw [if_neg hping] at h
  exact hs.said h

theorem grant_answered {grantee dir : Nat}
    (ha : ownAnswer s t (.grant grantee (rel (s.task t).region.1 ptr) len dir) = some a)
    (h : (dispatch s c (.grant grantee ptr len dir)).finish c = some s') : Answered s s' t a := by
  obtain ⟨hown, hsay⟩ := ite_none_left_eq_some.1 ha
  obtain rfl := not_not.1 hown
  cases hsay
  simp only [dispatch, hs.current, grantSyscall, hs.inRegion, hs.live] at h
  split
  · rename_i hbad
    rw [if_pos hbad] at h
    exact hs.same h
  rename_i hok
  rw [if_neg hok] at h
  have hset := hs.ret h hs.current rfl rfl
  rwa [view_modify_aux _ rfl] at hset

theorem senderGroups_answered {cap : Nat}
    (ha : ownAnswer s t (.senderGroups (rel (s.task t).region.1 ptr) cap) = some a)
    (h : (dispatch s c (.senderGroups ptr cap)).finish c = some s') : Answered s s' t a := by
  have hcred : (view s t).cred = (s.task t).cred := rfl
  unfold ownAnswer View.answer at ha
  simp only [hcred] at ha
  simp only [dispatch, hs.current, senderGroupsSyscall, senderGroupsOf] at h
  split at ha <;> rename_i hpresent
  · cases ha
    simp only [if_pos hpresent] at h
    exact (Copied.groups hs ptr cap (s.task t).cred.groups).answered hs h
  cases ha
  simp only [if_neg hpresent, ite_self] at h
  exact hs.same h

theorem msgSend_answered (ha : ownAnswer s t (.msgSend dest (rel (s.task t).region.1 ptr) len) = some a)
    (h : (dispatch s c (.msgSend dest ptr len)).finish c = some s') : Answered s s' t a := by
  obtain ⟨hown, hsay⟩ := ite_none_left_eq_some.1 ha
  obtain rfl := not_not.1 hown
  cases hsay
  have hright : maySend s.task t t.val = false := by
    unfold maySend
    rw [Slot.new_eq_some.2 rfl]
    exact hs.quiet.own
  simp only [dispatch, hs.current, msgSend, hs.inData, hs.live, hright, if_true, Bool.not_eq_true'] at h
  exact hs.said h

theorem msgCall_answered {reply : Nat}
    (ha : ownAnswer s t
      (.msgCall dest (rel (s.task t).region.1 ptr) len (rel (s.task t).region.1 reply)) = some a)
    (h : (msgCall s c dest ptr len reply).finish c = some s') : Answered s s' t a := by
  obtain ⟨hown, hsay⟩ := ite_none_left_eq_some.1 ha
  obtain rfl := not_not.1 hown
  cases hsay
  unfold msgCall validMsgRange at h
  simp only [hs.current, hs.inRange, hs.live, if_true, ← Bool.not_and, Bool.not_eq_true'] at h
  split <;> rename_i hrange
  · rw [if_pos hrange] at h
    exact hs.same h
  · rw [if_neg hrange] at h
    exact hs.same h

omit hs in
theorem no_net (h : t.isSpawnable) : capHas t capNet = false := by
  revert t
  decide

/-- **The kernel answers a task's calls about itself from its view.** -/
theorem own_call {k : Sys} (ha : ownAnswer s t (k.rel (s.task t).region.1) = some a)
    (h : (dispatch s c k).finish c = some s') : Answered s s' t a := by
  have hnew : Slot.new t.val = some t := Slot.new_eq_some.2 rfl
  have hocc : (s.task t).state.isOccupied := by
    rw [hs.running]
    rfl
  cases k with
  | query q =>
    simp only [dispatch, hs.current] at h
    exact query_answered hs ha h
  | kbdMode mode => exact kbdMode_answered hs ha h
  | nsSet ptr len => exact nsSet_answered hs ha h
  | setId uid gid ptr count => exact setId_answered hs ha h
  | msgRecv ptr len => exact msgRecv_answered hs ha h
  | msgReply handle ptr len => exact msgReply_answered hs ha h
  | grant grantee ptr len dir => exact grant_answered hs ha h
  | tryReadChar =>
    cases ha
    simp only [dispatch, hs.current, hs.no_key] at h
    exact hs.same h
  | readChar =>
    cases ha
    simp only [dispatch, hs.current, hs.no_key] at h
    exact hs.waits h rfl rfl rfl
  | stdoutTarget | self | senderId | senderTask | senderCall =>
    cases ha
    simp only [dispatch, hs.current] at h
    exact hs.same h
  | senderGroups ptr cap => exact senderGroups_answered hs ha h
  | getId task =>
    obtain ⟨rfl, hsay⟩ := ite_none_right_eq_some.1 ha
    cases hsay
    simp only [dispatch, hs.live] at h
    exact hs.same h
  | getGroups task ptr cap =>
    obtain ⟨rfl, hsay⟩ := ite_none_right_eq_some.1 ha
    cases hsay
    simp only [dispatch, hs.current, getGroupsSyscall, hs.live] at h
    exact (Copied.groups hs ptr cap (s.task t).groups).answered hs h
  | taskState task | taskExitCode task =>
    obtain ⟨rfl, hsay⟩ := ite_none_right_eq_some.1 ha
    cases hsay
    simp only [dispatch, hnew, map_some, hs.running] at h
    exact hs.same h
  | power mode =>
    simp only [ownAnswer, Sys.rel, View.answer] at ha
    split at ha
    · cases ha
    rename_i hmode
    cases ha
    simp only [dispatch, if_neg hmode] at h
    exact hs.same h
  | kill task =>
    obtain ⟨rfl, hsay⟩ := ite_none_right_eq_some.1 ha
    cases hsay
    simp only [dispatch, killSyscall, hnew, hs.spawnable, hocc, hs.current, Bool.true_eq_false,
      if_false, if_true] at h
    exact hs.same h
  | wait task =>
    obtain ⟨rfl, hsay⟩ := ite_none_right_eq_some.1 ha
    cases hsay
    simp only [dispatch, waitSyscall, hnew, hs.spawnable, hs.current, Bool.true_eq_false, if_false, if_true] at h
    exact hs.same h
  | msgSend dest ptr len => exact msgSend_answered hs ha h
  | msgTryRecv ptr len =>
    cases ha
    simp only [dispatch, hs.current, msgTryRecv, validMsgRange, hs.inRange, tryRecvMessage, hs.no_message,
      getD_none, Bool.not_eq_true'] at h
    exact hs.said h
  | msgCall dest ptr len reply => exact msgCall_answered hs ha h
  | netWait ms =>
    cases ha
    simp only [dispatch, netWaitSyscall, hs.current, no_net hs.spawnable, if_true] at h
    exact hs.same h
  | fg task foreground =>
    obtain ⟨rfl, hsay⟩ := ite_none_right_eq_some.1 ha
    cases hsay
    have howner : t ≠ s.misc.inputOwner := by
      have hnot : (s.misc.inputOwner == t) = false := hs.quiet.owner
      rw [beq_eq_false_iff_ne] at hnot
      exact hnot.symm
    simp only [dispatch, fgSyscall, hnew, hs.spawnable, hocc, hs.current, Bool.true_eq_false,
      and_false, if_false,
      if_pos howner] at h
    exact hs.same h
  | safecopy call offset loc len dir =>
    cases ha
    simp only [dispatch, hs.current, safecopySyscall, safecopy, hs.no_caller, ite_self] at h
    exact hs.same h
  | _ => cases ha

omit hs in
theorem endIfDoomed_quiet (hq : (Kernel.view s t).Quiet t) (hcur : s.current c = t) (d : Dev) :
    ∃ m, Unmarked (s.load d).misc t m ∧ endIfDoomed (s.load d) c = some (false, s.setMisc m) := by
  have hdoomed : killPendingFor s.task s.misc t = false := hq.doomed
  unfold endIfDoomed
  simp only
  have hcur' : (s.load d).current c = t := hcur
  rw [hcur']
  split
  · exact ⟨_, .inl rfl, rfl⟩
  rename_i hmark
  split
  · exact ⟨_, .inr rfl, rfl⟩
  rename_i hown
  rw [not_or, not_not] at hown
  unfold killPendingFor at hdoomed
  rw [Bool.or_eq_false_iff] at hdoomed
  obtain ⟨-, hclear⟩ := hdoomed
  have hmark' : ((s.misc.aux t).doomed != 0) := bne_iff_ne.2 hmark
  have howns : occupantIs s.task t (s.misc.aux t).doomed := by
    unfold occupantIs
    rw [beq_iff_eq]
    exact hown.2
  rw [hmark', howns] at hclear
  cases hclear

omit hs in
/-- **A system call of a task about itself, from its view before to its view after.** -/
theorem own_step (hs : Steady s) (hq : (Kernel.view s t).Quiet t) (ht : t.isSpawnable)
    (hregion : Addressable (s.task t).region) (hcur : s.current c = t) {d : Dev} {k : Sys}
    (hst : Step s (.syscall c d k) s')
    (ha : (Kernel.view s t).answer t (window (s.task t).region d.mem) (k.rel (s.task t).region.1) = some a) :
    Answered s s' t a := by
  obtain ⟨m, hm, hend⟩ := endIfDoomed_quiet hq hcur d
  have hview := view_unmarked hm hq
  have hmem : m.dev.mem = d.mem := congrArg Dev.mem hm.dev
  have hasks : Asks (s.setMisc m) c t := ⟨hcur, hcur ▸ hs.current c, ht, hview ▸ hq, hregion⟩
  unfold Step step at hst
  simp only at hst
  split at hst
  · cases hst
  unfold trapEntry at hst
  rw [hend, bind_some] at hst
  have hdone := own_call (a := a) hasks (by rw [ownAnswer, hview, setMisc_misc, hmem]; exact ha) hst
  exact ⟨hdone.result, hdone.mem, hdone.view, hdone.region⟩

end call

end View

end Ouroboros.Kernel
