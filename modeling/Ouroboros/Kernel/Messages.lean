import Ouroboros.Kernel.Tables

/-!
# Messages, calls and replies

* `sendMessage`  straight into a receiver that waits for anyone, else into its mailbox;
* `tryRecvMessage`  the oldest queued message;
* `beginCall`, `replyTarget`, `deliverReply`  a call has a number, and a reply must name it;
* `failCallsTo`  the callers of a server that ended;
* `senderIdOf`, `senderTaskOf`, `senderGroupsOf`, `senderCallOf`  what the receiver can ask about the sender of
  the last message.
-/

namespace Ouroboros.Kernel

/-! ## Result codes -/

def fsError : Nat := u64Max
def getIdErr : Nat := u64Max
def taskErrNoSuchTask : Nat := u64Max - 14
def taskErrProtected : Nat := u64Max - 15
def waitInterrupted : Nat := u64Max - 16
def recvInterrupted : Nat := u64Max - 19
def msgErrFull : Nat := u64Max - 20
def msgErrTooBig : Nat := u64Max - 21
def noMsg : Nat := u64Max - 22
def msgErrDenied : Nat := u64Max - 28
def taskErrSelf : Nat := u64Max - 42
def replyStale : Nat := u64Max - 43
def taskKilledStatus : Nat := 0x100

def kernelSender : Nat := 0xFE
def msgQueueDepth : Nat := 4

section Messages
variable {M : Machine}

def Misc.write (m : Misc M) (ptr : Nat) (bytes : List UInt8) : Misc M := m.setMem (writeMem m.dev.mem ptr bytes)

def packReceived (sender len : Nat) : Nat := sender <<< 32 ||| len

/-! ## Sending -/

/-- `cred_of`; the kernel's own sender number is not a slot. -/
def credOf (T : Table) (sender : Nat) : Cred :=
  match Slot.new sender with
  | none => .none
  | some t =>
    { id := (T t).id
      task := (taskIdOf T t).getD 0
      call := 0
      groups := (T t).groups.take maxSuppGroups
      present := true }

/-- the entry of `State.sends` for a message accepted now. -/
def sentNow (T : Table) (sender call : Nat) : Sent :=
  match Slot.new sender with
  | none => ⟨none, .empty, call⟩
  | some t => ⟨some t, T t, call⟩

/-- the receiver after a message was put straight into its buffer. -/
def Task.deliver (t : Task) (x0 : Nat) (cred : Cred) (tag : Nat) : Task :=
  { t with state := .runnable, x0 := x0, cred := cred, received := some tag }

/-- the receiver after a message was queued; a wait for network input ends. -/
def Task.enqueue (t : Task) (msg : Message) : Task :=
  { t with
    mailbox := t.mailbox ++ [msg]
    state := match t.state with
      | .blocked (.netInput _) => .runnable
      | st => st }

def State.logSend (s : State M) (r : Sent) : State M := { s with sends := s.sends ++ [r] }

section logSend
variable (s : State M) (r : Sent)

@[simp] theorem State.logSend_task : (s.logSend r).task = s.task := rfl
@[simp] theorem State.logSend_nextGen : (s.logSend r).nextGen = s.nextGen := rfl
@[simp] theorem State.logSend_top : (s.logSend r).top = s.top := rfl
@[simp] theorem State.logSend_handed : (s.logSend r).handed = s.handed := rfl

end logSend

def sendMessage (s : State M) (sender : Nat) (dest : Slot) (data : List UInt8) (call : Nat) : Nat × State M :=
  let cred := (credOf s.task sender).withCall call
  let tag := s.sends.length
  if msgMaxLen < data.length then (msgErrTooBig, s)
  else match (s.task dest).state with
    | .blocked (.message buf len none) =>
      let bytes := data.take len
      (0, ((s.modify dest fun t => t.deliver (packReceived sender bytes.length) cred tag).setMisc
        (s.misc.write buf bytes)).logSend (sentNow s.task sender call))
    | _ =>
      if msgQueueDepth ≤ (s.task dest).mailbox.length then (msgErrFull, s)
      else (0, (s.modify dest fun t => t.enqueue ⟨sender, data, cred, tag⟩).logSend (sentNow s.task sender call))

def tryRecvMessage (s : State M) (t : Slot) (buf len : Nat) : Option (Nat × State M) :=
  match (s.task t).mailbox with
  | [] => none
  | msg :: rest =>
    let bytes := msg.data.take len
    some (packReceived msg.sender bytes.length,
      (s.modify t fun u => { u with mailbox := rest, cred := msg.cred, received := some msg.tag }).setMisc
        (s.misc.write buf bytes))

/-! ## Calls -/

/-- `begin_call`: the handle, and the state with the call number recorded. -/
def beginCall (s : State M) (t : Slot) : Nat × State M := (pack s.nextCall t,
    { s.modify t fun u => { u with call := s.nextCall } with nextCall := s.nextCall + 1 })

def endCall (s : State M) (t : Slot) : State M := s.modify t fun u => { u with call := 0 }

/-- the slot is blocked in a call to `server`. -/
def TaskState.inCallTo (server : Slot) : TaskState → Bool
  | .blocked (.message _ _ (some f)) => f = server
  | _ => false

def replyTarget (T : Table) (server : Slot) (handle : Nat) : Option Slot :=
  match Slot.new (handle % 256) with
  | none => none
  | some t =>
    if handle / 256 = 0 ∨ (T t).call ≠ handle / 256 then none
    else if (T t).state.inCallTo server then some t else none

/-- the caller after its call was answered with `x0`. -/
def Task.release (t : Task) (x0 : Nat) : Task := { t with state := .runnable, call := 0, x0 := x0 }

def deliverReply (s : State M) (server dest : Slot) (data : List UInt8) : State M :=
  match (s.task dest).state with
  | .blocked (.message buf len (some _)) =>
    let bytes := data.take len
    (s.modify dest fun t => t.release (packReceived server.val bytes.length)).setMisc (s.misc.write buf bytes)
  | _ => s

def failCallsTo (s : State M) (dead : Slot) : State M :=
  { s with task := fun t =>
      if (s.task t).state.inCallTo dead then (s.task t).release taskErrNoSuchTask else s.task t }

/-! ## Who sent it -/

def senderIdOf (T : Table) (t : Slot) : Option Ident :=
  if (T t).cred.present then some (T t).cred.id else none

def senderTaskOf (T : Table) (t : Slot) : Option Nat :=
  if (T t).cred.present ∧ (T t).cred.task ≠ 0 then some (T t).cred.task else none

def senderCallOf (T : Table) (t : Slot) : Option Nat :=
  if (T t).cred.call ≠ 0 then some (T t).cred.call else none

def senderGroupsOf (T : Table) (t : Slot) (cap : Nat) : Option (Nat × List UInt32) :=
  if (T t).cred.present then some ((T t).cred.groups.length, (T t).cred.groups.take cap) else none

/-! ## What each function does -/

variable {s : State M} {t dest server : Slot}

/-- **A message is refused, put into the waiting receiver, or queued.** -/
theorem sendMessage_cases (s : State M) (sender : Nat) (dest : Slot) (data : List UInt8) (call : Nat) :
    ((sendMessage s sender dest data call).1 ≠ 0 ∧ (sendMessage s sender dest data call).2 = s) ∨
    (sendMessage s sender dest data call).1 = 0 ∧
    ((∃ buf len x0 m, (s.task dest).state = .blocked (.message buf len none) ∧
        (sendMessage s sender dest data call).2 =
          ((s.modify dest fun t => t.deliver x0 ((credOf s.task sender).withCall call)
            s.sends.length).setMisc m).logSend (sentNow s.task sender call)) ∨
      ((∀ buf len, (s.task dest).state ≠ .blocked (.message buf len none)) ∧
          (sendMessage s sender dest data call).2 =
          (s.modify dest fun t => t.enqueue ⟨sender, data, (credOf s.task sender).withCall call,
              s.sends.length⟩).logSend
              (sentNow s.task sender call))) := by
  unfold sendMessage
  simp only
  split
  · exact .inl ⟨(by decide : msgErrTooBig ≠ 0), rfl⟩
  split
  · rename_i buf len hst
    exact .inr ⟨rfl, .inl ⟨buf, len, _, _, hst, rfl⟩⟩
  rename_i hst
  split
  · exact .inl ⟨(by decide : msgErrFull ≠ 0), rfl⟩
  · exact .inr ⟨rfl, .inr ⟨hst, rfl⟩⟩

theorem sendMessage_other (sender : Nat) (data : List UInt8) (call : Nat)
    (h : t ≠ dest) : (sendMessage s sender dest data call).2.task t = s.task t := by
  rcases sendMessage_cases s sender dest data call with ⟨-, hs⟩ | ⟨-, ⟨_, _, _, _, -, hs⟩ | ⟨-, hs⟩⟩
  · rw [hs]
  · simp [hs, h]
  · simp [hs, h]

theorem sendMessage_current (s : State M) (sender : Nat) (dest : Slot) (data : List UInt8) (call : Nat) :
    (sendMessage s sender dest data call).2.current = s.current := by
  rcases sendMessage_cases s sender dest data call with ⟨-, hs⟩ | ⟨-, ⟨_, _, _, _, -, hs⟩ | ⟨-, hs⟩⟩
  all_goals exact (congrArg State.current hs :)

theorem tryRecvMessage_eq_some {s' : State M} {buf len v : Nat} (h : tryRecvMessage s t buf len = some (v, s')) :
    ∃ msg rest m, (s.task t).mailbox = msg :: rest ∧ s' = (s.modify t fun u =>
        { u with mailbox := rest, cred := msg.cred, received := some msg.tag }).setMisc m := by
  unfold tryRecvMessage at h
  split at h
  · cases h
  rename_i msg rest hbox
  cases h
  exact ⟨msg, rest, _, hbox, rfl⟩

/-- **A handle has a target exactly when it names the number of the call that slot is blocked in.** -/
theorem replyTarget_eq_some {T : Table} {handle : Nat} : replyTarget T server handle = some t ↔
      (T t).state.inCallTo server ∧ (T t).call ≠ 0 ∧ handle = pack (T t).call t := by
  unfold replyTarget
  constructor
  · intro h
    split at h
    · cases h
    rename_i u hu
    rw [Slot.new_eq_some] at hu
    split at h
    · cases h
    rename_i hc
    split at h
    · rename_i hs
      cases h
      refine ⟨hs, by omega, ?_⟩
      unfold pack
      omega
    · cases h
  · rintro ⟨hs, hc, rfl⟩
    have hnew : Slot.new (pack (T t).call t % 256) = some t := by rw [Slot.new_eq_some, pack_slot]
    rw [hnew]
    simp only [pack_number, hs]
    simp [hc]

theorem inCallTo_eq_true {st : TaskState} :
    st.inCallTo server ↔ ∃ buf len, st = .blocked (.message buf len (some server)) := by
  constructor
  · intro h
    unfold TaskState.inCallTo at h
    split at h
    · rename_i buf len f
      have hf : f = server := by simpa using h
      exact ⟨buf, len, by rw [hf]⟩
    · cases h
  · rintro ⟨buf, len, rfl⟩
    simp [TaskState.inCallTo]

theorem deliverReply_eq {f : Slot} (server : Slot) (data : List UInt8) (h : (s.task dest).state.inCallTo f) :
    ∃ x0 m, deliverReply s server dest data = (s.modify dest fun t => t.release x0).setMisc m := by
  obtain ⟨buf, len, hst⟩ := inCallTo_eq_true.1 h
  unfold deliverReply
  rw [hst]
  exact ⟨_, _, rfl⟩

end Messages

end Ouroboros.Kernel
