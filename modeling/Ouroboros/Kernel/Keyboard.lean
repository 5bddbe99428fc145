import Ouroboros.Kernel.Tables

/-!
# The keyboard and its owner

The keyboard has one owner, the task in the foreground; `PREVIOUS_OWNERS` remembers who it goes back
to.  Ctrl+C and Ctrl+\ are looked at when a byte is taken from a device: they end the foreground
command, take the keyboard back, or interrupt the boot shell's wait.

Nothing here writes a `Task`: every function reads the task table and returns a new `Misc`.
-/

namespace Ouroboros.Kernel

section Keyboard
variable {M : Machine} {T : Table} {m m' : Misc M} {byte : UInt8}

def keyInterrupt : UInt8 := 0x03
def keyQuit : UInt8 := 0x1c

def killPendingFor (T : Table) (m : Misc M) (t : Slot) : Bool :=
  (m.pendingKill != 0 && occupantIs T t m.pendingKill)
    || ((m.aux t).doomed != 0 && occupantIs T t (m.aux t).doomed)

/-! ## Ownership -/

def keyboardOwnerChanged (m : Misc M) : Misc M :=
  { m with queue := M.trimCutKey m.queue m.ticks }

/-- the chain of previous owners from `link` down to `owner`, if `owner` is on it. -/
def walkOwners (T : Table) (m : Misc M) (owner : Slot) : Nat → List Slot → Slot → Option (List Slot)
  | 0, _, _ => none
  | fuel + 1, walked, link =>
    match liveOccupant T (m.aux link).previousOwner with
    | none => none
    | some below =>
      if below = owner then some (link :: walked) else walkOwners T m owner fuel (link :: walked) below

def setPreviousOwner (m : Misc M) (t : Slot) (id : Nat) : Misc M :=
  m.modify t fun a => { a with previousOwner := id }

def setInputOwner (T : Table) (m : Misc M) (owner : Slot) (foreground : Bool) : Misc M :=
  let previous := m.inputOwner
  let m := m.modify owner fun a => { a with foregroundCommand := foreground }
  let m := { m with inputOwner := owner }
  if previous = owner then m else
  let m := keyboardOwnerChanged m
  match walkOwners T m owner 11 [] previous with
  | some walked => walked.foldl (fun m above => setPreviousOwner m above 0) m
  | none =>
    if owner = Slot.first then m
    else setPreviousOwner m owner ((taskIdOf T previous).getD 0)

def revertInputOwnerIf (T : Table) (m : Misc M) (dying : Slot) : Misc M :=
  let previous := (m.aux dying).previousOwner
  let m := setPreviousOwner m dying 0
  -- the entries that name the dying task go to the one below it
  let m := match taskIdOf T dying with
    | none => m
    | some id => { m with aux := fun t =>
        if (m.aux t).previousOwner = id then { m.aux t with previousOwner := previous } else m.aux t }
  if m.inputOwner ≠ dying then m
  else keyboardOwnerChanged { m with inputOwner := (liveOccupant T previous).getD Slot.first }

/-! ## Taking bytes -/

inductive KeyVerdict where
  | byte
  | consumed
  | bootInterrupt
deriving DecidableEq, Repr

def taskWaitedOn (T : Table) (target : Slot) : Bool :=
  Slot.all.any fun t => (T t).state == .blocked (.taskExit target)

def interruptKeyCheck (T : Table) (m : Misc M) (byte : UInt8) : KeyVerdict × Misc M :=
  let owner := m.inputOwner
  if owner = Slot.first then
    (if byte = keyInterrupt ∨ byte = keyQuit then .bootInterrupt else .byte, m)
  else if ¬ (byte = keyQuit ∨ byte = keyInterrupt ∧ (m.aux owner).kbdRaw = false) then (.byte, m)
  else match taskIdOf T owner with
    | none => (.byte, m)
    | some id =>
      if (m.aux owner).foregroundCommand || taskWaitedOn T owner then
        (.consumed, { m with pendingKill := id, pendingQuit := byte == keyQuit })
      else
        let target := (liveOccupant T (m.aux owner).previousOwner).getD Slot.first
        (.consumed, keyboardOwnerChanged { m with inputOwner := target })

inductive Took where
  | nothing
  | byte
  | interrupted
  | bootInterrupt
deriving DecidableEq, Repr

/-- `keyboard_device_byte`: the next answer of the devices. -/
def keyboardDeviceByte (m : Misc M) : Option UInt8 × Misc M :=
  match m.dev.keys with
  | [] => (none, m)
  | k :: ks => (k, { m with dev := { m.dev with keys := ks } })

def takeOne (T : Table) (m : Misc M) (bootWaits : Bool) : Took × Misc M :=
  match keyboardDeviceByte m with
  | (none, m) => (.nothing, m)
  | (some byte, m) =>
    match interruptKeyCheck T m byte with
    | (.consumed, m) => (.interrupted, { m with queue := M.flush m.queue (some byte) })
    | (.bootInterrupt, m) =>
      if bootWaits then (.bootInterrupt, { m with queue := M.flush m.queue (some byte) })
      else (.byte, { m with queue := M.push m.queue byte m.ticks })
    | (.byte, m) => (.byte, { m with queue := M.push m.queue byte m.ticks })

/-- `QUEUE_LEN`, also `READ_DROPPED_MAX` and `READ_AHEAD_MAX`. -/
def queueLen : Nat := 64

def keyWaitingLoop (T : Table) : Nat → Misc M → Bool × Misc M
  | 0, m => (!M.isEmpty m.queue, m)
  | k + 1, m =>
    if !M.isEmpty m.queue then (true, m) else
    match takeOne T m false with
    | (.byte, m) => keyWaitingLoop T k m
    | (_, m) => (false, m)

def mayRead (T : Table) (m : Misc M) (reader : Slot) : Bool :=
  reader == m.inputOwner && !killPendingFor T m reader

def keyboardKeyWaiting (T : Table) (m : Misc M) (reader : Slot) : Bool × Misc M :=
  if mayRead T m reader then keyWaitingLoop T queueLen m else (false, m)

def pollKeyboardByte (T : Table) (m : Misc M) (reader : Slot) : Option UInt8 × Misc M :=
  match keyboardKeyWaiting T m reader with
  | (false, m) => (none, m)
  | (true, m) =>
    match M.pop m.queue with
    | none => (none, m)
    | some (byte, q) => (some byte, { m with queue := q })

def keyWaitAnswer (T : Table) (m : Misc M) (t : Slot) (untilUs : Nat) : Option Nat × Misc M :=
  match keyboardKeyWaiting T m t with
  | (true, m) => (some 1, m)
  | (false, m) => (if untilUs ≤ m.dev.now then some 0 else none, m)

def readAheadLoop (T : Table) : Nat → Misc M → Bool × Misc M
  | 0, m => (false, m)
  | k + 1, m =>
    match takeOne T m true with
    | (.byte, m) => readAheadLoop T k m
    | (.bootInterrupt, m) => (true, m)
    | (_, m) => (false, m)

/-- `read_keyboard_ahead`, also `keyboard_interrupts_wait`. -/
def readKeyboardAhead (T : Table) (m : Misc M) (reader : Slot) : Bool × Misc M :=
  if mayRead T m reader then readAheadLoop T queueLen m else (false, m)

/-- `FLUSH_EMPTY_MAX` empty answers in a row end the loop; an interrupt key ends it without the
final flush. -/
def flushLoop (T : Table) : Nat → Nat → Misc M → Misc M
  | 0, _, m => { m with queue := M.flush m.queue none }
  | k + 1, empty, m =>
    match takeOne T m true with
    | (.nothing, m) =>
      if empty + 1 = 8 then { m with queue := M.flush m.queue none } else flushLoop T k (empty + 1) m
    | (.byte, m) => flushLoop T k 0 m
    | (_, m) => m

def keyboardFlushInput (T : Table) (m : Misc M) (reader : Slot) : Misc M :=
  if mayRead T m reader then flushLoop T queueLen 0 m else m

/-! ## Who can be interrupted -/

theorem interruptKeyCheck_boot (h : interruptKeyCheck T m byte = (.bootInterrupt, m')) :
    m.inputOwner = Slot.first := by
  unfold interruptKeyCheck at h
  simp only at h
  split at h
  · assumption
  split at h
  · cases h
  split at h
  · cases h
  · split at h <;> cases h

theorem interruptKeyCheck_byte (h : interruptKeyCheck T m byte = (.byte, m')) : m' = m := by
  unfold interruptKeyCheck at h
  simp only at h
  split at h
  · exact (Prod.mk.inj h).2.symm
  split at h
  · exact (Prod.mk.inj h).2.symm
  split at h
  · exact (Prod.mk.inj h).2.symm
  · split at h <;> cases h

theorem keyboardDeviceByte_owner (m : Misc M) : (keyboardDeviceByte m).2.inputOwner = m.inputOwner := by
  unfold keyboardDeviceByte
  split <;> rfl

theorem takeOne_boot {waits : Bool} (h : takeOne T m waits = (.bootInterrupt, m')) :
    m.inputOwner = Slot.first := by
  unfold takeOne at h
  rw [← keyboardDeviceByte_owner m]
  split at h
  · cases h
  rename_i byte m₁ hbyte
  rw [hbyte]
  split at h
  · cases h
  · rename_i hv
    exact interruptKeyCheck_boot hv
  · cases h

theorem takeOne_byte (h : takeOne T m true = (.byte, m')) : m'.inputOwner = m.inputOwner := by
  unfold takeOne at h
  rw [← keyboardDeviceByte_owner m]
  split at h
  · cases h
  rename_i byte m₁ hbyte
  rw [hbyte]
  split at h
  · cases h
  · cases h
  rename_i hv
  cases h
  rw [interruptKeyCheck_byte hv]

theorem readAheadLoop_first (k : Nat) (m : Misc M) (h : readAheadLoop T k m = (true, m')) :
    m.inputOwner = Slot.first := by
  induction k generalizing m with
  | zero => cases h
  | succ k ih =>
    unfold readAheadLoop at h
    split at h
    · rename_i m₁ hbyte
      rw [← takeOne_byte hbyte]
      exact ih m₁ h
    · rename_i hboot
      exact takeOne_boot hboot
    · cases h

/-- **The keyboard interrupts only the waits of the boot shell.** -/
theorem readKeyboardAhead_first {t : Slot} (h : readKeyboardAhead T m t = (true, m')) : t = Slot.first := by
  unfold readKeyboardAhead at h
  split at h
  · rename_i hr
    unfold mayRead at hr
    simp only [Bool.and_eq_true, beq_iff_eq] at hr
    rw [hr.1]
    exact readAheadLoop_first _ _ h
  · cases h

end Keyboard

end Ouroboros.Kernel
