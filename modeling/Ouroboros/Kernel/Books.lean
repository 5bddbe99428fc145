import Ouroboros.Kernel.Entry

/-!
# The books of the kernel

The books are the tables of `Misc` that later entries read: the per-slot tables, the owner of the keyboard, the
staging area and the task Ctrl+C has condemned; not the key queue, the devices and the counters.

* `SameBooks m m'`  the books are untouched;
* `Hush T m m'`  one thing an entry may do to the books without changing a task;
* `Hushes`  a chain of them.  Every function that reads the keyboard is one.
-/

namespace Ouroboros.Kernel

open Relation Function Misc

section Books
variable {M : Machine} {m : Misc M} {f : Aux → Aux} {i t : Slot} {α : Type} {T : Table} {m' : Misc M}

theorem Misc.modify_proj (φ : Aux → α) (hf : ∀ a, φ (f a) = φ a) (i t : Slot) :
    φ ((m.modify i f).aux t) = φ (m.aux t) := by
  simp only [modify, update_apply]
  split
  · rename_i ht
    rw [ht, hf]
  · rfl

theorem Misc.modify_aux_same : (m.modify i f).aux i = f (m.aux i) := by
  simp [modify]

theorem Misc.modify_aux_other (h : t ≠ i) : (m.modify i f).aux t = m.aux t := by
  simp [modify, h]

/-- `m'` has the books of `m`. -/
structure SameBooks (m m' : Misc M) : Prop where
  aux : m'.aux = m.aux
  owner : m'.inputOwner = m.inputOwner
  staging : m'.staging = m.staging
  kill : m'.pendingKill = m.pendingKill

@[refl] theorem SameBooks.refl (m : Misc M) : SameBooks m m := ⟨rfl, rfl, rfl, rfl⟩

theorem SameBooks.trans {m₁ m₂ m₃ : Misc M} (h : SameBooks m₁ m₂) (h' : SameBooks m₂ m₃) : SameBooks m₁ m₃ :=
  ⟨h'.aux.trans h.aux, h'.owner.trans h.owner, h'.staging.trans h.staging, h'.kill.trans h.kill⟩

inductive Hush (T : Table) (m : Misc M) : Misc M → Prop where
  | still {m' : Misc M} (h : SameBooks m m') : Hush T m m'
  | takeBack {m' : Misc M} (hfirst : m.inputOwner ≠ Slot.first)
      (h : SameBooks { m with inputOwner :=
        (liveOccupant T (m.aux m.inputOwner).previousOwner).getD Slot.first } m') : Hush T m m'
  | condemn {m' : Misc M} {id : Nat} (hid : taskIdOf T m.inputOwner = some id)
      (h : SameBooks { m with pendingKill := id } m') : Hush T m m'
  | pardon {m' : Misc M} (h : SameBooks { m with pendingKill := 0 } m') : Hush T m m'
  | mark {t : Slot} {id : Nat} (hid : taskIdOf T t = some id) :
      Hush T m (m.modify t fun a => { a with doomed := id })
  | unmark (t : Slot) : Hush T m (m.modify t fun a => { a with doomed := 0 })
  | name {t : Slot} (ht : t.isSpawnable = false) (argv : List UInt8) :
      Hush T m (m.modify t fun a => { a with argv := argv })

abbrev Hushes (T : Table) : Misc M → Misc M → Prop := ReflTransGen (Hush T)

theorem Hush.proj (h : Hush T m m') {φ : Aux → α} (hmark : ∀ a d, φ { a with doomed := d } = φ a)
    (hname : t.isSpawnable = false → ∀ a argv, φ { a with argv := argv } = φ a) :
        φ (m'.aux t) = φ (m.aux t) := by
  cases h with
  | still h | takeBack _ h | condemn _ h | pardon h => rw [h.aux]
  | mark | unmark => exact modify_proj φ (fun a => hmark a _) _ t
  | @name i hi argv =>
    by_cases ht : t = i
    · subst ht
      rw [modify_aux_same, hname hi]
    · rw [modify_aux_other ht]

theorem SameBooks.hushes (h : SameBooks m m') : Hushes T m m' := .single (.still h)

/-! ## The keyboard -/

section keyboard
variable {T : Table}

theorem keyboardDeviceByte_books (m : Misc M) : SameBooks m (keyboardDeviceByte m).2 := by
  unfold keyboardDeviceByte
  split <;> exact ⟨rfl, rfl, rfl, rfl⟩

/-- **An interrupt key condemns the owner, takes the keyboard back, or leaves the books alone.** -/
theorem interruptKeyCheck_hush (m : Misc M) (byte : UInt8) : Hush T m (interruptKeyCheck T m byte).2 := by
  unfold interruptKeyCheck
  simp only
  split
  · exact .still (.refl m)
  rename_i hfirst
  split
  · exact .still (.refl m)
  split
  · exact .still (.refl m)
  rename_i id hid
  split
  · exact .condemn hid ⟨rfl, rfl, rfl, rfl⟩
  · exact .takeBack hfirst ⟨rfl, rfl, rfl, rfl⟩

theorem takeOne_hushes (m : Misc M) (waits : Bool) : Hushes T m (takeOne T m waits).2 := by
  have hbyte := keyboardDeviceByte_books m
  unfold takeOne
  split
  · rename_i m₁ h₁
    rw [h₁] at hbyte
    exact hbyte.hushes
  rename_i byte m₁ h₁
  rw [h₁] at hbyte
  have hkey : Hush T m₁ (interruptKeyCheck T m₁ byte).2 := interruptKeyCheck_hush m₁ byte
  -- what follows the check only touches the queue
  have hrest : ∀ m₂ m₃, interruptKeyCheck T m₁ byte = m₂ → SameBooks m₂.2 m₃ → Hushes T m m₃ := by
    rintro _ m₃ rfl hsame
    exact (hbyte.hushes.tail hkey).trans hsame.hushes
  split
  · rename_i m₂ h₂
    exact hrest _ _ h₂ ⟨rfl, rfl, rfl, rfl⟩
  · rename_i m₂ h₂
    split
    · exact hrest _ _ h₂ ⟨rfl, rfl, rfl, rfl⟩
    · exact hrest _ _ h₂ ⟨rfl, rfl, rfl, rfl⟩
  · rename_i m₂ h₂
    exact hrest _ _ h₂ ⟨rfl, rfl, rfl, rfl⟩

theorem takeOne_hushes_of {m' : Misc M} {waits : Bool} {r : Took} (h : takeOne T m waits = (r, m')) :
    Hushes T m m' := by
  have := takeOne_hushes (T := T) m waits
  rwa [h] at this

theorem keyWaitingLoop_hushes (k : Nat) (m : Misc M) : Hushes T m (keyWaitingLoop T k m).2 := by
  induction k generalizing m with
  | zero => exact .refl
  | succ k ih =>
    unfold keyWaitingLoop
    split
    · exact .refl
    split
    · rename_i m₁ h₁
      exact (takeOne_hushes_of h₁).trans (ih m₁)
    · rename_i m₁ h₁
      exact takeOne_hushes_of h₁

theorem keyboardKeyWaiting_hushes (m : Misc M) (t : Slot) : Hushes T m (keyboardKeyWaiting T m t).2 := by
  unfold keyboardKeyWaiting
  split
  · exact keyWaitingLoop_hushes _ _
  · exact .refl

theorem pollKeyboardByte_hushes (m : Misc M) (t : Slot) : Hushes T m (pollKeyboardByte T m t).2 := by
  have hwait : Hushes T m (keyboardKeyWaiting T m t).2 := keyboardKeyWaiting_hushes m t
  unfold pollKeyboardByte
  split
  · rename_i m₁ h₁
    rwa [h₁] at hwait
  rename_i m₁ h₁
  rw [h₁] at hwait
  split
  · exact hwait
  · exact hwait.tail (.still ⟨rfl, rfl, rfl, rfl⟩)

theorem keyWaitAnswer_hushes (m : Misc M) (t : Slot) (us : Nat) : Hushes T m (keyWaitAnswer T m t us).2 := by
  have hwait : Hushes T m (keyboardKeyWaiting T m t).2 := keyboardKeyWaiting_hushes m t
  unfold keyWaitAnswer
  split
  · rename_i m₁ h₁
    rwa [h₁] at hwait
  · rename_i m₁ h₁
    rwa [h₁] at hwait

theorem readAheadLoop_hushes (k : Nat) (m : Misc M) : Hushes T m (readAheadLoop T k m).2 := by
  induction k generalizing m with
  | zero => exact .refl
  | succ k ih =>
    unfold readAheadLoop
    split
    · rename_i m₁ h₁
      exact (takeOne_hushes_of h₁).trans (ih m₁)
    · rename_i m₁ h₁
      exact takeOne_hushes_of h₁
    · rename_i m₁ h₁
      exact takeOne_hushes_of h₁

theorem readKeyboardAhead_hushes (m : Misc M) (t : Slot) : Hushes T m (readKeyboardAhead T m t).2 := by
  unfold readKeyboardAhead
  split
  · exact readAheadLoop_hushes _ _
  · exact .refl

theorem flushLoop_hushes (k empty : Nat) (m : Misc M) : Hushes T m (flushLoop T k empty m) := by
  induction k generalizing empty m with
  | zero => exact .single (.still ⟨rfl, rfl, rfl, rfl⟩)
  | succ k ih =>
    unfold flushLoop
    split
    · rename_i m₁ h₁
      have htake : Hushes T m m₁ := takeOne_hushes_of h₁
      split
      · exact htake.tail (.still ⟨rfl, rfl, rfl, rfl⟩)
      · exact htake.trans (ih _ m₁)
    · rename_i m₁ h₁
      exact (takeOne_hushes_of h₁).trans (ih _ m₁)
    · rename_i m₁ h₁
      exact takeOne_hushes_of h₁

theorem keyboardFlushInput_hushes (m : Misc M) (t : Slot) : Hushes T m (keyboardFlushInput T m t) := by
  unfold keyboardFlushInput
  split
  · exact flushLoop_hushes _ _ _
  · exact .refl

end keyboard

/-! ## The supervisor -/

variable {s : State M}

theorem noteProgress_books (m : Misc M) (t : Slot) : SameBooks m (noteProgress m t) := by
  unfold noteProgress
  split <;> exact ⟨rfl, rfl, rfl, rfl⟩

theorem noteAck_books (m : Misc M) (t : Slot) : SameBooks m (noteAck m t) := by
  unfold noteAck
  split
  · refine SameBooks.trans ?_ (noteProgress_books _ t)
    exact ⟨rfl, rfl, rfl, rfl⟩
  · exact .refl m

theorem heartbeat_books (m : Misc M) (t : Slot) (blocked : Bool) : SameBooks m (heartbeat m t blocked).2 := by
  unfold heartbeat
  simp only
  split <;> exact ⟨rfl, rfl, rfl, rfl⟩

theorem pollPing_books (m : Misc M) (t : Slot) (blocked : Bool) : SameBooks m (pollPing m t blocked).2 := by
  unfold pollPing
  simp only
  repeat' split
  all_goals exact ⟨rfl, rfl, rfl, rfl⟩

/-- **A restart changes no task, or installs the kept image below the cursor and names it.** -/
theorem restart_cases (s : State M) (slot : Slot) : (∃ m, restart s slot = s.setMisc m ∧ SameBooks s.misc m) ∨
    ∃ image size m, M.keptImage slot = some image ∧ M.elfRegionSize image = .ok size ∧ restart s slot =
        (installTask (takeRegion (s.setMisc m) size) slot
          (cursor (allocateRuntimeRegion s.top size), size)).setMisc
        (setServerName (installTask (takeRegion (s.setMisc m) size) slot
          (cursor (allocateRuntimeRegion s.top size), size)).misc slot) ∧
      SameBooks s.misc m := by
  unfold restart
  split
  · exact .inl ⟨s.misc, rfl, .refl _⟩
  rename_i image himage
  simp only
  split
  · exact .inl ⟨_, rfl, ⟨rfl, rfl, rfl, rfl⟩⟩
  split
  · exact .inl ⟨_, rfl, ⟨rfl, rfl, rfl, rfl⟩⟩
  rename_i size hsize
  split
  · rw [free_allocate]
    exact .inl ⟨_, rfl, ⟨rfl, rfl, rfl, rfl⟩⟩
  · exact .inr ⟨image, size, _, himage, hsize, rfl, ⟨rfl, rfl, rfl, rfl⟩⟩

theorem isSupervised_spawnable {slot : Slot} (h : isSupervised M slot) : slot.isSpawnable = false := by
  have hs := M.keptImage_server slot h
  unfold Slot.isSpawnable
  rw [decide_eq_false_iff_not]
  exact Nat.not_le_of_lt hs.2

def Unmarked (m₀ : Misc M) (t : Slot) (m : Misc M) : Prop :=
  m = m₀ ∨ m = m₀.modify t fun a => { a with doomed := 0 }

theorem Unmarked.hushes {T : Table} {m₀ : Misc M} (h : Unmarked m₀ t m) : Hushes T m₀ m := by
  rcases h with rfl | rfl
  · exact .refl
  · exact .single (.unmark t)

/-! ## Messages -/

theorem sendMessage_books (s : State M) (sender : Nat) (dest : Slot) (data : List UInt8) (call : Nat) :
    SameBooks s.misc (sendMessage s sender dest data call).2.misc := by
  unfold sendMessage
  simp only
  repeat' split
  all_goals exact ⟨rfl, rfl, rfl, rfl⟩

theorem tryRecvMessage_books {s' : State M} {buf len v : Nat}
    (h : tryRecvMessage s t buf len = some (v, s')) : SameBooks s.misc s'.misc := by
  unfold tryRecvMessage at h
  split at h
  · cases h
  · cases h
    exact ⟨rfl, rfl, rfl, rfl⟩

theorem deliverReply_books (s : State M) (server dest : Slot) (data : List UInt8) :
    SameBooks s.misc (deliverReply s server dest data).misc := by
  unfold deliverReply
  split <;> exact ⟨rfl, rfl, rfl, rfl⟩

/-! ## The end of a task -/

theorem revertInputOwnerIf_aux {T : Table} {m : Misc M} {dying : Slot}
    (hzero : taskIdOf T dying = some 0 → (m.aux dying).previousOwner = 0) (t : Slot) :
    (revertInputOwnerIf T m dying).aux t =
      { m.aux t with previousOwner :=
        if t = dying then 0
        else if taskIdOf T dying = some (m.aux t).previousOwner then (m.aux dying).previousOwner
        else (m.aux t).previousOwner } := by
  have howner : ∀ (m' : Misc M) (x : Slot),
      (if m'.inputOwner ≠ dying then m' else keyboardOwnerChanged { m' with inputOwner := x }).aux = m'.aux := by
    intro m' x
    split <;> rfl
  unfold revertInputOwnerIf
  simp only
  rw [howner]
  cases hid : taskIdOf T dying with
  | none =>
    simp only [setPreviousOwner, Misc.modify, update_apply]
    by_cases ht : t = dying <;> simp [ht]
  | some id =>
    simp only [setPreviousOwner, Misc.modify, update_apply]
    by_cases ht : t = dying
    · simp only [ht, if_true]
      split
      · rename_i h
        rw [hzero (by rw [hid, ← h])]
      · rfl
    · simp only [ht, if_false]
      by_cases hp : (m.aux t).previousOwner = id
      · simp [hp]
      · have hp' : id ≠ (m.aux t).previousOwner := fun h => hp h.symm
        simp [hp, hp']

theorem revertInputOwnerIf_owner (T : Table) (m : Misc M) (dying : Slot) :
    (revertInputOwnerIf T m dying).inputOwner =
      if m.inputOwner = dying then (liveOccupant T (m.aux dying).previousOwner).getD Slot.first
      else m.inputOwner := by
  have hsame : ∀ m' : Misc M, m'.inputOwner = m.inputOwner → ∀ x : Slot,
      (if m'.inputOwner ≠ dying then m' else keyboardOwnerChanged { m' with inputOwner := x }).inputOwner
        = if m.inputOwner = dying then x else m.inputOwner := by
    intro m' hm' x
    rw [hm']
    by_cases h : m.inputOwner = dying
    · rw [if_neg (not_not.2 h), if_pos h]
      rfl
    · rw [if_pos h, if_neg h, hm']
  unfold revertInputOwnerIf
  simp only
  refine hsame _ ?_ _
  split <;> rfl

theorem releaseStagingOf_aux (m : Misc M) (i : Slot) : (releaseStagingOf m i).aux = m.aux := by
  unfold releaseStagingOf
  split <;> rfl

theorem releaseStagingOf_owner (m : Misc M) (i : Slot) : (releaseStagingOf m i).inputOwner = m.inputOwner := by
  unfold releaseStagingOf
  split <;> rfl

/-- **The books of the slots after a task has ended**: its own are reset, and the links that named it
name the one below it. -/
theorem endTask_aux (final : TaskState) (hzero : taskIdOf s.task i = some 0 → (s.misc.aux i).previousOwner = 0)
    (t : Slot) :
    (endTask s i final).misc.aux t =
      if t = i then Aux.reset { s.misc.aux i with doomed := 0, previousOwner := 0 }
      else
        { s.misc.aux t with
          previousOwner :=
            if taskIdOf s.task i = some (s.misc.aux t).previousOwner then (s.misc.aux i).previousOwner
            else (s.misc.aux t).previousOwner } := by
  have hmark : ∀ x, (s.misc.modify i fun a => { a with doomed := 0 }).aux x
      = if x = i then { s.misc.aux i with doomed := 0 } else s.misc.aux x := by
    intro x
    simp only [Misc.modify, update_apply]
  have hown : ((s.misc.modify i fun a => { a with doomed := 0 }).aux i).previousOwner =
      (s.misc.aux i).previousOwner := by
    rw [hmark, if_pos rfl]
  have hrev : ∀ x, _ := @revertInputOwnerIf_aux M s.task
    (s.misc.modify i fun a => { a with doomed := 0 }) i (by rw [hown]; exact hzero)
  unfold endTask failCallsTo
  simp only [State.setMisc_misc]
  simp only [Misc.modify, update_apply] at hrev hmark hown ⊢
  rw [releaseStagingOf_aux]
  by_cases ht : t = i
  · rw [if_pos ht, if_pos ht, hrev]
    simp
  · rw [if_neg ht, if_neg ht, hrev]
    simp [ht]

theorem endTask_inputOwner (s : State M) (i : Slot) (final : TaskState) : (endTask s i final).misc.inputOwner =
      if s.misc.inputOwner = i then (liveOccupant s.task (s.misc.aux i).previousOwner).getD Slot.first
      else s.misc.inputOwner := by
  have hmark : ((s.misc.modify i fun a => { a with doomed := 0 }).aux i).previousOwner =
      (s.misc.aux i).previousOwner := by
    simp [Misc.modify]
  have hrev := revertInputOwnerIf_owner s.task (s.misc.modify i fun a => { a with doomed := 0 }) i
  rw [hmark] at hrev
  unfold endTask failCallsTo
  simp only [State.setMisc_misc]
  show (releaseStagingOf _ i).inputOwner = _
  rw [releaseStagingOf_owner, hrev]
  rfl

theorem revertInputOwnerIf_staging (T : Table) (m : Misc M) (dying : Slot) :
    (revertInputOwnerIf T m dying).staging = m.staging := by
  unfold revertInputOwnerIf
  simp only
  split <;> split <;> rfl

theorem endTask_misc (s : State M) (i : Slot) (final : TaskState) :
    (endTask s i final).misc = (releaseStagingOf (revertInputOwnerIf s.task
      (s.misc.modify i fun a => { a with doomed := 0 }) i) i).modify i Aux.reset := rfl

theorem endTask_staging (s : State M) (i : Slot) (final : TaskState) :
    (endTask s i final).misc.staging = s.misc.staging ∨ (endTask s i final).misc.staging = .free := by
  have hrev := revertInputOwnerIf_staging s.task (s.misc.modify i fun a => { a with doomed := 0 }) i
  rw [endTask_misc]
  unfold releaseStagingOf
  split
  · exact .inr rfl
  · exact .inl hrev

/-! ## The calls that write the books -/

section calls
variable (s : State M) (cur : Slot)

/-- **`GRANT` is refused, or replaces the grant of its caller by one to a live task.** -/
theorem grantSyscall_cases (grantee ptr len dir : Nat) : grantSyscall s cur grantee ptr len dir = (grantErr, s) ∨
    ∃ g, liveIndex s.task grantee = some g ∧ dir ≠ 0 ∧ dir ≤ 3 ∧ len ≠ 0 ∧
      inCallerRegion (s.task cur).region ptr len ∧
      grantSyscall s cur grantee ptr len dir =
        (0, s.setMisc (s.misc.modify cur fun a => { a with grant := ⟨g, ptr, len, dir, true⟩ })) := by
  unfold grantSyscall
  split
  · exact .inl rfl
  rename_i hok
  split
  · exact .inl rfl
  rename_i g hg
  rw [not_or, not_or, not_or, not_or, Bool.not_eq_false] at hok
  exact .inr ⟨g, hg, hok.1, Nat.le_of_not_lt hok.2.1, hok.2.2.1, hok.2.2.2.2, rfl⟩

/-- **`FG` is refused, or the owner of the keyboard hands it to the shell or a live spawned task.** -/
theorem fgSyscall_cases (task foreground : Nat) :
    (∃ code, code ≠ 0 ∧ fgSyscall s cur task foreground = (code, s)) ∨
    ∃ t : Slot, task = t.val ∧ (t = Slot.first ∨ t.isSpawnable) ∧ (s.task t).state.isOccupied ∧
      s.misc.inputOwner = cur ∧
      fgSyscall s cur task foreground = (0, s.setMisc (setInputOwner s.task s.misc t (foreground != 0))) := by
  unfold fgSyscall
  split
  · exact .inl ⟨_, (by decide : taskErrNoSuchTask ≠ 0), rfl⟩
  rename_i t ht
  split
  · exact .inl ⟨_, (by decide : taskErrProtected ≠ 0), rfl⟩
  rename_i hslot
  split
  · exact .inl ⟨_, (by decide : taskErrNoSuchTask ≠ 0), rfl⟩
  rename_i hocc
  split
  · exact .inl ⟨_, (by decide : taskErrProtected ≠ 0), rfl⟩
  rename_i howner
  rw [not_and_or, not_not, Bool.not_eq_false] at hslot
  rw [Bool.not_eq_false] at hocc
  exact .inr ⟨t, Slot.new_eq_some.1 ht, hslot, hocc, (not_not.1 howner).symm, rfl⟩

/-- **`NS_SET` is refused, or replaces the namespace of its caller.** -/
theorem nsSetSyscall_cases (ptr len : Nat) : nsSetSyscall s cur ptr len = (spawnError, s) ∨
    ∃ blob, nsSetSyscall s cur ptr len = (0, s.setMisc (s.misc.modify cur fun a => { a with ns := blob })) := by
  unfold nsSetSyscall
  simp only
  split
  · exact .inr ⟨_, rfl⟩
  split
  · exact .inl rfl
  · exact .inr ⟨_, rfl⟩

/-- **`KBD_MODE` may read the keyboard out, and may set the mode of its caller.** -/
theorem kbdModeSyscall_cases (mode : Nat) : ∃ m r, Hushes s.task s.misc m ∧
    (kbdModeSyscall s cur mode = (r, s.setMisc m) ∨
      ∃ raw, kbdModeSyscall s cur mode = (r, s.setMisc (m.modify cur fun a => { a with kbdRaw := raw }))) := by
  unfold kbdModeSyscall
  simp only
  split
  · exact ⟨s.misc, _, .refl, .inl rfl⟩
  have hflush : Hushes s.task s.misc
      (if mode / 0x100 % 2 = 1 then keyboardFlushInput s.task s.misc cur else s.misc) := by
    split
    · exact keyboardFlushInput_hushes _ _
    · exact .refl
  split
  · exact ⟨_, _, hflush, .inl rfl⟩
  · exact ⟨_, _, hflush, .inr ⟨_, rfl⟩⟩

end calls

end Books

end Ouroboros.Kernel
