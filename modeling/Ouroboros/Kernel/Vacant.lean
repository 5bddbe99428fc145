import Ouroboros.Kernel.Places

/-!
# Empty slots hold nothing

What `end_task` clears for a slot stays cleared until a task is started there, so a new task finds no
arguments, directory, environment, namespace, grant or keyboard mode of an earlier one.

* `Aux.blobs`  the books of a slot without those of the keyboard and of its end;
* `Aux.Vacant`  nothing is left in them;
* `reached_vacant` so it is for every empty slot of a run.
-/

namespace Ouroboros.Kernel

open Relation Transition State Misc

section Vacant
variable {M : Machine} {s s' : State M} {t cur p : Slot} {k : Sys} {e : Entry M} {o : Origin} {c : Fin M.cores}

def Aux.blobs (a : Aux) : Aux := { a with doomed := 0, previousOwner := 0, foregroundCommand := false }

structure Aux.Vacant (a : Aux) : Prop where
  argv : a.argv = []
  cwd : a.cwd = []
  env : a.env = []
  ns : a.ns = []
  kbdRaw : a.kbdRaw = false
  stdoutTarget : a.stdoutTarget = Slot.con.val
  grant : a.grant.active = false

theorem Aux.Vacant.congr {a a' : Aux} (h : a.Vacant) (heq : a'.blobs = a.blobs) : a'.Vacant where
  argv := (congrArg Aux.argv heq).trans h.argv
  cwd := (congrArg Aux.cwd heq).trans h.cwd
  env := (congrArg Aux.env heq).trans h.env
  ns := (congrArg Aux.ns heq).trans h.ns
  kbdRaw := (congrArg Aux.kbdRaw heq).trans h.kbdRaw
  stdoutTarget := (congrArg Aux.stdoutTarget heq).trans h.stdoutTarget
  grant := (congrArg (fun a => a.grant.active) heq).trans h.grant

theorem Aux.blobs_reset (a : Aux) : a.reset.blobs = a.blobs.reset := rfl

theorem Aux.vacant_reset (a : Aux) : a.reset.Vacant := ⟨rfl, rfl, rfl, rfl, rfl, rfl, rfl⟩

/-! ## What leaves the blobs alone -/

theorem setInputOwner_keeps {α : Type} {ψ : Misc M → α} (hlink : ∀ m i id, ψ (setPreviousOwner m i id) = ψ m)
    (hfg : ∀ m i b, ψ (m.modify i fun a => { a with foregroundCommand := b }) = ψ m)
    (howner : ∀ m owner queue, ψ { m with inputOwner := owner, queue := queue } = ψ m) (T : Table) (m : Misc M)
    (owner : Slot) (foreground : Bool) : ψ (setInputOwner T m owner foreground) = ψ m := by
  have hforeground {queue} : ψ { m.modify owner fun a => { a with foregroundCommand := foreground } with
      inputOwner := owner, queue := queue } = ψ m := (howner _ _ _).trans (hfg m owner foreground)
  have hcut (walked : List Slot) (m : Misc M) :
      ψ (walked.foldl (fun m above => setPreviousOwner m above 0) m) = ψ m :=
    List.foldlRecOn (motive := fun m' => ψ m' = ψ m) walked _ rfl fun _ h _ _ => (hlink _ _ _).trans h
  unfold setInputOwner
  simp only
  split
  · exact hforeground
  split
  · rw [hcut]
    exact hforeground
  split
  · exact hforeground
  · rw [hlink]
    exact hforeground

section proj
variable {α : Type} {φ : Aux → α} (hlink : ∀ a p, φ { a with previousOwner := p } = φ a)
include hlink

theorem setPreviousOwner_proj (m : Misc M) (i : Slot) (id : Nat) (t : Slot) :
    φ ((setPreviousOwner m i id).aux t) = φ (m.aux t) :=
  modify_proj φ (fun a => hlink a id) i t

theorem setInputOwner_proj (hfg : ∀ a b, φ { a with foregroundCommand := b } = φ a) (T : Table) (m : Misc M)
    (owner : Slot) (foreground : Bool) (t : Slot) :
        φ ((setInputOwner T m owner foreground).aux t) = φ (m.aux t) :=
  setInputOwner_keeps (ψ := fun m => φ (m.aux t)) (fun m i id => setPreviousOwner_proj hlink m i id t)
    (fun _ i b => modify_proj φ (fun a => hfg a b) i t) (fun _ _ _ => rfl) T m owner foreground

theorem revertInputOwnerIf_proj (T : Table) (m : Misc M) (dying t : Slot) :
    φ ((revertInputOwnerIf T m dying).aux t) = φ (m.aux t) := by
  have hcut := setPreviousOwner_proj hlink m dying 0 t
  have hrest : ∀ (m' : Misc M) (x : Slot), φ (m'.aux t) = φ (m.aux t) →
      φ ((if m'.inputOwner ≠ dying then m' else keyboardOwnerChanged { m' with inputOwner := x }).aux t) =
          φ (m.aux t) := by
    intro m' x hm'
    split
    · exact hm'
    · exact hm'
  unfold revertInputOwnerIf
  simp only
  refine hrest _ _ ?_
  split
  · exact hcut
  simp only
  split
  · rw [hlink]
    exact hcut
  · exact hcut

end proj

theorem endTask_proj {α : Type} {φ : Aux → α} (hlink : ∀ a p, φ { a with previousOwner := p } = φ a)
    (s : State M) (i : Slot) (final : TaskState) (ht : t ≠ i) :
    φ ((endTask s i final).misc.aux t) = φ (s.misc.aux t) := by
  rw [endTask_misc, modify_aux_other ht, releaseStagingOf_aux, revertInputOwnerIf_proj hlink,
    modify_aux_other ht]

theorem Hush.blobs {T : Table} {m m' : Misc M} (h : Hush T m m') (ht : t.isSpawnable) :
    (m'.aux t).blobs = (m.aux t).blobs :=
  h.proj (fun _ _ => rfl) fun hno => absurd (ht.symm.trans hno) nofun

/-- **What `end_task` leaves of the blobs.** -/
theorem endTask_blobs (s : State M) (i : Slot) (final : TaskState) (t : Slot) :
    ((endTask s i final).misc.aux t).blobs =
      if t = i then (s.misc.aux i).reset.blobs else (s.misc.aux t).blobs := by
  by_cases ht : t = i
  · subst ht
    have hrev : ((revertInputOwnerIf s.task (s.misc.modify t fun a => { a with doomed := 0 }) t).aux t).blobs
        = (s.misc.aux t).blobs :=
      (revertInputOwnerIf_proj (fun _ _ => rfl) _ _ _ _).trans (modify_proj Aux.blobs (by intro _; rfl) t t)
    rw [if_pos rfl, endTask_misc, modify_aux_same, Aux.blobs_reset, Aux.blobs_reset, releaseStagingOf_aux, hrev]
  · rw [if_neg ht]
    exact endTask_proj (fun _ _ => rfl) s i final ht

/-! ## Runs -/

def Vacant (s : State M) : Prop := ∀ t, t.isSpawnable = true → (s.task t).state.isOccupied = false →
    (s.misc.aux t).Vacant

section
variable (h : Vacant s)
include h

theorem Vacant.keep (hp : ∀ t, (s'.task t).state.isOccupied = (s.task t).state.isOccupied)
    (hm : ∀ t, t.isSpawnable → (s.task t).state.isOccupied = false →
      (s'.misc.aux t).blobs = (s.misc.aux t).blobs) : Vacant s' := by
  intro t ht hgone
  rw [hp] at hgone
  exact (h t ht hgone).congr (hm t ht hgone)

theorem Vacant.shift (hst : Shift s s') : Vacant s' := by
  cases hst with
  | keep _ _ _ hp hm => exact h.keep (fun t => (hp t).occupied) fun t ht _ => hm.blobs ht
  | ended i final _ hfinal current heq =>
    subst heq
    have hend := endTask_endedIn s i hfinal
    intro t ht hgone
    have hblobs := endTask_blobs s i final t
    by_cases hti : t = i
    · rw [if_pos hti] at hblobs
      exact (Aux.vacant_reset (s.misc.aux i)).congr hblobs
    rw [if_neg hti] at hblobs
    refine (h t ht ?_).congr hblobs
    exact (hend.other t hti).occupied.symm.trans hgone
  | installed slot m size _ hserver _ hm heq =>
    subst heq
    intro t ht hgone
    have hne : t ≠ slot := by
      rintro rfl
      rw [isSupervised_spawnable hserver] at ht
      cases ht
    rw [installTask_task, if_neg hne] at hgone
    refine (h t ht hgone).congr ?_
    have hblobs : ((setPreviousOwner m slot 0).aux t).blobs = (m.aux t).blobs :=
      setPreviousOwner_proj (fun _ _ => rfl) m slot 0 t
    rw [hm.aux] at hblobs
    exact hblobs

theorem Vacant.shifts (hst : Shifts s s') : Vacant s' := by
  induction hst with
  | refl => exact h
  | tail _ hlast ih => exact ih.shift hlast

theorem Vacant.modify {f : Aux → Aux}
    (hcur : (s.task cur).state.isOccupied) : Vacant (s.setMisc (s.misc.modify cur f)) := by
  refine h.keep (fun _ => rfl) fun t _ hgone => ?_
  have hne : t ≠ cur := by
    rintro rfl
    rw [hcur] at hgone
    cases hgone
  rw [setMisc_misc, modify_aux_other hne]

theorem Vacant.told {x : Nat × State M} (hcur : (s.task cur).state.isOccupied) (hbook : Booked s cur k x) :
    Vacant x.2 := by
  cases hbook with
  | refused _ hm =>
    refine h.keep (fun _ => rfl) fun t _ _ => ?_
    rcases hm with hm | hm
    · rw [setMisc_misc, hm.aux]
    · rw [setMisc_misc, hm.aux]
  | stages => exact h.keep (fun _ => rfl) fun _ _ _ => rfl
  | grants | names => exact h.modify hcur
  | handsOver => exact h.keep (fun _ => rfl) fun t _ _ =>
      setInputOwner_proj (fun _ _ => rfl) (fun _ _ => rfl) _ _ _ _ t
  | asks hm => exact h.shifts (.hushes hm)
  | @sets _ _ m hm raw =>
    have hread : Vacant (s.setMisc m) := h.shifts (.hushes hm)
    exact hread.modify hcur
  | @spawns _ _ _ _ slot size out mem _ _ hstart =>
    intro t ht hgone
    have hne : t ≠ slot := by
      rintro rfl
      simp only [spawned, spawnedTable, if_true, spawnedTask] at hgone
      cases hgone
    simp only [spawned, spawnedTable, if_neg hne] at hgone
    refine (h t ht hgone).congr ?_
    simp [spawned, startedMisc, setBlobs, setPreviousOwner, Misc.modify, Misc.setStaging, Misc.setMem, hne]

theorem Vacant.step (hs : Steady s) (hst : Step s e s') : Vacant s' := by
  rcases step_booked hs hst with ⟨hshifts, -⟩ | ⟨c, d, k, m, x, rfl, hm, hbook, rfl⟩
  · exact h.shifts hshifts
  have hload : Vacant (s.setMisc m) := h.shifts (load_shifts hm)
  have hcur : ((s.setMisc m).task (s.current c)).state.isOccupied := by
    rw [setMisc_task, hs.current c]
    rfl
  exact (hload.told hcur hbook).keep (fun t => (SamePlace.result _ _ _ t).occupied) fun _ _ _ => rfl

end

variable {f : Slot}

theorem booted_vacant (hb : Booted s) : Vacant s := by
  obtain ⟨b, top, q, d, rfl⟩ := hb
  intro t ht _
  -- no spawnable slot is loaded, and so none has a name
  have hargv : (bootAux b t).argv = [] := if_neg (by rw [b.spawnable t ht]; decide)
  exact ⟨hargv, rfl, rfl, rfl, rfl, rfl, rfl⟩

/-- **The books of every empty slot are empty.** -/
theorem reached_vacant (h : Reached s) : Vacant s :=
  (h.invariant (P := fun s => Steady s ∧ Vacant s) (fun _ h => ⟨booted_steady h, booted_vacant h⟩)
    fun _ _ _ hs hst => ⟨hs.1.step hst, hs.2.step hs.1 hst⟩).2

/-! ## Messages and calls -/

/-- an empty slot has no message and has received none, and a task waits in a call for a live one. -/
structure Rested (s : State M) : Prop where
  box : ∀ t, (s.task t).state.isOccupied = false → (s.task t).mailbox = [] ∧ (s.task t).cred = .none
  calls : ∀ t f, (s.task t).state.inCallTo f = true → (s.task f).state.isOccupied = true

theorem inCallTo_occupied {st : TaskState} (h : st.inCallTo f) : st.isOccupied := by
  obtain ⟨buf, len, rfl⟩ := inCallTo_eq_true.1 h
  rfl

theorem Effect.box {u : Task} (h : Effect o p c s s' t u)
    (hbox : (s.task t).state.isOccupied = false → (s.task t).mailbox = [] ∧ (s.task t).cred = .none)
    (hu : u.state.isOccupied = false) : u.mailbox = [] ∧ u.cred = .none := by
  cases h with
  | same | beginCall | endCall => exact hbox hu
  | deliver | wake | interrupt | orphan | installed => cases hu
  | enqueue _ hocc hwait =>
    exfalso
    unfold Task.enqueue at hu
    simp only at hu
    split at hu
    · cases hu
    · rw [hocc] at hu
      cases hu
  | recv hmail =>
    have hempty := (hbox hu).1
    rw [hmail] at hempty
    cases hempty
  | reap hz => exact hbox (by rw [hz]; rfl)
  | killed | retired => exact ⟨rfl, rfl⟩

theorem endTask_calls {i : Slot} {final : TaskState} (hfinal : final.isOccupied = false)
    (h : ∀ t f, (s.task t).state.inCallTo f → (s.task f).state.isOccupied)
    (hcall : ((endTask s i final).task t).state.inCallTo f) :
    ((endTask s i final).task f).state.isOccupied := by
  have hend := endTask_endedIn s i hfinal
  have hti : t ≠ i := (hend.occupied (inCallTo_occupied hcall)).1
  rw [endTask_other _ _ _ hti] at hcall
  unfold Task.failCall at hcall
  split at hcall
  · cases hcall
  rename_i hno
  have hfi : f ≠ i := by
    rintro rfl
    exact hno hcall
  rw [(hend.other f hfi).occupied]
  exact h t f hcall

section
variable (h : Rested s)
include h

theorem Rested.act {a : Act M} (hs : Steady s) (ha : a.Ok o p c s) : Rested (a.run c s) where
  box := fun t => (a.effect ha t).box (h.box t)
  calls := by
    intro t f hcall
    have hold := h.calls t f ((a.effect ha t).inCall hs hcall).1
    have hst := Act.place ha
    generalize a.run c s = s' at hcall hst
    cases hst with
    | keep _ _ _ hp => rw [(hp f).occupied, hold]
    | ended i final _ hfinal current heq =>
      subst heq
      exact endTask_calls hfinal h.calls hcall
    | installed slot m size _ _ _ _ heq =>
      subst heq
      rw [installTask_task]
      split
      · rfl
      · exact hold

theorem Rested.acts (hs : Steady s) (hacts : Acts o p c s s') : Rested s' :=
  (hacts.invariant (P := fun u => Steady u ∧ Rested u) ⟨hs, h⟩ fun _ _ hu ha =>
    ⟨hu.1.act ha, hu.2.act hu.1 ha⟩).2

theorem Rested.finish (hs : Steady s) (hfin : Finish c p s s') : Rested s' := by
  have hp : ∀ t, SamePlace (s.task t) (s'.task t) := fun t => (hfin.ending t).place hs
  refine ⟨fun t ht => ?_, fun t f hcall => ?_⟩
  · rw [(hp t).occupied] at ht
    have hbox := h.box t ht
    have hending := hfin.ending t
    generalize s'.task t = u at hending
    cases hending <;> exact hbox
  · rw [(hp f).occupied]
    have hending := hfin.ending t
    generalize s'.task t = u at hending hcall
    cases hending with
    | same | result => exact h.calls t f hcall
    | block _ _ _ hlive =>
      obtain ⟨buf, len, hst⟩ := inCallTo_eq_true.1 hcall
      cases hst
      exact (hlive buf len f rfl).2
    | netWake => cases hcall

theorem Rested.keep (hst : ∀ t, (s'.task t).state = (s.task t).state)
    (hbox : ∀ t, (s'.task t).mailbox = (s.task t).mailbox ∧ (s'.task t).cred = (s.task t).cred) : Rested s' := by
  refine ⟨fun t ht => ?_, fun t f hcall => ?_⟩
  · rw [hst] at ht
    rw [(hbox t).1, (hbox t).2]
    exact h.box t ht
  · rw [hst] at hcall ⊢
    exact h.calls t f hcall

theorem Rested.modify {f : Task → Task} {i : Slot} (hst : (f (s.task i)).state = (s.task i).state ∨
      (f (s.task i)).state = .runnable ∧ (s.task i).state.isOccupied)
    (hbox : (f (s.task i)).mailbox = (s.task i).mailbox ∧ (f (s.task i)).cred = (s.task i).cred) :
    Rested (s.modify i f) := by
  have hocc (t : Slot) : ((s.modify i f).task t).state.isOccupied = (s.task t).state.isOccupied := by
    refine modify_proj t (·.state.isOccupied) ?_
    rcases hst with hsame | ⟨hrun, hlive⟩
    · rw [hsame]
    · rw [hrun, hlive]
      rfl
  refine ⟨fun t ht => ?_, fun t g hcall => ?_⟩
  · rw [hocc] at ht
    rw [modify_proj t Task.mailbox hbox.1, modify_proj t Task.cred hbox.2]
    exact h.box t ht
  rw [hocc]
  rw [modify_task] at hcall
  split at hcall
  · rcases hst with hsame | ⟨hrun, -⟩
    · rw [hsame] at hcall
      exact h.calls i g hcall
    · rw [hrun] at hcall
      cases hcall
  · exact h.calls t g hcall

theorem Rested.special {u : State M} (hu : Special s p k u) : Rested u := by
  cases hu with
  | quiet m => exact h.keep (fun _ => rfl) fun _ => ⟨rfl, rfl⟩
  | @reply _ _ _ t x0 m ht =>
    have hcall := (replyTarget_eq_some.1 ht).1
    have hreply : Rested (s.modify t fun u => u.release x0) :=
      h.modify (.inr ⟨rfl, inCallTo_occupied hcall⟩) ⟨rfl, rfl⟩
    exact hreply.keep (fun _ => rfl) fun _ => ⟨rfl, rfl⟩
  | @spawn _ _ _ _ slot size out m program hslot =>
    have hfree := (freeSlot_eq_some hslot).2
    refine ⟨fun t ht => ?_, fun t f hcall => ?_⟩
    · simp only [spawned, spawnedTable] at ht ⊢
      split
      · rename_i hts
        rw [if_pos hts] at ht
        cases ht
      rename_i hts
      rw [if_neg hts] at ht
      exact h.box t ht
    · simp only [spawned, spawnedTable] at hcall ⊢
      split at hcall
      · cases hcall
      split
      · rfl
      · exact h.calls t f hcall
  | @setId uid gid ptr count new gids m =>
    have hset : Rested (s.modify p fun u => { u with groups := gids, saved := u.id, id := new }) :=
      h.modify (.inl rfl) ⟨rfl, rfl⟩
    exact hset.keep (fun _ => rfl) fun _ => ⟨rfl, rfl⟩
  | @delegate g t m =>
    have hset : Rested (setDelegate s g t) := h.modify (.inl rfl) ⟨rfl, rfl⟩
    exact hset.keep (fun _ => rfl) fun _ => ⟨rfl, rfl⟩

theorem Rested.step (hs : Steady s) (hst : Step s e s') : Rested s' := by
  rcases step_cases hs hst with ⟨u, hacts, hfin⟩ | ⟨c, d, k, r, u, rfl, hu, rfl⟩
  · exact (h.acts hs hacts).finish (hs.acts hacts) hfin
  · exact (h.special hu).modify (.inl rfl) ⟨rfl, rfl⟩

end

theorem booted_rested (hb : Booted s) : Rested s := by
  obtain ⟨b, top, q, d, rfl⟩ := hb
  refine ⟨fun t _ => ?_, fun t f hcall => ?_⟩
  · simp only [bootState]
    split <;> exact ⟨rfl, rfl⟩
  · simp only [bootState] at hcall
    split at hcall <;> cases hcall

/-- **No message and no call outlives the task it was for.** -/
theorem reached_rested (h : Reached s) : Rested s :=
  (h.invariant (P := fun s => Steady s ∧ Rested s) (fun _ h => ⟨booted_steady h, booted_rested h⟩)
    fun _ _ _ hs hst => ⟨hs.1.step hst, hs.2.step hs.1 hst⟩).2

/-- **An empty slot holds nothing of its last task, and no task waits for it.** -/
theorem empty_slot_bare (h : Reached s) (ht : t.isSpawnable) (hempty : (s.task t).state.isOccupied = false) :
    (s.misc.aux t).Vacant ∧ (s.task t).mailbox = [] ∧ (s.task t).cred = .none ∧
      ∀ u, (s.task u).state.inCallTo t = false := by
  obtain ⟨hbox, hcred⟩ := (reached_rested h).box t hempty
  refine ⟨reached_vacant h t ht hempty, hbox, hcred, fun u => Bool.eq_false_iff.2 fun hcall => ?_⟩
  rw [(reached_rested h).calls u t hcall] at hempty
  cases hempty

/-- the shell starts a task with an argument and sends it a message; the task turns its keyboard to raw mode and
grants a buffer. -/
def slotInUse : List (Entry twoCores) :=
  [stagesImage, asksFirst (.argsStage 0x400000 4), asksFirst (.spawn 128 0 4 0),
    asksFirst (.msgSend 6 0x400000 4),
    asksFirst .yield, asksFirst (.kbdMode 1), asksFirst (.grant 0 0xE00000 16 1)]

/-- the task exits and the shell reaps it. -/
def slotLeft : List (Entry twoCores) := slotInUse ++ [asksFirst (.exit 3), asksFirst (.wait 6)]

/-- nothing of it is left. -/
theorem empty_slot_bare_left :
    let used := after twoCoresBoot slotInUse
    let left := after twoCoresBoot slotLeft
    ((used.misc.aux 6).argv.length = 4 ∧ (used.misc.aux 6).kbdRaw = true ∧
      (used.misc.aux 6).grant.active = true ∧
      (used.task 6).mailbox.length = 1) ∧
    (left.misc.aux 6).Vacant ∧ (left.task 6).mailbox = [] ∧ (left.task 6).cred = .none ∧
      ∀ u, (left.task u).state.inCallTo 6 = false := by
  intro used left
  refine ⟨by decide +kernel, ?_⟩
  have hreached : Reached left := reached_after (by decide +kernel)
  exact empty_slot_bare hreached rfl (by decide +kernel)

/-! ## Marks -/

/-- the tasks marked to be ended, and the one an interrupt has condemned, have been started. -/
structure Dated (s : State M) : Prop where
  doomed : ∀ t, (s.misc.aux t).doomed / 256 < s.nextGen
  kill : s.misc.pendingKill / 256 < s.nextGen

theorem taskIdOf_issued (hn : Issued s) {id : Nat} (h : taskIdOf s.task t = some id) : id / 256 < s.nextGen := by
  rw [(taskIdOf_eq_some.1 h).2]
  unfold idOf
  rw [pack_number]
  exact hn.gens t

theorem Dated.hush {m : Misc M} (h : Dated s) (hn : Issued s) (hm : Hush s.task s.misc m) :
    Dated (s.setMisc m) := by
  have hpos : 0 < s.nextGen := lt_of_le_of_lt (Nat.zero_le _) (hn.gens Slot.first)
  have hbooks : ∀ m' : Misc M, SameBooks m' m → m'.aux = s.misc.aux → m'.pendingKill / 256 < s.nextGen →
      Dated (s.setMisc m) := by
    intro m' hsame haux hkill
    refine ⟨fun t => ?_, ?_⟩
    · rw [setMisc_misc, hsame.aux, haux]
      exact h.doomed t
    · rw [setMisc_misc, hsame.kill]
      exact hkill
  have hmarks (i : Slot) {id : Nat} (hid : id / 256 < s.nextGen) :
      Dated (s.setMisc (s.misc.modify i fun a => { a with doomed := id })) := by
    refine ⟨fun t => ?_, h.kill⟩
    by_cases ht : t = i
    · rw [ht, setMisc_misc, modify_aux_same]
      exact hid
    · rw [setMisc_misc, modify_aux_other ht]
      exact h.doomed t
  cases hm with
  | still hm | takeBack _ hm => exact hbooks _ hm rfl h.kill
  | condemn hid hm => exact hbooks _ hm rfl (taskIdOf_issued hn hid)
  | pardon hm => exact hbooks _ hm rfl (by rw [Nat.zero_div]; exact hpos)
  | @mark i id hid => exact hmarks i (taskIdOf_issued hn hid)
  | unmark i => exact hmarks i ((Nat.zero_div 256).symm ▸ hpos)
  | name =>
    refine ⟨fun t => ?_, h.kill⟩
    rw [setMisc_misc, modify_proj Aux.doomed (by intro _; rfl)]
    exact h.doomed t

theorem endTask_pendingKill (s : State M) (i : Slot) (final : TaskState) :
    (endTask s i final).misc.pendingKill = s.misc.pendingKill := by
  have hrev : (revertInputOwnerIf s.task (s.misc.modify i fun a => { a with doomed := 0 }) i).pendingKill
      = s.misc.pendingKill := by
    unfold revertInputOwnerIf
    simp only
    split <;> split <;> rfl
  rw [endTask_misc]
  unfold releaseStagingOf
  split <;> exact hrev

theorem endTask_doomed (s : State M) (i : Slot) (final : TaskState) :
    ((endTask s i final).misc.aux i).doomed = 0 := by
  have hrev : ((revertInputOwnerIf s.task (s.misc.modify i fun a => { a with doomed := 0 }) i).aux i).doomed
      = ((s.misc.modify i fun a => { a with doomed := 0 }).aux i).doomed :=
    revertInputOwnerIf_proj (fun _ _ => rfl) _ _ _ _
  rw [endTask_misc, modify_aux_same, releaseStagingOf_aux]
  exact hrev.trans (by rw [modify_aux_same])

theorem Dated.shift (h : Dated s) (hn : Issued s) (hst : Shift s s') : Dated s' := by
  have hpos : 0 < s.nextGen := lt_of_le_of_lt (Nat.zero_le _) (hn.gens Slot.first)
  cases hst with
  | keep _ _ hgen _ hm =>
    have hhush := h.hush hn hm
    refine ⟨fun t => ?_, ?_⟩
    · rw [hgen]
      exact hhush.doomed t
    · rw [hgen]
      exact hhush.kill
  | ended i final _ _ current heq =>
    subst heq
    refine ⟨fun t => ?_, ?_⟩
    · show ((endTask s i final).misc.aux t).doomed / 256 < s.nextGen
      by_cases ht : t = i
      · rw [ht, endTask_doomed, Nat.zero_div]
        exact hpos
      have hsame : ((endTask s i final).misc.aux t).doomed = (s.misc.aux t).doomed :=
        endTask_proj (fun _ _ => rfl) s i final ht
      rw [hsame]
      exact h.doomed t
    · show (endTask s i final).misc.pendingKill / 256 < s.nextGen
      rw [endTask_pendingKill]
      exact h.kill
  | installed slot m size _ _ _ hm heq =>
    subst heq
    refine ⟨fun t => ?_, ?_⟩
    · show ((setPreviousOwner m slot 0).aux t).doomed / 256 < s.nextGen + 1
      have hsame : ((setPreviousOwner m slot 0).aux t).doomed = (m.aux t).doomed :=
        setPreviousOwner_proj (fun _ _ => rfl) m slot 0 t
      rw [hsame, hm.aux]
      exact Nat.lt_succ_of_lt (h.doomed t)
    · show m.pendingKill / 256 < s.nextGen + 1
      rw [hm.kill]
      exact Nat.lt_succ_of_lt h.kill

theorem Dated.shifts (h : Dated s) (hn : Issued s) (hst : Shifts s s') : Dated s' := by
  induction hst with
  | refl => exact h
  | tail hpre hlast ih => exact ih.shift (hn.shifts hpre) hlast

theorem Dated.told {x : Nat × State M} (h : Dated s) (hn : Issued s) (hbook : Booked s cur k x) : Dated x.2 := by
  have hbooks : ∀ m : Misc M, (∀ t, (m.aux t).doomed = (s.misc.aux t).doomed) →
      m.pendingKill = s.misc.pendingKill → Dated (s.setMisc m) := by
    intro m hdoomed hkill
    refine ⟨fun t => ?_, ?_⟩
    · rw [setMisc_misc, hdoomed]
      exact h.doomed t
    · rw [setMisc_misc, hkill]
      exact h.kill
  have hmine : ∀ {m : Misc M} {f : Aux → Aux}, (∀ a, (f a).doomed = a.doomed) → Dated (s.setMisc m) →
      Dated (s.setMisc (m.modify cur f)) := by
    intro m f hf hm
    refine ⟨fun t => ?_, hm.kill⟩
    rw [setMisc_misc, modify_proj Aux.doomed hf]
    exact hm.doomed t
  cases hbook with
  | refused _ hm =>
    rcases hm with hm | hm
    · exact hbooks _ (fun t => by rw [hm.aux]) hm.kill
    · exact hbooks _ (fun t => by rw [hm.aux]) hm.kill
  | stages => exact hbooks _ (fun _ => rfl) rfl
  | grants | names => exact hmine (by intro _; rfl) h
  | handsOver =>
    exact hbooks _ (setInputOwner_proj (fun _ _ => rfl) (fun _ _ => rfl) _ _ _ _)
      (setInputOwner_keeps (fun _ _ _ => rfl) (fun _ _ _ => rfl) (fun _ _ _ => rfl) ..)
  | asks hm => exact h.shifts hn (.hushes hm)
  | sets hm raw => exact hmine (by intro _; rfl) (h.shifts hn (.hushes hm))
  | @spawns _ stdout argvLen cwdLen slot size out mem _ _ hstart =>
    refine ⟨fun t => ?_, Nat.lt_succ_of_lt h.kill⟩
    have hblobs : ((setBlobs (setPreviousOwner (s.misc.setMem mem) slot 0) slot cur s.misc.staging stdout
        argvLen cwdLen).aux t).doomed = ((setPreviousOwner (s.misc.setMem mem) slot 0).aux t).doomed := by
      unfold setBlobs
      exact modify_proj Aux.doomed (by intro _; rfl) slot t
    have hlink : ((setPreviousOwner (s.misc.setMem mem) slot 0).aux t).doomed = (s.misc.aux t).doomed :=
      setPreviousOwner_proj (fun _ _ => rfl) _ slot 0 t
    show ((setBlobs (setPreviousOwner (s.misc.setMem mem) slot 0) slot cur s.misc.staging stdout
        argvLen cwdLen).aux t).doomed / 256 < s.nextGen + 1
    rw [hblobs, hlink]
    exact Nat.lt_succ_of_lt (h.doomed t)

theorem Dated.step (h : Dated s) (hs : Steady s) (hn : Issued s) (hst : Step s e s') : Dated s' := by
  rcases step_booked hs hst with ⟨hshifts, -⟩ | ⟨c, d, k, m, x, rfl, hm, hbook, rfl⟩
  · exact h.shifts hn hshifts
  · have htold := (h.shifts hn (load_shifts hm)).told (hn.shifts (load_shifts hm)) hbook
    exact ⟨htold.doomed, htold.kill⟩

/-- **A mark names a task that was started.** -/
theorem reached_dated (h : Reached s) : Dated s := by
  refine (h.invariant (P := fun s => Steady s ∧ Numbered s ∧ Dated s) (fun s hb => ?_)
    fun s e s' hs hst => ⟨hs.1.step hst, hs.2.1.step hs.1 hst, hs.2.2.step hs.1 hs.2.1.issued hst⟩).2.2
  refine ⟨booted_steady hb, booted_numbered hb, ?_⟩
  have hpos : 0 < s.nextGen := lt_of_le_of_lt (Nat.zero_le _) ((booted_numbered hb).gens Slot.first)
  obtain ⟨b, top, q, d, rfl⟩ := hb
  have hzero : 0 / 256 < (bootState M b top q d).nextGen := by
    rw [Nat.zero_div]
    exact hpos
  exact ⟨fun _ => hzero, hzero⟩

end Vacant

end Ouroboros.Kernel
