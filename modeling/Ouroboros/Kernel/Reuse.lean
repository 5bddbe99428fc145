import Ouroboros.Kernel.Foreground
import Ouroboros.Kernel.Rights
import Ouroboros.Kernel.Staging
import Ouroboros.Kernel.View

/-!
# A slot that is used again

What a task finds out about itself by system calls does not depend on who had its slot before.

* `spawn_view`  the view of a new task comes from its spawner and the staging area;
* `trace_talk`  what a task has heard follows from its first view and what it has asked;
* `slot_reuse`  two tasks started alike get the same answers, whatever their slot went through.
-/

namespace Ouroboros.Kernel

open Relation Transition List State

variable {slot sp : Slot} {out : Option Slot}

section Reuse
variable {M : Machine} {s s' : State M} {t : Slot} {T : Table}

/-! ## A new task -/

/-- the view of a task started by `sp` in `slot` from the staging `g`. -/
def freshView (spawner : Task) (ns : List UInt8) (g : Staging) (sp slot : Slot)
    (size stdout argvLen cwdLen : Nat) : View where
  id := spawner.id
  saved := spawner.id
  groups := spawner.groups
  cred := .none
  rights := fun u => staticSend slot u || (u == sp || u.val == stdout)
  size := size
  kbdRaw := false
  argv := g.argv.take argvLen
  cwd := g.cwd.take cwdLen
  env := g.env.take envMax
  ns := ns
  stdoutTarget := stdout
  queued := false
  owner := false
  doomed := false
  awaited := false

theorem console_static (h : slot.isSpawnable) : staticSend slot Slot.con := by
  revert slot
  decide

theorem no_static_self (h : slot.isSpawnable) : staticSend slot slot = false := by
  revert slot
  decide

theorem spawned_rights {stdout : Nat} (hout : stdoutTask T sp stdout = .ok out)
    (hslot : slot.isSpawnable) (u : Slot) :
    (staticSend slot u || (u == sp || (out == some u && !staticSend slot u))) =
      (staticSend slot u || (u == sp || u.val == stdout)) := by
  cases hst : staticSend slot u with
  | true => rfl
  | false =>
    congr 2
    cases out with
    | none =>
      have hcon : stdout = Slot.con.val := by
        unfold stdoutTask at hout
        split at hout
        · assumption
        split at hout
        · cases hout
        · split at hout <;> cases hout
      have hne : u.val ≠ stdout := by
        intro heq
        have hu : u = Slot.con := Fin.ext (heq.trans hcon)
        rw [hu, console_static hslot] at hst
        cases hst
      rw [beq_eq_false_iff_ne.2 hne]
      rfl
    | some o =>
      rw [stdoutTask_some hout]
      by_cases hou : o = u
      · simp [hou]
      have huo : u.val ≠ o.val := fun h => hou (Fin.ext h.symm)
      rw [beq_eq_false_iff_ne.2 huo]
      simpa using hou

theorem spawned_not {gen id : Nat} {region : Nat × Nat}
    (h : id / 256 < gen) : occupantIs (spawnedTable T sp slot gen region out) slot id = false := by
  unfold occupantIs taskIdOf
  simp only [spawnedTable, if_true, spawnedTask, reduceCtorEq, if_false]
  rw [beq_eq_false_iff_ne]
  intro heq
  rw [Option.some.injEq] at heq
  rw [← heq, pack_number] at h
  exact absurd h (lt_irrefl _)

section spawn
variable {c : Fin M.cores} {d : Dev} {totalLen stdout argvLen cwdLen : Nat} {size : Nat} {m : Misc M}
variable {program : List UInt8} {mem : Nat → UInt8}

theorem reached_parents (h : Reached s) (t : Slot) : (s.task t).parent / 256 < s.nextGen := by
  refine (h.invariant
    (P := fun s => (Steady s ∧ Numbered s) ∧ ∀ t, (s.task t).parent / 256 < s.nextGen) ?_ ?_).2 t
  · intro s hb
    have hn := booted_numbered hb
    refine ⟨⟨booted_steady hb, hn⟩, fun t => ?_⟩
    obtain ⟨b, top, q, d, rfl⟩ := hb
    have hzero : ((bootState M b top q d).task t).parent = 0 := by
      unfold bootState
      simp only
      split <;> rfl
    rw [hzero]
    exact lt_of_le_of_lt (Nat.zero_le _) (hn.gens t)
  · intro s e s' ⟨⟨hs, hn⟩, hp⟩ hst
    refine ⟨⟨hs.step hst, hn.step hs hst⟩, fun t => ?_⟩
    refine lt_of_lt_of_le ?_ (step_nextGen_le hs hst)
    rcases step_parent hs hst t with ⟨hsame, -⟩ | hnone | ⟨q, -, hparent⟩
    · rw [hsame]
      exact hp t
    · rw [hnone]
      exact lt_of_le_of_lt (Nat.zero_le _) (hn.gens t)
    · rw [hparent, pack_number]
      exact hn.gens q

/-- **An id that is still to be issued is named nowhere**: no mark, kill or parent meets a task started later. -/
theorem next_id_unnamed (h : Reached s) (t u : Slot) : let id := pack s.nextGen t
    (s.misc.aux u).doomed ≠ id ∧ s.misc.pendingKill ≠ id ∧ (s.task u).parent ≠ id := by
  have hne {n : Nat} (hn : n / 256 < s.nextGen) : n ≠ pack s.nextGen t := by
    rintro rfl
    exact absurd hn (pack_number _ _ ▸ lt_irrefl _)
  exact ⟨hne ((reached_dated h).doomed u), hne (reached_dated h).kill, hne (reached_parents h u)⟩

/-- a task starts another and exits; the second core runs the orphan when the shell kills it. -/
def orphanMarked : List (Entry twoCores) :=
  [stagesImage, spawnsChild, asksFirst .yield, .syscall (0 : Fin 2) (programAt 0xE00000)
    (.spawnStage 0 0xE00000 128),
    spawnsChild, asksFirst (.exit 0), asksFirst .yield, .coreUp secondCore, asksFirst (.wait 6),
    .timer secondCore noDev, asksFirst (.kill 7)]

/-- the orphan is marked and its parent has ended; the next task of either slot is neither. -/
theorem next_id_unnamed_orphan :
    let s := after twoCoresBoot orphanMarked
    ((s.misc.aux 7).doomed = pack 4 7 ∧ (s.task 7).parent = pack 3 6 ∧ (s.task 6).state = .unused) ∧
    (∀ id ∈ [pack s.nextGen 6, pack s.nextGen 7],
      (s.misc.aux 7).doomed ≠ id ∧ s.misc.pendingKill ≠ id ∧ (s.task 7).parent ≠ id) := by
  intro s
  have hreached : Reached s := reached_after (by decide +kernel)
  refine ⟨by decide +kernel, ?_⟩
  intro id hid
  simp only [mem_cons, not_mem_nil, or_false] at hid
  rcases hid with rfl | rfl
  · exact next_id_unnamed hreached 6 7
  · exact next_id_unnamed hreached 7 7

theorem spawned_not_doomed (hd : Dated s)
    (hmark : (m.aux slot).doomed = (s.misc.aux slot).doomed) (hkill : m.pendingKill = s.misc.pendingKill) :
    killPendingFor (spawned s sp slot size out m).task m slot = false := by
  unfold killPendingFor spawned
  rw [hmark, hkill, spawned_not (hd.doomed slot), spawned_not hd.kill, Bool.and_false, Bool.and_false]
  rfl

theorem spawned_not_awaited (hr : Rested s) (hfree : (s.task slot).state.isOccupied = false) :
    (Slot.all.any fun u => ((spawned s sp slot size out m).task u).state.inCallTo slot) = false := by
  rw [any_eq_false]
  intro u _ hcall
  simp only [spawned, spawnedTable] at hcall
  split at hcall
  · cases hcall
  have hocc := hr.calls u slot hcall
  rw [hfree] at hocc
  cases hocc

theorem startedMisc_vacant (mem : Nat → UInt8) (g : Staging)
    (stdout argvLen cwdLen : Nat) (hv : (m.aux slot).Vacant) (hne : slot ≠ sp) :
    let a := (startedMisc m mem slot sp g stdout argvLen cwdLen).aux slot
    a.argv = g.argv.take argvLen ∧ a.cwd = g.cwd.take cwdLen ∧ a.env = g.env.take envMax ∧
      a.ns = (m.aux sp).ns ∧ a.stdoutTarget = stdout ∧ a.kbdRaw = false ∧ a.doomed = (m.aux slot).doomed ∧
      a.grant.active = false := by
  have hempty : ((setPreviousOwner (m.setMem mem) slot 0).aux slot).Vacant :=
    hv.congr (setPreviousOwner_proj (fun _ _ => rfl) _ _ _ _)
  obtain ⟨hargv, hcwd, henv⟩ := setBlobs_vacant sp g stdout argvLen cwdLen hempty
  refine ⟨hargv, hcwd, henv, ?_, ?_⟩
  · simp [startedMisc, setBlobs, setPreviousOwner, Misc.modify, Misc.setStaging, Misc.setMem, hne.symm]
  · simp [startedMisc, setBlobs, setPreviousOwner, Misc.modify, Misc.setStaging, Misc.setMem,
      hv.kbdRaw, hv.grant]

theorem OwnerLive.ne_free (h : OwnerLive s) (hslot : slot.isSpawnable)
    (hfree : (s.task slot).state.isOccupied = false) : s.misc.inputOwner ≠ slot := by
  rintro rfl
  rcases h with hfirst | ⟨-, hocc⟩
  · rw [hfirst] at hslot
    cases hslot
  · rw [hfree] at hocc
    cases hocc

theorem spawned_view
    (argvLen cwdLen : Nat) (hv : Vacant s) (hr : Rested s) (hd : Dated s) (ho : OwnerLive s) (hne : slot ≠ sp)
    (hstart : Starts s sp slot program size out stdout mem) :
    view (spawned s sp slot size out
      (startedMisc s.misc mem slot sp s.misc.staging stdout argvLen cwdLen)) slot =
      freshView (s.task sp) (s.misc.aux sp).ns s.misc.staging sp slot size stdout argvLen cwdLen := by
  obtain ⟨hslot, hunused⟩ := freeSlot_eq_some hstart.free
  have hfree : (s.task slot).state.isOccupied = false := by
    rw [hunused]
    rfl
  obtain ⟨hbox, hcred⟩ := hr.box slot hfree
  obtain ⟨hargv, hcwd, henv, hns, hout, hraw, hmark, -⟩ :=
    startedMisc_vacant mem s.misc.staging stdout argvLen cwdLen (hv slot hslot hfree) hne
  have howner : (s.misc.inputOwner == slot) = false := beq_eq_false_iff_ne.2 (ho.ne_free hslot hfree)
  have hsame : (startedMisc s.misc mem slot sp s.misc.staging stdout argvLen cwdLen).inputOwner =
      s.misc.inputOwner :=
    rfl
  have hkill : (startedMisc s.misc mem slot sp s.misc.staging stdout argvLen cwdLen).pendingKill =
    s.misc.pendingKill := rfl
  generalize startedMisc s.misc mem slot sp s.misc.staging stdout argvLen cwdLen = m at *
  have hmisc : (spawned s sp slot size out m).misc = m := rfl
  have htask : (spawned s sp slot size out m).task slot = spawnedTask s.task sp slot s.nextGen
      (cursor (allocateRuntimeRegion s.top size), size) out := if_pos rfl
  have hrights : holdsSendRight (spawned s sp slot size out m).task slot =
      fun u => staticSend slot u || (u == sp || u.val == stdout) := by
    funext u
    rw [← spawned_rights hstart.output hslot u]
    unfold holdsSendRight
    rw [htask]
    rfl
  unfold view
  rw [hmisc, spawned_not_doomed hd hmark hkill, spawned_not_awaited hr hfree, hrights, htask,
    hargv, hcwd, henv, hns,
    hout, hraw, hsame, howner]
  simp only [spawnedTask, hbox, hcred]
  rfl

theorem stdout_ne_free (hout : stdoutTask T sp stdout = .ok out)
    (hslot : slot.isSpawnable) (hfree : (T slot).state = .unused) : slot.val ≠ stdout := by
  rintro rfl
  unfold stdoutTask at hout
  split at hout
  · rename_i hcon
    rw [Fin.ext hcon] at hslot
    cases hslot
  split at hout
  · cases hout
  rename_i o ho
  obtain ⟨hval, hocc⟩ := liveIndex_eq_some.1 ho
  rw [← Fin.ext hval, hfree] at hocc
  cases hocc

/-- no grant of the slot is active, no task counts as a child of its occupant, and the keyboard does not
go from it to anyone. -/
structure Bare (s : State M) (t : Slot) : Prop where
  grant : (s.misc.aux t).grant.active = false
  children : ∀ u, isChildOf s.task u t = false
  link : (s.misc.aux t).previousOwner = 0

theorem spawned_bare (argvLen cwdLen : Nat) (hv : Vacant s)
    (hp : ∀ u, (s.task u).parent / 256 < s.nextGen) (hn : Issued s)
    (hne : slot ≠ sp) (hstart : Starts s sp slot program size out stdout mem) :
    Bare (spawned s sp slot size out (startedMisc s.misc mem slot sp s.misc.staging stdout argvLen cwdLen))
      slot := by
  obtain ⟨hslot, hunused⟩ := freeSlot_eq_some hstart.free
  have hfree : (s.task slot).state.isOccupied = false := by
    rw [hunused]
    rfl
  obtain ⟨-, -, -, -, -, -, -, hgrant⟩ :=
    startedMisc_vacant mem s.misc.staging stdout argvLen cwdLen (hv slot hslot hfree) hne
  refine ⟨hgrant, fun u => ?_, ?_⟩
  · refine spawned_not ?_
    by_cases hu : u = slot
    · simp only [spawned, spawnedTable, if_pos hu, spawnedTask]
      cases hid : taskIdOf s.task sp with
      | none => exact lt_of_le_of_lt (Nat.zero_le _) (hn.gens sp)
      | some id => exact taskIdOf_issued hn hid
    · simp only [spawned, spawnedTable, if_neg hu]
      exact hp u
  · simp [spawned, startedMisc, setBlobs, setPreviousOwner, Misc.modify, Misc.setStaging, Misc.setMem]

/-- **What a new task is comes from its spawner and the staging area, and nobody has acted on it.** -/
theorem spawn_view (hreach : Reached s) (hst : Step s (.syscall c d (.spawn totalLen stdout argvLen cwdLen)) s')
    (hrun : (s'.task (s.current c)).state = .runnable) (hres : (s'.task (s.current c)).x0 = slot.val) :
    ∃ size, M.elfRegionSize (s.misc.staging.image.take totalLen) = .ok size ∧
      view s' slot = freshView (s.task (s.current c)) (s.misc.aux (s.current c)).ns s.misc.staging (s.current c)
        slot size stdout argvLen cwdLen ∧
      slot.isSpawnable ∧ (view s' slot).Quiet slot ∧ heard s' slot = some 0 ∧ Bare s' slot := by
  obtain ⟨hs, hn⟩ := reached_numbered hreach
  obtain ⟨s₀, k, hb, tr⟩ := id hreach
  have howner := (trace_keyOk hb tr).owner
  obtain ⟨m, size, out, mem, hm, hne, -, -, hstart, rfl⟩ := spawn_started hs hst hrun hres
  have hshifts := load_shifts hm
  have hg : m.staging = s.misc.staging := (load_hushes (T := s.task) hm).staging
  have hns : (m.aux (s.current c)).ns = (s.misc.aux (s.current c)).ns := by
    rcases hm with rfl | rfl
    · rfl
    · rw [Misc.modify_aux_same]
      rfl
  have hsame : m.inputOwner = s.misc.inputOwner := by
    rcases hm with rfl | rfl <;> rfl
  have hvacant := (reached_vacant hreach).shifts hshifts
  have hrested : Rested (s.setMisc m) := ⟨(reached_rested hreach).box, (reached_rested hreach).calls⟩
  have hdated := (reached_dated hreach).shifts hn.issued hshifts
  have hlive : OwnerLive (s.setMisc m) := by
    unfold OwnerLive
    rw [setMisc_misc, hsame]
    exact howner
  have hview := spawned_view argvLen cwdLen hvacant hrested hdated hlive hne hstart
  rw [setMisc_task, setMisc_misc, hg, hns] at hview
  obtain ⟨hspawnable, hunused⟩ := freeSlot_eq_some hstart.free
  have hself : (freshView (s.task (s.current c)) (s.misc.aux (s.current c)).ns s.misc.staging
      (s.current c) slot size
      stdout argvLen cwdLen).rights slot = false := by
    unfold freshView
    simp only [no_static_self hspawnable, Bool.false_or, Bool.or_eq_false_iff, beq_eq_false_iff_ne]
    exact ⟨hne, stdout_ne_free hstart.output hspawnable hunused⟩
  have hparents : ∀ u, (s.task u).parent / 256 < s.nextGen := reached_parents hreach
  have hbare := spawned_bare argvLen cwdLen hvacant hparents (hn.issued.shifts hshifts) hne hstart
  refine ⟨size, hg ▸ hstart.sized, ?_, hspawnable, ?_, ?_, hbare.grant, fun u => ?_, hbare.link⟩
  · rw [view_result_other _ hne, hg]
    exact hview
  · rw [view_result_other _ hne, hg, hview]
    exact ⟨rfl, rfl, rfl, rfl, hself⟩
  · unfold heard
    rw [modify_other _ _ _ _ hne]
    simp only [spawned, spawnedTable, if_true, spawnedTask]
  have hnone := hbare.children u
  unfold isChildOf occupantIs taskIdOf at hnone ⊢
  rw [modify_other _ _ _ _ hne]
  by_cases hu : u = s.current c
  · rw [hu] at hnone ⊢
    rw [modify_same]
    exact hnone
  · rw [modify_other _ _ _ _ hu]
    exact hnone

end spawn

/-! ## A task's talk with the kernel -/

/-- the bytes of the task's region, and a call in the task's own addresses. -/
abbrev Question := (Nat → UInt8) × Sys

abbrev Reply := Option Nat × (Nat → UInt8)

/-- what the task in slot `t` asks about itself in a step, and what it gets back. -/
def exchange (t : Slot) : State M × Entry M × State M → Option (Question × Reply)
  | (s, .syscall c d k, s') =>
    let q : Question := (window (s.task t).region d.mem, k.rel (s.task t).region.1)
    if s.current c = t ∧ ((view s t).answer t q.1 q.2).isSome then
      some (q, heard s' t, window (s.task t).region s'.misc.dev.mem)
    else none
  | _ => none

variable {k : Sys}

theorem exchange_own {c : Fin M.cores} {d : Dev} (hcur : s.current c = t)
    (ha : ((view s t).answer t (window (s.task t).region d.mem) (k.rel (s.task t).region.1)).isSome) :
    exchange t (s, .syscall c d k, s') =
        some ((window (s.task t).region d.mem, k.rel (s.task t).region.1), heard s' t,
        window (s.task t).region s'.misc.dev.mem) := by
  unfold exchange
  simp only [hcur, ha, and_self, if_true]

def exchanges (t : Slot) (k : List (State M × Entry M × State M)) : List (Question × Reply) :=
  k.filterMap (exchange t)

/-- every other step leaves what the kernel holds about the task alone. -/
def Untouched (t : Slot) (k : List (State M × Entry M × State M)) : Prop :=
  ∀ x ∈ k, exchange t x = none → view x.2.2 t = view x.1 t ∧ (x.2.2.task t).region = (x.1.task t).region

/-- one more question, of a task with a view and the replies it has got. -/
def View.talk (t : Slot) (p : View × List Reply) (q : Question) : View × List Reply :=
  match p.1.answer t q.1 q.2 with
  | none => p
  | some a => (a.2.2, p.2 ++ [(a.1, a.2.1)])

theorem View.answer_quiet {v : View} {w : Nat → UInt8}
    {a : Option Nat × (Nat → UInt8) × View} (hq : v.Quiet t) (ha : v.answer t w k = some a) : a.2.2.Quiet t := by
  unfold View.answer at ha
  cases k with
  | query q =>
    obtain ⟨y, -, rfl⟩ := Option.map_eq_some_iff.1 ha
    exact hq
  | kbdMode mode | setId uid gid ptr count =>
    simp only at ha
    split at ha
    · cases ha
      exact hq
    · cases ha
      exact ⟨hq.queued, hq.owner, hq.doomed, hq.awaited, hq.own⟩
  | nsSet ptr len =>
    simp only at ha
    split at ha
    · cases ha
      exact ⟨hq.queued, hq.owner, hq.doomed, hq.awaited, hq.own⟩
    split at ha
    · cases ha
      exact hq
    · cases ha
      exact ⟨hq.queued, hq.owner, hq.doomed, hq.awaited, hq.own⟩
  | _ =>
    simp only at ha
    repeat' split at ha
    all_goals cases ha
    all_goals exact hq

/-- **What a task has heard follows from its first view and what it has asked.** -/
theorem trace_talk {u : State M} {k : List (State M × Entry M × State M)} (hs : Steady u)
    (hq : (view u t).Quiet t) (ht : t.isSpawnable) (hregion : Addressable (u.task t).region)
    (tr : Trace Step u k s) (hk : Untouched t k) :
    ((exchanges t k).map Prod.fst).foldl (View.talk t) (view u t, []) =
    (view s t, (exchanges t k).map Prod.snd) ∧
    (view s t).Quiet t ∧ (s.task t).region = (u.task t).region ∧ Steady s := by
  induction tr with
  | nil => exact ⟨rfl, hq, rfl, hs⟩
  | @snoc k s e s' pre hst ih =>
    obtain ⟨htalk, hquiet, hsame, hsteady⟩ := ih fun x hx => hk x (mem_append_left _ hx)
    have hstep := hk (s, e, s') (by simp)
    have hnext : Steady s' := hsteady.step hst
    unfold exchanges at htalk ⊢
    rw [filterMap_append, map_append, map_append, foldl_append, htalk]
    cases hx : exchange t (s, e, s') with
    | none =>
      obtain ⟨hview, hplace⟩ := hstep hx
      simp only [filterMap_cons, hx, filterMap_nil, map_nil, foldl_nil, append_nil]
      exact ⟨by rw [hview], hview ▸ hquiet, hplace.trans hsame, hnext⟩
    | some y =>
      cases e with
      | syscall c d k' =>
        simp only [exchange] at hx
        split at hx
        · rename_i hself
          obtain ⟨hcur, hsome⟩ := hself
          obtain ⟨a, ha⟩ := Option.isSome_iff_exists.1 hsome
          have hdone := own_step hsteady hquiet ht (hsame ▸ hregion) hcur hst ha
          cases hx
          simp only [filterMap_cons, exchange, hcur, ha, Option.isSome_some, and_self, if_true, filterMap_nil,
            map_cons, map_nil, foldl_cons, foldl_nil, View.talk]
          refine ⟨?_, ?_, hdone.region.trans hsame, hnext⟩
          · rw [hdone.view, hdone.result, hdone.mem]
          · rw [hdone.view]
            exact View.answer_quiet hquiet ha
        · cases hx
      | _ => cases hx

/-! ## Two histories -/

/-- the spawner in the two histories: its identity, its namespace and what it has staged. -/
structure SameSpawner (s₁ s₂ : State M) (p : Slot) : Prop where
  id : (s₁.task p).id = (s₂.task p).id
  groups : (s₁.task p).groups = (s₂.task p).groups
  ns : (s₁.misc.aux p).ns = (s₂.misc.aux p).ns
  image : s₁.misc.staging.image = s₂.misc.staging.image
  argv : s₁.misc.staging.argv = s₂.misc.staging.argv
  cwd : s₁.misc.staging.cwd = s₂.misc.staging.cwd
  env : s₁.misc.staging.env = s₂.misc.staging.env

/-- **A slot that is used again carries nothing over.**  When two histories end with the same `SPAWN` into the
same slot, whoever had it before, the kernel holds the same about the two tasks; as long as no other task acts
on them, the same calls, in addresses that count from their regions, have the same results and leave the same
bytes. -/
theorem slot_reuse {s₁ s₂ u₁ u₂ : State M} {c₁ c₂ : Fin M.cores} {d₁ d₂ : Dev}
    {totalLen stdout argvLen cwdLen : Nat} {slot : Slot} (h₁ : Reached s₁) (h₂ : Reached s₂)
    (hsp : s₁.current c₁ = s₂.current c₂) (halike : SameSpawner s₁ s₂ (s₁.current c₁))
    (hst₁ : Step s₁ (.syscall c₁ d₁ (.spawn totalLen stdout argvLen cwdLen)) u₁)
    (hst₂ : Step s₂ (.syscall c₂ d₂ (.spawn totalLen stdout argvLen cwdLen)) u₂)
    (hok₁ : heard u₁ (s₁.current c₁) = some slot.val) (hok₂ : heard u₂ (s₂.current c₂) = some slot.val) :
    view u₁ slot = view u₂ slot ∧ heard u₁ slot = some 0 ∧ heard u₂ slot = some 0 ∧
    Bare u₁ slot ∧ Bare u₂ slot ∧
    ∀ k₁ k₂ v₁ v₂, Trace Step u₁ k₁ v₁ → Trace Step u₂ k₂ v₂ → Untouched slot k₁ → Untouched slot k₂ →
      Addressable (u₁.task slot).region → Addressable (u₂.task slot).region →
      (exchanges slot k₁).map Prod.fst = (exchanges slot k₂).map Prod.fst →
      exchanges slot k₁ = exchanges slot k₂ ∧ view v₁ slot = view v₂ slot := by
  obtain ⟨hrun₁, hres₁⟩ := heard_eq_some.1 hok₁
  obtain ⟨hrun₂, hres₂⟩ := heard_eq_some.1 hok₂
  obtain ⟨size₁, hsize₁, hview₁, hslot, hquiet₁, hheard₁, hbare₁⟩ := spawn_view h₁ hst₁ hrun₁ hres₁
  obtain ⟨size₂, hsize₂, hview₂, -, hquiet₂, hheard₂, hbare₂⟩ := spawn_view h₂ hst₂ hrun₂ hres₂
  have hsize : size₁ = size₂ := by
    rw [halike.image, hsize₂] at hsize₁
    exact (Except.ok.inj hsize₁).symm
  have hviews : view u₁ slot = view u₂ slot := by
    rw [hview₁, hview₂, ← hsp, hsize]
    unfold freshView
    rw [halike.id, halike.groups, halike.ns, halike.argv, halike.cwd, halike.env]
  refine ⟨hviews, hheard₁, hheard₂, hbare₁, hbare₂, ?_⟩
  intro k₁ k₂ v₁ v₂ tr₁ tr₂ hk₁ hk₂ hregion₁ hregion₂ hasked
  have hsteady₁ : Steady u₁ := (reached_steady h₁).step hst₁
  have hsteady₂ : Steady u₂ := (reached_steady h₂).step hst₂
  obtain ⟨htalk₁, -⟩ := trace_talk hsteady₁ hquiet₁ hslot hregion₁ tr₁ hk₁
  obtain ⟨htalk₂, -⟩ := trace_talk hsteady₂ hquiet₂ hslot hregion₂ tr₂ hk₂
  rw [hasked, hviews, htalk₂, Prod.mk.injEq] at htalk₁
  refine ⟨?_, htalk₁.1.symm⟩
  rw [← zip_unzip (exchanges slot k₁), ← zip_unzip (exchanges slot k₂), unzip_eq_map,
    unzip_eq_map, hasked, htalk₁.2]

/-! ## A second task in the slot -/

/-- the shell starts a task, which turns the keyboard to raw mode and exits, and stages another. -/
def earlierTask : List (Entry twoCores) :=
  [stagesImage, spawnsChild, asksFirst .yield, asksFirst (.kbdMode 1), asksFirst (.exit 3), asksFirst (.wait 6),
    stagesImage]

/-- the shell lets the new task run, and that asks for its keyboard mode and its slot. -/
def newTaskAsks : List (Entry twoCores) := [asksFirst .yield, asksFirst (.kbdMode 2), asksFirst .self]

def slotNew : State twoCores := after twoCoresBoot [stagesImage]

def slotUsed : State twoCores := after twoCoresBoot earlierTask

def slotNewFilled : State twoCores := after slotNew [spawnsChild]

def slotUsedFilled : State twoCores := after slotUsed [spawnsChild]

def yielded (u : State twoCores) : State twoCores :=
  ((u.load noDev).modify Slot.first fun t => { t with x0 := 0 }).setCurrent (0 : Fin 2) 6

def modeAsked (u : State twoCores) : State twoCores :=
  (step (yielded u) (asksFirst (.kbdMode 2))).getD (yielded u)

theorem step_yielded {u : State twoCores} (hcur : u.current (0 : Fin 2) = Slot.first)
    (hmark : (u.misc.aux Slot.first).doomed = 0)
    (hnext : nextRunnable (u.load noDev) (0 : Fin 2) Slot.first = some 6) :
    step u (asksFirst .yield) = some (yielded u) := by
  have hloaded : (u.load noDev).current (0 : Fin 2) = Slot.first := hcur
  have hunmarked : ((u.load noDev).misc.aux Slot.first).doomed = 0 := hmark
  have hne : ¬ Slot.first = Slot.idle := by
    decide
  have hother : ¬ (6 : Slot) = Slot.first := by
    decide
  simp only [step, asksFirst, trapEntry, endIfDoomed, hcur, hloaded, hunmarked, dispatch,
    yieldCurrent, hnext, hne,
    hother, yielded, if_true, if_false, Option.bind_some, Option.map_some]
  rfl

theorem window_zero (region : Nat × Nat) : window region noDev.mem = fun _ => 0 := by
  funext a
  exact ite_self _

section asks
variable {u b v : State twoCores} (hyield : step u (asksFirst .yield) = some (yielded u))
  (hmode : step (yielded u) (asksFirst (.kbdMode 2)) = some b) (hself : step b (asksFirst .self) = some v)
include hyield hmode hself

theorem newTaskAsks_record : record u newTaskAsks =
      [(u, asksFirst .yield, yielded u), (yielded u, asksFirst (.kbdMode 2), b), (b, asksFirst .self, v)] := by
  simp only [newTaskAsks, record, hyield, hmode, hself]

theorem newTaskAsks_untouched (hb : b.current (0 : Fin 2) = 6) : Untouched 6 (record u newTaskAsks) := by
  rw [newTaskAsks_record hyield hmode hself]
  intro x hx hnone
  simp only [mem_cons, not_mem_nil, or_false] at hx
  rcases hx with rfl | rfl | rfl
  · exact ⟨view_result_other (u.load noDev) (by decide) 0, rfl⟩
  · cases hnone.symm.trans (exchange_own rfl rfl)
  · cases hnone.symm.trans (exchange_own hb rfl)

theorem newTaskAsks_asked (hu : u.current (0 : Fin 2) = Slot.first) (hb : b.current (0 : Fin 2) = 6) :
    (exchanges 6 (record u newTaskAsks)).map Prod.fst = [(fun _ => 0, .kbdMode 2), (fun _ => 0, .self)] := by
  have hnot : exchange 6 (u, asksFirst .yield, yielded u) = none :=
    if_neg fun h => absurd (hu.symm.trans h.1) (by decide)
  have hmodeAsked : exchange 6 (yielded u, asksFirst (.kbdMode 2), b) = some _ := exchange_own rfl rfl
  have hselfAsked : exchange 6 (b, asksFirst .self, v) = some _ := exchange_own hb rfl
  rw [newTaskAsks_record hyield hmode hself]
  simp only [exchanges, filterMap_cons, hnot, hmodeAsked, hselfAsked, filterMap_nil, map_cons,
    map_nil, window_zero]
  rfl

end asks

/-- the first task of the slot and the second hear the same. -/
theorem slot_reuse_second : (slotNewFilled.task 6).gen ≠ (slotUsedFilled.task 6).gen ∧
    ((exchanges 6 (record slotNewFilled newTaskAsks)).map fun x => x.2.1) = [some 0, some 6] ∧
    exchanges 6 (record slotNewFilled newTaskAsks) = exchanges 6 (record slotUsedFilled newTaskAsks) := by
  have hnew : Reached slotNew := reached_after (by decide +kernel)
  have hused : Reached slotUsed := reached_after (by decide +kernel)
  have hcur₁ : slotNew.current (0 : Fin 2) = Slot.first := by
    decide +kernel
  have hcur₂ : slotUsed.current (0 : Fin 2) = Slot.first := by
    decide +kernel
  have hst₁ : Step slotNew spawnsChild slotNewFilled := step_after (by decide +kernel)
  have hst₂ : Step slotUsed spawnsChild slotUsedFilled := step_after (by decide +kernel)
  have hok₁ : heard slotNewFilled Slot.first = some (6 : Slot).val := by
    decide +kernel
  have hok₂ : heard slotUsedFilled Slot.first = some (6 : Slot).val := by
    decide +kernel
  have hsame : SameSpawner slotNew slotUsed Slot.first := by
    constructor <;> decide +kernel
  have hyield₁ := step_yielded (u := slotNewFilled) (by decide +kernel) (by decide +kernel) (by decide +kernel)
  have hyield₂ := step_yielded (u := slotUsedFilled) (by decide +kernel) (by decide +kernel) (by decide +kernel)
  have hmode₁ : Step (yielded slotNewFilled) (asksFirst (.kbdMode 2)) (modeAsked slotNewFilled) :=
    step_getD (by decide +kernel)
  have hmode₂ : Step (yielded slotUsedFilled) (asksFirst (.kbdMode 2)) (modeAsked slotUsedFilled) :=
    step_getD (by decide +kernel)
  have hself₁ : Step (modeAsked slotNewFilled) (asksFirst .self) _ := step_getD (by decide +kernel)
  have hself₂ : Step (modeAsked slotUsedFilled) (asksFirst .self) _ := step_getD (by decide +kernel)
  obtain ⟨-, -, -, -, -, hrun⟩ := slot_reuse hnew hused (hcur₁.trans hcur₂.symm) (hcur₁ ▸ hsame) hst₁ hst₂
    (hcur₁ ▸ hok₁) (hcur₂ ▸ hok₂)
  have hasked := (newTaskAsks_asked hyield₁ hmode₁ hself₁ (by decide +kernel) (by decide +kernel)).trans
    (newTaskAsks_asked hyield₂ hmode₂ hself₂ (by decide +kernel) (by decide +kernel)).symm
  have htr₁ : Trace Step slotNewFilled (record _ newTaskAsks) _ := record_trace (by decide +kernel)
  have htr₂ : Trace Step slotUsedFilled (record _ newTaskAsks) _ := record_trace (by decide +kernel)
  refine ⟨by decide +kernel, by decide +kernel, (hrun _ _ _ _ htr₁ htr₂ ?_ ?_ ?_ ?_ hasked).1⟩
  · exact newTaskAsks_untouched hyield₁ hmode₁ hself₁ (by decide +kernel)
  · exact newTaskAsks_untouched hyield₂ hmode₂ hself₂ (by decide +kernel)
  · exact ⟨by decide +kernel, by decide +kernel⟩
  · exact ⟨by decide +kernel, by decide +kernel⟩

end Reuse

end Ouroboros.Kernel
