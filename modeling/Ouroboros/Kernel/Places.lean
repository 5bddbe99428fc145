import Ouroboros.Kernel.Calls

/-!
# Which tasks live where, and what the books say

Most of what an entry does moves no task, and changes the books as `Hush` allows.  What remains is the end of a
task, a restarted server and a few system calls.

* `SamePlace`, `Shift`  one thing an entry does, seen from there;
* `told`  the system calls told apart, as functions;
* `step_shifts`  every entry is a chain of shifts, or one call of `told`.
-/

namespace Ouroboros.Kernel

open Relation State

section Places
variable {M : Machine} {o : Origin} {p : Slot} {c : Fin M.cores} {s s' : State M}
variable {m : Misc M} {t cur : Slot} {k : Sys} {d : Dev} {i : Slot} {T T' : Table}

theorem SamePlace.failCall (u : Task) (i : Slot) : SamePlace u (u.failCall i) := by
  unfold Task.failCall
  split
  · rename_i hcall
    obtain ⟨buf, len, hst⟩ := inCallTo_eq_true.1 hcall
    exact ⟨rfl, rfl, by rw [hst]; rfl⟩
  · exact .refl _

inductive Shift (s s' : State M) : Prop where
  | keep (htop : s'.top = s.top) (hhanded : s'.handed = s.handed) (hgen : s'.nextGen = s.nextGen)
      (hp : ∀ t, SamePlace (s.task t) (s'.task t)) (hm : Hush s.task s.misc s'.misc)
  | ended (i : Slot) (final : TaskState) (hidle : i ≠ Slot.idle) (hfinal : final.isOccupied = false)
      (current : Fin M.cores → Slot) (h : s' = { endTask s i final with current := current })
  | installed (slot : Slot) (m : Misc M) (size : Nat) (hunused : (s.task slot).state = .unused)
      (hserver : isSupervised M slot = true)
      (himage : ∃ image, M.keptImage slot = some image ∧ M.elfRegionSize image = .ok size)
      (hm : SameBooks s.misc m)
      (h : s' = installTask (takeRegion (s.setMisc m) size) slot
        (cursor (allocateRuntimeRegion s.top size), size))

abbrev Shifts : State M → State M → Prop := ReflTransGen Shift

theorem Shift.quiet (h : Hush s.task s.misc m) : Shift s (s.setMisc m) := .keep rfl rfl rfl (fun _ => .refl _) h

theorem Shifts.hushes (h : Hushes s.task s.misc m) : Shifts s (s.setMisc m) := by
  induction h with
  | refl => exact .refl
  | @tail m₁ m₂ _ hm ih =>
    have hlast : Shift (s.setMisc m₁) ((s.setMisc m₁).setMisc m₂) := .quiet hm
    exact ih.tail hlast

theorem Shift.modify {f : Task → Task} (h : SamePlace (s.task i) (f (s.task i))) : Shift s (s.modify i f) :=
  .keep rfl rfl rfl (.modify h) (.still (.refl _))

theorem sendMessage_shift {sender : Nat} {dest : Slot} {data : List UInt8} {call : Nat}
    (hocc : (s.task dest).state.isOccupied) :
    Shift s (sendMessage s sender dest data call).2 := by
  have hframe : (sendMessage s sender dest data call).2.top = s.top ∧
      (sendMessage s sender dest data call).2.handed = s.handed ∧
      (sendMessage s sender dest data call).2.nextGen = s.nextGen := by
    rcases sendMessage_cases s sender dest data call with ⟨-, hs⟩ | ⟨-, ⟨_, _, _, _, -, hs⟩ | ⟨-, hs⟩⟩
    all_goals simp [hs]
  exact .keep hframe.1 hframe.2.1 hframe.2.2 (sendMessage_place hocc) (.still (sendMessage_books _ _ _ _ _))

/-- **Every act is a shift.** -/
theorem Act.place {a : Act M} (ha : a.Ok o p c s) : Shift s (a.run c s) := by
  cases a with
  | quiet m => exact .quiet ha
  | beginCall i =>
    have hp : ∀ t, SamePlace (s.task t) ((s.modify i fun u => { u with call := s.nextCall }).task t) := by
      refine .modify ?_
      exact ⟨rfl, rfl, rfl⟩
    exact .keep rfl rfl rfl hp (.still (.refl _))
  | endCall i =>
    simp only [Act.run, Kernel.endCall]
    refine .modify ?_
    exact ⟨rfl, rfl, rfl⟩
  | send sender dest data call => exact sendMessage_shift ha.1
  | recv i buf len =>
    refine Act.recv_at (.quiet (.still (.refl _))) fun msg rest m _ hbooks =>
      .keep rfl rfl rfl ?_ (.still hbooks)
    rw [setMisc_task]
    refine .modify ?_
    exact ⟨rfl, rfl, rfl⟩
  | wake i v =>
    obtain ⟨r, hwait, -⟩ := ha
    simp only [Act.run]
    refine .modify ?_
    exact ⟨rfl, rfl, by rw [hwait]; rfl⟩
  | interrupt i =>
    obtain ⟨-, -, buf, len, f, hwait⟩ := ha
    simp only [Act.run]
    refine .modify ?_
    exact ⟨rfl, rfl, by rw [hwait]; rfl⟩
  | reap i =>
    obtain ⟨status, hz⟩ := ha
    simp only [Act.run]
    refine .modify ?_
    exact ⟨rfl, rfl, by rw [hz]; rfl⟩
  | kill i => exact .ended i .unused ha.1 rfl s.current rfl
  | retire final next =>
    refine .ended (s.current c) final ha.1 ?_ (Function.update s.current c next) rfl
    rcases ha.2.1 with rfl | ⟨status, rfl⟩ <;> rfl
  | install slot m size =>
    obtain ⟨hunused, hm, image, himage, hsize⟩ := ha
    refine .installed slot m size hunused ?_ ⟨image, himage, hsize⟩ hm rfl
    unfold isSupervised
    rw [himage]
    rfl

theorem Acts.shifts (h : Acts o p c s s') : Shifts s s' := by
  induction h with
  | refl => exact .refl
  | tail _ hst ih =>
    obtain ⟨a, ha, rfl⟩ := hst
    exact ih.tail (Act.place ha)

theorem Ending.place {u : Task} (hs : Steady s) (h : Ending c p s s' t u) : SamePlace (s.task t) u := by
  cases h with
  | same => exact .refl _
  | result => exact ⟨rfl, rfl, rfl⟩
  | block ht hp =>
    have hr := hs.current c
    rw [hp, ← ht] at hr
    exact ⟨rfl, rfl, by rw [hr]; rfl⟩
  | netWake hwait => exact ⟨rfl, rfl, by rw [hwait]; rfl⟩

theorem Finish.shift (hs : Steady s) (h : Finish c p s s') : Shift s s' := by
  have hp : ∀ t, SamePlace (s.task t) (s'.task t) := fun t => (h.ending t).place hs
  cases h <;> exact .keep rfl rfl rfl hp (.still (.refl _))

theorem Entered.shifts (hs : Steady s) (h : Entered o p c s s') : Shifts s s' := by
  obtain ⟨u, hacts, hfin⟩ := h
  exact hacts.shifts.tail (hfin.shift (hs.acts hacts))

/-! ## Generations -/

/-- a table in which `i` has ended. -/
structure EndedIn (T T' : Table) (i : Slot) : Prop where
  gone : (T' i).state.isOccupied = false
  gen : (T' i).gen = (T i).gen
  other : ∀ t, t ≠ i → SamePlace (T t) (T' t)

theorem EndedIn.gens (h : EndedIn T T' i) (t : Slot) : (T' t).gen = (T t).gen := by
  by_cases ht : t = i
  · rw [ht, h.gen]
  · exact (h.other t ht).gen

theorem EndedIn.occupied (h : EndedIn T T' i) (hocc : (T' t).state.isOccupied) :
    t ≠ i ∧ (T t).state.isOccupied := by
  have hne : t ≠ i := by
    rintro rfl
    exact absurd hocc (Bool.eq_false_iff.1 h.gone)
  exact ⟨hne, (h.other t hne).occupied.symm.trans hocc⟩

theorem endTask_endedIn (s : State M) (i : Slot) {final : TaskState} (hfinal : final.isOccupied = false) :
    EndedIn s.task (endTask s i final).task i where
  gone := by rw [endTask_state, hfinal]
  gen := by
    rw [endTask_same]
    exact (SamePlace.failCall (s.task i) i).gen
  other := by
    intro t ht
    rw [endTask_other _ _ _ ht]
    exact .failCall _ _

/-- every generation was issued, and that of a live task is not 0. -/
structure Issued (s : State M) : Prop where
  gens : ∀ t, (s.task t).gen < s.nextGen
  live : ∀ t, (s.task t).state.isOccupied = true → (s.task t).gen ≠ 0

theorem Numbered.issued (h : Numbered s) : Issued s := ⟨h.gens, h.live⟩

theorem Issued.shift (hn : Issued s) (h : Shift s s') : Issued s' := by
  cases h with
  | keep _ _ hgen hp =>
    refine ⟨fun t => ?_, fun t ht => ?_⟩
    · rw [(hp t).gen, hgen]
      exact hn.gens t
    rw [(hp t).occupied] at ht
    rw [(hp t).gen]
    exact hn.live t ht
  | ended i final _ hfinal current heq =>
    subst heq
    have hend := endTask_endedIn s i hfinal
    refine ⟨fun t => ?_, fun t ht => ?_⟩
    · exact lt_of_le_of_lt (Nat.le_of_eq (hend.gens t)) (hn.gens t)
    · exact fun hz => hn.live t (hend.occupied ht).2 ((hend.gens t).symm.trans hz)
  | installed slot m size _ _ _ _ heq =>
    subst heq
    refine ⟨fun t => ?_, fun t ht => ?_⟩
    · rw [installTask_task]
      split
      · exact Nat.lt_succ_self _
      · exact Nat.lt_succ_of_lt (hn.gens t)
    · rw [installTask_task] at ht ⊢
      split
      · exact ne_of_gt (lt_of_le_of_lt (Nat.zero_le _) (hn.gens slot))
      rename_i hne
      rw [if_neg hne] at ht
      exact hn.live t ht

theorem Issued.shifts (hn : Issued s) (h : Shifts s s') : Issued s' := by
  induction h with
  | refl => exact hn
  | tail _ hst ih => exact ih.shift hst

/-! ## The calls told apart -/

def staged (s : State M) (x : Nat × Misc M) : Nat × State M := (x.1, s.setMisc x.2)

/-- the calls told apart, made by `cur`. -/
def told (s : State M) (cur : Slot) : Sys → Nat × State M
  | .spawn totalLen stdout argvLen cwdLen => spawnSyscall s cur totalLen stdout argvLen cwdLen
  | .setId uid gid ptr count => setIdSyscall s cur uid gid ptr count
  | .delegate grantee target => delegateSyscall s cur grantee target
  | .msgReply handle ptr len => msgReply s cur handle ptr len
  | .spawnStage offset ptr len => staged s (stageImage s.task s.misc cur offset ptr len)
  | .cwdStage ptr len => staged s (stageBlob s.task s.misc cur cwdMax ptr len fun g b => { g with cwd := b })
  | .argsStage ptr len =>
    staged s (stageBlob s.task s.misc cur argvMax ptr len fun g b => { g with argv := b })
  | .envStage ptr len => staged s (stageBlob s.task s.misc cur envMax ptr len fun g b => { g with env := b })
  | .grant grantee ptr len dir => grantSyscall s cur grantee ptr len dir
  | .fg task foreground => fgSyscall s cur task foreground
  | .nsSet ptr len => nsSetSyscall s cur ptr len
  | .kbdMode mode => kbdModeSyscall s cur mode
  | _ => (0, s)

theorem dispatch_told (hk : k.isPlain = false) : dispatch s c k = .ofPair (told s (s.current c) k) := by
  cases k with
  | spawn | setId | delegate | msgReply | spawnStage | cwdStage | argsStage | envStage | grant | fg | nsSet
  | kbdMode => rfl
  | _ => cases hk

/-- the state after a call that was told apart: its result goes to the caller. -/
def toldResult (s : State M) (cur : Slot) (k : Sys) : State M :=
  (told s cur k).2.modify cur fun t => { t with x0 := (told s cur k).1 }

theorem told_shift (h : Shift s (told s cur k).2) : Shifts s (toldResult s cur k) := by
  refine (ReflTransGen.single h).tail (.modify ?_)
  exact ⟨rfl, rfl, rfl⟩

/-- `SET_ID`, `DELEGATE` and `MSG_REPLY` move nothing and leave the books alone. -/
def Sys.writesBooks : Sys → Bool
  | .setId .. | .delegate .. | .msgReply .. => false
  | k => !k.isPlain

theorem setIdSyscall_shift (cur : Slot) (uid gid ptr count : Nat) :
    Shift s (setIdSyscall s cur uid gid ptr count).2 := by
  rcases setIdSyscall_cases s cur uid gid ptr count with hm | ⟨new, gids, -, -, hm⟩
  · rw [hm]
    exact .quiet (.still (.refl _))
  rw [hm]
  refine .modify ?_
  exact ⟨rfl, rfl, rfl⟩

theorem delegateSyscall_shift (cur : Slot) (grantee target : Nat) :
    Shift s (delegateSyscall s cur grantee target).2 := by
  rcases delegateSyscall_cases s cur grantee target with hm | ⟨g, t, -, -, -, -, -, -, hm⟩
  · rw [hm]
    exact .quiet (.still (.refl _))
  rw [hm, setDelegate]
  refine .modify ?_
  exact ⟨rfl, rfl, rfl⟩

theorem msgReply_shift (cur : Slot) (handle ptr len : Nat) : Shift s (msgReply s cur handle ptr len).2 := by
  unfold msgReply
  split
  · exact .quiet (.still (noteAck_books _ _))
  split
  · exact .quiet (.still (.refl _))
  split
  · exact .quiet (.still (.refl _))
  rename_i t ht
  have hbooks := deliverReply_books s cur t (readMem s.misc.dev.mem ptr len)
  have hcall := (replyTarget_eq_some.1 ht).1
  obtain ⟨buf, n, hst⟩ := inCallTo_eq_true.1 hcall
  obtain ⟨x0, m, hm⟩ := deliverReply_eq cur (readMem s.misc.dev.mem ptr len) hcall
  simp only
  rw [hm] at hbooks ⊢
  refine .keep rfl rfl rfl ?_ (.still hbooks)
  rw [setMisc_task]
  refine .modify ?_
  exact ⟨rfl, rfl, by rw [hst]; rfl⟩

theorem load_shifts (h : Unmarked (s.load d).misc t m) : Shifts s (s.setMisc m) := .hushes (load_hushes h)

/-- what a staging call of the task `me` makes of the area it writes to. -/
inductive Stages (mem : Nat → UInt8) (me : Nat) : Sys → Staging → Staging → Prop where
  | first {ptr len : Nat} {g : Staging} :
      Stages mem me (.spawnStage 0 ptr len) g ⟨me, readMem mem ptr len, [], [], []⟩
  | next {offset ptr len : Nat} {g : Staging} (hpos : offset ≠ 0) (hat : offset = g.image.length) :
      Stages mem me (.spawnStage offset ptr len) g { g with image := g.image ++ readMem mem ptr len }
  | argv {ptr len : Nat} {g : Staging} :
      Stages mem me (.argsStage ptr len) g { g with argv := readMem mem ptr len }
  | cwd {ptr len : Nat} {g : Staging} : Stages mem me (.cwdStage ptr len) g { g with cwd := readMem mem ptr len }
  | env {ptr len : Nat} {g : Staging} : Stages mem me (.envStage ptr len) g { g with env := readMem mem ptr len }

/-- `r` is no result of a `k` that did something. -/
def Sys.refuses : Sys → Nat → Prop
  | .spawn .., r => isRefusal r
  | _, r => r ≠ 0

/-- what a call that writes the books leaves: its result, and the state. -/
inductive Booked (s : State M) (cur : Slot) : Sys → Nat × State M → Prop where
  | refused {k : Sys} {r : Nat} {m : Misc M} (hr : k.refuses r)
      (hm : SameBooks s.misc m ∨ SameBooks { s.misc with staging := .free } m) : Booked s cur k (r, s.setMisc m)
  | stages {k : Sys} {g g' : Staging} (hopen : Opened s.task s.misc.staging (idOf s.task cur) g)
      (hput : Stages s.misc.dev.mem (idOf s.task cur) k g g') :
      Booked s cur k (0, s.setMisc (s.misc.setStaging g'))
  | grants {grantee ptr len dir : Nat} {g : Slot} (hg : liveIndex s.task grantee = some g)
      (hdir : dir ≠ 0 ∧ dir ≤ 3) (hlen : len ≠ 0) (hin : inCallerRegion (s.task cur).region ptr len = true) :
      Booked s cur (.grant grantee ptr len dir)
        (0, s.setMisc (s.misc.modify cur fun a => { a with grant := ⟨g, ptr, len, dir, true⟩ }))
  | handsOver {foreground : Nat} {t : Slot} (ht : t = Slot.first ∨ t.isSpawnable = true)
      (hocc : (s.task t).state.isOccupied = true) (howner : s.misc.inputOwner = cur) :
      Booked s cur (.fg t.val foreground) (0, s.setMisc (setInputOwner s.task s.misc t (foreground != 0)))
  | names {ptr len : Nat} (blob : List UInt8) :
      Booked s cur (.nsSet ptr len) (0, s.setMisc (s.misc.modify cur fun a => { a with ns := blob }))
  | asks {mode r : Nat} {m : Misc M} (hm : Hushes s.task s.misc m) :
      Booked s cur (.kbdMode mode) (r, s.setMisc m)
  | sets {mode r : Nat} {m : Misc M} (hm : Hushes s.task s.misc m) (raw : Bool) :
      Booked s cur (.kbdMode mode) (r, s.setMisc (m.modify cur fun a => { a with kbdRaw := raw }))
  | spawns {totalLen stdout argvLen cwdLen : Nat} {slot : Slot} {size : Nat} {out : Option Slot}
      {mem : Nat → UInt8} (hid : s.misc.staging.stager = idOf s.task cur)
      (hlen : totalLen ≠ 0 ∧ totalLen ≤ s.misc.staging.image.length)
      (hstart : Starts s cur slot (s.misc.staging.image.take totalLen) size out stdout mem) :
      Booked s cur (.spawn totalLen stdout argvLen cwdLen) (slot.val, spawned s cur slot size out
          (startedMisc s.misc mem slot cur s.misc.staging stdout argvLen cwdLen))

section
variable (hcur : (s.task cur).state ≠ .unused)
include hcur

theorem stageBlob_booked {bound ptr len : Nat} {put : Staging → List UInt8 → Staging}
    (hk : ∀ r, r ≠ 0 → k.refuses r)
    (hput : ∀ g, Stages s.misc.dev.mem (idOf s.task cur) k g (put g (readMem s.misc.dev.mem ptr len))) :
    Booked s cur k (staged s (stageBlob s.task s.misc cur bound ptr len put)) := by
  have hid : taskIdOf s.task cur = some (idOf s.task cur) := taskIdOf_eq_some.2 ⟨hcur, rfl⟩
  rcases stageBlob_cases (m := s.misc) hid bound ptr len put with ⟨code, hcode, heq⟩ | ⟨g, hopen, heq⟩
  · rw [heq]
    exact .refused (hk _ hcode) (.inl (.refl _))
  · rw [heq]
    exact .stages hopen (hput g)

/-- **What the calls that write the books do.** -/
theorem told_booked (hbooks : k.writesBooks) : Booked s cur k (told s cur k) := by
  have hid : taskIdOf s.task cur = some (idOf s.task cur) := taskIdOf_eq_some.2 ⟨hcur, rfl⟩
  cases k with
  | spawn totalLen stdout argvLen cwdLen =>
    rcases spawnSyscall_cases s totalLen stdout argvLen cwdLen hcur with
      ⟨code, m, hcode, heq, hm⟩ | ⟨slot, size, out, mem, -, hstager, hpos, hlen, hstart, heq⟩
    · simp only [told, heq]
      refine .refused hcode ?_
      rcases hm.staging with hsame | hfree
      · exact .inl ⟨hm.aux, hm.owner, hsame, hm.kill⟩
      · exact .inr ⟨hm.aux, hm.owner, hfree, hm.kill⟩
    · simp only [told, heq]
      rw [hid, Option.some.injEq] at hstager
      exact .spawns hstager.symm ⟨hpos, hlen⟩ hstart
  | spawnStage offset ptr len =>
    rcases stageImage_cases (m := s.misc) hid offset ptr len with
      ⟨code, hcode, heq | heq⟩ | ⟨g, hopen, hat, heq⟩
    · simp only [told, heq]
      exact .refused hcode (.inl (.refl _))
    · simp only [told, heq]
      exact .refused hcode (.inr ⟨rfl, rfl, rfl, rfl⟩)
    simp only [told, heq]
    refine .stages hopen ?_
    by_cases hzero : offset = 0
    · subst hzero
      exact .first
    · rw [if_neg hzero]
      exact .next hzero (hat.resolve_left hzero)
  | cwdStage ptr len => exact stageBlob_booked hcur (fun _ h => h) fun _ => .cwd
  | argsStage ptr len => exact stageBlob_booked hcur (fun _ h => h) fun _ => .argv
  | envStage ptr len => exact stageBlob_booked hcur (fun _ h => h) fun _ => .env
  | grant grantee ptr len dir =>
    rcases grantSyscall_cases s cur grantee ptr len dir with heq | ⟨g, hg, hdir, hdir', hlen, hin, heq⟩
    · simp only [told, heq]
      exact .refused (by decide : grantErr ≠ 0) (.inl (.refl _))
    · simp only [told, heq]
      exact .grants hg ⟨hdir, hdir'⟩ hlen hin
  | fg task foreground =>
    rcases fgSyscall_cases s cur task foreground with ⟨code, hcode, heq⟩ | ⟨t, rfl, ht, hocc, howner, heq⟩
    · simp only [told, heq]
      exact .refused hcode (.inl (.refl _))
    · simp only [told, heq]
      exact .handsOver ht hocc howner
  | nsSet ptr len =>
    rcases nsSetSyscall_cases s cur ptr len with heq | ⟨blob, heq⟩
    · simp only [told, heq]
      exact .refused (by decide : spawnError ≠ 0) (.inl (.refl _))
    · simp only [told, heq]
      exact .names blob
  | kbdMode mode =>
    obtain ⟨m, r, hm, heq | ⟨raw, heq⟩⟩ := kbdModeSyscall_cases s cur mode
    · simp only [told, heq]
      exact .asks hm
    · simp only [told, heq]
      exact .sets hm raw
  | _ => cases hbooks

theorem told_current (hk : k.isPlain = false) : (told s cur k).2.current = s.current := by
  cases hbooks : k.writesBooks with
  | true =>
    have hbook := told_booked hcur hbooks
    generalize told s cur k = x at hbook ⊢
    cases hbook <;> rfl
  | false =>
    cases k with
    | setId uid gid ptr count =>
      rcases setIdSyscall_cases s cur uid gid ptr count with hm | ⟨new, gids, -, -, hm⟩
      · simp only [told, hm]
      · simp only [told, hm]
        rfl
    | delegate grantee target =>
      rcases delegateSyscall_cases s cur grantee target with hm | ⟨g, t, -, -, -, -, -, -, hm⟩
      · simp only [told, hm]
      · simp only [told, hm]
        rfl
    | msgReply handle ptr len =>
      rcases msgReply_cases s cur handle ptr len with ⟨m, hm⟩ | ⟨t, x0, m, -, hm⟩
      · simp only [told, hm]
        rfl
      · simp only [told, hm]
        rfl
    | _ => first | (cases hk; done) | cases hbooks

theorem finish_told (hk : k.isPlain = false)
    (h : (Outcome.ofPair (told s cur k)).finish c = some s') (hc : s.current c = cur) :
    s' = toldResult s cur k := by
  have hsame := congrFun (told_current hcur hk) c
  rw [hc] at hsame
  unfold toldResult
  generalize told s cur k = x at h hsame ⊢
  cases h
  rw [hsame]

end

/-- the task current on `c` made a call that returned 0. -/
def Accepted (s : State M) (c : Fin M.cores) (s' : State M) : Prop :=
  (s'.task (s.current c)).state = .runnable ∧ (s'.task (s.current c)).x0 = 0

instance (s : State M) (c : Fin M.cores) (s' : State M) : Decidable (Accepted s c s') :=
  inferInstanceAs (Decidable (_ ∧ _))

variable {e : Entry M}

theorem Accepted.result {u : State M} {r : Nat}
    (h : Accepted s c (u.modify (s.current c) fun t => { t with x0 := r })) : r = 0 := by
  have hx0 := h.2
  rw [modify_same] at hx0
  exact hx0

/-- the caller of a call that writes the books was ended instead. -/
def Entry.cutShort (e : Entry M) (s s' : State M) : Prop :=
  ∀ c d k, e = .syscall c d k → k.writesBooks = true → (s'.task (s.current c)).state = .unused

/-- **Every entry is a chain of shifts, or a call that writes the books, made by a live task.** -/
theorem step_shifts (hs : Steady s) (h : step s e = some s') :
    Shifts s s' ∧ e.cutShort s s' ∨ ∃ c d k m, e = .syscall c d k ∧ k.writesBooks ∧
      Unmarked (s.load d).misc (s.current c) m ∧ s' = toldResult (s.setMisc m) (s.current c) k := by
  cases he : e.isPlain with
  | true =>
    refine .inl ⟨Entered.shifts hs (step_acts hs he h), ?_⟩
    rintro c d k rfl hk
    have hplain : k.isPlain := he
    unfold Sys.writesBooks at hk
    split at hk
    · cases hk
    · cases hk
    · cases hk
    · rw [hplain] at hk
      cases hk
  | false =>
    cases e with
    | syscall c d k =>
      rcases special_cases (o := .other) (p := s.current c) h with ⟨hacts, hended⟩ | ⟨m, hm, hd⟩
      · refine .inl ⟨hacts.shifts, ?_⟩
        rintro c' d' k' heq -
        cases heq
        exact hended
      have hnone : ∀ k', k'.writesBooks = false → Entry.cutShort (.syscall c d k') s s' := by
        rintro k' hk' c' d' k'' heq hbooks
        cases heq
        rw [hk'] at hbooks
        cases hbooks
      rw [dispatch_told he] at hd
      have hcur : ((s.setMisc m).task (s.current c)).state ≠ .unused := by
        rw [setMisc_task, hs.current c]
        intro hst
        cases hst
      have hres : s' = toldResult (s.setMisc m) (s.current c) k := finish_told hcur he hd rfl
      rw [hres] at hnone ⊢
      have hload : Shifts s (s.setMisc m) := load_shifts hm
      cases k with
      | setId uid gid ptr count =>
        exact .inl ⟨hload.trans (told_shift (setIdSyscall_shift _ _ _ _ _)), hnone _ rfl⟩
      | delegate grantee target =>
        exact .inl ⟨hload.trans (told_shift (delegateSyscall_shift _ _ _)), hnone _ rfl⟩
      | msgReply handle ptr len =>
        exact .inl ⟨hload.trans (told_shift (msgReply_shift _ _ _ _)), hnone _ rfl⟩
      | spawn totalLen stdout argvLen cwdLen | spawnStage offset ptr len | cwdStage ptr len
      | argsStage ptr len | envStage ptr len | grant grantee ptr len dir | fg task foreground
      | nsSet ptr len | kbdMode mode => exact .inr ⟨c, d, _, m, rfl, rfl, hm, rfl⟩
      | _ => cases he
    | _ => cases he

theorem step_booked (hs : Steady s) (h : step s e = some s') :
    Shifts s s' ∧ e.cutShort s s' ∨ ∃ c d k m x, e = .syscall c d k ∧
      Unmarked (s.load d).misc (s.current c) m ∧ Booked (s.setMisc m) (s.current c) k x ∧
      s' = x.2.modify (s.current c) fun t => { t with x0 := x.1 } := by
  rcases step_shifts hs h with hshifts | ⟨c, d, k, m, he, hbooks, hm, hs'⟩
  · exact .inl hshifts
  refine .inr ⟨c, d, k, m, _, he, hm, told_booked ?_ hbooks, hs'⟩
  rw [setMisc_task, hs.current c]
  exact TaskState.noConfusion

theorem SamePlace.result (s : State M) (i : Slot) (r : Nat) (t : Slot) :
    SamePlace (s.task t) ((s.modify i fun u => { u with x0 := r }).task t) :=
  SamePlace.modify ⟨rfl, rfl, rfl⟩ t

theorem Unmarked.dev (h : Unmarked (s.load d).misc t m) : m.dev = d := by
  rcases h with rfl | rfl <;> rfl

/-- **A `SPAWN` that returns a slot has started a task there.** -/
theorem spawn_started {totalLen stdout argvLen cwdLen : Nat} {slot : Slot} (hs : Steady s)
    (hst : step s (.syscall c d (.spawn totalLen stdout argvLen cwdLen)) = some s')
    (hrun : (s'.task (s.current c)).state = .runnable) (hres : (s'.task (s.current c)).x0 = slot.val) :
    ∃ m size out mem, Unmarked (s.load d).misc (s.current c) m ∧ slot ≠ s.current c ∧
      m.staging.stager = idOf s.task (s.current c) ∧ (totalLen ≠ 0 ∧ totalLen ≤ m.staging.image.length) ∧
      Starts (s.setMisc m) (s.current c) slot (m.staging.image.take totalLen) size out stdout mem ∧
      s' = (spawned (s.setMisc m) (s.current c) slot size out
        (startedMisc m mem slot (s.current c) m.staging stdout argvLen cwdLen)).modify (s.current c)
          fun u => { u with x0 := slot.val } := by
  rcases step_booked hs hst with ⟨-, hcut⟩ | ⟨c', d', k', m, x, he, hm, hbook, rfl⟩
  · have hgone := hcut c d _ rfl rfl
    rw [hrun] at hgone
    cases hgone
  cases he
  rw [modify_same] at hres
  cases hbook with
  | refused hr =>
    have hlarge : 11 ≤ slot.val := hres ▸ hr
    exact absurd slot.isLt (not_lt.2 hlarge)
  | @spawns _ _ _ _ slot' size out mem hid hlen hstart =>
    have hslot : slot' = slot := Fin.ext hres
    subst hslot
    refine ⟨m, size, out, mem, hm, ?_, hid, hlen, hstart, rfl⟩
    rintro rfl
    have hfree := (freeSlot_eq_some hstart.free).2
    rw [setMisc_task, hs.current c] at hfree
    cases hfree
  | stages _ hput => cases hput

end Places

end Ouroboros.Kernel
