import Ouroboros.Kernel.Acts

/-!
# What an act does to one slot

`Effect o p c s s' t u`: the act that takes `s` to `s'` leaves the task `u` in slot `t`.  Each
constructor is one way a slot can change, with what the kernel had checked.  `Ending` does the same for
the end of an entry, and `Special` for the calls that are not chains of acts.  The invariants are
case splits on these three, one case per way; `step_cases` puts them together.
-/

namespace Ouroboros.Kernel

open State Kernel.Act Prod

section Effects
variable {M : Machine} {o : Origin} {p : Slot} {c : Fin M.cores} {s s' : State M}
    {k : Sys} {i t : Slot} {u : State M}

/-- the sender of a message accepted on core `c`: its current task, in a sending call, or the kernel's
ping. -/
def SenderOk (o : Origin) (c : Fin M.cores) (s : State M) (sender call : Nat) : Prop :=
  o = .send ∧ sender = (s.current c).val ∧ (s.task (s.current c)).state = .runnable ∨
    sender = kernelSender ∧ call = kernelSender

inductive Effect (o : Origin) (p : Slot) (c : Fin M.cores) (s s' : State M) (t : Slot) : Task → Prop where
  | same : Effect o p c s s' t (s.task t)
  | beginCall (hp : t = p) (ht : t = s.current c) (hnext : s'.nextCall = s.nextCall + 1) :
      Effect o p c s s' t { s.task t with call := s.nextCall }
  | endCall (hp : t = p) (ht : t = s.current c) : Effect o p c s s' t { s.task t with call := 0 }
  | deliver {sender call x0 : Nat} {buf len : Nat} (hsender : SenderOk o c s sender call)
      (hwait : (s.task t).state = .blocked (.message buf len none))
      (hsends : s'.sends = s.sends ++ [sentNow s.task sender call]) :
      Effect o p c s s' t ((s.task t).deliver x0 ((credOf s.task sender).withCall call) s.sends.length)
  | enqueue {sender call : Nat} {data : List UInt8} (hsender : SenderOk o c s sender call)
      (hocc : (s.task t).state.isOccupied = true)
      (hwait : ∀ buf len, (s.task t).state ≠ .blocked (.message buf len none))
      (hsends : s'.sends = s.sends ++ [sentNow s.task sender call]) :
      Effect o p c s s' t ((s.task t).enqueue
        ⟨sender, data, (credOf s.task sender).withCall call, s.sends.length⟩)
  | recv {msg : Message} {rest : List Message} (hbox : (s.task t).mailbox = msg :: rest) :
      Effect o p c s s' t { s.task t with mailbox := rest, cred := msg.cred, received := some msg.tag }
  | wake {r : WaitReason} {v : Nat} (hwait : (s.task t).state = .blocked r)
      (hcall : ∀ buf len f, r ≠ .message buf len (some f)) :
      Effect o p c s s' t { s.task t with x0 := v, state := .runnable }
  | interrupt {buf len : Nat} {f : Option Slot} (htick : o = .tick) (hfirst : t = Slot.first)
      (hwait : (s.task t).state = .blocked (.message buf len f)) :
      Effect o p c s s' t ((s.task t).release recvInterrupted)
  | reap {status : Nat} (hz : (s.task t).state = .zombie status) :
      Effect o p c s s' t { s.task t with state := .unused }
  | orphan {f : Slot} (hcall : (s.task t).state.inCallTo f = true) (hft : t ≠ f)
      (hended : (s'.task f).state = .unused ∨ ∃ status, (s'.task f).state = .zombie status) :
      Effect o p c s s' t ((s.task t).release taskErrNoSuchTask)
  | killed (hidle : t ≠ Slot.idle) (hcore : ∀ d, s.current d ≠ t) :
      Effect o p c s s' t (((s.task t).failCall t).reset .unused)
  | retired {final : TaskState} (hidle : t ≠ Slot.idle) (ht : t = s.current c) (hnext : s'.current c ≠ t)
      (hfinal : final = .unused ∨ ∃ status, final = .zombie status) :
      Effect o p c s s' t (((s.task t).failCall t).reset final)
  | installed {size : Nat} (hunused : (s.task t).state = .unused) (hserver : isSupervised M t = true)
      (hgen : s'.nextGen = s.nextGen + 1) :
      Effect o p c s s' t { s.task t with
        x0 := 0
        region := (cursor (allocateRuntimeRegion s.top size), size)
        delegated := fun _ => false
        parent := 0
        gen := s.nextGen
        state := .runnable }

theorem Effect.of_modify {f : Task → Task}
    (h : t = i → Effect o p c s s' t (f (s.task i))) : Effect o p c s s' t ((s.modify i f).task t) := by
  refine modify_at .same fun hti => ?_
  subst hti
  exact h rfl

theorem sendMessage_effect {sender call : Nat} {dest : Slot} {data : List UInt8}
    (hocc : (s.task dest).state.isOccupied) (hsender : SenderOk o c s sender call) (t : Slot) :
    Effect o p c s (sendMessage s sender dest data call).2 t
      ((sendMessage s sender dest data call).2.task t) := by
  rcases sendMessage_cases s sender dest data call with
    ⟨-, hs⟩ | ⟨-, ⟨buf, len, x0, m, hwait, hs⟩ | ⟨hwait, hs⟩⟩
  · rw [hs]
    exact .same
  · rw [hs, logSend_task, setMisc_task]
    refine .of_modify ?_
    rintro rfl
    exact .deliver hsender hwait rfl
  · rw [hs, logSend_task]
    refine .of_modify ?_
    rintro rfl
    exact .enqueue hsender hocc hwait rfl

theorem endTask_effect {final : TaskState} (htask : s'.task = (endTask s i final).task)
    (hfinal : final = .unused ∨ ∃ status, final = .zombie status)
    (h : t = i → Effect o p c s s' t (((s.task t).failCall t).reset final)) :
    Effect o p c s s' t (s'.task t) := by
  have hended : (s'.task i).state = final := by rw [htask, endTask_state]
  rw [htask, endTask_task]
  split
  · rename_i hti
    subst hti
    exact h rfl
  rename_i hti
  unfold Task.failCall
  split
  · rename_i hcall
    refine .orphan hcall hti ?_
    rw [hended]
    exact hfinal
  · exact .same

theorem installTask_task (s : State M) (slot t : Slot) (region : Nat × Nat) :
    (installTask s slot region).task t =
      if t = slot then { s.task slot with
        x0 := 0
        region := region
        delegated := fun _ => false
        parent := 0
        gen := s.nextGen
        state := .runnable }
      else s.task t := by
  by_cases h : t = slot
  · subst h
    simp [installTask, setRunnable, issueGeneration, clearPreviousOwner, clearDelegationsOf, setContext]
  · simp [installTask, setRunnable, issueGeneration, clearPreviousOwner, clearDelegationsOf, setContext, h]

/-- **What a legal act does to a slot.** -/
theorem Act.effect {a : Act M} (h : a.Ok o p c s) (t : Slot) :
    Effect o p c s (a.run c s) t ((a.run c s).task t) := by
  cases a with
  | quiet m => exact .same
  | beginCall i =>
    simp only [run, Kernel.beginCall]
    refine .of_modify ?_
    rintro rfl
    exact .beginCall h.1 h.2 rfl
  | endCall i =>
    simp only [run, Kernel.endCall]
    refine .of_modify ?_
    rintro rfl
    exact .endCall h.1 h.2
  | send sender dest data call => exact sendMessage_effect h.1 h.2 t
  | recv i buf len =>
    refine recv_at (P := fun u => Effect o p c s u t (u.task t)) .same fun msg rest m hbox _ => ?_
    rw [setMisc_task]
    refine .of_modify ?_
    rintro rfl
    exact .recv hbox
  | wake i v =>
    obtain ⟨r, hwait, hcall⟩ := h
    simp only [run]
    refine .of_modify ?_
    rintro rfl
    exact .wake hwait hcall
  | interrupt i =>
    obtain ⟨htick, hfirst, buf, len, f, hwait⟩ := h
    simp only [run]
    refine .of_modify ?_
    rintro rfl
    exact .interrupt htick hfirst hwait
  | reap i =>
    obtain ⟨status, hz⟩ := h
    simp only [run]
    refine .of_modify ?_
    rintro rfl
    exact .reap hz
  | kill i =>
    refine endTask_effect rfl (.inl rfl) ?_
    rintro rfl
    exact .killed h.1 h.2
  | retire final next =>
    obtain ⟨hidle, hfinal, hnext⟩ := h
    refine endTask_effect rfl hfinal ?_
    rintro rfl
    refine .retired hidle rfl ?_ hfinal
    -- the next task is runnable, the ended one is not
    simp only [run, setCurrent_apply, if_true]
    rintro rfl
    have hr := mayRunOn_runnable hnext
    rw [endTask_state] at hr
    rcases hfinal with rfl | ⟨status, rfl⟩ <;> cases hr
  | install slot m size =>
    obtain ⟨hunused, -, image, himage, hsize⟩ := h
    simp only [run]
    rw [installTask_task]
    split
    · rename_i ht
      subst ht
      refine .installed hunused ?_ rfl
      unfold isSupervised
      rw [himage]
      rfl
    · exact .same

/-- the ways the end of an entry leaves a slot; `p` was current when the entry began. -/
inductive Ending (c : Fin M.cores) (p : Slot) (s s' : State M) (t : Slot) : Task → Prop where
  | same : Ending c p s s' t (s.task t)
  | result {r : Nat} (ht : t = p) (hp : s.current c = p) : Ending c p s s' t { s.task t with x0 := r }
  | block {reason : WaitReason} (ht : t = p) (hp : s.current c = p) (hidle : p ≠ Slot.idle)
      (hcall : ∀ buf len f, reason = .message buf len (some f) → (s.task t).call ≠ 0 ∧
        (s.task f).state.isOccupied = true)
      (hnext : s'.current c ≠ t) :
      Ending c p s s' t { s.task t with state := .blocked reason }
  | netWake {deadline : Nat} (hwait : (s.task t).state = .blocked (.netInput deadline)) :
      Ending c p s s' t { s.task t with x0 := 0, state := .runnable }

/-- **What the end of an entry does to a slot.** -/
theorem Finish.ending (h : Finish c p s s') (t : Slot) : Ending c p s s' t (s'.task t) := by
  cases h with
  | done | switch next hnext | up => exact .same
  | result r hp =>
    exact modify_at .same fun ht => .result ht hp
  | block reason next hp hidle hcall hnext =>
    rw [setCurrent_task, modify_task]
    split
    · rename_i ht
      subst ht
      refine .block rfl hp hidle hcall ?_
      rw [setCurrent_apply, if_pos rfl]
      rintro rfl
      have hr := mayRunOn_runnable hnext
      rw [modify_same] at hr
      cases hr
    · exact .same
  | yield next hp hnext =>
    rw [setCurrent_task]
    exact modify_at .same fun ht => .result ht hp
  | netWake u hwait =>
    obtain ⟨deadline, hwait⟩ := hwait
    rw [setCurrent_task]
    exact modify_at .same fun ht => .netWake (ht ▸ hwait)

/-! ## The calls told apart -/

/-- what the calls told apart, made by task `p`, do to the tasks before their result is stored. -/
inductive Special (s : State M) (p : Slot) : Sys → State M → Prop where
  | quiet {k : Sys} (m : Misc M) : Special s p k (s.setMisc m)
  | reply {handle ptr len : Nat} {t : Slot} {x0 : Nat} {m : Misc M} (ht : replyTarget s.task p handle = some t) :
      Special s p (.msgReply handle ptr len) ((s.modify t fun u => u.release x0).setMisc m)
  | spawn {totalLen stdout argvLen cwdLen : Nat} {slot : Slot} {size : Nat} {out : Option Slot}
      {m : Misc M} {program : List UInt8} (hslot : freeSlot s.task = some slot)
      (hout : stdoutTask s.task p stdout = .ok out) (hsize : M.elfRegionSize program = .ok size) :
      Special s p (.spawn totalLen stdout argvLen cwdLen) (spawned s p slot size out m)
  | setId {uid gid ptr count : Nat} {new : Ident} {gids : List UInt32} {m : Misc M}
      (hnew : (s.task p).id.uid ≠ 0 → new = (s.task p).saved ∧ gids = [])
      (hlen : gids.length ≤ maxSuppGroups) :
      Special s p (.setId uid gid ptr count)
        ((s.modify p fun u => { u with groups := gids, saved := u.id, id := new }).setMisc m)
  | delegate {g t : Slot} {m : Misc M} (hg : (s.task g).state.isOccupied = true)
      (ht : (s.task t).state.isOccupied = true) (hchild : isChildOf s.task g p = true)
      (hright : holdsSendRight s.task p t = true) :
      Special s p (.delegate g.val t.val) ((setDelegate s g t).setMisc m)

theorem Special.current (h : Special s p k u) : u.current = s.current := by
  cases h <;> rfl

theorem ofPair_special {x : Nat × State M} (hx : x.2 = u) (hu : Special s (s.current c) k u)
    (h : (Outcome.ofPair x).finish c = some s') :
    ∃ r u, Special s (s.current c) k u ∧ s' = u.modify (s.current c) fun t => { t with x0 := r } := by
  subst hx
  cases h
  rw [hu.current]
  exact ⟨x.1, _, hu, rfl⟩

theorem dispatch_special {m : Misc M} (hs : Steady s)
    (hk : k.isPlain = false) (h : (dispatch (s.setMisc m) c k).finish c = some s') :
    ∃ r u, Special s (s.current c) k u ∧ s' = u.modify (s.current c) fun t => { t with x0 := r } := by
  cases k with
  | spawn totalLen stdout argvLen cwdLen =>
    have hcur : (s.task (s.current c)).state ≠ .unused := by
      rw [hs.current c]
      intro h
      cases h
    rcases spawnSyscall_cases (s.setMisc m) totalLen stdout argvLen cwdLen hcur with
      ⟨code, m', -, hm, -⟩ | ⟨slot, size, out, mem, -, -, -, -, hstart, hm⟩
    · exact ofPair_special (congrArg snd hm) (.quiet m') h
    · exact ofPair_special (congrArg snd hm) (.spawn hstart.free hstart.output hstart.sized) h
  | setId uid gid ptr count =>
    rcases setIdSyscall_cases (s.setMisc m) (s.current c) uid gid ptr count with hm | ⟨new, gids, hnew, hlen, hm⟩
    · exact ofPair_special hm (.quiet m) h
    · exact ofPair_special hm (.setId hnew hlen) h
  | delegate grantee target =>
    rcases delegateSyscall_cases (s.setMisc m) (s.current c) grantee target with
      hm | ⟨g, t, rfl, rfl, hg, ht, hchild, hright, hm⟩
    · exact ofPair_special hm (.quiet m) h
    · exact ofPair_special hm (.delegate hg ht hchild hright) h
  | msgReply handle ptr len =>
    rcases msgReply_cases (s.setMisc m) (s.current c) handle ptr len with ⟨m', hm⟩ | ⟨t, x0, m', ht, hm⟩
    · exact ofPair_special hm (.quiet m') h
    · exact ofPair_special hm (.reply ht) h
  | spawnStage offset ptr len | cwdStage ptr len | argsStage ptr len | envStage ptr len =>
    cases h
    exact ⟨_, _, .quiet _, rfl⟩
  | grant grantee ptr len dir =>
    rcases grantSyscall_cases (s.setMisc m) (s.current c) grantee ptr len dir with
      hm | ⟨g, -, -, -, -, -, hm⟩
    · exact ofPair_special (congrArg snd hm) (.quiet m) h
    · exact ofPair_special (congrArg snd hm) (.quiet _) h
  | fg task foreground =>
    rcases fgSyscall_cases (s.setMisc m) (s.current c) task foreground with
      ⟨code, -, hm⟩ | ⟨t, -, -, -, -, hm⟩
    · exact ofPair_special (congrArg snd hm) (.quiet m) h
    · exact ofPair_special (congrArg snd hm) (.quiet _) h
  | nsSet ptr len =>
    rcases nsSetSyscall_cases (s.setMisc m) (s.current c) ptr len with hm | ⟨blob, hm⟩
    · exact ofPair_special (congrArg snd hm) (.quiet m) h
    · exact ofPair_special (congrArg snd hm) (.quiet _) h
  | kbdMode mode =>
    obtain ⟨m', r, -, hm | ⟨raw, hm⟩⟩ := kbdModeSyscall_cases (s.setMisc m) (s.current c) mode
    · exact ofPair_special (congrArg snd hm) (.quiet m') h
    · exact ofPair_special (congrArg snd hm) (.quiet _) h
  | _ => cases hk

/-- **Every entry: a chain of acts and a finish, or one of the calls told apart and its result.** -/
theorem step_cases {e : Entry M} (hs : Steady s) (h : step s e = some s') :
    Entered e.origin (s.current e.core) e.core s s' ∨
    ∃ c d k r u, e = .syscall c d k ∧ Special s (s.current c) k u ∧
      s' = u.modify (s.current c) fun t => { t with x0 := r } := by
  cases he : e.isPlain with
  | true => exact .inl (step_acts hs he h)
  | false =>
    cases e with
    | syscall c d k =>
      rcases special_cases h with ⟨hacts, -⟩ | ⟨m, -, hm⟩
      · exact .inl (.of_acts hacts)
      · obtain ⟨r, u, hu, rfl⟩ := dispatch_special hs he hm
        exact .inr ⟨c, d, k, r, u, rfl, hu, rfl⟩
    | _ => cases he

end Effects

end Ouroboros.Kernel
