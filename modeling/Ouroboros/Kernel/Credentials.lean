import Ouroboros.Kernel.Calls

/-!
# Sender credentials are those of the moment of sending

`State.sends` logs every accepted message with the task that sent it, as it was then.

* `Sent.cred`  the credentials a log entry stands for;
* `TaskCredited`  the credentials a task holds, and those queued for it, are those of their log entries;
* `sender_credentials`  the four answers about the sender of the last message received.
-/

namespace Ouroboros.Kernel

open Transition List State Slot

section Credentials
variable {M : Machine} {o : Origin} {p : Slot} {c : Fin M.cores} {s s' : State M}
    {r : Sent} {u : Task} {e : Entry M}

/-! ## The log -/

/-- the credentials of the sender of a logged message; the kernel's ping has none. -/
def Sent.cred (r : Sent) : Cred :=
  match r.sender with
  | none => Cred.none.withCall r.call
  | some t => ⟨r.task.id, pack r.task.gen t, r.call, r.task.groups, true⟩

theorem SenderOk.cred {sender call : Nat} (h : SenderOk o c s sender call)
    (hgroups : ∀ t, (s.task t).groups.length ≤ maxSuppGroups) :
    (credOf s.task sender).withCall call = (sentNow s.task sender call).cred := by
  rcases h with ⟨-, rfl, hr⟩ | ⟨rfl, rfl⟩
  · have hnew : new (s.current c).val = some (s.current c) := new_eq_some.2 rfl
    have hid : taskIdOf s.task (s.current c) = some (pack (s.task (s.current c)).gen (s.current c)) := by
      unfold taskIdOf
      rw [hr]
      rfl
    simp only [credOf, sentNow, hnew, hid, Option.getD_some, Sent.cred, Cred.withCall,
      take_of_length_le (hgroups (s.current c))]
  · rfl

def Sent.Live (r : Sent) : Prop := r.sender.isSome = true → r.task.gen ≠ 0

theorem SenderOk.live {sender call : Nat} (h : SenderOk o c s sender call) (hn : Numbered s) :
    (sentNow s.task sender call).Live := by
  rcases h with ⟨-, rfl, hr⟩ | ⟨rfl, rfl⟩
  · have hnew : new (s.current c).val = some (s.current c) := new_eq_some.2 rfl
    intro _
    simp only [sentNow, hnew]
    exact hn.live _ (by rw [hr]; rfl)
  · intro h
    cases h

theorem sendMessage_sends (s : State M) (sender : Nat) (dest : Slot) (data : List UInt8) (call : Nat) :
    (sendMessage s sender dest data call).2.sends = s.sends ∨
      (sendMessage s sender dest data call).2.sends = s.sends ++ [sentNow s.task sender call] := by
  rcases sendMessage_cases s sender dest data call with ⟨-, hs⟩ | ⟨-, ⟨_, _, _, _, -, hs⟩ | ⟨-, hs⟩⟩
  · exact .inl (by rw [hs])
  · exact .inr (by rw [hs]; rfl)
  · exact .inr (by rw [hs]; rfl)

theorem Act.sends {a : Act M} (h : a.Ok o p c s) :
    (a.run c s).sends = s.sends ∨ ∃ sender call, SenderOk o c s sender call ∧
        (a.run c s).sends = s.sends ++ [sentNow s.task sender call] := by
  cases a with
  | send sender dest data call =>
    rcases sendMessage_sends s sender dest data call with hs | hs
    · exact .inl hs
    · exact .inr ⟨sender, call, h.2, hs⟩
  | recv t buf len => exact .inl (Act.recv_at (P := fun u => u.sends = s.sends) rfl fun _ _ _ _ _ => rfl)
  | _ => exact .inl rfl

/-! ## What tasks hold -/

/-- `cred` is what the log entry `tag` stands for. -/
def Backed (sends : List Sent) (tag : Nat) (cred : Cred) : Prop := ∃ r, sends[tag]? = some r ∧ cred = r.cred

structure TaskCredited (sends : List Sent) (t : Task) : Prop where
  nothing : t.received = none → t.cred = .none
  held : ∀ n, t.received = some n → Backed sends n t.cred
  queued : ∀ msg, msg ∈ t.mailbox → Backed sends msg.tag msg.cred
  fresh : t.state.isOccupied = false → t.received = none ∧ t.mailbox = []
  groups : t.groups.length ≤ maxSuppGroups

theorem Backed.mono {sends more : List Sent} {tag : Nat} {cred : Cred} (h : Backed sends tag cred) :
    Backed (sends ++ more) tag cred := by
  obtain ⟨r, hr, hc⟩ := h
  refine ⟨r, ?_, hc⟩
  obtain ⟨hlt, -⟩ := List.getElem?_eq_some_iff.1 hr
  rw [List.getElem?_append_left hlt, hr]

theorem TaskCredited.mono {sends more : List Sent} {t : Task} (h : TaskCredited sends t) :
    TaskCredited (sends ++ more) t :=
  ⟨h.nothing, fun n hn => (h.held n hn).mono, fun msg hm => (h.queued msg hm).mono, h.fresh, h.groups⟩

theorem backed_last {sends : List Sent} : Backed (sends ++ [r]) sends.length r.cred := ⟨r, by simp, rfl⟩

theorem TaskCredited.congr {sends : List Sent} {t : Task} (h : TaskCredited sends t)
    (hcred : u.cred = t.cred) (hrec : u.received = t.received) (hbox : u.mailbox = t.mailbox)
    (hocc : u.state.isOccupied = false → t.state.isOccupied = false)
    (hgroups : u.groups.length ≤ maxSuppGroups) : TaskCredited sends u where
  nothing := by
    rw [hcred, hrec]
    exact h.nothing
  held := by
    rw [hcred, hrec]
    exact h.held
  queued := by
    rw [hbox]
    exact h.queued
  fresh := by
    intro hu
    rw [hrec, hbox]
    exact h.fresh (hocc hu)
  groups := hgroups

theorem TaskCredited.reset (sends : List Sent) (t : Task) (final : TaskState) :
    TaskCredited sends (t.reset final) where
  nothing := fun _ => rfl
  held := by rintro n ⟨⟩
  queued := by rintro msg ⟨⟩
  fresh := fun _ => ⟨rfl, rfl⟩
  groups := Nat.zero_le _

theorem TaskCredited.effect {t : Slot} (h : ∀ t, TaskCredited s.sends (s.task t))
    (hpre : s.sends <+: s'.sends) (he : Effect o p c s s' t u) : TaskCredited s'.sends u := by
  have ht : TaskCredited s'.sends (s.task t) := by
    obtain ⟨more, hmore⟩ := hpre
    rw [← hmore]
    exact (h t).mono
  have hgroups : ∀ t, (s.task t).groups.length ≤ maxSuppGroups := fun t => (h t).groups
  cases he with
  | same => exact ht
  | beginCall | endCall => exact ht.congr rfl rfl rfl id ht.groups
  | deliver hsender hwait hsends =>
    refine ⟨?_, ?_, ht.queued, ?_, ht.groups⟩
    · rintro ⟨⟩
    · rintro n ⟨⟩
      rw [hsends, Task.deliver, hsender.cred hgroups]
      exact backed_last
    · rintro ⟨⟩
  | enqueue hsender hocc hwait hsends =>
    refine ⟨ht.nothing, ht.held, ?_, ?_, ht.groups⟩
    · intro msg hmsg
      rcases mem_append.1 hmsg with hold | hnew
      · exact ht.queued msg hold
      rw [mem_singleton] at hnew
      subst hnew
      rw [hsends, hsender.cred hgroups]
      exact backed_last
    · intro hfree
      exfalso
      unfold Task.enqueue at hfree
      simp only at hfree
      split at hfree
      · cases hfree
      · rw [hocc] at hfree
        cases hfree
  | @recv msg rest hbox =>
    have hmem : msg ∈ (s.task t).mailbox := by rw [hbox]; exact mem_cons_self
    refine ⟨?_, ?_, ?_, ?_, ht.groups⟩
    · rintro ⟨⟩
    · rintro n ⟨⟩
      exact ht.queued msg hmem
    · intro m hm
      exact ht.queued m (by rw [hbox]; exact mem_cons_of_mem _ hm)
    intro hfree
    have hempty := (ht.fresh hfree).2
    rw [hbox] at hempty
    cases hempty
  | wake | interrupt | orphan | installed => exact ht.congr rfl rfl rfl (by rintro ⟨⟩) ht.groups
  | reap hz => exact ht.congr rfl rfl rfl (fun _ => by rw [hz]; rfl) ht.groups
  | killed | retired => exact .reset _ _ _

theorem TaskCredited.ending {t : Slot} {sends : List Sent}
    (h : TaskCredited sends (s.task t)) (he : Ending c p s s' t u) : TaskCredited sends u := by
  cases he with
  | same => exact h
  | result => exact h.congr rfl rfl rfl id h.groups
  | block | netWake => exact h.congr rfl rfl rfl (by rintro ⟨⟩) h.groups

theorem TaskCredited.special {k : Sys} {u : State M} {sends : List Sent}
    (h : ∀ t, TaskCredited sends (s.task t)) (hu : Special s p k u) (t : Slot) :
    TaskCredited sends (u.task t) := by
  cases hu with
  | quiet m => exact h t
  | reply ht =>
    rw [setMisc_task]
    exact modify_at (h t) fun _ => (h t).congr rfl rfl rfl (by rintro ⟨⟩) (h t).groups
  | spawn =>
    simp only [spawned, spawnedTable]
    split
    · exact (h _).congr rfl rfl rfl (by rintro ⟨⟩) (h p).groups
    · exact (h t).congr rfl rfl rfl id (h t).groups
  | setId hnew hlen =>
    rw [setMisc_task]
    exact modify_at (h t) fun _ => (h t).congr rfl rfl rfl id hlen
  | delegate =>
    rw [setMisc_task]
    exact modify_at (h t) fun _ => (h t).congr rfl rfl rfl id (h t).groups

structure Credited (s : State M) : Prop where
  tasks : ∀ t, TaskCredited s.sends (s.task t)
  live : ∀ r, r ∈ s.sends → r.Live

theorem Credited.act (hn : Numbered s) (h : Credited s) {a : Act M} (ha : a.Ok o p c s) :
    Credited (a.run c s) := by
  rcases Act.sends ha with hsame | ⟨sender, call, hok, hnew⟩
  · refine ⟨?_, ?_⟩
    · intro t
      exact .effect h.tasks (hsame ▸ prefix_refl _) (a.effect ha t)
    · rw [hsame]
      exact h.live
  · refine ⟨?_, ?_⟩
    · intro t
      exact .effect h.tasks ⟨_, hnew.symm⟩ (a.effect ha t)
    · intro r hr
      rw [hnew, mem_append, mem_singleton] at hr
      rcases hr with hr | rfl
      · exact h.live r hr
      · exact hok.live hn

theorem Finish.sends (h : Finish c p s s') : s'.sends = s.sends := by
  cases h <;> rfl

theorem Special.sends {k : Sys} {u : State M} (h : Special s p k u) : u.sends = s.sends := by
  cases h <;> rfl

theorem Credited.step (hs : Steady s) (hn : Numbered s) (hc : Credited s) (h : step s e = some s') :
    Credited s' := by
  rcases step_cases hs h with ⟨u, hacts, hfin⟩ | ⟨c, d, k, r, u, -, hu, rfl⟩
  · obtain ⟨-, -, hu⟩ := hacts.invariant (P := fun u => Steady u ∧ Numbered u ∧ Credited u)
      ⟨hs, hn, hc⟩ fun v a hv ha => ⟨hv.1.act ha, hv.2.1.act hv.1 ha, hv.2.2.act hv.2.1 ha⟩
    refine ⟨?_, ?_⟩
    · intro t
      rw [hfin.sends]
      exact (hu.tasks t).ending (hfin.ending t)
    · rw [hfin.sends]
      exact hu.live
  · have hspecial := TaskCredited.special hc.tasks hu
    refine ⟨?_, ?_⟩
    · intro t
      rw [modify_sends, hu.sends]
      exact modify_at (hspecial t) fun _ => (hspecial t).congr rfl rfl rfl id (hspecial t).groups
    · rw [modify_sends, hu.sends]
      exact hc.live

/-! ## Who sent it -/

/-- the task that sent the message `r`, if one did, in the entry `e` from the state `v` was current there, and
the log has its identity, generation and groups of that moment. -/
def SentBy (v : State M) (e : Entry M) (r : Sent) : Prop := ∀ u, r.sender = some u → ∃ c d, v.current c = u ∧
    r.task.id = (v.task u).id ∧ r.task.gen = (v.task u).gen ∧ r.task.groups = (v.task u).groups ∧
    ((∃ dest ptr len, e = .syscall c d (.msgSend dest ptr len)) ∧ r.call = 0 ∨
      (∃ dest ptr len reply, e = .syscall c d (.msgCall dest ptr len reply)) ∧ r.call = pack v.nextCall u)

theorem SentBy.of_none {v : State M} (h : r.sender = none) : SentBy v e r := by
  intro u hu
  rw [h] at hu
  cases hu

theorem acts_sends (h : Acts o p c s s') (ho : o ≠ .send) :
    ∃ new, s'.sends = s.sends ++ new ∧ ∀ r, r ∈ new → r.sender = none := by
  refine h.invariant (P := fun u => ∃ new, u.sends = s.sends ++ new ∧ ∀ r, r ∈ new → r.sender = none)
    ⟨[], by simp, by simp⟩ ?_
  intro u a ⟨new, hnew, hnone⟩ ha
  rcases Act.sends ha with hsame | ⟨sender, call, hok, hadd⟩
  · exact ⟨new, hsame.trans hnew, hnone⟩
  rcases hok with ⟨hsend, -⟩ | ⟨rfl, rfl⟩
  · exact absurd hsend ho
  refine ⟨new ++ [sentNow u.task kernelSender kernelSender], ?_, ?_⟩
  · rw [hadd, hnew, append_assoc]
  intro r hr
  rcases mem_append.1 hr with hr | hr
  · exact hnone r hr
  · rw [mem_singleton.1 hr]
    rfl

theorem sentNow_slot (T : Table) (t : Slot) (call : Nat) : sentNow T t.val call = ⟨some t, T t, call⟩ := by
  have hnew : new t.val = some t := new_eq_some.2 rfl
  simp only [sentNow, hnew]

theorem msgSend_sends (s : State M) (cur : Slot) (dest ptr len : Nat) :
    (msgSend s cur dest ptr len).2.sends = s.sends ∨
      (msgSend s cur dest ptr len).2.sends = s.sends ++ [⟨some cur, s.task cur, 0⟩] := by
  unfold msgSend
  split
  · exact .inl rfl
  split
  · exact .inl rfl
  split
  · exact .inl rfl
  · rw [← sentNow_slot s.task cur 0]
    exact sendMessage_sends _ _ _ _ _

theorem msgCall_sends {dest ptr len reply : Nat} (h : (msgCall s c dest ptr len reply).finish c = some s') :
    s'.sends = s.sends ∨ s'.sends = s.sends ++
        [⟨some (s.current c), { s.task (s.current c) with call := s.nextCall },
        pack s.nextCall (s.current c)⟩] := by
  unfold msgCall at h
  simp only at h
  split at h
  · cases h
    exact .inl rfl
  split at h
  · cases h
    exact .inl rfl
  rename_i d hd
  split at h
  · cases h
    exact .inl rfl
  split at h
  · cases h
    exact .inl rfl
  have hsent := sendMessage_sends (beginCall s (s.current c)).2 (s.current c).val d
    (readMem (beginCall s (s.current c)).2.misc.dev.mem ptr len) (beginCall s (s.current c)).1
  have htask : (beginCall s (s.current c)).2.task (s.current c) =
      { s.task (s.current c) with call := s.nextCall } := by simp [beginCall]
  rw [sentNow_slot, htask] at hsent
  have hs' : s'.sends = (sendMessage (beginCall s (s.current c)).2 (s.current c).val d
      (readMem (beginCall s (s.current c)).2.misc.dev.mem ptr len) (beginCall s (s.current c)).1).2.sends := by
    split at h
    · cases h
      rfl
    cases hb : blockCurrent (sendMessage (beginCall s (s.current c)).2 (s.current c).val d
        (readMem (beginCall s (s.current c)).2.misc.dev.mem ptr len) (beginCall s (s.current c)).1).2 c
        (.message reply msgMaxLen (some d)) (some d) with
    | none =>
      rw [hb] at h
      cases h
    | some u =>
      rw [hb] at h
      cases h
      obtain ⟨next, -, rfl⟩ := blockCurrent_eq_some hb
      rfl
  rw [hs']
  exact hsent

theorem origin_send (h : e.origin = .send) : (∃ c d dest ptr len, e = .syscall c d (.msgSend dest ptr len)) ∨
      ∃ c d dest ptr len reply, e = .syscall c d (.msgCall dest ptr len reply) := by
  cases e with
  | syscall c d k =>
    cases k with
    | msgSend dest ptr len => exact .inl ⟨c, d, dest, ptr, len, rfl⟩
    | msgCall dest ptr len reply => exact .inr ⟨c, d, dest, ptr, len, reply, rfl⟩
    | _ => cases h
  | timer c d =>
    simp only [Entry.origin] at h
    split at h <;> cases h
  | _ => cases h

theorem sends_one (h : s'.sends = s.sends ∨ s'.sends = s.sends ++ [r])
    (hr : SentBy s e r) : ∃ new, s'.sends = s.sends ++ new ∧ ∀ r, r ∈ new → SentBy s e r := by
  rcases h with h | h
  · exact ⟨[], by simpa using h, by simp⟩
  refine ⟨[r], h, ?_⟩
  intro r' hr'
  rw [mem_singleton.1 hr']
  exact hr

/-- **What an entry adds to the log was sent in it.** -/
theorem step_sends (hs : Steady s) (h : step s e = some s') :
    ∃ new, s'.sends = s.sends ++ new ∧ ∀ r, r ∈ new → SentBy s e r := by
  -- a marked caller is ended before it sends
  have hended : ∀ c, Acts .other (s.current c) c s s' → ∃ new, s'.sends = s.sends ++ new ∧
      ∀ r, r ∈ new → SentBy s e r := by
    intro c hacts
    obtain ⟨new, hnew, hnone⟩ := acts_sends hacts (by rintro ⟨⟩)
    exact ⟨new, hnew, fun r hr => .of_none (hnone r hr)⟩
  by_cases ho : e.origin = .send
  · rcases origin_send ho with ⟨c, d, dest, ptr, len, rfl⟩ | ⟨c, d, dest, ptr, len, reply, rfl⟩
    · rcases special_cases h with ⟨hacts, -⟩ | ⟨m, -, hm⟩
      · exact hended c hacts
      · have hsends := msgSend_sends (s.setMisc m) (s.current c) dest ptr len
        have hx : (Outcome.ofPair (msgSend (s.setMisc m) (s.current c) dest ptr len)).finish c = some s' := hm
        clear hm
        generalize msgSend (s.setMisc m) (s.current c) dest ptr len = x at hsends hx
        cases hx
        refine sends_one hsends ?_
        rintro u ⟨⟩
        exact ⟨c, d, rfl, rfl, rfl, rfl, .inl ⟨⟨dest, ptr, len, rfl⟩, rfl⟩⟩
    · rcases special_cases h with ⟨hacts, -⟩ | ⟨m, -, hm⟩
      · exact hended c hacts
      · have hsends := msgCall_sends (s := s.setMisc m) hm
        refine sends_one hsends ?_
        rintro u ⟨⟩
        exact ⟨c, d, rfl, rfl, rfl, rfl, .inr ⟨⟨dest, ptr, len, reply, rfl⟩, rfl⟩⟩
  · rcases step_cases hs h with ⟨u, hacts, hfin⟩ | ⟨c, d, k, r, u, -, hu, rfl⟩
    · obtain ⟨new, hnew, hnone⟩ := acts_sends hacts ho
      exact ⟨new, hfin.sends.trans hnew, fun r hr => .of_none (hnone r hr)⟩
    · exact ⟨[], by simp [hu.sends], by simp⟩

theorem trace_sends {s₀ : State M} {k : List (State M × Entry M × State M)} (hb : Booted s₀)
    (t : Trace Step s₀ k s) :
    Steady s ∧ ∀ n r, s.sends[n]? = some r → ∃ v e v', (v, e, v') ∈ k ∧ SentBy v e r ∧
      v.sends.length ≤ n ∧ v'.sends[n]? = some r := by
  induction t with
  | nil =>
    refine ⟨booted_steady hb, ?_⟩
    obtain ⟨b, top, q, d, rfl⟩ := hb
    rintro n r ⟨⟩
  | @snoc k s e s' _ hstep ih =>
    obtain ⟨hs, ih⟩ := ih
    refine ⟨hs.step hstep, ?_⟩
    intro n r hr
    obtain ⟨new, hnew, hby⟩ := step_sends hs hstep
    by_cases hn : n < s.sends.length
    · have hold : s.sends[n]? = some r := by
        rw [hnew, getElem?_append_left hn] at hr
        exact hr
      obtain ⟨v, a, v', hmem, hsent⟩ := ih n r hold
      exact ⟨v, a, v', mem_append_left _ hmem, hsent⟩
    · have hle : s.sends.length ≤ n := Nat.le_of_not_lt hn
      refine ⟨s, e, s', by simp, ?_, hle, hr⟩
      rw [hnew, getElem?_append_right hle] at hr
      exact hby r (mem_of_getElem? hr)

theorem booted_credited (h : Booted s) : Credited s := by
  obtain ⟨b, top, q, d, rfl⟩ := h
  refine ⟨?_, ?_⟩
  · intro t
    have hempty : TaskCredited [] Task.empty :=
      ⟨fun _ => rfl, by rintro n ⟨⟩, by rintro m ⟨⟩, fun _ => ⟨rfl, rfl⟩, Nat.zero_le _⟩
    simp only [bootState]
    split
    · exact hempty
    · exact hempty.congr rfl rfl rfl (by rintro ⟨⟩) hempty.groups
  · rintro r ⟨⟩

theorem reached_credited (h : Reached s) : Steady s ∧ Numbered s ∧ Credited s :=
  h.invariant (P := fun s => Steady s ∧ Numbered s ∧ Credited s)
    (fun _ h => ⟨booted_steady h, booted_numbered h, booted_credited h⟩)
    fun _ _ _ hs hstep => ⟨hs.1.step hstep, hs.2.1.step hs.1 hstep, hs.2.2.step hs.1 hs.2.1 hstep⟩

/-! ## The answers -/

def lastReceived (s : State M) (t : Slot) : Option Sent := (s.task t).received.bind fun n => s.sends[n]?

theorem Credited.cred (h : Credited s) (t : Slot) :
    (lastReceived s t = none ∧ (s.task t).received = none ∧ (s.task t).cred = .none) ∨
    ∃ n r, (s.task t).received = some n ∧ s.sends[n]? = some r ∧ lastReceived s t = some r ∧
      (s.task t).cred = r.cred ∧ r.Live := by
  unfold lastReceived
  cases hr : (s.task t).received with
  | none => exact .inl ⟨rfl, rfl, (h.tasks t).nothing hr⟩
  | some n =>
    obtain ⟨r, hlog, hcred⟩ := (h.tasks t).held n hr
    exact .inr ⟨n, r, rfl, hlog, hlog, hcred, h.live r (mem_of_getElem? hlog)⟩

theorem pack_ne_zero {n : Nat} (h : n ≠ 0) (t : Slot) : pack n t ≠ 0 := by
  unfold pack
  omega

/-- **The four answers about the sender are the identity, packed task identity, groups and call number
of the task that sent the message last received, at the moment it sent it.**  A log entry is made in the step
that sent the message and never changes. -/
theorem sender_credentials {s₀ : State M} {k : List (State M × Entry M × State M)} (hb : Booted s₀)
    (h : Trace Step s₀ k s) (t : Slot) :
    (senderIdOf s.task t = (lastReceived s t).bind fun r => r.sender.map fun _ => r.task.id) ∧
    (senderTaskOf s.task t = (lastReceived s t).bind fun r => r.sender.map (pack r.task.gen)) ∧
    (∀ cap, senderGroupsOf s.task t cap = (lastReceived s t).bind fun r =>
      r.sender.map fun _ => (r.task.groups.length, r.task.groups.take cap)) ∧
    (senderCallOf s.task t = (lastReceived s t).bind fun r => if r.call ≠ 0 then some r.call else none) ∧
    (∀ n, (s.task t).received = some n → ∃ r, lastReceived s t = some r ∧ s.sends[n]? = some r ∧
      ∃ v e v', (v, e, v') ∈ k ∧ SentBy v e r ∧ v.sends.length ≤ n ∧ v'.sends[n]? = some r) ∧
    ((s.task t).state.isOccupied = false → (s.task t).received = none) := by
  obtain ⟨-, -, hc⟩ := reached_credited ⟨s₀, k, hb, h⟩
  have fresh (hfree : (s.task t).state.isOccupied = false) := ((hc.tasks t).fresh hfree).1
  unfold senderIdOf senderTaskOf senderGroupsOf senderCallOf
  rcases hc.cred t with ⟨hlast, hrec, hcred⟩ | ⟨n, r, hrec, hlog, hlast, hcred, hlive⟩ <;> rw [hlast, hcred]
  · exact ⟨rfl, rfl, fun _ => rfl, rfl, fun n hn => (nomatch hrec.symm.trans hn), fresh⟩
  have hsent : ∀ n', (s.task t).received = some n' → ∃ r', some r = some r' ∧ s.sends[n']? = some r' ∧
      ∃ v e v', (v, e, v') ∈ k ∧ SentBy v e r' ∧ v.sends.length ≤ n' ∧ v'.sends[n']? = some r' := by
    rintro n' hn
    cases hrec.symm.trans hn
    exact ⟨r, rfl, hlog, (trace_sends hb h).2 n r hlog⟩
  obtain ⟨_ | u, task, call⟩ := r
  · exact ⟨rfl, rfl, fun _ => rfl, rfl, hsent, fresh⟩
  · exact ⟨rfl, if_pos ⟨rfl, pack_ne_zero (hlive rfl) u⟩, fun _ => rfl, rfl, hsent, fresh⟩

def serverReceives : Entry twoCores := asksFirst (.msgRecv 0x600000 64)

def serverReceived : State twoCores := (step shellCalling serverReceives).getD shellCalling

/-- after it the file server is told of the shell's first generation and first call, in a run in which the
shell sent that message. -/
theorem sender_credentials_server : ∃ k, Trace Step serverBoot k serverReceived ∧
    senderTaskOf serverReceived.task Slot.fsd = some (pack 1 Slot.first) ∧
    senderCallOf serverReceived.task Slot.fsd = some (pack 1 Slot.first) ∧
    ∃ r, lastReceived serverReceived Slot.fsd = some r ∧ serverReceived.sends[0]? = some r ∧
      ∃ v e v', (v, e, v') ∈ k ∧ SentBy v e r ∧ v.sends.length ≤ 0 ∧ v'.sends[0]? = some r := by
  have hcall : Trace Step serverBoot _ shellCalling := .single shellCalls_step
  have hrecv : Step shellCalling serverReceives serverReceived := step_getD rfl
  have hrun := hcall.snoc hrecv
  have hanswers := sender_credentials ⟨_, _, _, _, rfl⟩ hrun fsd
  exact ⟨_, hrun, rfl, rfl, hanswers.2.2.2.2.1 0 rfl⟩

end Credentials

end Ouroboros.Kernel
