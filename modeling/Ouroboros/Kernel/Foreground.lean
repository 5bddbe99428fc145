import Ouroboros.Lib.Chain
import Ouroboros.Kernel.Places
import Ouroboros.Kernel.Identity

/-!
# Who owns the keyboard

The owner of the keyboard hands it on with `FG`; each owner remembers the task it got the keyboard from, and that
memory is repaired whenever a task ends.

* `below`  the task a slot would give the keyboard back to, read off the links;
* `handOvers`, `Nearest`  the chain of hand-overs read off the `FG` calls of a run, and the nearest live task
  in it;
* `KeyOk`  the invariant: the owner is the shell or a live spawned task, and the links agree with the chain;
* `keyboard_owner`  it holds in every run, and says who gets the keyboard of an owner that dies.
-/

namespace Ouroboros.Kernel

open Relation Transition Option Function State Misc Nat List Bool

section Foreground
variable {M : Machine} {s s' : State M} {T T' : Table} {h : Nat → Nat} {id : Nat} {r : Option Slot}
variable {t : Slot} {m m' : Misc M}

/-! ## Links and hand-overs -/

def below (s : State M) (t : Slot) : Option Slot := liveOccupant s.task (s.misc.aux t).previousOwner

def OwnerLive (s : State M) : Prop := s.misc.inputOwner = Slot.first ∨
    s.misc.inputOwner.isSpawnable = true ∧ (s.task s.misc.inputOwner).state.isOccupied = true

/-- `h id` is the task that handed the keyboard to `id`, by packed identity, 0 for none: from `id` on
down, the nearest task that still lives. -/
inductive Nearest (T : Table) (h : Nat → Nat) : Nat → Option Slot → Prop where
  | bottom : Nearest T h 0 none
  | live {id : Nat} {t : Slot} (hlive : liveOccupant T id = some t) : Nearest T h id (some t)
  | dead {id : Nat} {r : Option Slot} (hid : id ≠ 0) (hdead : liveOccupant T id = none)
      (hrest : Nearest T h (h id) r) : Nearest T h id r

theorem Nearest.unique (hzero : liveOccupant T 0 = none)
    {r' : Option Slot} (hr : Nearest T h id r) (hr' : Nearest T h id r') : r = r' := by
  induction hr with
  | bottom =>
    cases hr' with
    | bottom => rfl
    | live hlive =>
      rw [hzero] at hlive
      cases hlive
    | dead hid => exact absurd rfl hid
  | @live id t hlive =>
    cases hr' with
    | bottom =>
      rw [hzero] at hlive
      cases hlive
    | live hlive' => rw [← hlive, ← hlive']
    | dead _ hdead =>
      rw [hlive] at hdead
      cases hdead
  | dead hid hdead _ ih =>
    cases hr' with
    | bottom => exact absurd rfl hid
    | live hlive =>
      rw [hlive] at hdead
      cases hdead
    | dead _ _ hrest => exact ih hrest

theorem Nearest.congr {h' : Nat → Nat} (hr : Nearest T h id r)
    (hlive : ∀ x, liveOccupant T' x = liveOccupant T x) (hsame : ∀ x, liveOccupant T x = none → h' x = h x) :
    Nearest T' h' id r := by
  induction hr with
  | bottom => exact .bottom
  | live hl => exact .live ((hlive _).trans hl)
  | dead hid hdead _ ih =>
    refine .dead hid ((hlive _).trans hdead) ?_
    rw [hsame _ hdead]
    exact ih

/-- `b` is the nearest live task that the keyboard of `a` came from. -/
def Over (T : Table) (h : Nat → Nat) (a b : Slot) : Prop := Nearest T h (h (idOf T a)) (some b)

open Classical in
/-- the hand-overs after `source` gave the keyboard to `target`: a task further down takes it back from all those
above it; any other owner but the shell remembers who it was. -/
noncomputable def handOver (T : Table) (h : Nat → Nat) (source target : Slot) : Nat → Nat :=
  if source = target then h
  else if TransGen (Over T h) source target then fun id =>
    if ∃ t, (T t).state.isOccupied = true ∧ id = idOf T t ∧ ReflTransGen (Over T h) source t ∧
      TransGen (Over T h) t target then 0 else h id
  else if target = Slot.first then h
  else update h (idOf T target) (idOf T source)

noncomputable def noteHandOver (h : Nat → Nat) : State M × Entry M × State M → Nat → Nat
  | (s, .syscall c _ (.fg task _), s') =>
    match Slot.new task with
    | some t => if Accepted s c s' then handOver s.task h s.misc.inputOwner t else h
    | none => h
  | _ => h

noncomputable def handOvers (k : List (State M × Entry M × State M)) : Nat → Nat :=
  k.foldl noteHandOver fun _ => 0

/-! ## The invariant -/

structure KeyOk (h : Nat → Nat) (s : State M) : Prop where
  owner : OwnerLive s
  acyclic : Chain.Acyclic (below s)
  named : ∀ t, (s.misc.aux t).previousOwner = 0 ∨ ∃ u, below s t = some u ∧
    (u = Slot.first ∨ u.isSpawnable = true)
  dead : ∀ t, (s.task t).state.isOccupied = false → (s.misc.aux t).previousOwner = 0
  refines : ∀ t, (s.task t).state.isOccupied = true → Nearest s.task h (h (idOf s.task t)) (below s t)
  values : ∀ id, h id / 256 < s.nextGen
  fresh : ∀ id, s.nextGen ≤ id / 256 → h id = 0

theorem liveOccupant_zero (hn : Issued s) : liveOccupant s.task 0 = none := by
  cases hl : liveOccupant s.task 0 with
  | none => rfl
  | some t =>
    obtain ⟨hocc, hid⟩ := liveOccupant_eq_some.1 hl
    have hgen := hn.live t hocc
    unfold idOf pack at hid
    omega

theorem idOf_ne_zero (hn : Issued s) (h : (s.task t).state.isOccupied) : idOf s.task t ≠ 0 := by
  have hgen := hn.live t h
  unfold idOf pack
  omega

theorem liveOccupant_congr (hp : ∀ t, SamePlace (T t) (T' t)) (id : Nat) :
    liveOccupant T' id = liveOccupant T id := by
  refine ext fun t => ?_
  rw [liveOccupant_eq_some, liveOccupant_eq_some, idOf, idOf, (hp t).occupied, (hp t).gen]

theorem idOf_congr (hp : SamePlace (T t) (T' t)) : idOf T' t = idOf T t := by
  unfold idOf
  rw [hp.gen]

theorem KeyOk.keep (hk : KeyOk h s) (hp : ∀ t, SamePlace (s.task t) (s'.task t)) (hgen : s'.nextGen = s.nextGen)
    (hprev : ∀ t, (s'.misc.aux t).previousOwner = (s.misc.aux t).previousOwner)
    (howner : OwnerLive s') : KeyOk h s' := by
  have hlive := liveOccupant_congr hp
  have hbelow : below s' = below s := by
    funext t
    unfold below
    rw [hprev, hlive]
  refine ⟨howner, ?_, ?_, ?_, ?_, ?_, ?_⟩
  · rw [hbelow]
    exact hk.acyclic
  · intro t
    rw [hprev, hbelow]
    exact hk.named t
  · intro t ht
    rw [(hp t).occupied] at ht
    rw [hprev]
    exact hk.dead t ht
  · intro t ht
    rw [(hp t).occupied] at ht
    rw [idOf_congr (hp t), hbelow]
    exact (hk.refines t ht).congr hlive fun _ _ => rfl
  · intro id
    rw [hgen]
    exact hk.values id
  · intro id hid
    rw [hgen] at hid
    exact hk.fresh id hid

theorem KeyOk.below_live (hk : KeyOk h s) (hn : Issued s) (t : Slot) :
    (below s t).getD Slot.first = Slot.first ∨ ((below s t).getD Slot.first).isSpawnable ∧
      (s.task ((below s t).getD Slot.first)).state.isOccupied := by
  rcases hk.named t with hzero | ⟨u, hu, hslot⟩
  · unfold below
    rw [hzero, liveOccupant_zero hn]
    exact .inl rfl
  rw [hu, getD_some]
  rcases hslot with hfirst | hspawn
  · exact .inl hfirst
  · exact .inr ⟨hspawn, liveOccupant_occupied hu⟩

theorem Hush.previousOwner (h : Hush T m m') (t : Slot) :
    (m'.aux t).previousOwner = (m.aux t).previousOwner := h.proj (fun _ _ => rfl) fun _ _ _ => rfl

theorem Hush.owner (h : Hush T m m') : m'.inputOwner = m.inputOwner ∨
      m'.inputOwner = (liveOccupant T (m.aux m.inputOwner).previousOwner).getD Slot.first := by
  cases h with
  | still h | condemn _ h | pardon h => exact .inl h.owner
  | takeBack _ h => exact .inr h.owner
  | mark | unmark | name => exact .inl rfl

theorem OwnerLive.keep (h : OwnerLive s) (hp : ∀ t, SamePlace (s.task t) (s'.task t))
    (howner : s'.misc.inputOwner = s.misc.inputOwner) : OwnerLive s' := by
  unfold OwnerLive at h ⊢
  rw [howner, (hp _).occupied]
  exact h

theorem KeyOk.hush (hk : KeyOk h s) (hn : Issued s)
    (hp : ∀ t, SamePlace (s.task t) (s'.task t)) (hgen : s'.nextGen = s.nextGen)
    (hm : Hush s.task s.misc s'.misc) : KeyOk h s' := by
  refine hk.keep hp hgen hm.previousOwner ?_
  rcases hm.owner with howner | howner
  · exact hk.owner.keep hp howner
  have hlive := hk.below_live hn s.misc.inputOwner
  unfold OwnerLive
  rw [howner, (hp _).occupied]
  exact hlive

/-! ## The end of a task -/

section ended
variable {i : Slot} {final : TaskState} {f : Nat → Nat}

theorem EndedIn.live {T T' : Table} (h : EndedIn T T' i) {id : Nat} (hid : liveOccupant T id ≠ some i) :
    liveOccupant T' id = liveOccupant T id := by
  refine ext fun t => ?_
  by_cases ht : t = i
  · subst ht
    refine ⟨fun h' => ?_, fun h' => absurd h' hid⟩
    have := liveOccupant_occupied h'
    rw [h.gone] at this
    cases this
  · rw [liveOccupant_eq_some, liveOccupant_eq_some, (h.other t ht).occupied, idOf_congr (h.other t ht)]

theorem EndedIn.dead (h : EndedIn T T' i) (hid : liveOccupant T id = some i) : liveOccupant T' id = none := by
  cases hl : liveOccupant T' id with
  | none => rfl
  | some t =>
    obtain ⟨hocc, heq⟩ := liveOccupant_eq_some.1 hl
    have hti : t = i := by
      have hold := (liveOccupant_eq_some.1 hid).2
      rw [heq] at hold
      exact (pack_inj hold).2
    rw [hti, h.gone] at hocc
    cases hocc

theorem Nearest.outlives (h : EndedIn T T' i) (hr : Nearest T f id r) (hne : r ≠ some i) :
    Nearest T' f id r := by
  induction hr with
  | bottom => exact .bottom
  | live hl =>
    refine .live ?_
    rw [h.live (by rwa [hl]), hl]
  | dead hid hdead _ ih =>
    refine .dead hid ?_ (ih hne)
    rw [h.live (by rw [hdead]; exact (some_ne_none i).symm), hdead]

theorem Nearest.passes (h : EndedIn T T' i)
    (hr : Nearest T f id (some i)) (hid : idOf T i ≠ 0) (hnext : Nearest T' f (f (idOf T i)) r) :
    Nearest T' f id r := by
  generalize hi : some i = x at hr
  induction hr with
  | bottom => cases hi
  | live hl =>
    cases hi
    have hself := (liveOccupant_eq_some.1 hl).2
    subst hself
    exact .dead hid (h.dead hl) hnext
  | dead hz hdead _ ih =>
    refine .dead hz ?_ (ih hi)
    rw [h.live (by rw [hdead]; exact (some_ne_none i).symm), hdead]

variable {h : Nat → Nat}

theorem KeyOk.below_ne (hk : KeyOk h s) (t : Slot) : below s t ≠ some t := by
  intro ht
  exact hk.acyclic t (.single ht)

theorem below_none (hn : Issued s) {t : Slot} (hz : (s.misc.aux t).previousOwner = 0) : below s t = none := by
  unfold below
  rw [hz]
  exact liveOccupant_zero hn

theorem KeyOk.link_zero (hk : KeyOk h s) (hn : Issued s) (hid : taskIdOf s.task i = some 0) :
    (s.misc.aux i).previousOwner = 0 := by
  refine hk.dead i ?_
  by_contra hocc
  rw [not_eq_false] at hocc
  exact idOf_ne_zero hn hocc (taskIdOf_eq_some.1 hid).2.symm

theorem KeyOk.ended_link (hk : KeyOk h s) (hn : Issued s) {t : Slot} (ht : t ≠ i) :
    ((endTask s i final).misc.aux t).previousOwner =
      if below s t = some i then (s.misc.aux i).previousOwner else (s.misc.aux t).previousOwner := by
  rw [endTask_aux final (hk.link_zero hn), if_neg ht]
  by_cases hlink : below s t = some i
  · obtain ⟨hocc, hid⟩ := liveOccupant_eq_some.1 hlink
    rw [if_pos hlink, if_pos]
    rw [taskIdOf_eq_some]
    exact ⟨isOccupied_ne_unused hocc, hid⟩
  · split
    · -- only an entry of 0 could name a task that is not live
      rename_i hid
      have hid := (taskIdOf_eq_some.1 hid).2
      have hocc : (s.task i).state.isOccupied = false := by
        by_contra hocc
        rw [not_eq_false] at hocc
        exact hlink (liveOccupant_eq_some.2 ⟨hocc, hid⟩)
      rcases hk.named t with hz | ⟨u, hu, -⟩
      · rw [hk.dead i hocc, hz]
      obtain ⟨huocc, huid⟩ := liveOccupant_eq_some.1 hu
      rw [hid] at huid
      rw [(pack_inj huid).2] at hocc
      rw [hocc] at huocc
      cases huocc
    · rfl

theorem KeyOk.ended_self (hk : KeyOk h s) (hn : Issued s) :
    ((endTask s i final).misc.aux i).previousOwner = 0 := by
  rw [endTask_aux final (hk.link_zero hn), if_pos rfl]
  rfl

theorem KeyOk.ended_below (hk : KeyOk h s) (hn : Issued s)
    (hfinal : final.isOccupied = false) {t : Slot} (ht : t ≠ i) :
    below (endTask s i final) t = if below s t = some i then below s i else below s t := by
  have hend := endTask_endedIn s i hfinal
  have hlink := @KeyOk.ended_link M s i final h hk hn _ ht
  by_cases hbelow : below s t = some i
  · rw [if_pos hbelow] at hlink ⊢
    unfold below
    rw [hlink]
    exact hend.live (hk.below_ne i)
  · rw [if_neg hbelow] at hlink ⊢
    unfold below
    rw [hlink]
    exact hend.live hbelow

theorem ended_owner (howner : s.misc.inputOwner = i) :
    (endTask s i final).misc.inputOwner = (below s i).getD Slot.first := by
  rw [endTask_inputOwner, if_pos howner]
  rfl

theorem KeyOk.ended (hk : KeyOk h s) (hn : Issued s) (hfinal : final.isOccupied = false) :
    KeyOk h (endTask s i final) := by
  have hend := endTask_endedIn s i hfinal
  have hbelow : ∀ t, t ≠ i → _ := fun t ht => @KeyOk.ended_below M s i final h hk hn hfinal t ht
  have hself : below (endTask s i final) i = none := by
    unfold below
    rw [hk.ended_self hn, hend.live]
    · exact liveOccupant_zero hn
    · rw [liveOccupant_zero hn]
      exact (some_ne_none i).symm
  refine ⟨?_, ?_, ?_, ?_, ?_, hk.values, hk.fresh⟩
  · unfold OwnerLive
    by_cases howner : s.misc.inputOwner = i
    · rw [ended_owner howner]
      rcases hk.below_live hn i with hfirst | ⟨hspawn, hocc⟩
      · exact .inl hfirst
      cases hb : below s i with
      | none => exact .inl rfl
      | some u =>
        rw [hb, getD_some] at hspawn hocc
        have hne : u ≠ i := by
          rintro rfl
          exact hk.below_ne u hb
        rw [getD_some, (hend.other u hne).occupied]
        exact .inr ⟨hspawn, hocc⟩
    · have hsame : (endTask s i final).misc.inputOwner = s.misc.inputOwner := by
        rw [endTask_inputOwner, if_neg howner]
      rw [hsame, (hend.other _ howner).occupied]
      exact hk.owner
  · refine hk.acyclic.mono fun a b hab => ?_
    unfold Chain.Link at hab
    by_cases ha : a = i
    · rw [ha, hself] at hab
      cases hab
    rw [hbelow a ha] at hab
    split at hab
    · rename_i hlink
      exact .tail (.single hlink) hab
    · exact .single hab
  · intro t
    by_cases ht : t = i
    · rw [ht]
      exact .inl (hk.ended_self hn)
    rw [hk.ended_link hn ht, hbelow t ht]
    split
    · exact hk.named i
    · exact hk.named t
  · intro t hocc
    by_cases ht : t = i
    · rw [ht]
      exact hk.ended_self hn
    rw [(hend.other t ht).occupied] at hocc
    have hz := hk.dead t hocc
    rw [hk.ended_link hn ht, below_none hn hz, if_neg (some_ne_none i).symm]
    exact hz
  · intro t hocc
    have ht : t ≠ i := by
      rintro rfl
      rw [hend.gone] at hocc
      cases hocc
    rw [(hend.other t ht).occupied] at hocc
    rw [idOf_congr (hend.other t ht), hbelow t ht]
    have hold := hk.refines t hocc
    split
    · rename_i hlink
      rw [hlink] at hold
      have hi := liveOccupant_occupied hlink
      exact hold.passes hend (idOf_ne_zero hn hi) ((hk.refines i hi).outlives hend (hk.below_ne i))
    · rename_i hlink
      exact hold.outlives hend hlink

end ended

/-! ## New tasks -/

theorem Nearest.issued {n : Nat} (hr : Nearest T h id r) (hid : id / 256 < n) (hvalues : ∀ x, h x / 256 < n)
    (hlive : ∀ x, x / 256 < n → liveOccupant T' x = liveOccupant T x) : Nearest T' h id r := by
  induction hr with
  | bottom => exact .bottom
  | live hl => exact .live ((hlive _ hid).trans hl)
  | dead hz hdead _ ih => exact .dead hz ((hlive _ hid).trans hdead) (ih (hvalues _))

theorem KeyOk.start {h : Nat → Nat} (hk : KeyOk h s) (hn : Issued s) {slot : Slot}
    (hfree : (s.task slot).state.isOccupied = false) (hnew : (s'.task slot).gen = s.nextGen)
    (hother : ∀ t, t ≠ slot → SamePlace (s.task t) (s'.task t)) (hgen : s'.nextGen = s.nextGen + 1)
    (hlink : ∀ t, t ≠ slot → (s'.misc.aux t).previousOwner = (s.misc.aux t).previousOwner)
    (hslot : (s'.misc.aux slot).previousOwner = 0)
    (howner : s'.misc.inputOwner = s.misc.inputOwner) : KeyOk h s' := by
  have hlive : ∀ x, x / 256 < s.nextGen → liveOccupant s'.task x = liveOccupant s.task x := by
    intro x hx
    refine ext fun t => ?_
    rw [liveOccupant_eq_some, liveOccupant_eq_some]
    by_cases ht : t = slot
    · subst ht
      constructor
      · rintro ⟨-, rfl⟩
        unfold idOf at hx
        rw [pack_number, hnew] at hx
        exact absurd hx (lt_irrefl _)
      · rintro ⟨hocc, -⟩
        rw [hfree] at hocc
        cases hocc
    · rw [(hother t ht).occupied, idOf_congr (hother t ht)]
  have hpos : 0 < s.nextGen := lt_of_le_of_lt (zero_le _) (hn.gens slot)
  have hissued : ∀ t, (s.misc.aux t).previousOwner / 256 < s.nextGen := by
    intro t
    rcases hk.named t with hz | ⟨u, hu, -⟩
    · rw [hz]
      exact hpos
    rw [(liveOccupant_eq_some.1 hu).2]
    unfold idOf
    rw [pack_number]
    exact hn.gens u
  have hprev : ∀ t, (s'.misc.aux t).previousOwner = (s.misc.aux t).previousOwner := by
    intro t
    by_cases ht : t = slot
    · rw [ht, hslot, hk.dead slot hfree]
    · exact hlink t ht
  have hbelow : below s' = below s := by
    funext t
    unfold below
    rw [hprev, hlive _ (hissued t)]
  refine ⟨?_, ?_, ?_, ?_, ?_, ?_, ?_⟩
  · unfold OwnerLive
    rw [howner]
    rcases hk.owner with hfirst | ⟨hspawn, hocc⟩
    · exact .inl hfirst
    refine .inr ⟨hspawn, ?_⟩
    have hne : s.misc.inputOwner ≠ slot := by
      intro heq
      rw [heq, hfree] at hocc
      cases hocc
    rw [(hother _ hne).occupied]
    exact hocc
  · rw [hbelow]
    exact hk.acyclic
  · intro t
    rw [hprev, hbelow]
    exact hk.named t
  · intro t hocc
    rw [hprev]
    by_cases ht : t = slot
    · rw [ht]
      exact hk.dead slot hfree
    · rw [(hother t ht).occupied] at hocc
      exact hk.dead t hocc
  · intro t hocc
    rw [hbelow]
    by_cases ht : t = slot
    · have hfresh : h (idOf s'.task t) = 0 := by
        refine hk.fresh _ ?_
        unfold idOf
        rw [pack_number, ht, hnew]
      rw [hfresh, below_none hn (by rw [ht]; exact hk.dead slot hfree)]
      exact .bottom
    · rw [(hother t ht).occupied] at hocc
      rw [idOf_congr (hother t ht)]
      exact (hk.refines t hocc).issued (hk.values _) hk.values hlive
  · intro id
    rw [hgen]
    exact lt_succ_of_lt (hk.values id)
  · intro id hid
    rw [hgen] at hid
    exact hk.fresh id (le_of_succ_le hid)

/-- **The invariant is kept by every shift.** -/
theorem KeyOk.shift (hk : KeyOk h s) (hn : Issued s) (hst : Shift s s') : KeyOk h s' := by
  cases hst with
  | keep _ _ hgen hp hm => exact hk.hush hn hp hgen hm
  | ended i final _ hfinal current heq =>
    subst heq
    have hend := hk.ended (i := i) hn hfinal
    exact ⟨hend.owner, hend.acyclic, hend.named, hend.dead, hend.refines, hend.values, hend.fresh⟩
  | installed slot m size hunused _ _ hm heq =>
    subst heq
    have hfree : (s.task slot).state.isOccupied = false := by rw [hunused]; rfl
    refine @KeyOk.start M s _ h hk hn slot hfree ?_ ?_ rfl ?_ ?_ hm.owner
    · rw [installTask_task, if_pos rfl]
      rfl
    · intro t ht
      rw [installTask_task, if_neg ht]
      exact .refl _
    · intro t ht
      show ((setPreviousOwner m slot 0).aux t).previousOwner = _
      simp [setPreviousOwner, Misc.modify, ht, hm.aux]
    · show ((setPreviousOwner m slot 0).aux slot).previousOwner = 0
      simp [setPreviousOwner, Misc.modify]

theorem KeyOk.spawned (hk : KeyOk h s) (hn : Issued s) {spawner slot : Slot} {size : Nat}
    {out : Option Slot} {mem : Nat → UInt8} {g : Staging} {stdout argvLen cwdLen : Nat}
    (hslot : freeSlot s.task = some slot) :
    KeyOk h (spawned s spawner slot size out (startedMisc s.misc mem slot spawner g stdout argvLen cwdLen)) := by
  have hfree : (s.task slot).state.isOccupied = false := by
    rw [(freeSlot_eq_some hslot).2]
    rfl
  refine @KeyOk.start M s _ h hk hn slot hfree ?_ ?_ rfl ?_ ?_ rfl
  · simp only [Kernel.spawned, spawnedTable, if_true]
    rfl
  · intro t ht
    simp only [Kernel.spawned, spawnedTable, if_neg ht]
    exact ⟨rfl, rfl, rfl⟩
  · intro t ht
    simp [Kernel.spawned, startedMisc, setBlobs, setPreviousOwner, Misc.modify, Misc.setStaging, Misc.setMem, ht]
  · simp [Kernel.spawned, startedMisc, setBlobs, setPreviousOwner, Misc.modify, Misc.setStaging, Misc.setMem]

/-! ## Handing the keyboard over -/

section handOver
variable {T : Table} {m : Misc M}

theorem walkOwners_eq (owner : Slot) (k : Nat) (walked : List Slot) (t : Slot) :
    walkOwners T m owner k walked t =
      Chain.walk (fun x => liveOccupant T (m.aux x).previousOwner) owner k walked t := by
  induction k generalizing walked t with
  | zero => rfl
  | succ k ih =>
    unfold walkOwners Chain.walk
    cases liveOccupant T (m.aux t).previousOwner with
    | none => rfl
    | some u =>
      simp only
      split
      · rfl
      · exact ih _ u

theorem cut_links (walked : List Slot) (m : Misc M) (t : Slot) :
    ((walked.foldl (fun m above => setPreviousOwner m above 0) m).aux t).previousOwner =
      if t ∈ walked then 0 else (m.aux t).previousOwner := by
  induction walked generalizing m with
  | nil => simp
  | cons x rest ih =>
    rw [foldl_cons, ih]
    by_cases hrest : t ∈ rest
    · simp [hrest]
    by_cases hx : t = x
    · simp [hx, setPreviousOwner, Misc.modify]
    · simp [hrest, hx, setPreviousOwner, Misc.modify]

theorem cut_owner (walked : List Slot) (m : Misc M) :
    (walked.foldl (fun m above => setPreviousOwner m above 0) m).inputOwner = m.inputOwner :=
  foldlRecOn (motive := fun m' : Misc M => m'.inputOwner = m.inputOwner) walked _ rfl fun _ h _ _ => h

inductive Relinks (T : Table) (m m' : Misc M) (owner : Slot) : Prop where
  | same (hsame : m.inputOwner = owner ∨ owner = Slot.first ∧ m.inputOwner ≠ owner ∧
        Chain.walk (fun x => liveOccupant T (m.aux x).previousOwner) owner 11 [] m.inputOwner = none)
      (h : ∀ t, (m'.aux t).previousOwner = (m.aux t).previousOwner)
  | cut (walked : List Slot) (hne : m.inputOwner ≠ owner)
      (hwalk : Chain.walk (fun x => liveOccupant T (m.aux x).previousOwner) owner 11 [] m.inputOwner =
        some walked)
      (h : ∀ t, (m'.aux t).previousOwner = if t ∈ walked then 0 else (m.aux t).previousOwner)
  | push (hne : m.inputOwner ≠ owner) (hfirst : owner ≠ Slot.first)
      (hwalk : Chain.walk (fun x => liveOccupant T (m.aux x).previousOwner) owner 11 [] m.inputOwner = none)
      (h : ∀ t, (m'.aux t).previousOwner =
        if t = owner then (taskIdOf T m.inputOwner).getD 0 else (m.aux t).previousOwner)

theorem setInputOwner_cases (T : Table) (m : Misc M) (owner : Slot) (foreground : Bool) :
    (setInputOwner T m owner foreground).inputOwner = owner ∧
      Relinks T m (setInputOwner T m owner foreground) owner := by
  have hforeground :
      ∀ t, ((m.modify owner fun a => { a with foregroundCommand := foreground }).aux t).previousOwner
      = (m.aux t).previousOwner := by
    exact modify_proj Aux.previousOwner (by intro _; rfl) owner
  unfold setInputOwner
  simp only
  split
  · rename_i heq
    exact ⟨rfl, .same (.inl heq) hforeground⟩
  rename_i hne
  rw [walkOwners_eq]
  have hlinks : (fun x => liveOccupant T ((keyboardOwnerChanged { (m.modify owner fun a =>
      { a with foregroundCommand := foreground }) with inputOwner := owner }).aux x).previousOwner)
      = fun x => liveOccupant T (m.aux x).previousOwner := by
    funext x
    exact congrArg (liveOccupant T) (hforeground x)
  rw [hlinks]
  split
  · rename_i walked hwalk
    refine ⟨cut_owner _ _, .cut walked hne hwalk fun t => ?_⟩
    rw [cut_links]
    exact congrArg (fun x => if t ∈ walked then 0 else x) (hforeground t)
  · rename_i hwalk
    split
    · rename_i hfirst
      exact ⟨rfl, .same (.inr ⟨hfirst, hne, hwalk⟩) hforeground⟩
    rename_i hfirst
    refine ⟨rfl, .push hne hfirst hwalk fun t => ?_⟩
    by_cases ht : t = owner
    · simp [ht, setPreviousOwner, Misc.modify]
    · simp [ht, setPreviousOwner, Misc.modify, keyboardOwnerChanged]

end handOver

theorem way_congr {r r' : Slot → Slot → Prop} {P : Slot → Prop} (hiff : ∀ a b, P a → (r a b ↔ r' a b))
    (hkeep : ∀ a b, P a → r a b → P b) {a b : Slot} (ha : P a) (h : TransGen r a b) :
    P b ∧ TransGen r' a b := by
  induction h with
  | single hl => exact ⟨hkeep _ _ ha hl, .single ((hiff _ _ ha).1 hl)⟩
  | tail _ hl ih => exact ⟨hkeep _ _ ih.1 hl, ih.2.tail ((hiff _ _ ih.1).1 hl)⟩

section fg
variable {h : Nat → Nat} {a b : Slot} {k : Sys}
variable {t : Slot} {e : Entry M} {c : Fin M.cores} {d : Dev} {x : Nat × State M}

theorem KeyOk.over_iff (hk : KeyOk h s) (hn : Issued s)
    (ha : (s.task a).state.isOccupied) : Over s.task h a b ↔ Chain.Link (below s) a b := by
  have hnear := hk.refines a ha
  constructor
  · intro hover
    exact hnear.unique (liveOccupant_zero hn) hover
  · intro hlink
    rw [hlink] at hnear
    exact hnear

theorem KeyOk.way_iff (hk : KeyOk h s) (hn : Issued s) (ha : (s.task a).state.isOccupied) :
    TransGen (Over s.task h) a b ↔ TransGen (Chain.Link (below s)) a b := by
  constructor
  · intro hway
    exact (way_congr (P := fun t => (s.task t).state.isOccupied) (fun x y hx => hk.over_iff hn hx)
      (fun x y hx hxy => liveOccupant_occupied ((hk.over_iff hn hx).1 hxy)) ha hway).2
  · intro hway
    exact (way_congr (P := fun t => (s.task t).state.isOccupied) (fun x y hx => (hk.over_iff hn hx).symm)
      (fun x y hx hxy => liveOccupant_occupied hxy) ha hway).2

theorem KeyOk.reach_iff (hk : KeyOk h s) (hn : Issued s) (ha : (s.task a).state.isOccupied) :
    ReflTransGen (Over s.task h) a b ↔ ReflTransGen (Chain.Link (below s)) a b := by
  rw [reflTransGen_iff_eq_or_transGen, reflTransGen_iff_eq_or_transGen, hk.way_iff hn ha]

theorem reach_live (ha : (s.task a).state.isOccupied)
    (h : ReflTransGen (Chain.Link (below s)) a b) : (s.task b).state.isOccupied := by
  induction h with
  | refl => exact ha
  | tail _ hl _ => exact liveOccupant_occupied hl

theorem KeyOk.relink {h' : Nat → Nat} (hk : KeyOk h s) (htask : s'.task = s.task)
    (hgen : s'.nextGen = s.nextGen) (howner : OwnerLive s') (hacyclic : Chain.Acyclic (below s'))
    (hdead : ∀ x, liveOccupant s.task x = none → h' x = h x)
    (hlinks : ∀ t, (s'.misc.aux t).previousOwner = (s.misc.aux t).previousOwner ∧
        ((s.task t).state.isOccupied → h' (idOf s.task t) = h (idOf s.task t)) ∨
      (s'.misc.aux t).previousOwner = 0 ∧ below s' t = none ∧ h' (idOf s.task t) = 0 ∨
      ∃ u, (s.task t).state.isOccupied ∧ (u = Slot.first ∨ u.isSpawnable) ∧
        below s' t = some u ∧ h' (idOf s.task t) = idOf s.task u)
    (hvalues : ∀ id, h' id / 256 < s.nextGen) (hfresh : ∀ id, s.nextGen ≤ id / 256 → h' id = 0) :
    KeyOk h' s' := by
  have hsame : ∀ t, (s'.misc.aux t).previousOwner = (s.misc.aux t).previousOwner → below s' t = below s t := by
    intro t ht
    unfold below
    rw [htask, ht]
  have hlive : ∀ x, liveOccupant s'.task x = liveOccupant s.task x := fun x => by rw [htask]
  refine ⟨howner, hacyclic, ?_, ?_, ?_, ?_, ?_⟩
  · intro t
    rcases hlinks t with ⟨ht, -⟩ | ⟨ht, -, -⟩ | ⟨u, -, hu, hbelow, -⟩
    · rw [hsame t ht, ht]
      exact hk.named t
    · exact .inl ht
    · exact .inr ⟨u, hbelow, hu⟩
  · intro t hocc
    rw [htask] at hocc
    rcases hlinks t with ⟨ht, -⟩ | ⟨ht, -, -⟩ | ⟨u, hlive, -⟩
    · rw [ht]
      exact hk.dead t hocc
    · exact ht
    · rw [hocc] at hlive
      cases hlive
  · intro t hocc
    rw [htask] at hocc
    have hid : idOf s'.task t = idOf s.task t := by rw [htask]
    rw [hid]
    rcases hlinks t with ⟨ht, hh⟩ | ⟨-, hbelow, hh⟩ | ⟨u, -, -, hbelow, hh⟩
    · rw [hh hocc, hsame t ht]
      exact (hk.refines t hocc).congr hlive hdead
    · rw [hh, hbelow]
      exact .bottom
    rw [hh, hbelow]
    refine .live ?_
    have hu := liveOccupant_occupied hbelow
    rw [htask] at hu ⊢
    exact liveOccupant_idOf hu
  · intro id
    rw [hgen]
    exact hvalues id
  · intro id hid
    rw [hgen] at hid
    exact hfresh id hid

theorem idOf_inj {u : Slot} (h : idOf T t = idOf T u) : t = u := (pack_inj h).2

theorem idOf_issued (hn : Issued s) (t : Slot) : idOf s.task t / 256 < s.nextGen := by
  unfold idOf
  rw [pack_number]
  exact hn.gens t

theorem occupant_idOf_ne (ht : (s.task t).state.isOccupied) :
    liveOccupant s.task (idOf s.task t) ≠ none := by
  rw [liveOccupant_idOf ht]
  exact some_ne_none t

/-- Unlinking every task walked over, in the books and in the history. -/
theorem KeyOk.cut {h' : Nat → Nat} {m' : Misc M} {walked : List Slot} (hk : KeyOk h s) (hn : Issued s)
    (howner : OwnerLive (s.setMisc m')) (hwalked : ∀ t, t ∈ walked → (s.task t).state.isOccupied)
    (hlinks : ∀ t, (m'.aux t).previousOwner = if t ∈ walked then 0 else (s.misc.aux t).previousOwner)
    (hh : ∀ id, h' id = if ∃ t, t ∈ walked ∧ id = idOf s.task t then 0 else h id) :
    KeyOk h' (s.setMisc m') := by
  refine hk.relink rfl rfl howner ?_ ?_ ?_ ?_ ?_
  · refine hk.acyclic.mono fun a b hab => .single ?_
    unfold Chain.Link below at hab ⊢
    rw [setMisc_task, setMisc_misc, hlinks a] at hab
    split at hab
    · rw [liveOccupant_zero hn] at hab
      cases hab
    · exact hab
  · intro x hx
    rw [hh, if_neg]
    rintro ⟨t, ht, rfl⟩
    exact occupant_idOf_ne (hwalked t ht) hx
  · intro t
    by_cases ht : t ∈ walked
    · refine .inr (.inl ⟨?_, ?_, ?_⟩)
      · rw [setMisc_misc, hlinks t, if_pos ht]
      · unfold below
        rw [setMisc_task, setMisc_misc, hlinks t, if_pos ht]
        exact liveOccupant_zero hn
      · rw [hh, if_pos ⟨t, ht, rfl⟩]
    · refine .inl ⟨?_, fun _ => ?_⟩
      · rw [setMisc_misc, hlinks t, if_neg ht]
      · rw [hh, if_neg]
        rintro ⟨u, hu, hid⟩
        rw [idOf_inj hid] at ht
        exact ht hu
  · intro id
    rw [hh]
    split
    · exact lt_of_le_of_lt (zero_le _) (hn.gens Slot.first)
    · exact hk.values id
  · intro id hid
    rw [hh]
    split
    · rfl
    · exact hk.fresh id hid

/-- Linking a target that is not below the owner to it. -/
theorem KeyOk.push {m' : Misc M} {target : Slot} (hk : KeyOk h s) (hn : Issued s)
    (howner : OwnerLive (s.setMisc m')) (hsource : (s.task s.misc.inputOwner).state.isOccupied)
    (hocc : (s.task target).state.isOccupied) (hne : s.misc.inputOwner ≠ target)
    (hno : ¬ TransGen (Chain.Link (below s)) s.misc.inputOwner target)
    (hlinks : ∀ t, (m'.aux t).previousOwner =
      if t = target then (taskIdOf s.task s.misc.inputOwner).getD 0 else (s.misc.aux t).previousOwner) :
    KeyOk (update h (idOf s.task target) (idOf s.task s.misc.inputOwner)) (s.setMisc m') := by
  have hbelow : below (s.setMisc m') target = some s.misc.inputOwner := by
    unfold below
    rw [setMisc_task, setMisc_misc, hlinks target, if_pos rfl,
      taskIdOf_eq_some.2 ⟨isOccupied_ne_unused hsource, rfl⟩]
    exact liveOccupant_idOf hsource
  refine hk.relink rfl rfl howner ?_ ?_ ?_ ?_ ?_
  · refine hk.acyclic.extend (a := target) (b := s.misc.inputOwner) ?_ hbelow ?_
    · intro x hx
      unfold below
      rw [setMisc_task, setMisc_misc, hlinks x, if_neg hx]
    · intro hback
      rcases reflTransGen_iff_eq_or_transGen.1 hback with heq | hway
      · exact hne heq.symm
      · exact hno hway
  · intro x hx
    rw [update_of_ne]
    rintro rfl
    exact occupant_idOf_ne hocc hx
  · intro t
    by_cases ht : t = target
    · subst ht
      exact .inr (.inr ⟨s.misc.inputOwner, hocc, hk.owner.imp id And.left, hbelow, update_self ..⟩)
    refine .inl ⟨?_, fun _ => ?_⟩
    · rw [setMisc_misc, hlinks t, if_neg ht]
    · rw [update_of_ne]
      exact fun hid => ht (idOf_inj hid)
  · intro id
    rw [update_apply]
    split
    · exact idOf_issued hn _
    · exact hk.values id
  · intro id hid
    rw [update_of_ne]
    · exact hk.fresh id hid
    · rintro rfl
      have := idOf_issued hn target
      omega

/-- **The invariant is kept by a hand-over.** -/
theorem KeyOk.handOver (hk : KeyOk h s) (hn : Issued s) {target : Slot} (foreground : Bool)
    (hsource : (s.task s.misc.inputOwner).state.isOccupied)
    (hocc : (s.task target).state.isOccupied)
    (hslot : target = Slot.first ∨ target.isSpawnable) :
    KeyOk (Kernel.handOver s.task h s.misc.inputOwner target)
      (s.setMisc (setInputOwner s.task s.misc target foreground)) := by
  obtain ⟨hnew, hrelinks⟩ := setInputOwner_cases s.task s.misc target foreground
  have howner : OwnerLive (s.setMisc (setInputOwner s.task s.misc target foreground)) := by
    unfold OwnerLive
    rw [setMisc_misc, hnew]
    exact hslot.imp id fun hspawn => ⟨hspawn, hocc⟩
  have hno (hwalk : Chain.walk (below s) target 11 [] s.misc.inputOwner = none) :
      ¬ TransGen (Over s.task h) s.misc.inputOwner target := by
    rw [hk.way_iff hn hsource]
    exact Chain.walk_none hk.acyclic (by decide) hwalk
  cases hrelinks with
  | same hcase hlinks =>
    have hh : Kernel.handOver s.task h s.misc.inputOwner target = h := by
      unfold Kernel.handOver
      rcases hcase with heq | ⟨hfirst, hne, hwalk⟩
      · rw [if_pos heq]
      · rw [if_neg hne, if_neg (hno hwalk), if_pos hfirst]
    rw [hh]
    exact hk.keep (fun _ => .refl _) rfl hlinks howner
  | cut walked hne hwalk hlinks =>
    obtain ⟨hway, hmem⟩ := Chain.walk_some hk.acyclic hwalk
    have hon : ∀ t, t ∈ walked ↔ (s.task t).state.isOccupied ∧
        ReflTransGen (Over s.task h) s.misc.inputOwner t ∧ TransGen (Over s.task h) t target := by
      intro t
      rw [hmem t, hk.reach_iff hn hsource]
      constructor
      · rintro (hnil | ⟨hreach, hdown⟩)
        · cases hnil
        · have ht := reach_live hsource hreach
          exact ⟨ht, hreach, (hk.way_iff hn ht).2 hdown⟩
      · rintro ⟨ht, hreach, hdown⟩
        exact .inr ⟨hreach, (hk.way_iff hn ht).1 hdown⟩
    refine hk.cut hn howner (fun t ht => ((hon t).1 ht).1) hlinks fun id => ?_
    unfold Kernel.handOver
    rw [if_neg hne, if_pos ((hk.way_iff hn hsource).2 hway)]
    congr 1
    refine propext (exists_congr fun t => ?_)
    rw [hon t]
    tauto
  | push hne hfirst hwalk hlinks =>
    unfold Kernel.handOver
    rw [if_neg hne, if_neg (hno hwalk), if_neg hfirst]
    exact hk.push hn howner hsource hocc hne (fun hway => hno hwalk ((hk.way_iff hn hsource).2 hway)) hlinks

/-! ## Runs -/

theorem KeyOk.shifts (hk : KeyOk h s) (hn : Issued s) (hst : Shifts s s') : KeyOk h s' := by
  induction hst with
  | refl => exact hk
  | tail hpre hlast ih => exact ih.shift (hn.shifts hpre) hlast

theorem KeyOk.books {m : Misc M} (hk : KeyOk h s)
    (hprev : ∀ t, (m.aux t).previousOwner = (s.misc.aux t).previousOwner)
    (howner : m.inputOwner = s.misc.inputOwner) : KeyOk h (s.setMisc m) :=
  hk.keep (fun _ => .refl _) rfl hprev (hk.owner.keep (fun _ => .refl _) howner)

theorem KeyOk.modify {f : Aux → Aux} (hk : KeyOk h s) (i : Slot)
    (hf : ∀ a, (f a).previousOwner = a.previousOwner) : KeyOk h (s.setMisc (s.misc.modify i f)) := by
  exact hk.books (modify_proj Aux.previousOwner hf i) rfl

theorem noteHandOver_cutShort (hcut : e.cutShort s s') : noteHandOver h (s, e, s') = h := by
  cases e with
  | syscall c d k =>
    cases k with
    | fg task foreground =>
      simp only [noteHandOver]
      split
      · refine if_neg fun hacc => ?_
        have hgone := hcut c d _ rfl rfl
        rw [hacc.1] at hgone
        cases hgone
      · rfl
    | _ => rfl
  | _ => rfl

theorem noteHandOver_other
    (hk : ∀ task foreground, k ≠ .fg task foreground) : noteHandOver h (s, .syscall c d k, s') = h := by
  cases k with
  | fg task foreground => exact absurd rfl (hk task foreground)
  | _ => rfl

/-- **The invariant is kept by the calls that write the books**: `FG` hands over, `SPAWN` starts a task without a
link. -/
theorem KeyOk.told {u : State M} (hk : KeyOk h u)
    (hn : Issued u) (htask : u.task = s.task) (howner : u.misc.inputOwner = s.misc.inputOwner)
    (hrun : (s.task (s.current c)).state = .runnable) (hbook : Booked u (s.current c) k x) :
    KeyOk (noteHandOver h (s, .syscall c d k, x.2.modify (s.current c) fun t => { t with x0 := x.1 }))
      (x.2.modify (s.current c) fun t => { t with x0 := x.1 }) := by
  have hresult : ∀ {h' : Nat → Nat} {v : State M} (r : Nat), KeyOk h' v →
      KeyOk h' (v.modify (s.current c) fun t => { t with x0 := r }) := by
    intro h' v r hv
    exact hv.keep (.result _ _ _) rfl (fun _ => rfl) (hv.owner.keep (.result _ _ _) rfl)
  have hother : ∀ {v : State M} {r : Nat}, (∀ task foreground, k ≠ .fg task foreground) → KeyOk h v →
      KeyOk (noteHandOver h (s, .syscall c d k, v.modify (s.current c) fun t => { t with x0 := r }))
        (v.modify (s.current c) fun t => { t with x0 := r }) := by
    intro v r hfg hv
    rw [noteHandOver_other hfg]
    exact hresult r hv
  cases hbook with
  | @refused _ r m hr hm =>
    have hbooks : KeyOk h (u.setMisc m) := by
      rcases hm with hm | hm
      · exact hk.books (fun t => by rw [hm.aux]) hm.owner
      · exact hk.books (fun t => by rw [hm.aux]) hm.owner
    have hsame : noteHandOver h (s, .syscall c d k,
        (u.setMisc m).modify (s.current c) fun t => { t with x0 := r }) = h := by
      cases k with
      | fg task foreground =>
        simp only [noteHandOver]
        split
        · exact if_neg fun hacc => hr hacc.result
        · rfl
      | _ => rfl
    rw [hsame]
    exact hresult r hbooks
  | stages _ hput =>
    refine hother ?_ (hk.books (fun _ => rfl) rfl)
    rintro _ _ rfl
    cases hput
  | grants | names => exact hother (fun _ _ => Sys.noConfusion) (hk.modify _ fun _ => rfl)
  | @handsOver foreground t ht hocc hmine =>
    have hacc : Accepted s c ((u.setMisc (setInputOwner u.task u.misc t (foreground != 0))).modify
        (s.current c) fun v => { v with x0 := 0 }) := by
      unfold Accepted
      rw [modify_same, setMisc_task, htask]
      exact ⟨hrun, rfl⟩
    have hnew : Slot.new t.val = some t := by simp [Slot.new, t.isLt]
    have hsource : (u.task u.misc.inputOwner).state.isOccupied := by
      rw [hmine, htask, hrun]
      rfl
    have hover := hk.handOver hn (foreground != 0) hsource hocc ht
    simp only [noteHandOver, hnew]
    rw [if_pos hacc, ← htask, ← howner]
    exact hresult 0 hover
  | asks hm => exact hother (fun _ _ => Sys.noConfusion) (hk.shifts hn (.hushes hm))
  | @sets _ _ m hm raw =>
    have hread : KeyOk h (u.setMisc m) := hk.shifts hn (.hushes hm)
    exact hother (fun _ _ => Sys.noConfusion) (hread.modify _ fun _ => rfl)
  | spawns _ _ hstart => exact hother (fun _ _ => Sys.noConfusion) (hk.spawned hn hstart.free)

theorem KeyOk.step (hk : KeyOk h s) (hs : Steady s) (hn : Issued s) (hst : Step s e s') :
    KeyOk (noteHandOver h (s, e, s')) s' := by
  rcases step_booked hs hst with ⟨hshifts, hcut⟩ | ⟨c, d, k, m, x, rfl, hm, hbook, rfl⟩
  · rw [noteHandOver_cutShort hcut]
    exact hk.shifts hn hshifts
  have howner : m.inputOwner = s.misc.inputOwner := by
    rcases hm with rfl | rfl <;> rfl
  have hload := load_shifts hm
  exact (hk.shifts hn hload).told (hn.shifts hload) rfl howner (hs.current c) hbook

theorem booted_keyOk (hb : Booted s) : KeyOk (fun _ => 0) s := by
  have hn := (booted_numbered hb).issued
  obtain ⟨b, top, q, d, rfl⟩ := hb
  have hnone : below (bootState M b top q d) = fun _ => none := by
    funext t
    exact below_none hn rfl
  refine ⟨.inl rfl, ?_, fun _ => .inl rfl, fun _ _ => rfl, ?_, ?_, fun _ _ => rfl⟩
  · rw [hnone]
    exact .empty
  · intro t _
    rw [hnone]
    exact .bottom
  · intro _
    exact lt_of_le_of_lt (zero_le _) (hn.gens Slot.first)

/-- **The invariant of every run.** -/
theorem trace_keyOk {s₀ : State M} {k : List (State M × Entry M × State M)} (hb : Booted s₀)
    (tr : Trace Step s₀ k s) : KeyOk (handOvers k) s := by
  induction tr with
  | nil => exact booted_keyOk hb
  | snoc pre hst ih =>
    obtain ⟨hs, hn⟩ := reached_numbered ⟨_, _, hb, pre⟩
    unfold handOvers
    rw [foldl_append, foldl_cons, foldl_nil]
    exact ih.step hs hn.issued hst

theorem KeyOk.inherits (hk : KeyOk h s) (hst : Shift s s') (hocc : (s.task s.misc.inputOwner).state.isOccupied)
    (hgone : (s'.task s.misc.inputOwner).state.isOccupied = false) :
    ∃ r, Nearest s'.task h (h (idOf s.task s.misc.inputOwner)) r ∧ s'.misc.inputOwner = r.getD Slot.first := by
  cases hst with
  | keep _ _ _ hp =>
    rw [(hp _).occupied, hocc] at hgone
    cases hgone
  | ended i final _ hfinal current heq =>
    subst heq
    have hend := endTask_endedIn s i hfinal
    have howner : s.misc.inputOwner = i := by
      by_contra hne
      exact absurd ((hend.other _ hne).occupied.trans hocc) (eq_false_iff.1 hgone)
    have howner' : (endTask s i final).misc.inputOwner = _ := ended_owner howner
    refine ⟨below s i, ?_, howner'⟩
    rw [howner] at hocc ⊢
    exact (hk.refines i hocc).outlives hend (hk.below_ne i)
  | installed slot m size hunused _ _ _ heq =>
    subst heq
    have hne : s.misc.inputOwner ≠ slot := by
      intro heq
      rw [heq, hunused] at hocc
      cases hocc
    rw [installTask_task, if_neg hne] at hgone
    exact absurd hocc (eq_false_iff.1 hgone)

theorem Booked.outlives {cur : Slot} (hbook : Booked s cur k x) (ht : (s.task t).state.isOccupied) :
    (x.2.task t).state.isOccupied ∧ (x.2.task t).gen = (s.task t).gen := by
  cases hbook with
  | @spawns _ _ _ _ slot size out mem _ _ hstart =>
    have hne : t ≠ slot := by
      rintro rfl
      rw [(freeSlot_eq_some hstart.free).2] at ht
      cases ht
    simp only [spawned, spawnedTable, if_neg hne]
    exact ⟨ht, trivial⟩
  | _ => exact ⟨ht, rfl⟩

end fg

/-- **The keyboard always has a live owner.**  At every point of a run, also inside an entry, the owner
is the shell or a live spawned task and the links have no cycle; the keyboard of an owner that dies goes
to the nearest live task of the chain of hand-overs, or to the shell. -/
theorem keyboard_owner {s₀ : State M} {k : List (State M × Entry M × State M)} (hb : Booted s₀)
    (tr : Trace Step s₀ k s) :
    (∀ u, Shifts s u → OwnerLive u ∧ Chain.Acyclic (below u)) ∧
    (∀ u u', Shifts s u → Shift u u' → (u.task u.misc.inputOwner).state.isOccupied = true →
      (u'.task u.misc.inputOwner).state.isOccupied = false →
      ∃ r, Nearest u'.task (handOvers k) (handOvers k (idOf u.task u.misc.inputOwner)) r ∧
        u'.misc.inputOwner = r.getD Slot.first) ∧
    ∀ e s', Step s e s' → Shifts s s' ∨ ∀ t, (s.task t).state.isOccupied = true →
        (s'.task t).state.isOccupied = true ∧ (s'.task t).gen = (s.task t).gen := by
  obtain ⟨hs, hn⟩ := reached_numbered ⟨_, _, hb, tr⟩
  have hk := trace_keyOk hb tr
  refine ⟨fun u hu => ?_, fun u u' hu hst hocc hgone => ?_, fun e s' hst => ?_⟩
  · have hku := hk.shifts hn.issued hu
    exact ⟨hku.owner, hku.acyclic⟩
  · exact (hk.shifts hn.issued hu).inherits hst hocc hgone
  rcases step_booked hs hst with ⟨hshifts, -⟩ | ⟨c, d, k, m, x, -, -, hbook, rfl⟩
  · exact .inl hshifts
  refine .inr fun t ht => ?_
  obtain ⟨hocc, hgen⟩ := hbook.outlives ht
  have hplace := SamePlace.result x.2 (s.current c) x.1 t
  exact ⟨hplace.occupied.trans hocc, hplace.gen.trans hgen⟩

def handsKeyboard : Entry twoCores := asksFirst (.fg 6 1)

def keyboardHanded : State twoCores := (step childSpawned handsKeyboard).getD childSpawned

/-- the child owns the keyboard, and the whole of the above holds of it. -/
theorem keyboard_owner_child : keyboardHanded.misc.inputOwner = 6 ∧ below keyboardHanded 6 = some Slot.first ∧
    OwnerLive keyboardHanded ∧ Chain.Acyclic (below keyboardHanded) := by
  have hstep : Step childSpawned handsKeyboard keyboardHanded := step_getD (by decide +kernel)
  have hlive := (keyboard_owner twoCoresBoot_booted (childRun_trace.snoc hstep)).1 _ .refl
  exact ⟨by decide +kernel, by decide +kernel, hlive⟩

end Foreground

end Ouroboros.Kernel
