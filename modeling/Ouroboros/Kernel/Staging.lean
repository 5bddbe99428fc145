import Ouroboros.Kernel.Vacant

/-!
# Staging is private

All spawners share one staging area, which a task holds under its packed identity.

* `Draft`, `drafts`  what each task of a run has staged since its last chunk at offset 0, read off its own
  accepted staging calls;
* `Drafted`  the area, if it holds an image, is the draft of its holder;
* `spawn_from_draft`  a `SPAWN` that succeeds starts its caller's own draft: the image up to the length it
  names, and the arguments likewise.
-/

namespace Ouroboros.Kernel

open Relation Transition Function

section Staging
variable {M : Machine} {s s' : State M}
variable {p : Nat → Draft} {c : Fin M.cores} {d : Dev} {k : Sys} {T : Table} {m : Misc M}
    {m' : Misc M} {e : Entry M}

/-! ## Drafts -/

structure Draft where
  image : List UInt8
  argv : List UInt8
  cwd : List UInt8
  env : List UInt8
deriving DecidableEq, Repr

def Draft.empty : Draft := ⟨[], [], [], []⟩

def Staging.draft (g : Staging) : Draft := ⟨g.image, g.argv, g.cwd, g.env⟩

/-- the draft after one accepted call: a chunk at offset 0 starts over, any other is appended. -/
def Draft.after (mem : Nat → UInt8) : Sys → Draft → Draft
  | .spawnStage offset ptr len, r =>
    if offset = 0 then ⟨readMem mem ptr len, [], [], []⟩
    else { r with image := r.image ++ readMem mem ptr len }
  | .argsStage ptr len, r => { r with argv := readMem mem ptr len }
  | .cwdStage ptr len, r => { r with cwd := readMem mem ptr len }
  | .envStage ptr len, r => { r with env := readMem mem ptr len }
  | _, r => r

def noteDraft (p : Nat → Draft) : State M × Entry M × State M → Nat → Draft
  | (s, .syscall c d k, s') =>
    let me := idOf s.task (s.current c)
    if Accepted s c s' then Function.update p me ((p me).after d.mem k) else p
  | _ => p

def drafts (k : List (State M × Entry M × State M)) : Nat → Draft := k.foldl noteDraft fun _ => .empty

theorem noteDraft_same (hk : ∀ r : Draft, r.after d.mem k = r) : noteDraft p (s, .syscall c d k, s') = p := by
  unfold noteDraft
  simp only [hk, update_eq_self, ite_self]

theorem noteDraft_refused (h : ¬ Accepted s c s') : noteDraft p (s, .syscall c d k, s') = p := if_neg h

/-! ## The area -/

def Drafted (p : Nat → Draft) (s : State M) : Prop :=
  s.misc.staging.image ≠ [] → p s.misc.staging.stager = s.misc.staging.draft

theorem Drafted.keep (h : Drafted p s)
    (hg : s'.misc.staging = s.misc.staging ∨ s'.misc.staging = .free) : Drafted p s' := by
  unfold Drafted at h ⊢
  rcases hg with hg | hg
  · rw [hg]
    exact h
  · rw [hg]
    exact fun hne => absurd rfl hne

theorem Hush.staging (h : Hush T m m') : m'.staging = m.staging := by
  cases h with
  | still h | takeBack _ h | condemn _ h | pardon h => exact h.staging
  | mark | unmark | name => rfl

theorem Hushes.staging (h : Hushes T m m') : m'.staging = m.staging := by
  induction h with
  | refl => rfl
  | tail _ hm ih => rw [hm.staging, ih]

theorem Shift.staging (h : Shift s s') : s'.misc.staging = s.misc.staging ∨ s'.misc.staging = .free := by
  cases h with
  | keep _ _ _ _ hm => exact .inl hm.staging
  | ended i final _ _ current heq =>
    subst heq
    exact endTask_staging s i final
  | installed slot m size _ _ _ hm heq =>
    subst heq
    exact .inl hm.staging

theorem Drafted.shifts (h : Drafted p s) (hst : Shifts s s') : Drafted p s' := by
  induction hst with
  | refl => exact h
  | tail _ hlast ih => exact ih.keep hlast.staging

theorem Stages.drafted {held g g' : Staging} {mem : Nat → UInt8} {me : Nat}
    (h : Stages mem me k g g') (hopen : Opened T held me g)
    (hp : held.image ≠ [] → p held.stager = held.draft) (hne : g'.image ≠ []) :
    g'.stager = me ∧ (p me).after mem k = g'.draft := by
  have hg : g.image ≠ [] → p me = g.draft := by
    cases hopen with
    | mine _ hme => exact fun himage => by rw [← hme, hp himage]
    | free => exact fun himage => absurd rfl himage
  have hstager := hopen.stager
  cases h with
  | first => exact ⟨rfl, rfl⟩
  | next hpos hat =>
    have himage : g.image ≠ [] := by
      intro hnil
      rw [hnil] at hat
      exact hpos hat
    refine ⟨hstager, ?_⟩
    rw [hg himage]
    exact if_neg hpos
  | argv | cwd | env => exact ⟨hstager, by rw [hg hne]; rfl⟩

/-! ## Runs -/

theorem Drafted.told {u : State M} {x : Nat × State M}
    (h : Drafted p u) (htask : u.task = s.task) (hmem : u.misc.dev.mem = d.mem)
    (hrun : (s.task (s.current c)).state = .runnable) (hbook : Booked u (s.current c) k x) :
    Drafted (noteDraft p (s, .syscall c d k, x.2.modify (s.current c) fun t => { t with x0 := x.1 }))
      (x.2.modify (s.current c) fun t => { t with x0 := x.1 }) := by
  have hkeep : ∀ v : State M, v.misc.staging = u.misc.staging ∨ v.misc.staging = .free →
      (∀ r : Draft, r.after d.mem k = r) → ∀ r, Drafted (noteDraft p (s, .syscall c d k,
        v.modify (s.current c) fun t =>
            { t with x0 := r })) (v.modify (s.current c) fun t => { t with x0 := r }) := by
    intro v hv hk r
    rw [noteDraft_same hk]
    exact h.keep hv
  cases hbook with
  | @refused _ r m hr hm =>
    have hg : m.staging = u.misc.staging ∨ m.staging = .free := by
      rcases hm with hm | hm
      · exact .inl hm.staging
      · exact .inr hm.staging
    have hno : k.refuses r → (∀ y : Draft, y.after d.mem k = y) ∨ r ≠ 0 := by
      intro hr
      cases k with
      | spawn => exact .inl fun _ => rfl
      | _ => exact .inr hr
    rcases hno hr with hk | hne
    · exact hkeep (u.setMisc m) hg hk r
    · rw [noteDraft_refused fun hacc => hne hacc.result]
      exact h.keep hg
  | @stages _ g g' hopen hput =>
    have hacc : Accepted s c ((u.setMisc (u.misc.setStaging g')).modify (s.current c) fun t =>
        { t with x0 := 0 }) := by
      unfold Accepted
      rw [State.modify_same, State.setMisc_task, htask]
      exact ⟨hrun, rfl⟩
    intro hne
    obtain ⟨hstager, hafter⟩ := hput.drafted hopen h hne
    rw [hmem, htask] at hafter
    rw [htask] at hstager
    unfold noteDraft
    simp only [if_pos hacc]
    show update p _ _ g'.stager = g'.draft
    rw [hstager, update_self, hafter]
  | grants | names => exact hkeep _ (.inl rfl) (fun _ => rfl) 0
  | handsOver =>
    exact hkeep _ (.inl (setInputOwner_keeps (fun _ _ _ => rfl) (fun _ _ _ => rfl) (fun _ _ _ => rfl) ..))
      (fun _ => rfl) 0
  | asks hm | sets hm raw => exact hkeep _ (.inl hm.staging) (fun _ => rfl) _
  | spawns => exact hkeep _ (.inr rfl) (fun _ => rfl) _

theorem noteDraft_cutShort (hcut : e.cutShort s s') : noteDraft p (s, e, s') = p := by
  cases e with
  | syscall c d k =>
    by_cases hk : k.writesBooks
    · refine noteDraft_refused fun hacc => ?_
      have hgone := hcut c d k rfl hk
      rw [hacc.1] at hgone
      cases hgone
    · refine noteDraft_same fun r => ?_
      cases k with
      | spawnStage | argsStage | cwdStage | envStage => exact absurd rfl hk
      | _ => rfl
  | _ => rfl

theorem Drafted.step (h : Drafted p s) (hs : Steady s) (hst : Step s e s') :
    Drafted (noteDraft p (s, e, s')) s' := by
  rcases step_booked hs hst with ⟨hshifts, hcut⟩ | ⟨c, d, k, m, x, rfl, hm, hbook, rfl⟩
  · rw [noteDraft_cutShort hcut]
    exact h.shifts hshifts
  · have hload : Drafted p (s.setMisc m) := h.shifts (load_shifts hm)
    exact hload.told rfl (congrArg Dev.mem hm.dev) (hs.current c) hbook

theorem trace_drafted {s₀ : State M} {k : List (State M × Entry M × State M)} (hb : Booted s₀)
    (tr : Trace Step s₀ k s) : Drafted (drafts k) s := by
  induction tr with
  | nil =>
    obtain ⟨b, top, q, d, rfl⟩ := hb
    exact fun hne => absurd rfl hne
  | snoc pre hst ih =>
    obtain ⟨hs, -⟩ := reached_numbered ⟨_, _, hb, pre⟩
    unfold drafts
    rw [List.foldl_append, List.foldl_cons, List.foldl_nil]
    exact ih.step hs hst

theorem setBlobs_vacant {slot : Slot} (spawner : Slot) (g : Staging) (stdout argvLen cwdLen : Nat)
    (h : (m.aux slot).Vacant) :
    ((setBlobs m slot spawner g stdout argvLen cwdLen).aux slot).argv = g.argv.take argvLen ∧
    ((setBlobs m slot spawner g stdout argvLen cwdLen).aux slot).cwd = g.cwd.take cwdLen ∧
    ((setBlobs m slot spawner g stdout argvLen cwdLen).aux slot).env = g.env.take envMax := by
  have hput : ∀ blob : List UInt8, (if blob = [] then [] else blob) = blob := by
    intro blob
    split
    · rename_i hnil
      exact hnil.symm
    · rfl
  simp only [setBlobs, Misc.modify, update_self, h.argv, h.cwd, h.env, hput, and_self]

/-- **A `SPAWN` that succeeds starts its caller's own draft.**  The program loaded is what the caller has
staged since its last chunk at offset 0, up to the length the call names, and so are its arguments and
directory. -/
theorem spawn_from_draft {s₀ : State M} {k : List (State M × Entry M × State M)} (hb : Booted s₀)
    (tr : Trace Step s₀ k s) {c : Fin M.cores} {d : Dev} {totalLen stdout argvLen cwdLen : Nat} {slot : Slot}
    (hst : Step s (.syscall c d (.spawn totalLen stdout argvLen cwdLen)) s')
    (hrun : (s'.task (s.current c)).state = .runnable) (hres : (s'.task (s.current c)).x0 = slot.val) :
    let draft := drafts k (idOf s.task (s.current c))
    totalLen ≤ draft.image.length ∧
    M.elfRegionSize (draft.image.take totalLen) = .ok (s'.task slot).region.2 ∧
    M.populateRegion (draft.image.take totalLen) (s'.task slot).region.1 (s'.task slot).region.2 d.mem
      = (true, s'.misc.dev.mem) ∧
    (s'.misc.aux slot).argv = draft.argv.take argvLen ∧
    (s'.misc.aux slot).cwd = draft.cwd.take cwdLen ∧
    (s'.misc.aux slot).env = draft.env.take envMax := by
  intro draft
  have hreached : Reached s := ⟨_, _, hb, tr⟩
  have hs := (reached_numbered hreached).1
  have hdrafted := trace_drafted hb tr
  have hvacant := reached_vacant hreached
  obtain ⟨m, size, out, mem, hm, hne, hid, hlen, hstart, rfl⟩ := spawn_started hs hst hrun hres
  have hmem : m.dev.mem = d.mem := congrArg Dev.mem hm.dev
  have hg : m.staging = s.misc.staging := (load_hushes (T := s.task) hm).staging
  have hvacant : Vacant (s.setMisc m) := hvacant.shifts (load_shifts hm)
  obtain ⟨hspawnable, hfree⟩ := freeSlot_eq_some hstart.free
  -- an image of some length is staged, so the area is the caller's draft
  have hdraft : draft = m.staging.draft := by
    have himage : s.misc.staging.image ≠ [] := by
      intro hnil
      rw [hg, hnil] at hlen
      exact hlen.1 (Nat.le_zero.1 hlen.2)
    rw [hg] at hid ⊢
    rw [← hdrafted himage, hid]
  have hload := hstart.loaded
  rw [State.setMisc_misc, hmem] at hload
  have hempty : ((setPreviousOwner (m.setMem mem) slot 0).aux slot).Vacant :=
    (hvacant slot hspawnable (by rw [hfree]; rfl)).congr (setPreviousOwner_proj (fun _ _ => rfl) _ _ _ _)
  obtain ⟨hargv, hcwd, henv⟩ := setBlobs_vacant (s.current c) m.staging stdout argvLen cwdLen hempty
  rw [State.modify_other _ _ _ _ hne, hdraft]
  simp only [spawned, spawnedTable, if_true, spawnedTask]
  exact ⟨hlen.2, hstart.sized, hload, hargv, hcwd, henv⟩

/-! ## A shorter length -/

/-- the shell's child stages a program and arguments and dies with them; the shell then stages a program,
eight bytes more and four bytes of arguments. -/
def twoDrafts : List (Entry twoCores) :=
  [stagesImage, spawnsChild, asksFirst .yield, .syscall (0 : Fin 2) (programAt 0xE00000)
    (.spawnStage 0 0xE00000 128),
    .syscall (0 : Fin 2) (programAt 0xE00000) (.argsStage 0xE00000 8), asksFirst (.exit 0), asksFirst (.wait 6),
    stagesImage, .syscall (0 : Fin 2) (programAt 0x400000) (.spawnStage 128 0x400000 8),
    .syscall (0 : Fin 2) (programAt 0x400000) (.argsStage 0x400000 4)]

def draftsStaged : State twoCores := after twoCoresBoot twoDrafts

/-- the program without what follows it, and the first two bytes of the arguments. -/
def spawnsShorter : Entry twoCores := asksFirst (.spawn 128 0 2 0)

def shorterSpawned : State twoCores := (step draftsStaged spawnsShorter).getD draftsStaged

/-- it is started from its own draft. -/
theorem spawn_from_draft_shorter : (shorterSpawned.task Slot.first).x0 = (6 : Slot).val ∧
    let draft := drafts (record twoCoresBoot twoDrafts) (idOf draftsStaged.task Slot.first)
    (draft.image.length = 136 ∧ draft.argv = [0x7f, 0x45, 0x4c, 0x46]) ∧
    128 ≤ draft.image.length ∧
    twoCores.elfRegionSize (draft.image.take 128) = .ok (shorterSpawned.task 6).region.2 ∧
    twoCores.populateRegion (draft.image.take 128) (shorterSpawned.task 6).region.1
      (shorterSpawned.task 6).region.2
      noDev.mem = (true, shorterSpawned.misc.dev.mem) ∧
    (shorterSpawned.misc.aux 6).argv = draft.argv.take 2 ∧
    (shorterSpawned.misc.aux 6).cwd = draft.cwd.take 0 ∧
    (shorterSpawned.misc.aux 6).env = draft.env.take envMax := by
  have hrun : Trace Step twoCoresBoot (record twoCoresBoot twoDrafts) draftsStaged :=
    record_trace (by decide +kernel)
  have hspawn : Step draftsStaged spawnsShorter shorterSpawned := step_getD (by decide +kernel)
  have hcur : draftsStaged.current (0 : Fin 2) = Slot.first := by
    decide +kernel
  have hstate : (shorterSpawned.task Slot.first).state = .runnable := by
    decide +kernel
  have hres : (shorterSpawned.task Slot.first).x0 = (6 : Slot).val := by
    decide +kernel
  have hmain := spawn_from_draft twoCoresBoot_booted hrun hspawn (hcur ▸ hstate) (hcur ▸ hres)
  rw [hcur] at hmain
  exact ⟨hres, by decide +kernel, hmain⟩

/-- four bytes of arguments are staged and the new task has two. -/
theorem spawn_takes_first : Trace Step twoCoresBoot (record twoCoresBoot twoDrafts) draftsStaged ∧
    Step draftsStaged spawnsShorter shorterSpawned ∧
    (shorterSpawned.task Slot.first).state = .runnable ∧ (shorterSpawned.task Slot.first).x0 = (6 : Slot).val ∧
    let draft := drafts (record twoCoresBoot twoDrafts) (idOf draftsStaged.task Slot.first)
    draft.argv = [0x7f, 0x45, 0x4c, 0x46] ∧ (shorterSpawned.misc.aux 6).argv = [0x7f, 0x45] := by
  have hspawn : Step draftsStaged spawnsShorter shorterSpawned := step_getD (by decide +kernel)
  exact ⟨record_trace (by decide +kernel), hspawn, by decide +kernel, by decide +kernel, by decide +kernel⟩

end Staging

end Ouroboros.Kernel
