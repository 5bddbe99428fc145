import Ouroboros.Fsd.Serve

/-!
# The checks, step by step

Before an arm of `handle_ninep` runs, the volume is only asked for `stat`s. So what holds of a `stat`,
and of steps put together, holds of the checks.

* `Checking C safe`  `C` holds of the steps that the checks are built from, and building keeps it;
* `StatKeeps R`  `R` relates the work before and after any number of `stat`s: one such `C`.
-/

namespace Ouroboros.Fsd

open Act Checked

variable {F : Type} {ops : Ops F}

/-- `C` holds of the steps of a check. A slice of the request is only known to be there if `safe` holds. -/
structure Checking (ops : Ops F) (C : (α : Type) → Step F α → Prop) (safe : Prop) : Prop where
  pure : ∀ {α : Type} (a : α), C α (Pure.pure a)
  bind_of : ∀ {α β : Type} {m : Step F α} {f : α → Step F β}, C α m →
    (∀ w a w', m w = some (a, w') → C β (f a)) →
    C β (m >>= f)
  lift : ∀ {α : Type} {x : Option α}, (safe → ∃ a, x = some a) → C α (Act.lift x)
  stat : ∀ path, C _ (stat ops path)

namespace Checking
variable {C : (α : Type) → Step F α → Prop} {safe : Prop} (h : Checking ops C safe) {α β : Type}
include h

theorem bind {m : Step F α} {f : α → Step F β} (hm : C α m) (hf : ∀ a, C β (f a)) : C β (m >>= f) :=
  h.bind_of hm fun _ a _ _ => hf a

omit h in
theorem ite {c : Prop} [Decidable c] {m m' : Step F α} (hm : c → C α m) (hm' : ¬ c → C α m') :
    C α (if c then m else m') := by
  split
  · exact hm ‹_›
  · exact hm' ‹_›

theorem dirSearchable (dir : Bytes) (who : Caller) : C Bool (dirSearchable ops dir who) :=
  h.bind (h.stat dir) fun _ => h.pure _

theorem ancestorsFrom (path : Bytes) (who : Caller) {n i : Nat} (hin : safe → i + n ≤ path.length) :
    C Bool (ancestorsFrom ops path who n i) := by
  induction n generalizing i with
  | zero => exact h.pure true
  | succ n ih =>
    have hrest := @ih (i + 1) fun hs => by have := hin hs; omega
    refine h.bind (h.lift fun hs => ⟨_, List.getElem?_eq_getElem (by have := hin hs; omega)⟩) fun c =>
      ite (fun _ => ?_) fun _ => hrest
    refine h.bind (h.lift fun hs => ⟨_, slice?_eq (Nat.zero_le i) (by have := hin hs; omega)⟩) fun dir => ?_
    refine ite (fun _ => h.bind (h.dirSearchable dir who) fun ok => ?_) fun _ => h.pure true
    exact ite (fun _ => hrest) fun _ => h.pure false

theorem ancestorsSearchable (path : Bytes) (who : Caller) : C Bool (ancestorsSearchable ops path who) := by
  refine h.bind (h.lift fun _ => ⟨_, hasDotdot_eq path⟩) fun dots => ite (fun _ => h.pure false) fun _ => ?_
  refine h.bind (h.dirSearchable root who) fun ok => ite (fun _ => ?_) fun _ => h.pure false
  rcases path with _ | ⟨c, cs⟩
  · exact h.pure true
  · exact h.ancestorsFrom _ who fun _ => by rw [List.length_cons]; omega

theorem pathAllows (path : Bytes) (who : Caller) (need : Nat) : C Bool (pathAllows ops path who need) := by
  refine h.bind (h.ancestorsSearchable path who) fun ok => ite (fun _ => ?_) fun _ => h.pure false
  exact h.bind (h.stat path) fun _ => h.pure _

theorem parentAllows (path : Bytes) (who : Caller) : C Bool (parentAllows ops path who) :=
  h.bind (h.lift fun _ => parentOf_total path) fun parent => h.pathAllows parent who permWX

theorem modelsModesOrUnknown : C (Option Bool) (modelsModesOrUnknown ops) :=
  h.bind (h.stat root) fun _ => h.pure _

theorem modelsModes : C Bool (modelsModes ops) := h.bind h.modelsModesOrUnknown fun _ => h.pure _

theorem found (path : Bytes) : C Found (found ops path) := h.bind (h.stat path) fun _ => h.pure _

theorem checkOpen (who : Caller) (flags : Nat) (f : Found) : C Bool (checkOpen ops who flags f) := by
  obtain ⟨path, kind⟩ := f
  cases kind with
  | error code => exact h.ancestorsSearchable path who
  | ok kind =>
    refine h.bind (ite (fun _ => h.pathAllows path who permR) fun _ => h.pure true) fun ok => ?_
    refine ite (fun _ => ite (fun _ => ?_) fun _ => h.pure true) fun _ => h.pure false
    exact ite (fun _ => h.pathAllows path who permW) fun _ => h.parentAllows path who

theorem moveAllowed (who : Caller) (src dst : Option Bytes) : C Bool (moveAllowed ops who src dst) := by
  rcases src with _ | src
  · exact h.pure true
  rcases dst with _ | dst
  · exact h.pure true
  refine h.bind (h.parentAllows src who) fun ok => ?_
  exact ite (fun _ => h.parentAllows dst who) fun _ => h.pure false

theorem onPath {payload : Bytes} {len : Nat} {check : Bytes → Step F Bool} (hc : ∀ path, C Bool (check path)) :
    C Bool (onPath payload len check) := by
  refine h.bind (h.lift fun _ => pathFrom_zero payload len) fun path => ?_
  cases path with
  | none => exact h.pure true
  | some path => exact hc path

theorem checkVerb (who : Caller) (verb : Verb) (p : Params) (payload : Bytes) (open_ : Option Found)
    (hmv : safe → verb = .npMv → ∃ dst, pathFrom payload p.p0 p.p1 = some dst) :
    C Bool (checkVerb ops who verb p payload open_) := by
  have parent (path : Bytes) : C Bool (Fsd.parentAllows ops path who) := h.parentAllows path who
  cases verb with
  | npMv =>
    exact h.bind (h.lift fun _ => pathFrom_zero payload _) fun src =>
        h.bind (h.lift fun hs => hmv hs rfl) fun dst =>
      h.moveAllowed who src dst
  | npStat => exact h.onPath fun path => h.ancestorsSearchable path who
  | npOpen =>
    cases open_ with
    | none => exact h.pure true
    | some f => exact h.checkOpen who p.p0 f
  | npReaddir | npReadFile | npRead | npReadAt => exact h.onPath fun path => h.pathAllows path who permR
  | npWrite | npWriteFile | npWriteAt =>
    refine h.onPath fun path => h.bind (h.stat path) fun st => ?_
    cases st with
    | ok st => exact h.pathAllows path who permW
    | error e => exact parent path
  | npTouch | npMkdir | npRm | npRmdir => exact h.onPath parent
  | npChmod | npChown =>
    refine h.onPath fun path => h.bind (h.ancestorsSearchable path who) fun ok => ?_
    refine ite (fun _ => h.bind (h.stat path) fun st => ?_) fun _ => h.pure false
    cases st with
    | ok st => exact h.pure _
    | error e => exact h.pure true
  | npPread | npPwrite | npFstat | npClunk | unknown => exact h.pure false

theorem checkAccess (who : Option Caller) (verb : Verb) (p : Params) (payload : Bytes) (open_ : Option Found)
    (hmv : safe → verb = .npMv → ∃ dst, pathFrom payload p.p0 p.p1 = some dst) :
    C Bool (checkAccess ops who verb p payload open_) := by
  cases who with
  | none => exact h.pure false
  | some who =>
    refine ite (fun _ => h.pure true) fun _ => h.bind h.modelsModes fun ok => ?_
    exact ite (fun _ => h.checkVerb who verb p payload open_ hmv) fun _ => h.pure true

theorem openEarly (who : Option Caller) (p : Params) (payload : Bytes) (open_ : Option Found) :
    C (Option Nat) (openEarly ops who p payload open_) := by
  have answered (known : Nat) :
      C (Option Nat) (do Pure.pure (some (← existsAnswer ops who p payload known)) : Step F (Option Nat)) :=
    h.bind (h.bind (h.checkAccess who .npStat _ payload none nofun) fun _ => h.pure _) fun _ => h.pure _
  rcases open_ with _ | ⟨path, code | kind⟩
  · exact h.pure none
  · exact h.pure none
  · exact ite (fun _ => answered _) fun _ => ite (fun _ => answered _) fun _ => h.pure none

theorem refusedOpen (flags : Nat) (open_ : Option Found) : C (Option Nat) (refusedOpen ops flags open_) := by
  refine ite (fun _ => h.pure none) fun _ => ite (fun _ => h.pure _) fun _ => ?_
  rcases open_ with _ | ⟨path, code | kind⟩
  · exact h.pure _
  · exact h.pure _
  refine ite (fun _ => h.pure none) fun _ => h.bind (h.lift fun _ => parentOf_total path) fun parent => ?_
  refine h.bind (h.stat parent) fun st => ?_
  cases st with
  | ok st | error e => exact h.pure _

theorem refusedReadOnly (refuses : Bool) (verb : Verb) (p : Params) (open_ : Option Found) :
    C (Option Nat) (refusedReadOnly ops refuses verb p open_) := by
  cases verb with
  | npOpen => exact ite (fun _ => h.refusedOpen p.p0 open_) fun _ => h.pure none
  | _ => exact h.pure _

end Checking

structure StatKeeps (ops : Ops F) (R : Work F → Work F → Prop) : Prop where
  refl : ∀ w, R w w
  trans : ∀ w w' w'', R w w' → R w' w'' → R w w''
  stat : ∀ path, Keeps R (stat ops path)

theorem StatKeeps.checking {R : Work F → Work F → Prop} (h : StatKeeps ops R) :
    Checking ops (fun _ m => Keeps R m) False where
  pure := .pure h.refl
  bind_of := .bind_of h.trans
  lift _ := .lift h.refl _
  stat := h.stat

end Ouroboros.Fsd
