import Ouroboros.Regex.Arena

/-!
# From the arena to jump code

`gen` emits the instructions of a node, patching a branch once the code it jumps past has been emitted; `compile`
is the whole way from a pattern to a program.

* `Frag.congr`  a fragment only reads its own range, so patches and later code outside of it do not matter;
* `gen_frag`  `gen` emits a fragment, at the end of what was there;
* `compile_frag`  a compiled program is the fragment of its root followed by `match`.
-/

namespace Ouroboros.Regex

open List

def maxProg : Nat := 192

/-- one compiled instruction; `split a b` tries `a` and keeps `b` for when that fails -/
inductive Inst where
  | char (c : UInt8)
  | any
  | cls (i : Nat)
  | bol
  | eol
  | split (a b : Nat)
  | jmp (t : Nat)
  | accept
deriving DecidableEq, Repr

abbrev Emitter := List Inst

def Emitter.emit (e : Emitter) (i : Inst) : Except Error (Nat × Emitter) :=
  if maxProg ≤ e.length then .error .tooComplex
  else .ok (e.length, e ++ [i])

/-- emit the code of node `n` (the recursion of the source, on fuel) -/
def gen (nodes : List Node) : Nat → Nat → Emitter → Except Error Emitter
  | 0, _, _ => .error .tooComplex
  | fuel + 1, n, e =>
    match node nodes n with
    | .empty => .ok e
    | .char c => (e.emit (.char c)).map (·.2)
    | .any => (e.emit .any).map (·.2)
    | .cls i => (e.emit (.cls i)).map (·.2)
    | .bol => (e.emit .bol).map (·.2)
    | .eol => (e.emit .eol).map (·.2)
    | .cat a b => do
      let e ← gen nodes fuel a e
      gen nodes fuel b e
    | .alt a b => do
      let (split, e) ← e.emit (.split 0 0)
      let e ← gen nodes fuel a e
      let (jmp, e) ← e.emit (.jmp 0)
      let bStart := e.length
      let e ← gen nodes fuel b e
      let e := e.set split (.split (split + 1) bStart)
      .ok (e.set jmp (.jmp e.length))
    | .star a => do
      let (split, e) ← e.emit (.split 0 0)
      let e ← gen nodes fuel a e
      let (_, e) ← e.emit (.jmp split)
      .ok (e.set split (.split (split + 1) e.length))
    | .plus a => do
      let body := e.length
      let e ← gen nodes fuel a e
      let (split, e) ← e.emit (.split 0 0)
      .ok (e.set split (.split body e.length))
    | .quest a => do
      let (split, e) ← e.emit (.split 0 0)
      let e ← gen nodes fuel a e
      .ok (e.set split (.split (split + 1) e.length))

/-- a compiled pattern; past the stored lists `fetch`, `bits` and `negated` read the initial values of the
source's arrays (`accept`, the empty bitmap, `false`) -/
structure Program where
  prog : List Inst
  classes : List Bitmap
  classNegated : List Bool
  empty : Bool
deriving DecidableEq

def Program.fetch (r : Program) (pc : Nat) : Inst := r.prog.getD pc .accept
def Program.bits (r : Program) (i : Nat) : Bitmap := r.classes.getD i 0
def Program.negated (r : Program) (i : Nat) : Bool := r.classNegated.getD i false

def compile (pattern : List UInt8) : Except Error Program :=
  if maxPattern < pattern.length then .error .tooLong
  else if pattern = [] then .ok ⟨[.accept], [], [], true⟩
  else do
    let (root, p) ← parse pattern
    let e ← gen p.nodes (root + 1) root []
    let (_, e) ← e.emit .accept
    .ok ⟨e, p.classes, p.classNegated, false⟩

/-! ## fragments -/

/-- the code of node `n` stands at `lo ..< hi` -/
inductive Frag (nodes : List Node) (prog : List Inst) : Node → Nat → Nat → Prop where
  | empty {lo : Nat} : Frag nodes prog .empty lo lo
  | char {lo : Nat} {c : UInt8} : prog[lo]? = some (.char c) → Frag nodes prog (.char c) lo (lo + 1)
  | any {lo : Nat} : prog[lo]? = some .any → Frag nodes prog .any lo (lo + 1)
  | cls {lo i : Nat} : prog[lo]? = some (.cls i) → Frag nodes prog (.cls i) lo (lo + 1)
  | bol {lo : Nat} : prog[lo]? = some .bol → Frag nodes prog .bol lo (lo + 1)
  | eol {lo : Nat} : prog[lo]? = some .eol → Frag nodes prog .eol lo (lo + 1)
  | cat {a b lo mid hi : Nat} : Frag nodes prog (node nodes a) lo mid →
      Frag nodes prog (node nodes b) mid hi → Frag nodes prog (.cat a b) lo hi
  | alt {a b lo mid hi : Nat} : prog[lo]? = some (.split (lo + 1) (mid + 1)) →
      Frag nodes prog (node nodes a) (lo + 1) mid → prog[mid]? = some (.jmp hi) →
      Frag nodes prog (node nodes b) (mid + 1) hi → Frag nodes prog (.alt a b) lo hi
  | star {a lo mid : Nat} : prog[lo]? = some (.split (lo + 1) (mid + 1)) →
      Frag nodes prog (node nodes a) (lo + 1) mid → prog[mid]? = some (.jmp lo) →
      Frag nodes prog (.star a) lo (mid + 1)
  | plus {a lo mid : Nat} : Frag nodes prog (node nodes a) lo mid →
      prog[mid]? = some (.split lo (mid + 1)) → Frag nodes prog (.plus a) lo (mid + 1)
  | quest {a lo hi : Nat} : prog[lo]? = some (.split (lo + 1) hi) →
      Frag nodes prog (node nodes a) (lo + 1) hi → Frag nodes prog (.quest a) lo hi

variable {nodes : List Node} {prog prog' : List Inst} {n : Node} {e e' : Emitter} {lo hi : Nat} {i : Inst}

theorem Frag.le (h : Frag nodes prog n lo hi) : lo ≤ hi := by
  induction h <;> omega

theorem Frag.congr (h : Frag nodes prog n lo hi)
    (hp : ∀ i, lo ≤ i → i < hi → prog'[i]? = prog[i]?) : Frag nodes prog' n lo hi := by
  induction h with
  | empty => exact .empty
  | char h1 => exact .char (by rw [hp _ (by omega) (by omega), h1])
  | any h1 => exact .any (by rw [hp _ (by omega) (by omega), h1])
  | cls h1 => exact .cls (by rw [hp _ (by omega) (by omega), h1])
  | bol h1 => exact .bol (by rw [hp _ (by omega) (by omega), h1])
  | eol h1 => exact .eol (by rw [hp _ (by omega) (by omega), h1])
  | cat ha hb iha ihb =>
    have l1 := ha.le
    have l2 := hb.le
    exact .cat (iha fun i h1 h2 => hp i h1 (by omega)) (ihb fun i h1 h2 => hp i (by omega) h2)
  | alt hs ha hj hb iha ihb =>
    have l1 := ha.le
    have l2 := hb.le
    exact .alt (by rw [hp _ (by omega) (by omega), hs])
      (iha fun i h1 h2 => hp i (by omega) (by omega)) (by rw [hp _ (by omega) (by omega), hj])
      (ihb fun i h1 h2 => hp i (by omega) h2)
  | star hs ha hj iha =>
    have l1 := ha.le
    exact .star (by rw [hp _ (by omega) (by omega), hs])
      (iha fun i h1 h2 => hp i (by omega) (by omega)) (by rw [hp _ (by omega) (by omega), hj])
  | plus ha hs iha =>
    have l1 := ha.le
    exact .plus (iha fun i h1 h2 => hp i (by omega) (by omega)) (by rw [hp _ (by omega) (by omega), hs])
  | quest hs ha iha =>
    have l1 := ha.le
    exact .quest (by rw [hp _ (by omega) (by omega), hs]) (iha fun i h1 h2 => hp i (by omega) h2)

/-! ## the emitter emits fragments -/

/-- `e'` is `e` followed by the code of node `n` -/
structure Emitted (nodes : List Node) (n : Node) (e e' : Emitter) : Prop where
  len : e.length ≤ e'.length
  old : ∀ i, i < e.length → e'[i]? = e[i]?
  frag : Frag nodes e' n e.length e'.length

theorem Emitted.after (h : Emitted nodes n (e ++ [i]) e') :
    e.length + 1 ≤ e'.length ∧ (∀ j, j < e.length → e'[j]? = e[j]?) ∧
      Frag nodes e' n (e.length + 1) e'.length := by
  obtain ⟨hlen, hold, hfrag⟩ := h
  rw [length_append, length_singleton] at hlen hold hfrag
  exact ⟨hlen, fun j hj => (hold j (Nat.lt_succ_of_lt hj)).trans (getElem?_append_left hj), hfrag⟩

theorem emit_ok {k : Nat} (h : e.emit i = .ok (k, e')) : k = e.length ∧ e' = e ++ [i] := by
  unfold Emitter.emit at h
  split at h
  · cases h
  · cases h; exact ⟨rfl, rfl⟩

theorem emitted_one (h : (e.emit i).map (·.2) = .ok e') (hf : ∀ prog : List Inst, prog[e.length]? = some i →
      Frag nodes prog n e.length (e.length + 1)) : Emitted nodes n e e' := by
  cases he : e.emit i with
  | error _ => rw [he] at h; cases h
  | ok x =>
    rw [he] at h
    cases h
    obtain ⟨k, e'⟩ := x
    obtain ⟨_, hx⟩ := emit_ok he
    show Emitted nodes n e e'
    rw [hx]
    refine ⟨by simp, fun i hi => getElem?_append_left hi, ?_⟩
    rw [length_append, length_singleton]
    exact hf _ (by simp)

/-- **The emitter is correct**: `gen` leaves the fragment of its node at the end of the program. -/
theorem gen_emitted {fuel n : Nat} (h : gen nodes fuel n e = .ok e') : Emitted nodes (node nodes n) e e' := by
  induction fuel generalizing n e e' with
  | zero => cases h
  | succ fuel ih =>
    unfold gen at h
    cases hn : node nodes n <;> simp only [hn] at h
    case empty => cases h; exact ⟨Nat.le_refl _, fun _ _ => rfl, .empty⟩
    case char c => exact emitted_one h fun _ hp => .char hp
    case any => exact emitted_one h fun _ hp => .any hp
    case cls i => exact emitted_one h fun _ hp => .cls hp
    case bol => exact emitted_one h fun _ hp => .bol hp
    case eol => exact emitted_one h fun _ hp => .eol hp
    case cat a b =>
      obtain ⟨e1, h1, h⟩ := except_bind_eq_ok h
      have a1 := ih h1
      have a2 := ih h
      refine ⟨Nat.le_trans a1.len a2.len, fun i hi => ?_, .cat (a1.frag.congr ?_) a2.frag⟩
      · rw [a2.old i (Nat.lt_of_lt_of_le hi a1.len), a1.old i hi]
      · exact fun i _ hi => a2.old i hi
    case alt a b =>
      obtain ⟨⟨split, e1⟩, h1, h⟩ := except_bind_eq_ok h
      obtain ⟨e2, h2, h⟩ := except_bind_eq_ok h
      obtain ⟨⟨jmp, e3⟩, h3, h⟩ := except_bind_eq_ok h
      obtain ⟨e4, h4, h⟩ := except_bind_eq_ok h
      obtain ⟨rfl, rfl⟩ := emit_ok h1
      obtain ⟨rfl, rfl⟩ := emit_ok h3
      obtain ⟨l2, o2, f2⟩ := (ih h2).after
      obtain ⟨l4, o4, f4⟩ := (ih h4).after
      simp only [length_append, length_singleton] at h
      cases h
      refine ⟨by simp only [length_set]; omega, fun i hi => ?_, ?_⟩
      · rw [getElem?_set_ne (by omega), getElem?_set_ne (by omega), o4 i (by omega), o2 i hi]
      simp only [length_set]
      refine @Frag.alt _ _ a b _ e2.length _ ?_ ?_ ?_ ?_
      · rw [getElem?_set_ne (by omega), getElem?_set_self (by omega)]
      · refine f2.congr fun i h1 h2 => ?_
        rw [getElem?_set_ne (by omega), getElem?_set_ne (by omega), o4 i h2]
      · rw [getElem?_set_self (by rw [length_set]; omega)]
      · refine f4.congr fun i h1 h2 => ?_
        rw [getElem?_set_ne (by omega), getElem?_set_ne (by omega)]
    case star a =>
      obtain ⟨⟨split, e1⟩, h1, h⟩ := except_bind_eq_ok h
      obtain ⟨e2, h2, h⟩ := except_bind_eq_ok h
      obtain ⟨⟨jmp, e3⟩, h3, h⟩ := except_bind_eq_ok h
      obtain ⟨rfl, rfl⟩ := emit_ok h1
      obtain ⟨rfl, rfl⟩ := emit_ok h3
      obtain ⟨l2, o2, f2⟩ := (ih h2).after
      simp only [length_append, length_singleton] at h
      cases h
      refine ⟨by simp only [length_set, length_append]; omega, fun i hi => ?_, ?_⟩
      · rw [getElem?_set_ne (by omega), getElem?_append_left (by omega), o2 i hi]
      simp only [length_set, length_append, length_singleton]
      refine .star ?_ ?_ ?_
      · rw [getElem?_set_self (by simp; omega)]
      · refine f2.congr fun i h1 h2 => ?_
        rw [getElem?_set_ne (by omega), getElem?_append_left h2]
      · rw [getElem?_set_ne (by omega)]
        simp
    case plus a =>
      obtain ⟨e2, h2, h⟩ := except_bind_eq_ok h
      obtain ⟨⟨split, e3⟩, h3, h⟩ := except_bind_eq_ok h
      obtain ⟨rfl, rfl⟩ := emit_ok h3
      have a2 := ih h2
      have l2 := a2.len
      cases h
      refine ⟨by simp only [length_set, length_append]; omega, fun i hi => ?_, ?_⟩
      · rw [getElem?_set_ne (by omega), getElem?_append_left (by omega), a2.old i hi]
      simp only [length_set, length_append, length_singleton]
      refine .plus (a2.frag.congr fun i h1 h2 => ?_) ?_
      · rw [getElem?_set_ne (by omega), getElem?_append_left h2]
      · rw [getElem?_set_self (by simp)]
    case quest a =>
      obtain ⟨⟨split, e1⟩, h1, h⟩ := except_bind_eq_ok h
      obtain ⟨e2, h2, h⟩ := except_bind_eq_ok h
      obtain ⟨rfl, rfl⟩ := emit_ok h1
      obtain ⟨l2, o2, f2⟩ := (ih h2).after
      cases h
      refine ⟨by simp only [length_set]; omega, fun i hi => ?_, ?_⟩
      · rw [getElem?_set_ne (by omega), o2 i hi]
      simp only [length_set]
      refine .quest ?_ ?_
      · rw [getElem?_set_self (by omega)]
      · refine f2.congr fun i h1 h2 => ?_
        rw [getElem?_set_ne (by omega)]

/-- **The shape of a compiled program**: the fragment of the parsed root, then `accept`. -/
theorem compile_frag {pat : List UInt8} {r : Program} (h : compile pat = .ok r) (hne : pat ≠ []) :
    ∃ root p hi, parse pat = .ok (root, p) ∧ Frag p.nodes r.prog (node p.nodes root) 0 hi ∧
      r.fetch hi = .accept ∧ r.classes = p.classes ∧ r.classNegated = p.classNegated ∧
      r.empty = false := by
  unfold compile at h
  rw [if_neg hne] at h
  split at h
  · cases h
  obtain ⟨⟨root, p⟩, hp, h⟩ := except_bind_eq_ok h
  obtain ⟨e, he, h⟩ := except_bind_eq_ok h
  obtain ⟨⟨k, e'⟩, hk, h⟩ := except_bind_eq_ok h
  obtain ⟨rfl, rfl⟩ := emit_ok hk
  cases h
  refine ⟨root, p, e.length, hp, (gen_emitted he).frag.congr ?_, ?_, rfl, rfl, rfl⟩
  · exact fun i _ hi => getElem?_append_left hi
  · simp [Program.fetch]

end Ouroboros.Regex
