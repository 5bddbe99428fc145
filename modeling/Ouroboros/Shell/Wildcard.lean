import Mathlib.Data.List.Basic

/-!
# The shell's wildcards

* `wildcardMatch`  the matcher, which goes back to its latest star only;
* `Splits`  a name split among the bytes of a pattern, with a law for the stars;
* `Literal`  runs that take a `*` of the name only as that one byte;
* `matchLoop_spec`  **the matcher finds the splittings under that law**;
* `wildcardMatch_iff`  so it is right exactly if a name that matches can be split so.
-/

namespace Ouroboros.Shell

open List Option

abbrev Bytes := List UInt8

def star : UInt8 := 42
def question : UInt8 := 63

def fold (c : UInt8) : UInt8 := if 65 ≤ c ∧ c ≤ 90 then c + 32 else c

def ciEq (a b : UInt8) : Bool := fold a = fold b

/-- the loop of `wildcard_match`. Positions are what is left of the pattern and of the name; the star
is what follows it and the name from `mark`. `fuel` bounds the rounds. -/
def matchLoop : Nat → Bytes → Bytes → Option (Bytes × Bytes) → Option Bool
  | 0, _, _, _ => none
  | _ + 1, p, [], _ => some (p.all (· = star))
  | fuel + 1, p, b :: n, last =>
    if p.head?.any fun c => c = question ∨ ciEq c b then matchLoop fuel p.tail n last
    else if p.head? = some star then matchLoop fuel p.tail (b :: n) (some (p.tail, b :: n))
    else
      match last with
      | some (sp, mark) => matchLoop fuel sp mark.tail (some (sp, mark.tail))
      | none => some false

def wildcardMatch (pat name : Bytes) : Option Bool :=
  matchLoop ((name.length + 2) * (pat.length + 1) + 1) pat name none

/-! ## Splittings -/

/-- the name split among the bytes of the pattern: a star stands for a run that `may` stand before the
rest, `?` for a byte, any other byte for itself in either case. -/
inductive Splits (may : Bytes → Bytes → Prop) : Bytes → Bytes → Prop
  | nil : Splits may [] []
  | star {p n : Bytes} (run : Bytes) (h : may run n) (rest : Splits may p n) : Splits may (star :: p) (run ++ n)
  | question {p n : Bytes} (b : UInt8) (rest : Splits may p n) : Splits may (question :: p) (b :: n)
  | byte {c b : UInt8} {p n : Bytes} (hs : c ≠ Shell.star) (hq : c ≠ Shell.question) (h : ciEq c b)
      (rest : Splits may p n) : Splits may (c :: p) (b :: n)

/-- what the manual says. -/
def Matches : Bytes → Bytes → Prop := Splits fun _ _ => True

/-- before a `*` of the name a star stands for this one byte. -/
def Literal (run n : Bytes) : Prop := run = [star] ∨ (run ++ n).head? ≠ some star

theorem Splits.mono {may may' : Bytes → Bytes → Prop} {p n : Bytes} (h : Splits may p n)
    (hmay : ∀ run rest, run ++ rest <:+ n → may run rest → may' run rest) : Splits may' p n := by
  induction h with
  | nil => exact .nil
  | @star p n run hrun _ ih =>
    refine .star run (hmay _ _ suffix_rfl hrun) (ih fun r s hs => ?_)
    exact hmay r s (hs.trans (suffix_append run n))
  | question b _ ih => exact .question b (ih fun r s hs => hmay r s (hs.trans (suffix_cons b _)))
  | byte hs hq hc _ ih => exact .byte hs hq hc (ih fun r s hr => hmay r s (hr.trans (suffix_cons _ _)))

theorem matches_of_literal {p n : Bytes} (h : Splits Literal p n) : Matches p n := h.mono fun _ _ _ _ => trivial

theorem literal_of_not_mem {p n : Bytes} (hn : star ∉ n) (h : Matches p n) : Splits Literal p n := by
  refine h.mono fun run rest hs _ => .inr fun hhead => hn ?_
  exact hs.subset (mem_of_mem_head? hhead)

/-! ## Bytes of the pattern -/

theorem fold_eq_star {b : UInt8} (h : fold b = star) : b = star := by
  unfold fold at h
  split at h
  · next hb =>
    rw [UInt8.le_iff_toNat_le, UInt8.le_iff_toNat_le] at hb
    have hsum := congrArg UInt8.toNat h
    rw [UInt8.toNat_add] at hsum
    change (b.toNat + 32) % 256 = 42 at hsum
    change 65 ≤ b.toNat ∧ b.toNat ≤ 90 at hb
    omega
  · exact h

theorem ciEq_star {b : UInt8} : ciEq star b ↔ b = star := by
  constructor
  · intro h
    exact fold_eq_star (of_decide_eq_true h).symm
  · rintro rfl
    rfl

variable {p n m : Bytes} {c b : UInt8}

/-- a byte that passes the test is taken, a star before a star too. -/
theorem splits_pass (h : c = question ∨ ciEq c b) : Splits Literal (c :: p) (b :: n) ↔ Splits Literal p n := by
  constructor
  · intro hsplit
    generalize hname : b :: n = name at hsplit
    cases hsplit with
    | star run hrun hrest =>
      have hb : b = star := ciEq_star.1 (h.resolve_left (by decide))
      rcases hrun with rfl | hrun
      · cases hname
        exact hrest
      · rw [← hname, hb] at hrun
        exact absurd rfl hrun
    | question _ hrest =>
      cases hname
      exact hrest
    | byte _ _ _ hrest =>
      cases hname
      exact hrest
  · intro hrest
    by_cases hs : c = star
    · subst hs
      rw [ciEq_star.1 (h.resolve_left (by decide))]
      exact .star [star] (.inl rfl) hrest
    · by_cases hq : c = question
      · subst hq
        exact .question b hrest
      · exact .byte hs hq (h.resolve_left hq) hrest

/-- a star before any other byte may stand for nothing, or for a run from there. -/
theorem splits_star (hb : b ≠ star) :
    Splits Literal (star :: p) (b :: n) ↔ ∃ run m, b :: n = run ++ m ∧ Splits Literal p m := by
  constructor
  · intro hsplit
    generalize hname : b :: n = name at hsplit
    cases hsplit with
    | star run _ hrest => exact ⟨run, _, rfl, hrest⟩
    | byte hs => exact absurd rfl hs
  · rintro ⟨run, m, hname, hrest⟩
    rw [hname]
    refine .star run (.inr ?_) hrest
    rw [← hname]
    exact fun hhead => hb (some.inj hhead)

theorem splits_fail (hc : ¬ p.head?.any fun c => c = question ∨ ciEq c b) (hs : p.head? ≠ some star) :
    ¬ Splits Literal p (b :: n) := by
  intro hsplit
  generalize hname : b :: n = name at hsplit
  cases hsplit with
  | nil => cases hname
  | star => exact hs rfl
  | question => exact hc rfl
  | byte _ _ h =>
    cases hname
    exact hc (decide_eq_true (.inr h))

theorem splits_stars : Splits Literal p [] ↔ p.all (· = star) := by
  constructor
  · intro hsplit
    generalize hname : ([] : Bytes) = name at hsplit
    induction hsplit with
    | nil => rfl
    | star _ _ _ ih =>
      obtain ⟨-, hn⟩ := append_eq_nil_iff.1 hname.symm
      rw [all_cons, ih hn.symm, Bool.and_true]
      exact decide_eq_true rfl
    | question | byte => cases hname
  · intro hall
    induction p with
    | nil => exact .nil
    | cons c p ih =>
      rw [all_cons, Bool.and_eq_true] at hall
      rw [of_decide_eq_true hall.1]
      exact .star [] (.inr nofun) (ih hall.2)

/-! ## The latest star -/

/-- the pattern fits the name from here on, or from a later place. -/
def Within (p n : Bytes) : Prop := ∃ run m, n = run ++ m ∧ Splits Literal p m

/-- bytes taken one by one, from the star to where the matcher is. -/
inductive Passed : Bytes → Bytes → Bytes → Bytes → Prop
  | refl (p n : Bytes) : Passed p n p n
  | step {p n p' n' : Bytes} {c b : UInt8} (hrest : Passed p n (c :: p') (b :: n'))
      (h : c = question ∨ ciEq c b) :
      Passed p n p' n'

theorem within_cons : Within p (b :: n) ↔ Splits Literal p (b :: n) ∨ Within p n := by
  constructor
  · rintro ⟨run, m, hname, hsplit⟩
    cases run with
    | nil => exact .inl (hname ▸ hsplit)
    | cons a run =>
      cases hname
      exact .inr ⟨run, m, rfl, hsplit⟩
  · rintro (h | ⟨run, m, rfl, h⟩)
    · exact ⟨[], _, rfl, h⟩
    · exact ⟨b :: run, m, rfl, h⟩

theorem within_of_tail (h : Within p n.tail) : Within p n := by
  cases n with
  | nil => exact h
  | cons b n => exact within_cons.2 (.inr h)

/-- one byte more of the pattern is one byte more of the name: a star that was passed as a byte stands for
nothing only before another byte. -/
theorem within_pass (h : c = question ∨ ciEq c b) (hw : Within (c :: p) (b :: n)) : Within p n := by
  rcases within_cons.1 hw with hsplit | ⟨run, m, rfl, hsplit⟩
  · exact ⟨[], n, rfl, (splits_pass h).1 hsplit⟩
  · cases hsplit with
    | star more _ hrest => exact ⟨run ++ more, _, by rw [append_assoc], hrest⟩
    | question a hrest => exact ⟨run ++ [a], _, by rw [append_assoc, singleton_append], hrest⟩
    | byte _ _ _ hrest => exact ⟨run ++ [_], _, by rw [append_assoc, singleton_append], hrest⟩

/-- **an earlier star need not be gone back to**: what it would find later, the place reached finds. -/
theorem Passed.within {sp mark : Bytes} (h : Passed sp mark p n) (hw : Within sp mark) : Within p n := by
  induction h with
  | refl => exact hw
  | step _ hc ih => exact within_pass hc ih

theorem Passed.length_le {sp mark : Bytes} (h : Passed sp mark p n) :
    n.length ≤ mark.length ∧ p.length ≤ sp.length := by
  induction h with
  | refl => exact ⟨Nat.le_refl _, Nat.le_refl _⟩
  | step _ _ ih => exact ⟨Nat.le_of_succ_le ih.1, Nat.le_of_succ_le ih.2⟩

/-! ## The matcher -/

/-- what the matcher finds from here: a splitting, or one further on from its star. -/
def Finds (p n : Bytes) : Option (Bytes × Bytes) → Prop
  | none => Splits Literal p n
  | some (sp, mark) => Splits Literal p n ∨ Within sp mark.tail

/-- the star and the place reached belong together, in a pattern of at most `size` bytes. -/
def Reached (size : Nat) (p n : Bytes) : Option (Bytes × Bytes) → Prop
  | none => p.length ≤ size
  | some (sp, mark) => Passed sp mark p n ∧ sp.length ≤ size

/-- more than the rounds that are left. -/
def rounds (size : Nat) (p n : Bytes) (last : Option (Bytes × Bytes)) : Nat :=
  last.elim (n.length + 1) (·.2.length) * (size + 1) + p.length

variable {size fuel : Nat} {last : Option (Bytes × Bytes)}

theorem Reached.length_le (h : Reached size p n last) : p.length ≤ size := by
  cases last with
  | none => exact h
  | some s => exact Nat.le_trans h.1.length_le.2 h.2

theorem Reached.pass (h : Reached size (c :: p) (b :: n) last) (hc : c = question ∨ ciEq c b) :
    Reached size p n last ∧ rounds size p n last < rounds size (c :: p) (b :: n) last := by
  cases last with
  | none =>
    refine ⟨Nat.le_of_succ_le h, ?_⟩
    simp only [rounds, elim_none, length_cons, Nat.add_mul]
    omega
  | some s => exact ⟨⟨h.1.step hc, h.2⟩, Nat.lt_succ_self _⟩

theorem Reached.open (h : Reached size (c :: p) n last) :
    Reached size p n (some (p, n)) ∧ rounds size p n (some (p, n)) < rounds size (c :: p) n last := by
  refine ⟨⟨.refl p n, Nat.le_of_succ_le h.length_le⟩, ?_⟩
  cases last with
  | none =>
    simp only [rounds, elim_none, elim_some, length_cons, Nat.add_mul]
    omega
  | some s =>
    have hle := Nat.mul_le_mul_right (size + 1) h.1.length_le.1
    simp only [rounds, elim_some, length_cons]
    omega

theorem Reached.back {sp mark : Bytes} (h : Reached size p (b :: n) (some (sp, mark))) :
    Reached size sp mark.tail (some (sp, mark.tail)) ∧
      rounds size sp mark.tail (some (sp, mark.tail)) < rounds size p (b :: n) (some (sp, mark)) := by
  refine ⟨⟨.refl sp _, h.2⟩, ?_⟩
  have hle := h.1.length_le.1
  cases mark with
  | nil => cases hle
  | cons a mark =>
    have hsp := h.2
    simp only [rounds, elim_some, tail_cons, length_cons, Nat.add_mul]
    omega

theorem finds_back {sp mark : Bytes} : Finds sp mark (some (sp, mark)) ↔ Within sp mark := by
  cases mark with
  | nil =>
    constructor
    · rintro (h | h)
      · exact ⟨[], [], rfl, h⟩
      · exact h
    · exact fun h => .inr h
  | cons a mark => exact within_cons.symm

/-- the star is taken as the latest one, and nothing is lost. -/
theorem finds_open (h : Reached size (star :: p) (b :: n) last) (hb : b ≠ star) :
    Finds p (b :: n) (some (p, b :: n)) ↔ Finds (star :: p) (b :: n) last := by
  rw [finds_back]
  have hopen : Splits Literal (star :: p) (b :: n) ↔ Within p (b :: n) := splits_star hb
  cases last with
  | none => exact hopen.symm
  | some s =>
    constructor
    · exact fun hw => .inl (hopen.2 hw)
    · rintro (hsplit | hw)
      · exact hopen.1 hsplit
      · obtain ⟨run, m, hname, hsplit⟩ := h.1.within (within_of_tail hw)
        generalize hpat : star :: p = pat at hsplit
        cases hsplit with
        | nil => cases hpat
        | star more _ hrest =>
          cases hpat
          exact ⟨run ++ more, _, by rw [hname, append_assoc], hrest⟩
        | question => cases hpat
        | byte hs => exact absurd (cons.inj hpat).1.symm hs

theorem finds_pass (hc : c = question ∨ ciEq c b) : Finds p n last ↔ Finds (c :: p) (b :: n) last := by
  cases last with
  | none => exact (splits_pass hc).symm
  | some s => exact or_congr_left (splits_pass hc).symm

theorem finds_nil (h : Reached size p [] last) : p.all (· = star) ↔ Finds p [] last := by
  rw [← splits_stars]
  cases last with
  | none => exact Iff.rfl
  | some s =>
    constructor
    · exact .inl
    · rintro (hsplit | hw)
      · exact hsplit
      · obtain ⟨run, m, hname, hsplit⟩ := h.1.within (within_of_tail hw)
        rwa [(append_eq_nil_iff.1 hname.symm).2] at hsplit

/-- **The matcher comes to an end, and finds a splitting exactly if there is one.** -/
theorem matchLoop_spec (h : Reached size p n last) (hfuel : rounds size p n last < fuel) :
    ∃ r, matchLoop fuel p n last = some r ∧ (r = true ↔ Finds p n last) := by
  induction fuel generalizing p n last with
  | zero => cases hfuel
  | succ fuel ih =>
    cases n with
    | nil => exact ⟨_, by rw [matchLoop], finds_nil h⟩
    | cons b n =>
      rw [matchLoop.eq_def]
      dsimp only
      by_cases hc : p.head?.any fun c => c = question ∨ ciEq c b
      · rw [if_pos hc]
        cases p with
        | nil => cases hc
        | cons c p =>
          have hc := of_decide_eq_true hc
          obtain ⟨hreach, hless⟩ := h.pass hc
          obtain ⟨r, heq, hr⟩ := ih hreach (by omega)
          exact ⟨r, heq, hr.trans (finds_pass hc)⟩
      rw [if_neg hc]
      by_cases hs : p.head? = some star
      · rw [if_pos hs]
        cases p with
        | nil => cases hs
        | cons c p =>
          cases hs
          obtain ⟨hreach, hless⟩ := h.open
          obtain ⟨r, heq, hr⟩ := ih hreach (by omega)
          refine ⟨r, heq, hr.trans (finds_open h fun hb => hc ?_)⟩
          exact decide_eq_true (.inr (ciEq_star.2 hb))
      rw [if_neg hs]
      -- no byte can be taken, and the latest star swallows one more
      have hno : ¬ Splits Literal p (b :: n) := splits_fail hc hs
      match last, h, hfuel with
      | none, _, _ => exact ⟨false, rfl, nofun, fun hsplit => absurd hsplit hno⟩
      | some (sp, mark), h, hfuel =>
        obtain ⟨hreach, hless⟩ := h.back
        obtain ⟨r, heq, hr⟩ := ih hreach (by omega)
        refine ⟨r, heq, hr.trans (finds_back.trans ?_)⟩
        exact ⟨.inr, fun hfind => hfind.resolve_left hno⟩

theorem wildcardMatch_spec (pat name : Bytes) :
    ∃ r, wildcardMatch pat name = some r ∧ (r = true ↔ Splits Literal pat name) := by
  have hstart : Reached pat.length pat name none := Nat.le_refl _
  refine matchLoop_spec hstart ?_
  simp only [rounds, elim_none, Nat.add_mul]
  omega

/-- **The matcher is right about a name exactly if the name does not match, or can be split so that a
star before a `*` of the name stands for that byte.** -/
theorem wildcardMatch_iff (pat name : Bytes) : (wildcardMatch pat name).isSome ∧
      ((wildcardMatch pat name = some true ↔ Matches pat name) ↔ (Matches pat name → Splits Literal pat name)) ∧
      (star ∉ name → Matches pat name → Splits Literal pat name) := by
  obtain ⟨r, heq, hr⟩ := wildcardMatch_spec pat name
  have hfound : wildcardMatch pat name = some true ↔ Splits Literal pat name := by
    rw [heq, ← hr, some.injEq]
  refine ⟨by rw [heq]; rfl, ?_, literal_of_not_mem⟩
  rw [hfound]
  exact ⟨Iff.mpr, fun h => ⟨matches_of_literal, h⟩⟩

/-- the pattern `*` and a file `*a`. -/
theorem star_not_found : wildcardMatch [star] [star, 97] = some false ∧ Matches [star] [star, 97] :=
  ⟨by decide, .star [star, 97] trivial .nil⟩

end Ouroboros.Shell
