import Mathlib.Data.Nat.Bitwise

/-!
# AArch64 address translation

Stage 1 of the EL1&0 regime with 4 KiB pages and four levels of tables.

* `walk`  the translation of an address, `none` a fault;
* `Attrs`  the bits of a descriptor outside its address field;
* `resolve_table`, `leaf_or`  what a descriptor made of an address and attributes resolves to.
-/

namespace Ouroboros.Vmsa

open Nat

/-- word `i` of the table at an address. -/
abbrev Memory := Nat → Nat → Nat

structure Mapping where
  pa : Nat
  attrIndx : Nat
  el0Read : Bool
  el0Write : Bool
  el0Exec : Bool
deriving DecidableEq, Repr

def Mapping.el0 (m : Mapping) : Bool := m.el0Read || m.el0Write || m.el0Exec

def isValid (d : Nat) : Bool := d.testBit 0

def isTable (d : Nat) : Bool := d.testBit 1

def outAddr (d : Nat) : Nat := d / 2 ^ 12 % 2 ^ 36 * 2 ^ 12

/-- a block or page that leaves `shift` bits of the address: AF, AttrIndx, AP and UXN. -/
def leaf (d shift va : Nat) : Option Mapping :=
  if d.testBit 10 then
    some {
      pa := outAddr d / 2 ^ shift * 2 ^ shift + va % 2 ^ shift
      attrIndx := d / 2 ^ 2 % 8
      el0Read := d.testBit 6
      el0Write := d.testBit 6 && !d.testBit 7
      el0Exec := !d.testBit 54 }
  else none

def Mapping.limit (d : Nat) (m : Mapping) : Mapping :=
  { m with
    el0Read := m.el0Read && !d.testBit 61
    el0Write := m.el0Write && !d.testBit 61 && !d.testBit 62
    el0Exec := m.el0Exec && !d.testBit 60 }

/-- a descriptor with `n` levels below it; only levels 1 and 2 have blocks. -/
def resolve (mem : Memory) : Nat → Nat → Nat → Option Mapping
  | 0, d, va => if isValid d && isTable d then leaf d 12 va else none
  | n + 1, d, va =>
    if isValid d = false then none
    else if isTable d then
      (resolve mem n (mem (outAddr d) (va / 2 ^ (12 + 9 * n) % 512)) va).map (Mapping.limit d)
    else if n < 2 then leaf d (12 + 9 * (n + 1)) va
    else none

/-- the walk from the table at `ttbr`, for addresses of `vaBits` bits. -/
def walk (mem : Memory) (vaBits ttbr va : Nat) : Option Mapping :=
  if va < 2 ^ vaBits then resolve mem 3 (mem ttbr (va / 2 ^ 39 % 512)) va else none

/-! ## Descriptors made of an address and attributes -/

def Attrs (c : Nat) : Prop := c / 2 ^ 12 % 2 ^ 36 = 0

instance (c : Nat) : Decidable (Attrs c) := inferInstanceAs (Decidable (_ = _))

structure Addr (x : Nat) : Prop where
  aligned : x % 2 ^ 12 = 0
  lt : x < 2 ^ 48

variable {x c i va n : Nat}

section
variable (hx : Addr x)
include hx

theorem outAddr_or (hc : Attrs c) : outAddr (x ||| c) = x := by
  obtain ⟨h, hlt⟩ := hx
  unfold outAddr
  rw [or_div_two_pow, or_mod_two_pow, hc, or_zero]
  omega

theorem testBit_low (hi : i < 12) : x.testBit i = false := by
  have hmod := testBit_mod_two_pow x 12 i
  rw [hx.aligned, zero_testBit, decide_eq_true hi, Bool.true_and] at hmod
  exact hmod.symm

theorem testBit_high (hi : 48 ≤ i) : x.testBit i = false :=
  Nat.testBit_lt_two_pow (lt_of_lt_of_le hx.lt (Nat.pow_le_pow_right (by decide) hi))

theorem testBit_or_low (hi : i < 12) : (x ||| c).testBit i = c.testBit i := by
  rw [testBit_or, testBit_low hx hi, Bool.false_or]

theorem testBit_or_high (hi : 48 ≤ i) : (x ||| c).testBit i = c.testBit i := by
  rw [testBit_or, testBit_high hx hi, Bool.false_or]

theorem attrIndx_or : (x ||| c) / 2 ^ 2 % 8 = c / 2 ^ 2 % 8 := by
  have hmod : (x ||| c) % 2 ^ 12 = c % 2 ^ 12 := by
    rw [or_mod_two_pow, hx.aligned, zero_or]
  omega

/-- what a leaf with these attributes maps `va` to, if it maps it to itself. -/
def identity (c va : Nat) : Mapping where
  pa := va
  attrIndx := c / 2 ^ 2 % 8
  el0Read := c.testBit 6
  el0Write := c.testBit 6 && !c.testBit 7
  el0Exec := !c.testBit 54

/-- **A leaf with the address's own high bits is an identity map.** -/
theorem leaf_or {shift : Nat} (hc : Attrs c) (haf : c.testBit 10)
    (hva : x = va / 2 ^ shift * 2 ^ shift) : leaf (x ||| c) shift va = some (identity c va) := by
  have hpa : x / 2 ^ shift * 2 ^ shift + va % 2 ^ shift = va := by
    rw [hva, Nat.mul_div_cancel _ (Nat.two_pow_pos shift)]
    exact Nat.div_add_mod' va (2 ^ shift)
  unfold leaf identity
  rw [testBit_or_low hx (by decide), if_pos haf, outAddr_or hx hc, hpa, attrIndx_or hx,
    testBit_or_low hx (by decide), testBit_or_low hx (by decide), testBit_or_high hx (by decide)]

end

/-! ## Steps of the walk -/

variable {mem : Memory}

theorem resolve_invalid {d : Nat} (h : isValid d = false) : resolve mem n d va = none := by
  cases n with
  | zero =>
    unfold resolve
    rw [h, Bool.false_and]
    rfl
  | succ n =>
    unfold resolve
    rw [if_pos h]

theorem limit_of_clear {d : Nat} (h₀ : d.testBit 60 = false) (h₁ : d.testBit 61 = false)
    (h₂ : d.testBit 62 = false) (m : Mapping) : m.limit d = m := by
  unfold Mapping.limit
  rw [h₀, h₁, h₂]
  simp only [Bool.not_false, Bool.and_true]

/-- **A table descriptor leads to its table.** -/
theorem resolve_table (hx : Addr x) (hc : c = 3) :
    resolve mem (n + 1) (x ||| c) va = resolve mem n (mem x (va / 2 ^ (12 + 9 * n) % 512)) va := by
  subst hc
  have hvalid : isValid (x ||| 3) := (testBit_or_low hx (by decide)).trans (by decide)
  have htable : isTable (x ||| 3) := (testBit_or_low hx (by decide)).trans (by decide)
  have hlimit : Mapping.limit (x ||| 3) = id := by
    funext m
    refine limit_of_clear ?_ ?_ ?_ m
    all_goals exact (testBit_or_high hx (by decide)).trans (by decide)
  rw [resolve, if_neg (by rw [hvalid]; decide), if_pos htable, outAddr_or hx (by decide), hlimit, Option.map_id]
  rfl

/-- **A block or page leads to its address.** -/
theorem resolve_leaf (hn : n < 3) (hx : Addr x) (hc : Attrs c)
    (hbits : c.testBit 0 ∧ c.testBit 1 = decide (n = 0) ∧ c.testBit 10)
    (hva : x = va / 2 ^ (12 + 9 * n) * 2 ^ (12 + 9 * n)) :
    resolve mem n (x ||| c) va = some (identity c va) := by
  have hvalid : isValid (x ||| c) := (testBit_or_low hx (by decide)).trans hbits.1
  have htable : isTable (x ||| c) = decide (n = 0) := (testBit_or_low hx (by decide)).trans hbits.2.1
  have hleaf := leaf_or hx hc hbits.2.2 hva
  cases n with
  | zero =>
    rw [resolve, hvalid, htable, if_pos (by decide)]
    exact hleaf
  | succ n =>
    rw [resolve, if_neg (by rw [hvalid]; decide), htable, if_neg (by simp), if_pos (by omega)]
    exact hleaf

end Ouroboros.Vmsa
