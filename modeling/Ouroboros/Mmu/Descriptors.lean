import Ouroboros.Lib.Vmsa

/-!
# The page tables: descriptors

* `tableDesc`, `deviceBlock`, … , `ncBlock2m`  the descriptors the kernel writes;
* `leafDesc_eq`, `tableDesc_eq`  each as an address and attributes;
* `resolve_leafDesc`, `resolve_tableDesc`  what a walk makes of them.
-/

namespace Ouroboros.Mmu

open Nat

/-! ## Sizes -/

def gib : Nat := 2 ^ 30
def mib2 : Nat := 2 * 1024 * 1024
def entriesPerTable : Nat := 512

def add64 (a b : Nat) : Nat := (a + b) % 2 ^ 64

def sub64 (a b : Nat) : Nat := (a + 2 ^ 64 - b) % 2 ^ 64

def not64 (a : Nat) : Nat := 2 ^ 64 - 1 - a

/-! ## Descriptors -/

def descValid : Nat := 1 <<< 0
def descTable : Nat := 1 <<< 1
def attrIndxShift : Nat := 2
def apEl1RwOnly : Nat := 0b00 <<< 6
def apEl1El0Rw : Nat := 0b01 <<< 6
def shInner : Nat := 0b11 <<< 8
def shOuter : Nat := 0b10 <<< 8
def af : Nat := 1 <<< 10
def pxn : Nat := 1 <<< 53
def uxn : Nat := 1 <<< 54

def outputAddrMask : Nat := 0x0000fffffffff000

def mairIdxDeviceNgnrne : Nat := 0
def mairIdxNormalWb : Nat := 1
def mairIdxNormalNc : Nat := 2

def tableDesc (next : Nat) : Nat := descValid ||| descTable ||| (next &&& outputAddrMask)

/-- a block or page of `2 ^ bits` bytes: `(base & !(2^bits - 1)) | attrs`. -/
def leafDesc (bits attrs base : Nat) : Nat := (base &&& not64 (2 ^ bits - 1)) ||| attrs

def deviceAttrs : Nat :=
  descValid ||| (mairIdxDeviceNgnrne <<< attrIndxShift) ||| apEl1RwOnly ||| shOuter ||| af ||| pxn ||| uxn

def deviceBlock (base : Nat) : Nat := leafDesc 30 deviceAttrs base

def kernelBlockAttrs : Nat :=
  descValid ||| (mairIdxNormalWb <<< attrIndxShift) ||| apEl1RwOnly ||| shInner ||| af ||| uxn

def normalBlock (base : Nat) : Nat := leafDesc 30 kernelBlockAttrs base

def kernelBlock2m (base : Nat) : Nat := leafDesc 21 kernelBlockAttrs base

def kernelPageAttrs : Nat :=
  descValid ||| descTable ||| (mairIdxNormalWb <<< attrIndxShift) ||| apEl1RwOnly ||| shInner ||| af ||| uxn

def kernelPage4k (base : Nat) : Nat := leafDesc 12 kernelPageAttrs base

def el0PageAttrs : Nat :=
  descValid ||| descTable ||| (mairIdxNormalWb <<< attrIndxShift) ||| apEl1El0Rw ||| shInner ||| af

def el0Page4k (base : Nat) : Nat := leafDesc 12 el0PageAttrs base

def ncPageAttrs : Nat :=
  descValid ||| descTable ||| (mairIdxNormalNc <<< attrIndxShift) ||| apEl1RwOnly ||| shOuter ||| af ||| pxn |||
    uxn

def ncPage4k (base : Nat) : Nat := leafDesc 12 ncPageAttrs base

def ncBlockAttrs : Nat :=
  descValid ||| (mairIdxNormalNc <<< attrIndxShift) ||| apEl1RwOnly ||| shOuter ||| af ||| pxn ||| uxn

def ncBlock2m (base : Nat) : Nat := leafDesc 21 ncBlockAttrs base

/-! ## An address and attributes -/

theorem and_not64 {base k : Nat} (hbase : base < 2 ^ 64) (hk : k ≤ 64) :
    base &&& not64 (2 ^ k - 1) = base / 2 ^ k * 2 ^ k := by
  have hnot : not64 (2 ^ k - 1) = 2 ^ k * (2 ^ (64 - k) - 1) := by
    have hpow : 2 ^ k * 2 ^ (64 - k) = 2 ^ 64 := by rw [← Nat.pow_add, Nat.add_sub_cancel' hk]
    have hpos := Nat.two_pow_pos k
    rw [not64, Nat.mul_sub, hpow]
    omega
  apply eq_of_testBit_eq
  intro i
  rw [hnot, testBit_and, testBit_two_pow_mul, testBit_two_pow_sub_one, testBit_mul_two_pow, testBit_div_two_pow]
  by_cases hki : k ≤ i
  · rw [decide_eq_true hki, Bool.true_and, Bool.true_and, Nat.sub_add_cancel hki]
    by_cases hi : i < 64
    · rw [decide_eq_true (by omega), Bool.and_true]
    have hzero : base.testBit i = false :=
      Nat.testBit_lt_two_pow (lt_of_lt_of_le hbase (Nat.pow_le_pow_right (by decide) (by omega)))
    rw [hzero, Bool.false_and]
  · rw [decide_eq_false hki, Bool.false_and, Bool.and_false, Bool.false_and]

theorem leafDesc_eq {bits attrs base : Nat} (hbase : base < 2 ^ 64) (hbits : bits ≤ 64) :
    leafDesc bits attrs base = (base / 2 ^ bits * 2 ^ bits) ||| attrs := by
  rw [leafDesc, and_not64 hbase hbits]

theorem tableDesc_eq {next : Nat} (h : Vmsa.Addr next) : tableDesc next = next ||| 3 := by
  have hmask : next &&& outputAddrMask = next := by
    apply eq_of_testBit_eq
    intro i
    rw [show outputAddrMask = 2 ^ 12 * (2 ^ 36 - 1) from rfl, testBit_and, testBit_two_pow_mul,
      testBit_two_pow_sub_one]
    by_cases hlow : i < 12
    · rw [Vmsa.testBit_low h hlow, Bool.false_and]
    by_cases hhigh : 48 ≤ i
    · rw [Vmsa.testBit_high h hhigh, Bool.false_and]
    · rw [decide_eq_true (by omega), decide_eq_true (by omega), Bool.and_true, Bool.and_true]
  rw [tableDesc, hmask, Nat.or_comm]
  rfl

/-! ## What they resolve to -/

theorem addr_block {bits va : Nat} (hbits : 12 ≤ bits) (hva : va < 2 ^ 48) :
    Vmsa.Addr (va / 2 ^ bits * 2 ^ bits) where
  aligned := by
    obtain ⟨k, rfl⟩ := Nat.exists_eq_add_of_le hbits
    rw [Nat.pow_add, ← Nat.mul_assoc, Nat.mul_right_comm]
    exact mul_mod_left _ _
  lt := lt_of_le_of_lt (div_mul_le_self va (2 ^ bits)) hva

section Resolve
variable {mem : Vmsa.Memory} {attrs base va : Nat}

theorem resolve_leafDesc {n bits : Nat} (hn : n < 3) (hb : bits = 12 + 9 * n) (hattrs : Vmsa.Attrs attrs)
    (hbits : attrs.testBit 0 ∧ attrs.testBit 1 = decide (n = 0) ∧ attrs.testBit 10)
    (hva : va < 2 ^ 48) (hbase : base < 2 ^ 64) (h : base / 2 ^ bits = va / 2 ^ bits) :
    Vmsa.resolve mem n (leafDesc bits attrs base) va = some (Vmsa.identity attrs va) := by
  rw [leafDesc_eq hbase (by omega), h]
  exact Vmsa.resolve_leaf hn (addr_block (by omega) hva) hattrs hbits (by rw [hb])

theorem resolve_tableDesc {n next : Nat} (h : Vmsa.Addr next) : Vmsa.resolve mem (n + 1) (tableDesc next) va
      = Vmsa.resolve mem n (mem next (va / 2 ^ (12 + 9 * n) % 512)) va := by
  rw [tableDesc_eq h]
  exact Vmsa.resolve_table h rfl

end Resolve

end Ouroboros.Mmu
