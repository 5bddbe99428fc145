import Ouroboros.Lib.Utf8

/-!
# UTF-16

* `units`  the code units of a `str`;
* `codePoint`  the character at the head of some units;
* `encode`  a character as UTF-8.
-/

namespace Ouroboros.Utf16

def ofChar (c : Nat) : List UInt16 :=
  if c < 0x10000 then [UInt16.ofNat c]
  else [UInt16.ofNat (0xd800 + (c - 0x10000) / 0x400), UInt16.ofNat (0xdc00 + (c - 0x10000) % 0x400)]

def low (b : UInt8) : Nat := b.toNat % 0x40

/-- `encode_utf16` of bytes that are UTF-8. -/
def units : List UInt8 → List UInt16
  | a :: b :: c :: d :: rest =>
    if a < 0x80 then ofChar a.toNat ++ units (b :: c :: d :: rest)
    else if a < 0xe0 then ofChar (a.toNat % 0x20 * 0x40 + low b) ++ units (c :: d :: rest)
    else if a < 0xf0 then ofChar (a.toNat % 0x10 * 0x1000 + low b * 0x40 + low c) ++ units (d :: rest)
    else ofChar (a.toNat % 8 * 0x40000 + low b * 0x1000 + low c * 0x40 + low d) ++ units rest
  | [a, b, c] =>
    if a < 0x80 then ofChar a.toNat ++ units [b, c]
    else if a < 0xe0 then ofChar (a.toNat % 0x20 * 0x40 + low b) ++ units [c]
    else ofChar (a.toNat % 0x10 * 0x1000 + low b * 0x40 + low c)
  | [a, b] =>
    if a < 0x80 then ofChar a.toNat ++ units [b] else ofChar (a.toNat % 0x20 * 0x40 + low b)
  | [a] => ofChar a.toNat
  | [] => []

/-- `code_point`: the character and the units after it, `none` for an unpaired surrogate. -/
def codePoint (u : UInt16) (rest : List UInt16) : Option (Nat × List UInt16) :=
  if 0xd800 ≤ u ∧ u ≤ 0xdfff then
    match rest with
    | w :: rest =>
      if u ≤ 0xdbff ∧ 0xdc00 ≤ w ∧ w ≤ 0xdfff then
        some (0x10000 + (u.toNat - 0xd800) * 0x400 + (w.toNat - 0xdc00), rest)
      else none
    | [] => none
  else some (u.toNat, rest)

def encode (c : Nat) : List UInt8 :=
  if c < 0x80 then [UInt8.ofNat c]
  else if c < 0x800 then [UInt8.ofNat (0xc0 + c / 0x40), UInt8.ofNat (0x80 + c % 0x40)]
  else if c < 0x10000 then
    [UInt8.ofNat (0xe0 + c / 0x1000), UInt8.ofNat (0x80 + c / 0x40 % 0x40), UInt8.ofNat (0x80 + c % 0x40)]
  else
    [UInt8.ofNat (0xf0 + c / 0x40000), UInt8.ofNat (0x80 + c / 0x1000 % 0x40),
      UInt8.ofNat (0x80 + c / 0x40 % 0x40),
      UInt8.ofNat (0x80 + c % 0x40)]

/-- the characters of some units, `none` with an unpaired surrogate; `n` is at least their number. -/
def charsFrom : Nat → List UInt16 → Option (List Nat)
  | _, [] => some []
  | 0, _ :: _ => none
  | n + 1, u :: rest =>
    (codePoint u rest).bind fun (c, rest) => (charsFrom n rest).map (c :: ·)

def chars (l : List UInt16) : Option (List Nat) := charsFrom l.length l

def nameShownMax : Nat := 255

def shownExactly (l : List UInt16) : Bool :=
  match chars l with
  | some cs => (cs.flatMap encode).length ≤ nameShownMax
  | none => false

def question : UInt8 := 63

def shownChar (c : Nat) : UInt8 := if 0x20 ≤ c ∧ c ≤ 0x7e ∧ c ≠ 47 then UInt8.ofNat c else question

/-- `from_utf8(b).unwrap_or("?")`. -/
def orQuestion (b : List UInt8) : List UInt8 := if Utf8.valid b then b else [question]

def utf8Name (l : List UInt16) : List UInt8 :=
  if shownExactly l then orQuestion (((chars l).getD []).flatMap encode)
  else orQuestion (l.map fun u => shownChar u.toNat)

def unitsOf (name : List UInt8) : Option (List UInt16) :=
  if (units name).length ≤ 255 then some (units name) else none

theorem length_unitsOf (name : List UInt8) : ((unitsOf name).getD []).length ≤ 255 := by
  unfold unitsOf
  split
  · assumption
  · exact Nat.zero_le _

end Ouroboros.Utf16
