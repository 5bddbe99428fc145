import Ouroboros.Lib.Except

/-!
# The pattern parser

The recursive-descent parser of the regular-expression engine.  Nodes live in an arena and name
their children by index.  The loops and the recursion of the source become recursion on a fuel argument; that
it is enough is proved in `Ouroboros.Regex.Arena`.

* `Parser.push`  allocate a node;
* `nullable`  can a node match the empty string;
* `parseClass`  a bracket expression, as a bitmap of 256 bits;
* `parseAlt` and the functions below it  one function per rule of the grammar.
-/

namespace Ouroboros.Regex

def maxPattern : Nat := 128
def maxNodes : Nat := 128
def maxClasses : Nat := 8
def maxDepth : Nat := 16

/-- why a pattern could not be compiled -/
inductive Error where
  | tooLong
  | tooComplex
  | unbalancedParen
  | unterminatedClass
  | trailingBackslash
  | nothingToRepeat
  | badRange
  | unknownClassName
  | emptyRepeat
deriving DecidableEq, Repr

/-- one parsed node; children are indices into the arena -/
inductive Node where
  | empty
  | char (c : UInt8)
  | any
  | cls (i : Nat)
  | bol
  | eol
  | cat (a b : Nat)
  | alt (a b : Nat)
  | star (a : Nat)
  | plus (a : Nat)
  | quest (a : Nat)
deriving DecidableEq, Repr

def Node.children : Node → List Nat
  | .cat a b => [a, b]
  | .alt a b => [a, b]
  | .star a => [a]
  | .plus a => [a]
  | .quest a => [a]
  | _ => []

/-- the 256-bit membership bitmap of one bracket expression: bit `b & 7` of byte `b >> 3` of the
source's `[u8; 32]` is bit `b` -/
abbrev Bitmap := BitVec 256

def Bitmap.member (bits : Bitmap) (b : UInt8) : Bool := bits.getLsbD b.toNat

def Bitmap.insert (bits : Bitmap) (b : UInt8) : Bitmap := bits ||| BitVec.twoPow 256 b.toNat

def Bitmap.insertRange (bits : Bitmap) (lo hi : UInt8) : Bitmap :=
  (List.range' lo.toNat (hi.toNat + 1 - lo.toNat)).foldl (fun bits b => bits.insert b.toUInt8) bits

def ch (c : Char) : UInt8 := c.toNat.toUInt8

/-! ## byte classes -/

def isUpper (b : UInt8) : Bool := ch 'A' ≤ b && b ≤ ch 'Z'
def isLower (b : UInt8) : Bool := ch 'a' ≤ b && b ≤ ch 'z'
def isDigit (b : UInt8) : Bool := ch '0' ≤ b && b ≤ ch '9'
def isAlpha (b : UInt8) : Bool := isUpper b || isLower b
def isGraphic (b : UInt8) : Bool := 0x21 ≤ b && b ≤ 0x7e

def isHex (b : UInt8) : Bool := isDigit b || (ch 'a' ≤ b && b ≤ ch 'f') || (ch 'A' ≤ b && b ≤ ch 'F')

def isWhitespace (b : UInt8) : Bool := b == 9 || b == 10 || b == 12 || b == 13 || b == 32

/-- whether `b` belongs to the named POSIX class, `none` if there is no such class -/
def posixClass (name : List UInt8) (b : UInt8) : Option Bool :=
  if name = "alnum".toList.map ch then some (isAlpha b || isDigit b)
  else if name = "alpha".toList.map ch then some (isAlpha b)
  else if name = "blank".toList.map ch then some (b == 32 || b == 9)
  else if name = "cntrl".toList.map ch then some (b ≤ 0x1f || b == 0x7f)
  else if name = "digit".toList.map ch then some (isDigit b)
  else if name = "graph".toList.map ch then some (isGraphic b)
  else if name = "lower".toList.map ch then some (isLower b)
  else if name = "print".toList.map ch then some (isGraphic b || b == 32)
  else if name = "punct".toList.map ch then some (isGraphic b && !(isAlpha b || isDigit b))
  -- POSIX counts the vertical tab as a space, `is_ascii_whitespace` does not
  else if name = "space".toList.map ch then some (isWhitespace b || b == 0x0b)
  else if name = "upper".toList.map ch then some (isUpper b)
  else if name = "xdigit".toList.map ch then some (isHex b)
  else none

/-- `for b in 0..=u8::MAX`: collect the bytes of a named class -/
def Bitmap.insertNamed (bits : Bitmap) (name : List UInt8) : Option Bitmap :=
  (List.range 256).foldlM (fun bits b =>
    (posixClass name b.toUInt8).map fun m => if m then bits.insert b.toUInt8 else bits) bits

/-! ## parser state -/

structure Parser where
  pat : List UInt8
  pos : Nat
  nodes : List Node
  classes : List Bitmap
  classNegated : List Bool
deriving DecidableEq

namespace Parser

def new (pat : List UInt8) : Parser := ⟨pat, 0, [], [], []⟩

def peek (p : Parser) : Option UInt8 := p.pat[p.pos]?

def advance (p : Parser) : Parser := { p with pos := p.pos + 1 }

def push (p : Parser) (n : Node) : Except Error (Nat × Parser) :=
  if maxNodes ≤ p.nodes.length then .error .tooComplex
  else .ok (p.nodes.length, { p with nodes := p.nodes ++ [n] })

@[simp] theorem advance_pos (p : Parser) : p.advance.pos = p.pos + 1 := rfl
@[simp] theorem advance_nodes (p : Parser) : p.advance.nodes = p.nodes := rfl

end Parser

/-- `nodes[n]`; the cells of the source's array that no node was pushed to hold `Empty` -/
def node (nodes : List Node) (n : Nat) : Node := nodes.getD n .empty

/-- can node `n` match without consuming a byte (the recursion of the source, on fuel) -/
def nullableAt (nodes : List Node) : Nat → Nat → Bool
  | 0, _ => false
  | fuel + 1, n =>
    match node nodes n with
    | .empty | .bol | .eol => true
    | .char _ | .any | .cls _ => false
    | .cat a b => nullableAt nodes fuel a && nullableAt nodes fuel b
    | .alt a b => nullableAt nodes fuel a || nullableAt nodes fuel b
    | .star _ | .quest _ => true
    | .plus a => nullableAt nodes fuel a

/-- children stand before their parents, so `n + 1` levels reach every node below `n` -/
def nullable (nodes : List Node) (n : Nat) : Bool := nullableAt nodes (n + 1) n

/-! ## bracket expressions -/

def unescape (e : UInt8) : UInt8 := if e = ch 'n' then 10 else if e = ch 't' then 9 else e

/-- the length of the class name before the next `:]`, `none` if there is none -/
def nameLength : List UInt8 → Option Nat
  | [] => none
  | a :: rest =>
    if a = ch ':' ∧ rest.head? = some (ch ']') then some 0 else (nameLength rest).map (· + 1)

/-- the lower end of a range or a single byte: `c` was just consumed -/
def classLo (c : UInt8) (p : Parser) : Except Error (UInt8 × Parser) :=
  if c = ch '\\' then
    match p.peek with
    | none => .error .trailingBackslash
    | some e => .ok (unescape e, p.advance)
  else .ok (c, p)

/-- the upper end of a range, after the `-` -/
def classHi (p : Parser) : Except Error (UInt8 × Parser) :=
  match p.peek with
  | none => .error .unterminatedClass
  | some h =>
    if h = ch '\\' then
      match p.advance.peek with
      | none => .error .trailingBackslash
      | some e => .ok (unescape e, p.advance.advance)
    else .ok (h, p.advance)

/-- the items of a bracket expression up to and including its `]` -/
def classLoop : Nat → Bool → Bitmap → Parser → Except Error (Bitmap × Parser)
  | 0, _, _, _ => .error .tooComplex
  | fuel + 1, first, bits, p =>
    match p.peek with
    | none => .error .unterminatedClass
    | some c =>
      if c = ch ']' ∧ first = false then .ok (bits, p.advance)
      else if c = ch '[' ∧ p.pat[p.pos + 1]? = some (ch ':') then
        match nameLength (p.pat.drop (p.pos + 2)) with
        | none => .error .unterminatedClass
        | some len =>
          match bits.insertNamed ((p.pat.drop (p.pos + 2)).take len) with
          | none => .error .unknownClassName
          | some bits => classLoop fuel false bits { p with pos := p.pos + 2 + len + 2 }
      else do
        let (lo, p) ← classLo c p.advance
        -- a range, unless the '-' is the last character before ']'
        if p.peek = some (ch '-') ∧ p.pat[p.pos + 1]? ≠ some (ch ']') then do
          let (hi, p) ← classHi p.advance
          if hi < lo then .error .badRange
          else classLoop fuel false (bits.insertRange lo hi) p
        else classLoop fuel false (bits.insert lo) p

/-- `[...]`, entered on the `[` -/
def parseClass (p : Parser) : Except Error (Nat × Parser) :=
  let p := p.advance
  if maxClasses ≤ p.classes.length then .error .tooComplex
  else do
    let negate := decide (p.peek = some (ch '^'))
    let p := if negate then p.advance else p
    let (bits, p) ← classLoop (p.pat.length + 1) true 0 p
    let bits := if negate then ~~~bits else bits
    let p := { p with classes := p.classes ++ [bits], classNegated := p.classNegated ++ [negate] }
    p.push (.cls (p.classes.length - 1))

/-! ## the grammar -/

/-- the postfixes after an atom -/
def repeatLoop : Nat → Nat → Parser → Except Error (Nat × Parser)
  | 0, _, _ => .error .tooComplex
  | fuel + 1, atom, p =>
    if p.peek = some (ch '*') then
      if nullable p.nodes atom then .error .emptyRepeat
      else do
        let (atom, p) ← p.advance.push (.star atom)
        repeatLoop fuel atom p
    else if p.peek = some (ch '+') then
      if nullable p.nodes atom then .error .emptyRepeat
      else do
        let (atom, p) ← p.advance.push (.plus atom)
        repeatLoop fuel atom p
    else if p.peek = some (ch '?') then do
      let (atom, p) ← p.advance.push (.quest atom)
      repeatLoop fuel atom p
    else .ok (atom, p)

mutual

/-- `alt := concat ('|' concat)*` -/
def parseAlt : Nat → Nat → Parser → Except Error (Nat × Parser)
  | 0, _, _ => .error .tooComplex
  | fuel + 1, depth, p => do
    let (left, p) ← parseConcat fuel depth none p
    altLoop fuel depth left p
termination_by structural fuel => fuel

def altLoop : Nat → Nat → Nat → Parser → Except Error (Nat × Parser)
  | 0, _, _, _ => .error .tooComplex
  | fuel + 1, depth, left, p =>
    if p.peek = some (ch '|') then do
      let (right, p) ← parseConcat fuel depth none p.advance
      let (left, p) ← p.push (.alt left right)
      altLoop fuel depth left p
    else .ok (left, p)
termination_by structural fuel => fuel

/-- `concat := repeat*`, stopping at `|`, `)` or the end; `acc` is what was parsed so far -/
def parseConcat : Nat → Nat → Option Nat → Parser → Except Error (Nat × Parser)
  | 0, _, _, _ => .error .tooComplex
  | fuel + 1, depth, acc, p =>
    if p.peek = none ∨ p.peek = some (ch '|') ∨ p.peek = some (ch ')') then
      match acc with
      | some n => .ok (n, p)
      | none => p.push .empty
    else do
      let (piece, p) ← parseRepeat fuel depth p
      match acc with
      | none => parseConcat fuel depth (some piece) p
      | some l => do
        let (n, p) ← p.push (.cat l piece)
        parseConcat fuel depth (some n) p
termination_by structural fuel => fuel

/-- `repeat := atom ('*' | '+' | '?')*` -/
def parseRepeat : Nat → Nat → Parser → Except Error (Nat × Parser)
  | 0, _, _ => .error .tooComplex
  | fuel + 1, depth, p => do
    let (atom, p) ← parseAtom fuel depth p
    repeatLoop fuel atom p
termination_by structural fuel => fuel

def parseAtom : Nat → Nat → Parser → Except Error (Nat × Parser)
  | 0, _, _ => .error .tooComplex
  | fuel + 1, depth, p =>
    match p.peek with
    | none => p.push .empty
    | some c =>
      if c = ch '*' ∨ c = ch '+' ∨ c = ch '?' then .error .nothingToRepeat
      else if c = ch '(' then
        if maxDepth < depth + 1 then .error .tooComplex
        else do
          let (inner, p) ← parseAlt fuel (depth + 1) p.advance
          if p.peek ≠ some (ch ')') then .error .unbalancedParen
          else .ok (inner, p.advance)
      else if c = ch ')' then .error .unbalancedParen
      else if c = ch '.' then p.advance.push .any
      else if c = ch '^' then p.advance.push .bol
      else if c = ch '$' then p.advance.push .eol
      else if c = ch '[' then parseClass p
      else if c = ch '\\' then
        match p.advance.peek with
        | none => .error .trailingBackslash
        | some e => p.advance.advance.push (.char (unescape e))
      else p.advance.push (.char c)
termination_by structural fuel => fuel

end

/-- five calls stand between two bytes of the pattern at most -/
def parseFuel (pat : List UInt8) : Nat := 5 * pat.length + 5

/-- the parse of a whole pattern: `parse_alt` at depth 0 has to reach its end -/
def parse (pat : List UInt8) : Except Error (Nat × Parser) := do
  let (root, p) ← parseAlt (parseFuel pat) 0 (Parser.new pat)
  -- `parse_alt` stops at an unmatched ')'
  if p.pos ≠ p.pat.length then .error .unbalancedParen
  else .ok (root, p)

end Ouroboros.Regex
