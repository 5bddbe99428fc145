import Ouroboros.Lib.Hex
import Ouroboros.Netd.Conn

/-!
# netd: the machines that may ask

The authorized file has one line a machine, `name ip key [root] [# note]`.

* `parsePeer`, `classify`  one line;
* `findByKey`  the machine of a key.
-/

namespace Ouroboros.Netd

/-! ## The authorized file -/

def keyLen : Nat := 32
def nameMax : Nat := 32

def isSpace (c : UInt8) : Bool := c == 32 || c == 9 || c == 13 || c == 10 || c == 0

def trimStart (s : Bytes) : Bytes := s.dropWhile isSpace

def trim (s : Bytes) : Bytes := ((trimStart s).reverse.dropWhile isSpace).reverse

/-- `split_field`: the first word, and what follows it. -/
def splitField (s : Bytes) : Option (Bytes × Bytes) :=
  let s := trimStart s
  if s = [] then none else some (s.takeWhile (!isSpace ·), s.dropWhile (!isSpace ·))

def decodeKey (hex : Bytes) : Option Bytes := if hex.length ≠ 2 * keyLen then none else Hex.decode hex

def isDigit (c : UInt8) : Bool := 48 ≤ c && c ≤ 57

/-- the loop of `parse_ip`: the octets so far, and the value and digits of the next. -/
def parseIpFrom : Bytes → Bytes → Nat → Nat → Option Bytes
  | [], out, value, digits =>
    if out.length ≠ 3 ∨ digits = 0 then none else some (out ++ [UInt8.ofNat value])
  | c :: cs, out, value, digits =>
    if isDigit c then
      let value := value * 10 + (c - 48).toNat
      if value > 255 ∨ digits + 1 > 3 then none else parseIpFrom cs out value (digits + 1)
    else if c = 46 then
      if digits = 0 ∨ out.length ≥ 3 then none
      else parseIpFrom cs (out ++ [UInt8.ofNat value]) 0 0
    else none

def parseIp (s : Bytes) : Option Bytes := parseIpFrom s [] 0 0

structure Peer where
  name : Bytes
  ip : Bytes
  key : Bytes
  root : Bool
deriving DecidableEq, Repr

def rootWord : Bytes := [114, 111, 111, 116]

def parsePeer (line : Bytes) : Option Peer := do
  let (name, rest) ← splitField line
  let (ipText, rest) ← splitField rest
  let (keyText, rest) ← splitField rest
  let (root, rest) :=
    match splitField rest with
    | some (word, after) => if word = rootWord then (true, after) else (false, rest)
    | none => (false, rest)
  let rest := trim rest
  if rest ≠ [] ∧ rest.head? ≠ some 35 then none
  else if name = [] ∨ name.length > nameMax then none
  else
    let ip ← parseIp ipText
    let key ← decodeKey keyText
    some ⟨name, ip, key, root⟩

inductive LineKind where
  | blank
  | comment
  | peer (p : Peer)
  | malformed

def classify (line : Bytes) : LineKind :=
  let trimmed := trim line
  if trimmed = [] then .blank
  else if trimmed.head? = some 35 then .comment
  else
    match parsePeer trimmed with
    | some p => .peer p
    | none => .malformed

def parseLine (line : Bytes) : Option Peer :=
  match classify line with
  | .peer p => some p
  | _ => none

def peers (authorized : Bytes) : List Peer := (authorized.splitOn 10).filterMap parseLine

/-- `find_by_key`: the first line with the key, with the root flag only if every such line has it. -/
def findByKey (authorized key : Bytes) : Option Peer := (peers authorized).foldl (fun hit p =>
    if p.key = key then
      match hit with
      | some first => some { first with root := first.root && p.root }
      | none => some p
    else hit) none

end Ouroboros.Netd
