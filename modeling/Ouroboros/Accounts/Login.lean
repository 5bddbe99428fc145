import Ouroboros.Accounts.Rewrite

/-!
# login

The shell's login gate. Its files are read a chunk at a time, and every read may be answered with
bytes or an error code.

* `KeySeq`, `readField`  what is typed: a line edited with backspace, escape sequences left out;
* `readAccountFile`  a small file read whole;
* `findAccountLine`  one line of a file read through a line buffer;
* `verifyPassword`  the password against `/etc/shadow`, or an inline secret;
* `Recorded`  an account's secret, by `find_secret_by_name`; `Checked`  the one that a password is checked
  against;
* `Consistent`  the two are one.
-/

namespace Ouroboros.Accounts

open Lines List Option Nat

/-! ## Keys -/

inductive KeySeq where
  | ground
  | esc
  | csi
  | ss3
deriving DecidableEq, Repr

def escKey : UInt8 := 0x1b
def delKey : UInt8 := 0x7f
/-- `KeySeq::feed`: the next state, and the byte if it is one to take. -/
def KeySeq.feed (k : KeySeq) (b : UInt8) : KeySeq × Option UInt8 :=
  if k = .ground then if b = escKey then (.esc, none) else (.ground, some b)
  else if b = escKey then (.esc, none)
  else if b < 0x20 ∨ b = delKey then (.ground, some b)
  else
    match k with
    | .esc => if b = 91 then (.csi, none) else if b = 79 then (.ss3, none) else (.ground, some b)
    | .csi => if 0x40 ≤ b ∧ b ≤ 0x7e then (.ground, none) else (.csi, none)
    | .ss3 => (.ground, none)
    | .ground => (.ground, some b)

inductive Answer where
  | data (bytes : Bytes)
  | err (code : Nat)
deriving DecidableEq, Repr

def noFs : Nat := 2 ^ 64 - 2
def fsErrNotFound : Nat := 2 ^ 64 - 3

def chunk : Nat := 512
def retries : Nat := 200
def shadowLineMax : Nat := 256
def maxSuppGroups : Nat := 8

/-- the line buffer of `verify_password`. -/
def shadowFormat : Format UInt8 := ⟨10, (· == 13), shadowLineMax, newline_ne_return⟩

def lineNames (line name : Bytes) : Bool := line.takeWhile (· != colon) == name

def named (name line : Bytes) : Option Bytes := if lineNames line name then some line else none

variable (hs : Hashes) {cap : Nat} {answers rest : List Answer} {name : Bytes} {a : Account}
variable {tries : Nat} {res password : Bytes} {asked : List Answer} {s : Reader UInt8}
    {found : Except Nat (Option Bytes)}

/-- who the task is when `login` returns: unchanged, or the ids `SET_ID` was called with. -/
inductive Session where
  | root (cwd : Bytes)
  | user (uid gid : Nat) (groups : List Nat) (cwd : Bytes)
deriving DecidableEq, Repr

/-- a session, and how it came about: the passwd bytes, the name and password typed, the answers of
`/etc/shadow`. -/
structure Outcome where
  session : Session
  passwd : Bytes
  name : Bytes
  password : Bytes
  asked : List Answer
deriving DecidableEq, Repr

def dataOf (asked : List Answer) : Bytes :=
  asked.flatMap fun a => match a with | .data d => d.take chunk | .err _ => []

def Unread (asked : List Answer) : Prop := ∃ r, asked.getLast? = some (.err r)

theorem unread_cons (h : asked ≠ []) (a : Answer) : Unread (a :: asked) ↔ Unread asked := by
  unfold Unread
  rw [getLast?_cons_of_ne_nil h]

/-- what a lookup from the reader `s` found in the answers `asked`. -/
def Looked (name : Bytes) (s : Reader UInt8) (asked : List Answer) : Except Nat (Option Bytes) → Prop
  | .error _ => Unread asked
  | .ok entry =>
    ¬ Unread asked ∧ entry = finish (named name) (feed shadowFormat (named name) s (dataOf asked))

theorem Looked.cons {s' : Reader UInt8} (h : Looked name s' asked found) (hne : asked ≠ []) {a : Answer}
    (hfeed : feed shadowFormat (named name) s (dataOf (a :: asked)) =
      feed shadowFormat (named name) s' (dataOf asked)) : Looked name s (a :: asked) found := by
  cases found with
  | error r => exact (unread_cons hne a).2 h
  | ok entry => exact ⟨fun hu => h.1 ((unread_cons hne a).1 hu), by rw [hfeed]; exact h.2⟩

/-- the secret of an account with this shadow entry: the entry, or the inline one where there is none or it
could not be read. -/
def SecretOf (asked : List Answer) (entry : Option Secret) (a : Account) (secret : Secret) : Prop :=
  (Unread asked ∧ a.secret = some secret) ∨ (¬ Unread asked ∧ entry.or a.secret = some secret)

/-- `secret` is the account's, by the bytes of `/etc/shadow` that were read. -/
def Recorded (asked : List Answer) (name : Bytes) : Account → Secret → Prop :=
  SecretOf asked (findSecretByName (dataOf asked) name)

def fsError : Nat := 2 ^ 64 - 1

end Ouroboros.Accounts
