import Ouroboros.Lib.Hex
import Ouroboros.Lib.Lines
import Mathlib.Data.Nat.Bitwise

/-!
# The account database

The `accounts` crate: `/etc/passwd` has a line `name:uid:gid:home[:salt:hash]` for each account,
`/etc/shadow` a line `name:salt:hash`.

* `parseAccount`, `parseShadow`  one line of each file;
* `findUserByName`, `findUserByUid`, `findSecretByName`  the first line that answers;
* `replaceLine`, `appendLine`, `changedSpan`  the rewrite of one line;
* `idsAsWritten_iff`  when an account has the ids of its line;
* `nextFree_fresh_iff`  when the id of a new account is free.
-/

namespace Ouroboros.Accounts

open List Option Nat

abbrev Bytes := List UInt8

def newline : UInt8 := 10

variable {file : Bytes} {a : Account}

theorem newline_ne_return : ((10 : UInt8) == 13) = false := rfl
def colon : UInt8 := 58

/-! ## Fields -/

def isDigit (c : UInt8) : Bool := 48 ≤ c && c ≤ 57

/-- `parse_dec`: `none` on overflow. -/
def parseDec (b : Bytes) : Option Nat :=
  if b = [] then none
  else b.foldlM (fun v c =>
    if !isDigit c then none
    else if v * 10 + (c - 48).toNat < 2 ^ 64 then some (v * 10 + (c - 48).toNat) else none) 0

def hexDecode (cap : Nat) (hex : Bytes) : Option Bytes :=
  if hex.length % 2 ≠ 0 ∨ hex.length / 2 > cap then none else Hex.decode hex

def saltMax : Nat := 16
def saltV2 : Nat := 7
def digestLen : Nat := 32

def v2Mark : Bytes := [50, 36]

/-! ## Secrets -/

inductive SecretVersion where
  | v1
  | v2
deriving DecidableEq, Repr

structure Secret where
  version : SecretVersion
  /-- `salt[..salt_len]`. -/
  salt : Bytes
  hash : Bytes
deriving DecidableEq, Repr

/-- the hash functions: SHA-256 of two parts, and PBKDF2-HMAC-SHA-512 cut to a digest. -/
structure Hashes where
  sha256Two : Bytes → Bytes → Bytes
  v2Hash : Bytes → Bytes → Bytes

def Secret.verifyWithoutDeriving (hs : Hashes) (s : Secret) (password : Bytes) : Option Bool :=
  match s.version with
  | .v1 => some (hs.sha256Two s.salt password == s.hash)
  | .v2 => none

/-- the salt field of `decode_secret`: a version-2 salt of another width is no salt. -/
def decodeSalt (field : Bytes) : Option (SecretVersion × Bytes) :=
  match field with
  | 50 :: 36 :: hex =>
    match hexDecode saltMax hex with
    | some salt => if salt.length ≠ saltV2 ∨ hex.length ≠ saltV2 * 2 then none else some (.v2, salt)
    | none => none
  | _ => (hexDecode saltMax field).map fun salt => (.v1, salt)

def decodeSecret (saltField hashHex : Bytes) : Option Secret :=
  match decodeSalt saltField with
  | none => none
  | some (version, salt) =>
    match hexDecode digestLen hashHex with
    | none => none
    | some hash => if hash.length ≠ digestLen then none else some ⟨version, salt, hash⟩

/-! ## Lines -/

structure Account where
  name : Bytes
  uid : Nat
  gid : Nat
  home : Bytes
  secret : Option Secret
deriving DecidableEq, Repr

/-- the secret fields of a passwd line, if it has both; a pair that does not decode spoils the line. -/
def inlineSecret : List Bytes → Option (Option Secret)
  | salt :: hash :: _ => (decodeSecret salt hash).map some
  | _ => some none

def parseAccount (line : Bytes) : Option Account :=
  match line.splitOn colon with
  | name :: uidField :: gidField :: home :: rest =>
    if name = [] then none
    else
      match parseDec uidField, parseDec gidField, inlineSecret rest with
      | some uid, some gid, some secret => some ⟨name, uid % 2 ^ 32, gid % 2 ^ 32, home, secret⟩
      | _, _, _ => none
  | _ => none

def parseShadow (line : Bytes) : Option (Bytes × Secret) :=
  match line.splitOn colon with
  | name :: salt :: hash :: _ =>
    if name = [] then none else (decodeSecret salt hash).map fun secret => (name, secret)
  | _ => none

structure Group where
  name : Bytes
  gid : Nat
  members : Bytes

def parseGroup (line : Bytes) : Option Group :=
  match line.splitOn colon with
  | name :: gidField :: rest =>
    if name = [] then none
    else (parseDec gidField).map fun gid => ⟨name, gid % 2 ^ 32, rest.headD []⟩
  | _ => none

/-- the first line of a file that `f` takes; empty lines are none. -/
def findLine {β : Type} (file : Bytes) (f : Bytes → Option β) : Option β :=
  (file.splitOn newline).findSome? fun line => if line = [] then none else f line

def findUserByName (passwd name : Bytes) : Option Account :=
  findLine passwd fun line => (parseAccount line).filter (·.name = name)

def findUserByUid (passwd : Bytes) (uid : Nat) : Option Account :=
  findLine passwd fun line => (parseAccount line).filter (·.uid = uid)

/-- a shadow line as an entry of `name`. -/
def secretFor (name line : Bytes) : Option Secret :=
  match parseShadow line with
  | some (n, secret) => if n = name then some secret else none
  | none => none

def findSecretByName (shadow name : Bytes) : Option Secret := findLine shadow (secretFor name)

/-! ## Rewriting -/

def formatSecretLine (cap : Nat) (name : Bytes) (s : Secret) : Option Bytes :=
  let mark := if s.version = .v2 then v2Mark else []
  let line := name ++ [colon] ++ mark ++ Hex.encode s.salt ++ [colon] ++ Hex.encode s.hash
  if line.length > cap then none else some line

def firstField (line : Bytes) : Bytes := (line.splitOn colon).headD []

/-- the loop of `replace_line`: what is emitted, and whether the line was replaced. -/
def replaceIn (name replacement : Bytes) : List Bytes → Bool → Bytes × Bool
  | [], replaced => ([], replaced)
  | line :: rest, replaced =>
    if line = [] then replaceIn name replacement rest replaced
    else if !replaced ∧ firstField line = name then
      let (out, r) := replaceIn name replacement rest true
      (replacement ++ [newline] ++ out, r)
    else
      let (out, r) := replaceIn name replacement rest replaced
      (line ++ [newline] ++ out, r)

def replaceLine (cap : Nat) (src name replacement : Bytes) : Option (Bytes × Bool) :=
  let (out, replaced) := replaceIn name replacement (src.splitOn newline) false
  if out.length > cap then none else some (out, replaced)

def appendLine (cap : Nat) (src line : Bytes) : Option Bytes :=
  let gap := if src ≠ [] ∧ src.getLast? ≠ some newline then [newline] else []
  let out := src ++ gap ++ line ++ [newline]
  if out.length > cap then none else some out

def commonPrefix : Bytes → Bytes → Nat
  | a :: as, b :: bs => if a = b then commonPrefix as bs + 1 else 0
  | _, _ => 0

/-- `changed_span`: where two files of one length differ, from the first byte to the last. -/
def changedSpan (old new : Bytes) : Option (Nat × Nat) :=
  if old.length ≠ new.length then none
  else
    let start := commonPrefix old new
    if start = old.length then none
    else
      let tail := min (commonPrefix old.reverse new.reverse) (old.length - start)
      some (start, old.length - tail - start)

/-! ## Accounts that are found -/

theorem exists_line_of_findLine {β : Type} {f : Bytes → Option β} {b : β}
    (h : findLine file f = some b) : ∃ line ∈ file.splitOn newline, f line = some b := by
  obtain ⟨before, line, after, hsplit, hline, -⟩ := findSome?_eq_some_iff.1 h
  split at hline
  · cases hline
  refine ⟨line, ?_, hline⟩
  rw [hsplit]
  exact mem_append_right _ mem_cons_self

theorem parseAccount_eq_some {line : Bytes} (h : parseAccount line = some a) :
    ∃ uidField gidField rest uid gid, line.splitOn colon = a.name :: uidField :: gidField :: a.home :: rest ∧
      a.name ≠ [] ∧
      parseDec uidField = some uid ∧ parseDec gidField = some gid ∧ inlineSecret rest = some a.secret ∧
      a.uid = uid % 2 ^ 32 ∧ a.gid = gid % 2 ^ 32 := by
  unfold parseAccount at h
  split at h
  · next hsplit =>
    split at h
    · cases h
    next hne =>
    split at h <;> cases h
    exact ⟨_, _, _, _, _, hsplit, hne, ‹_›, ‹_›, ‹_›, rfl, rfl⟩
  · cases h

theorem findLine_parseAccount {p : Account → Bool}
    (h : findLine file (fun line => (parseAccount line).filter p) = some a) : a.name ≠ [] ∧ p a := by
  obtain ⟨line, -, hline⟩ := exists_line_of_findLine h
  obtain ⟨hparse, hp⟩ := filter_eq_some_iff.1 hline
  obtain ⟨_, _, _, _, _, -, hne, -⟩ := parseAccount_eq_some hparse
  exact ⟨hne, hp⟩

theorem findUserByName_nil (file : Bytes) : findUserByName file [] = none := by
  rw [eq_none_iff_forall_ne_some]
  intro a ha
  obtain ⟨hne, hname⟩ := findLine_parseAccount ha
  exact hne (of_decide_eq_true hname)

/-- digits read after the value `v`, at no width. -/
def decimalFrom (v : Nat) (b : Bytes) : Nat := b.foldl (fun v c => v * 10 + (c.toNat - 48)) v

def decimal (field : Bytes) : Option Nat :=
  if field ≠ [] ∧ field.all isDigit then some (decimalFrom 0 field) else none

theorem le_decimalFrom (v : Nat) (b : Bytes) : v ≤ decimalFrom v b := by
  induction b generalizing v with
  | nil => exact le_refl v
  | cons c b ih =>
    have := ih (v * 10 + (c.toNat - 48))
    rw [decimalFrom, foldl_cons]
    exact le_trans (by omega) this

theorem toNat_digit {c : UInt8} (h : isDigit c) : (c - 48).toNat = c.toNat - 48 := by
  simp only [isDigit, Bool.and_eq_true, decide_eq_true_eq] at h
  exact UInt8.toNat_sub_of_le c 48 h.1

theorem parseDec_eq (b : Bytes) : parseDec b = (decimal b).filter (· < 2 ^ 64) := by
  have loop (v : Nat) (hv : v < 2 ^ 64) : b.foldlM (fun v c =>
      if !isDigit c then none
      else if v * 10 + (c - 48).toNat < 2 ^ 64 then some (v * 10 + (c - 48).toNat) else none) v =
        if b.all isDigit ∧ decimalFrom v b < 2 ^ 64 then some (decimalFrom v b) else none := by
    induction b generalizing v with
    | nil => exact (if_pos ⟨rfl, hv⟩).symm
    | cons c b ih =>
      rw [foldlM_cons, all_cons]
      by_cases hc : isDigit c
      · rw [toNat_digit hc, hc, Bool.not_true, if_neg Bool.false_ne_true, Bool.true_and]
        by_cases hfit : v * 10 + (c.toNat - 48) < 2 ^ 64
        · rw [if_pos hfit]
          exact ih _ hfit
        -- what overflows here overflows at the end
        rw [if_neg hfit, if_neg]
        · rfl
        · rintro ⟨-, hlt⟩
          exact hfit (lt_of_le_of_lt (le_decimalFrom _ b) hlt)
      · simp [hc]
  unfold parseDec decimal
  by_cases hnil : b = []
  · simp [hnil]
  rw [if_neg hnil, loop 0 (by decide)]
  by_cases hall : b.all isDigit
  · simp [hall, hnil, Option.filter]
  · simp [hall]

/-- an account that is read from this line has the ids that the line writes. -/
def IdsAsWritten (line : Bytes) : Prop := ∀ a, parseAccount line = some a → ∃ uidField gidField,
    (line.splitOn colon)[1]? = some uidField ∧ (line.splitOn colon)[2]? = some gidField ∧
    decimal uidField = some a.uid ∧ decimal gidField = some a.gid

def IdsFit (line : Bytes) : Prop :=
  ∀ name uidField gidField home rest uid gid, line.splitOn colon = name :: uidField :: gidField :: home :: rest →
    name ≠ [] → inlineSecret rest ≠ none → decimal uidField = some uid → decimal gidField = some gid →
    uid < 2 ^ 64 → gid < 2 ^ 64 → uid < 2 ^ 32 ∧ gid < 2 ^ 32

/-- **an account has the ids of its line just if they fit 32 bits.** -/
theorem idsAsWritten_iff (line : Bytes) : IdsAsWritten line ↔ IdsFit line := by
  constructor
  · intro h name uidField gidField home rest uid gid hsplit hname hsecret huid hgid huid64 hgid64
    obtain ⟨secret, hsecret⟩ := ne_none_iff_exists'.1 hsecret
    have hdec {field : Bytes} {n : Nat} (hn : decimal field = some n) (h64 : n < 2 ^ 64) :
        parseDec field = some n := by
      rw [parseDec_eq, hn]
      exact if_pos (decide_eq_true h64)
    have hparse : parseAccount line = some ⟨name, uid % 2 ^ 32, gid % 2 ^ 32, home, secret⟩ := by
      simp [parseAccount, hsplit, hname, hdec huid huid64, hdec hgid hgid64, hsecret]
    obtain ⟨uidField', gidField', huid', hgid', hu, hg⟩ := h _ hparse
    rw [hsplit] at huid' hgid'
    cases huid'
    cases hgid'
    rw [huid] at hu
    rw [hgid] at hg
    simp only [Option.some.injEq] at hu hg
    omega
  · intro h a ha
    obtain ⟨uidField, gidField, rest, uid, gid, hsplit, hname, huid, hgid, hsecret, hu, hg⟩ :=
      parseAccount_eq_some ha
    rw [parseDec_eq, filter_eq_some_iff, decide_eq_true_eq] at huid hgid
    obtain ⟨hu32, hg32⟩ := h _ _ _ _ _ uid gid hsplit hname (by rw [hsecret]; nofun) huid.1 hgid.1 huid.2 hgid.2
    refine ⟨uidField, gidField, by rw [hsplit]; rfl, by rw [hsplit]; rfl, ?_, ?_⟩
    · rw [hu, mod_eq_of_lt hu32, huid.1]
    · rw [hg, mod_eq_of_lt hg32, hgid.1]

/-- `a:4294967296:0:/` is read as an account of root. -/
theorem wrapped_uid :
    let line : Bytes := [97, 58, 52, 50, 57, 52, 57, 54, 55, 50, 57, 54, 58, 48, 58, 47]
    parseAccount line = some ⟨[97], 0, 0, [47], none⟩ ∧ ¬ IdsAsWritten line := by
  refine ⟨by decide +kernel, fun h => ?_⟩
  obtain ⟨uidField, -, huid, -, hu, -⟩ := h ⟨[97], 0, 0, [47], none⟩ (by decide +kernel)
  have hfield : uidField = [52, 50, 57, 52, 57, 54, 55, 50, 57, 54] :=
    some_inj.1 (huid.symm.trans (by decide +kernel))
  rw [hfield] at hu
  exact absurd hu (by decide +kernel)

/-! ## Fresh ids -/

def firstNormalId : Nat := 1000

def maxId (id : Bytes → Option Nat) (max : Nat) (line : Bytes) : Nat :=
  if line = [] then max
  else match id line with
    | some n => if firstNormalId ≤ n ∧ max < n then n else max
    | none => max

def nextFree (id : Bytes → Option Nat) (file : Bytes) : Nat :=
  ((file.splitOn newline).foldl (maxId id) (firstNormalId - 1) + 1) % 2 ^ 32

def uidOf (line : Bytes) : Option Nat := (parseAccount line).map (·.uid)

def gidOf (line : Bytes) : Option Nat := (parseGroup line).map (·.gid)

def nextFreeUid (passwd : Bytes) : Nat := nextFree uidOf passwd

def nextFreeGid (group : Bytes) : Nat := nextFree gidOf group

def Unused (id : Bytes → Option Nat) (file : Bytes) (n : Nat) : Prop :=
  ∀ line ∈ file.splitOn newline, id line ≠ some n

def IsFresh (id : Bytes → Option Nat) (file : Bytes) (n : Nat) : Prop := firstNormalId ≤ n ∧ Unused id file n

section Fresh
variable {id : Bytes → Option Nat} (hnil : id [] = none)
include hnil

theorem foldl_maxId (lines : List Bytes) (start : Nat) :
    (lines.foldl (maxId id) start = start ∨ ∃ line ∈ lines, id line = some (lines.foldl (maxId id) start)) ∧
      start ≤ lines.foldl (maxId id) start ∧
      ∀ line ∈ lines, ∀ n, id line = some n → firstNormalId ≤ n → n ≤ lines.foldl (maxId id) start := by
  induction lines generalizing start with
  | nil => exact ⟨.inl rfl, le_rfl, fun _ h => absurd h not_mem_nil⟩
  | cons line rest ih =>
    have hnext : (maxId id start line = start ∨ id line = some (maxId id start line)) ∧
        start ≤ maxId id start line ∧
        ∀ n, id line = some n → firstNormalId ≤ n → n ≤ maxId id start line := by
      grind [maxId]
    rw [foldl_cons]
    grind

theorem isFresh_nextFree (hid : ∀ line n, id line = some n → n < 2 ^ 32) (file : Bytes) :
    IsFresh id file (nextFree id file) ↔ Unused id file (2 ^ 32 - 1) := by
  obtain ⟨hmem, hle, hall⟩ := foldl_maxId hnil (file.splitOn newline) (firstNormalId - 1)
  unfold IsFresh nextFree Unused
  generalize (file.splitOn newline).foldl (maxId id) (firstNormalId - 1) = max at *
  have hmax : max < 2 ^ 32 := by
    rcases hmem with rfl | ⟨line, -, hline⟩
    · decide
    · exact hid line max hline
  constructor
  · rintro ⟨hnormal, -⟩ line hline hlast
    -- the maximum is that id, and the sum wraps
    have hge := hall line hline _ hlast (by decide)
    rw [show max + 1 = 2 ^ 32 by omega] at hnormal
    exact absurd hnormal (by decide)
  · intro hlast
    have hne : max ≠ 2 ^ 32 - 1 := by
      rintro rfl
      obtain heq | ⟨line, hline, hid⟩ := hmem
      · exact absurd heq (by decide)
      · exact hlast line hline hid
    rw [mod_eq_of_lt (by omega)]
    have hnormal : firstNormalId ≤ max + 1 := by
      unfold firstNormalId at hle ⊢
      omega
    exact ⟨hnormal, fun line hline hused => absurd (hall line hline _ hused hnormal) (by omega)⟩

end Fresh

/-- **The id that `next_free_uid` (`next_free_gid`) returns is a normal one that no line has, just if no
account (group) has the last id, 2^32 - 1.** -/
theorem nextFree_fresh_iff (passwd group : Bytes) :
    (IsFresh uidOf passwd (nextFreeUid passwd) ↔ Unused uidOf passwd (2 ^ 32 - 1)) ∧
      (IsFresh gidOf group (nextFreeGid group) ↔ Unused gidOf group (2 ^ 32 - 1)) := by
  refine ⟨isFresh_nextFree rfl (fun line n h => ?_) passwd, isFresh_nextFree rfl (fun line n h => ?_) group⟩
  · obtain ⟨a, ha, rfl⟩ := map_eq_some_iff.1 h
    obtain ⟨_, _, _, uid, _, -, -, -, -, -, hu, -⟩ := parseAccount_eq_some ha
    rw [hu]
    exact mod_lt uid (by decide)
  · obtain ⟨g, hg, rfl⟩ := map_eq_some_iff.1 h
    unfold parseGroup at hg
    split at hg
    · obtain ⟨-, hg⟩ := ite_none_left_eq_some.1 hg
      obtain ⟨gid, -, rfl⟩ := map_eq_some_iff.1 hg
      exact mod_lt _ (by decide)
    · cases hg

/-- after `a:4294967295:0:/` the next account is another root. -/
theorem nextFreeUid_wraps :
    let passwd : Bytes := [97, 58, 52, 50, 57, 52, 57, 54, 55, 50, 57, 53, 58, 48, 58, 47]
    nextFreeUid passwd = 0 ∧ ¬ IsFresh uidOf passwd (nextFreeUid passwd) := by
  intro passwd
  have hzero : nextFreeUid passwd = 0 := by decide +kernel
  refine ⟨hzero, fun h => ?_⟩
  rw [hzero] at h
  exact absurd h.1 (by decide)

end Ouroboros.Accounts
