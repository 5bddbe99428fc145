import Ouroboros.Lib.Checked
import Ouroboros.Accounts.Rewrite

/-!
# accountd

The account server: it changes a password, reports a salt, upgrades a secret. `none` is a panic.

* `findTarget`  the account a request is about, if the sender may name it;
* `writeSecret`  its line in `/etc/shadow`, in place where the length allows;
* `handle`  one request;
* `handle_changes` what a request may change, and what it may say.
-/

namespace Ouroboros.Accounts.Accountd

open Checked Buffer Lines Option Nat

def reqHdr : Nat := 40
def replyLen : Nat := 8
def nameMax : Nat := 64
def pwMax : Nat := 128
def bufLen : Nat := 2048
def msgMaxLen : Nat := 768
def lineMax : Nat := 256
def secretLen : Nat := saltV2 + digestLen

def acctopPasswd : Nat := 1
def acctopSalt : Nat := 2
def acctopUpgrade : Nat := 3

def getIdErr : Nat := 2 ^ 64 - 1
def errDenied : Nat := 2 ^ 64 - 1 - 34
def errNoUser : Nat := 2 ^ 64 - 1 - 35
def errWrongPassword : Nat := 2 ^ 64 - 1 - 36
def errIo : Nat := 2 ^ 64 - 1 - 37
def errBadRequest : Nat := 2 ^ 64 - 1 - 38

/-! ## Files -/

structure Files where
  passwd : Option Bytes
  shadow : Option Bytes
deriving DecidableEq, Repr

/-- `read_file_checked`: nothing of a file that fills the buffer. -/
def readFileChecked : Option Bytes → Option Bytes
  | none => some []
  | some file => if file.length ≥ bufLen then none else some file

def fsErrMin : Nat := 2 ^ 64 - 1 - 45
def fsErrNotFound : Nat := 2 ^ 64 - 1 - 2

/-- `write_private_at`, into a file that is there. -/
def writePrivateAt (fs : Files) (off : Nat) (data : Bytes) : Nat × Files :=
  match fs.shadow with
  | some file => (0, { fs with shadow := some (put file off data) })
  | none => (fsErrNotFound, fs)

def writePrivateFile (fs : Files) (data : Bytes) : Nat × Files := (0, { fs with shadow := some data })

/-! ## Accounts -/

structure Target where
  name : Bytes
  legacy : Option Secret

/-- the account a request names; an empty name is the sender's own. -/
def resolve (passwd : Bytes) (uid : Nat) (name : Bytes) : Option Account :=
  if name = [] then findUserByUid passwd uid else findUserByName passwd name

def findTarget (uid : Nat) (name : Bytes) (fs : Files) : Except Nat Target :=
  match readFileChecked fs.passwd with
  | none => .error errIo
  | some passwd =>
    match resolve passwd uid name with
    | none => .error errNoUser
    | some a =>
      if uid ≠ 0 ∧ a.uid ≠ uid then .error errDenied
      else if a.name.length > nameMax then .error errIo
      else .ok ⟨a.name, a.secret⟩

def currentSecret (shadow : Bytes) (t : Target) : Option Secret := (findSecretByName shadow t.name).or t.legacy

def v2Secret (new : Bytes) : Option Secret := (slice? new 0 saltV2).bind fun salt =>
    (slice? new saltV2 new.length).bind fun hash =>
      if hash.length = digestLen then some ⟨.v2, salt, hash⟩ else none

/-! ## Writing -/

/-- the write of a new `/etc/shadow`: the changed bytes, nothing, or the whole file. -/
def store (fs : Files) (shadow out : Bytes) : Option (Nat × Files) :=
  match changedSpan shadow out with
  | some (off, n) =>
    (add? off n).bind fun stop => (slice? out off stop).map fun data => writePrivateAt fs off data
  | none => if shadow = out then some (0, fs) else some (writePrivateFile fs out)

def writeSecret (shadow name : Bytes) (secret : Secret) (lengthMayChange : Bool) (fs : Files) :
    Option (Nat × Files) :=
  match formatSecretLine lineMax name secret with
  | none => some (errIo, fs)
  | some line =>
    match replaceLine bufLen shadow name line with
    | none => some (errIo, fs)
    | some (out, replaced) =>
      match if replaced then some out else appendLine bufLen shadow line with
      | none => some (errIo, fs)
      | some out =>
        if out.length ≠ shadow.length ∧ !lengthMayChange then some (errBadRequest, fs)
        else (store fs shadow out).map fun (code, fs) => (if code ≥ fsErrMin then errIo else 0, fs)

/-! ## Requests -/

def shows (old : Bytes) : Option Secret → Bool
  | some secret => old.length = digestLen && old == secret.hash
  | none => false

def changePassword (uid : Nat) (name old new : Bytes) (fs : Files) : Option (Nat × Files) :=
  match findTarget uid name fs with
  | .error e => some (e, fs)
  | .ok t =>
    match readFileChecked fs.shadow with
    | none => some (errIo, fs)
    | some shadow =>
      if uid ≠ 0 ∧ !shows old (currentSecret shadow t) then some (errWrongPassword, fs)
      else (v2Secret new).bind fun secret => writeSecret shadow t.name secret true fs

def status (code : Nat) : Bytes := le 8 code

def versionByte : SecretVersion → UInt8
  | .v1 => 1
  | .v2 => 2

def saltReply (version : SecretVersion) (salt : Bytes) : Bytes :=
  status 0 ++ [versionByte version, UInt8.ofNat salt.length] ++ salt

/-- `report_salt`; a salt has to fit the array it is read from and the reply. -/
def reportSalt (uid : Nat) (name : Bytes) (fs : Files) : Option Bytes :=
  match findTarget uid name fs with
  | .error e => some (status e)
  | .ok t =>
    match readFileChecked fs.shadow with
    | none => some (status errIo)
    | some shadow =>
      match currentSecret shadow t with
      | none => some (status errWrongPassword)
      | some secret =>
        if secret.salt.length ≤ saltMax ∧ replyLen + 2 + secret.salt.length ≤ msgMaxLen then
          some (saltReply secret.version secret.salt)
        else none

def upgrade (hs : Hashes) (uid : Nat) (name pw new : Bytes) (fs : Files) : Option (Nat × Files) :=
  if uid ≠ 0 then some (errDenied, fs)
  else
    match findTarget uid name fs with
    | .error e => some (e, fs)
    | .ok t =>
      match readFileChecked fs.shadow with
      | none => some (errIo, fs)
      | some shadow =>
        match findSecretByName shadow t.name with
        | none => some (errBadRequest, fs)
        | some secret =>
          if secret.version ≠ .v1 ∨ secret.salt.length ≠ 8 then some (errBadRequest, fs)
          else if secret.verifyWithoutDeriving hs pw ≠ some true then some (errWrongPassword, fs)
          else (v2Secret new).bind fun secret => writeSecret shadow t.name secret false fs

def replied (r : Option (Nat × Files)) : Option (Bytes × Files) := r.map fun (code, fs) => (status code, fs)

/-- three slices in a row, of lengths `a`, `b` and `secretLen`; `none` where the payload is too short. -/
def fields (payload : Bytes) (a b : Nat) : Option (Option (Bytes × Bytes × Bytes)) := (add? a b).bind fun mid =>
    (add? mid secretLen).bind fun stop =>
      if stop > payload.length then some none
      else
        (slice? payload 0 a).bind fun first =>
          (slice? payload a mid).bind fun second =>
            (slice? payload mid stop).bind fun third => some (some (first, second, third))

def handle (hs : Hashes) (packed : Nat) (req : Bytes) (fs : Files) : Option (Bytes × Files) :=
  if req.length < reqHdr then some (status errBadRequest, fs)
  else
    (readU64? req 0).bind fun op =>
    (readU64? req 8).bind fun a0 =>
    (readU64? req 16).bind fun a1 =>
    (slice? req reqHdr req.length).bind fun payload =>
    if packed = getIdErr then some (status errDenied, fs)
    else
      let uid := packed % 2 ^ 32
      if op = acctopPasswd then
        if a0 > nameMax ∨ (a1 ≠ 0 ∧ a1 ≠ digestLen) then some (status errBadRequest, fs)
        else
          (fields payload a0 a1).bind fun
            | none => some (status errBadRequest, fs)
            | some (name, old, new) => replied (changePassword uid name old new fs)
      else if op = acctopSalt then
        if a0 > nameMax ∨ a0 > payload.length then some (status errBadRequest, fs)
        else (slice? payload 0 a0).bind fun name => (reportSalt uid name fs).map (·, fs)
      else if op = acctopUpgrade then
        if a0 > nameMax ∨ a0 = 0 ∨ a1 > pwMax then some (status errBadRequest, fs)
        else
          (fields payload a0 a1).bind fun
            | none => some (status errBadRequest, fs)
            | some (name, pw, new) => replied (upgrade hs uid name pw new fs)
      else some (status errBadRequest, fs)

/-! ## What is found -/

theorem readFileChecked_eq {file : Option Bytes} {b : Bytes} (h : readFileChecked file = some b) :
    b = file.getD [] ∧ b.length < bufLen := by
  unfold readFileChecked at h
  split at h
  · cases h
    exact ⟨rfl, by decide⟩
  split at h
  · cases h
  next hlen =>
  cases h
  exact ⟨rfl, lt_of_not_ge hlen⟩

variable {a : Account} {name shadow new req : Bytes} {uid : Nat} {fs : Files} {s : Secret}
variable {file passwd out : Bytes} {p : Account → Bool} {secret : Secret}

theorem lineName_of_find (h : findLine file (fun line => (parseAccount line).filter p) = some a) :
    LineName a.name := by
  obtain ⟨line, hmem, hline⟩ := exists_line_of_findLine h
  obtain ⟨_, _, _, _, _, hsplit, hne, -⟩ := parseAccount_eq_some (filter_eq_some_iff.1 hline).1
  obtain ⟨hcolon, hsub⟩ := mem_splitOn (hsplit ▸ List.mem_cons_self)
  exact ⟨hne, hcolon, fun hnl => (mem_splitOn hmem).1 (hsub _ hnl)⟩

theorem lineName_of_resolve (h : resolve passwd uid name = some a) : LineName a.name := by
  unfold resolve at h
  split at h
  · exact lineName_of_find h
  · exact lineName_of_find h

theorem findTarget_ok {t : Target} (h : findTarget uid name fs = .ok t) :
    ∃ a, resolve (fs.passwd.getD []) uid name = some a ∧ t = ⟨a.name, a.secret⟩ ∧ (uid = 0 ∨ a.uid = uid) := by
  unfold findTarget at h
  split at h
  · cases h
  next passwd hread =>
  obtain ⟨rfl, -⟩ := readFileChecked_eq hread
  split at h
  · cases h
  next a ha =>
  split at h
  · cases h
  next hmay =>
  split at h
  · cases h
  cases h
  refine ⟨a, ha, rfl, ?_⟩
  by_cases h0 : uid = 0
  · exact .inl h0
  · exact .inr (not_not.1 fun hne => hmay ⟨h0, hne⟩)

def refusals : List Nat := [errDenied, errNoUser, errWrongPassword, errIo, errBadRequest]

def codes : List Nat := 0 :: refusals

theorem findTarget_error {e : Nat} (h : findTarget uid name fs = .error e) : e ∈ refusals := by
  unfold findTarget at h
  repeat' split at h
  all_goals cases h
  all_goals decide

theorem hexDecode_le {cap : Nat} {hex b : Bytes} (h : hexDecode cap hex = some b) : b.length ≤ cap := by
  unfold hexDecode at h
  split at h
  · cases h
  · have hlen := Hex.length_decode h
    omega

theorem decodeSecret_salt {salt hash : Bytes} (h : decodeSecret salt hash = some s) :
    s.salt.length ≤ saltMax := by
  have hsalt : ∀ {version decoded}, decodeSalt salt = some (version, decoded) → decoded.length ≤ saltMax := by
    intro version decoded h
    unfold decodeSalt at h
    split at h
    · split at h
      · next hdec =>
        split at h
        · cases h
        · cases h
          exact hexDecode_le hdec
      · cases h
    · obtain ⟨b, hb, hpair⟩ := map_eq_some_iff.1 h
      cases hpair
      exact hexDecode_le hb
  unfold decodeSecret at h
  split at h
  · cases h
  next version decoded hdec =>
  split at h
  · cases h
  split at h
  · cases h
  · cases h
    exact hsalt hdec

theorem inline_salt (h : findLine file (fun line => (parseAccount line).filter p) = some a)
    (hs : a.secret = some s) :
    s.salt.length ≤ saltMax := by
  obtain ⟨line, -, hline⟩ := exists_line_of_findLine h
  obtain ⟨_, _, rest, _, _, -, -, -, -, hrest, -⟩ := parseAccount_eq_some (filter_eq_some_iff.1 hline).1
  rw [hs] at hrest
  unfold inlineSecret at hrest
  split at hrest
  · obtain ⟨s', hs', heq⟩ := map_eq_some_iff.1 hrest
    cases heq
    exact decodeSecret_salt hs'
  · cases hrest

theorem currentSecret_salt (ha : resolve passwd uid name = some a)
    (h : currentSecret shadow ⟨a.name, a.secret⟩ = some s) :
    s.salt.length ≤ saltMax := by
  rcases or_eq_some_iff.1 h with h | ⟨-, h⟩
  · obtain ⟨line, -, hline⟩ := exists_line_of_findLine h
    obtain ⟨_, _, _, -, hdecode⟩ := secretFor_eq_some hline
    exact decodeSecret_salt hdecode
  unfold resolve at ha
  split at ha
  · exact inline_salt ha h
  · exact inline_salt ha h

/-! ## What is written -/

/-- a write with this code: `/etc/shadow` holds `secret` under `name` if it changed or the code is 0, and what
it held under every other. -/
structure Wrote (name : Bytes) (secret : Secret) (fs fs' : Files) (code : Nat) : Prop where
  known : code ∈ codes
  passwd : fs'.passwd = fs.passwd
  self : fs' ≠ fs ∨ code = 0 → findSecretByName (fs'.shadow.getD []) name = some secret
  other : ∀ n, n ≠ name → findSecretByName (fs'.shadow.getD []) n = findSecretByName (fs.shadow.getD []) n

theorem ne_zero_of_mem_refusals {code : Nat} (h : code ∈ refusals) : code ≠ 0 := by
  rintro rfl
  exact absurd h (by decide)

theorem Wrote.refused {code : Nat} (h : code ∈ refusals) : Wrote name secret fs fs code where
  known := List.mem_cons_of_mem 0 h
  passwd := rfl
  self := fun hself => hself.elim (absurd rfl) fun hzero => absurd hzero (ne_zero_of_mem_refusals h)
  other := fun _ _ => rfl

theorem store_spec (hread : readFileChecked fs.shadow = some shadow)
    (hout : out.length ≤ bufLen) : ∃ code fs', store fs shadow out = some (code, fs') ∧ fs'.passwd = fs.passwd ∧
      (fs' = fs ∧ code ≥ fsErrMin ∨ fs'.shadow.getD [] = out) := by
  unfold store
  cases hspan : changedSpan shadow out with
  | none =>
    by_cases heq : shadow = out
    · refine ⟨0, fs, if_pos heq, rfl, .inr ?_⟩
      rw [← (readFileChecked_eq hread).1, heq]
    · exact ⟨0, { fs with shadow := some out }, if_neg heq, rfl, .inr rfl⟩
  | some span =>
    obtain ⟨off, n⟩ := span
    obtain ⟨-, hle⟩ := changedSpan_le hspan
    have hsum : off + n < 2 ^ 64 := by
      have hbuf : bufLen = 2048 := rfl
      omega
    dsimp only
    rw [add?_eq hsum, bind_some, slice?_eq (le_add_right off n) hle, map_some]
    unfold writePrivateAt
    cases hfile : fs.shadow with
    | none => exact ⟨fsErrNotFound, fs, rfl, rfl, .inl ⟨rfl, by decide⟩⟩
    | some file =>
      have hold : shadow = file := by
        obtain ⟨hget, -⟩ := readFileChecked_eq hread
        rw [hget, hfile, getD_some]
      refine ⟨0, { fs with shadow := some (put file off (slice out off (off + n))) }, rfl, rfl, .inr ?_⟩
      rw [← hold, put_changedSpan hspan, getD_some]

theorem rewrite_spec {out' : Bytes} {replaced : Bool} (hname : LineName name)
    (hs : secret.IsV2) (hreplace : replaceLine bufLen shadow name (v2Line name secret) = some (out, replaced))
    (hout : (if replaced then some out else appendLine bufLen shadow (v2Line name secret)) = some out') :
    out'.length ≤ bufLen ∧ findSecretByName out' name = some secret ∧
      ∀ n, n ≠ name → findSecretByName out' n = findSecretByName shadow n := by
  have hline := newline_notMem_v2Line hname secret
  have hself := search_replaceLine_self hline hreplace (byName_entry name) (entry_v2Line hname hs)
  cases replaced with
  | true =>
    obtain ⟨hlen, hpair⟩ := ite_none_left_eq_some.1 hreplace
    cases hout
    rw [(Prod.mk.inj (some.inj hpair)).1] at hlen
    refine ⟨Nat.le_of_not_lt hlen, hself, fun n hn => ?_⟩
    refine search_replaceLine_other hline hreplace (byName_entry n) hn ?_
    rw [firstField_v2Line hname]
    exact hn
  | false =>
    have hfind (n : Bytes) : findSecretByName out' n = (findSecretByName shadow n).or
        (entry n (v2Line name secret)) :=
      search_appendLine (entry_nil n) hline hout
    have hnone : findSecretByName shadow name = none := hself
    obtain ⟨hlen, hout⟩ := ite_none_left_eq_some.1 hout
    rw [some.injEq] at hout
    refine ⟨by rw [← hout]; exact Nat.le_of_not_lt hlen, ?_, fun n hn => ?_⟩
    · rw [hfind, hnone, entry_v2Line hname hs]
      rfl
    · rw [hfind, entry_eq_none (by rw [firstField_v2Line hname]; exact hn.symm), or_none]

/-- **Writing a secret does not panic, and changes the secret of its name only.** -/
theorem writeSecret_spec (hname : LineName name)
    (hs : secret.IsV2) (hread : readFileChecked fs.shadow = some shadow) (lengthMayChange : Bool) :
    ∃ code fs', writeSecret shadow name secret lengthMayChange fs = some (code, fs') ∧
      Wrote name secret fs fs' code := by
  have hkept : ∀ e ∈ refusals, ∃ code fs', some (e, fs) = some (code, fs') ∧ Wrote name secret fs fs' code :=
    fun e he => ⟨e, fs, rfl, .refused he⟩
  unfold writeSecret
  cases hformat : formatSecretLine lineMax name secret with
  | none => exact hkept errIo (by decide)
  | some line =>
    rw [formatSecretLine_v2 hs.version hformat]
    dsimp only
    cases hreplace : replaceLine bufLen shadow name (v2Line name secret) with
    | none => exact hkept errIo (by decide)
    | some res =>
      obtain ⟨out, replaced⟩ := res
      dsimp only
      cases hout : (if replaced then some out else appendLine bufLen shadow (v2Line name secret)) with
      | none => exact hkept errIo (by decide)
      | some out' =>
        obtain ⟨hlen, hself, hother⟩ := rewrite_spec hname hs hreplace hout
        dsimp only
        split
        · exact hkept errBadRequest (by decide)
        obtain ⟨code, fs', hstore, hpasswd, hshadow⟩ := store_spec hread hlen
        have hcode : (if code ≥ fsErrMin then errIo else 0) ∈ codes := by
          split <;> decide
        refine ⟨_, fs', by rw [hstore, map_some], ?_⟩
        rcases hshadow with ⟨rfl, herr⟩ | hshadow
        · rw [if_pos herr]
          exact .refused (by decide)
        · refine ⟨hcode, hpasswd, fun _ => hshadow ▸ hself, fun n hn => ?_⟩
          rw [hshadow, hother n hn, (readFileChecked_eq hread).1]

theorem v2Secret_eq (h : new.length = secretLen) : v2Secret new = some ⟨.v2, new.take saltV2, new.drop saltV2⟩ ∧
      Secret.IsV2 ⟨.v2, new.take saltV2, new.drop saltV2⟩ := by
  have hsalt : (new.take saltV2).length = saltV2 := by
    rw [List.length_take, h]
    decide
  have hhash : (new.drop saltV2).length = digestLen := by
    rw [List.length_drop, h]
    decide
  refine ⟨?_, rfl, hsalt, hhash⟩
  have hle : saltV2 ≤ new.length := by
    rw [h]
    decide
  have hfirst : slice new 0 saltV2 = new.take saltV2 := rfl
  have hlast : slice new saltV2 new.length = new.drop saltV2 := by rw [slice, List.take_length]
  rw [v2Secret, slice?_eq (zero_le _) hle, bind_some, slice?_eq hle le_rfl, bind_some, hfirst,
    hlast, if_pos hhash]

/-! ## What a request may do -/

/-- a change by `uid`: of an account it may name, shown to be its own unless it is root, and of that
account's secret only. -/
structure Changes (uid : Nat) (name old new : Bytes) (fs fs' : Files) : Prop where
  target : ∃ a, resolve (fs.passwd.getD []) uid name = some a ∧ (uid = 0 ∨ (a.uid = uid ∧
      ∃ cur, currentSecret (fs.shadow.getD []) ⟨a.name, a.secret⟩ = some cur ∧ old = cur.hash)) ∧
    findSecretByName (fs'.shadow.getD []) a.name = some ⟨.v2, new.take saltV2, new.drop saltV2⟩ ∧
    ∀ n, n ≠ a.name → findSecretByName (fs'.shadow.getD []) n = findSecretByName (fs.shadow.getD []) n
  passwd : fs'.passwd = fs.passwd

def Ends (uid : Nat) (name old new : Bytes) (fs : Files) (r : Option (Nat × Files)) : Prop :=
  ∃ code fs', r = some (code, fs') ∧ code ∈ codes ∧ (fs' ≠ fs ∨ code = 0 → Changes uid name old new fs fs')

theorem Ends.refused {code : Nat} {old : Bytes} (h : code ∈ refusals) :
    Ends uid name old new fs (some (code, fs)) := by
  refine ⟨code, fs, rfl, List.mem_cons_of_mem 0 h, ?_⟩
  rintro (hne | hzero)
  · exact absurd rfl hne
  · exact absurd hzero (ne_zero_of_mem_refusals h)

theorem Ends.write {old : Bytes} (hnew : new.length = secretLen)
    (ha : resolve (fs.passwd.getD []) uid name = some a) (hread : readFileChecked fs.shadow = some shadow)
    (hmay : uid = 0 ∨ (a.uid = uid ∧
      ∃ cur, currentSecret (fs.shadow.getD []) ⟨a.name, a.secret⟩ = some cur ∧ old = cur.hash))
    (lengthMayChange : Bool) : Ends uid name old new fs
      ((v2Secret new).bind fun secret => writeSecret shadow a.name secret lengthMayChange fs) := by
  obtain ⟨hsecret, hv2⟩ := v2Secret_eq hnew
  obtain ⟨code, fs', hwrite, hwrote⟩ := writeSecret_spec (lineName_of_resolve ha) hv2 hread lengthMayChange
  rw [hsecret, bind_some]
  refine ⟨code, fs', hwrite, hwrote.known, fun hdone => ?_⟩
  exact ⟨⟨a, ha, hmay, hwrote.self hdone, hwrote.other⟩, hwrote.passwd⟩

theorem changePassword_spec (uid : Nat) (name old : Bytes) (fs : Files) (hnew : new.length = secretLen) :
    Ends uid name old new fs (changePassword uid name old new fs) := by
  unfold changePassword
  cases htarget : findTarget uid name fs with
  | error e => exact .refused (findTarget_error htarget)
  | ok t =>
    obtain ⟨a, ha, rfl, hown⟩ := findTarget_ok htarget
    cases hread : readFileChecked fs.shadow with
    | none => exact .refused (by decide)
    | some shadow =>
      dsimp only
      split
      · exact .refused (by decide)
      next hshown =>
      refine .write hnew ha hread ?_ true
      by_cases h0 : uid = 0
      · exact .inl h0
      have hshows : shows old (currentSecret shadow ⟨a.name, a.secret⟩) := by
        by_contra hno
        exact hshown ⟨h0, by simpa using hno⟩
      refine .inr ⟨hown.resolve_left h0, ?_⟩
      rw [← (readFileChecked_eq hread).1]
      unfold shows at hshows
      split at hshows
      · next cur hcur =>
        rw [Bool.and_eq_true] at hshows
        exact ⟨cur, hcur, eq_of_beq hshows.2⟩
      · cases hshows

theorem upgrade_spec (hs : Hashes) (uid : Nat) (name pw : Bytes) (fs : Files) (hnew : new.length = secretLen) :
    Ends uid name pw new fs (upgrade hs uid name pw new fs) := by
  unfold upgrade
  split
  · exact .refused (by decide)
  next hroot =>
  cases htarget : findTarget uid name fs with
  | error e => exact .refused (findTarget_error htarget)
  | ok t =>
    obtain ⟨a, ha, rfl, -⟩ := findTarget_ok htarget
    cases hread : readFileChecked fs.shadow with
    | none => exact .refused (by decide)
    | some shadow =>
      dsimp only
      cases findSecretByName shadow a.name with
      | none => exact .refused (by decide)
      | some secret =>
        dsimp only
        split
        · exact .refused (by decide)
        split
        · exact .refused (by decide)
        · exact .write hnew ha hread (.inl (not_not.1 hroot)) false

/-- a reply that says a status, or the version and salt of a secret. -/
def Discreet (uid : Nat) (name : Bytes) (fs : Files) (reply : Bytes) : Prop :=
  (∃ code ∈ codes, reply = status code) ∨
    ∃ a cur, resolve (fs.passwd.getD []) uid name = some a ∧
      currentSecret (fs.shadow.getD []) ⟨a.name, a.secret⟩ = some cur ∧ reply = saltReply cur.version cur.salt

theorem reportSalt_spec (uid : Nat) (name : Bytes) (fs : Files) :
    ∃ reply, reportSalt uid name fs = some reply ∧ Discreet uid name fs reply := by
  have hstatus : ∀ e ∈ codes, ∃ reply, some (status e) = some reply ∧ Discreet uid name fs reply :=
    fun e he => ⟨status e, rfl, .inl ⟨e, he, rfl⟩⟩
  unfold reportSalt
  cases htarget : findTarget uid name fs with
  | error e => exact hstatus e (List.mem_cons_of_mem 0 (findTarget_error htarget))
  | ok t =>
    obtain ⟨a, ha, rfl, -⟩ := findTarget_ok htarget
    cases hread : readFileChecked fs.shadow with
    | none => exact hstatus errIo (by decide)
    | some shadow =>
      dsimp only
      cases hcur : currentSecret shadow ⟨a.name, a.secret⟩ with
      | none => exact hstatus errWrongPassword (by decide)
      | some cur =>
        have hsalt := currentSecret_salt ha hcur
        have hroom : replyLen + 2 + cur.salt.length ≤ msgMaxLen := by
          have hmax : saltMax = 16 := rfl
          have hmsg : msgMaxLen = 768 := rfl
          have hreply : replyLen = 8 := rfl
          omega
        refine ⟨saltReply cur.version cur.salt, if_pos ⟨hsalt, hroom⟩, .inr ⟨a, cur, ha, ?_, rfl⟩⟩
        rw [← (readFileChecked_eq hread).1]
        exact hcur

/-! ## Files that differ in their hashes -/

def blind (s : Secret) : Secret := { s with hash := [] }

def blindAccount (a : Account) : Account := { a with secret := a.secret.map blind }

def blindTarget (t : Target) : Target := { t with legacy := t.legacy.map blind }

structure Twin (fs₁ fs₂ : Files) : Prop where
  passwdRead : (readFileChecked fs₁.passwd).isSome = (readFileChecked fs₂.passwd).isSome
  shadowRead : (readFileChecked fs₁.shadow).isSome = (readFileChecked fs₂.shadow).isSome
  byName : ∀ name, (findUserByName (fs₁.passwd.getD []) name).map blindAccount =
    (findUserByName (fs₂.passwd.getD []) name).map blindAccount
  byUid : ∀ uid, (findUserByUid (fs₁.passwd.getD []) uid).map blindAccount =
    (findUserByUid (fs₂.passwd.getD []) uid).map blindAccount
  secrets : ∀ name, (findSecretByName (fs₁.shadow.getD []) name).map blind =
    (findSecretByName (fs₂.shadow.getD []) name).map blind

theorem both_read {file₁ file₂ : Option Bytes}
    (h : (readFileChecked file₁).isSome = (readFileChecked file₂).isSome) :
    readFileChecked file₁ = none ∧ readFileChecked file₂ = none ∨
      readFileChecked file₁ = some (file₁.getD []) ∧ readFileChecked file₂ = some (file₂.getD []) := by
  rcases h₁ : readFileChecked file₁ with _ | b₁ <;> rcases h₂ : readFileChecked file₂ with _ | b₂ <;>
    rw [h₁, h₂] at h
  · exact .inl ⟨rfl, rfl⟩
  · cases h
  · cases h
  · exact .inr ⟨congrArg some (readFileChecked_eq h₁).1, congrArg some (readFileChecked_eq h₂).1⟩

theorem map_eq_cases {α β : Type} {f : α → β} {x y : Option α} (h : x.map f = y.map f) :
    x = none ∧ y = none ∨ ∃ a b, x = some a ∧ y = some b ∧ f a = f b := by
  rcases x with _ | a <;> rcases y with _ | b
  · exact .inl ⟨rfl, rfl⟩
  · cases h
  · cases h
  · exact .inr ⟨a, b, rfl, rfl, some.inj h⟩

section Twin
variable {fs₁ fs₂ : Files} (h : Twin fs₁ fs₂)
include h

theorem Twin.resolve (uid : Nat) (name : Bytes) : (resolve (fs₁.passwd.getD []) uid name).map blindAccount =
      (resolve (fs₂.passwd.getD []) uid name).map blindAccount := by
  unfold Accountd.resolve
  split
  · exact h.byUid uid
  · exact h.byName name

theorem Twin.findTarget (uid : Nat) (name : Bytes) :
    (findTarget uid name fs₁).map blindTarget = (findTarget uid name fs₂).map blindTarget := by
  unfold Accountd.findTarget
  rcases both_read h.passwdRead with ⟨hp₁, hp₂⟩ | ⟨hp₁, hp₂⟩ <;> rw [hp₁, hp₂]
  rcases map_eq_cases (h.resolve uid name) with ⟨hr₁, hr₂⟩ | ⟨a₁, a₂, hr₁, hr₂, ha⟩ <;>
    dsimp only <;> rw [hr₁, hr₂]
  have hname : a₁.name = a₂.name := (congrArg Account.name ha :)
  have huid : a₁.uid = a₂.uid := (congrArg Account.uid ha :)
  have hsecret : a₁.secret.map blind = a₂.secret.map blind := congrArg Account.secret ha
  dsimp only
  rw [hname, huid]
  split
  · rfl
  split
  · rfl
  · change Except.ok (Target.mk a₂.name (a₁.secret.map blind)) =
      Except.ok (Target.mk a₂.name (a₂.secret.map blind))
    rw [hsecret]

theorem Twin.currentSecret {t₁ t₂ : Target} (ht : blindTarget t₁ = blindTarget t₂) :
    (currentSecret (fs₁.shadow.getD []) t₁).map blind = (currentSecret (fs₂.shadow.getD []) t₂).map blind := by
  have hname : t₁.name = t₂.name := (congrArg Target.name ht :)
  have hlegacy : t₁.legacy.map blind = t₂.legacy.map blind := congrArg Target.legacy ht
  unfold Accountd.currentSecret
  rw [map_or, map_or, h.secrets, hname, hlegacy]

/-- **The salt that is reported does not depend on the hashes.** -/
theorem Twin.reportSalt (uid : Nat) (name : Bytes) : reportSalt uid name fs₁ = reportSalt uid name fs₂ := by
  have htarget := h.findTarget uid name
  unfold Accountd.reportSalt
  rcases ht₁ : Accountd.findTarget uid name fs₁ with e₁ | t₁ <;>
    rcases ht₂ : Accountd.findTarget uid name fs₂ with e₂ | t₂ <;> rw [ht₁, ht₂] at htarget
  · cases htarget
    rfl
  · cases htarget
  · cases htarget
  have hcur := h.currentSecret (Except.ok.inj htarget)
  rcases both_read h.shadowRead with ⟨hs₁, hs₂⟩ | ⟨hs₁, hs₂⟩ <;> rw [hs₁, hs₂]
  rcases map_eq_cases hcur with ⟨hc₁, hc₂⟩ | ⟨c₁, c₂, hc₁, hc₂, hc⟩ <;> dsimp only <;> rw [hc₁, hc₂]
  have hsalt : c₁.salt = c₂.salt := (congrArg Secret.salt hc :)
  have hversion : c₁.version = c₂.version := (congrArg Secret.version hc :)
  dsimp only
  rw [hsalt, hversion]

end Twin

/-! ## Requests -/

/-- the fields of a request: two lengths, and what they delimit after the header. -/
def reqOp (req : Bytes) : Nat := ofLe (slice req 0 8)
def reqLen0 (req : Bytes) : Nat := ofLe (slice req 8 16)
def reqLen1 (req : Bytes) : Nat := ofLe (slice req 16 24)
def reqPayload (req : Bytes) : Bytes := slice req reqHdr req.length

def reqName (req : Bytes) : Bytes := slice (reqPayload req) 0 (reqLen0 req)

def reqProof (req : Bytes) : Bytes := slice (reqPayload req) (reqLen0 req) (reqLen0 req + reqLen1 req)

def reqNew (req : Bytes) : Bytes :=
  slice (reqPayload req) (reqLen0 req + reqLen1 req) (reqLen0 req + reqLen1 req + secretLen)

theorem fields_eq {payload : Bytes} {a b : Nat} (ha : a ≤ nameMax) (hb : b ≤ pwMax) : fields payload a b =
      if a + b + secretLen > payload.length then some none
      else some (some (slice payload 0 a, slice payload a (a + b),
        slice payload (a + b) (a + b + secretLen))) := by
  have hsecret : secretLen = 39 := rfl
  have hname : nameMax = 64 := rfl
  have hpw : pwMax = 128 := rfl
  rw [fields, add?_eq (by omega), bind_some, add?_eq (by omega), bind_some]
  split
  · rfl
  · rw [slice?_eq (by omega) (by omega), bind_some, slice?_eq (by omega) (by omega), bind_some,
      slice?_eq (by omega) (by omega), bind_some]

theorem length_reqNew (h : ¬ reqLen0 req + reqLen1 req + secretLen > (reqPayload req).length) :
    (reqNew req).length = secretLen := by
  rw [reqNew, length_slice (Nat.le_of_not_lt h), Nat.add_sub_cancel_left]

/-- how a request ends: answered, the files changed as it may change them, or changed so if a change is
answered with 0; nothing told of a hash. -/
def Answered (uid : Nat) (req : Bytes) (fs : Files) (r : Option (Bytes × Files)) : Prop :=
  ∃ reply fs', r = some (reply, fs') ∧ (fs' ≠ fs ∨ reqOp req ≠ acctopSalt ∧ reply = status 0 →
      Changes uid (reqName req) (reqProof req) (reqNew req) fs fs') ∧ Discreet uid (reqName req) fs reply

theorem status_eq_zero {code : Nat} (h : code ∈ codes) (heq : status code = status 0) : code = 0 := by
  have hall : ∀ c ∈ codes, status c = status 0 → c = 0 := by decide
  exact hall code h heq

theorem Answered.refused {code : Nat} (h : code ∈ refusals) : Answered uid req fs (some (status code, fs)) := by
  have hcode := List.mem_cons_of_mem 0 h
  refine ⟨status code, fs, rfl, ?_, .inl ⟨code, hcode, rfl⟩⟩
  rintro (hne | ⟨-, hzero⟩)
  · exact absurd rfl hne
  · exact absurd (status_eq_zero hcode hzero) (ne_zero_of_mem_refusals h)

theorem Ends.answered {r : Option (Nat × Files)}
    (h : Ends uid (reqName req) (reqProof req) (reqNew req) fs r) : Answered uid req fs (replied r) := by
  obtain ⟨code, fs', rfl, hcode, hchanges⟩ := h
  refine ⟨status code, fs', rfl, fun hdone => hchanges ?_, .inl ⟨code, hcode, rfl⟩⟩
  exact hdone.imp_right fun hzero => status_eq_zero hcode hzero.2

theorem handle_long (hs : Hashes) (packed : Nat) (fs : Files) (h : ¬ req.length < reqHdr) :
    handle hs packed req fs =
      if packed = getIdErr then some (status errDenied, fs)
      else if reqOp req = acctopPasswd then
        if reqLen0 req > nameMax ∨ (reqLen1 req ≠ 0 ∧ reqLen1 req ≠ digestLen) then
          some (status errBadRequest, fs)
        else
          (fields (reqPayload req) (reqLen0 req) (reqLen1 req)).bind fun
            | none => some (status errBadRequest, fs)
            | some (name, old, new) => replied (changePassword (packed % 2 ^ 32) name old new fs)
      else if reqOp req = acctopSalt then
        if reqLen0 req > nameMax ∨ reqLen0 req > (reqPayload req).length then some (status errBadRequest, fs)
        else
          (slice? (reqPayload req) 0 (reqLen0 req)).bind fun name =>
            (reportSalt (packed % 2 ^ 32) name fs).map (·, fs)
      else if reqOp req = acctopUpgrade then
        if reqLen0 req > nameMax ∨ reqLen0 req = 0 ∨ reqLen1 req > pwMax then some (status errBadRequest, fs)
        else
          (fields (reqPayload req) (reqLen0 req) (reqLen1 req)).bind fun
            | none => some (status errBadRequest, fs)
            | some (name, pw, new) => replied (upgrade hs (packed % 2 ^ 32) name pw new fs)
      else some (status errBadRequest, fs) := by
  have hhdr : reqHdr = 40 := rfl
  rw [handle, if_neg h, readU64?_eq (by omega), bind_some, readU64?_eq (by omega), bind_some,
    readU64?_eq (by omega), bind_some, slice?_eq (by omega) le_rfl, bind_some]
  rfl

theorem handle_answered (hs : Hashes) (packed : Nat) (req : Bytes) (fs : Files) :
    Answered (packed % 2 ^ 32) req fs (handle hs packed req fs) := by
  by_cases hlen : req.length < reqHdr
  · rw [handle, if_pos hlen]
    exact .refused (by decide)
  rw [handle_long hs packed fs hlen]
  split
  · exact .refused (by decide)
  split
  · -- a password change
    split
    · exact .refused (by decide)
    next hbound =>
    rw [not_or, not_lt] at hbound
    have hproof : reqLen1 req ≤ pwMax := by
      have hpw : pwMax = 128 := rfl
      have hdigest : digestLen = 32 := rfl
      omega
    rw [fields_eq hbound.1 hproof]
    split
    · exact .refused (by decide)
    next hroom =>
    exact (changePassword_spec _ (reqName req) (reqProof req) fs (length_reqNew hroom)).answered
  split
  · -- a salt
    next hop =>
    split
    · exact .refused (by decide)
    next hbound =>
    rw [not_or, not_lt, not_lt] at hbound
    rw [slice?_eq (zero_le _) hbound.2, bind_some]
    obtain ⟨reply, hreply, hdiscreet⟩ := reportSalt_spec (packed % 2 ^ 32) (reqName req) fs
    refine ⟨reply, fs, ?_, ?_, hdiscreet⟩
    · change (reportSalt (packed % 2 ^ 32) (reqName req) fs).map (·, fs) = _
      rw [hreply, map_some]
    · rintro (hne | ⟨hchange, -⟩)
      · exact absurd rfl hne
      · exact absurd hop hchange
  split
  · -- an upgrade
    split
    · exact .refused (by decide)
    next hbound =>
    rw [not_or, not_or, not_lt, not_lt] at hbound
    rw [fields_eq hbound.1 hbound.2.2]
    split
    · exact .refused (by decide)
    next hroom =>
    exact (upgrade_spec hs _ (reqName req) (reqProof req) fs (length_reqNew hroom)).answered
  · exact .refused (by decide)

theorem handle_twin (hs : Hashes) (packed : Nat) {fs₁ fs₂ : Files} (h : Twin fs₁ fs₂)
    (hop : reqOp req = acctopSalt) :
    (handle hs packed req fs₁).map Prod.fst = (handle hs packed req fs₂).map Prod.fst := by
  by_cases hlen : req.length < reqHdr
  · rw [handle, if_pos hlen, handle, if_pos hlen]
    rfl
  have hnot : ¬ acctopSalt = acctopPasswd := by decide
  rw [handle_long hs packed fs₁ hlen, handle_long hs packed fs₂ hlen, hop, if_neg hnot, if_neg hnot,
    if_pos rfl, if_pos rfl]
  split
  · rfl
  split
  · rfl
  cases slice? (reqPayload req) 0 (reqLen0 req) with
  | none => rfl
  | some name =>
    rw [bind_some, bind_some, h.reportSalt, map_map, map_map]
    rfl

/-- **accountd changes one password, for its owner.** No request panics; one that changes the files changes one
secret, for root or for its owner who shows the current one, and so does a change that is answered with 0. A
reply tells nothing of the hashes. -/
theorem handle_changes (hs : Hashes) (packed : Nat) (req : Bytes) (fs : Files) :
    ∃ reply fs', handle hs packed req fs = some (reply, fs') ∧
      (fs' ≠ fs → Changes (packed % 2 ^ 32) (reqName req) (reqProof req) (reqNew req) fs fs') ∧
      (reqOp req ≠ acctopSalt → reply = status 0 →
        Changes (packed % 2 ^ 32) (reqName req) (reqProof req) (reqNew req) fs fs') ∧
      Discreet (packed % 2 ^ 32) (reqName req) fs reply ∧
      (reqOp req = acctopSalt → ∀ fs₂, Twin fs fs₂ → (handle hs packed req fs₂).map Prod.fst = some reply) := by
  obtain ⟨reply, fs', hhandle, hchanges, hdiscreet⟩ := handle_answered hs packed req fs
  refine ⟨reply, fs', hhandle, fun hne => hchanges (.inl hne), fun hop hzero =>
    hchanges (.inr ⟨hop, hzero⟩), hdiscreet,
    ?_⟩
  intro hop fs₂ htwin
  rw [← handle_twin hs packed htwin hop, hhandle, map_some]

/-- `u`, user 7, and `v`, with a secret each. -/
def twoUsers : Files where
  passwd := some [117, 58, 55, 58, 57, 58, 47, 10, 118, 58, 56, 58, 57, 58, 47, 10]
  shadow := some ([118, 58, 58] ++ List.replicate 64 49 ++ [10, 117, 58, 58] ++ List.replicate 64 48 ++ [10])

/-- user 7 shows the hash of zeros that is on file and sets a salt and a hash of ones: it is on file, and `v`
has its secret as before. -/
theorem handle_changes_own :
    let req := le 8 acctopPasswd ++ le 8 1 ++ le 8 32 ++ le 16 0 ++
      ([117] ++ List.replicate 32 0 ++ List.replicate 39 1)
    ∃ fs', handle ⟨fun _ _ => [], fun _ _ => []⟩ 7 req twoUsers = some (status 0, fs') ∧
      findSecretByName (fs'.shadow.getD []) [117] = some ⟨.v2, List.replicate 7 1, List.replicate 32 1⟩ ∧
      findSecretByName (fs'.shadow.getD []) [118] = findSecretByName (twoUsers.shadow.getD []) [118] := by
  intro req
  have hzero : (handle ⟨fun _ _ => [], fun _ _ => []⟩ 7 req twoUsers).map Prod.fst = some (status 0) := by
    decide +kernel
  have hop : reqOp req ≠ acctopSalt := by decide +kernel
  have hname : (resolve (twoUsers.passwd.getD []) 7 (reqName req)).map Account.name =
    some [117] := by decide +kernel
  have hnew : (reqNew req).take saltV2 = List.replicate 7 1 ∧ (reqNew req).drop saltV2 =
      List.replicate 32 1 := by
    decide +kernel
  obtain ⟨reply, fs', hhandle, -, hdone, -⟩ := handle_changes ⟨fun _ _ => [], fun _ _ => []⟩ 7 req twoUsers
  rw [hhandle] at hzero
  cases some.inj hzero
  obtain ⟨⟨a, ha, -, hself, hother⟩, -⟩ := hdone hop rfl
  have hu : a.name = [117] := by
    rw [show 7 % 2 ^ 32 = 7 from rfl] at ha
    rw [ha] at hname
    exact some.inj hname
  rw [hu, hnew.1, hnew.2] at hself
  rw [hu] at hother
  exact ⟨fs', hhandle, hself, hother [118] (by decide)⟩

end Ouroboros.Accounts.Accountd
