import Ouroboros.Accounts.Database
import Ouroboros.Netd.Frame

/-!
# netd: who a name is

netd reads `/etc/passwd` a chunk at a time, through a line buffer.

* `forEachLine`  the lines of a file, shown one by one until one is taken;
* `mapUser`, `callerName`  a remote caller's name to ids of this machine, a local uid to its name;
* `forEachLine_fileReads`  on a whole file: a search of its readable lines;
* `users_readable`  both lookups are the `accounts` crate's, on the readable lines.
-/

namespace Ouroboros.Netd

open Buffer Lines List Accounts

/-! ## Lines of a file -/

inductive LineScan where
  | found
  | notFound
  | unreadable
  | noDatabase
deriving DecidableEq, Repr

def msgErrFull : Nat := u64Max - 20

/-- `transient_fs_failure`: failures that clear on their own. -/
def transientFsFailure (r : Nat) : Bool := r == noFs || r == taskErrNoSuchTask || r == fsError || r == msgErrFull

def chunkLen : Nat := 512

/-- the line buffer of `for_each_line`: carriage returns are skipped, 128 bytes fit. -/
def lineFormat : Format UInt8 := ⟨10, (· == 13), 128, Accounts.newline_ne_return⟩

abbrev Reads := Nat → Except Nat Bytes

variable {β : Type} {fuel : Nat} {γ : Type}

def shown (f : Bytes → Option β) (line : Bytes) : Option β := if line = [] then none else f line

/-- the loop of `for_each_line`; `none` only without fuel for the next read. -/
def forEachLineFrom (f : Bytes → Option β) (read : Reads) :
    Nat → Nat → Reader UInt8 → Option (LineScan × Option β)
  | 0, _, _ => none
  | fuel + 1, off, s =>
    match read off with
    | .error r => some (if transientFsFailure r then .unreadable else .noDatabase, none)
    | .ok answer =>
      let data := answer.take chunkLen
      match feed lineFormat (shown f) s data with
      | .inl b => some (.found, some b)
      | .inr s =>
        if data.length < chunkLen then
          match s.offer (shown f) with
          | some b => some (.found, some b)
          | none => some (.notFound, none)
        else forEachLineFrom f read fuel (off + data.length) s

def forEachLine (f : Bytes → Option β) (read : Reads) (fuel : Nat) : Option (LineScan × Option β) :=
  forEachLineFrom f read fuel 0 .start

/-! ## Users -/

def trimNul (b : Bytes) : Bytes := (b.reverse.dropWhile (· == 0)).reverse

/-- `proxy_id` has an identity word for these ids. -/
def Proxy.fits (p : Proxy) : Bool := p.uid ≤ 65535 && p.gid ≤ 65535

inductive Refused where
  | scan (s : LineScan)
  | rootSquash
deriving DecidableEq, Repr

def toProxy (a : Accounts.Account) : Proxy := ⟨a.uid, a.gid⟩

/-- `map_user`: the ids of the account a header names, unless they are root's and the peer may not be
root. -/
def mapUser (read : Reads) (fuel : Nat) (who : Bytes) (peerRoot : Bool) : Option (Except Refused Proxy) :=
  let name := trimNul who
  if name = [] then some (.error (.scan .notFound))
  else
    match forEachLine (fun line => (Accounts.findUserByName line name).map toProxy) read fuel with
    | none => none
    | some (scan, found) =>
      match found.filter Proxy.fits with
      | some p =>
        if (p.uid = 0 ∨ p.gid = 0) ∧ !peerRoot then some (.error .rootSquash) else some (.ok p)
      | none => if scan ≠ .found then some (.error (.scan scan)) else some (.error (.scan .notFound))

/-- the name `caller_name` takes off a line: one that fits the header. -/
def headerName (line : Bytes) (uid : Nat) : Option Bytes := (Accounts.findUserByUid line uid).bind fun a =>
    if a.name ≠ [] ∧ a.name.length ≤ npNameLen then some a.name else none

/-- `caller_name` for the packed credential of the sender. -/
def callerName (read : Reads) (fuel packed : Nat) : Option (LineScan × Option Bytes) :=
  if packed = getIdErr then some (.notFound, none)
  else forEachLine (fun line => headerName line (packed % 2 ^ 32)) read fuel

/-! ## A whole file -/

def fileReads (file : Bytes) : Reads := fun off => .ok (slice file off (off + chunkLen))

def concluded : Option β → LineScan × Option β
  | some b => (.found, some b)
  | none => (.notFound, none)

theorem forEachLineFrom_fileReads (f : Bytes → Option β) (file : Bytes) {off : Nat} (s : Reader UInt8)
    (hfuel : (file.length - off) / chunkLen < fuel) : forEachLineFrom f (fileReads file) fuel off s =
      some (concluded (finish (shown f) (feed lineFormat (shown f) s (file.drop off)))) := by
  have hchunk : chunkLen = 512 := rfl
  induction fuel generalizing off s with
  | zero => exact absurd hfuel (Nat.not_lt_zero _)
  | succ fuel ih =>
    have hdata : (slice file off (off + chunkLen)).take chunkLen = (file.drop off).take chunkLen := by
      rw [slice, drop_take, Nat.add_sub_cancel_left, take_take, Nat.min_self]
    have hsplit := take_append_drop chunkLen (file.drop off)
    set data := (file.drop off).take chunkLen with hd
    have hlen : data.length = min chunkLen (file.length - off) := by
      rw [hd, length_take, length_drop]
    rw [← hsplit, feed_append]
    simp only [forEachLineFrom, fileReads, hdata]
    cases feed lineFormat (shown f) s data with
    | inl b => rfl
    | inr s' =>
      dsimp only
      by_cases hshort : data.length < chunkLen
      · -- a short chunk is the last one: nothing follows it
        have hrest : (file.drop off).drop chunkLen = [] := by
          apply drop_eq_nil_of_le
          rw [length_drop]
          omega
        rw [if_pos hshort, hrest]
        change _ = some (concluded (s'.offer (shown f)))
        cases s'.offer (shown f) <;> rfl
      · rw [if_neg hshort, drop_drop, show data.length = chunkLen by omega]
        refine ih s' ?_
        rw [hchunk] at hfuel ⊢
        omega

/-- **A file read in full chunks is searched by its readable lines.** -/
theorem forEachLine_fileReads {f : Bytes → Option β} {file : Bytes} (hfuel : file.length / chunkLen < fuel) :
    forEachLine f (fileReads file) fuel =
      some (concluded (((readable lineFormat file).splitOn 10).findSome? (shown f))) := by
  have hnil : shown f [] = none := rfl
  have hsearch := findSome?_readable lineFormat hnil file
  have hscan := finish_feed lineFormat (shown f) file
  rw [forEachLine, forEachLineFrom_fileReads f file .start (by simpa using hfuel), drop_zero, hscan, ← hsearch]
  rfl

/-! ## Agreement with the account database -/

theorem findLine_line {line : Bytes} (h : (10 : UInt8) ∉ line) (f : Bytes → Option β) :
    Accounts.findLine line f = shown f line := by
  rw [findLine, show newline = 10 from rfl, splitOn_eq_singleton h, findSome?_singleton]
  rfl

theorem findSome?_congr_mem {f g : γ → Option β} {l : List γ} (h : ∀ x ∈ l, f x = g x) :
    l.findSome? f = l.findSome? g := by
  induction l with
  | nil => rfl
  | cons x xs ih =>
    rw [findSome?_cons, findSome?_cons, h x mem_cons_self, ih fun y hy => h y (mem_cons_of_mem _ hy)]

theorem findSome?_shown_findLine (file : Bytes) (f : Bytes → Option β) :
    (file.splitOn 10).findSome? (shown fun line => Accounts.findLine line f) = Accounts.findLine file f := by
  refine (findSome?_congr_mem fun line hline => ?_).trans rfl
  unfold shown
  split
  · rfl
  · next hne =>
    exact (findLine_line (mem_splitOn hline).1 f).trans (if_neg hne)

theorem findSome?_byName (file name : Bytes) :
    (file.splitOn 10).findSome? (shown fun line => Accounts.findUserByName line name) =
      Accounts.findUserByName file name :=
  findSome?_shown_findLine file _

theorem findSome?_byUid (file : Bytes) (uid : Nat) :
    (file.splitOn 10).findSome? (shown fun line => Accounts.findUserByUid line uid) =
      Accounts.findUserByUid file uid :=
  findSome?_shown_findLine file _

theorem shown_map (f : Bytes → Option β) (g : β → γ) :
    (shown fun line => (f line).map g) = Option.map g ∘ shown f := by
  funext line
  by_cases h : line = [] <;> simp [shown, h]

theorem findSome?_bind {δ : Type} {f : γ → Option β} {k : β → Option δ} {l : List γ} {b : β} {d : δ}
    (hf : l.findSome? f = some b) (hk : k b = some d) : l.findSome? (fun x => (f x).bind k) = some d := by
  obtain ⟨before, x, after, rfl, hx, hbefore⟩ := findSome?_eq_some_iff.1 hf
  refine findSome?_eq_some_iff.2 ⟨before, x, after, rfl, ?_, ?_⟩
  · rw [hx, Option.bind_some, hk]
  · intro y hy
    rw [hbefore y hy, Option.bind_none]

/-- **netd and the account database agree on the readable lines of `/etc/passwd`.** -/
theorem users_readable (file who : Bytes) {fuel : Nat} (hfuel : file.length / chunkLen < fuel) :
    mapUser (fileReads file) fuel who true =
      some (match ((Accounts.findUserByName (readable lineFormat file) (trimNul who)).map toProxy).filter
        Proxy.fits with
        | some p => .ok p
        | none => .error (.scan .notFound)) ∧
    ∀ packed a, packed ≠ getIdErr →
      Accounts.findUserByUid (readable lineFormat file) (packed % 2 ^ 32) = some a →
      a.name.length ≤ npNameLen →
      callerName (fileReads file) fuel packed = some (.found, some a.name) := by
  refine ⟨?_, ?_⟩
  · unfold mapUser
    by_cases hname : trimNul who = []
    · rw [if_pos hname, hname, findUserByName_nil]
      rfl
    have hscan := forEachLine_fileReads (f := fun line => (findUserByName line (trimNul who)).map toProxy) hfuel
    rw [shown_map, ← map_findSome?, findSome?_byName] at hscan
    simp only [if_neg hname, hscan]
    cases (findUserByName (readable lineFormat file) (trimNul who)).map toProxy with
    | none => rfl
    | some p =>
      simp only [concluded]
      cases Option.filter Proxy.fits (some p) with
      | none => rfl
      | some q => simp
  · intro packed a hpacked hfound hfits
    obtain ⟨hne, -⟩ := findLine_parseAccount hfound
    have hscan := forEachLine_fileReads (f := fun line => headerName line (packed % 2 ^ 32)) hfuel
    have hshown : (shown fun line => headerName line (packed % 2 ^ 32)) =
        fun line => (shown (fun line => findUserByUid line (packed % 2 ^ 32)) line).bind fun a =>
          if a.name ≠ [] ∧ a.name.length ≤ npNameLen then some a.name else none := by
      funext line
      unfold shown headerName
      split <;> rfl
    have hfind := (findSome?_byUid (readable lineFormat file) (packed % 2 ^ 32)).trans hfound
    rw [callerName, if_neg hpacked, hscan, hshown, findSome?_bind hfind (if_pos ⟨hne, hfits⟩)]
    rfl

/-- four accounts in two chunks, the second on a line that is too long. -/
def usersFile : Bytes :=
  text "root:0:0:/\neve:6:6:/" ++ replicate 600 120 ++ text "\nann:7:9:/home/ann\nbob:8:9:/home/bob\n"

theorem users_readable_ann : mapUser (fileReads usersFile) 2 (text "ann\x00") true = some (.ok ⟨7, 9⟩) ∧
      mapUser (fileReads usersFile) 2 (text "eve") true = some (.error (.scan .notFound)) ∧
      callerName (fileReads usersFile) 2 8 = some (.found, some (text "bob")) := by
  have hfuel : usersFile.length / chunkLen < 2 := by decide +kernel
  refine ⟨(users_readable usersFile (text "ann\x00") hfuel).1.trans (by decide +kernel),
    (users_readable usersFile (text "eve") hfuel).1.trans (by decide +kernel), ?_⟩
  exact (users_readable usersFile [] hfuel).2 8 ⟨text "bob", 8, 9, text "/home/bob", none⟩
    (by decide) (by decide +kernel)
    (by decide +kernel)

def longFile : Bytes := text "ann:7:9:/" ++ replicate 130 120

def crFile : Bytes := text "ann:7:9:/:" ++ replicate 16 48 ++ [Accounts.colon] ++ replicate 64 48 ++ [13, 10]

/-- login finds the first account and netd does not; netd finds the second and login does not. -/
theorem users_differ : (Accounts.findUserByName longFile (text "ann")).map toProxy = some ⟨7, 9⟩ ∧
      mapUser (fileReads longFile) 1 (text "ann") true = some (.error (.scan .notFound)) ∧
      Accounts.findUserByName crFile (text "ann") = none ∧
      mapUser (fileReads crFile) 1 (text "ann") true = some (.ok ⟨7, 9⟩) := by
  refine ⟨?_, ?_, ?_, ?_⟩ <;> decide +kernel

end Ouroboros.Netd
