import Ouroboros.Netd.Frame
import Ouroboros.Netd.KeyFiles

/-!
# netd: lines of keys that are written and read back

What `format_line` and `format_user_line` write, and what the lookups make of it.

* `formatLine`, `formatUserLine`  a line of each file;
* `Word`  a field that the readers take whole;
* `parseLine_peerText`  a line of fields is read as it was written;
* `keys_readBack_iff`  when a line that is added is read back.
-/

namespace Ouroboros.Netd

abbrev Key := Vector UInt8 keyLen

abbrev Address := Vector UInt8 4

open List Hex

/-! ## Writing a line -/

def containsSpace (s : Bytes) : Bool := s.any fun c => c == 32 || c == 9 || c == 13 || c == 10

def octetText (v : UInt8) : Bytes :=
  (if v ≥ 100 then [48 + v / 100] else []) ++ (if v ≥ 10 then [48 + v / 10 % 10] else []) ++ [48 + v % 10]

def formatIp : Bytes → Bytes
  | [] => []
  | [v] => octetText v
  | v :: rest => octetText v ++ 46 :: formatIp rest

def unwritable (max : Nat) (name : Bytes) : Bool :=
  name = [] || max < name.length || containsSpace name || name.head? = some 35

def peerText (name ipText keyText : Bytes) (root : Bool) : Bytes :=
  name ++ 32 :: (ipText ++ 32 :: (keyText ++ if root then 32 :: rootWord else []))

def formatLine (cap : Nat) (name : Bytes) (ip : Address) (key : Key) (root : Bool) : Option Bytes :=
  if unwritable nameMax name then none
  else
    let line := peerText name (formatIp ip.toList) (Hex.encode key.toList) root
    if cap < line.length then none else some line

def formatUserLine (cap : Nat) (name : Bytes) (key : Key) : Option Bytes :=
  if unwritable npNameLen name then none
  else
    let line := name ++ 32 :: Hex.encode key.toList
    if cap < line.length then none else some line

/-! ## Lines that are read back -/

structure Word (w : Bytes) : Prop where
  ne_nil : w ≠ []
  plain : ∀ c ∈ w, isSpace c = false

variable {w s : Bytes}

theorem Word.reverse (h : Word w) : Word w.reverse :=
  ⟨reverse_ne_nil_iff.2 h.ne_nil, fun c hc => h.plain c (mem_reverse.1 hc)⟩

theorem Word.newline (h : Word w) : 10 ∉ w := by
  intro hc
  cases h.plain 10 hc

theorem Word.trimStart (h : Word w) (s : Bytes) : trimStart (w ++ s) = w ++ s := by
  obtain ⟨hne, hplain⟩ := h
  cases w with
  | nil => exact absurd rfl hne
  | cons c w => exact dropWhile_cons_of_neg (by rw [hplain c mem_cons_self]; exact Bool.false_ne_true)

theorem Word.trim {v l : Bytes} (hw : Word w) (hv : Word v) (hwl : w <+: l) (hvl : v <:+ l) : trim l = l := by
  obtain ⟨s, rfl⟩ := hwl
  obtain ⟨t, ht⟩ := hvl
  have hrev : (w ++ s).reverse = v.reverse ++ t.reverse := by rw [← ht, reverse_append]
  rw [Netd.trim, hw.trimStart, hrev, ← Netd.trimStart, hv.reverse.trimStart, ← hrev, reverse_reverse]

theorem Word.splitField (h : Word w) (hs : s.head?.all isSpace) : splitField (w ++ s) = some (w, s) := by
  have htake : (w ++ s).takeWhile (!isSpace ·) = w := by
    rw [takeWhile_append_of_pos fun c hc => by rw [h.plain c hc]; rfl]
    cases s with
    | nil => exact append_nil w
    | cons c s => rw [takeWhile_cons_of_neg (by simpa using hs), append_nil]
  have hdrop : (w ++ s).dropWhile (!isSpace ·) = s := by
    rw [dropWhile_append_of_pos fun c hc => by rw [h.plain c hc]; rfl]
    cases s with
    | nil => rfl
    | cons c s => exact dropWhile_cons_of_neg (by simpa using hs)
  rw [Netd.splitField, h.trimStart, if_neg (append_ne_nil_of_left_ne_nil h.ne_nil s), htake, hdrop]

theorem Word.field (h : Word w) (s : Bytes) : Netd.splitField (w ++ 32 :: s) = some (w, 32 :: s) :=
  h.splitField rfl

theorem splitField_space (s : Bytes) : splitField (32 :: s) = splitField s := rfl

theorem splitField_plain {rest : Bytes} (h : splitField s = some (w, rest)) : ∀ c ∈ w, isSpace c = false := by
  obtain ⟨-, heq⟩ := Option.ite_none_left_eq_some.1 h
  cases heq
  intro c hc
  simpa using all_eq_true.1 all_takeWhile c hc

theorem encode_word {key : Bytes} (h : key ≠ []) : Word (Hex.encode key) := by
  refine ⟨?_, fun c hc => ?_⟩
  · rw [← length_pos_iff_ne_nil, length_encode]
    have := length_pos_iff_ne_nil.2 h
    omega
  · have hspace : ∀ c, isSpace c → digit c = none := forall_byte (by decide +kernel)
    exact Bool.eq_false_iff.2 fun hs => digit_of_mem_encode hc (hspace c hs)

theorem octetText_spec (v : UInt8) : ((octetText v).all Accounts.isDigit ∧ (octetText v).all (!isSpace ·)) ∧
    Accounts.decimalFrom 0 (octetText v) = v.toNat ∧ 0 < (octetText v).length ∧ (octetText v).length ≤ 3 := by
  revert v
  exact forall_byte (by decide +kernel)

theorem parseIpFrom_digits {ds : Bytes} (cs out : Bytes) {v n : Nat} (hds : ds.all Accounts.isDigit)
    (hv : Accounts.decimalFrom v ds ≤ 255) (hn : n + ds.length ≤ 3) :
    parseIpFrom (ds ++ cs) out v n = parseIpFrom cs out (Accounts.decimalFrom v ds) (n + ds.length) := by
  induction ds generalizing v n with
  | nil => rfl
  | cons c ds ih =>
    rw [all_cons, Bool.and_eq_true] at hds
    rw [length_cons] at hn
    have hle := le_trans (Accounts.le_decimalFrom (v * 10 + (c.toNat - 48)) ds) hv
    have hnext := ih hds.2 hv (show n + 1 + ds.length ≤ 3 by omega)
    rw [cons_append, parseIpFrom, if_pos (show isDigit c from hds.1),
      Accounts.toNat_digit hds.1, if_neg (by omega),
      hnext, length_cons, Nat.add_right_comm]
    rfl

theorem parseIpFrom_octet (v : UInt8) (cs out : Bytes) :
    parseIpFrom (octetText v ++ cs) out 0 0 = parseIpFrom cs out v.toNat (octetText v).length := by
  obtain ⟨⟨hdigits, -⟩, hval, -, hlen⟩ := octetText_spec v
  have h := parseIpFrom_digits (v := 0) (n := 0) cs out hdigits (hval ▸ Nat.le_of_lt_succ v.toNat_lt) (by omega)
  rwa [hval, Nat.zero_add] at h

theorem parseIpFrom_dot (v : UInt8) (cs : Bytes) {out : Bytes} (hout : out.length < 3) :
    parseIpFrom (octetText v ++ 46 :: cs) out 0 0 = parseIpFrom cs (out ++ [v]) 0 0 := by
  have hlen := (octetText_spec v).2.2.1
  rw [parseIpFrom_octet, parseIpFrom, if_neg (by decide), if_pos rfl, if_neg (by omega), UInt8.ofNat_toNat]

theorem parseIp_formatIp (ip : Address) : parseIp (formatIp ip.toList) = some ip.toList := by
  obtain ⟨a, b, c, d, h⟩ := length_eq_four.1 ip.length_toList
  have hlast := parseIpFrom_octet d [] [a, b, c]
  have hlen := (octetText_spec d).2.2.1
  rw [append_nil, parseIpFrom, if_neg (by rintro (h | h); exacts [h rfl, by omega]), UInt8.ofNat_toNat] at hlast
  rw [h, parseIp, formatIp, parseIpFrom_dot a _ (by decide), formatIp, parseIpFrom_dot b _ (by simp), formatIp,
    parseIpFrom_dot c _ (by simp)]
  · exact hlast
  all_goals
    intro h
    cases h

theorem formatIp_word {ip : Bytes} (h : ip ≠ []) : Word (formatIp ip) := by
  have octet (v : UInt8) : Word (octetText v) := by
    obtain ⟨⟨-, hplain⟩, -, hpos, -⟩ := octetText_spec v
    exact ⟨length_pos_iff_ne_nil.1 hpos, fun c hc => by simpa using all_eq_true.1 hplain c hc⟩
  fun_induction formatIp ip with
  | case1 => exact absurd rfl h
  | case2 v => exact octet v
  | case3 v rest hrest ih =>
    refine ⟨append_ne_nil_of_left_ne_nil (octet v).ne_nil _, fun c hc => ?_⟩
    rcases mem_append.1 hc with hc | hc
    · exact (octet v).plain c hc
    rcases mem_cons.1 hc with rfl | hc
    · rfl
    · exact (ih fun hnil => hrest hnil).plain c hc

variable {cap : Nat} {name : Bytes} {ip : Address} {key : Key} {root : Bool} {line : Bytes}
    {max : Nat} {p : Peer}

theorem decodeKey_encode (key : Key) : decodeKey (Hex.encode key.toList) = some key.toList := by
  have hlen : (encode key.toList).length = 2 * keyLen := by rw [length_encode, key.length_toList]
  rw [decodeKey, if_neg (not_not.2 hlen), decode_encode]

theorem key_word (key : Key) : Word (Hex.encode key.toList) :=
  encode_word (ne_nil_of_length_eq_add_one key.length_toList)

theorem ip_word (ip : Address) : Word (formatIp ip.toList) :=
  formatIp_word (ne_nil_of_length_eq_add_one ip.length_toList)

theorem word_of_writable (h : ¬ unwritable max name) (hnul : 0 ∉ name) : Word name := by
  rw [Bool.not_eq_true] at h
  simp only [unwritable, Bool.or_eq_false_iff, decide_eq_false_iff_not, containsSpace, any_eq_false] at h
  refine ⟨h.1.1.1, fun c hc => ?_⟩
  have hne : c ≠ 0 := fun h0 => hnul (h0 ▸ hc)
  simpa [isSpace, hne] using h.1.2 c hc

theorem peerText_last {ipText keyText : Bytes} (hkey : Word keyText) :
    ∃ v, Word v ∧ v <:+ peerText name ipText keyText root := by
  cases root with
  | false => exact ⟨keyText, hkey, name ++ 32 :: (ipText ++ [32]), by simp [peerText]⟩
  | true =>
    have hroot : Word rootWord := ⟨by decide, by simp [rootWord, isSpace]⟩
    exact ⟨rootWord, hroot, name ++ 32 :: (ipText ++ 32 :: (keyText ++ [32])), by simp [peerText]⟩

theorem parseLine_peerText {ipText keyText ip key : Bytes} (hname : Word name) (hshort : name.length ≤ nameMax)
    (hnote : name.head? ≠ some 35) (hip : Word ipText) (hkey : Word keyText) (hip' : parseIp ipText = some ip)
    (hkey' : decodeKey keyText = some key) :
    parseLine (peerText name ipText keyText root) = some ⟨name, ip, key, root⟩ := by
  have hpeer : parsePeer (peerText name ipText keyText root) = some ⟨name, ip, key, root⟩ := by
    have hok : ¬ (name = [] ∨ name.length > nameMax) := not_or.2 ⟨hname.ne_nil, not_lt.2 hshort⟩
    have hflag : (if root then 32 :: rootWord else ([] : Bytes)).head?.all isSpace := by cases root <;> rfl
    rw [parsePeer, peerText, hname.field]
    simp only [Option.bind_eq_bind, Option.bind_some, splitField_space, hip.field,
      hkey.splitField hflag, if_neg hok,
      hip', hkey']
    cases root <;> rfl
  obtain ⟨v, hv, hlast⟩ := @peerText_last name root ipText keyText hkey
  have htrim : trim (peerText name ipText keyText root) = _ := hname.trim hv ( prefix_append _ _) hlast
  have hhead : (peerText name ipText keyText root).head? ≠ some 35 := by
    rwa [peerText, head?_append_of_ne_nil _ hname.ne_nil]
  have hne : peerText name ipText keyText root ≠ [] := append_ne_nil_of_left_ne_nil hname.ne_nil _
  rw [parseLine, classify, htrim, if_neg hne, if_neg hhead, hpeer]

theorem parseLine_formatLine (hname : Word name) (h : formatLine cap name ip key root = some line) :
    parseLine line = some ⟨name, ip.toList, key.toList, root⟩ := by
  obtain ⟨hok, h⟩ := Option.ite_none_left_eq_some.1 h
  obtain ⟨-, h⟩ := Option.ite_none_left_eq_some.1 h
  cases h
  simp only [unwritable, Bool.or_eq_true, decide_eq_true_eq, not_or] at hok
  exact parseLine_peerText hname (by omega) hok.2 (ip_word ip) (key_word key) (parseIp_formatIp ip)
    (decodeKey_encode key)

theorem parsePeer_plain (h : parsePeer s = some p) : ∀ c ∈ p.name, isSpace c = false := by
  obtain ⟨⟨name, rest⟩, hname, h⟩ := Option.bind_eq_some_iff.1 h
  obtain ⟨_, -, h⟩ := Option.bind_eq_some_iff.1 h
  obtain ⟨_, -, h⟩ := Option.bind_eq_some_iff.1 h
  obtain ⟨-, h⟩ := Option.ite_none_left_eq_some.1 h
  obtain ⟨-, h⟩ := Option.ite_none_left_eq_some.1 h
  obtain ⟨_, -, h⟩ := Option.bind_eq_some_iff.1 h
  obtain ⟨_, -, h⟩ := Option.bind_eq_some_iff.1 h
  cases h
  exact splitField_plain hname

theorem parseLine_plain (h : parseLine line = some p) : ∀ c ∈ p.name, isSpace c = false := by
  refine parsePeer_plain (s := trim line) ?_
  simp only [parseLine, classify] at h
  split at h
  · next q hq =>
    split at hq
    · cases hq
    split at hq
    · cases hq
    split at hq
    · next hparse =>
      cases hq
      exact hparse.trans h
    · cases hq
  · cases h

theorem newline_of_writable (h : ¬ unwritable max name) : 10 ∉ name := by
  intro hmem
  refine h ?_
  simp only [unwritable, Bool.or_eq_true]
  exact .inl (.inr (any_eq_true.2 ⟨10, hmem, rfl⟩))

theorem formatLine_newline (h : formatLine cap name ip key root = some line) : 10 ∉ line := by
  obtain ⟨hok, h⟩ := Option.ite_none_left_eq_some.1 h
  obtain ⟨-, h⟩ := Option.ite_none_left_eq_some.1 h
  cases h
  have hflag : 10 ∉ if root then 32 :: rootWord else ([] : Bytes) := by cases root <;> decide
  simp [peerText, newline_of_writable hok, (ip_word ip).newline, (key_word key).newline, hflag]

theorem findByKey_line (hline : 10 ∉ line) (f key : Bytes) :
    findByKey (onNewLine f line) key = (parseLine line).elim (findByKey f key)
      (takeKey key (findByKey f key)) := by
  have hpeers : peers line = (parseLine line).toList := by
    rw [peers, splitOn_eq_singleton hline]
    cases h : parseLine line with
    | none => exact filterMap_cons_none h
    | some p => exact filterMap_cons_some h
  rw [findByKey_eq, peers_onNewLine, foldl_append, ← findByKey_eq, hpeers]
  cases parseLine line <;> rfl

/-- a line that was written for a machine is read back, and no other machine is read differently. -/
def PeerReadBack (cap : Nat) (f name : Bytes) (ip : Address) (key : Key) (root : Bool) : Prop :=
  ∀ line, formatLine cap name ip key root = some line → findByKey f key.toList = none →
    findByKey (onNewLine f line) key.toList = some ⟨name, ip.toList, key.toList, root⟩ ∧
    ∀ other ≠ key.toList, findByKey (onNewLine f line) other = findByKey f other

theorem peerReadBack_iff (cap : Nat) (f name : Bytes) (ip : Address) (key : Key) (root : Bool) :
    PeerReadBack cap f name ip key root ↔
      (formatLine cap name ip key root ≠ none → findByKey f key.toList = none → 0 ∉ name) := by
  constructor
  · intro h hline hnone hnul
    obtain ⟨line, hline⟩ := Option.ne_none_iff_exists'.1 hline
    obtain ⟨hfound, -⟩ := h line hline hnone
    rw [findByKey_line (formatLine_newline hline), hnone] at hfound
    cases hparse : parseLine line with
    | none =>
      rw [hparse] at hfound
      cases hfound
    | some p =>
      obtain ⟨-, hp⟩ := Option.ite_none_right_eq_some.1 ((congrArg (Option.elim · _ _) hparse).symm.trans hfound)
      cases hp
      cases parseLine_plain hparse 0 hnul
  · intro h line hline hnone
    have hnul : 0 ∉ name := h (by rw [hline]; exact Option.some_ne_none _) hnone
    have hparse := parseLine_formatLine (word_of_writable (Option.ite_none_left_eq_some.1 hline).1 hnul) hline
    refine ⟨?_, fun other hother => ?_⟩
    · rw [findByKey_line (formatLine_newline hline), hparse, hnone]
      exact if_pos rfl
    · rw [findByKey_line (formatLine_newline hline), hparse]
      exact if_neg (Ne.symm hother)

/-! ## Users that are read back -/

def UserReadBack (cap : Nat) (f name : Bytes) (key : Key) : Prop :=
  ∀ line, formatUserLine cap name key = some line → lookupUser f name true = .unregistered →
    lookupUser (onNewLine f line) name true = .registered key.toList ∧
    ∀ other ≠ name, lookupUser (onNewLine f line) other true = lookupUser f other true

theorem userLine_plain {x : Option Bytes} (h : userLine name line = some x) : ∀ c ∈ name, isSpace c = false := by
  obtain ⟨-, h⟩ := Option.ite_none_left_eq_some.1 h
  split at h
  · cases h
  next who rest hsplit =>
  obtain ⟨hwho, -⟩ := Option.ite_none_left_eq_some.1 h
  exact not_not.1 hwho ▸ splitField_plain hsplit

theorem userLine_written (key : Key) (hname : Word name) (hnote : name.head? ≠ some 35) (who : Bytes) :
    userLine who (name ++ 32 :: Hex.encode key.toList) =
      if name ≠ who then none else some (some key.toList) := by
  have htrim : trim (name ++ 32 :: encode key.toList) = name ++ 32 :: encode key.toList :=
    hname.trim (key_word key) ( prefix_append _ _) ⟨name ++ [32], append_assoc name [32] _⟩
  have hkey := (key_word key).splitField (s := []) rfl
  rw [append_nil] at hkey
  have hparse : parseUserKey (32 :: encode key.toList) = some key.toList := by
    rw [parseUserKey, splitField_space, hkey]
    exact decodeKey_encode key
  rw [userLine, htrim, if_neg, hname.field]
  · simp only [hparse]
  · rw [head?_append_of_ne_nil _ hname.ne_nil]
    exact not_or.2 ⟨append_ne_nil_of_left_ne_nil hname.ne_nil _, hnote⟩

theorem lookupFrom_skip {who : Bytes} (h : userLine who line = none) (u : UserLookup) :
    u.andThen (lookupFrom who [line]) = u := by
  have hskip (found : Option Bytes) : lookupFrom who [line] found = found.elim .unregistered .registered := by
    rw [lookupFrom, h]
    rfl
  cases u with
  | broken => rfl
  | registered k => exact hskip _
  | unregistered => exact hskip _

theorem userReadBack_iff (cap : Nat) (f name : Bytes) (key : Key) : UserReadBack cap f name key ↔
      (formatUserLine cap name key ≠ none → lookupUser f name true = .unregistered → 0 ∉ name) := by
  have split {line : Bytes} (h : formatUserLine cap name key = some line) : ¬ unwritable npNameLen name ∧
      name ++ 32 :: encode key.toList = line ∧ line.splitOn 10 = [line] := by
    obtain ⟨hok, h⟩ := Option.ite_none_left_eq_some.1 h
    obtain ⟨-, h⟩ := Option.ite_none_left_eq_some.1 h
    cases h
    refine ⟨hok, rfl, splitOn_eq_singleton ?_⟩
    simp [newline_of_writable hok, (key_word key).newline]
  constructor
  · intro h hline hnone hnul
    obtain ⟨line, hline⟩ := Option.ne_none_iff_exists'.1 hline
    obtain ⟨hfound, -⟩ := h line hline hnone
    rw [lookupUser_onNewLine, hnone, (split hline).2.2] at hfound
    cases huser : userLine name line with
    | none => cases (lookupFrom_skip huser .unregistered).symm.trans hfound
    | some x => cases userLine_plain huser 0 hnul
  · intro h line hline hnone
    have hnul : 0 ∉ name := h (by rw [hline]; exact Option.some_ne_none _) hnone
    obtain ⟨hok, rfl, hlines⟩ := split hline
    have hnote : name.head? ≠ some 35 := by
      simp only [unwritable, Bool.or_eq_true, decide_eq_true_eq, not_or] at hok
      exact hok.2
    have huser := userLine_written key (word_of_writable hok hnul) hnote
    refine ⟨?_, fun other hother => ?_⟩
    · rw [lookupUser_onNewLine, hnone, hlines, UserLookup.andThen, lookupFrom, huser, if_neg (not_not.2 rfl)]
      rfl
    · rw [lookupUser_onNewLine, hlines, lookupFrom_skip]
      rw [huser, if_pos (Ne.symm hother)]

/-- **A line that is written to a file of keys is read back just if its name has no NUL**, which the
readers take for a space and the writers do not. -/
theorem keys_readBack_iff (cap : Nat) (f name : Bytes) (ip : Address) (key : Key) (root : Bool) :
    (PeerReadBack cap f name ip key root ↔
      (formatLine cap name ip key root ≠ none → findByKey f key.toList = none → 0 ∉ name)) ∧
    (UserReadBack cap f name key ↔
      (formatUserLine cap name key ≠ none → lookupUser f name true = .unregistered → 0 ∉ name)) :=
  ⟨peerReadBack_iff cap f name ip key root, userReadBack_iff cap f name key⟩

/-- the name `a` with a NUL after it is read as `a`. -/
theorem nul_not_readBack :
    let key : Key := .replicate keyLen 1
    ¬ PeerReadBack 160 [] [97, 0] #v[10, 0, 2, 15] key false ∧ ¬ UserReadBack 160 [] [97, 0] key := by
  refine ⟨fun h => ?_, fun h => ?_⟩
  · exact (peerReadBack_iff ..).1 h (by decide +kernel) (by decide +kernel) (by decide)
  · exact (userReadBack_iff ..).1 h (by decide +kernel) (by decide +kernel) (by decide)

end Ouroboros.Netd
