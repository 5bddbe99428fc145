import Ouroboros.Accounts.Rewrite
import Ouroboros.Netd.Peers

/-!
# netd: the files of keys

The `clusterkeys` crate: the file of authorized machines, one `name ip key [root]` a line, and the
registry of users, one `name key` a line. A user whose line cannot be read is not the same as no user.

* `lookupUser`  what the registry says of a user;
* `onNewLine`  a file with more lines after its own;
* `keys_not_widened`  **lines that are added take away and never give**.
-/

namespace Ouroboros.Netd

open List

/-! ## The registry of users -/

inductive UserLookup where
  | registered (key : Bytes)
  | unregistered
  | broken
deriving DecidableEq, Repr

/-- `parse_user_key`: a key, and nothing after it but a note. -/
def parseUserKey (rest : Bytes) : Option Bytes := do
  let (keyText, after) ← splitField rest
  let after := trim after
  if after ≠ [] ∧ after.head? ≠ some 35 then none else decodeKey keyText

/-- what a line says of a user: nothing, a key, or something that cannot be read. -/
def userLine (name raw : Bytes) : Option (Option Bytes) :=
  let line := trim raw
  if line = [] ∨ line.head? = some 35 then none
  else
    match splitField line with
    | none => none
    | some (who, rest) => if who ≠ name then none else some (parseUserKey rest)

/-- the loop of `lookup_user`, with the key that it has found. -/
def lookupFrom (name : Bytes) : List Bytes → Option Bytes → UserLookup
  | [], found => found.elim .unregistered .registered
  | raw :: rest, found =>
    match userLine name raw with
    | none => lookupFrom name rest found
    | some none => .broken
    | some (some key) => if found.any (· ≠ key) then .broken else lookupFrom name rest (some key)

/-- `lookup_user`; `whole` says that `users` is the entire file. -/
def lookupUser (users name : Bytes) (whole : Bool) : UserLookup :=
  if !whole then .broken else lookupFrom name (users.splitOn 10) none

/-! ## Lines that are added -/

def onNewLine (f g : Bytes) : Bytes := if f = [] ∨ f.getLast? = some 10 then f ++ g else f ++ 10 :: g

/-- a lookup that reads line by line and makes nothing of an empty line sees the new lines after the old. -/
theorem lines_onNewLine {β : Type} (run : List Bytes → β)
    (hrun : ∀ ls ms, run (ls ++ [] :: ms) = run (ls ++ ms)) (f g : Bytes) :
    run ((onNewLine f g).splitOn 10) = run (f.splitOn 10 ++ g.splitOn 10) := by
  unfold onNewLine
  split
  · next hfresh =>
    rcases hfresh with rfl | hlast
    · exact (hrun [] _).symm
    obtain ⟨body, rfl⟩ := getLast?_eq_some_iff.1 hlast
    have hbody : (body ++ [10]).splitOn (10 : UInt8) = body.splitOn 10 ++ [[]] :=
      Accounts.splitOn_append_newline body []
    rw [append_assoc, singleton_append, hbody, append_assoc, singleton_append, hrun]
    exact congrArg run (Accounts.splitOn_append_newline body g)
  · exact congrArg run (Accounts.splitOn_append_newline f g)

theorem peers_onNewLine (f g : Bytes) : peers (onNewLine f g) = peers f ++ peers g := by
  have h := lines_onNewLine (fun ls => ls.filterMap parseLine) ?_ f g
  · exact h.trans filterMap_append
  · intro ls ms
    rw [filterMap_append, filterMap_append, filterMap_cons_none]
    rfl

/-- one step of `find_by_key`. -/
def takeKey (key : Bytes) (hit : Option Peer) (p : Peer) : Option Peer :=
  if p.key = key then
    match hit with
    | some first => some { first with root := first.root && p.root }
    | none => some p
  else hit

theorem findByKey_eq (f key : Bytes) : findByKey f key = (peers f).foldl (takeKey key) none := rfl

/-- what counts of a peer: the key may come in, and with what flag. -/
def grant (key : Bytes) (acc : Option Bool) (p : Peer) : Option Bool :=
  if p.key = key then some (acc.getD true && p.root) else acc

theorem findByKey_root (f key : Bytes) : (findByKey f key).map (·.root) = (peers f).foldl (grant key) none := by
  rw [findByKey_eq]
  refine (foldl_hom (Option.map Peer.root) fun hit p => ?_).symm
  unfold grant takeKey
  split
  · cases hit with
    | none => exact congrArg some (Bool.true_and _)
    | some first => rfl
  · rfl

instance (key : Bytes) : RightCommutative (grant key) where
  right_comm acc p q := by
    unfold grant
    split
    · split
      · exact congrArg some (Bool.and_right_comm ..)
      · rfl
    · split <;> rfl

theorem foldl_grant_false (key : Bytes) (ps : List Peer) : ps.foldl (grant key) (some false) = some false := by
  induction ps with
  | nil => rfl
  | cons p ps ih =>
    rw [foldl_cons, grant]
    split
    · exact ih
    · exact ih

def UserLookup.andThen (u : UserLookup) (next : Option Bytes → UserLookup) : UserLookup :=
  match u with
  | .registered k => next (some k)
  | .unregistered => next none
  | .broken => .broken

theorem lookupFrom_append (name : Bytes) (ls ms : List Bytes) (found : Option Bytes) :
    lookupFrom name (ls ++ ms) found = (lookupFrom name ls found).andThen (lookupFrom name ms) := by
  induction ls generalizing found with
  | nil => cases found <;> rfl
  | cons raw ls ih =>
    rw [cons_append, lookupFrom, lookupFrom]
    split
    · exact ih _
    · rfl
    split
    · rfl
    · exact ih _

theorem lookupFrom_some (name : Bytes) (ls : List Bytes) (k : Bytes) :
    lookupFrom name ls (some k) = .registered k ∨ lookupFrom name ls (some k) = .broken := by
  induction ls with
  | nil => exact .inl rfl
  | cons raw ls ih =>
    rw [lookupFrom]
    split
    · exact ih
    · exact .inr rfl
    split
    · exact .inr rfl
    next hk =>
    rw [Option.any_some, decide_eq_true_eq, not_not] at hk
    rwa [← hk]

theorem lookupUser_onNewLine (f g name : Bytes) (whole : Bool) : lookupUser (onNewLine f g) name whole =
    (lookupUser f name whole).andThen (lookupFrom name (g.splitOn 10)) := by
  cases whole with
  | false => rfl
  | true =>
    have h := lines_onNewLine (lookupFrom name · none) ?_ f g
    · exact h.trans (lookupFrom_append ..)
    · intro ls ms
      rw [lookupFrom_append, lookupFrom_append]
      rfl

/-- **Lines that are added to a file of keys take away and never give**: no machine gets root, a user's key
stays or is refused, and the order of the lines does not matter. -/
theorem keys_not_widened (f g f' key name : Bytes) (whole early : Bool) :
    ((findByKey f key).map (·.root) = some false → (findByKey (onNewLine f g) key).map (·.root) = some false) ∧
    (∀ k, lookupUser f name (whole || early) = .registered k →
      lookupUser (onNewLine f g) name whole = .registered k ∨ lookupUser (onNewLine f g) name whole = .broken) ∧
    (lookupUser f name (whole || early) = .broken → lookupUser (onNewLine f g) name whole = .broken) ∧
    ((f.splitOn 10).Perm (f'.splitOn 10) → (findByKey f key).map (·.root) =
      (findByKey f' key).map (·.root)) := by
  refine ⟨fun h => ?_, fun k h => ?_, fun h => ?_, fun h => ?_⟩
  · rw [findByKey_root] at h ⊢
    rw [peers_onNewLine, foldl_append, h, foldl_grant_false]
  · cases whole with
    | false => exact .inr rfl
    | true =>
      rw [lookupUser_onNewLine, show lookupUser f name true = .registered k from h]
      exact lookupFrom_some name _ k
  · cases whole with
    | false => rfl
    | true =>
      rw [lookupUser_onNewLine, show lookupUser f name true = .broken from h]
      rfl
  · rw [findByKey_root, findByKey_root]
    exact (h.filterMap parseLine).foldl_eq none

end Ouroboros.Netd
