import Delegation.Realm
import Delegation.Span

/-!
# Range indexes

The index of a realm is an ascending array of spans with the dense codes of their country and
status.  `RangeIndex.lookup` searches it by halving: `startsUpTo` counts the entries that
start at or before an address, and the last of these is the only one that can contain it.

Main results: `startsUpTo_le`, and `first_le_of_lt_startsUpTo` and
`lt_first_of_startsUpTo_le` for entries in ascending order.
-/

namespace Delegation

/-- A span with the codes of its country and status. -/
structure Entry extends Span where
  countryCode : Nat
  statusCode : Nat
  deriving DecidableEq, Repr

/-- The entries of a realm in ascending order. -/
structure RangeIndex where
  realm : Realm
  entries : Array Entry
  deriving DecidableEq, Repr

namespace RangeIndex

/-- The index without entries. -/
def empty (r : Realm) : RangeIndex := ⟨r, #[]⟩

/-- The number of entries. -/
def size (x : RangeIndex) : Nat := x.entries.size

/-- The search between two positions: all entries before `low` start at or before the
address, and all from `high` on start behind it. -/
def searchBetween (entries : Array Entry) (address low high : Nat) (h : high ≤ entries.size) :
    Nat :=
  if hlt : low < high then
    let middle := (low + high) / 2
    have inside : middle < entries.size := by omega
    if entries[middle].first ≤ address then
      searchBetween entries address (middle + 1) high h
    else searchBetween entries address low middle (by omega)
  else low
termination_by high - low

/-- How many entries start at or before an address. -/
def startsUpTo (x : RangeIndex) (address : Nat) : Nat :=
  searchBetween x.entries address 0 x.entries.size (Nat.le_refl _)

/-- The entry that contains an address. -/
def lookup (x : RangeIndex) (address : Nat) : Option Entry :=
  match x.startsUpTo address with
  | 0 => none
  | position + 1 => x.entries[position]?.filter (·.contains address)

/-- The entry that contains an address of the index's family, given as a text. -/
def lookupText (x : RangeIndex) (text : String) : Except Fault (Option Entry) :=
  (x.realm.family.parse text).map x.lookup

/-- The number of addresses of all entries, at most `maxCount`. -/
def addressCount (x : RangeIndex) : Nat :=
  x.entries.toList.foldl (fun n e => min (n + e.size) maxCount) 0

/-- An entry as a row of bounds and codes. -/
structure Row where
  first : Nat
  last : Nat
  countryCode : Nat
  statusCode : Nat
  deriving DecidableEq, Repr

/-- The rows of an index of either family. -/
def rows (x : RangeIndex) : List Row :=
  x.entries.toList.map fun e => ⟨e.first, e.last, e.countryCode, e.statusCode⟩

/-- Accepts a bound of an entry that fits in 32 bits. -/
def narrow (e : Entry) (bound : Nat) : Except Fault Nat :=
  if bound < 2 ^ 32 then .ok bound
  else .error (.rangeOverflow .ipv4 e.first
    ("bound " ++ toString bound ++ " does not fit in 32 bits"))

/-- The row of an entry whose bounds fit in 32 bits. -/
def narrowRow (e : Entry) : Except Fault Row :=
  match narrow e e.first with
  | .error fault => .error fault
  | .ok first => (narrow e e.last).map fun last => ⟨first, last, e.countryCode, e.statusCode⟩

/-- The rows of an IPv4 index, whose bounds fit in 32 bits. -/
def narrowRows (x : RangeIndex) : Except Fault (List Row) :=
  if x.realm.family = .ipv4 then x.entries.toList.mapM narrowRow
  else .error (.familyMismatch .ipv4 x.realm.family)

section Search

variable {entries : Array Entry} {address low high : Nat} {h : high ≤ entries.size}

theorem searchBetween_le (hle : low ≤ high) :
    searchBetween entries address low high h ≤ high := by
  fun_induction searchBetween entries address low high h with
  | case1 low high h hlt middle inside hfirst ih => exact ih (by omega)
  | case2 low high h hlt middle inside hfirst ih => exact Nat.le_trans (ih (by omega)) (by omega)
  | case3 low high h hlt => exact hle

theorem startsUpTo_le (x : RangeIndex) (address : Nat) : x.startsUpTo address ≤ x.size :=
  searchBetween_le (Nat.zero_le _)

/-- The entries are in ascending order of their first addresses. -/
def Ascending (entries : Array Entry) : Prop :=
  ∀ i j (hi : i < entries.size) (hj : j < entries.size), i ≤ j → entries[i].first ≤ entries[j].first

theorem first_le_of_lt_searchBetween (hasc : Ascending entries)
    (hlow : ∀ i (hi : i < entries.size), i < low → entries[i].first ≤ address)
    {i : Nat} (hi : i < entries.size) (hlt : i < searchBetween entries address low high h) :
    entries[i].first ≤ address := by
  fun_induction searchBetween entries address low high h with
  | case1 low high h hlh middle inside hfirst ih =>
    refine ih (fun k hk hkm => ?_) hlt
    exact Nat.le_trans (hasc k middle hk (by omega) (by omega)) hfirst
  | case2 low high h hlh middle inside hfirst ih => exact ih hlow hlt
  | case3 low high h hlh => exact hlow i hi hlt

theorem lt_first_of_searchBetween_le (hasc : Ascending entries)
    (hhigh : ∀ i (hi : i < entries.size), high ≤ i → address < entries[i].first)
    {i : Nat} (hi : i < entries.size) (hle : searchBetween entries address low high h ≤ i)
    (hlh : low ≤ high) : address < entries[i].first := by
  fun_induction searchBetween entries address low high h with
  | case1 low high h hlt middle inside hfirst ih => exact ih hhigh hle (by omega)
  | case2 low high h hlt middle inside hfirst ih =>
    refine ih (fun k hk hkm => ?_) hle (by omega)
    exact Nat.lt_of_lt_of_le (by omega) (hasc middle k (by omega) hk hkm)
  | case3 low high h hlt => exact hhigh i hi (by omega)

/-- The counted entries start at or before the address. -/
theorem first_le_of_lt_startsUpTo {x : RangeIndex} (hasc : Ascending x.entries) {address i : Nat}
    (hi : i < x.entries.size) (hlt : i < x.startsUpTo address) : x.entries[i].first ≤ address :=
  first_le_of_lt_searchBetween hasc (fun _ _ hk => absurd hk (Nat.not_lt_zero _)) hi hlt

/-- All other entries start behind the address. -/
theorem lt_first_of_startsUpTo_le {x : RangeIndex} (hasc : Ascending x.entries) {address i : Nat}
    (hi : i < x.entries.size) (hle : x.startsUpTo address ≤ i) : address < x.entries[i].first :=
  lt_first_of_searchBetween_le hasc (fun _ hk hsize => absurd hk (Nat.not_lt_of_le hsize)) hi hle
    (Nat.zero_le _)

end Search

end RangeIndex

end Delegation
