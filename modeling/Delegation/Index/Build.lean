import Delegation.Country.Table
import Delegation.Holding.Coalesce
import Delegation.Index
import Delegation.Order.Quicksort
import Delegation.Record

/-!
# Building an index

The index of a realm is built from the records of that realm which belong to a group:

1. every such record becomes a holding, and the holdings of each group are coalesced;
2. the runs of all groups are put in the order of their first addresses by quicksort, and no
   two of them may share an address; where several runs start at the same one, the order of
   these runs shows only in the fault, which names the first two that meet;
3. countries and statuses are replaced by their codes.

Groups do not affect each other before step 2, so they may be coalesced one after another or
side by side.  The result is the same, and so is the fault, which is the one of the first
failing group; only a failing build leaves different notes, because side by side the groups
behind the failing one have been coalesced as well.
-/

namespace Delegation

/-- What a build counted. -/
structure BuildTally where
  /-- Records of the realm. -/
  records : Nat
  /-- Records that belong to a group. -/
  indexed : Nat
  /-- Records that belong to no group. -/
  skipped : Nat
  /-- Groups. -/
  groups : Nat
  /-- The tallies of all groups together. -/
  coalesced : CoalesceTally
  /-- Entries of the index. -/
  entries : Nat
  deriving DecidableEq, Repr

namespace BuildTally

/-- Nothing counted. -/
def zero : BuildTally := ⟨0, 0, 0, 0, CoalesceTally.zero, 0⟩

/-- Two tallies together. -/
def add (s t : BuildTally) : BuildTally :=
  ⟨s.records + t.records, s.indexed + t.indexed, s.skipped + t.skipped, s.groups + t.groups,
    s.coalesced.add t.coalesced, s.entries + t.entries⟩

end BuildTally

/-- How the groups of a build are coalesced. -/
inductive Schedule where
  /-- One after another, up to the first failure. -/
  | sequential
  /-- All of them side by side. -/
  | parallel
  deriving DecidableEq, Repr

namespace Build

/-! ## Groups of holdings -/

/-- The records of a realm. -/
def ofRealm (r : Realm) (records : List Record) : List Record :=
  records.filter fun x => x.registry = r.registry && x.family = r.family

/-- The records that belong to a group, with it. -/
def grouped (records : List Record) : List (Group × Record) :=
  records.filterMap fun x => x.group?.map fun g => (g, x)

/-- The holding of a record, still with its group. -/
def groupedHolding (x : Group × Record) : Except Fault (Group × Holding) :=
  x.2.holding.map fun h => (x.1, h)

/-- The groups that occur, each once, in their order. -/
def groupsOf (hs : List (Group × Holding)) : List Group :=
  Group.sorted (hs.map (·.1)).eraseDups

/-- The holdings of one group. -/
def members (hs : List (Group × Holding)) (g : Group) : List Holding :=
  hs.filterMap fun x => if x.1 = g then some x.2 else none

/-- The holdings of every group, by the order of groups. -/
def partitions (hs : List (Group × Holding)) : List (List Holding) :=
  (groupsOf hs).map (members hs)

/-- The holdings of the records of a realm with their groups, or the fault of the first
record that has none. -/
def holdings (r : Realm) (records : List Record) : Except Fault (List (Group × Holding)) :=
  (grouped (ofRealm r records)).mapM groupedHolding

/-! ## From runs to entries -/

/-- The first two neighbours that share an address. -/
def firstOverlap : List Holding → Option (Holding × Holding)
  | h :: k :: rest => if k.first ≤ h.last then some (h, k) else firstOverlap (k :: rest)
  | _ => none

/-- The entry of a run. -/
def encode (table : CountryTable) (f : Family) (h : Holding) : Except Fault Entry :=
  if f.maxAddress < h.last then
    .error (.rangeOverflow f h.first
      ("end " ++ toString h.last ++ " exceeds the last address"))
  else
    (table.codeOf h.country).map fun code => ⟨h.toSpan, code, h.status.code⟩

/-- The entries of the runs of all groups. -/
def entries (table : CountryTable) (r : Realm) (runs : List Holding) :
    Except Fault (List Entry) :=
  let runs := Quicksort.sort (fun h => h.first) runs
  match firstOverlap runs with
  | some (h, k) => .error (.overlappingRanges r.registry r.family h.first h.last k.first)
  | none => runs.mapM (encode table r.family)

/-- The elements up to the first one that satisfies a condition, which is included. -/
def throughFirst {α : Type} (p : α → Bool) : List α → List α
  | [] => []
  | a :: rest => if p a then [a] else a :: throughFirst p rest

end Build

/-- The index of a realm, with what was counted. -/
def buildTallied (table : CountryTable) (r : Realm) (records : List Record) :
    Except Fault (RangeIndex × BuildTally) := do
  let hs ← Build.holdings r records
  let parts := Build.partitions hs
  let coalesced ← parts.mapM (coalesceTallied r)
  let entries ← Build.entries table r (coalesced.flatMap (·.1))
  let mine := Build.ofRealm r records
  return (⟨r, entries.toArray⟩,
    { records := mine.length
      indexed := hs.length
      skipped := mine.length - hs.length
      groups := parts.length
      coalesced := (coalesced.map (·.2)).foldl CoalesceTally.add CoalesceTally.zero
      entries := entries.length })

/-- The index of a realm. -/
def build (table : CountryTable) (r : Realm) (records : List Record) : Except Fault RangeIndex :=
  (buildTallied table r records).map (·.1)

/-- The closing note of a build. -/
def buildNote (r : Realm) (t : BuildTally) : Note :=
  .debug (r.text ++ ": " ++ toString t.records ++ " records in " ++ toString t.groups ++
    " partitions -> " ++ toString t.entries ++ " entries")

/-- The notes of a build: those of the groups that were coalesced, and the tally at the end if
the build succeeds. -/
def buildNotes (schedule : Schedule) (table : CountryTable) (r : Realm) (records : List Record) :
    List Note :=
  match Build.holdings r records with
  | .error _ => []
  | .ok hs =>
    let parts := Build.partitions hs
    let reached := match schedule with
      | .parallel => parts
      | .sequential => Build.throughFirst (fun p => !(coalesceTallied r p).isOk) parts
    reached.flatMap (coalesceNotes r) ++
      match buildTallied table r records with
      | .error _ => []
      | .ok (_, t) => [buildNote r t]

end Delegation
