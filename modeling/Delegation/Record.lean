import Delegation.Holding

/-!
# Allocation records

One line of a registry's file.  A record belongs to at most one group, and only records of
one group are merged with each other: the root registry groups its blocks by the registry
that they were handed to, which it writes in the status column; all others group by country.
Blocks that the root registry keeps, or lists with a plain state, belong to no group.
-/

namespace Delegation

/-- The size of an allocation as its registry states it. -/
inductive Extent where
  /-- A number of addresses. -/
  | count (n : Nat)
  /-- A block length. -/
  | length (n : Nat)
  deriving DecidableEq, Repr

/-- One delegation of a registry. -/
structure Record where
  registry : Registry
  country : Country
  family : Family
  first : Nat
  extent : Extent
  status : Status
  deriving DecidableEq, Repr

/-- The key of the records that are merged with each other. -/
inductive Group where
  | country (c : Country)
  | status (s : Status)
  deriving DecidableEq, Repr

namespace Group

/-- The order of groups: countries before statuses, countries by their letters, statuses by
their codes. -/
def le : Group → Group → Bool
  | .country c, .country d => !d.before c
  | .country _, .status _ => true
  | .status _, .country _ => false
  | .status s, .status t => s.code ≤ t.code

/-- Groups in their order. -/
def sorted (gs : List Group) : List Group := gs.mergeSort le

end Group

namespace Record

/-- The group of a record. -/
def group? (r : Record) : Option Group :=
  match r.registry with
  | .iana =>
    match r.status.delegatedTo with
    | none => none
    | some .iana => none
    | some _ => some (.status r.status)
  | _ => some (.country r.country)

/-- The span that a record delegates. -/
def span (r : Record) : Except Fault Span :=
  match r.extent with
  | .count n => Span.ofCount r.family r.first n
  | .length n => Span.ofPrefix r.family r.first n

/-- The holding that a record describes. -/
def holding (r : Record) : Except Fault Holding :=
  r.span.map fun s => ⟨s, r.country, r.status⟩

end Record

/-- One group of records of a registry and family. -/
structure Selection where
  registry : Registry
  family : Family
  group : Group
  deriving DecidableEq, Repr

namespace Selection

/-- Whether a record belongs to the selection. -/
def selects (s : Selection) (r : Record) : Bool :=
  r.registry = s.registry && r.family = s.family && r.group? = some s.group

/-- The holding of a record that belongs to the selection; none for other records. -/
def holding? (s : Selection) (r : Record) : Except Fault (Option Holding) :=
  if s.selects r then r.holding.map some else .ok none

end Selection

end Delegation
