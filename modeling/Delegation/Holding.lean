import Delegation.Country
import Delegation.Span
import Delegation.Status

/-!
# Holdings

A holding is a span of addresses with the country that it is delegated to and its status.
-/

namespace Delegation

/-- A span with its country and status. -/
structure Holding extends Span where
  country : Country
  status : Status
  deriving DecidableEq, Repr

namespace Holding

/-- The holding that ends at another address. -/
def upTo (h : Holding) (last : Nat) : Holding := { h with last := last }

@[simp] theorem first_upTo (h : Holding) (last : Nat) : (h.upTo last).first = h.first := rfl

@[simp] theorem last_upTo (h : Holding) (last : Nat) : (h.upTo last).last = last := rfl

@[simp] theorem country_upTo (h : Holding) (last : Nat) : (h.upTo last).country = h.country := rfl

@[simp] theorem status_upTo (h : Holding) (last : Nat) : (h.upTo last).status = h.status := rfl

/-- The total number of addresses, at most `maxCount`, with shared ones counted each time. -/
def totalSize (hs : List Holding) : Nat :=
  hs.foldl (fun n h => min (n + h.size) maxCount) 0

end Holding

end Delegation
