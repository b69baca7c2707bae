import Delegation.Holding
import Delegation.Journal
import Delegation.Realm

/-!
# Coalescing holdings

The holdings of one group are merged into maximal runs.  They are sorted by their first
address; equal spans are listed once, and two holdings that start at the same address must
end at the same one.  A single sweep then extends the current run by every holding that
overlaps or touches it, and starts a new run at every gap.  Since the sweep compares with the
run, and not with the holding before, one pass merges everything that can be merged.  A run
keeps the country and status of the holding that it starts with; sorting is stable, so among
holdings with the same start this is the one listed first.
-/

namespace Delegation

/-- What coalescing counted. -/
structure CoalesceTally where
  /-- Holdings received. -/
  input : Nat
  /-- Holdings dropped because an earlier one has the same span. -/
  duplicates : Nat
  /-- Holdings that continued a run at its end. -/
  merges : Nat
  /-- Holdings that started inside a run. -/
  overlaps : Nat
  /-- Runs. -/
  output : Nat
  deriving DecidableEq, Repr

namespace CoalesceTally

/-- Nothing counted. -/
def zero : CoalesceTally := ⟨0, 0, 0, 0, 0⟩

/-- Two tallies together. -/
def add (s t : CoalesceTally) : CoalesceTally :=
  ⟨s.input + t.input, s.duplicates + t.duplicates, s.merges + t.merges,
    s.overlaps + t.overlaps, s.output + t.output⟩

end CoalesceTally

namespace Coalesce

/-! ## Distinct starts -/

/-- Two holdings with the same start and different ends, with the distinct holdings read
before them, the latest first. -/
structure Clash where
  kept : List Holding
  existing : Holding
  incoming : Holding

/-- Reads one more holding of a sorted list; `kept` holds one of each start read so far, the
latest first. -/
def readNext (kept : List Holding) (next : Holding) : Except Clash (List Holding) :=
  match kept with
  | [] => .ok [next]
  | latest :: _ =>
    if next.first = latest.first then
      if next.last = latest.last then .ok kept else .error ⟨kept, latest, next⟩
    else .ok (next :: kept)

/-- Holdings in the order of their first addresses; those with the same start keep their
order. -/
def sortByFirst (hs : List Holding) : List Holding :=
  hs.mergeSort fun h k => h.first ≤ k.first

/-- One holding of each start, in ascending order, or the first clash. -/
def distinct (hs : List Holding) : Except Clash (List Holding) :=
  ((sortByFirst hs).foldlM readNext []).map List.reverse

/-! ## The sweep -/

/-- The state of the sweep between two holdings. -/
structure Sweep where
  /-- Finished runs, the latest first. -/
  closed : List Holding
  /-- The run that may still grow. -/
  current : Holding
  /-- How many holdings continued a run at its end. -/
  merges : Nat
  /-- The holdings that started inside a run, each with the run as it was, the latest
  first. -/
  absorbed : List (Holding × Holding)

namespace Sweep

/-- The state after the first holding. -/
def start (h : Holding) : Sweep := ⟨[], h, 0, []⟩

/-- Reads one more holding. -/
def step (s : Sweep) (next : Holding) : Sweep :=
  if next.first ≤ s.current.last then
    { s with
      current := s.current.upTo (max s.current.last next.last)
      absorbed := (next, s.current) :: s.absorbed }
  else if s.current.last + 1 = next.first then
    { s with current := s.current.upTo next.last, merges := s.merges + 1 }
  else
    { s with closed := s.current :: s.closed, current := next }

/-- All runs in ascending order. -/
def runs (s : Sweep) : List Holding := (s.current :: s.closed).reverse

end Sweep

/-- Sweeps over holdings with ascending starts; none if there are no holdings. -/
def sweep : List Holding → Option Sweep
  | [] => none
  | h :: rest => some (rest.foldl Sweep.step (Sweep.start h))

/-! ## Results and notes -/

/-- The fault for a clash. -/
def Clash.fault (r : Realm) (c : Clash) : Fault :=
  .conflictingRanges r.registry r.family c.incoming.first c.existing.last c.incoming.last

/-- How notes name a span. -/
def spanText (f : Family) (s : Span) : String :=
  f.display s.first ++ " - " ++ f.display s.last

/-- The warning for a holding that started inside a run. -/
def overlapNote (r : Realm) (next current : Holding) : Note :=
  .warn (r.text ++ ": range " ++ spanText r.family next.toSpan ++ " overlaps " ++
    spanText r.family current.toSpan ++ ", absorbing")

/-- The warnings of a sweep, in their order. -/
def overlapNotes (r : Realm) (hs : List Holding) : List Note :=
  match sweep hs with
  | none => []
  | some s => s.absorbed.reverse.map fun (next, current) => overlapNote r next current

/-- What is counted when `hs` has the distinct holdings `ds`. -/
def tally (hs ds : List Holding) : CoalesceTally :=
  match sweep ds with
  | none => CoalesceTally.zero
  | some s => ⟨hs.length, hs.length - ds.length, s.merges, s.absorbed.length, s.runs.length⟩

/-- The runs of holdings with ascending starts. -/
def runsOf (ds : List Holding) : List Holding :=
  match sweep ds with
  | none => []
  | some s => s.runs

/-- The closing note. -/
def tallyNote (r : Realm) (t : CoalesceTally) : Note :=
  .debug (r.text ++ ": coalesced " ++ toString t.input ++ " ranges into " ++
    toString t.output ++ " (" ++ toString t.merges ++ " merged, " ++
    toString t.duplicates ++ " duplicate, " ++ toString t.overlaps ++ " overlapping)")

end Coalesce

/-- The maximal runs of the holdings of one group, with what was counted. -/
def coalesceTallied (r : Realm) (hs : List Holding) :
    Except Fault (List Holding × CoalesceTally) :=
  match Coalesce.distinct hs with
  | .error clash => .error (clash.fault r)
  | .ok ds => .ok (Coalesce.runsOf ds, Coalesce.tally hs ds)

/-- The maximal runs of the holdings of one group. -/
def coalesce (r : Realm) (hs : List Holding) : Except Fault (List Holding) :=
  (coalesceTallied r hs).map (·.1)

/-- The notes of coalescing: a warning for each overlap that was met, and the tally at the
end unless a clash or an empty input stopped it. -/
def coalesceNotes (r : Realm) (hs : List Holding) : List Note :=
  match Coalesce.distinct hs with
  | .error clash => Coalesce.overlapNotes r clash.kept.reverse
  | .ok [] => []
  | .ok ds => Coalesce.overlapNotes r ds ++ [Coalesce.tallyNote r (Coalesce.tally hs ds)]

end Delegation
