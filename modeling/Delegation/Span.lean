import Delegation.Address

/-!
# Spans of addresses

A span is a range of addresses given by its first and its last address.  Delegations give a
span by its first address and either a number of addresses or a block length; `Span.ofCount`
and `Span.ofPrefix` compute the last address and refuse a span that leaves the family.

Main results: `Span.ofCount_eq_ok_iff` and `Span.ofPrefix_eq_ok_iff` say exactly when a span
results and which one; `Span.exists_check_eq_rangeOverflow` and `Span.check_eq_invalidRange` say
why the bounds of a span are refused.
-/

namespace Delegation

/-- The addresses from `first` to `last`, both included. -/
structure Span where
  first : Nat
  last : Nat
  deriving DecidableEq, Repr

/-- The greatest number of addresses that is told apart; larger ones are reported as it. -/
def maxCount : Nat := 2 ^ 128 - 1

namespace Span

/-- Whether an address lies in the span. -/
def contains (s : Span) (address : Nat) : Bool := s.first ≤ address && address ≤ s.last

/-- The number of addresses, at most `maxCount`. -/
def size (s : Span) : Nat := min (s.last - s.first + 1) maxCount

/-- Accepts the spans within a family that do not end before they start. -/
def check (f : Family) (s : Span) : Except Fault Span :=
  match f.check s.first with
  | .error fault => .error fault
  | .ok _ =>
    match f.check s.last with
    | .error fault => .error fault
    | .ok _ => if s.last < s.first then .error (.invalidRange f s.first s.last) else .ok s

/-- The span of a number of addresses. -/
def ofCount (f : Family) (first count : Nat) : Except Fault Span :=
  match f.check first with
  | .error fault => .error fault
  | .ok _ =>
    if count = 0 then .error (.invalidRange f first (first - 1))
    else if first + count - 1 ≤ f.maxAddress then .ok ⟨first, first + count - 1⟩
    else .error (.rangeOverflow f first
      ("count " ++ toString count ++ " runs past the last address"))

/-- The span of the addresses that share their first `length` bits with `first`, if `first`
is the lowest of them; otherwise the span of as many addresses. -/
def ofPrefix (f : Family) (first length : Nat) : Except Fault Span :=
  if f.width < length then .error (.invalidPrefix f length)
  else match f.check first with
    | .error fault => .error fault
    | .ok _ =>
      let last := first + 2 ^ (f.width - length) - 1
      if last ≤ f.maxAddress then .ok ⟨first, last⟩
      else .error (.rangeOverflow f first
        ("/" ++ toString length ++ " block runs past the last address"))

theorem contains_iff {s : Span} {a : Nat} : s.contains a = true ↔ s.first ≤ a ∧ a ≤ s.last := by
  simp [contains]

theorem check_eq_ok_iff {f : Family} {s t : Span} :
    check f s = .ok t ↔ s.first ≤ s.last ∧ s.last ≤ f.maxAddress ∧ t = s := by
  unfold check Family.check
  by_cases hf : s.first ≤ f.maxAddress <;> by_cases hl : s.last ≤ f.maxAddress <;>
    by_cases ho : s.last < s.first <;> simp [hf, hl, ho, eq_comm] <;> omega

/-- The first bound that is no address of the family is the one that is reported. -/
theorem exists_check_eq_rangeOverflow {f : Family} {s : Span}
    (h : f.maxAddress < s.first ∨ f.maxAddress < s.last) :
    ∃ a, [s.first, s.last].find? (f.maxAddress < ·) = some a ∧
      check f s = .error (.rangeOverflow f a
        ("value " ++ toString a ++ " exceeds " ++ toString f.width ++ "-bit width")) := by
  unfold check Family.check
  by_cases hf : s.first ≤ f.maxAddress
  · have hl : ¬ s.last ≤ f.maxAddress := by omega
    exact ⟨s.last, by simp [hf, Nat.lt_of_not_le hl], by simp [hf, hl]⟩
  · exact ⟨s.first, by simp [Nat.lt_of_not_le hf], by simp [hf]⟩

/-- A span of addresses of the family that ends before it starts. -/
theorem check_eq_invalidRange {f : Family} {s : Span} (hfirst : s.first ≤ f.maxAddress)
    (h : s.last < s.first) : check f s = .error (.invalidRange f s.first s.last) := by
  unfold check Family.check
  have hlast : s.last ≤ f.maxAddress := by omega
  simp [hfirst, hlast, h]

theorem ofCount_eq_ok_iff {f : Family} {first count : Nat} {s : Span} :
    ofCount f first count = .ok s ↔
      1 ≤ count ∧ first + count - 1 ≤ f.maxAddress ∧ s = ⟨first, first + count - 1⟩ := by
  unfold ofCount Family.check
  by_cases hf : first ≤ f.maxAddress <;> by_cases hc : count = 0 <;>
    by_cases hl : first + count - 1 ≤ f.maxAddress <;> simp [hf, hc, hl, eq_comm] <;> omega

theorem ofPrefix_eq_ok_iff {f : Family} {first length : Nat} {s : Span} :
    ofPrefix f first length = .ok s ↔
      length ≤ f.width ∧ first + 2 ^ (f.width - length) - 1 ≤ f.maxAddress ∧
        s = ⟨first, first + 2 ^ (f.width - length) - 1⟩ := by
  have hpos : 0 < 2 ^ (f.width - length) := Nat.two_pow_pos _
  unfold ofPrefix Family.check
  by_cases hw : f.width < length <;> by_cases hf : first ≤ f.maxAddress <;>
    by_cases hl : first + 2 ^ (f.width - length) - 1 ≤ f.maxAddress <;>
    simp [hw, hf, hl, eq_comm] <;> omega

end Span

end Delegation
