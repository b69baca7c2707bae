import Delegation.Holding.Coalesce
import Mathlib.Tactic.Lemma

/-!
# What the sweep has done

The sweep reads holdings with ascending starts.  At any time its runs are not empty, a gap
lies between any two of them, they cover exactly the addresses that have been read, and each
of them continues the holding that it starts with (`Swept`).  Reading one more holding keeps
this: the holding either extends the current run, because it starts inside or right behind
it, or it starts a run of its own.

The sweep adds one to the end of a run only where the next holding starts behind that end.
So it never leaves the addresses of 128 bits (`runsChecked_eq`).
-/

namespace Delegation

/-- Some holding of the list contains the address. -/
def Holding.Covers (hs : List Holding) (a : Nat) : Prop := ∃ h ∈ hs, h.contains a

lemma Holding.covers_append {hs ks : List Holding} {a : Nat} :
    Covers (hs ++ ks) a ↔ Covers hs a ∨ Covers ks a := by
  simp [Covers, or_and_right, exists_or]

lemma Holding.covers_singleton {h : Holding} {a : Nat} : Covers [h] a ↔ h.contains a := by
  simp [Covers]

lemma Holding.covers_cons {h : Holding} {hs : List Holding} {a : Nat} :
    Covers (h :: hs) a ↔ h.contains a ∨ Covers hs a := by
  simp [Covers]

namespace Coalesce

open Holding (Covers)

variable {p ds : List Holding} {s : Sweep} {next : Holding}

/-! ## One step -/

lemma Sweep.step_of_overlap (h : next.first ≤ s.current.last) :
    s.step next =
      { s with
        current := s.current.upTo (max s.current.last next.last)
        absorbed := (next, s.current) :: s.absorbed } := by
  rw [Sweep.step, if_pos h]

lemma Sweep.step_of_touch (h : s.current.last + 1 = next.first) :
    s.step next = { s with current := s.current.upTo next.last, merges := s.merges + 1 } := by
  rw [Sweep.step, if_neg (by omega), if_pos h]

lemma Sweep.step_of_gap (h : s.current.last + 1 < next.first) :
    s.step next = { s with closed := s.current :: s.closed, current := next } := by
  rw [Sweep.step, if_neg (by omega), if_neg (by omega)]

/-! ## The invariant -/

/-- The state of the sweep after it has read the holdings `p`. -/
structure Swept (p : List Holding) (s : Sweep) : Prop where
  first_le_last : ∀ k ∈ s.current :: s.closed, k.first ≤ k.last
  separated : (s.current :: s.closed).Pairwise fun k j => j.last + 1 < k.first
  covers_iff : ∀ a, Covers (s.current :: s.closed) a ↔ Covers p a
  continues : ∀ k ∈ s.current :: s.closed, ∃ h ∈ p, k = h.upTo k.last

namespace Swept

lemma start {h : Holding} (hle : h.first ≤ h.last) : Swept [h] (Sweep.start h) := by
  refine ⟨by simpa [Sweep.start] using hle, by simp [Sweep.start], fun a => Iff.rfl, ?_⟩
  intro k hk
  obtain rfl := List.mem_singleton.mp hk
  exact ⟨k, by simp, rfl⟩

/-- The current run starts with a holding that has been read. -/
lemma exists_first_eq (hs : Swept p s) : ∃ h ∈ p, s.current.first = h.first := by
  obtain ⟨h, hh, heq⟩ := hs.continues s.current (by simp)
  exact ⟨h, hh, by rw [heq]; rfl⟩

/-- The next holding starts inside or right behind the current run, which then grows. -/
lemma grow {s' : Sweep} (hs : Swept p s) (hfirst : s.current.first ≤ next.first)
    (htouch : next.first ≤ s.current.last + 1) (hclosed : s'.closed = s.closed)
    (hcurrent : s'.current = s.current.upTo (max s.current.last next.last)) :
    Swept (p ++ [next]) s' := by
  have hcle := hs.first_le_last s.current (by simp)
  refine ⟨?_, ?_, fun a => ?_, ?_⟩ <;> rw [hclosed, hcurrent]
  · intro k hk
    rcases List.mem_cons.mp hk with rfl | hk
    · simp only [Holding.first_upTo, Holding.last_upTo]
      omega
    · exact hs.first_le_last k (by simp [hk])
  · exact List.pairwise_cons.mpr (List.pairwise_cons.mp hs.separated)
  · have hgrown : (s.current.upTo (max s.current.last next.last)).contains a ↔
        s.current.contains a ∨ next.contains a := by
      simp only [Span.contains_iff, Holding.first_upTo, Holding.last_upTo]
      omega
    rw [Holding.covers_append, ← hs.covers_iff, Holding.covers_cons, Holding.covers_cons, hgrown,
      Holding.covers_singleton]
    exact or_right_comm
  · intro k hk
    rcases List.mem_cons.mp hk with rfl | hk
    · obtain ⟨h, hh, heq⟩ := hs.continues s.current (by simp)
      refine ⟨h, by simp [hh], ?_⟩
      rw [heq]
      rfl
    · obtain ⟨h, hh, heq⟩ := hs.continues k (by simp [hk])
      exact ⟨h, by simp [hh], heq⟩

/-- The next holding lies behind a gap and starts a run. -/
lemma close {s' : Sweep} (hs : Swept p s) (hle : next.first ≤ next.last)
    (hgap : s.current.last + 1 < next.first) (hclosed : s'.closed = s.current :: s.closed)
    (hcurrent : s'.current = next) : Swept (p ++ [next]) s' := by
  have hcle := hs.first_le_last s.current (by simp)
  refine ⟨?_, ?_, fun a => ?_, ?_⟩ <;> rw [hclosed, hcurrent]
  · intro k hk
    rcases List.mem_cons.mp hk with rfl | hk
    · exact hle
    · exact hs.first_le_last k hk
  · rw [List.pairwise_cons]
    refine ⟨?_, hs.separated⟩
    intro k hk
    rcases List.mem_cons.mp hk with rfl | hk
    · exact hgap
    · have := List.rel_of_pairwise_cons hs.separated hk
      omega
  · rw [Holding.covers_append, ← hs.covers_iff, Holding.covers_cons, Holding.covers_singleton]
    exact or_comm
  · intro k hk
    rcases List.mem_cons.mp hk with rfl | hk
    · exact ⟨k, by simp, rfl⟩
    · obtain ⟨h, hh, heq⟩ := hs.continues k hk
      exact ⟨h, by simp [hh], heq⟩

/-- Reading one more holding. -/
lemma step (hs : Swept p s) (hle : next.first ≤ next.last)
    (hlt : ∀ h ∈ p, h.first < next.first) : Swept (p ++ [next]) (s.step next) := by
  have hfirst : s.current.first ≤ next.first := by
    obtain ⟨h, hh, heq⟩ := hs.exists_first_eq
    rw [heq]
    exact Nat.le_of_lt (hlt h hh)
  rcases Nat.lt_trichotomy (s.current.last + 1) next.first with hgap | htouch | hoverlap
  · rw [Sweep.step_of_gap hgap]
    exact hs.close hle hgap rfl rfl
  · rw [Sweep.step_of_touch htouch]
    refine hs.grow hfirst (by omega) rfl ?_
    rw [Nat.max_eq_right (by omega)]
  · rw [Sweep.step_of_overlap (by omega)]
    exact hs.grow hfirst (by omega) rfl rfl

/-- Reading all holdings that are left. -/
lemma foldl {rest : List Holding} (hs : Swept p s) (hle : ∀ h ∈ rest, h.first ≤ h.last)
    (hascending : (p ++ rest).Pairwise fun h k => h.first < k.first) :
    Swept (p ++ rest) (rest.foldl Sweep.step s) := by
  induction rest generalizing p s with
  | nil => simpa using hs
  | cons next rest ih =>
    have hlt : ∀ h ∈ p, h.first < next.first := by
      intro h hh
      exact (List.pairwise_append.mp hascending).2.2 h hh next (by simp)
    have hrest := ih (hs.step (hle next (by simp)) hlt) (fun h hh => hle h (by simp [hh]))
      (by simpa using hascending)
    simpa using hrest

end Swept

/-! ## The runs -/

/-- The state at the end of the sweep. -/
lemma swept_of_sweep (hle : ∀ d ∈ ds, d.first ≤ d.last)
    (hascending : ds.Pairwise fun d e => d.first < e.first) (h : sweep ds = some s) :
    Swept ds s := by
  cases ds with
  | nil => cases h
  | cons d rest =>
    obtain rfl := Option.some.inj h
    exact (Swept.start (hle d (by simp))).foldl (fun h hh => hle h (by simp [hh])) hascending

lemma sweep_eq_none_iff : sweep ds = none ↔ ds = [] := by
  cases ds <;> simp [sweep]

lemma runsOf_of_sweep (h : sweep ds = some s) : runsOf ds = s.runs := by
  rw [runsOf, h]

/-! ## Addresses of 128 bits -/

/-- The address behind another one; there is none behind the last address of 128 bits. -/
def addressBehind (a : Nat) : Option Nat := if a + 1 < 2 ^ 128 then some (a + 1) else none

/-- `Sweep.step`, which fails if the address behind the current run is asked for and there is
none. -/
def Sweep.stepChecked (s : Sweep) (next : Holding) : Option Sweep :=
  if next.first ≤ s.current.last then
    some { s with
      current := s.current.upTo (max s.current.last next.last)
      absorbed := (next, s.current) :: s.absorbed }
  else
    (addressBehind s.current.last).map fun behind =>
      if behind = next.first then
        { s with current := s.current.upTo next.last, merges := s.merges + 1 }
      else
        { s with closed := s.current :: s.closed, current := next }

/-- `runsOf`, which fails if the address behind a run is asked for and there is none. -/
def runsChecked : List Holding → Option (List Holding)
  | [] => some []
  | h :: rest => (rest.foldlM Sweep.stepChecked (Sweep.start h)).map Sweep.runs

lemma Sweep.stepChecked_eq (s : Sweep) (hnext : next.first < 2 ^ 128) :
    s.stepChecked next = some (s.step next) := by
  rw [Sweep.stepChecked]
  by_cases hoverlap : next.first ≤ s.current.last
  · rw [if_pos hoverlap, Sweep.step_of_overlap hoverlap]
  · rw [if_neg hoverlap, addressBehind, if_pos (by omega), Option.map_some]
    by_cases htouch : s.current.last + 1 = next.first
    · rw [if_pos htouch, Sweep.step_of_touch htouch]
    · rw [if_neg htouch, Sweep.step_of_gap (by omega)]

lemma foldlM_stepChecked_eq {rest : List Holding} (s : Sweep)
    (hrest : ∀ h ∈ rest, h.first < 2 ^ 128) :
    rest.foldlM Sweep.stepChecked s = some (rest.foldl Sweep.step s) := by
  induction rest generalizing s with
  | nil => rfl
  | cons next rest ih =>
    rw [List.foldlM_cons, Sweep.stepChecked_eq s (hrest next (by simp))]
    exact ih (s.step next) fun h hh => hrest h (by simp [hh])

/-- No sum of the sweep leaves the addresses of 128 bits. -/
theorem runsChecked_eq (hds : ∀ d ∈ ds, d.first < 2 ^ 128) :
    runsChecked ds = some (runsOf ds) := by
  cases ds with
  | nil => rfl
  | cons d rest =>
    rw [runsChecked, foldlM_stepChecked_eq _ fun h hh => hds h (by simp [hh])]
    rfl

end Coalesce

end Delegation
