import Delegation.Proofs.Coalesce.Distinct
import Delegation.Proofs.Coalesce.Sweep
import Delegation.Proofs.Sequence
import Mathlib

/-!
# Maximal runs

Coalescing succeeds unless two holdings clash, and it then yields the maximal runs of what it
is given (`IsRuns`): runs with gaps between them that cover the same addresses, each with the
country and status of the first holding that starts where the run starts.

Main results: `isRuns_of_coalesce`, `exists_coalesce_eq_ok_iff` and
`coalesce_maximal_runs`.
-/

namespace Delegation

open Coalesce
open Holding (Covers)

variable {r : Realm} {hs runs : List Holding} {k j : Holding}

/-- The holdings `runs` are the maximal runs of the holdings `hs`, in ascending order. -/
structure IsRuns (hs runs : List Holding) : Prop where
  first_le_last : ∀ k ∈ runs, k.first ≤ k.last
  separated : runs.Pairwise fun k j => k.last + 1 < j.first
  covers_iff : ∀ a, Covers runs a ↔ Covers hs a
  starts : ∀ k ∈ runs, ∃ h, hs.find? (·.first = k.first) = some h ∧ k = h.upTo k.last

lemma coalesce_eq_ok_iff :
    coalesce r hs = .ok runs ↔ ∃ ds, distinct hs = .ok ds ∧ runsOf ds = runs := by
  unfold coalesce coalesceTallied
  cases distinct hs with
  | error c => simp [Except.map]
  | ok ds => simp [Except.map]

lemma coalesce_eq_error_iff {f : Fault} :
    coalesce r hs = .error f ↔ ∃ c, distinct hs = .error c ∧ c.fault r = f := by
  unfold coalesce coalesceTallied
  cases distinct hs with
  | error c => simp [Except.map]
  | ok ds => simp [Except.map]

/-- Coalescing succeeds unless two holdings clash. -/
theorem exists_coalesce_eq_ok_iff : (∃ runs, coalesce r hs = .ok runs) ↔ ¬ Clashing hs := by
  rw [← exists_distinct_eq_ok_iff]
  constructor
  · rintro ⟨runs, h⟩
    obtain ⟨ds, hds, -⟩ := coalesce_eq_ok_iff.mp h
    exact ⟨ds, hds⟩
  · rintro ⟨ds, hds⟩
    exact ⟨runsOf ds, coalesce_eq_ok_iff.mpr ⟨ds, hds, rfl⟩⟩

/-- The runs of representatives are the runs of what they represent. -/
lemma isRuns_runsOf {ds : List Holding} (hvalid : ∀ h ∈ hs, h.first ≤ h.last)
    (hr : Represents hs ds) : IsRuns hs (runsOf ds) := by
  have hcovers : ∀ a, Covers ds a ↔ Covers hs a := by
    intro a
    constructor
    · rintro ⟨d, hd, hda⟩
      exact ⟨d, hr.mem hd, hda⟩
    · rintro ⟨h, hh, hha⟩
      obtain ⟨d, hd, hspan⟩ := hr.exists_toSpan h hh
      exact ⟨d, hd, by rwa [hspan]⟩
  cases hsweep : sweep ds with
  | none =>
    -- nothing has been given, and there are no runs
    rw [runsOf, hsweep]
    rw [sweep_eq_none_iff] at hsweep
    subst hsweep
    exact ⟨by simp, .nil, hcovers, by simp⟩
  | some s =>
    have hs' := swept_of_sweep (fun d hd => hvalid d (hr.mem hd)) hr.ascending hsweep
    have hmem : ∀ k, k ∈ s.runs ↔ k ∈ s.current :: s.closed := fun k => List.mem_reverse
    rw [runsOf_of_sweep hsweep]
    refine ⟨?_, ?_, ?_, ?_⟩
    · intro k hk
      exact hs'.first_le_last k ((hmem k).mp hk)
    · exact List.pairwise_reverse.mpr hs'.separated
    · intro a
      rw [← hcovers, ← hs'.covers_iff]
      simp only [Covers, hmem]
    · intro k hk
      obtain ⟨d, hd, hkd⟩ := hs'.continues k ((hmem k).mp hk)
      have hfirst : k.first = d.first := by rw [hkd]; rfl
      exact ⟨d, by rw [hfirst, hr.find?_first d hd], hkd⟩

/-- Coalescing yields the maximal runs. -/
theorem isRuns_of_coalesce (hvalid : ∀ h ∈ hs, h.first ≤ h.last) (h : coalesce r hs = .ok runs) :
    IsRuns hs runs := by
  obtain ⟨ds, hds, rfl⟩ := coalesce_eq_ok_iff.mp h
  exact isRuns_runsOf hvalid (represents_of_distinct hds)

namespace IsRuns

/-- A run has the country and status of a holding. -/
lemma exists_mem_of_mem (hr : IsRuns hs runs) (hk : k ∈ runs) :
    ∃ h ∈ hs, k.first = h.first ∧ k.country = h.country ∧ k.status = h.status := by
  obtain ⟨h, hfind, hkh⟩ := hr.starts k hk
  refine ⟨h, List.mem_of_find?_eq_some hfind, ?_, ?_, ?_⟩ <;> rw [hkh]
  · rfl
  · rfl
  · rfl

/-- Two runs are the same or have a gap between them. -/
lemma eq_or_separated (hr : IsRuns hs runs) (hk : k ∈ runs) (hj : j ∈ runs) :
    k = j ∨ k.last + 1 < j.first ∨ j.last + 1 < k.first :=
  Sequence.eq_or_of_pairwise hr.separated hk hj

/-- Each holding lies inside one run. -/
lemma exists_encloses (hr : IsRuns hs runs) {h : Holding} (hh : h ∈ hs) (hle : h.first ≤ h.last) :
    ∃ k ∈ runs, k.first ≤ h.first ∧ h.last ≤ k.last := by
  obtain ⟨k, hk, hkfirst⟩ := (hr.covers_iff h.first).mpr
    ⟨h, hh, Span.contains_iff.mpr ⟨Nat.le_refl _, hle⟩⟩
  rw [Span.contains_iff] at hkfirst
  refine ⟨k, hk, hkfirst.1, ?_⟩
  by_contra hlt
  -- the address behind the run is covered as well, so another run touches this one
  obtain ⟨j, hj, hja⟩ := (hr.covers_iff (k.last + 1)).mpr
    ⟨h, hh, Span.contains_iff.mpr ⟨by omega, by omega⟩⟩
  rw [Span.contains_iff] at hja
  have hkle := hr.first_le_last k hk
  rcases hr.eq_or_separated hk hj with rfl | hgap | hgap
  · omega
  · omega
  · omega

end IsRuns

/-- Coalescing yields runs in ascending order, with gaps between them, that cover what the
holdings cover and have the country and status of the first holding with their start; all sums
of the sweep are addresses of 128 bits. -/
theorem coalesce_maximal_runs
    (hvalid : ∀ h ∈ hs, h.first ≤ h.last ∧ h.last < 2 ^ 128) (h : coalesce r hs = .ok runs) :
    (∀ k ∈ runs, k.first ≤ k.last) ∧
      (runs.Pairwise fun k j => k.last + 1 < j.first) ∧
      (∀ a, Covers runs a ↔ Covers hs a) ∧
      (∀ k ∈ runs, ∃ h, hs.find? (·.first = k.first) = some h ∧ k.country = h.country ∧
        k.status = h.status) ∧
      ∃ ds, distinct hs = .ok ds ∧ runsChecked ds = some runs := by
  have hr := isRuns_of_coalesce (fun h hh => (hvalid h hh).1) h
  refine ⟨hr.first_le_last, hr.separated, hr.covers_iff, ?_, ?_⟩
  · intro k hk
    obtain ⟨h, hfind, hkh⟩ := hr.starts k hk
    exact ⟨h, hfind, by rw [hkh]; rfl, by rw [hkh]; rfl⟩
  · obtain ⟨ds, hds, hruns⟩ := coalesce_eq_ok_iff.mp h
    have hbound : ∀ d ∈ ds, d.first < 2 ^ 128 := by
      intro d hd
      have hd' := hvalid d ((represents_of_distinct hds).mem hd)
      omega
    exact ⟨ds, hds, by rw [runsChecked_eq hbound, hruns]⟩

/-- Holdings out of order that overlap, touch and repeat each other, up to the last address. -/
def mixedHoldings : List Holding :=
  [⟨⟨2 ^ 128 - 16, 2 ^ 128 - 1⟩, .unknown, .assigned⟩, ⟨⟨10, 19⟩, .unknown, .allocated⟩,
    ⟨⟨0, 9⟩, .unknown, .reserved⟩, ⟨⟨2, 5⟩, .unknown, .available⟩, ⟨⟨10, 19⟩, .unknown, .assigned⟩,
    ⟨⟨2 ^ 128 - 32, 2 ^ 128 - 10⟩, .unknown, .allocated⟩]

/-- The runs of `mixedHoldings`. -/
def mixedRuns : List Holding :=
  [⟨⟨0, 19⟩, .unknown, .reserved⟩, ⟨⟨2 ^ 128 - 32, 2 ^ 128 - 1⟩, .unknown, .allocated⟩]

theorem coalesce_maximal_runs_mixed :
    (∀ h ∈ mixedHoldings, h.first ≤ h.last ∧ h.last < 2 ^ 128) ∧
      coalesce ⟨.iana, .ipv6⟩ mixedHoldings = .ok mixedRuns ∧
      (mixedRuns.Pairwise fun k j => k.last + 1 < j.first) ∧
      (∀ a, Covers mixedRuns a ↔ Covers mixedHoldings a) ∧
      ∃ ds, distinct mixedHoldings = .ok ds ∧ runsChecked ds = some mixedRuns := by
  have hvalid : ∀ h ∈ mixedHoldings, h.first ≤ h.last ∧ h.last < 2 ^ 128 := by decide
  have hok : coalesce ⟨.iana, .ipv6⟩ mixedHoldings = .ok mixedRuns := by cbv
  obtain ⟨-, hseparated, hcovers, -, hchecked⟩ := coalesce_maximal_runs hvalid hok
  exact ⟨hvalid, hok, hseparated, hcovers, hchecked⟩

end Delegation
