import Delegation.Proofs.Coalesce.Runs
import Delegation.Proofs.Ownership

/-!
# Coalescing in stages

The spans of the runs depend on nothing but the addresses that are covered, because runs are
maximal.  A run starts behind an address that is not covered, and it continues the first
holding with that start.  So lists that agree on the covered addresses and on the holdings
that can start a run have the same runs (`IsRuns.eq_of_covers`).

Some of the holdings may therefore be coalesced before the others come in.  Their runs cover
the same addresses, and where a run can start, the first of them continues the holding that
was the first one there (`IsRuns.exists_find?_eq_some`).

Runs that are coalesced once more stay as they are: their starts ascend, so nothing is moved or
dropped, and the sweep meets gaps only (`coalesceTallied_of_separated`).

Main result: `coalesce_append_of_coalesce`.
-/

namespace Delegation

open Coalesce
open Holding (Covers)
open Tenure (Normal Owns)

variable {r : Realm} {hs hs' ds ds' runs runs' A B : List Holding} {d h k : Holding} {a : Nat}

/-! ## Lists with the same runs -/

/-- The span of a holding, with the same owner for all holdings. -/
def Holding.bare (h : Holding) : Tenure Unit := ⟨h.toSpan, ()⟩

namespace IsRuns

lemma normal_bare (hr : IsRuns hs runs) : Normal (runs.map Holding.bare) := by
  refine ⟨?_, ?_, ?_⟩
  · rw [List.forall_mem_map]
    exact hr.first_le_last
  · rw [List.pairwise_map]
    exact hr.separated.imp fun hgap => Nat.lt_of_succ_lt hgap
  · rw [List.pairwise_map]
    exact hr.separated.imp fun hgap htouch => absurd htouch (Nat.ne_of_lt hgap)

lemma owns_bare_iff (hr : IsRuns hs runs) : Owns (runs.map Holding.bare) () a ↔ Covers hs a := by
  rw [← hr.covers_iff]
  constructor
  · rintro ⟨t, ht, -, ha⟩
    obtain ⟨k, hk, rfl⟩ := List.mem_map.mp ht
    exact ⟨k, hk, ha⟩
  · rintro ⟨k, hk, ha⟩
    exact ⟨k.bare, List.mem_map_of_mem hk, rfl, ha⟩

/-- The address before a run is not covered. -/
lemma not_covers_before (hr : IsRuns hs runs) (hk : k ∈ runs) (ha : a + 1 = k.first) :
    ¬ Covers hs a := by
  rw [← hr.owns_bare_iff]
  exact (hr.normal_bare.isMaximal_of_mem (List.mem_map_of_mem hk)).not_before a ha

/-- Lists that cover the same addresses have runs with the same spans. -/
lemma map_bare_eq (hr : IsRuns hs runs) (hr' : IsRuns hs' runs')
    (hcovers : ∀ a, Covers hs a ↔ Covers hs' a) :
    runs.map Holding.bare = runs'.map Holding.bare := by
  refine hr.normal_bare.eq_of_owns hr'.normal_bare ?_
  intro _ a
  rw [hr.owns_bare_iff, hr'.owns_bare_iff, hcovers]

/-- Lists have the same runs if they cover the same addresses and if, behind every address that
is not covered, they start with holdings of the same country and status. -/
theorem eq_of_covers (hr : IsRuns hs runs) (hr' : IsRuns hs' runs')
    (hcovers : ∀ a, Covers hs a ↔ Covers hs' a)
    (hstart : ∀ a h h', (∀ b, b + 1 = a → ¬ Covers hs b) → hs.find? (·.first = a) = some h →
      hs'.find? (·.first = a) = some h' → h' = h.upTo h'.last) : runs = runs' := by
  have hspans := hr.map_bare_eq hr' hcovers
  have hlength : runs.length = runs'.length := by simpa using congrArg List.length hspans
  refine List.ext_getElem hlength ?_
  intro i hi hi'
  have hspan : runs[i].bare = runs'[i].bare := by
    have hget := List.getElem_of_eq hspans (i := i) (by simpa using hi)
    rwa [List.getElem_map, List.getElem_map] at hget
  obtain ⟨h, hh, hk⟩ := hr.starts runs[i] (List.getElem_mem hi)
  obtain ⟨h', hh', hk'⟩ := hr'.starts runs'[i] (List.getElem_mem hi')
  have hfirst : runs'[i].first = runs[i].first := congrArg (·.first) hspan.symm
  have hlast : runs'[i].last = runs[i].last := congrArg (·.last) hspan.symm
  rw [hfirst] at hh'
  have hbefore : ∀ b, b + 1 = runs[i].first → ¬ Covers hs b :=
    fun b hb => hr.not_covers_before (List.getElem_mem hi) hb
  have hcontinues := hstart _ h h' hbefore hh hh'
  -- both continue the same holding up to the same address
  calc runs[i] = h.upTo runs[i].last := hk
    _ = (h.upTo h'.last).upTo runs'[i].last := by rw [hlast]; rfl
    _ = h'.upTo runs'[i].last := by rw [← hcontinues]
    _ = runs'[i] := hk'.symm

/-! ## Runs instead of holdings -/

/-- Where a run can start, the first run continues the first holding. -/
lemma exists_find?_eq_some (hr : IsRuns hs runs) (hvalid : ∀ h ∈ hs, h.first ≤ h.last)
    (hbefore : ∀ b, b + 1 = a → ¬ Covers hs b) (hfind : hs.find? (·.first = a) = some h) :
    ∃ k, runs.find? (·.first = a) = some k ∧ k = h.upTo k.last := by
  have hmem := List.mem_of_find?_eq_some hfind
  have hfirst : h.first = a := by simpa using List.find?_some hfind
  obtain ⟨k, hk, hka⟩ := (hr.covers_iff a).mpr
    ⟨h, hmem, Span.contains_iff.mpr ⟨by omega, hfirst ▸ hvalid h hmem⟩⟩
  rw [Span.contains_iff] at hka
  -- a run that began earlier would have the address before
  have hkfirst : k.first = a := by
    by_contra hne
    refine hbefore (a - 1) (by omega) ((hr.covers_iff _).mp ⟨k, hk, ?_⟩)
    exact Span.contains_iff.mpr ⟨by omega, by omega⟩
  cases hfind' : runs.find? (·.first = a) with
  | none => exact absurd hkfirst (by simpa using List.find?_eq_none.mp hfind' k hk)
  | some j =>
    have hjfirst : j.first = a := by simpa using List.find?_some hfind'
    obtain ⟨h', hh', hj⟩ := hr.starts j (List.mem_of_find?_eq_some hfind')
    rw [hjfirst, hfind] at hh'
    obtain rfl := Option.some.inj hh'
    exact ⟨j, rfl, hj⟩

/-- No run starts where no holding does. -/
lemma find?_eq_none (hr : IsRuns hs runs) (hfind : hs.find? (·.first = a) = none) :
    runs.find? (·.first = a) = none := by
  rw [List.find?_eq_none] at hfind ⊢
  intro k hk
  obtain ⟨h, hh, hfirst, -⟩ := hr.exists_mem_of_mem hk
  rw [hfirst]
  exact hfind h hh

/-- Runs in the place of holdings lead to the same runs. -/
theorem eq_of_append (hr : IsRuns A runs) (hvalid : ∀ h ∈ A, h.first ≤ h.last)
    (hX : IsRuns (A ++ B) hs) (hY : IsRuns (runs ++ B) hs') : hs = hs' := by
  refine hX.eq_of_covers hY ?_ ?_
  · intro a
    rw [Holding.covers_append, Holding.covers_append, hr.covers_iff]
  · intro a h h' hbefore hh hh'
    rw [List.find?_append] at hh hh'
    cases hfind : A.find? (·.first = a) with
    | none =>
      -- the start comes from the holdings that were not coalesced
      rw [hfind, Option.none_or] at hh
      rw [hr.find?_eq_none hfind, Option.none_or, hh] at hh'
      obtain rfl := Option.some.inj hh'
      rfl
    | some g =>
      rw [hfind, Option.some_or] at hh
      obtain rfl := Option.some.inj hh
      have hbefore' : ∀ b, b + 1 = a → ¬ Covers A b := fun b hb hcovers =>
        hbefore b hb (Holding.covers_append.mpr (.inl hcovers))
      obtain ⟨k, hk, hcontinues⟩ := hr.exists_find?_eq_some hvalid hbefore' hfind
      rw [hk, Option.some_or] at hh'
      obtain rfl := Option.some.inj hh'
      exact hcontinues

end IsRuns

/-! ## Coalescing runs -/

namespace Coalesce

/-- Representatives are the first holdings of their starts. -/
lemma Represents.mem_iff (hr : Represents hs ds) :
    d ∈ ds ↔ hs.find? (·.first = d.first) = some d := by
  constructor
  · exact hr.find?_first d
  · intro hfind
    obtain ⟨d', hd', hspan⟩ := hr.exists_toSpan d (List.mem_of_find?_eq_some hfind)
    have hfind' := hr.find?_first d' hd'
    rw [hspan, hfind] at hfind'
    obtain rfl := Option.some.inj hfind'
    exact hd'

/-- There is one list of representatives. -/
lemma Represents.eq (hr : Represents hs ds) (hr' : Represents hs ds') : ds = ds' := by
  refine Sequence.eq_of_ascending hr.ascending hr'.ascending ?_
  intro d
  rw [hr.mem_iff, hr'.mem_iff]

/-- Holdings with ascending starts represent themselves. -/
lemma represents_self (hascending : ds.Pairwise fun d e => d.first < e.first) :
    Represents ds ds := by
  refine ⟨hascending, ?_, fun d hd => ⟨d, hd, rfl⟩⟩
  intro d hd
  cases hfind : ds.find? (·.first = d.first) with
  | none => simpa using List.find?_eq_none.mp hfind d hd
  | some e =>
    have hfirst : e.first = d.first := by simpa using List.find?_some hfind
    rcases Sequence.eq_or_of_pairwise hascending (List.mem_of_find?_eq_some hfind) hd with
      rfl | hlt | hlt
    · rfl
    · omega
    · omega

/-- Holdings with ascending starts are all kept. -/
lemma distinct_eq_self (hascending : ds.Pairwise fun d e => d.first < e.first) :
    distinct ds = .ok ds := by
  have hself := represents_self hascending
  have hno : ¬ Clashing ds := by
    rintro ⟨h, hh, k, hk, hfirst, hlast⟩
    exact hlast (hself.last_eq hh hk hfirst)
  obtain ⟨ds', hds'⟩ := exists_distinct_eq_ok_iff.mpr hno
  rw [hds', (represents_of_distinct hds').eq hself]

/-- A sweep that meets gaps only finds all holdings to be runs. -/
lemma foldl_step_of_separated {s : Sweep} {rest : List Holding}
    (hgaps : (s.current :: rest).Pairwise fun k j => k.last + 1 < j.first) :
    (rest.foldl Sweep.step s).runs = s.runs ++ rest ∧
      (rest.foldl Sweep.step s).merges = s.merges ∧
      (rest.foldl Sweep.step s).absorbed = s.absorbed := by
  induction rest generalizing s with
  | nil => simp
  | cons next rest ih =>
    rw [List.pairwise_cons] at hgaps
    rw [List.foldl_cons, Sweep.step_of_gap (hgaps.1 next (by simp))]
    obtain ⟨hruns, hmerges, habsorbed⟩ :=
      ih (s := { s with closed := s.current :: s.closed, current := next }) hgaps.2
    refine ⟨?_, hmerges, habsorbed⟩
    rw [hruns]
    simp [Sweep.runs]

/-- The sweep over runs. -/
lemma sweep_of_separated (hgaps : (k :: runs).Pairwise fun k j => k.last + 1 < j.first) :
    ∃ s, sweep (k :: runs) = some s ∧ s.runs = k :: runs ∧ s.merges = 0 ∧ s.absorbed = [] :=
  ⟨_, rfl, foldl_step_of_separated hgaps⟩

end Coalesce

section Runs

variable (hle : ∀ k ∈ runs, k.first ≤ k.last)
  (hgaps : runs.Pairwise fun k j => k.last + 1 < j.first)

include hle hgaps

lemma distinct_of_separated : distinct runs = .ok runs := by
  refine distinct_eq_self (hgaps.imp_of_mem ?_)
  intro k j hk _ hgap
  have := hle k hk
  omega

/-- Runs are coalesced to themselves, and nothing is dropped or merged. -/
theorem coalesceTallied_of_separated (r : Realm) :
    coalesceTallied r runs = .ok (runs, ⟨runs.length, 0, 0, 0, runs.length⟩) := by
  rw [coalesceTallied, distinct_of_separated hle hgaps]
  cases runs with
  | nil => rfl
  | cons k rest =>
    obtain ⟨s, hs, hruns, hmerges, habsorbed⟩ := sweep_of_separated hgaps
    simp [runsOf, tally, hs, hruns, hmerges, habsorbed]

/-- No run starts inside another one, so there is nothing to warn of. -/
theorem warn_not_mem_coalesceNotes (r : Realm) (text : String) :
    Note.warn text ∉ coalesceNotes r runs := by
  rw [coalesceNotes, distinct_of_separated hle hgaps]
  cases runs with
  | nil => simp
  | cons k rest =>
    obtain ⟨s, hs, -, -, habsorbed⟩ := sweep_of_separated hgaps
    simp [overlapNotes, hs, habsorbed, tallyNote, Note.warn, Note.debug]

end Runs

/-- Coalescing some of the holdings beforehand has no effect on the runs of all of them.  In
particular, runs are coalesced to themselves, with nothing dropped, merged or absorbed and
without a warning. -/
theorem coalesce_append_of_coalesce (hA : ∀ h ∈ A, h.first ≤ h.last)
    (hB : ∀ h ∈ B, h.first ≤ h.last) (hruns : coalesce r A = .ok runs) :
    (∀ q q' X Y, coalesce q (A ++ B) = .ok X → coalesce q' (runs ++ B) = .ok Y → X = Y) ∧
      ∀ q, coalesceTallied q runs = .ok (runs, ⟨runs.length, 0, 0, 0, runs.length⟩) ∧
        ∀ text, Note.warn text ∉ coalesceNotes q runs := by
  have hr := isRuns_of_coalesce hA hruns
  constructor
  · intro q q' X Y hX hY
    have hvalid : ∀ h ∈ A ++ B, h.first ≤ h.last := List.forall_mem_append.mpr ⟨hA, hB⟩
    have hvalid' : ∀ h ∈ runs ++ B, h.first ≤ h.last :=
      List.forall_mem_append.mpr ⟨hr.first_le_last, hB⟩
    exact hr.eq_of_append hA (isRuns_of_coalesce hvalid hX) (isRuns_of_coalesce hvalid' hY)
  · intro q
    exact ⟨coalesceTallied_of_separated hr.first_le_last hr.separated q,
      warn_not_mem_coalesceNotes hr.first_le_last hr.separated q⟩

/-- Holdings that come in when `mixedHoldings` have been coalesced. -/
def laterHoldings : List Holding :=
  [⟨⟨40, 49⟩, .unknown, .assigned⟩, ⟨⟨15, 25⟩, .unknown, .available⟩]

/-- The runs of `mixedHoldings` and `laterHoldings` together. -/
def laterRuns : List Holding :=
  [⟨⟨0, 25⟩, .unknown, .reserved⟩, ⟨⟨40, 49⟩, .unknown, .assigned⟩,
    ⟨⟨2 ^ 128 - 32, 2 ^ 128 - 1⟩, .unknown, .allocated⟩]

theorem coalesce_append_of_coalesce_mixed :
    (∀ h ∈ mixedHoldings, h.first ≤ h.last) ∧ (∀ h ∈ laterHoldings, h.first ≤ h.last) ∧
      coalesce ⟨.iana, .ipv6⟩ mixedHoldings = .ok mixedRuns ∧
      coalesce ⟨.iana, .ipv6⟩ (mixedHoldings ++ laterHoldings) = .ok laterRuns ∧
      (∃ Y, coalesce ⟨.iana, .ipv6⟩ (mixedRuns ++ laterHoldings) = .ok Y ∧ laterRuns = Y) ∧
      coalesceTallied ⟨.iana, .ipv6⟩ mixedRuns = .ok (mixedRuns, ⟨2, 0, 0, 0, 2⟩) := by
  have hA : ∀ h ∈ mixedHoldings, h.first ≤ h.last := by decide
  have hB : ∀ h ∈ laterHoldings, h.first ≤ h.last := by decide
  have hruns : coalesce ⟨.iana, .ipv6⟩ mixedHoldings = .ok mixedRuns := by cbv
  have hlater : coalesce ⟨.iana, .ipv6⟩ (mixedHoldings ++ laterHoldings) = .ok laterRuns := by cbv
  have hstaged : coalesce ⟨.iana, .ipv6⟩ (mixedRuns ++ laterHoldings) = .ok laterRuns := by cbv
  obtain ⟨hsame, hagain⟩ := coalesce_append_of_coalesce hA hB hruns
  exact ⟨hA, hB, hruns, hlater, ⟨_, hstaged, hsame _ _ _ _ hlater hstaged⟩, (hagain _).1⟩

/-- Both ways have to succeed: a run that has grown beforehand may clash with a repetition of the
holding that it continues. -/
example :
    (coalesce ⟨.iana, .ipv6⟩ (mixedHoldings ++ [⟨⟨0, 9⟩, .unknown, .reserved⟩])).isOk = true ∧
      (coalesce ⟨.iana, .ipv6⟩ (mixedRuns ++ [⟨⟨0, 9⟩, .unknown, .reserved⟩])).isOk = false := by
  cbv

end Delegation
