import Delegation.Proofs.Coalesce.Tally

/-!
# What the counters mean

The sweep counts while its current run grows.  What it counts can be told from the given holdings
alone, by the addresses where any of them start: such an address is `Reached` by a holding that
starts before it, or it is `Touched` by one that ends right before it, or a run starts there.

The reason is that the current run ends where the holdings read so far end the latest (`Counted`).
So the next start lies inside or right behind the run exactly if it is reached or touched by any
holding read before it, and a holding behind it can do neither.

All of this depends on the spans of the holdings and not on their order.  So the counters are the
same for every order of the holdings, and with them the number of warnings.

Main result: `counters_of_coalesce`.
-/

namespace Delegation

namespace Coalesce

variable {hs hs' ds p rest : List Holding} {s : Sweep} {next : Holding} {a : Nat}

/-! ## Starts -/

/-- The addresses where holdings start. -/
def starts (hs : List Holding) : Finset Nat := (hs.map (·.first)).toFinset

/-- A holding that starts before the address reaches it. -/
def Reached (hs : List Holding) (a : Nat) : Prop := ∃ h ∈ hs, h.first < a ∧ a ≤ h.last

/-- A holding ends right before the address. -/
def Touched (hs : List Holding) (a : Nat) : Prop := ∃ h ∈ hs, h.last + 1 = a

instance : DecidablePred (Reached hs) := fun a =>
  inferInstanceAs (Decidable (∃ h ∈ hs, h.first < a ∧ a ≤ h.last))

instance : DecidablePred (Touched hs) := fun a =>
  inferInstanceAs (Decidable (∃ h ∈ hs, h.last + 1 = a))

/-- What is counted, by the starts of the holdings. -/
def countStarts (hs : List Holding) : CoalesceTally where
  input := hs.length
  duplicates := hs.length - (starts hs).card
  merges := ((starts hs).filter fun a => ¬ Reached hs a ∧ Touched hs a).card
  overlaps := ((starts hs).filter (Reached hs)).card
  output := ((starts hs).filter fun a => ¬ Reached hs a ∧ ¬ Touched hs a).card

lemma mem_starts : a ∈ starts hs ↔ ∃ h ∈ hs, h.first = a := by
  simp [starts]

lemma card_starts_le (hs : List Holding) : (starts hs).card ≤ hs.length := by
  have hstarts : (starts hs).card ≤ (hs.map (·.first)).length := List.toFinset_card_le _
  rwa [List.length_map] at hstarts

/-- Each start is reached, or touched and not reached, or neither. -/
lemma card_starts (hs : List Holding) :
    (starts hs).card =
      (countStarts hs).overlaps + (countStarts hs).merges + (countStarts hs).output := by
  rw [countStarts, Nat.add_assoc]
  simp only
  rw [← Finset.card_filter_add_card_filter_not (s := starts hs) (Reached hs)]
  congr 1
  rw [← Finset.card_filter_add_card_filter_not (s := (starts hs).filter _) (Touched hs),
    Finset.filter_filter, Finset.filter_filter]

/-- The lists have the same spans, however often and in whatever order. -/
def SameSpans (hs hs' : List Holding) : Prop :=
  ∀ P : Span → Prop, (∃ h ∈ hs, P h.toSpan) ↔ ∃ h ∈ hs', P h.toSpan

namespace SameSpans

lemma of_perm (h : hs.Perm hs') : SameSpans hs hs' := by
  intro P
  simp only [h.mem_iff]

lemma of_represents (h : Represents hs ds) : SameSpans hs ds := by
  intro P
  constructor
  · rintro ⟨k, hk, hP⟩
    obtain ⟨d, hd, hspan⟩ := h.exists_toSpan k hk
    exact ⟨d, hd, hspan ▸ hP⟩
  · rintro ⟨d, hd, hP⟩
    exact ⟨d, h.mem hd, hP⟩

lemma starts_eq (h : SameSpans hs hs') : starts hs = starts hs' := by
  ext a
  rw [mem_starts, mem_starts]
  exact h fun c => c.first = a

lemma reached_iff (h : SameSpans hs hs') : Reached hs a ↔ Reached hs' a :=
  h fun c => c.first < a ∧ a ≤ c.last

lemma touched_iff (h : SameSpans hs hs') : Touched hs a ↔ Touched hs' a :=
  h fun c => c.last + 1 = a

lemma overlaps_eq (h : SameSpans hs hs') :
    (countStarts hs).overlaps = (countStarts hs').overlaps := by
  simp only [countStarts, h.starts_eq, h.reached_iff]

lemma merges_eq (h : SameSpans hs hs') :
    (countStarts hs).merges = (countStarts hs').merges := by
  simp only [countStarts, h.starts_eq, h.reached_iff, h.touched_iff]

end SameSpans

/-- The order of the holdings does not matter. -/
lemma countStarts_perm (h : hs.Perm hs') : countStarts hs = countStarts hs' := by
  have hspans := SameSpans.of_perm h
  simp only [countStarts, h.length_eq, hspans.starts_eq, hspans.reached_iff, hspans.touched_iff]

/-! ## One step of the sweep -/

namespace Sweep

lemma last_step (s : Sweep) (hle : next.first ≤ next.last) :
    (s.step next).current.last = max s.current.last next.last := by
  rcases Nat.lt_trichotomy (s.current.last + 1) next.first with hgap | htouch | hoverlap
  · rw [step_of_gap hgap, Nat.max_eq_right (by omega)]
  · rw [step_of_touch htouch, Nat.max_eq_right (by omega)]
    rfl
  · rw [step_of_overlap (by omega)]
    rfl

lemma length_absorbed_step (s : Sweep) (next : Holding) :
    (s.step next).absorbed.length =
      s.absorbed.length + if next.first ≤ s.current.last then 1 else 0 := by
  rcases Nat.lt_trichotomy (s.current.last + 1) next.first with hgap | htouch | hoverlap
  · rw [step_of_gap hgap, if_neg (by omega), Nat.add_zero]
  · rw [step_of_touch htouch, if_neg (by omega)]
    rfl
  · rw [step_of_overlap (by omega), if_pos (by omega), List.length_cons]

lemma merges_step (s : Sweep) (next : Holding) :
    (s.step next).merges = s.merges + if s.current.last + 1 = next.first then 1 else 0 := by
  rcases Nat.lt_trichotomy (s.current.last + 1) next.first with hgap | htouch | hoverlap
  · rw [step_of_gap hgap, if_neg (by omega), Nat.add_zero]
  · rw [step_of_touch htouch, if_pos htouch]
  · rw [step_of_overlap (by omega), if_neg (by omega), Nat.add_zero]

end Sweep

/-! ## Another start -/

/-- A holding that starts at an address or behind it does not reach it. -/
lemma reached_concat_iff (ha : a ≤ next.first) : Reached (p ++ [next]) a ↔ Reached p a := by
  simp only [Reached, List.mem_append, List.mem_singleton, or_and_right, exists_or,
    exists_eq_left]
  exact or_iff_left (by omega)

/-- A holding that starts at an address or behind it does not touch it. -/
lemma touched_concat_iff (hle : next.first ≤ next.last) (ha : a ≤ next.first) :
    Touched (p ++ [next]) a ↔ Touched p a := by
  simp only [Touched, List.mem_append, List.mem_singleton, or_and_right, exists_or,
    exists_eq_left]
  exact or_iff_left (by omega)

/-- The starts of a kind, with one more start behind them. -/
lemma card_filter_starts_concat {P Q : Nat → Prop} [DecidablePred P] [DecidablePred Q]
    (hlt : ∀ h ∈ p, h.first < next.first) (hPQ : ∀ a ≤ next.first, P a ↔ Q a) :
    ((starts (p ++ [next])).filter P).card =
      ((starts p).filter Q).card + if Q next.first then 1 else 0 := by
  have hnew : next.first ∉ starts p := by
    rw [mem_starts]
    rintro ⟨h, hh, hfirst⟩
    exact Nat.ne_of_lt (hlt h hh) hfirst
  have hstarts : starts (p ++ [next]) = insert next.first (starts p) := by
    ext a
    simp [mem_starts, or_comm, eq_comm]
  have hfilter : (starts p).filter P = (starts p).filter Q := by
    refine Finset.filter_congr fun a ha => ?_
    obtain ⟨h, hh, rfl⟩ := mem_starts.mp ha
    exact hPQ _ (Nat.le_of_lt (hlt h hh))
  rw [hstarts, Finset.filter_insert, hfilter]
  simp only [hPQ _ (Nat.le_refl _)]
  split
  · rw [Finset.card_insert_of_notMem fun h => hnew (Finset.mem_filter.mp h).1]
  · rfl

/-! ## The invariant -/

/-- The sweep has counted the starts of the holdings `p`, and its current run ends where the last of
them does. -/
structure Counted (p : List Holding) (s : Sweep) : Prop where
  isGreatest : IsGreatest {a | ∃ h ∈ p, h.last = a} s.current.last
  overlaps_eq : s.absorbed.length = (countStarts p).overlaps
  merges_eq : s.merges = (countStarts p).merges

namespace Counted

lemma start {h : Holding} (hle : h.first ≤ h.last) : Counted [h] (Sweep.start h) := by
  have hreached : ¬ Reached [h] h.first := by
    simp [Reached]
  have htouched : ¬ Touched [h] h.first := by
    simp only [Touched, List.mem_singleton, exists_eq_left]
    omega
  refine ⟨by simp [Sweep.start, isGreatest_singleton], ?_, ?_⟩
  · simp [countStarts, starts, Sweep.start, Finset.filter_singleton, hreached]
  · simp [countStarts, starts, Sweep.start, Finset.filter_singleton, htouched]

/-- A start behind those that have been read is reached if it lies inside the current run. -/
lemma reached_iff (hc : Counted p s) (hlt : ∀ h ∈ p, h.first < next.first) :
    Reached p next.first ↔ next.first ≤ s.current.last := by
  obtain ⟨⟨k, hk, hlast⟩, hgreatest⟩ := hc.isGreatest
  constructor
  · rintro ⟨h, hh, -, hle⟩
    exact Nat.le_trans hle (hgreatest ⟨h, hh, rfl⟩)
  · intro hle
    exact ⟨k, hk, hlt k hk, hlast ▸ hle⟩

/-- A start behind those that have been read is touched, but not reached, if it lies right behind
the current run. -/
lemma touched_iff (hc : Counted p s) (hlt : ∀ h ∈ p, h.first < next.first) :
    ¬ Reached p next.first ∧ Touched p next.first ↔ s.current.last + 1 = next.first := by
  rw [hc.reached_iff hlt]
  obtain ⟨⟨k, hk, hlast⟩, hgreatest⟩ := hc.isGreatest
  constructor
  · rintro ⟨hnot, h, hh, htouch⟩
    have hle : h.last ≤ s.current.last := hgreatest ⟨h, hh, rfl⟩
    omega
  · intro htouch
    exact ⟨by omega, k, hk, hlast ▸ htouch⟩

/-- Reading one more holding. -/
lemma step (hc : Counted p s) (hle : next.first ≤ next.last)
    (hlt : ∀ h ∈ p, h.first < next.first) : Counted (p ++ [next]) (s.step next) := by
  refine ⟨?_, ?_, ?_⟩
  · have hlasts : {a | ∃ h ∈ p ++ [next], h.last = a} =
        insert next.last {a | ∃ h ∈ p, h.last = a} := by
      ext a
      simp [or_comm, eq_comm]
    rw [s.last_step hle, hlasts, Nat.max_comm]
    exact hc.isGreatest.insert next.last
  · rw [s.length_absorbed_step, hc.overlaps_eq]
    simp only [countStarts]
    rw [card_filter_starts_concat hlt fun a => reached_concat_iff]
    simp only [hc.reached_iff hlt]
  · rw [s.merges_step, hc.merges_eq]
    simp only [countStarts]
    rw [card_filter_starts_concat hlt fun a ha =>
      and_congr (not_congr (reached_concat_iff ha)) (touched_concat_iff hle ha)]
    simp only [hc.touched_iff hlt]

/-- Reading all holdings that are left. -/
lemma foldl (hc : Counted p s) (hle : ∀ h ∈ rest, h.first ≤ h.last)
    (hascending : (p ++ rest).Pairwise fun h k => h.first < k.first) :
    Counted (p ++ rest) (rest.foldl Sweep.step s) := by
  induction rest generalizing p s with
  | nil => simpa using hc
  | cons next rest ih =>
    have hlt : ∀ h ∈ p, h.first < next.first := fun h hh =>
      (List.pairwise_append.mp hascending).2.2 h hh next (by simp)
    have hrest := ih (hc.step (hle next (by simp)) hlt) (fun h hh => hle h (by simp [hh]))
      (by simpa using hascending)
    simpa using hrest

end Counted

/-- The whole sweep has counted the starts of its holdings. -/
lemma counted_of_sweep (hle : ∀ d ∈ ds, d.first ≤ d.last)
    (hascending : ds.Pairwise fun d e => d.first < e.first) (h : sweep ds = some s) :
    Counted ds s := by
  cases ds with
  | nil => cases h
  | cons d rest =>
    obtain rfl := Option.some.inj h
    exact (Counted.start (hle d (by simp))).foldl (fun h hh => hle h (by simp [hh])) hascending

/-! ## All counters -/

lemma card_starts_of_ascending (hascending : ds.Pairwise fun d e => d.first < e.first) :
    (starts ds).card = ds.length := by
  rw [starts, List.toFinset_card_of_nodup, List.length_map]
  exact List.pairwise_map.mpr (hascending.imp fun hlt => Nat.ne_of_lt hlt)

/-- The tally counts starts. -/
theorem tally_eq_countStarts (hvalid : ∀ h ∈ hs, h.first ≤ h.last) (hr : Represents hs ds) :
    tally hs ds = countStarts hs := by
  have hspans := SameSpans.of_represents hr
  have hcard : (starts hs).card = ds.length := by
    rw [hspans.starts_eq, card_starts_of_ascending hr.ascending]
  rw [tally]
  cases hsweep : sweep ds with
  | none =>
    -- nothing is kept, so nothing has been given
    obtain rfl := sweep_eq_none_iff.mp hsweep
    have hnil : hs = [] := by
      refine List.eq_nil_iff_forall_not_mem.mpr fun h hh => ?_
      obtain ⟨d, hd, -⟩ := hr.exists_toSpan h hh
      cases hd
    subst hnil
    rfl
  | some s =>
    have hc := counted_of_sweep (fun d hd => hvalid d (hr.mem hd)) hr.ascending hsweep
    have hoverlaps : s.absorbed.length = (countStarts hs).overlaps := by
      rw [hc.overlaps_eq, hspans.overlaps_eq]
    have hmerges : s.merges = (countStarts hs).merges := by
      rw [hc.merges_eq, hspans.merges_eq]
    have houtput : s.runs.length = (countStarts hs).output := by
      have hlength := length_of_sweep hsweep
      have hsum := card_starts hs
      omega
    simp only [hoverlaps, hmerges, houtput, ← hcard]
    rfl

/-- There is a warning for each holding that starts inside a run. -/
lemma countP_warn_coalesceNotes {r : Realm} (hds : distinct hs = .ok ds) :
    (coalesceNotes r hs).countP (·.severity = .warn) = (tally hs ds).overlaps := by
  rw [coalesceNotes, hds]
  cases ds with
  | nil => rfl
  | cons d rest =>
    obtain ⟨s, hs⟩ : ∃ s, sweep (d :: rest) = some s := ⟨_, rfl⟩
    have hwarn : (overlapNotes r (d :: rest)).countP (·.severity = .warn) = s.absorbed.length := by
      have hall : ∀ n ∈ overlapNotes r (d :: rest), decide (n.severity = .warn) = true := by
        intro n hn
        rw [overlapNotes, hs] at hn
        obtain ⟨_, -, rfl⟩ := List.mem_map.mp hn
        rfl
      rw [List.countP_eq_length.mpr hall, overlapNotes, hs, List.length_map, List.length_reverse]
    simp only [List.countP_append, hwarn, tally, hs]
    rfl

end Coalesce

open Coalesce

variable {r : Realm} {hs hs' runs : List Holding} {t : CoalesceTally}

lemma coalesceTallied_eq_ok_iff :
    coalesceTallied r hs = .ok (runs, t) ↔
      ∃ ds, distinct hs = .ok ds ∧ runsOf ds = runs ∧ tally hs ds = t := by
  rw [coalesceTallied]
  cases distinct hs <;> simp

lemma tally_of_coalesceTallied (hvalid : ∀ h ∈ hs, h.first ≤ h.last)
    (h : coalesceTallied r hs = .ok (runs, t)) :
    t = countStarts hs ∧ (coalesceNotes r hs).countP (·.severity = .warn) = t.overlaps := by
  obtain ⟨ds, hds, -, rfl⟩ := coalesceTallied_eq_ok_iff.mp h
  exact ⟨tally_eq_countStarts hvalid (represents_of_distinct hds), countP_warn_coalesceNotes hds⟩

/-- Holdings that are coalesced in one order are coalesced in any order. -/
lemma exists_coalesceTallied_of_perm (hperm : hs'.Perm hs)
    (h : coalesceTallied r hs = .ok (runs, t)) :
    ∃ runs' t', coalesceTallied r hs' = .ok (runs', t') := by
  obtain ⟨ds, hds, -, -⟩ := coalesceTallied_eq_ok_iff.mp h
  have hno : ¬ Clashing hs' := by
    simp only [Clashing, hperm.mem_iff]
    exact exists_distinct_eq_ok_iff.mp ⟨ds, hds⟩
  obtain ⟨ds', hds'⟩ := exists_distinct_eq_ok_iff.mpr hno
  exact ⟨_, _, coalesceTallied_eq_ok_iff.mpr ⟨ds', hds', rfl, rfl⟩⟩

/-- The counters of coalescing can be told from the addresses where holdings start: a repeated start
is a duplicate, one that a holding before it reaches is an overlap, one that is only touched is a
merge, and a run starts at every other one.  They are the same for all orders of the holdings, and
there is a warning for each overlap. -/
theorem counters_of_coalesce (hvalid : ∀ h ∈ hs, h.first ≤ h.last)
    (h : coalesceTallied r hs = .ok (runs, t)) :
    t.input = hs.length ∧
      t.duplicates + (starts hs).card = t.input ∧
      t.overlaps = ((starts hs).filter (Reached hs)).card ∧
      t.merges = ((starts hs).filter fun a => ¬ Reached hs a ∧ Touched hs a).card ∧
      t.output = ((starts hs).filter fun a => ¬ Reached hs a ∧ ¬ Touched hs a).card ∧
      t.output = runs.length ∧
      t.input = t.duplicates + t.merges + t.overlaps + t.output ∧
      (∀ hs', hs'.Perm hs → ∃ runs', coalesceTallied r hs' = .ok (runs', t)) ∧
      (coalesceNotes r hs).countP (·.severity = .warn) = t.overlaps := by
  obtain ⟨rfl, hwarn⟩ := tally_of_coalesceTallied hvalid h
  obtain ⟨-, houtput, hbalance⟩ := accounts_of_coalesceTallied h
  refine ⟨rfl, Nat.sub_add_cancel (card_starts_le hs), rfl, rfl, rfl, houtput, hbalance, ?_, hwarn⟩
  intro hs' hperm
  obtain ⟨runs', t', h'⟩ := exists_coalesceTallied_of_perm hperm h
  have hvalid' : ∀ h ∈ hs', h.first ≤ h.last := fun k hk => hvalid k (hperm.mem_iff.mp hk)
  obtain ⟨rfl, -⟩ := tally_of_coalesceTallied hvalid' h'
  exact ⟨runs', by rw [h', countStarts_perm hperm]⟩

/-- `mixedHoldings` start at five addresses.  Nothing is reached but 2 and the last start, and 10 is
touched only. -/
theorem counters_of_coalesce_mixed :
    (∀ h ∈ mixedHoldings, h.first ≤ h.last) ∧
      coalesceTallied ⟨.iana, .ipv6⟩ mixedHoldings = .ok (mixedRuns, ⟨6, 1, 1, 2, 2⟩) ∧
      ((starts mixedHoldings).filter (Reached mixedHoldings)).card = 2 ∧
      ∃ runs,
        coalesceTallied ⟨.iana, .ipv6⟩ mixedHoldings.reverse = .ok (runs, ⟨6, 1, 1, 2, 2⟩) := by
  have hvalid : ∀ h ∈ mixedHoldings, h.first ≤ h.last := by decide
  have hok : coalesceTallied ⟨.iana, .ipv6⟩ mixedHoldings = .ok (mixedRuns, ⟨6, 1, 1, 2, 2⟩) := by
    cbv
  obtain ⟨-, -, hoverlaps, -, -, -, -, hperm, -⟩ := counters_of_coalesce hvalid hok
  exact ⟨hvalid, hok, hoverlaps.symm, hperm _ mixedHoldings.reverse_perm⟩

end Delegation
