import Delegation.Holding.Coalesce
import Delegation.Order.Quicksort
import Mathlib.Tactic.Lemma

/-!
# One holding of each start

Before the sweep, coalescing sorts the holdings of a group and keeps the first one of each
start.  The list that is kept `Represents` the list that was given: its starts ascend, each of
its holdings is the first one with that start in the order of the given list, and no span of
the given list is missing.  It exists unless two holdings start at the same address and end
at different ones; reading then stops at a `FirstClash` of the sorted list.

Main results: `represents_of_distinct`, `firstClash_of_distinct` and
`exists_distinct_eq_ok_iff`.
-/

namespace Delegation.Coalesce

/-! ## Sorting by the start -/

lemma sortByFirst_perm (hs : List Holding) : (sortByFirst hs).Perm hs :=
  List.mergeSort_perm ..

lemma sortByFirst_pairwise (hs : List Holding) :
    (sortByFirst hs).Pairwise fun h k => h.first ≤ k.first :=
  Quicksort.stable_pairwise (fun h : Holding => h.first) hs

/-- Holdings with the same start keep their order. -/
theorem filter_sortByFirst (hs : List Holding) (a : Nat) :
    (sortByFirst hs).filter (·.first = a) = hs.filter (·.first = a) := by
  have hequal : (hs.filter (·.first = a)).Pairwise fun h k => decide (h.first ≤ k.first) := by
    refine List.pairwise_of_forall_mem_list ?_
    intro h hh k hk
    simp only [List.mem_filter, decide_eq_true_eq] at hh hk ⊢
    omega
  have hsub : (hs.filter (·.first = a)).Sublist (sortByFirst hs) := by
    refine List.sublist_mergeSort ?_ ?_ hequal List.filter_sublist
    · intro x y z hxy hyz
      simp only [decide_eq_true_eq] at hxy hyz ⊢
      omega
    · intro x y
      simp only [Bool.or_eq_true, decide_eq_true_eq]
      omega
  have hfilter := hsub.filter (·.first = a)
  rw [List.filter_filter] at hfilter
  simp only [Bool.and_self] at hfilter
  exact (hfilter.eq_of_length ((sortByFirst_perm hs).filter _).length_eq.symm).symm

/-- The first holding with a start is the same before and after sorting. -/
lemma find?_sortByFirst (hs : List Holding) (a : Nat) :
    (sortByFirst hs).find? (·.first = a) = hs.find? (·.first = a) := by
  rw [← List.head?_filter, ← List.head?_filter, filter_sortByFirst]

/-! ## What is kept -/

/-- The holdings `ds` are the first ones of their starts in `hs`, in ascending order, and
have all spans of `hs`. -/
structure Represents (hs ds : List Holding) : Prop where
  ascending : ds.Pairwise fun d e => d.first < e.first
  find?_first : ∀ d ∈ ds, hs.find? (·.first = d.first) = some d
  exists_toSpan : ∀ h ∈ hs, ∃ d ∈ ds, d.toSpan = h.toSpan

namespace Represents

variable {hs ds p kept : List Holding} {next d h : Holding}

lemma nil : Represents [] [] := ⟨.nil, by simp, by simp⟩

lemma mem (hr : Represents hs ds) (hd : d ∈ ds) : d ∈ hs :=
  List.mem_of_find?_eq_some (hr.find?_first d hd)

/-- Holdings of the given list with the same start have the same end. -/
lemma last_eq (hr : Represents hs ds) (hd : d ∈ hs) (hh : h ∈ hs) (hfirst : d.first = h.first) :
    d.last = h.last := by
  obtain ⟨d', hd', hds⟩ := hr.exists_toSpan d hd
  obtain ⟨h', hh', hhs⟩ := hr.exists_toSpan h hh
  have hsame : d'.first = h'.first := by rw [hds, hhs, hfirst]
  have heq : d' = h' := by
    have hd'' := hr.find?_first d' hd'
    rw [hsame, hr.find?_first h' hh'] at hd''
    exact (Option.some.inj hd'').symm
  rw [← congrArg Span.last hds, ← congrArg Span.last hhs, heq]

/-- A holding behind all others is kept as a further one. -/
lemma append (hr : Represents p ds) (hlt : ∀ d ∈ ds, d.first < next.first) :
    Represents (p ++ [next]) (ds ++ [next]) := by
  -- it is the first one with its start
  have hnone : p.find? (·.first = next.first) = none := by
    rw [List.find?_eq_none]
    intro x hx
    obtain ⟨d, hd, hdx⟩ := hr.exists_toSpan x hx
    have := hlt d hd
    simp only [decide_eq_true_eq, ← congrArg Span.first hdx]
    omega
  refine ⟨?_, ?_, ?_⟩
  · rw [List.pairwise_append]
    refine ⟨hr.ascending, by simp, ?_⟩
    intro d hd e he
    obtain rfl := List.mem_singleton.mp he
    exact hlt d hd
  · intro d hd
    rw [List.find?_append]
    rcases List.mem_append.mp hd with hd | hd
    · rw [hr.find?_first d hd, Option.some_or]
    · obtain rfl := List.mem_singleton.mp hd
      rw [hnone]
      simp
  · intro x hx
    rcases List.mem_append.mp hx with hx | hx
    · obtain ⟨d, hd, hdx⟩ := hr.exists_toSpan x hx
      exact ⟨d, by simp [hd], hdx⟩
    · obtain rfl := List.mem_singleton.mp hx
      exact ⟨x, by simp, rfl⟩

/-- A holding with a span that is kept already changes nothing. -/
lemma append_duplicate (hr : Represents p ds) (hd : d ∈ ds) (hspan : d.toSpan = next.toSpan) :
    Represents (p ++ [next]) ds := by
  refine ⟨hr.ascending, ?_, ?_⟩
  · intro e he
    rw [List.find?_append, hr.find?_first e he, Option.some_or]
  · intro x hx
    rcases List.mem_append.mp hx with hx | hx
    · exact hr.exists_toSpan x hx
    · obtain rfl := List.mem_singleton.mp hx
      exact ⟨d, hd, hspan⟩

end Represents

/-! ## Reading a sorted list -/

/-- Two holdings of a sorted list clash, and the holdings before the second one do not. -/
structure FirstClash (sorted : List Holding) (c : Clash) : Prop where
  exists_append : ∃ p rest, sorted = p ++ c.incoming :: rest ∧ Represents p c.kept.reverse
  existing_mem : c.existing ∈ c.kept
  first_eq : c.incoming.first = c.existing.first
  last_ne : c.incoming.last ≠ c.existing.last

/-- What reading one more holding does. -/
lemma readNext_cases (kept : List Holding) (next : Holding) :
    (readNext kept next = .ok (next :: kept) ∧
        ∀ latest ∈ kept.head?, next.first ≠ latest.first) ∨
      (readNext kept next = .ok kept ∧ ∃ latest ∈ kept.head?, latest.toSpan = next.toSpan) ∨
      ∃ latest ∈ kept.head?, readNext kept next = .error ⟨kept, latest, next⟩ ∧
        next.first = latest.first ∧ next.last ≠ latest.last := by
  cases kept with
  | nil => exact .inl ⟨rfl, by simp⟩
  | cons latest rest =>
    by_cases hfirst : next.first = latest.first
    · by_cases hlast : next.last = latest.last
      · refine .inr (.inl ⟨by simp [readNext, hfirst, hlast], latest, rfl, ?_⟩)
        cases hn : next.toSpan
        cases hl : latest.toSpan
        simp_all
      · exact .inr (.inr ⟨latest, rfl, by simp [readNext, hfirst, hlast], hfirst, hlast⟩)
    · refine .inl ⟨by simp [readNext, hfirst], ?_⟩
      intro k hk
      obtain rfl := Option.some.inj hk
      exact hfirst

/-- Everything kept starts no later than the latest, and so before a new start. -/
lemma first_lt_of_head? {p kept : List Holding} {next : Holding}
    (hr : Represents p kept.reverse) (hle : ∀ x ∈ p, x.first ≤ next.first)
    (hne : ∀ latest ∈ kept.head?, next.first ≠ latest.first) :
    ∀ d ∈ kept.reverse, d.first < next.first := by
  intro d hd
  have hdle := hle d (hr.mem hd)
  cases kept with
  | nil => simp at hd
  | cons latest rest =>
    have hlatest := hle latest (hr.mem (by simp))
    have hlne := hne latest rfl
    have hascending := hr.ascending
    rw [List.pairwise_reverse] at hascending
    rcases List.mem_cons.mp (List.mem_reverse.mp hd) with rfl | hd
    · omega
    · have := List.rel_of_pairwise_cons hascending hd
      omega

/-- Reading one more holding of a sorted list. -/
lemma represents_of_readNext {p kept kept' : List Holding} {next : Holding}
    (hr : Represents p kept.reverse) (hle : ∀ x ∈ p, x.first ≤ next.first)
    (h : readNext kept next = .ok kept') : Represents (p ++ [next]) kept'.reverse := by
  rcases readNext_cases kept next with
    ⟨hok, hne⟩ | ⟨hok, latest, hlatest, hspan⟩ | ⟨latest, -, herr, -⟩
  · obtain rfl := Except.ok.inj (hok.symm.trans h)
    rw [List.reverse_cons]
    exact hr.append (first_lt_of_head? hr hle hne)
  · obtain rfl := Except.ok.inj (hok.symm.trans h)
    exact hr.append_duplicate (List.mem_reverse.mpr (List.mem_of_mem_head? hlatest)) hspan
  · simp [h] at herr

/-- Reading the rest `l` of a sorted list `p ++ l`. -/
lemma represents_of_foldlM {p kept l kept' : List Holding} (hr : Represents p kept.reverse)
    (hsorted : (p ++ l).Pairwise fun h k => h.first ≤ k.first)
    (h : l.foldlM readNext kept = .ok kept') : Represents (p ++ l) kept'.reverse := by
  -- what has been kept represents what has been read at every point
  induction l generalizing p kept with
  | nil =>
    obtain rfl := Except.ok.inj h
    simpa using hr
  | cons next l ih =>
    have hle : ∀ x ∈ p, x.first ≤ next.first := fun x hx =>
      (List.pairwise_append.mp hsorted).2.2 x hx next (by simp)
    rw [List.foldlM_cons] at h
    cases hnext : readNext kept next with
    | error c => rw [hnext] at h; cases h
    | ok middle =>
      rw [hnext] at h
      have := ih (represents_of_readNext hr hle hnext) (by simpa using hsorted) h
      simpa using this

/-- Where reading the rest `l` of a sorted list `p ++ l` stops. -/
lemma firstClash_of_foldlM {p kept l : List Holding} {c : Clash} (hr : Represents p kept.reverse)
    (hsorted : (p ++ l).Pairwise fun h k => h.first ≤ k.first)
    (h : l.foldlM readNext kept = .error c) : FirstClash (p ++ l) c := by
  induction l generalizing p kept with
  | nil => cases h
  | cons next l ih =>
    have hle : ∀ x ∈ p, x.first ≤ next.first := fun x hx =>
      (List.pairwise_append.mp hsorted).2.2 x hx next (by simp)
    rw [List.foldlM_cons] at h
    cases hnext : readNext kept next with
    | ok middle =>
      rw [hnext] at h
      have := ih (represents_of_readNext hr hle hnext) (by simpa using hsorted) h
      simpa using this
    | error c' =>
      rw [hnext] at h
      obtain rfl := Except.error.inj h
      rcases readNext_cases kept next with
        ⟨hok, -⟩ | ⟨hok, -⟩ | ⟨latest, hlatest, herr, hfirst, hlast⟩
      · simp [hok] at hnext
      · simp [hok] at hnext
      · obtain rfl := Except.error.inj (herr.symm.trans hnext)
        exact ⟨⟨p, l, rfl, hr⟩, List.mem_of_mem_head? hlatest, hfirst, hlast⟩

/-! ## The holdings that are swept -/

lemma distinct_eq_ok_iff {hs ds : List Holding} :
    distinct hs = .ok ds ↔ (sortByFirst hs).foldlM readNext [] = .ok ds.reverse := by
  rw [distinct]
  cases (sortByFirst hs).foldlM readNext [] with
  | error c => simp [Except.map]
  | ok kept => simp [Except.map, List.reverse_eq_iff]

lemma distinct_eq_error_iff {hs : List Holding} {c : Clash} :
    distinct hs = .error c ↔ (sortByFirst hs).foldlM readNext [] = .error c := by
  rw [distinct]
  cases (sortByFirst hs).foldlM readNext [] <;> simp [Except.map]

/-- What is swept represents what was given. -/
theorem represents_of_distinct {hs ds : List Holding} (h : distinct hs = .ok ds) :
    Represents hs ds := by
  have hr : Represents ([] ++ sortByFirst hs) ds.reverse.reverse :=
    represents_of_foldlM (by exact Represents.nil) (sortByFirst_pairwise hs)
      (distinct_eq_ok_iff.mp h)
  rw [List.nil_append, List.reverse_reverse] at hr
  refine ⟨hr.ascending, ?_, ?_⟩
  · intro d hd
    rw [← find?_sortByFirst]
    exact hr.find?_first d hd
  · intro x hx
    exact hr.exists_toSpan x ((sortByFirst_perm hs).mem_iff.mpr hx)

/-- Reading stops at a clash of the sorted list. -/
theorem firstClash_of_distinct {hs : List Holding} {c : Clash} (h : distinct hs = .error c) :
    FirstClash (sortByFirst hs) c := by
  have hc : FirstClash ([] ++ sortByFirst hs) c :=
    firstClash_of_foldlM (by exact Represents.nil) (sortByFirst_pairwise hs)
      (distinct_eq_error_iff.mp h)
  rwa [List.nil_append] at hc

/-- Two holdings start at one address and end at different ones. -/
def Clashing (hs : List Holding) : Prop :=
  ∃ h ∈ hs, ∃ k ∈ hs, h.first = k.first ∧ h.last ≠ k.last

/-- The holdings of a clash are holdings of the given list. -/
lemma FirstClash.mem {hs : List Holding} {c : Clash} (hc : FirstClash (sortByFirst hs) c) :
    c.existing ∈ hs ∧ c.incoming ∈ hs := by
  obtain ⟨p, rest, hsorted, hr⟩ := hc.exists_append
  have hexisting := hr.mem (List.mem_reverse.mpr hc.existing_mem)
  rw [← (sortByFirst_perm hs).mem_iff, ← (sortByFirst_perm hs).mem_iff, hsorted]
  exact ⟨List.mem_append_left _ hexisting, by simp⟩

/-- The list that is swept exists unless two holdings clash. -/
theorem exists_distinct_eq_ok_iff {hs : List Holding} :
    (∃ ds, distinct hs = .ok ds) ↔ ¬ Clashing hs := by
  constructor
  · rintro ⟨ds, hds⟩ ⟨h, hh, k, hk, hfirst, hlast⟩
    exact hlast ((represents_of_distinct hds).last_eq hh hk hfirst)
  · intro hno
    -- reading can stop at a clash only
    cases hd : distinct hs with
    | ok ds => exact ⟨ds, rfl⟩
    | error c =>
      have hc := firstClash_of_distinct hd
      exact absurd ⟨_, hc.mem.2, _, hc.mem.1, hc.first_eq, hc.last_ne⟩ hno

end Delegation.Coalesce
