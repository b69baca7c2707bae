import Delegation.Proofs.Build.Invariant
import Delegation.Proofs.Word
import Mathlib

/-!
# Counting addresses

The addresses of spans are counted by adding up their sizes.  A size or a sum beyond `maxCount` is
taken for `maxCount`; as sums only grow, that comes to the same as doing so once at the end
(`Span.total_eq`).  The sizes are found in words, and no difference is below zero
(`Span.exists_totalInWords_eq`).

Spans in ascending order that share no address have as many addresses as their sizes add up to
(`Span.encard_addresses`).  Runs are such spans, and so are the entries of an index.  They have
exactly the addresses that are held, so an address counts once, however many holdings or records
have it.  Only one number of addresses is not told: that of all addresses of 128 bits, be they in
one span or in several that touch (`Span.counts_of_ordered`).

Main result: `addresses_counted_once`.
-/

namespace Delegation

open Word

namespace Span

variable {ss : List Span} {s : Span} {n : Nat}

/-- The addresses that lie in some of the spans. -/
def addresses (ss : List Span) : Set Nat := {a | ∃ s ∈ ss, s.contains a}

/-- The total number of addresses, at most `maxCount`, with shared ones counted each time. -/
def total (ss : List Span) : Nat := ss.foldl (fun n s => min (n + s.size) maxCount) 0

/-! ## Sums -/

lemma foldl_size_eq (hn : n ≤ maxCount) :
    ss.foldl (fun n s => min (n + s.size) maxCount) n =
      min (n + (ss.map fun s => s.last - s.first + 1).sum) maxCount := by
  induction ss generalizing n with
  | nil => simp [hn]
  | cons s ss ih =>
    rw [List.foldl_cons, ih (Nat.min_le_right _ _), List.map_cons, List.sum_cons, size]
    omega

/-- Cutting off every sum is cutting off the last one. -/
theorem total_eq (ss : List Span) :
    total ss = min (ss.map fun s => s.last - s.first + 1).sum maxCount := by
  rw [total, foldl_size_eq (Nat.zero_le _), Nat.zero_add]

/-- The total number of addresses, found in words. -/
def totalInWords (ss : List Span) : Option (BitVec 128) :=
  ss.foldlM (fun n s => do
    let distance ← difference? (.ofNat 128 s.last) (.ofNat 128 s.first)
    return saturatingSum n (saturatingSum distance 1#128)) 0#128

/-- Spans of addresses of 128 bits are counted in words without a difference below zero. -/
theorem exists_totalInWords_eq (hbounds : ∀ s ∈ ss, s.first ≤ s.last ∧ s.last < 2 ^ 128) :
    ∃ n, totalInWords ss = some n ∧ n.toNat = total ss := by
  -- from the end, so that a step is the last one
  induction ss using List.reverseRecOn with
  | nil => exact ⟨0#128, rfl, rfl⟩
  | append_singleton ss s ih =>
    rw [List.forall_mem_append, List.forall_mem_singleton] at hbounds
    obtain ⟨hss, hle, hlast⟩ := hbounds
    obtain ⟨n, hn, hnat⟩ := ih hss
    have hfirstNat := toNat_ofNat_of_lt (Nat.lt_of_le_of_lt hle hlast)
    have hlastNat := toNat_ofNat_of_lt hlast
    obtain ⟨distance, hdistance, hdistanceNat⟩ := exists_difference?_eq_some
      (a := BitVec.ofNat 128 s.last) (b := BitVec.ofNat 128 s.first) (by omega)
    rw [totalInWords] at hn
    refine ⟨saturatingSum n (saturatingSum distance 1#128), ?_, ?_⟩
    · rw [totalInWords, List.foldlM_append, hn]
      simp [hdistance]
    · have hone : (1#128).toNat = 1 := rfl
      rw [total, List.foldl_append, ← total, ← hnat]
      simp only [toNat_saturatingSum, hdistanceNat, hfirstNat, hlastNat, hone, List.foldl_cons,
        List.foldl_nil, size, maxCount]

/-! ## Spans that share no address -/

lemma addresses_cons (s : Span) (ss : List Span) :
    addresses (s :: ss) = ↑(Finset.Icc s.first s.last) ∪ addresses ss := by
  ext a
  simp [addresses, contains_iff]

/-- Spans in order have as many addresses as their sizes add up to. -/
theorem encard_addresses (hle : ∀ s ∈ ss, s.first ≤ s.last)
    (hordered : ss.Pairwise fun s t => s.last < t.first) :
    (addresses ss).encard = ((ss.map fun s => s.last - s.first + 1).sum : ℕ) := by
  induction ss with
  | nil => simp [addresses]
  | cons s ss ih =>
    rw [List.forall_mem_cons] at hle
    rw [List.pairwise_cons] at hordered
    have hdisjoint : Disjoint (↑(Finset.Icc s.first s.last) : Set ℕ) (addresses ss) := by
      rw [Set.disjoint_left]
      rintro a ha ⟨t, ht, hta⟩
      rw [Finset.mem_coe, Finset.mem_Icc] at ha
      rw [contains_iff] at hta
      have := hordered.1 t ht
      omega
    have hsize : (Finset.Icc s.first s.last).card = s.last - s.first + 1 := by
      rw [Nat.card_Icc]
      omega
    rw [addresses_cons, Set.encard_union_eq hdisjoint, Set.encard_coe_eq_coe_finsetCard, hsize,
      ih hle.2 hordered.2, ← Nat.cast_add, List.map_cons, List.sum_cons]

/-- Spans in order count the addresses that they have, unless these are all there are. -/
theorem counts_of_ordered {held : Nat → Prop}
    (hbounds : ∀ s ∈ ss, s.first ≤ s.last ∧ s.last < 2 ^ 128)
    (hordered : ss.Pairwise fun s t => s.last < t.first)
    (hheld : ∀ a, a ∈ addresses ss ↔ held a) :
    ∃ n : ℕ, {a | held a}.encard = n ∧ total ss = min n maxCount ∧
      (total ss = n ∨ ∀ a < 2 ^ 128, held a) ∧
      (totalInWords ss).map BitVec.toNat = some (total ss) := by
  have haddresses : {a | held a} = addresses ss := by
    ext a
    exact (hheld a).symm
  have hcount := encard_addresses (fun s hs => (hbounds s hs).1) hordered
  obtain ⟨count, hwords, hnat⟩ := exists_totalInWords_eq hbounds
  refine ⟨_, by rw [haddresses, hcount], total_eq ss, ?_, by rw [hwords, Option.map_some, hnat]⟩
  rw [total_eq, or_iff_not_imp_left]
  intro hmany a ha
  -- there are as many addresses as numbers of 128 bits, so there is no other
  have hsubset : addresses ss ⊆ ↑(Finset.range (2 ^ 128)) := by
    rintro a ⟨s, hs, hsa⟩
    rw [contains_iff] at hsa
    rw [Finset.mem_coe, Finset.mem_range]
    exact Nat.lt_of_le_of_lt hsa.2 (hbounds s hs).2
  have hcard : (↑(Finset.range (2 ^ 128)) : Set ℕ).encard ≤ (addresses ss).encard := by
    rw [hcount, Set.encard_coe_eq_coe_finsetCard, Finset.card_range, Nat.cast_le]
    have : maxCount + 1 = 2 ^ 128 := rfl
    omega
  have hall := (Finset.finite_toSet _).eq_of_subset_of_encard_le' hsubset hcard
  rw [← hheld, hall, Finset.mem_coe, Finset.mem_range]
  exact ha

end Span

/-! ## Runs -/

open Holding (Covers)

/-- Runs end where some holding ends, or before. -/
lemma IsRuns.last_lt {hs runs : List Holding} {k : Holding} {limit : Nat} (hr : IsRuns hs runs)
    (hlast : ∀ h ∈ hs, h.last < limit) (hk : k ∈ runs) : k.last < limit := by
  obtain ⟨h, hh, ha⟩ := (hr.covers_iff k.last).mp
    ⟨k, hk, Span.contains_iff.mpr ⟨hr.first_le_last k hk, Nat.le_refl _⟩⟩
  exact Nat.lt_of_le_of_lt (Span.contains_iff.mp ha).2 (hlast h hh)

lemma Holding.totalSize_eq (hs : List Holding) :
    totalSize hs = Span.total (hs.map Holding.toSpan) := by
  rw [totalSize, Span.total, List.foldl_map]

lemma Holding.mem_addresses {hs : List Holding} {a : Nat} :
    a ∈ Span.addresses (hs.map Holding.toSpan) ↔ Covers hs a := by
  simp [Span.addresses, Covers]

/-! ## Indexes -/

lemma RangeIndex.addressCount_eq (x : RangeIndex) :
    x.addressCount = Span.total (x.entries.toList.map Entry.toSpan) := by
  rw [addressCount, Span.total, List.foldl_map]

lemma RangeIndex.mem_addresses {x : RangeIndex} {a : Nat} :
    a ∈ Span.addresses (x.entries.toList.map Entry.toSpan) ↔
      ∃ e ∈ x.entries.toList, e.contains a := by
  simp [Span.addresses]

/-! ## What is counted -/

/-- The addresses of the runs of holdings are those that some holding has, each counted once, and
the addresses of an index are those that some record of the realm and of a group delegates.  Their
number is told exactly unless it is that of all addresses of 128 bits, and it is found in words. -/
theorem addresses_counted_once :
    (∀ (r : Realm) (hs runs : List Holding), (∀ h ∈ hs, h.first ≤ h.last ∧ h.last < 2 ^ 128) →
      coalesce r hs = .ok runs →
        ∃ n : ℕ, {a | Covers hs a}.encard = n ∧ Holding.totalSize runs = min n maxCount ∧
          (Holding.totalSize runs = n ∨ ∀ a < 2 ^ 128, Covers hs a) ∧
          (Span.totalInWords (runs.map Holding.toSpan)).map BitVec.toNat =
            some (Holding.totalSize runs)) ∧
    ∀ (table : CountryTable) (r : Realm) (records : List Record) (x : RangeIndex),
      build table r records = .ok x →
        ∃ n : ℕ, {a | ∃ g, Build.OwnedBy r records g a}.encard = n ∧
          x.addressCount = min n maxCount ∧
          (x.addressCount = n ∨ ∀ a < 2 ^ 128, ∃ g, Build.OwnedBy r records g a) ∧
          (Span.totalInWords (x.entries.toList.map Entry.toSpan)).map BitVec.toNat =
            some x.addressCount := by
  constructor
  · intro r hs runs hvalid hok
    have hr := isRuns_of_coalesce (fun h hh => (hvalid h hh).1) hok
    rw [Holding.totalSize_eq]
    refine Span.counts_of_ordered ?_ ?_ fun a => ?_
    · rw [List.forall_mem_map]
      exact fun k hk => ⟨hr.first_le_last k hk, hr.last_lt (fun h hh => (hvalid h hh).2) hk⟩
    · rw [List.pairwise_map]
      exact hr.separated.imp Nat.lt_of_succ_lt
    · rw [Holding.mem_addresses, hr.covers_iff]
  · intro table r records x hx
    obtain ⟨runs, hb⟩ := Build.built_of_build hx
    have hindex := hb.isIndexOf
    rw [RangeIndex.addressCount_eq]
    refine Span.counts_of_ordered ?_ ?_ fun a => ?_
    · rw [List.forall_mem_map]
      intro e he
      obtain ⟨hle, hlast⟩ := hindex.bounds e he
      exact ⟨hle, Nat.lt_of_le_of_lt hlast r.family.maxAddress_lt_two_pow⟩
    · rw [List.pairwise_map]
      exact hindex.ordered
    · rw [RangeIndex.mem_addresses, hb.exists_entry_iff]

/-- Holdings and records that overlap, touch and repeat each other. -/
theorem addresses_counted_once_mixed :
    (coalesce ⟨.iana, .ipv6⟩ mixedHoldings = .ok mixedRuns ∧
      {a | Covers mixedHoldings a}.encard = 52 ∧ Holding.totalSize mixedRuns = 52) ∧
    build germanyFrance ⟨.ripencc, .ipv4⟩ mixedRecords = .ok mixedIndex ∧
      {a | ∃ g, Build.OwnedBy ⟨.ripencc, .ipv4⟩ mixedRecords g a}.encard = 640 ∧
      mixedIndex.addressCount = 640 := by
  have hlimit : maxCount = 2 ^ 128 - 1 := rfl
  obtain ⟨hruns, hindex⟩ := addresses_counted_once
  constructor
  · have hok : coalesce ⟨.iana, .ipv6⟩ mixedHoldings = .ok mixedRuns := by cbv
    have hsize : Holding.totalSize mixedRuns = 52 := by decide
    obtain ⟨n, hn, hcount, -, -⟩ := hruns _ _ _ (by decide) hok
    obtain rfl : n = 52 := by omega
    exact ⟨hok, hn, hsize⟩
  · have hok : build germanyFrance ⟨.ripencc, .ipv4⟩ mixedRecords = .ok mixedIndex := by cbv
    have hsize : mixedIndex.addressCount = 640 := by decide
    obtain ⟨n, hn, hcount, -, -⟩ := hindex _ _ _ _ hok
    obtain rfl : n = 640 := by omega
    exact ⟨hok, hn, hsize⟩

/-- Both halves of the IPv6 space have all addresses between them. -/
example : RangeIndex.addressCount ⟨⟨.apnic, .ipv6⟩,
    #[⟨⟨0, 2 ^ 127 - 1⟩, 0, 1⟩, ⟨⟨2 ^ 127, 2 ^ 128 - 1⟩, 1, 1⟩]⟩ = 2 ^ 128 - 1 := by decide

end Delegation
