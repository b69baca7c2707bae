import Delegation.Index
import Delegation.Proofs.Sequence

/-!
# Finding the entry of an address

If the entries of an index are in ascending order and share no address, the search finds the
entry that contains an address, wherever it stands, and finds nothing if there is none
(`lookup_eq_some_iff`).
-/

namespace Delegation.RangeIndex

variable {x : RangeIndex} {a : Nat} {e d : Entry}

/-- The entries are not empty, in ascending order, and share no address. -/
structure Ordered (x : RangeIndex) : Prop where
  first_le_last : ∀ e ∈ x.entries.toList, e.first ≤ e.last
  last_lt_first : x.entries.toList.Pairwise fun d e => d.last < e.first

namespace Ordered

lemma getElem_lt (h : x.Ordered) {i j : Nat} (hij : i < j) (hj : j < x.entries.size) :
    x.entries[i].last < x.entries[j].first := by
  have := List.pairwise_iff_getElem.mp h.last_lt_first i j (by simp; omega) (by simpa) hij
  simpa using this

lemma ascending (h : x.Ordered) : Ascending x.entries := by
  intro i j hi hj hij
  rcases Nat.lt_or_eq_of_le hij with hlt | rfl
  · have hle := h.first_le_last x.entries[i] (Array.getElem_mem_toList hi)
    have := h.getElem_lt hlt hj
    omega
  · exact Nat.le_refl _

/-- An address lies in one entry at most. -/
lemma eq_of_contains (h : x.Ordered) (hd : d ∈ x.entries.toList) (he : e ∈ x.entries.toList)
    (hda : d.contains a) (hea : e.contains a) : d = e := by
  rw [Span.contains_iff] at hda hea
  rcases Sequence.eq_or_of_pairwise h.last_lt_first hd he with rfl | hlt | hlt
  · rfl
  · omega
  · omega

end Ordered

/-- The search finds the entry that contains the address. -/
theorem lookup_eq_some_iff (h : x.Ordered) :
    x.lookup a = some e ↔ e ∈ x.entries.toList ∧ e.contains a := by
  rw [lookup]
  have hsize := startsUpTo_le x a
  cases hn : x.startsUpTo a with
  | zero =>
    -- every entry starts behind the address
    simp only [reduceCtorEq, false_iff, not_and, Span.contains_iff]
    intro he
    obtain ⟨i, hi, rfl⟩ := List.getElem_of_mem he
    have hi : i < x.entries.size := by simpa using hi
    have hlt := lt_first_of_startsUpTo_le h.ascending hi (by omega : x.startsUpTo a ≤ i)
    rw [Array.getElem_toList]
    omega
  | succ p =>
    rw [hn] at hsize
    have hp : p < x.entries.size := hsize
    simp only [Array.getElem?_eq_getElem hp, Option.filter_eq_some_iff, Option.some.injEq]
    constructor
    · rintro ⟨rfl, ha⟩
      exact ⟨Array.getElem_mem_toList hp, ha⟩
    · rintro ⟨he, ha⟩
      refine ⟨?_, ha⟩
      obtain ⟨i, hi, rfl⟩ := List.getElem_of_mem he
      rw [Array.getElem_toList] at ha ⊢
      rw [Span.contains_iff] at ha
      have hi : i < x.entries.size := by simpa using hi
      rcases Nat.lt_trichotomy i p with hlt | rfl | hlt
      · -- the entry ends before the one at `p` starts, which is no later than the address
        have hfirst := first_le_of_lt_startsUpTo h.ascending hp (by omega : p < x.startsUpTo a)
        have := h.getElem_lt hlt hp
        omega
      · rfl
      · have := lt_first_of_startsUpTo_le h.ascending hi (by omega : x.startsUpTo a ≤ i)
        omega

/-- The search finds nothing exactly if no entry contains the address. -/
lemma isSome_lookup_iff (h : x.Ordered) :
    (x.lookup a).isSome ↔ ∃ e ∈ x.entries.toList, e.contains a := by
  rw [Option.isSome_iff_exists]
  exact exists_congr fun e => lookup_eq_some_iff h

end Delegation.RangeIndex
