import Delegation.Proofs.Sequence
import Delegation.Span

/-!
# Who owns which address

A tenure is a span of addresses with its owner.  A list of tenures says of every address who
owns it.  It is normal if the tenures are not empty and in ascending order, no two of them
share an address, and those which touch have different owners.

The tenures of a normal list are exactly the maximal spans that one owner has
(`Normal.mem_iff`).  Hence a normal list is determined by the map of ownership that it
describes (`Normal.eq_of_owns`), however it has been made.
-/

namespace Delegation

/-- A span with its owner. -/
@[ext]
structure Tenure (κ : Type) extends Span where
  owner : κ
  deriving DecidableEq

namespace Tenure

variable {κ : Type} {ts us : List (Tenure κ)} {t u : Tenure κ}

/-- An owner has an address by one of the tenures. -/
def Owns (ts : List (Tenure κ)) (k : κ) (a : Nat) : Prop :=
  ∃ t ∈ ts, t.owner = k ∧ t.contains a

/-- The tenures are in ascending order and cannot be joined. -/
structure Normal (ts : List (Tenure κ)) : Prop where
  first_le_last : ∀ t ∈ ts, t.first ≤ t.last
  ordered : ts.Pairwise fun t u => t.last < u.first
  maximal : ts.Pairwise fun t u => t.last + 1 = u.first → t.owner ≠ u.owner

/-- A tenure is a maximal span of addresses that its owner has. -/
structure IsMaximal (owns : κ → Nat → Prop) (t : Tenure κ) : Prop where
  first_le_last : t.first ≤ t.last
  owned : ∀ a, t.contains a → owns t.owner a
  not_before : ∀ a, a + 1 = t.first → ¬ owns t.owner a
  not_behind : ¬ owns t.owner (t.last + 1)

namespace Normal

/-- Of two tenures one ends before the other starts. -/
lemma eq_or_disjoint (h : Normal ts) (ht : t ∈ ts) (hu : u ∈ ts) :
    t = u ∨ t.last < u.first ∨ u.last < t.first :=
  Sequence.eq_or_of_pairwise h.ordered ht hu

/-- Two tenures that touch have different owners. -/
lemma owner_ne (h : Normal ts) (ht : t ∈ ts) (hu : u ∈ ts) (htouch : t.last + 1 = u.first) :
    t.owner ≠ u.owner := by
  have hle := h.first_le_last t ht
  rcases Sequence.eq_or_of_pairwise (h.ordered.and h.maximal) ht hu with rfl | ⟨-, hne⟩ | ⟨hlt, -⟩
  · omega
  · exact hne htouch
  · -- the later tenure cannot end right before the earlier one starts
    have := h.first_le_last u hu
    omega

lemma isMaximal_of_mem (h : Normal ts) (ht : t ∈ ts) : IsMaximal (Owns ts) t := by
  have hle := h.first_le_last t ht
  refine ⟨hle, fun a ha => ⟨t, ht, rfl, ha⟩, ?_, ?_⟩
  · rintro a ha ⟨u, hu, howner, hua⟩
    rw [Span.contains_iff] at hua
    rcases h.eq_or_disjoint hu ht with rfl | hlt | hlt
    · omega
    · exact h.owner_ne hu ht (by omega) howner
    · omega
  · rintro ⟨u, hu, howner, hua⟩
    rw [Span.contains_iff] at hua
    rcases h.eq_or_disjoint ht hu with rfl | hlt | hlt
    · omega
    · exact h.owner_ne ht hu (by omega) howner.symm
    · omega

lemma mem_of_isMaximal (h : Normal ts) (ht : IsMaximal (Owns ts) t) : t ∈ ts := by
  have hle := ht.first_le_last
  obtain ⟨u, hu, howner, hua⟩ := ht.owned t.first (Span.contains_iff.mpr ⟨Nat.le_refl _, hle⟩)
  have hmax := h.isMaximal_of_mem hu
  rw [Span.contains_iff] at hua
  -- a tenure that began earlier would have the address right before `t`
  have hfirst : u.first = t.first := by
    by_contra hne
    refine ht.not_before (t.first - 1) (by omega) ?_
    rw [← howner]
    exact hmax.owned _ (Span.contains_iff.mpr ⟨by omega, by omega⟩)
  -- neither of the two goes on behind the other one
  have hlast : u.last = t.last := by
    rcases Nat.lt_trichotomy u.last t.last with hlt | heq | hlt
    · refine absurd ?_ hmax.not_behind
      rw [howner]
      exact ht.owned _ (Span.contains_iff.mpr ⟨by omega, by omega⟩)
    · exact heq
    · refine absurd ?_ ht.not_behind
      rw [← howner]
      exact hmax.owned _ (Span.contains_iff.mpr ⟨by omega, by omega⟩)
  rwa [Tenure.ext hfirst hlast howner] at hu

/-- The tenures of a normal list are the maximal spans of its owners. -/
theorem mem_iff (h : Normal ts) : t ∈ ts ↔ IsMaximal (Owns ts) t :=
  ⟨h.isMaximal_of_mem, h.mem_of_isMaximal⟩

lemma pairwise_first_lt (h : Normal ts) : ts.Pairwise fun t u => t.first < u.first := by
  refine h.ordered.imp_of_mem ?_
  intro t u ht _ hlt
  have hle := h.first_le_last t ht
  omega

/-- Normal lists that describe the same ownership are equal. -/
theorem eq_of_owns (h : Normal ts) (h' : Normal us) (howns : ∀ k a, Owns ts k a ↔ Owns us k a) :
    ts = us := by
  have hsame : Owns ts = Owns us := by
    ext k a
    exact howns k a
  refine Sequence.eq_of_ascending h.pairwise_first_lt h'.pairwise_first_lt ?_
  intro t
  rw [h.mem_iff, h'.mem_iff, hsame]

end Normal

end Tenure

end Delegation
