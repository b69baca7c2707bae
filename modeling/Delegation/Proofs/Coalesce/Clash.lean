import Delegation.Proofs.Coalesce.Runs

/-!
# The clash that is reported

Coalescing fails if two holdings start at one address and end at different ones, and only then.  It
compares the holdings in the order of their starts, so it meets a clash at the least such address
first; and since holdings with the same start keep their order, the two that are reported are told
by the given list: the first holding with that start, and the first one behind it that ends
elsewhere (`LeastClash`).

Where the holdings lie inside runs makes no difference: each is compared with the holding kept for
its start and not with a run.

Main result: `coalesce_fails_iff_clashing`.
-/

namespace Delegation

namespace Coalesce

variable {hs : List Holding} {c : Clash} {existing incoming existing' incoming' : Holding} {a : Nat}

/-- Two holdings start at the address and end at different ones. -/
def ClashingAt (hs : List Holding) (a : Nat) : Prop :=
  ∃ h ∈ hs, ∃ k ∈ hs, h.first = a ∧ k.first = a ∧ h.last ≠ k.last

/-- Both holdings start at the least address where any two clash.  One is the first with that start
in the order of the list, the other the first of those that end elsewhere. -/
structure LeastClash (hs : List Holding) (existing incoming : Holding) : Prop where
  isLeast : IsLeast {a | ClashingAt hs a} existing.first
  find?_existing : hs.find? (fun h => h.first = existing.first) = some existing
  find?_incoming :
    hs.find? (fun h => h.first = existing.first ∧ h.last ≠ existing.last) = some incoming

lemma clashing_iff : Clashing hs ↔ ∃ a, ClashingAt hs a := by
  constructor
  · rintro ⟨h, hh, k, hk, hfirst, hlast⟩
    exact ⟨k.first, h, hh, k, hk, hfirst, rfl, hlast⟩
  · rintro ⟨a, h, hh, k, hk, hha, hka, hlast⟩
    exact ⟨h, hh, k, hk, hha.trans hka.symm, hlast⟩

/-- There is one least clash at most. -/
lemma LeastClash.unique (h : LeastClash hs existing incoming)
    (h' : LeastClash hs existing' incoming') : existing = existing' ∧ incoming = incoming' := by
  have hfirst := h.isLeast.unique h'.isLeast
  have hexisting := h.find?_existing
  rw [hfirst, h'.find?_existing] at hexisting
  obtain rfl := Option.some.inj hexisting
  exact ⟨rfl, Option.some.inj (h.find?_incoming.symm.trans h'.find?_incoming)⟩

/-! ## The clash that is met -/

/-- Among the holdings with one start, the first that ends elsewhere is the same before and after
sorting. -/
lemma find?_sortByFirst_last_ne (hs : List Holding) (a last : Nat) :
    (sortByFirst hs).find? (fun h => h.first = a ∧ h.last ≠ last) =
      hs.find? (fun h => h.first = a ∧ h.last ≠ last) := by
  have hfilter := congrArg (List.find? fun h => decide (h.last ≠ last)) (filter_sortByFirst hs a)
  rw [List.find?_filter, List.find?_filter] at hfilter
  simpa only [Bool.decide_and, decide_eq_true_eq] using hfilter

namespace FirstClash

lemma find?_existing (hc : FirstClash (sortByFirst hs) c) :
    hs.find? (fun h => h.first = c.existing.first) = some c.existing := by
  obtain ⟨p, rest, hsorted, hr⟩ := hc.exists_append
  have hfind := hr.find?_first c.existing (List.mem_reverse.mpr hc.existing_mem)
  rw [← find?_sortByFirst, hsorted, List.find?_append, hfind]
  rfl

lemma find?_incoming (hc : FirstClash (sortByFirst hs) c) :
    hs.find? (fun h => h.first = c.existing.first ∧ h.last ≠ c.existing.last) =
      some c.incoming := by
  obtain ⟨p, rest, hsorted, hr⟩ := hc.exists_append
  have hnone : p.find? (fun h => h.first = c.existing.first ∧ h.last ≠ c.existing.last) = none := by
    rw [List.find?_eq_none]
    intro h hh hclash
    obtain ⟨hfirst, hlast⟩ := of_decide_eq_true hclash
    -- what has been read before the clash ends where the kept holding with its start does
    exact hlast (hr.last_eq hh (hr.mem (List.mem_reverse.mpr hc.existing_mem)) hfirst)
  rw [← find?_sortByFirst_last_ne, hsorted, List.find?_append, hnone, Option.none_or]
  exact List.find?_cons_of_pos (decide_eq_true ⟨hc.first_eq, hc.last_ne⟩)

/-- Sorting leaves all clashes at lower addresses in front, where there are none. -/
lemma first_le_of_clashingAt (hc : FirstClash (sortByFirst hs) c) (ha : ClashingAt hs a) :
    c.existing.first ≤ a := by
  obtain ⟨p, rest, hsorted, hr⟩ := hc.exists_append
  have hascending := sortByFirst_pairwise hs
  rw [hsorted] at hascending
  by_contra hlt
  have hbefore : ∀ h ∈ hs, h.first = a → h ∈ p := by
    intro h hh hfirst
    rw [← (sortByFirst_perm hs).mem_iff, hsorted] at hh
    rcases List.mem_append.mp hh with hh | hh
    · exact hh
    · have hle : c.incoming.first ≤ h.first := by
        rcases List.mem_cons.mp hh with rfl | hh
        · exact Nat.le_refl _
        · exact List.rel_of_pairwise_cons (List.pairwise_append.mp hascending).2.1 hh
      have := hc.first_eq
      omega
  obtain ⟨h, hh, k, hk, hha, hka, hlast⟩ := ha
  exact hlast (hr.last_eq (hbefore h hh hha) (hbefore k hk hka) (hha.trans hka.symm))

lemma leastClash (hc : FirstClash (sortByFirst hs) c) :
    LeastClash hs c.existing c.incoming := by
  refine ⟨⟨?_, fun a ha => hc.first_le_of_clashingAt ha⟩, hc.find?_existing, hc.find?_incoming⟩
  exact ⟨_, hc.mem.1, _, hc.mem.2, rfl, hc.first_eq, hc.last_ne.symm⟩

end FirstClash

end Coalesce

open Coalesce

/-- Coalescing fails exactly if two holdings clash.  The fault names the least address where any
do, the end of the first holding that starts there, and the first end that differs from it. -/
theorem coalesce_fails_iff_clashing (r : Realm) (hs : List Holding) :
    ((∃ fault, coalesce r hs = .error fault) ↔ Clashing hs) ∧
      ∀ fault, coalesce r hs = .error fault ↔
        ∃ existing incoming, LeastClash hs existing incoming ∧
          fault = .conflictingRanges r.registry r.family existing.first existing.last
            incoming.last := by
  have hfault : ∀ fault, coalesce r hs = .error fault → ∃ existing incoming,
      LeastClash hs existing incoming ∧ fault = .conflictingRanges r.registry r.family
        existing.first existing.last incoming.last := by
    intro fault h
    obtain ⟨c, hc, rfl⟩ := coalesce_eq_error_iff.mp h
    have hclash := firstClash_of_distinct hc
    exact ⟨c.existing, c.incoming, hclash.leastClash, by rw [← hclash.first_eq]; rfl⟩
  have hfails : (∃ fault, coalesce r hs = .error fault) ↔ Clashing hs := by
    rw [← not_iff_not, ← exists_coalesce_eq_ok_iff]
    cases coalesce r hs <;> simp
  refine ⟨hfails, fun fault => ⟨hfault fault, ?_⟩⟩
  rintro ⟨existing, incoming, hleast, rfl⟩
  -- there is a clash, so there is a fault, and it can only be this one
  obtain ⟨fault, h⟩ := hfails.mpr (clashing_iff.mpr ⟨_, hleast.isLeast.1⟩)
  obtain ⟨existing', incoming', hleast', rfl⟩ := hfault fault h
  obtain ⟨rfl, rfl⟩ := hleast.unique hleast'
  exact h

/-- The clash at 10 is reported although a repeated holding is in between and a run reaches beyond
both ends; the one at 40 is listed before it. -/
example : coalesce ⟨.iana, .ipv4⟩
    [⟨⟨40, 49⟩, .unknown, .allocated⟩, ⟨⟨40, 59⟩, .unknown, .allocated⟩,
      ⟨⟨10, 19⟩, .unknown, .allocated⟩, ⟨⟨0, 99⟩, .unknown, .allocated⟩,
      ⟨⟨10, 19⟩, .unknown, .reserved⟩, ⟨⟨10, 29⟩, .unknown, .allocated⟩] =
    .error (.conflictingRanges .iana .ipv4 10 19 29) := by cbv

end Delegation
