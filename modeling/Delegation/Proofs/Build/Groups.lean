import Delegation.Index.Build
import Delegation.Proofs.Coalesce.Sweep
import Delegation.Proofs.Sequence

/-!
# Records by group

A build looks at the records of its realm that belong to a group.  Groups are ordered by their
rank, and the groups that occur are listed once each in that order.  The holdings of a group
are those of its records, in the order of the records; they show in their country or status
which group they are of (`groupIn_of_inGroup`).

Main results: `holdings_eq_ok_iff`, `holdings_eq_error_iff` and `members_eq_groupHoldings`.
-/

namespace Delegation

open Sequence

/-! ## The order of groups -/

/-- The place of a country in the alphabet. -/
def Country.rank (c : Country) : Nat := c.first.toNat * 2 ^ 32 + c.second.toNat

lemma Country.before_iff {c d : Country} : c.before d = true ↔ c.rank < d.rank := by
  have hc : c.second.toNat < 2 ^ 32 := c.second.val.toNat_lt
  have hd : d.second.toNat < 2 ^ 32 := d.second.val.toNat_lt
  have hlt : ∀ a b : Char, a < b ↔ a.toNat < b.toNat := fun a b => UInt32.lt_iff_toNat_lt
  simp only [Country.before, Country.rank, Bool.or_eq_true, Bool.and_eq_true, decide_eq_true_eq,
    beq_iff_eq, hlt, ← Char.toNat_inj]
  omega

lemma Country.rank_lt (c : Country) : c.rank < 2 ^ 64 := by
  have hc : c.first.toNat < 2 ^ 32 := c.first.val.toNat_lt
  have hd : c.second.toNat < 2 ^ 32 := c.second.val.toNat_lt
  rw [Country.rank]
  omega

/-- The place of a group in the order of groups. -/
def Group.rank : Group → Nat
  | .country c => c.rank
  | .status s => 2 ^ 64 + s.code

lemma Group.le_iff {g g' : Group} : Group.le g g' = true ↔ g.rank ≤ g'.rank := by
  cases g with
  | country c =>
    cases g' with
    | country d => simp [Group.le, Group.rank, ← Bool.not_eq_true, Country.before_iff]
    | status s =>
      have := c.rank_lt
      simp only [Group.le, Group.rank, true_iff]
      omega
  | status s =>
    cases g' with
    | country d =>
      have := d.rank_lt
      simp only [Group.le, Group.rank, Bool.false_eq_true, false_iff]
      omega
    | status t => simp [Group.le, Group.rank]

lemma Country.eq_of_rank_eq {c d : Country} (h : c.rank = d.rank) : c = d := by
  have hc : c.second.toNat < 2 ^ 32 := UInt32.toNat_lt c.second.val
  have hd : d.second.toNat < 2 ^ 32 := UInt32.toNat_lt d.second.val
  rw [Country.rank, Country.rank] at h
  have hfirst : c.first = d.first := Char.toNat_inj.mp (by omega)
  have hsecond : c.second = d.second := Char.toNat_inj.mp (by omega)
  exact Country.letters_injective (by rw [Country.letters, Country.letters, hfirst, hsecond])

/-- Groups at the same place are the same. -/
lemma Group.eq_of_rank_eq {g g' : Group} (h : g.rank = g'.rank) : g = g' := by
  cases g with
  | country c =>
    have := c.rank_lt
    cases g' with
    | country d => rw [Country.eq_of_rank_eq h]
    | status s =>
      simp only [Group.rank] at h
      omega
  | status s =>
    cases g' with
    | country d =>
      have := d.rank_lt
      simp only [Group.rank] at h
      omega
    | status t => rw [Status.code_injective (Nat.add_left_cancel h)]

lemma Group.sorted_pairwise (gs : List Group) :
    (Group.sorted gs).Pairwise fun g g' => Group.le g g' = true := by
  refine List.pairwise_mergeSort ?_ ?_ gs
  · intro g g' g'' h h'
    rw [Group.le_iff] at h h' ⊢
    omega
  · intro g g'
    rw [Bool.or_eq_true, Group.le_iff, Group.le_iff]
    omega

/-! ## Records of a group -/

/-- The record is one of the realm and belongs to the group. -/
def Record.InGroup (x : Record) (r : Realm) (g : Group) : Prop :=
  x.registry = r.registry ∧ x.family = r.family ∧ x.group? = some g

instance {x : Record} {r : Realm} {g : Group} : Decidable (x.InGroup r g) :=
  inferInstanceAs (Decidable (_ ∧ _))

/-- The group of a holding of a registry: the root registry groups by status, the others by
country. -/
def Holding.groupIn (h : Holding) (registry : Registry) : Group :=
  match registry with
  | .iana => .status h.status
  | _ => .country h.country

lemma Holding.country_eq_of_groupIn_eq {h k : Holding} {registry : Registry}
    (hroot : registry ≠ .iana) (hgroup : h.groupIn registry = k.groupIn registry) :
    h.country = k.country := by
  cases registry <;> simp_all [Holding.groupIn]

lemma Holding.status_eq_of_groupIn_eq {h k : Holding} {registry : Registry}
    (hroot : registry = .iana) (hgroup : h.groupIn registry = k.groupIn registry) :
    h.status = k.status := by
  subst hroot
  exact Group.status.inj hgroup

namespace Record

variable {x : Record} {r : Realm} {g g' : Group} {h : Holding}

lemma InGroup.eq (hx : x.InGroup r g) (hx' : x.InGroup r g') : g = g' :=
  Option.some.inj (hx.2.2.symm.trans hx'.2.2)

lemma holding_eq_ok_iff :
    x.holding = .ok h ↔ ∃ s, x.span = .ok s ∧ (⟨s, x.country, x.status⟩ : Holding) = h :=
  map_eq_ok_iff

/-- The holding of a record shows the group of the record. -/
theorem groupIn_of_inGroup (hx : x.InGroup r g) (hh : x.holding = .ok h) :
    h.groupIn r.registry = g := by
  obtain ⟨s, -, rfl⟩ := holding_eq_ok_iff.mp hh
  obtain ⟨hregistry, -, hgroup⟩ := hx
  rw [Record.group?, hregistry] at hgroup
  cases hr : r.registry with
  | iana =>
    rw [hr] at hgroup
    simp only at hgroup
    split at hgroup
    · cases hgroup
    · cases hgroup
    · exact Option.some.inj hgroup
  | _ =>
    rw [hr] at hgroup
    exact Option.some.inj hgroup

/-- The span of a record starts where the record says, is not empty and lies in its family. -/
lemma bounds_of_span {s : Span} (hs : x.span = .ok s) :
    s.first = x.first ∧ s.first ≤ s.last ∧ s.last ≤ x.family.maxAddress := by
  rw [Record.span] at hs
  -- an extent is a number of addresses or the length of a block
  cases hextent : x.extent with
  | count n =>
    rw [hextent] at hs
    obtain ⟨hn, hle, rfl⟩ := Span.ofCount_eq_ok_iff.mp hs
    exact ⟨rfl, by simp only; omega, hle⟩
  | length n =>
    rw [hextent] at hs
    obtain ⟨-, hle, rfl⟩ := Span.ofPrefix_eq_ok_iff.mp hs
    have := Nat.two_pow_pos (x.family.width - n)
    exact ⟨rfl, by simp only; omega, hle⟩

lemma bounds_of_holding (hh : x.holding = .ok h) :
    h.first ≤ h.last ∧ h.last ≤ x.family.maxAddress := by
  obtain ⟨s, hs, rfl⟩ := holding_eq_ok_iff.mp hh
  exact (bounds_of_span hs).2

lemma first_of_holding (hh : x.holding = .ok h) : h.first = x.first := by
  obtain ⟨s, hs, rfl⟩ := holding_eq_ok_iff.mp hh
  exact (bounds_of_span hs).1

end Record

namespace Build

variable {r : Realm} {records : List Record} {hs : List (Group × Holding)} {g : Group}
  {x : Record} {h : Holding} {f : Fault}

/-- The records of a realm that belong to a group, in their order. -/
def eligible (r : Realm) (records : List Record) : List Record :=
  records.filter fun x => x.registry = r.registry && x.family = r.family && x.group?.isSome

lemma mem_eligible : x ∈ eligible r records ↔ x ∈ records ∧ ∃ g, x.InGroup r g := by
  simp [eligible, Record.InGroup, Option.isSome_iff_exists, and_assoc]

lemma grouped_cons_of_inGroup (hx : x.InGroup r g) :
    grouped (ofRealm r (x :: records)) = (g, x) :: grouped (ofRealm r records) := by
  simp [grouped, ofRealm, hx.1, hx.2.1, hx.2.2]

lemma grouped_cons_of_not (hx : ∀ g, ¬ x.InGroup r g) :
    grouped (ofRealm r (x :: records)) = grouped (ofRealm r records) := by
  by_cases hrealm : x.registry = r.registry ∧ x.family = r.family
  · have hgroup : x.group? = none := by
      rw [Option.eq_none_iff_forall_ne_some]
      exact fun g hg => hx g ⟨hrealm.1, hrealm.2, hg⟩
    simp [grouped, ofRealm, hrealm, hgroup]
  · have hnot : (decide (x.registry = r.registry) && decide (x.family = r.family)) = false := by
      simpa using hrealm
    simp [grouped, ofRealm, hnot]

lemma map_snd_grouped : (grouped (ofRealm r records)).map (·.2) = eligible r records := by
  induction records with
  | nil => rfl
  | cons x records ih =>
    by_cases hx : ∃ g, x.InGroup r g
    · obtain ⟨g, hx⟩ := hx
      rw [grouped_cons_of_inGroup hx, List.map_cons, ih]
      simp [eligible, hx.1, hx.2.1, hx.2.2]
    · have hnot : x ∉ eligible r (x :: records) := fun hmem => hx (mem_eligible.mp hmem).2
      rw [grouped_cons_of_not (not_exists.mp hx), ih]
      simp only [eligible] at hnot ⊢
      rw [List.filter_cons_of_neg]
      intro hpos
      exact hnot (List.mem_filter.mpr ⟨by simp, hpos⟩)

lemma mem_grouped : (g, x) ∈ grouped (ofRealm r records) ↔ x ∈ records ∧ x.InGroup r g := by
  simp only [grouped, ofRealm, List.mem_filterMap, List.mem_filter, Option.map_eq_some_iff,
    Prod.mk.injEq, Bool.and_eq_true, decide_eq_true_eq, Record.InGroup]
  constructor
  · rintro ⟨y, ⟨hy, hregistry, hfamily⟩, g', hg', rfl, rfl⟩
    exact ⟨hy, hregistry, hfamily, hg'⟩
  · rintro ⟨hx, hregistry, hfamily, hg⟩
    exact ⟨x, ⟨hx, hregistry, hfamily⟩, g, hg, rfl, rfl⟩

/-! ## Holdings -/

/-- The fault of the first record of the realm and a group that delegates no span. -/
def FirstFault (r : Realm) (records : List Record) (f : Fault) : Prop :=
  ∃ before x after, eligible r records = before ++ x :: after ∧
    (∀ y ∈ before, ∃ h, y.holding = .ok h) ∧ x.holding = .error f

lemma groupedHolding_eq_ok_iff {p : Group × Record} {q : Group × Holding} :
    groupedHolding p = .ok q ↔ p.1 = q.1 ∧ p.2.holding = .ok q.2 := by
  rw [groupedHolding, map_eq_ok_iff]
  constructor
  · rintro ⟨h, hh, rfl⟩
    exact ⟨rfl, hh⟩
  · rintro ⟨hg, hh⟩
    exact ⟨q.2, hh, by rw [hg]⟩

lemma exists_groupedHolding_iff {p : Group × Record} :
    (∃ q, groupedHolding p = .ok q) ↔ ∃ h, p.2.holding = .ok h := by
  simp only [groupedHolding_eq_ok_iff]
  constructor
  · rintro ⟨q, -, hq⟩
    exact ⟨q.2, hq⟩
  · rintro ⟨h, hh⟩
    exact ⟨(p.1, h), rfl, hh⟩

/-- The holdings are read unless a record of a group delegates no span; then the first such
record is at fault. -/
theorem holdings_eq_error_iff : holdings r records = .error f ↔ FirstFault r records f := by
  rw [holdings, mapM_eq_error_iff, FirstFault, ← map_snd_grouped]
  constructor
  · rintro ⟨before, p, after, heq, hbefore, hp⟩
    refine ⟨before.map (·.2), p.2, after.map (·.2), by rw [heq]; simp, ?_,
      map_eq_error_iff.mp hp⟩
    intro y hy
    obtain ⟨q, hq, rfl⟩ := List.mem_map.mp hy
    exact exists_groupedHolding_iff.mp (hbefore q hq)
  · rintro ⟨before, x, after, heq, hbefore, hx⟩
    obtain ⟨before', rest, hgrouped, rfl, hrest⟩ := List.map_eq_append_iff.mp heq
    obtain ⟨p, after', rfl, rfl, rfl⟩ := List.map_eq_cons_iff.mp hrest
    refine ⟨before', p, after', hgrouped, ?_, map_eq_error_iff.mpr hx⟩
    intro q hq
    exact exists_groupedHolding_iff.mpr (hbefore q.2 (List.mem_map_of_mem hq))

/-- The holdings of the records of a group, in the order of the records. -/
def groupHoldings (r : Realm) (records : List Record) (g : Group) : List Holding :=
  records.filterMap fun x => if x.InGroup r g then x.holding.toOption else none

lemma mem_groupHoldings :
    h ∈ groupHoldings r records g ↔ ∃ x ∈ records, x.InGroup r g ∧ x.holding = .ok h := by
  have htoOption : ∀ x : Record, x.holding.toOption = some h ↔ x.holding = .ok h := by
    intro x
    cases x.holding <;> simp [Except.toOption]
  simp [groupHoldings, htoOption]

/-- The holdings that have been read for a group are those of its records. -/
theorem members_eq_groupHoldings (hhs : holdings r records = .ok hs) :
    members hs g = groupHoldings r records g := by
  rw [holdings] at hhs
  -- by the records, which are read in their order
  induction records generalizing hs with
  | nil =>
    obtain rfl := Except.ok.inj hhs
    rfl
  | cons x records ih =>
    by_cases hx : ∃ g, x.InGroup r g
    · obtain ⟨g', hx⟩ := hx
      rw [grouped_cons_of_inGroup hx] at hhs
      cases hh : x.holding with
      | error f =>
        have hfault : groupedHolding (g', x) = .error f := map_eq_error_iff.mpr hh
        rw [mapM_cons_of_error _ hfault] at hhs
        cases hhs
      | ok h =>
        have hread : groupedHolding (g', x) = .ok (g', h) :=
          groupedHolding_eq_ok_iff.mpr ⟨rfl, hh⟩
        rw [mapM_cons_of_ok _ hread, map_eq_ok_iff] at hhs
        obtain ⟨rest, hrest, rfl⟩ := hhs
        have hrest := ih hrest
        by_cases hg : g' = g
        · subst hg
          simpa [members, groupHoldings, hx, hh, Except.toOption] using hrest
        · have hnot : ¬ x.InGroup r g := fun hx' => hg (hx.eq hx')
          simpa [members, groupHoldings, hnot, hg] using hrest
    · rw [grouped_cons_of_not (not_exists.mp hx)] at hhs
      have hnot : ¬ x.InGroup r g := fun hx' => hx ⟨g, hx'⟩
      simpa [groupHoldings, hnot] using ih hhs

lemma mem_members : h ∈ members hs g ↔ (g, h) ∈ hs := by
  simp [members]

/-! ## The groups that occur -/

lemma mem_groupsOf : g ∈ groupsOf hs ↔ ∃ h, (g, h) ∈ hs := by
  simp [groupsOf, Group.sorted]

lemma nodup_groupsOf : (groupsOf hs).Nodup :=
  (List.mergeSort_perm ..).nodup_iff.mpr (nodup_eraseDups _)

lemma groupsOf_pairwise (hs : List (Group × Holding)) :
    (groupsOf hs).Pairwise fun g g' => Group.le g g' = true :=
  Group.sorted_pairwise _

/-- A group that does not occur has no holdings. -/
lemma members_eq_nil (hg : g ∉ groupsOf hs) : members hs g = [] := by
  rw [List.eq_nil_iff_forall_not_mem]
  intro h hh
  exact hg (mem_groupsOf.mpr ⟨h, mem_members.mp hh⟩)

end Build

end Delegation
