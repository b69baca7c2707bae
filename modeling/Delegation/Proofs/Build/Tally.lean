import Delegation.Proofs.Build.Stages
import Delegation.Proofs.Coalesce.Tally

/-!
# What a build counts

A build counts the records of its realm, those of them that belong to a group and those that
belong to none.  Coalescing a group counts its holdings, and the groups together have all of
them.  The entries are the runs of all groups, so the tally of a build accounts for each of its
records: it was skipped, or its holding was a duplicate, merged, absorbed or the start of an
entry.

A tally accounts for a list of records and a number of entries (`BuildTally.Accounts`), which
says nothing of the order of the records and can be added up.

Main results: `accounts_of_buildTallied` and `BuildTally.Accounts.add`.
-/

namespace Delegation

open Sequence

/-- The realm of a record. -/
def Record.realm (x : Record) : Realm := ⟨x.registry, x.family⟩

/-- The realm and the group of a record that belongs to a group. -/
def Record.place? (x : Record) : Option (Realm × Group) := x.group?.map fun g => (x.realm, g)

/-- The tally accounts for every one of the records, of which `entries` entries were made: it
counts those with and without a group, each group once, and what coalescing did. -/
structure BuildTally.Accounts (t : BuildTally) (records : List Record) (entries : Nat) : Prop where
  records_eq : t.records = records.length
  indexed_eq : t.indexed = records.countP (·.group?.isSome)
  skipped_eq : t.skipped = records.countP (·.group?.isNone)
  coalesced : t.coalesced.Accounts t.indexed t.entries
  groups_eq : t.groups = (records.filterMap Record.place?).toFinset.card
  groups_le : t.groups ≤ t.entries
  entries_eq : t.entries = entries

lemma length_eq_countP_group? (records : List Record) :
    records.length = records.countP (·.group?.isSome) + records.countP (·.group?.isNone) := by
  rw [List.length_eq_countP_add_countP (·.group?.isSome)]
  congr 1
  refine List.countP_congr fun x _ => ?_
  simp

namespace BuildTally.Accounts

variable {s t : BuildTally} {A B : List Record} {m n : Nat}

lemma zero : BuildTally.zero.Accounts [] 0 :=
  ⟨rfl, rfl, rfl, .zero, rfl, Nat.le_refl _, rfl⟩

lemma perm (h : t.Accounts A n) (hp : A.Perm B) : t.Accounts B n := by
  refine ⟨?_, ?_, ?_, h.coalesced, ?_, h.groups_le, h.entries_eq⟩
  · rw [h.records_eq, hp.length_eq]
  · rw [h.indexed_eq, hp.countP_eq]
  · rw [h.skipped_eq, hp.countP_eq]
  · rw [h.groups_eq, List.toFinset_eq_of_perm _ _ (hp.filterMap _)]

/-- Every record is indexed or skipped. -/
lemma indexed_add_skipped (h : t.Accounts A n) : t.records = t.indexed + t.skipped := by
  rw [h.records_eq, h.indexed_eq, h.skipped_eq, length_eq_countP_group?]

/-- Tallies of different places may be added. -/
theorem add (hs : s.Accounts A m) (ht : t.Accounts B n)
    (hplaces : (A.filterMap Record.place?).Disjoint (B.filterMap Record.place?)) :
    (s.add t).Accounts (A ++ B) (m + n) := by
  refine ⟨?_, ?_, ?_, hs.coalesced.add ht.coalesced, ?_, ?_, ?_⟩ <;> simp only [BuildTally.add]
  · rw [hs.records_eq, ht.records_eq, List.length_append]
  · rw [hs.indexed_eq, ht.indexed_eq, List.countP_append]
  · rw [hs.skipped_eq, ht.skipped_eq, List.countP_append]
  · rw [hs.groups_eq, ht.groups_eq, List.filterMap_append, List.toFinset_append,
      Finset.card_union_of_disjoint (List.disjoint_toFinset_iff_disjoint.mpr hplaces)]
  · exact Nat.add_le_add hs.groups_le ht.groups_le
  · rw [hs.entries_eq, ht.entries_eq]

end BuildTally.Accounts

namespace Build

variable {r : Realm} {records : List Record} {table : CountryTable} {x : RangeIndex}
  {t : BuildTally} {hs : List (Group × Holding)} {g : Group}

/-! ## Records of a realm -/

lemma ofRealm_eq_filter (r : Realm) (records : List Record) :
    ofRealm r records = records.filter (·.realm = r) := by
  cases r
  simp [ofRealm, Record.realm]

lemma mem_ofRealm {y : Record} : y ∈ ofRealm r records ↔ y ∈ records ∧ y.realm = r := by
  simp [ofRealm_eq_filter]

/-- The records of all realms are all records. -/
lemma perm_flatMap_ofRealm (records : List Record) :
    (Realm.all.flatMap fun r => ofRealm r records).Perm records := by
  simp only [ofRealm_eq_filter]
  exact perm_flatMap_filter Realm.nodup_all fun y _ => Realm.mem_all y.realm

lemma map_grouped : (grouped (ofRealm r records)).map (fun p => (r, p.1)) =
    (ofRealm r records).filterMap Record.place? := by
  rw [grouped, List.map_filterMap]
  refine List.filterMap_congr fun y hy => ?_
  rw [Record.place?, (mem_ofRealm.mp hy).2, Option.map_map]
  rfl

/-! ## Holdings and groups -/

lemma length_of_holdings (hhs : holdings r records = .ok hs) :
    hs.length = (ofRealm r records).countP (·.group?.isSome) := by
  rw [length_of_mapM hhs, grouped, List.length_filterMap_eq_countP]
  refine List.countP_congr fun y _ => ?_
  simp

/-- The places of the holdings are those of the records. -/
lemma map_of_holdings (hhs : holdings r records = .ok hs) :
    hs.map (fun q => (r, q.1)) = (ofRealm r records).filterMap Record.place? := by
  have hplace : ∀ ⦃p q⦄, groupedHolding p = .ok q → some (r, q.1) = some (r, p.1) := by
    intro p q h
    rw [(groupedHolding_eq_ok_iff.mp h).1]
  rw [← map_grouped, ← List.filterMap_eq_map, ← List.filterMap_eq_map]
  exact filterMap_of_mapM hhs hplace

/-- Each group that occurs is counted once. -/
lemma length_groupsOf (hhs : holdings r records = .ok hs) :
    (groupsOf hs).length = ((ofRealm r records).filterMap Record.place?).toFinset.card := by
  have hinjective : Function.Injective fun g : Group => (r, g) :=
    fun _ _ h => (Prod.mk.inj h).2
  have hsame : (hs.map fun q => (r, q.1)).toFinset =
      ((groupsOf hs).map fun g => (r, g)).toFinset := by
    ext p
    simp only [List.mem_toFinset, List.mem_map, mem_groupsOf]
    constructor
    · rintro ⟨q, hq, rfl⟩
      exact ⟨q.1, ⟨q.2, hq⟩, rfl⟩
    · rintro ⟨g, ⟨h, hh⟩, rfl⟩
      exact ⟨(g, h), hh, rfl⟩
  rw [← map_of_holdings hhs, hsame,
    List.toFinset_card_of_nodup (nodup_groupsOf.map hinjective), List.length_map]

/-- The groups together have all holdings. -/
lemma length_flatten_partitions (hs : List (Group × Holding)) :
    (partitions hs).flatten.length = hs.length := by
  have hmembers : ∀ g, members hs g = (hs.filter (·.1 = g)).map (·.2) := by
    intro g
    rw [members, ← List.filterMap_eq_map, List.filterMap_filter]
    simp
  have hperm : ((groupsOf hs).flatMap fun g => hs.filter (·.1 = g)).Perm hs :=
    perm_flatMap_filter nodup_groupsOf fun q hq => mem_groupsOf.mpr ⟨q.2, hq⟩
  rw [partitions, ← List.flatMap_def, ← hperm.length_eq, List.length_flatMap, List.length_flatMap]
  simp [hmembers]

lemma ne_nil_of_mem_partitions {part : List Holding} (h : part ∈ partitions hs) : part ≠ [] := by
  obtain ⟨g, hg, rfl⟩ := List.mem_map.mp h
  obtain ⟨k, hk⟩ := mem_groupsOf.mp hg
  exact List.ne_nil_of_mem (mem_members.mpr hk)

/-! ## Runs and entries -/

section Coalesced

variable {parts : List (List Holding)} {coalesced : List (List Holding × CoalesceTally)}

/-- Coalescing the groups counts all of their holdings and runs. -/
lemma accounts_of_mapM (h : parts.mapM (coalesceTallied r) = .ok coalesced) {c : CoalesceTally}
    {m n : Nat} (hc : c.Accounts m n) :
    ((coalesced.map (·.2)).foldl CoalesceTally.add c).Accounts (m + parts.flatten.length)
      (n + (coalesced.flatMap (·.1)).length) := by
  -- by the groups: `c` has counted those that come before
  induction parts generalizing coalesced c m n with
  | nil =>
    obtain rfl := Except.ok.inj h
    exact hc
  | cons part parts ih =>
    obtain ⟨y, ys, hy, hys, rfl⟩ := mapM_cons_eq_ok_iff.mp h
    have hrest := ih hys (hc.add (accounts_of_coalesceTallied (t := y.2) hy))
    simpa only [List.map_cons, List.foldl_cons, List.flatten_cons, List.flatMap_cons,
      List.length_append, Nat.add_assoc] using hrest

/-- Each group has a run. -/
lemma length_le_of_mapM (h : parts.mapM (coalesceTallied r) = .ok coalesced)
    (hne : ∀ part ∈ parts, part ≠ []) :
    parts.length ≤ (coalesced.flatMap (·.1)).length := by
  rw [← length_of_mapM h, List.length_flatMap, ← List.length_map (·.1.length)]
  refine List.length_le_sum_of_one_le _ ?_
  intro k hk
  obtain ⟨y, hy, rfl⟩ := List.mem_map.mp hk
  obtain ⟨part, hpart, hcoalesce⟩ := (mem_of_mapM h).mp hy
  exact List.length_pos_iff.mpr (ne_nil_of_coalesceTallied hcoalesce (hne part hpart))

end Coalesced

lemma length_of_entries {runs : List Holding} {es : List Entry}
    (h : entries table r runs = .ok es) : es.length = runs.length := by
  rw [entries] at h
  cases hoverlap : firstOverlap (Quicksort.sort (fun k => k.first) runs) with
  | some p => simp [hoverlap] at h
  | none =>
    rw [hoverlap] at h
    rw [length_of_mapM h, (Quicksort.sort_perm _ _).length_eq]

/-- The tally of a build accounts for the records of the realm. -/
theorem accounts_of_buildTallied (h : buildTallied table r records = .ok (x, t)) :
    t.Accounts (ofRealm r records) x.size := by
  rw [buildTallied] at h
  obtain ⟨hs, hhs, h⟩ := bind_eq_ok_iff.mp h
  obtain ⟨coalesced, hcoalesced, h⟩ := bind_eq_ok_iff.mp h
  obtain ⟨es, hes, h⟩ := bind_eq_ok_iff.mp h
  obtain ⟨rfl, rfl⟩ := Prod.mk.inj (Except.ok.inj h)
  have hlength := length_of_holdings hhs
  have hentries := length_of_entries hes
  refine ⟨rfl, hlength, ?_, ?_, ?_, ?_, ?_⟩
  · simp only [hlength, length_eq_countP_group? (ofRealm r records)]
    omega
  · have haccounts := accounts_of_mapM hcoalesced .zero
    simpa only [length_flatten_partitions, ← hentries, Nat.zero_add] using haccounts
  · simp only
    rw [partitions, List.length_map, length_groupsOf hhs]
  · simp only [hentries]
    exact length_le_of_mapM hcoalesced fun part hpart => ne_nil_of_mem_partitions hpart
  · simp [RangeIndex.size]

end Build

end Delegation
