import Delegation.Index.Catalog
import Delegation.Proofs.Build.Lookup
import Delegation.Proofs.Build.Tally

/-!
# No record is lost

A catalog is built realm by realm, and every record is of exactly one realm.  So the tallies of
the realms, added up, account for all records: each was skipped, or its holding was a duplicate,
merged, absorbed or the start of an entry, and none of them was counted twice.

Main result: `catalog_balance`.
-/

namespace Delegation

open Build Sequence

variable {table : CountryTable} {records : List Record} {c : Catalog} {t : BuildTally}

/-- Adding the tallies of further realms. -/
lemma accounts_of_mapM_buildTallied {rs : List Realm} {built : List (RangeIndex × BuildTally)}
    (h : (rs.mapM fun r => buildTallied table r records) = .ok built) (hnodup : rs.Nodup)
    {s : BuildTally} {A : List Record} {n : Nat} (hs : s.Accounts A n)
    (hother : ∀ y ∈ A, y.realm ∉ rs) :
    ((built.map (·.2)).foldl BuildTally.add s).Accounts (A ++ rs.flatMap fun r => ofRealm r records)
      (n + (built.map (·.1.size)).sum) := by
  -- by the realms: the records that are accounted for are of realms that come before
  induction rs generalizing built s A n with
  | nil =>
    obtain rfl := Except.ok.inj h
    simpa using hs
  | cons r rs ih =>
    obtain ⟨y, ys, hy, hys, rfl⟩ := mapM_cons_eq_ok_iff.mp h
    rw [List.nodup_cons] at hnodup
    have hplaces : (A.filterMap Record.place?).Disjoint
        ((ofRealm r records).filterMap Record.place?) := by
      intro p hA hr
      obtain ⟨x, hx, hxp⟩ := List.mem_filterMap.mp hA
      obtain ⟨z, hz, hzp⟩ := List.mem_filterMap.mp hr
      obtain ⟨g, -, rfl⟩ := Option.map_eq_some_iff.mp hxp
      obtain ⟨g', -, heq⟩ := Option.map_eq_some_iff.mp hzp
      have hrealm : x.realm = r := by
        rw [← (Prod.mk.inj heq).1, (mem_ofRealm.mp hz).2]
      exact hother x hx (by simp [hrealm])
    have hother' : ∀ y ∈ A ++ ofRealm r records, y.realm ∉ rs := by
      intro y hy
      rcases List.mem_append.mp hy with hy | hy
      · exact fun hmem => hother y hy (List.mem_cons_of_mem r hmem)
      · rw [(mem_ofRealm.mp hy).2]
        exact hnodup.1
    have hrest := ih hys hnodup.2 (hs.add (accounts_of_buildTallied (t := y.2) hy) hplaces) hother'
    simpa only [List.map_cons, List.foldl_cons, List.flatMap_cons, List.sum_cons,
      List.append_assoc, Nat.add_assoc] using hrest

/-- The tally of a catalog accounts for all records. -/
theorem accounts_of_buildAllTallied (h : buildAllTallied table records = .ok (c, t)) :
    t.Accounts records (c.indexes.map (·.size)).sum := by
  rw [buildAllTallied, map_eq_ok_iff] at h
  obtain ⟨built, hbuilt, heq⟩ := h
  obtain ⟨rfl, rfl⟩ := Prod.mk.inj heq
  have haccounts := accounts_of_mapM_buildTallied hbuilt Realm.nodup_all .zero (by simp)
  simp only [List.nil_append, Nat.zero_add] at haccounts
  rw [List.map_map]
  exact haccounts.perm (perm_flatMap_ofRealm records)

lemma size_of_buildAllTallied (h : buildAllTallied table records = .ok (c, t)) : c.size = 14 := by
  rw [buildAllTallied, map_eq_ok_iff] at h
  obtain ⟨built, hbuilt, heq⟩ := h
  obtain ⟨rfl, -⟩ := Prod.mk.inj heq
  rw [Catalog.size, List.length_map, length_of_mapM hbuilt, Realm.length_all]

/-- Every record is counted, as indexed if it belongs to a group and as skipped otherwise.  Those
that are indexed are the input of coalescing, whose output are the entries of the fourteen
indexes; so each record was skipped, dropped as a duplicate, merged, absorbed, or starts an entry.
Groups are counted once for each realm in which they occur, and each of them has an entry. -/
theorem catalog_balance (h : buildAllTallied table records = .ok (c, t)) :
    t.records = records.length ∧
      t.indexed = records.countP (·.group?.isSome) ∧
      t.records = t.indexed + t.skipped ∧
      t.coalesced.input = t.indexed ∧
      t.coalesced.output = t.entries ∧
      c.size = 14 ∧
      t.entries = (c.indexes.map (·.size)).sum ∧
      t.records = t.skipped + t.coalesced.duplicates + t.coalesced.merges + t.coalesced.overlaps +
        t.entries ∧
      t.groups = (records.filterMap Record.place?).toFinset.card ∧
      t.groups ≤ t.entries := by
  have ht := accounts_of_buildAllTallied h
  have hskipped := ht.indexed_add_skipped
  obtain ⟨hinput, houtput, hbalance⟩ := ht.coalesced
  refine ⟨ht.records_eq, ht.indexed_eq, hskipped, hinput, houtput, size_of_buildAllTallied h,
    ht.entries_eq, ?_, ht.groups_eq, ht.groups_le⟩
  omega

/-- The records `mixedRecords` with one more that touches a run, and a block of no group. -/
def tallyRecords : List Record :=
  ⟨.iana, .unknown, .ipv4, 0, .count 0, .allocated⟩ ::
    ⟨.ripencc, germany, .ipv4, 384, .count 16, .allocated⟩ :: mixedRecords

theorem catalog_balance_mixed :
    ∃ c, buildAllTallied germanyFrance tallyRecords = .ok (c, ⟨8, 7, 1, 3, ⟨7, 1, 1, 2, 3⟩, 3⟩) ∧
      tallyRecords.length = 8 ∧
      (tallyRecords.filterMap Record.place?).toFinset.card = 3 ∧
      (c.indexes.map (·.size)).sum = 3 := by
  have hok : buildAllTallied germanyFrance tallyRecords =
      .ok (⟨Realm.all.map fun r =>
          if r = ⟨.ripencc, .ipv4⟩ then ⟨r, #[⟨⟨0, 399⟩, 0, 1⟩, ⟨⟨512, 767⟩, 1, 1⟩]⟩
          else if r = ⟨.apnic, .ipv4⟩ then ⟨r, #[⟨⟨0, 1023⟩, 1, 1⟩]⟩
          else RangeIndex.empty r⟩,
        ⟨8, 7, 1, 3, ⟨7, 1, 1, 2, 3⟩, 3⟩) := by cbv
  obtain ⟨hrecords, -, -, -, -, -, hentries, -, hgroups, -⟩ := catalog_balance hok
  exact ⟨_, hok, hrecords.symm, hgroups.symm, hentries.symm⟩

end Delegation
