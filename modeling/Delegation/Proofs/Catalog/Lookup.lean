import Delegation.Index.Catalog
import Delegation.Proofs.Build.Lookup

/-!
# Looking up an address in all indexes

A catalog is built realm by realm, and the first realm whose build fails ends the work.  Its
indexes are those of the realms, each built from the same records (`buildAll_eq`).

A lookup reads the address, which also gives the family, and then asks the indexes of that
family one by one.  Each answers for its own realm, so there is one match for every registry
that delegates the address, in the order of the registries (`map_realm_matching`).

Main result: `catalog_outcome`.
-/

namespace Delegation

open Build Sequence

variable {table : CountryTable} {r : Realm} {records : List Record} {x : RangeIndex}
  {c : Catalog} {f : Family} {a : Nat} {fault : Fault}

/-! ## Who delegates an address -/

/-- Whether the record belongs to a group of the realm and delegates the address. -/
def Record.delegates (y : Record) (r : Realm) (a : Nat) : Bool :=
  y.registry = r.registry && y.family = r.family && y.group?.isSome &&
    match y.holding with
    | .ok h => h.contains a
    | .error _ => false

lemma Record.delegates_iff {y : Record} :
    y.delegates r a ↔ ∃ g, y.InGroup r g ∧ ∃ h, y.holding = .ok h ∧ h.contains a := by
  rw [Record.delegates, Bool.and_eq_true]
  cases y.holding with
  | error f => simp
  | ok h => simp [Record.InGroup, Option.isSome_iff_exists, and_assoc]

namespace Build

lemma realm_eq_of_build (hx : build table r records = .ok x) : x.realm = r := by
  obtain ⟨runs, hb⟩ := built_of_build hx
  exact hb.realm_eq

/-- An index finds the addresses that are delegated in its realm. -/
lemma isSome_lookup_of_build (hx : build table r records = .ok x) (a : Nat) :
    (x.lookup a).isSome = records.any (·.delegates r a) := by
  obtain ⟨runs, hb⟩ := built_of_build hx
  rw [Bool.eq_iff_iff, RangeIndex.isSome_lookup_iff hb.ordered_entries, hb.exists_entry_iff,
    List.any_eq_true]
  simp only [Record.delegates_iff]
  constructor
  · rintro ⟨g, y, hy, hown⟩
    exact ⟨y, hy, g, hown⟩
  · rintro ⟨y, hy, g, hown⟩
    exact ⟨g, y, hy, hown⟩

end Build

/-! ## Building all indexes -/

/-- The indexes of a catalog are built realm by realm. -/
lemma buildAll_eq (table : CountryTable) (records : List Record) :
    buildAll table records = (Realm.all.mapM fun r => build table r records).map Catalog.mk := by
  simp only [build, mapM_map_eq]
  rw [buildAll, buildAllTallied, buildEach]
  cases Realm.all.mapM fun r => buildTallied table r records <;> rfl

lemma mapM_build_of_buildAll (hc : buildAll table records = .ok c) :
    (Realm.all.mapM fun r => build table r records) = .ok c.indexes := by
  rw [buildAll_eq, map_eq_ok_iff] at hc
  obtain ⟨xs, hxs, rfl⟩ := hc
  exact hxs

/-- The fault of a catalog is that of the first realm that has one. -/
lemma buildAll_eq_error_iff :
    buildAll table records = .error fault ↔
      ∃ before r after, Realm.all = before ++ r :: after ∧
        (∀ q ∈ before, ∃ x, build table q records = .ok x) ∧
        build table r records = .error fault := by
  rw [buildAll_eq, map_eq_error_iff, mapM_eq_error_iff]

/-- There is no catalog exactly if the index of some realm is missing. -/
lemma exists_buildAll_eq_error_iff :
    (∃ fault, buildAll table records = .error fault) ↔
      ∃ r fault, build table r records = .error fault := by
  constructor
  · rintro ⟨fault, h⟩
    obtain ⟨-, r, -, -, -, hr⟩ := buildAll_eq_error_iff.mp h
    exact ⟨r, fault, hr⟩
  · rintro ⟨r, fault, hr⟩
    cases hall : buildAll table records with
    | error fault => exact ⟨fault, rfl⟩
    | ok c =>
      have hbuilt := exists_mapM_eq_ok_iff.mp ⟨_, mapM_build_of_buildAll hall⟩
      obtain ⟨x, hx⟩ := hbuilt r (Realm.mem_all r)
      rw [hr] at hx
      cases hx

/-! ## Matches -/

/-- The realms of a family are ordered by their registries. -/
lemma Realm.filter_all (f : Family) (p : Realm → Bool) :
    Realm.all.filter (fun r => r.family = f && p r) =
      (Registry.all.filter fun q => p ⟨q, f⟩).map fun q => ⟨q, f⟩ := by
  rw [Realm.all]
  induction Registry.all with
  | nil => rfl
  | cons q qs ih =>
    have hone : (Family.all.map fun g => (⟨q, g⟩ : Realm)).filter (fun r => r.family = f && p r) =
        if p ⟨q, f⟩ then [⟨q, f⟩] else [] := by
      cases f <;> simp [Family.all, List.filter_cons]
    rw [List.flatMap_cons, List.filter_append, ih, hone, List.filter_cons]
    cases p ⟨q, f⟩ <;> rfl

/-- There is a match for each realm of the family in which the address is delegated. -/
lemma map_realm_matching (hc : buildAll table records = .ok c) (f : Family) (a : Nat) :
    (c.matching f a).map (·.realm) =
      Realm.all.filter fun r => r.family = f && records.any (·.delegates r a) := by
  have hone : ∀ ⦃r x⦄, build table r records = .ok x →
      (if x.realm.family = f then (x.lookup a).map (Match.mk x.realm) else none).map (·.realm) =
        Option.guard (fun r => r.family = f && records.any (·.delegates r a)) r := by
    intro r x hx
    rw [Option.guard, ← isSome_lookup_of_build hx, realm_eq_of_build hx]
    by_cases hf : r.family = f
    · cases x.lookup a <;> simp [hf]
    · simp [hf]
  rw [Catalog.matching, List.filterMap_filter, List.map_filterMap, ← List.filterMap_eq_filter]
  simp only [decide_eq_true_eq]
  exact filterMap_of_mapM (mapM_build_of_buildAll hc) hone

/-- A match is what the index of its realm finds. -/
lemma lookup_of_mem_matching (hc : buildAll table records = .ok c) {m : Match}
    (hm : m ∈ c.matching f a) :
    ∃ x, build table m.realm records = .ok x ∧ x.lookup a = some m.entry := by
  rw [Catalog.matching, List.mem_filterMap] at hm
  obtain ⟨x, hx, hm⟩ := hm
  obtain ⟨e, he, rfl⟩ := Option.map_eq_some_iff.mp hm
  obtain ⟨r, -, hr⟩ := (mem_of_mapM (mapM_build_of_buildAll hc)).mp (List.mem_filter.mp hx).1
  refine ⟨x, ?_, he⟩
  rw [realm_eq_of_build hr]
  exact hr

/-- A catalog is built unless the index of some realm is not, and then the first such realm is
at fault.  Looking up a text in the catalog fails as reading an address from it does; for an
address there is one match for each registry that delegates it, in the order of the registries,
and the match is what the index of the registry finds. -/
theorem catalog_outcome (table : CountryTable) (records : List Record) :
    (∀ c, buildAll table records = .ok c → ∀ text,
      (∀ fault, c.lookup text = .error fault ↔ parseAddress text = .error fault) ∧
      ∀ f a, parseAddress text = .ok (f, a) → ∃ ms, c.lookup text = .ok ms ∧
        ms.map (·.realm) =
          (Registry.all.filter fun q => records.any (·.delegates ⟨q, f⟩ a)).map (fun q => ⟨q, f⟩) ∧
        ∀ m ∈ ms, ∃ x, build table m.realm records = .ok x ∧ x.lookup a = some m.entry) ∧
    (∀ fault, buildAll table records = .error fault ↔
      ∃ before r after, Realm.all = before ++ r :: after ∧
        (∀ q ∈ before, ∃ x, build table q records = .ok x) ∧
        build table r records = .error fault) ∧
    ((∃ fault, buildAll table records = .error fault) ↔
      ∃ r fault, build table r records = .error fault) := by
  refine ⟨?_, fun fault => buildAll_eq_error_iff, exists_buildAll_eq_error_iff⟩
  intro c hc text
  refine ⟨fun fault => map_eq_error_iff, ?_⟩
  intro f a hparse
  refine ⟨c.matching f a, map_eq_ok_iff.mpr ⟨_, hparse, rfl⟩, ?_, ?_⟩
  · rw [map_realm_matching hc, Realm.filter_all]
  · intro m hm
    exact lookup_of_mem_matching hc hm

/-- A block that the root registry handed to another one, a delegation inside of it, and one of
the other family. -/
def nestedRecords : List Record :=
  [⟨.iana, germany, .ipv4, 2 ^ 24, .length 8, .apnic⟩,
    ⟨.arin, germany, .ipv6, 0, .length 16, .allocated⟩,
    ⟨.apnic, france, .ipv4, 2 ^ 24 + 2 ^ 12, .count 4096, .allocated⟩]

/-- The catalog of `nestedRecords`. -/
def nestedCatalog : Catalog :=
  ⟨Realm.all.map fun r =>
    if r = ⟨.iana, .ipv4⟩ then ⟨r, #[⟨⟨2 ^ 24, 2 ^ 25 - 1⟩, 0, 2⟩]⟩
    else if r = ⟨.arin, .ipv6⟩ then ⟨r, #[⟨⟨0, 2 ^ 112 - 1⟩, 0, 1⟩]⟩
    else if r = ⟨.apnic, .ipv4⟩ then ⟨r, #[⟨⟨2 ^ 24 + 2 ^ 12, 2 ^ 24 + 2 ^ 13 - 1⟩, 1, 1⟩]⟩
    else RangeIndex.empty r⟩

theorem catalog_outcome_nested :
    buildAll germanyFrance nestedRecords = .ok nestedCatalog ∧
      parseAddress "1.0.16.1" = .ok (.ipv4, 2 ^ 24 + 2 ^ 12 + 1) ∧
      ∃ ms, nestedCatalog.lookup "1.0.16.1" = .ok ms ∧
        ms.map (·.realm) = [⟨.apnic, .ipv4⟩, ⟨.iana, .ipv4⟩] := by
  have hok : buildAll germanyFrance nestedRecords = .ok nestedCatalog := by cbv
  have hparse : parseAddress "1.0.16.1" = .ok (.ipv4, 2 ^ 24 + 2 ^ 12 + 1) := by cbv
  obtain ⟨ms, hms, hrealms, -⟩ :=
    ((catalog_outcome germanyFrance nestedRecords).1 _ hok "1.0.16.1").2 _ _ hparse
  refine ⟨hok, hparse, ms, hms, hrealms.trans ?_⟩
  cbv

end Delegation
