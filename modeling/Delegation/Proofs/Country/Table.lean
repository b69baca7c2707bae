import Delegation.Country.Table
import Delegation.Proofs.Sequence
import Delegation.Proofs.Word
import Mathlib

/-!
# Country tables from names

A list of names makes a country table if it lists codes of countries, none of them twice and not
more than 256 (`CountryTable.Lists`).  The table then has these countries in this order
(`ofNames_eq_ok_iff`), and a code and a country belong to each other in both directions.  Any other
list fails at the first of its names that cannot follow those before it (`CountryTable.Offends`).

The codes of a table may also be kept apart from its countries, in a second column that is extended
together with the first (`CountryTable.Columns`).  Both columns always say the same, and so nothing
changes for who asks them (`Columns.Keeps`).

Main result: `table_of_names`.
-/

namespace Delegation

open Sequence Word

/-! ## Names of countries -/

namespace Country

/-- The upper-case letters in order. -/
def upperLetters : List Char := "ABCDEFGHIJKLMNOPQRSTUVWXYZ".toList

/-- The text is two upper-case letters. -/
def IsName (name : String) : Prop :=
  ∃ a ∈ upperLetters, ∃ b ∈ upperLetters, name.toList = [a, b]

variable {name : String} {c d : Country}

lemma mem_upperLetters_iff {a : Char} : a ∈ upperLetters ↔ a.isUpper = true := by
  constructor
  · intro ha
    have hall : upperLetters.all Char.isUpper = true := rfl
    exact List.all_eq_true.mp hall a ha
  · intro ha
    have htable : ∀ n < 26, Char.ofNat (65 + n) ∈ upperLetters := by decide
    simp only [Char.isUpper, decide_eq_true_eq, UInt32.le_iff_toNat_le, ge_iff_le,
      Char.toNat_val, Char.reduceToNat] at ha
    have hmem := htable (a.toNat - 65) (by omega)
    rwa [Nat.add_sub_cancel' ha.1, Char.ofNat_toNat] at hmem

lemma name_injective (h : c.name = d.name) : c = d :=
  letters_injective (String.ofList_injective h)

lemma isName_iff : IsName name ↔ ∃ c : Country, c.name = name := by
  constructor
  · rintro ⟨a, ha, b, hb, hname⟩
    rw [mem_upperLetters_iff] at ha hb
    refine ⟨⟨a, b, ha, hb⟩, ?_⟩
    rw [← String.toList_inj, hname, Country.name, String.toList_ofList]
    rfl
  · rintro ⟨c, rfl⟩
    refine ⟨c.first, mem_upperLetters_iff.mpr c.first_isUpper, c.second,
      mem_upperLetters_iff.mpr c.second_isUpper, ?_⟩
    rw [Country.name, String.toList_ofList]
    rfl

lemma ofName_eq_ok_iff : ofName name = .ok c ↔ c.name = name := by
  constructor
  · intro h
    rw [ofName] at h
    split at h
    · next c' hc' =>
      obtain rfl := Except.ok.inj h
      rw [← String.toList_inj, Country.name, String.toList_ofList]
      -- the letters that were read are those of the text
      unfold ofLetters? at hc'
      split at hc'
      · next a b hs =>
        split_ifs at hc'
        obtain rfl := Option.some.inj hc'
        exact hs.symm
      · cases hc'
    · cases h
  · rintro rfl
    exact ofName_name c

lemma ofName_of_not_isName (h : ¬ IsName name) :
    ofName name = .error (.unknownName .country name) := by
  cases hname : ofName name with
  | ok c => exact absurd (isName_iff.mpr ⟨c, ofName_eq_ok_iff.mp hname⟩) h
  | error fault =>
    rw [ofName] at hname
    split at hname
    · cases hname
    · exact hname.symm

end Country

namespace CountryTable

open Country (IsName isName_iff ofName_eq_ok_iff ofName_of_not_isName name_injective ofName_name)

/-- The names are those of different countries, and there is a code for each of them. -/
structure Lists (names : List String) : Prop where
  isName : ∀ name ∈ names, IsName name
  nodup : names.Nodup
  length_le : names.length ≤ 256

/-- The name cannot follow the names before it: it names no country, or all codes are in use, or it
is one of them. -/
inductive Offends (before : List String) (name : String) : Fault → Prop where
  | malformed (hname : ¬ IsName name) : Offends before name (.unknownName .country name)
  | tooMany (hname : IsName name) (hsize : 256 ≤ before.length) :
      Offends before name (.unknownName .country (name ++ " (table exceeds 256 entries)"))
  | repeated (hname : IsName name) (hsize : before.length < 256) (hmem : name ∈ before) :
      Offends before name (.unknownName .country (name ++ " (duplicate table entry)"))

/-- The names of the countries, in code order. -/
def names (t : CountryTable) : List String := t.countries.map Country.name

variable {t t' : CountryTable} {c : Country} {name : String} {names : List String} {fault : Fault}

lemma ext_names (h : t.names = t'.names) : t = t' := by
  have hinjective : Function.Injective Country.name := fun _ _ => name_injective
  obtain ⟨countries, _, _⟩ := t
  obtain ⟨countries', _, _⟩ := t'
  obtain rfl : countries = countries' := hinjective.list_map h
  rfl

lemma length_names (t : CountryTable) : t.names.length = t.countries.length := List.length_map ..

lemma name_mem_names : c.name ∈ t.names ↔ c ∈ t.countries := by
  have hinjective : Function.Injective Country.name := fun _ _ => name_injective
  exact List.mem_map_of_injective hinjective

lemma lists_names (t : CountryTable) : Lists t.names := by
  refine ⟨?_, t.nodup.map fun _ _ => name_injective, t.length_names.trans_le t.length_le⟩
  intro name hname
  obtain ⟨c, -, rfl⟩ := List.mem_map.mp hname
  exact isName_iff.mpr ⟨c, rfl⟩

/-! ## One more name -/

/-- Adding a name extends the table by it, or fails because it cannot follow the others. -/
lemma push_cases (t : CountryTable) (name : String) :
    (∃ t', t.push name = .ok t' ∧ t'.names = t.names ++ [name]) ∨
      ∃ fault, t.push name = .error fault ∧ Offends t.names name fault := by
  rw [push]
  by_cases hname : IsName name
  · obtain ⟨c, rfl⟩ := isName_iff.mp hname
    simp only [ofName_name]
    split_ifs with hsize hmem
    · exact .inr ⟨_, rfl, .repeated hname (by rwa [length_names]) (name_mem_names.mpr hmem)⟩
    · exact .inl ⟨_, rfl, List.map_append⟩
    · exact .inr ⟨_, rfl, .tooMany hname (by rw [length_names]; exact Nat.le_of_not_lt hsize)⟩
  · simp only [ofName_of_not_isName hname]
    exact .inr ⟨_, rfl, .malformed hname⟩

/-- There is at most one reason why a name cannot follow, and a table of all names is none. -/
lemma Offends.unique {before : List String} {fault' : Fault} (h : Offends before name fault)
    (h' : Offends before name fault') : fault = fault' := by
  cases h with
  | malformed hname =>
    cases h' with
    | malformed => rfl
    | tooMany hname' => exact absurd hname' hname
    | repeated hname' => exact absurd hname' hname
  | tooMany hname hsize =>
    cases h' with
    | malformed hname' => exact absurd hname hname'
    | tooMany => rfl
    | repeated _ hsize' => exact absurd hsize (Nat.not_le.mpr hsize')
  | repeated hname hsize =>
    cases h' with
    | malformed hname' => exact absurd hname hname'
    | tooMany _ hsize' => exact absurd hsize' (Nat.not_le.mpr hsize)
    | repeated => rfl

lemma Offends.not_lists {before : List String} (h : Offends before name fault) :
    ¬ Lists (before ++ [name]) := by
  intro hlists
  cases h with
  | malformed hname => exact hname (hlists.isName name (by simp))
  | tooMany _ hsize =>
    have hlength := hlists.length_le
    rw [List.length_append, List.length_singleton] at hlength
    omega
  | repeated _ _ hmem =>
    exact (List.nodup_append.mp hlists.nodup).2.2 name hmem name (by simp) rfl

lemma push_eq_error_iff : t.push name = .error fault ↔ Offends t.names name fault := by
  rcases push_cases t name with ⟨t', ht', hnames⟩ | ⟨fault', hfault', hoffends⟩
  · rw [ht']
    refine ⟨nofun, fun hoffends => ?_⟩
    exact absurd (hnames ▸ t'.lists_names) hoffends.not_lists
  · rw [hfault', Except.error.injEq]
    constructor
    · rintro rfl
      exact hoffends
    · exact hoffends.unique

lemma push_eq_ok_iff : t.push name = .ok t' ↔ t'.names = t.names ++ [name] := by
  rcases push_cases t name with ⟨t'', ht'', hnames⟩ | ⟨fault, hfault, hoffends⟩
  · rw [ht'', Except.ok.injEq]
    constructor
    · rintro rfl
      exact hnames
    · intro h
      exact ext_names (hnames.trans h.symm)
  · rw [hfault]
    refine ⟨nofun, fun hnames => ?_⟩
    exact absurd (hnames ▸ t'.lists_names) hoffends.not_lists

/-! ## All names -/

/-- The table of some names is the one that has these names, in their order. -/
theorem ofNames_eq_ok_iff : ofNames names = .ok t ↔ t.names = names := by
  induction names using List.reverseRecOn generalizing t with
  | nil =>
    show Except.ok empty = Except.ok t ↔ t.names = []
    rw [Except.ok.injEq]
    constructor
    · rintro rfl
      rfl
    · intro h
      exact ext_names h.symm
  | append_singleton names name ih =>
    rw [ofNames, foldlM_concat, bind_eq_ok_iff]
    constructor
    · rintro ⟨before, hbefore, hpush⟩
      rw [push_eq_ok_iff.mp hpush, ih.mp hbefore]
    · intro h
      -- the table without its last country
      have hinit : (t.countries.dropLast).map Country.name = names := by
        rw [List.map_dropLast, show t.countries.map Country.name = _ from h,
          List.dropLast_concat]
      let before : CountryTable := ⟨t.countries.dropLast,
        t.nodup.sublist (List.dropLast_sublist _), by
          rw [List.length_dropLast]
          exact Nat.le_trans (Nat.sub_le ..) t.length_le⟩
      refine ⟨before, ih.mpr hinit, push_eq_ok_iff.mpr ?_⟩
      rw [h, show before.names = names from hinit]

/-- Which names make a table. -/
theorem exists_ofNames_eq_ok_iff : (∃ t, ofNames names = .ok t) ↔ Lists names := by
  constructor
  · rintro ⟨t, ht⟩
    rw [← ofNames_eq_ok_iff.mp ht]
    exact t.lists_names
  · intro h
    have hrange : names ∈ Set.range (List.map Country.name) := by
      rw [Set.range_list_map]
      exact fun name hname => isName_iff.mp (h.isName name hname)
    obtain ⟨countries, rfl⟩ := hrange
    have hlength := h.length_le
    rw [List.length_map] at hlength
    exact ⟨⟨countries, h.nodup.of_map _, hlength⟩, ofNames_eq_ok_iff.mpr rfl⟩

/-- A list that makes no table fails at the first name that cannot follow those before it. -/
theorem ofNames_eq_error_iff :
    ofNames names = .error fault ↔
      ∃ before name after, names = before ++ name :: after ∧ Lists before ∧
        Offends before name fault := by
  rw [ofNames, foldlM_eq_error_iff]
  constructor
  · rintro ⟨before, name, after, t, rfl, ht, hpush⟩
    have hnames : t.names = before := ofNames_eq_ok_iff.mp ht
    refine ⟨before, name, after, rfl, exists_ofNames_eq_ok_iff.mp ⟨t, ht⟩, ?_⟩
    rw [← hnames]
    exact push_eq_error_iff.mp hpush
  · rintro ⟨before, name, after, rfl, hlists, hoffends⟩
    obtain ⟨t, ht⟩ := exists_ofNames_eq_ok_iff.mpr hlists
    refine ⟨before, name, after, t, rfl, ht, push_eq_error_iff.mpr ?_⟩
    rwa [ofNames_eq_ok_iff.mp ht]

/-! ## Two columns -/

instance : Hashable Country := ⟨fun c => mixHash (hash c.first) (hash c.second)⟩

/-- A table in two columns: the countries in code order, and the code of each country. -/
structure Columns where
  countries : Array Country
  codes : Std.HashMap Country (BitVec 8)

namespace Columns

/-- Adds a country to both columns. -/
def push (x : Columns) (name : String) : Except Fault Columns :=
  match Country.ofName name with
  | .error fault => .error fault
  | .ok c =>
    match narrow? 8 (BitVec.ofNat 64 x.countries.size) with
    | none => .error (.unknownName .country (c.name ++ " (table exceeds 256 entries)"))
    | some code =>
      if x.codes.contains c then
        .error (.unknownName .country (c.name ++ " (duplicate table entry)"))
      else .ok ⟨x.countries.push c, x.codes.insert c code⟩

/-- The columns of the given names, in their order. -/
def ofNames (names : List String) : Except Fault Columns := names.foldlM push ⟨#[], ∅⟩

/-- The code of a country, from its own column. -/
def codeOf (x : Columns) (c : Country) : Except Fault Nat :=
  match x.codes[c]? with
  | some code => .ok code.toNat
  | none => .error (.unknownName .country c.name)

/-- The country with a code, from its own column. -/
def countryOf (x : Columns) (code : Nat) : Except Fault Country :=
  match x.countries[code]? with
  | some c => .ok c
  | none => .error (.unknownCode .country code)

variable {x x' : Columns}

/-- Both columns are those of the table. -/
structure Keeps (x : Columns) (t : CountryTable) : Prop where
  countries_eq : x.countries.toList = t.countries
  codes_eq : ∀ c, x.codes[c]?.map BitVec.toNat = t.countries.idxOf? c

namespace Keeps

lemma empty : Keeps ⟨#[], ∅⟩ CountryTable.empty := by
  refine ⟨rfl, fun c => ?_⟩
  rw [Std.HashMap.getElem?_empty]
  rfl

lemma contains_eq (h : x.Keeps t) (c : Country) : x.codes.contains c = t.contains c := by
  rw [Std.HashMap.contains_eq_isSome_getElem?, ← Option.isSome_map (f := BitVec.toNat), h.codes_eq,
    Bool.eq_iff_iff, List.isSome_idxOf?, CountryTable.contains, List.contains_iff_mem]

lemma codeOf_eq (h : x.Keeps t) : x.codeOf = t.codeOf := by
  ext c
  rw [codeOf, CountryTable.codeOf, ← h.codes_eq c]
  cases x.codes[c]? <;> rfl

lemma countryOf_eq (h : x.Keeps t) : x.countryOf = t.countryOf := by
  ext code
  have hcountry : x.countries[code]? = t.countries[code]? := by
    rw [← h.countries_eq, Array.getElem?_toList]
  cases hfound : t.countries[code]? <;>
    simp only [countryOf, CountryTable.countryOf, hcountry, hfound]

/-- A country that was missing is added to both columns at once. -/
lemma append {code : BitVec 8} (h : x.Keeps t) (hc : c ∉ t.countries)
    (hcode : code.toNat = t.countries.length) (ht' : t'.countries = t.countries ++ [c]) :
    Keeps ⟨x.countries.push c, x.codes.insert c code⟩ t' := by
  refine ⟨?_, fun d => ?_⟩
  · rw [Array.toList_push, h.countries_eq, ht']
  · have hbehind : (t.countries ++ [c]).idxOf? d =
        (t.countries.idxOf? d).or (([c].idxOf? d).map (· + t.countries.length)) :=
      List.findIdx?_append
    rw [ht', hbehind, Std.HashMap.getElem?_insert]
    by_cases hd : c = d
    · subst hd
      rw [if_pos (beq_self_eq_true c), List.idxOf?_eq_none_iff.mpr hc, Option.none_or,
        Option.map_some, hcode]
      simp
    · have hnone : [c].idxOf? d = none := List.idxOf?_eq_none_iff.mpr (by simpa using Ne.symm hd)
      rw [if_neg (by simpa using hd), h.codes_eq, hnone, Option.map_none, Option.or_none]

/-- One more name is taken by both columns, or refused as it is by the table. -/
lemma push (h : x.Keeps t) (name : String) :
    (∃ x' t', x.push name = .ok x' ∧ t.push name = .ok t' ∧ x'.Keeps t') ∨
      ∃ fault, x.push name = .error fault ∧ t.push name = .error fault := by
  rw [Columns.push, CountryTable.push]
  cases hname : Country.ofName name with
  | error fault => exact .inr ⟨fault, rfl, rfl⟩
  | ok c =>
    have hsize : x.countries.size = t.countries.length := by
      rw [← h.countries_eq, Array.length_toList]
    have hlength := t.length_le
    have hword : (BitVec.ofNat 64 x.countries.size).toNat = t.countries.length := by
      rw [hsize]
      exact Nat.mod_eq_of_lt (by omega)
    simp only
    by_cases hfree : t.countries.length < 256
    · obtain ⟨code, hcode, hnat⟩ :=
        exists_narrow?_eq_some (v := 8) (a := BitVec.ofNat 64 x.countries.size) (by omega)
      have hcontains : x.codes.contains c = true ↔ c ∈ t.countries := by
        rw [h.contains_eq, CountryTable.contains, List.contains_iff_mem]
      simp only [hcode, dif_pos hfree]
      by_cases hmem : c ∈ t.countries
      · rw [if_pos (hcontains.mpr hmem), dif_pos hmem]
        exact .inr ⟨_, rfl, rfl⟩
      · rw [if_neg (mt hcontains.mp hmem), dif_neg hmem]
        exact .inl ⟨_, _, rfl, rfl, h.append hmem (hnat.trans hword) rfl⟩
    · have hnone : narrow? 8 (BitVec.ofNat 64 x.countries.size) = none := if_neg (by omega)
      simp only [hnone, dif_neg hfree]
      exact .inr ⟨_, rfl, rfl⟩

/-- The columns of some names are those of their table, or the names are refused as they are for the
table. -/
theorem ofNames (names : List String) :
    (∃ x t, Columns.ofNames names = .ok x ∧ CountryTable.ofNames names = .ok t ∧ x.Keeps t) ∨
      ∃ fault, Columns.ofNames names = .error fault ∧
        CountryTable.ofNames names = .error fault := by
  induction names using List.reverseRecOn with
  | nil => exact .inl ⟨_, _, rfl, rfl, .empty⟩
  | append_singleton names name ih =>
    rw [Columns.ofNames, CountryTable.ofNames, foldlM_concat, foldlM_concat]
    rcases ih with ⟨x, t, hx, ht, hkeeps⟩ | ⟨fault, hx, ht⟩
    · rw [show names.foldlM Columns.push _ = _ from hx,
        show names.foldlM CountryTable.push _ = _ from ht]
      rcases hkeeps.push name with ⟨x', t', hx', ht', hkeeps'⟩ | ⟨fault, hx', ht'⟩
      · exact .inl ⟨x', t', hx', ht', hkeeps'⟩
      · exact .inr ⟨fault, hx', ht'⟩
    · rw [show names.foldlM Columns.push _ = _ from hx,
        show names.foldlM CountryTable.push _ = _ from ht]
      exact .inr ⟨fault, rfl, rfl⟩

end Keeps

end Columns

/-! ## The table of a list -/

lemma exists_countryOf_eq_ok_iff {code : Nat} :
    (∃ c, t.countryOf code = .ok c) ↔ code < t.countries.length := by
  simp only [countryOf_eq_ok_iff]
  constructor
  · rintro ⟨c, hc⟩
    exact (List.getElem?_eq_some_iff.mp hc).1
  · intro h
    exact ⟨_, List.getElem?_eq_getElem h⟩

lemma contains_eq_true_iff : t.contains c = true ↔ ∃ code, t.codeOf c = .ok code := by
  simp only [codeOf_eq_ok_iff, ← Option.isSome_iff_exists, List.isSome_idxOf?]
  exact List.contains_iff_mem

/-- Names make a table exactly if they are those of different countries and not too many.  It has
the countries in their order, and codes and countries belong to each other both ways; a table that
keeps the codes in a column of their own answers the same.  Other names are refused at the first of
them that cannot follow the ones before it. -/
theorem table_of_names (names : List String) :
    ((∃ t, ofNames names = .ok t) ↔
      (∀ name ∈ names, IsName name) ∧ names.Nodup ∧ names.length ≤ 256) ∧
    (∀ t, ofNames names = .ok t →
      t.countries.map Country.name = names ∧
      (∀ code c, t.countryOf code = .ok c ↔ t.codeOf c = .ok code) ∧
      (∀ code, (∃ c, t.countryOf code = .ok c) ↔ code < names.length) ∧
      (∀ c, t.contains c = true ↔ ∃ code, t.codeOf c = .ok code) ∧
      ∃ x, Columns.ofNames names = .ok x ∧ x.countries.toList = t.countries ∧
        x.codeOf = t.codeOf ∧ x.countryOf = t.countryOf ∧
        ∀ c, x.codes.contains c = t.contains c) ∧
    ∀ fault,
      (ofNames names = .error fault ↔
        ∃ before name after, names = before ++ name :: after ∧ Lists before ∧
          Offends before name fault) ∧
      (Columns.ofNames names = .error fault ↔ ofNames names = .error fault) := by
  refine ⟨?_, fun t ht => ?_, fun fault => ⟨ofNames_eq_error_iff, ?_⟩⟩
  · rw [exists_ofNames_eq_ok_iff]
    constructor
    · intro h
      exact ⟨h.isName, h.nodup, h.length_le⟩
    · rintro ⟨hname, hnodup, hlength⟩
      exact ⟨hname, hnodup, hlength⟩
  · have hnames : t.names = names := ofNames_eq_ok_iff.mp ht
    refine ⟨hnames, fun code c => codeOf_eq_ok_iff_countryOf.symm, fun code => ?_,
      fun c => contains_eq_true_iff, ?_⟩
    · rw [exists_countryOf_eq_ok_iff, ← hnames, length_names]
    · rcases Columns.Keeps.ofNames names with ⟨x, t', hx, ht', hkeeps⟩ | ⟨fault, -, hfault⟩
      · obtain rfl := Except.ok.inj (ht.symm.trans ht')
        exact ⟨x, hx, hkeeps.countries_eq, hkeeps.codeOf_eq, hkeeps.countryOf_eq,
          hkeeps.contains_eq⟩
      · cases ht.symm.trans hfault
  · rcases Columns.Keeps.ofNames names with ⟨x, t, hx, ht, -⟩ | ⟨fault', hx, ht⟩
    · rw [hx, ht]
      simp
    · rw [hx, ht]
      simp

/-- Two countries, and the same two again with one of them repeated. -/
theorem table_of_names_repeated :
    (∃ t, ofNames ["JP", "CN"] = .ok t ∧
      ∀ code, (∃ c, t.countryOf code = .ok c) ↔ code < 2) ∧
    ofNames ["JP", "CN", "JP", "cn"] =
      .error (.unknownName .country "JP (duplicate table entry)") := by
  have hnames : ∀ name ∈ ["JP", "CN"], IsName name := by
    intro name hname
    rcases List.mem_pair.mp hname with rfl | rfl
    · exact isName_iff.mpr ⟨⟨'J', 'P', rfl, rfl⟩, rfl⟩
    · exact isName_iff.mpr ⟨⟨'C', 'N', rfl, rfl⟩, rfl⟩
  obtain ⟨hexists, htable, -⟩ := table_of_names ["JP", "CN"]
  obtain ⟨t, ht⟩ := hexists.mpr ⟨hnames, by decide, by decide⟩
  obtain ⟨-, -, hcodes, -⟩ := htable t ht
  refine ⟨⟨t, ht, hcodes⟩, ?_⟩
  obtain ⟨-, -, hfault⟩ := table_of_names ["JP", "CN", "JP", "cn"]
  refine (hfault _).1.mpr ⟨["JP", "CN"], "JP", ["cn"], rfl, ⟨hnames, by decide, by decide⟩, ?_⟩
  exact .repeated (hnames "JP" (by simp)) (by decide) (by simp)

end CountryTable

end Delegation
