import Delegation.Statistics.Line
import Delegation.Proofs.Sequence
import Delegation.Proofs.Text.Pieces

/-!
# What the columns of a record say

A line is read as a record exactly if its columns are the names of a registry, a type and a
status, a country, an address and a number that fits the type: `Denotes` says so column by
column, without the order in which they are looked at.  `DenotesNumbers` is the same for lines
of system numbers, of which nothing but their number is kept.

Main results: `readRecord?_eq_some_iff` and `readRecord?_eq_none_iff`.
-/

namespace Delegation.Statistics

open Text Sequence

/-! ## Names -/

/-- Looking a name up finds what has that name, if each name finds its owner. -/
lemma find?_name_eq_some_iff {α : Type} {all : List α} {name : α → String}
    (hfound : ∀ a, all.find? (name · == name a) = some a) {s : String} {a : α} :
    all.find? (name · == s) = some a ↔ s = name a := by
  constructor
  · intro h
    have hname := List.find?_some h
    exact (beq_iff_eq.mp hname).symm
  · rintro rfl
    exact hfound a

section Names

variable {column : List Char}

lemma ofList_eq_iff {s : String} : String.ofList column = s ↔ column = s.toList := by
  rw [← String.toList_inj, String.toList_ofList]

lemma readRegistry_eq_ok_iff {r : Registry} :
    readRegistry column = .ok r ↔ column = r.name.toList := by
  rw [← ofList_eq_iff, ← find?_name_eq_some_iff Registry.ofName?_name, readRegistry,
    Registry.ofName?]
  split <;> simp [*]

lemma readStatus_eq_ok_iff {s : Status} : readStatus column = .ok s ↔ column = s.name.toList := by
  rw [← ofList_eq_iff, ← find?_name_eq_some_iff Status.ofName?_name, readStatus, Status.ofName?]
  split <;> simp [*]

lemma inColumn_eq_ok_iff {α : Type} {result : Except Fault α} {a : α} :
    inColumn result = .ok a ↔ result = .ok a := by
  cases result <;> simp [inColumn]

lemma readType_eq_ok_iff {t : ResourceType} :
    readType column = .ok t ↔ column = t.name.toList := by
  have hfound : ∀ t : ResourceType, ResourceType.all.find? (·.name == t.name) = some t := by
    intro t
    cases t <;> rfl
  rw [readType, inColumn_eq_ok_iff, ← ofList_eq_iff, ← find?_name_eq_some_iff hfound,
    ResourceType.ofName]
  split <;> simp [*]

lemma letters_of_ofLetters? {letters : List Char} {c : Country}
    (h : Country.ofLetters? letters = some c) : letters = c.letters := by
  match letters, h with
  | [a, b], h =>
    rw [Country.ofLetters?] at h
    split at h
    · obtain rfl := Option.some.inj h
      rfl
    · cases h

/-- A column says the letters of a country, or is blank for none. -/
def DenotesCountry (column : List Char) (c : Country) : Prop :=
  trim column = [] ∧ c = Country.unknown ∨ trim column = c.letters

lemma readCountry_eq_ok_iff {c : Country} :
    readCountry column = .ok c ↔ DenotesCountry column c := by
  rw [readCountry, DenotesCountry]
  split
  · next hblank =>
    rw [Except.ok.injEq, hblank]
    constructor
    · rintro rfl
      exact .inl ⟨rfl, rfl⟩
    · rintro (⟨-, rfl⟩ | h)
      · rfl
      · cases h
  · next letters hletters =>
    rw [inColumn_eq_ok_iff, Country.ofName, String.toList_ofList]
    constructor
    · intro h
      right
      split at h
      · next d hd =>
        obtain rfl := Except.ok.inj h
        exact letters_of_ofLetters? hd
      · cases h
    · rintro (⟨hblank, -⟩ | h)
      · exact absurd hblank hletters
      · rw [h, Country.ofLetters?_letters]

/-- A column says a number that fits the family. -/
def DenotesExtent (column : List Char) : Family → Extent → Prop
  | .ipv4, .count n => readCount? (2 ^ 128) column = some n
  | .ipv6, .length n => readCount? 256 column = some n
  | _, _ => False

lemma readColumn_eq_ok_iff {limit : Nat} {flaw : String → LineFlaw} {n : Nat} :
    readColumn limit flaw column = .ok n ↔ readCount? limit column = some n := by
  rw [readColumn]
  split <;> simp [*]

end Names

/-! ## Summaries -/

/-- A line is known for a summary by its last column, which is not its only one. -/
lemma isSummary_iff {line : List Char} :
    isSummary line = true ↔
      ∃ before, before ≠ [] ∧ columns line = before ++ ["summary".toList] := by
  rw [isSummary, List.isSuffixOf_iff_suffix]
  constructor
  · rintro ⟨before, rfl⟩
    have hword : columns "summary".toList = ["summary".toList] := pieces_of_not_mem '|' (by decide)
    refine ⟨columns before, pieces_ne_nil '|' before, ?_⟩
    rw [← hword]
    exact pieces_append before _
  · rintro ⟨before, hbefore, hcolumns⟩
    have hline : joined '|' (before ++ ["summary".toList]) =
        joined '|' before ++ '|' :: joined '|' ["summary".toList] :=
      joined_append hbefore (List.cons_ne_nil _ _)
    rw [← hcolumns, columns, joined_pieces] at hline
    exact ⟨_, hline.symm⟩

/-- Another word in the last column makes no summary. -/
lemma isSummary_eq_false {line last : List Char} (hlast : (columns line).getLast? = some last)
    (hword : last ≠ "summary".toList) : isSummary line = false := by
  rw [Bool.eq_false_iff]
  intro h
  obtain ⟨before, -, hcolumns⟩ := isSummary_iff.mp h
  rw [hcolumns, List.getLast?_concat] at hlast
  exact hword (Option.some.inj hlast).symm

/-- A summary has six columns. -/
lemma Summary.read_of_length_ne {line : List Char} (h : (columns line).length ≠ 6) :
    Summary.read line = .error (.malformedSummary (String.ofList line)) := by
  rw [Summary.read]
  split
  · next hcolumns => exact absurd (congrArg List.length hcolumns) h
  · rfl

/-! ## Records -/

/-- The columns of a line say what a record holds. -/
def Denotes (line : List Char) (r : Record) : Prop :=
  ∃ country first value date more,
    columns line = r.registry.name.toList :: country :: r.family.name.toList :: first :: value ::
      date :: r.status.name.toList :: more ∧
    DenotesCountry country r.country ∧ r.family.parse (String.ofList first) = .ok r.first ∧
    DenotesExtent value r.family r.extent

/-- The columns of a line are those of system numbers. -/
def DenotesNumbers (line : List Char) : Prop :=
  ∃ (registry : Registry) (c : Country) (status : Status), ∃ country first value date more,
    columns line = registry.name.toList :: country :: ResourceType.asn.name.toList :: first ::
      value :: date :: status.name.toList :: more ∧ DenotesCountry country c

/-- The columns of a line are read by themselves. -/
lemma readRecord?_eq_ok_iff {line : List Char} {r? : Option Record} :
    readRecord? line = .ok r? ↔
      ∃ (registry : Registry) (status : Status) (c : Country) (type : ResourceType),
        ∃ country first value date more,
          columns line = registry.name.toList :: country :: type.name.toList :: first :: value ::
            date :: status.name.toList :: more ∧ DenotesCountry country c ∧
          match type with
          | .asn => r? = none
          | .ipv4 => ∃ n address, readCount? (2 ^ 128) value = some n ∧
              Family.ipv4.parse (String.ofList first) = .ok address ∧
              r? = some ⟨registry, c, .ipv4, address, .count n, status⟩
          | .ipv6 => ∃ n address, readCount? 256 value = some n ∧
              Family.ipv6.parse (String.ofList first) = .ok address ∧
              r? = some ⟨registry, c, .ipv6, address, .length n, status⟩ := by
  constructor
  · intro h
    rw [readRecord?] at h
    split at h
    · next registry country type first value date status more hcolumns =>
      obtain ⟨r, hr, h⟩ := bind_eq_ok_iff.mp h
      obtain ⟨s, hs, h⟩ := bind_eq_ok_iff.mp h
      obtain ⟨c, hc, h⟩ := bind_eq_ok_iff.mp h
      obtain ⟨t, ht, h⟩ := bind_eq_ok_iff.mp h
      rw [readRegistry_eq_ok_iff.mp hr, readStatus_eq_ok_iff.mp hs, readType_eq_ok_iff.mp ht]
        at hcolumns
      refine ⟨r, s, c, t, country, first, value, date, more, hcolumns,
        readCountry_eq_ok_iff.mp hc, ?_⟩
      cases t with
      | asn => exact (Except.ok.inj h).symm
      | ipv4 =>
        obtain ⟨n, hn, h⟩ := bind_eq_ok_iff.mp h
        obtain ⟨address, haddress, h⟩ := bind_eq_ok_iff.mp h
        exact ⟨n, address, readColumn_eq_ok_iff.mp hn, inColumn_eq_ok_iff.mp haddress,
          (Except.ok.inj h).symm⟩
      | ipv6 =>
        obtain ⟨n, hn, h⟩ := bind_eq_ok_iff.mp h
        obtain ⟨address, haddress, h⟩ := bind_eq_ok_iff.mp h
        exact ⟨n, address, readColumn_eq_ok_iff.mp hn, inColumn_eq_ok_iff.mp haddress,
          (Except.ok.inj h).symm⟩
    · cases h
  · rintro ⟨r, s, c, t, country, first, value, date, more, hcolumns, hc, h⟩
    have hr : readRegistry r.name.toList = .ok r := readRegistry_eq_ok_iff.mpr rfl
    have hs : readStatus s.name.toList = .ok s := readStatus_eq_ok_iff.mpr rfl
    have ht : readType t.name.toList = .ok t := readType_eq_ok_iff.mpr rfl
    rw [readRecord?, hcolumns]
    simp only [hr, hs, ht, readCountry_eq_ok_iff.mpr hc, bind, Except.bind]
    cases t with
    | asn => rw [h]
    | ipv4 =>
      obtain ⟨n, address, hn, haddress, rfl⟩ := h
      simp only [readColumn_eq_ok_iff.mpr hn, inColumn_eq_ok_iff.mpr haddress]
    | ipv6 =>
      obtain ⟨n, address, hn, haddress, rfl⟩ := h
      simp only [readColumn_eq_ok_iff.mpr hn, inColumn_eq_ok_iff.mpr haddress]

/-- A line is read as a record exactly if its columns say so. -/
theorem readRecord?_eq_some_iff {line : List Char} {r : Record} :
    readRecord? line = .ok (some r) ↔ Denotes line r := by
  rw [readRecord?_eq_ok_iff]
  constructor
  · rintro ⟨registry, status, c, type, country, first, value, date, more, hcolumns, hc, h⟩
    cases type with
    | asn => cases h
    | ipv4 =>
      obtain ⟨n, address, hn, haddress, h⟩ := h
      obtain rfl := Option.some.inj h
      exact ⟨country, first, value, date, more, hcolumns, hc, haddress, hn⟩
    | ipv6 =>
      obtain ⟨n, address, hn, haddress, h⟩ := h
      obtain rfl := Option.some.inj h
      exact ⟨country, first, value, date, more, hcolumns, hc, haddress, hn⟩
  · rintro ⟨country, first, value, date, more, hcolumns, hc, haddress, hvalue⟩
    obtain ⟨registry, c, family, address, extent, status⟩ := r
    cases family with
    | ipv4 =>
      cases extent with
      | count n =>
        exact ⟨registry, status, c, .ipv4, country, first, value, date, more, hcolumns, hc, n,
          address, hvalue, haddress, rfl⟩
      | length n => exact hvalue.elim
    | ipv6 =>
      cases extent with
      | count n => exact hvalue.elim
      | length n =>
        exact ⟨registry, status, c, .ipv6, country, first, value, date, more, hcolumns, hc, n,
          address, hvalue, haddress, rfl⟩

/-- A line is read as system numbers exactly if its columns say so. -/
theorem readRecord?_eq_none_iff {line : List Char} :
    readRecord? line = .ok none ↔ DenotesNumbers line := by
  rw [readRecord?_eq_ok_iff]
  constructor
  · rintro ⟨registry, status, c, type, country, first, value, date, more, hcolumns, hc, h⟩
    cases type with
    | asn => exact ⟨registry, c, status, country, first, value, date, more, hcolumns, hc⟩
    | ipv4 =>
      obtain ⟨n, address, -, -, h⟩ := h
      cases h
    | ipv6 =>
      obtain ⟨n, address, -, -, h⟩ := h
      cases h
  · rintro ⟨registry, c, status, country, first, value, date, more, hcolumns, hc⟩
    exact ⟨registry, status, c, .asn, country, first, value, date, more, hcolumns, hc, rfl⟩

end Delegation.Statistics
