import Delegation.Country

/-!
# Country tables

A country table fixes the dense code of each country: its position in the table.  A table
lists no country twice and has at most 256 entries, so that every code fits in a byte.
-/

namespace Delegation

/-- The countries with a code, in code order. -/
structure CountryTable where
  countries : List Country
  nodup : countries.Nodup
  length_le : countries.length ≤ 256

namespace CountryTable

/-- The table without entries. -/
def empty : CountryTable := ⟨[], List.nodup_nil, by simp⟩

/-- The number of entries. -/
def size (t : CountryTable) : Nat := t.countries.length

/-- Whether a country has a code. -/
def contains (t : CountryTable) (c : Country) : Bool := t.countries.contains c

/-- The code of a country. -/
def codeOf (t : CountryTable) (c : Country) : Except Fault Nat :=
  match t.countries.idxOf? c with
  | some code => .ok code
  | none => .error (.unknownName .country c.name)

/-- The country with a code. -/
def countryOf (t : CountryTable) (code : Nat) : Except Fault Country :=
  match t.countries[code]? with
  | some c => .ok c
  | none => .error (.unknownCode .country code)

/-- Adds a country after all others. -/
def push (t : CountryTable) (name : String) : Except Fault CountryTable :=
  match Country.ofName name with
  | .error fault => .error fault
  | .ok c =>
    if hsize : t.countries.length < 256 then
      if hmem : c ∈ t.countries then
        .error (.unknownName .country (c.name ++ " (duplicate table entry)"))
      else
        .ok ⟨t.countries ++ [c],
          List.nodup_append.mpr ⟨t.nodup, by simp, by
            intro a ha b hb e
            exact hmem (List.mem_singleton.mp hb ▸ e ▸ ha)⟩,
          by simp; omega⟩
    else .error (.unknownName .country (c.name ++ " (table exceeds 256 entries)"))

/-- The table of the given names, in their order. -/
def ofNames (names : List String) : Except Fault CountryTable := names.foldlM push empty

/-- The countries of the published files, in code order. -/
def usualNames : List String := [
  "AD", "AE", "AF", "AG", "AI", "AL", "AM", "AO", "AR", "AS", "AT", "AU", "AW", "AX", "AZ",
  "BA", "BB", "BD", "BE", "BF", "BG", "BH", "BI", "BJ", "BL", "BM", "BN", "BO", "BQ", "BR",
  "BS", "BT", "BW", "BY", "BZ", "CA", "CD", "CF", "CG", "CH", "CI", "CK", "CL", "CM", "CN",
  "CO", "CR", "CU", "CV", "CW", "CY", "CZ", "DE", "DJ", "DK", "DM", "DO", "DZ", "EC", "EE",
  "EG", "ER", "ES", "ET", "EU", "FI", "FJ", "FM", "FO", "FR", "GA", "GB", "GD", "GE", "GF",
  "GG", "GH", "GI", "GL", "GM", "GN", "GP", "GQ", "GR", "GT", "GU", "GW", "GY", "HK", "HN",
  "HR", "HT", "HU", "ID", "IE", "IL", "IM", "IN", "IO", "IQ", "IR", "IS", "IT", "JE", "JM",
  "JO", "JP", "KE", "KG", "KH", "KI", "KM", "KN", "KP", "KR", "KW", "KY", "KZ", "LA", "LB",
  "LC", "LI", "LK", "LR", "LS", "LT", "LU", "LV", "LY", "MA", "MC", "MD", "ME", "MF", "MG",
  "MH", "MK", "ML", "MM", "MN", "MO", "MP", "MQ", "MR", "MS", "MT", "MU", "MV", "MW", "MX",
  "MY", "MZ", "NA", "NC", "NE", "NF", "NG", "NI", "NL", "NO", "NP", "NR", "NU", "NZ", "OM",
  "PA", "PE", "PF", "PG", "PH", "PK", "PL", "PM", "PR", "PS", "PT", "PW", "PY", "QA", "RE",
  "RO", "RS", "RU", "RW", "SA", "SB", "SC", "SD", "SE", "SG", "SI", "SK", "SL", "SM", "SN",
  "SO", "SR", "SS", "ST", "SV", "SX", "SY", "SZ", "TC", "TD", "TG", "TH", "TJ", "TK", "TL",
  "TM", "TN", "TO", "TR", "TT", "TV", "TW", "TZ", "UA", "UG", "US", "UY", "UZ", "VA", "VC",
  "VE", "VG", "VI", "VN", "VU", "WF", "WS", "YE", "YT", "ZA", "ZM", "ZW", "ZZ"]

/-- The table of the usual countries. -/
def usual : CountryTable :=
  match ofNames usualNames with
  | .ok t => t
  | .error _ => empty

theorem codeOf_eq_ok_iff {t : CountryTable} {c : Country} {code : Nat} :
    t.codeOf c = .ok code ↔ t.countries.idxOf? c = some code := by
  unfold codeOf
  cases t.countries.idxOf? c <;> simp

theorem countryOf_eq_ok_iff {t : CountryTable} {c : Country} {code : Nat} :
    t.countryOf code = .ok c ↔ t.countries[code]? = some c := by
  unfold countryOf
  cases t.countries[code]? <;> simp

/-- Codes and countries belong to each other both ways. -/
theorem codeOf_eq_ok_iff_countryOf {t : CountryTable} {c : Country} {code : Nat} :
    t.codeOf c = .ok code ↔ t.countryOf code = .ok c := by
  rw [codeOf_eq_ok_iff, countryOf_eq_ok_iff, List.idxOf?_eq_some_iff]
  constructor
  · rintro ⟨hlt, rfl, -⟩
    exact List.getElem?_eq_getElem hlt
  · intro h
    obtain ⟨hlt, rfl⟩ := List.getElem?_eq_some_iff.mp h
    refine ⟨hlt, rfl, fun j hj heq => ?_⟩
    -- a country is not listed twice
    have := (List.getElem_inj t.nodup).mp heq
    omega

theorem codeOf_injective {t : CountryTable} {c d : Country} {code : Nat}
    (hc : t.codeOf c = .ok code) (hd : t.codeOf d = .ok code) : c = d := by
  rw [codeOf_eq_ok_iff, List.idxOf?_eq_some_iff] at hc hd
  obtain ⟨_, rfl, -⟩ := hc
  obtain ⟨_, hd, -⟩ := hd
  exact hd

end CountryTable

end Delegation
