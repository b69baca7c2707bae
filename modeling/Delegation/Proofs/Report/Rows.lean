import Delegation.Proofs.Address.Alphabet
import Delegation.Proofs.Block.Enclosing
import Delegation.Proofs.Block.Tiling
import Delegation.Proofs.Build.Invariant
import Delegation.Proofs.Catalog.Lookup
import Delegation.Proofs.Text.Pieces
import Delegation.Report.Row

/-!
# The rows of a report

A row is made of an entry by computing blocks and decoding codes, and each of these steps can fail
by itself.  For an entry of an index that was built none of them does: the entry lies in the family
and is not empty, so it has an enclosing block, a tiling and texts for its bounds; its codes come
from a country of the table and from a status, so they can be decoded.  The row then says everything
that the entry does (`ReportRow.Spells`).

The entries of a catalog are listed realm by realm and in each realm by their addresses, and so are
the rows of its report.

Main results: `exists_ofEntry_of_mem_listed` and `report_of_buildAll`.
-/

namespace Delegation

open Delegation.Text Delegation.Address Build Sequence

variable {table : CountryTable} {r : Realm} {records : List Record} {c : Catalog} {m : Match}
  {e : Entry} {f : Family} {a : Nat}

/-! ## Texts of blocks -/

namespace Block

variable {b : Block} {text : List Char}

/-- The text of a block: the short text of its address, a slash, and its length. -/
def IsText (b : Block) (text : List Char) : Prop :=
  ∃ address, b.family.formatShort b.address = .ok address ∧
    text = address.toList ++ '/' :: decimal b.length

lemma isText_text (h : b.address ≤ b.family.maxAddress) : b.IsText b.text.toList := by
  refine ⟨b.family.shortText b.address, ?_, ?_⟩
  · rw [Family.formatShort, Family.check_eq_ok_iff.mpr ⟨h, rfl⟩]
    rfl
  · rw [Block.text, if_pos h]
    simp [decimal]

/-- The text of a block is made of the characters of addresses and of slashes. -/
lemma IsText.eq_or_isAddressChar (h : b.IsText text) {ch : Char} (hch : ch ∈ text) :
    ch = '/' ∨ isAddressChar ch = true := by
  obtain ⟨address, haddress, rfl⟩ := h
  obtain ⟨_, _, rfl⟩ := map_eq_ok_iff.mp haddress
  rcases List.mem_append.mp hch with hch | hch
  · exact .inr (isAddressChar_of_mem_shortText hch)
  · rcases List.mem_cons.mp hch with rfl | hch
    · exact .inl rfl
    · exact .inr (isAddressChar_of_isNumeral
        (isNumeral_toDigits (by decide) (by decide) b.length) hch)

lemma IsText.space_not_mem (h : b.IsText text) : ' ' ∉ text := by
  intro hspace
  rcases h.eq_or_isAddressChar hspace with heq | hchar
  · cases heq
  · cases hchar

/-- Blocks written with blanks between them are told apart by the blanks. -/
lemma forall₂_isText_pieces {blocks : List Block} (hne : blocks ≠ [])
    (h : ∀ b ∈ blocks, b.address ≤ b.family.maxAddress) :
    List.Forall₂ IsText blocks (pieces ' ' (" ".intercalate (blocks.map Block.text)).toList) := by
  have hsplit : pieces ' ' (" ".intercalate (blocks.map Block.text)).toList =
      blocks.map fun b => b.text.toList := by
    rw [String.toList_intercalate, List.map_map]
    have hjoined := intercalate_eq_joined ' ' (blocks.map (String.toList ∘ Block.text))
    rw [show " ".toList = [' '] from rfl, hjoined]
    refine pieces_joined ' ' (by simpa using hne) fun p hp => ?_
    obtain ⟨b, hb, rfl⟩ := List.mem_map.mp hp
    exact (isText_text (h b hb)).space_not_mem
  rw [hsplit, List.forall₂_map_right_iff, List.forall₂_same]
  exact fun b hb => isText_text (h b hb)

end Block

/-! ## One row -/

/-- The row says of an entry, the realm of its index included, everything that the entry says: its
bounds, the smallest block that has room for it, whether the two are of one size, the blocks that
make it up, and both of its codes with what they stand for. -/
structure ReportRow.Spells (table : CountryTable) (m : Match) (row : ReportRow) : Prop where
  registry_eq : row.registry = m.realm.registry
  family_eq : row.family = m.realm.family
  first : row.family.formatShort m.entry.first = .ok row.first
  last : row.family.formatShort m.entry.last = .ok row.last
  block : ∃ p, IsGreatest {p | p ≤ row.family.width ∧
      m.entry.last - m.entry.first + 1 ≤ 2 ^ (row.family.width - p)} p ∧
    (⟨row.family, m.entry.first, p⟩ : Block).IsText row.block.toList
  isExact_iff : row.isExact = true ↔ ∃ k, m.entry.last - m.entry.first + 1 = 2 ^ k
  tiling : ∃ blocks, Block.IsTiling row.family m.entry.first m.entry.last blocks ∧
    List.Forall₂ Block.IsText blocks (pieces ' ' row.tiling.toList)
  country : table.codeOf row.country = .ok row.countryCode
  countryCode_eq : row.countryCode = m.entry.countryCode
  status : row.status.code = row.statusCode
  statusCode_eq : row.statusCode = m.entry.statusCode

lemma formatShort_eq_ok (ha : a ≤ f.maxAddress) : f.formatShort a = .ok (f.shortText a) := by
  rw [Family.formatShort, Family.check_eq_ok_iff.mpr ⟨ha, rfl⟩]
  rfl

lemma decodeStatus_code (s : Status) : decodeStatus s.code = .ok s := by
  rw [decodeStatus, Status.ofCode?_code]

/-- An entry that lies in its family and has codes of a country and of a status has a row. -/
theorem exists_ofEntry_eq_ok {country : Country} {status : Status} (hle : e.first ≤ e.last)
    (hlast : e.last ≤ r.family.maxAddress) (hcountry : table.codeOf country = .ok e.countryCode)
    (hstatus : status.code = e.statusCode) :
    ∃ row, ReportRow.ofEntry table r e = .ok row ∧ row.Spells table ⟨r, e⟩ := by
  have hfirst : e.first ≤ r.family.maxAddress := Nat.le_trans hle hlast
  obtain ⟨p, henclosing, hgreatest⟩ := Block.exists_enclosing_eq_ok hle hlast
  obtain ⟨blocks, htiling, htiles⟩ := Block.exists_tiling_eq_ok hle hlast
  obtain ⟨exact, hexact, hpower⟩ := Block.exists_isExact_eq_ok hle hlast
  have hdecoded : table.countryOf e.countryCode = .ok country :=
    CountryTable.codeOf_eq_ok_iff_countryOf.mp hcountry
  have hread : decodeStatus e.statusCode = .ok status := hstatus ▸ decodeStatus_code status
  have hinside : ∀ b ∈ blocks, b.address ≤ b.family.maxAddress := by
    intro b hb
    have hbounds := htiles.bounds b hb
    have hblock := b.address_le_last
    rw [(htiles.isAligned b hb).family_eq]
    omega
  have hne : blocks ≠ [] := by
    rintro rfl
    cases htiles
  refine ⟨{
      registry := r.registry
      family := r.family
      first := r.family.shortText e.first
      last := r.family.shortText e.last
      block := Block.text ⟨r.family, e.first, p⟩
      isExact := exact
      tiling := " ".intercalate (blocks.map Block.text)
      country := country
      countryCode := e.countryCode
      status := status
      statusCode := e.statusCode }, ?_, ?_⟩
  · simp only [ReportRow.ofEntry, henclosing, htiling, formatShort_eq_ok hfirst,
      formatShort_eq_ok hlast, hexact, hdecoded, hread, bind, Except.bind]
    rfl
  · exact {
      registry_eq := rfl
      family_eq := rfl
      first := formatShort_eq_ok hfirst
      last := formatShort_eq_ok hlast
      block := ⟨p, hgreatest, Block.isText_text hfirst⟩
      isExact_iff := hpower
      tiling := ⟨blocks, htiles, Block.forall₂_isText_pieces hne hinside⟩
      country := hcountry
      countryCode_eq := rfl
      status := hstatus
      statusCode_eq := rfl }

/-! ## All rows -/

/-- Realms are ordered by their registries and then by their families. -/
def Realm.Before (r q : Realm) : Prop :=
  r.registry.code < q.registry.code ∨ r.registry = q.registry ∧ r.family.width < q.family.width

instance (r q : Realm) : Decidable (r.Before q) := inferInstanceAs (Decidable (_ ∨ _))

/-- Entries are ordered by their realms and then by their first addresses. -/
def Match.Before (m n : Match) : Prop :=
  m.realm.Before n.realm ∨ m.realm = n.realm ∧ m.entry.first < n.entry.first

/-- The entries of all indexes, index by index. -/
def Catalog.listed (c : Catalog) : List Match :=
  c.indexes.flatMap fun x => x.entries.toList.map (Match.mk x.realm)

lemma Catalog.length_listed (c : Catalog) :
    c.listed.length = (c.indexes.map fun x => x.entries.size).sum := by
  simp [listed, List.length_flatMap]

/-- The rows of a catalog are those of its entries. -/
lemma report_eq_report_listed (table : CountryTable) (c : Catalog) :
    c.report table = Match.report table c.listed := by
  rw [Match.report, Catalog.listed, mapM_flatMap_eq]
  simp only [List.mapM_map]
  rfl

lemma mem_listed (hc : buildAll table records = .ok c) :
    m ∈ c.listed ↔ ∃ x, build table m.realm records = .ok x ∧ m.entry ∈ x.entries.toList := by
  have hbuilt := mapM_build_of_buildAll hc
  simp only [Catalog.listed, List.mem_flatMap, List.mem_map]
  constructor
  · rintro ⟨x, hx, e, he, rfl⟩
    obtain ⟨r, -, hr⟩ := (mem_of_mapM hbuilt).mp hx
    rw [realm_eq_of_build hr]
    exact ⟨x, hr, he⟩
  · rintro ⟨x, hx, he⟩
    refine ⟨x, (mem_of_mapM hbuilt).mpr ⟨m.realm, Realm.mem_all _, hx⟩, m.entry, he, ?_⟩
    rw [realm_eq_of_build hx]

/-- The entries are listed realm by realm, and in each realm by their addresses. -/
lemma pairwise_before_listed (hc : buildAll table records = .ok c) :
    c.listed.Pairwise Match.Before := by
  have hbuilt := mapM_build_of_buildAll hc
  have hrealms : Realm.all.Pairwise Realm.Before := by decide
  rw [Catalog.listed, List.pairwise_flatMap]
  constructor
  · intro x hx
    obtain ⟨r, -, hr⟩ := (mem_of_mapM hbuilt).mp hx
    have hindex := isIndexOf_of_build hr
    rw [List.pairwise_map]
    refine hindex.ordered.imp_of_mem fun {d e} hd _ hlt => .inr ⟨rfl, ?_⟩
    exact Nat.lt_of_le_of_lt (hindex.bounds d hd).1 hlt
  · refine pairwise_of_mapM hbuilt hrealms ?_
    intro r q x y hx hy hbefore m hm n hn
    obtain ⟨d, -, rfl⟩ := List.mem_map.mp hm
    obtain ⟨e, -, rfl⟩ := List.mem_map.mp hn
    left
    rw [realm_eq_of_build hx, realm_eq_of_build hy]
    exact hbefore

/-- An entry of a built catalog has a row. -/
theorem exists_ofEntry_of_mem_listed (hc : buildAll table records = .ok c) (hm : m ∈ c.listed) :
    ∃ row, ReportRow.ofEntry table m.realm m.entry = .ok row ∧ row.Spells table m := by
  obtain ⟨x, hx, he⟩ := (mem_listed hc).mp hm
  have hindex := isIndexOf_of_build hx
  obtain ⟨hle, hlast⟩ := hindex.bounds m.entry he
  obtain ⟨g, y, -, -, hcountry, hstatus⟩ := hindex.source m.entry he
  exact exists_ofEntry_eq_ok hle hlast hcountry hstatus

/-- Entries of a built catalog have their rows, in their order. -/
theorem exists_report_of_forall_mem_listed (hc : buildAll table records = .ok c)
    {ms : List Match} (hms : ∀ m ∈ ms, m ∈ c.listed) :
    ∃ rows, Match.report table ms = .ok rows ∧ List.Forall₂ (ReportRow.Spells table) ms rows := by
  have hrow := fun m hm => exists_ofEntry_of_mem_listed hc (hms m hm)
  obtain ⟨rows, hrows⟩ := exists_mapM_eq_ok_iff.mpr fun m hm => (hrow m hm).imp fun _ h => h.1
  refine ⟨rows, hrows, ?_⟩
  have hspells := (List.forall₂_and_left _ _).mpr ⟨hrow, mapM_eq_ok_iff.mp hrows⟩
  refine hspells.imp fun m row ⟨⟨row', hrow', h⟩, hrow⟩ => ?_
  rwa [← Except.ok.inj (hrow'.symm.trans hrow)]

/-- A built catalog has a report, whose rows are those of its entries. -/
lemma exists_report_of_buildAll (hc : buildAll table records = .ok c) :
    ∃ rows, c.report table = .ok rows ∧ List.Forall₂ (ReportRow.Spells table) c.listed rows := by
  rw [report_eq_report_listed]
  exact exists_report_of_forall_mem_listed hc fun _ hm => hm

/-- The report of a built catalog has a row for each entry, which spells the entry out.  The entries
of all indexes come by registry, then by family, then by address. -/
theorem report_of_buildAll (hc : buildAll table records = .ok c) :
    ∃ rows, c.report table = .ok rows ∧ List.Forall₂ (ReportRow.Spells table) c.listed rows ∧
      c.listed.Pairwise Match.Before ∧
      ∀ r e, ⟨r, e⟩ ∈ c.listed ↔ ∃ x, build table r records = .ok x ∧ e ∈ x.entries.toList := by
  obtain ⟨rows, hrows, hspells⟩ := exists_report_of_buildAll hc
  exact ⟨rows, hrows, hspells, pairwise_before_listed hc, fun r e => mem_listed hc⟩

/-- A thousand addresses, delegated in two parts that touch. -/
def thousandRecords : List Record :=
  [⟨.ripencc, germany, .ipv4, 0x3d05d3c8, .count 32, .allocated⟩,
    ⟨.ripencc, germany, .ipv4, 0x3d05d000, .count 968, .assigned⟩]

/-- The entry of `thousandRecords`. -/
def thousandEntry : Entry := ⟨⟨0x3d05d000, 0x3d05d3e7⟩, 0, 4⟩

/-- The row of `thousandEntry`. -/
def thousandRow : ReportRow where
  registry := .ripencc
  family := .ipv4
  first := "61.5.208.0"
  last := "61.5.211.231"
  block := "61.5.208.0/22"
  isExact := false
  tiling := "61.5.208.0/23 61.5.210.0/24 61.5.211.0/25 " ++
    "61.5.211.128/26 61.5.211.192/27 61.5.211.224/29"
  country := germany
  countryCode := 0
  status := .assigned
  statusCode := 4

/-- The catalog of `thousandRecords`. -/
def thousandCatalog : Catalog :=
  ⟨Realm.all.map fun r =>
    if r = ⟨.ripencc, .ipv4⟩ then ⟨r, #[thousandEntry]⟩ else RangeIndex.empty r⟩

theorem report_of_buildAll_thousand :
    buildAll germanyFrance thousandRecords = .ok thousandCatalog ∧
      thousandCatalog.report germanyFrance = .ok [thousandRow] ∧
      thousandRow.Spells germanyFrance ⟨⟨.ripencc, .ipv4⟩, thousandEntry⟩ := by
  have hok : buildAll germanyFrance thousandRecords = .ok thousandCatalog := by cbv
  have hreport : thousandCatalog.report germanyFrance = .ok [thousandRow] := by decide +kernel
  obtain ⟨rows, hrows, hspells, -, -⟩ := report_of_buildAll hok
  obtain rfl := Except.ok.inj (hreport.symm.trans hrows)
  have hlisted : thousandCatalog.listed = [⟨⟨.ripencc, .ipv4⟩, thousandEntry⟩] := by decide
  rw [hlisted, List.forall₂_cons] at hspells
  exact ⟨hok, hreport, hspells.1⟩

end Delegation
