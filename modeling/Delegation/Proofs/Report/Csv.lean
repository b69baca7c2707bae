import Delegation.Proofs.Report.Rows
import Delegation.Report.Csv
import Delegation.Report.Document

/-!
# Reports in both formats

The texts of a row are names, numbers and addresses, and none of them has a character that a field
must be quoted for (`needsQuotes_of_mem_fields`).  So the table of some rows has a line for each of
them, and cutting the line at its commas gives the fields of the row.  These are the texts of the
members of the JSON value of the row, under the same names (`Csv.Carries`), and the members show
all that the row has (`ReportRow.ShownBy`).

Main result: `Csv.agrees_write`.
-/

namespace Delegation

open Delegation.Text Delegation.Address Sequence

variable {table : CountryTable} {m : Match} {row : ReportRow} {rows : List ReportRow}

namespace Json

/-- The text of a value that is neither missing nor made of other values: a text itself, a truth
value in words, a number in decimal digits. -/
def plainText? : Json → Option String
  | .text s => some s
  | .bool b => some (if b then "true" else "false")
  | .number n => some (toString n)
  | _ => none

/-- The member of an object with a name. -/
def member? (name : String) : Json → Option Json
  | .object members => members.lookup name
  | _ => none

/-- Members with different names are told apart by what stands under each name. -/
lemma eq_of_lookup_eq {ms ms' : List (String × Json)} (hdistinct : (ms'.map Prod.fst).Nodup)
    (hnames : ms.map Prod.fst = ms'.map Prod.fst)
    (h : ∀ name ∈ ms'.map Prod.fst, ms.lookup name = ms'.lookup name) : ms = ms' := by
  induction ms' generalizing ms with
  | nil => simpa using hnames
  | cons x' rest' ih =>
    cases ms with
    | nil => cases hnames
    | cons x rest =>
      obtain ⟨name, value⟩ := x
      obtain ⟨name', value'⟩ := x'
      simp only [List.map_cons, List.nodup_cons, List.cons.injEq,
        List.forall_mem_cons] at hdistinct hnames h
      obtain ⟨rfl, hnames⟩ := hnames
      obtain ⟨hnew, hdistinct⟩ := hdistinct
      obtain ⟨hvalue, h⟩ := h
      have heq : value = value' := by simpa using hvalue
      have hrest : rest = rest' := ih hdistinct hnames fun other hother => by
        -- the name in front is not looked up again
        have hne : (other == name) = false := by
          rw [beq_eq_false_iff_ne]
          rintro rfl
          exact hnew hother
        simpa [List.lookup_cons, hne] using h other hother
      rw [heq, hrest]

end Json

/-- The members of an object show a row: there is one for each part of the row, with the names in
this order, and its value is the text, the truth value or the number of that part. -/
structure ReportRow.ShownBy (row : ReportRow) (members : List (String × Json)) : Prop where
  names_eq : members.map Prod.fst = ["registry", "family", "start", "end", "cidr", "cidr_exact",
    "blocks", "country", "country_code", "status", "status_code"]
  registry : members.lookup "registry" = some (.text row.registry.name)
  family : members.lookup "family" = some (.text row.family.name)
  first : members.lookup "start" = some (.text row.first)
  last : members.lookup "end" = some (.text row.last)
  block : members.lookup "cidr" = some (.text row.block)
  isExact : members.lookup "cidr_exact" = some (.bool row.isExact)
  tiling : members.lookup "blocks" = some (.text row.tiling)
  country : members.lookup "country" = some (.text row.country.name)
  countryCode : members.lookup "country_code" = some (.number row.countryCode)
  status : members.lookup "status" = some (.text row.status.name)
  statusCode : members.lookup "status_code" = some (.number row.statusCode)

/-- Only one list of members shows a row. -/
theorem ReportRow.ShownBy.unique {ms ms' : List (String × Json)} (h : row.ShownBy ms)
    (h' : row.ShownBy ms') : ms = ms' := by
  refine Json.eq_of_lookup_eq ?_ (h.names_eq.trans h'.names_eq.symm) fun name hname => ?_
  · rw [h'.names_eq]
    decide
  · rw [h'.names_eq] at hname
    simp only [List.mem_cons, List.not_mem_nil, or_false] at hname
    rcases hname with rfl | rfl | rfl | rfl | rfl | rfl | rfl | rfl | rfl | rfl | rfl
    · exact h.registry.trans h'.registry.symm
    · exact h.family.trans h'.family.symm
    · exact h.first.trans h'.first.symm
    · exact h.last.trans h'.last.symm
    · exact h.block.trans h'.block.symm
    · exact h.isExact.trans h'.isExact.symm
    · exact h.tiling.trans h'.tiling.symm
    · exact h.country.trans h'.country.symm
    · exact h.countryCode.trans h'.countryCode.symm
    · exact h.status.trans h'.status.symm
    · exact h.statusCode.trans h'.statusCode.symm

namespace Csv

variable {s : List Char}

/-! ## Fields -/

lemma isUpper_of_mem_name {country : Country} {c : Char} (hc : c ∈ country.name.toList) :
    c.isUpper = true := by
  simp only [Country.name, String.toList_ofList, Country.letters, List.mem_pair] at hc
  rcases hc with rfl | rfl
  · exact country.first_isUpper
  · exact country.second_isUpper

lemma needsQuotes_eq_false_iff :
    needsQuotes s = false ↔ ∀ c ∈ s, c ∉ [',', '"', '\n', '\r'] := by
  simp [needsQuotes, List.any_eq_false, and_assoc]

/-- A text needs no quotes if it is made of characters that need none. -/
lemma needsQuotes_of_forall {p : Char → Bool} (hp : [',', '"', '\n', '\r'].all (!p ·) = true)
    (h : ∀ c ∈ s, p c = true) : needsQuotes s = false := by
  rw [needsQuotes_eq_false_iff]
  intro c hc hspecial
  have hnot := List.all_eq_true.mp hp c hspecial
  simp [h c hc] at hnot

/-- The texts of a row need no quotes. -/
theorem needsQuotes_of_mem_fields (h : row.Spells table m) {field : String}
    (hfield : field ∈ fields row) : needsQuotes field.toList = false := by
  have hnumber : ∀ n : Nat, needsQuotes (toString n).toList = false := fun n =>
    needsQuotes_of_forall (p := Char.isDigit) rfl fun c hc =>
      Nat.isDigit_of_mem_toDigits (b := 10) (by decide) (by decide) (by simpa using hc)
  have haddress : ∀ {f : Family} {a : Nat} {text}, f.formatShort a = .ok text →
      needsQuotes text.toList = false := by
    intro f a text htext
    obtain ⟨_, _, rfl⟩ := map_eq_ok_iff.mp htext
    exact needsQuotes_of_forall (p := isAddressChar) rfl fun c hc =>
      isAddressChar_of_mem_shortText hc
  simp only [fields, List.mem_cons, List.not_mem_nil, or_false] at hfield
  rcases hfield with rfl | rfl | rfl | rfl | rfl | rfl | rfl | rfl | rfl | rfl | rfl
  · cases row.registry <;> rfl
  · cases row.family <;> rfl
  · exact haddress h.first
  · exact haddress h.last
  · obtain ⟨p, -, htext⟩ := h.block
    refine needsQuotes_of_forall (p := fun c => c = '/' || isAddressChar c) rfl fun c hc => ?_
    simpa using htext.eq_or_isAddressChar hc
  · cases row.isExact <;> rfl
  · obtain ⟨blocks, -, htexts⟩ := h.tiling
    refine needsQuotes_of_forall (p := fun c => c = ' ' || c = '/' || isAddressChar c) rfl
      fun c hc => ?_
    rcases eq_or_mem_pieces ' ' hc with rfl | ⟨text, htext, hc⟩
    · rfl
    · have hchars := forall_of_forall₂
        (p := fun text => ∀ c ∈ text, c = '/' ∨ isAddressChar c = true) htexts.flip
        fun _ _ htext _ => Block.IsText.eq_or_isAddressChar htext
      simpa [or_assoc] using .inr (hchars text htext c hc)
  · exact needsQuotes_of_forall (p := Char.isUpper) rfl fun c hc => isUpper_of_mem_name hc
  · exact hnumber _
  · cases row.status <;> rfl
  · exact hnumber _

/-! ## Lines -/

/-- The fields with commas between them. -/
def plainLine (fs : List String) : List Char := joined ',' (fs.map String.toList)

section Plain

variable {fs : List String} (h : ∀ field ∈ fs, needsQuotes field.toList = false)
include h

lemma writeLine_eq_plainLine : writeLine fs = plainLine fs ++ ['\n'] := by
  have hfields : fs.map writeField = fs.map String.toList := by
    refine List.map_congr_left fun field hfield => ?_
    rw [writeField, h field hfield]
    rfl
  rw [writeLine, hfields, plainLine]

lemma not_mem_of_mem_map_toList {c : Char} (hc : c ∈ [',', '"', '\n', '\r']) :
    ∀ text ∈ fs.map String.toList, c ∉ text := by
  intro text htext hmem
  obtain ⟨field, hfield, rfl⟩ := List.mem_map.mp htext
  exact needsQuotes_eq_false_iff.mp (h field hfield) c hmem hc

lemma pieces_plainLine (hne : fs ≠ []) : pieces ',' (plainLine fs) = fs.map String.toList :=
  pieces_joined ',' (by simpa using hne) (not_mem_of_mem_map_toList h (by simp))

/-- Quotes and line feeds are neither in the fields nor between them. -/
lemma not_mem_plainLine {c : Char} (hc : c = '"' ∨ c = '\n') : c ∉ plainLine fs := by
  intro hmem
  rcases eq_or_mem_of_mem_joined hmem with rfl | ⟨text, htext, hmem⟩
  · simp at hc
  · refine not_mem_of_mem_map_toList h ?_ text htext hmem
    rcases hc with rfl | rfl <;> simp

end Plain

lemma needsQuotes_of_mem_columnNames {field : String} (h : field ∈ columnNames) :
    needsQuotes field.toList = false := by
  have hall : columnNames.all (fun name => !needsQuotes name.toList) = true := by decide
  simpa using List.all_eq_true.mp hall field h

lemma toList_write (hne : rows ≠ [])
    (h : ∀ fs ∈ columnNames :: rows.map fields, ∀ field ∈ fs, needsQuotes field.toList = false) :
    (write rows).toList =
      ((columnNames :: rows.map fields).map plainLine).flatMap (· ++ ['\n']) := by
  have hlines : (columnNames :: rows.map fields).flatMap writeLine =
      (columnNames :: rows.map fields).flatMap fun fs => plainLine fs ++ ['\n'] :=
    List.flatMap_congr fun fs hfs => writeLine_eq_plainLine (h fs hfs)
  rw [List.flatMap_map, ← hlines, List.flatMap_cons, List.flatMap_map, write.eq_def,
    String.toList_ofList]
  cases rows with
  | nil => exact absurd rfl hne
  | cons => rfl

/-! ## Objects -/

/-- The line gives the members of an object: as many as there are columns, named like them, each
with the text in its place between the commas. -/
structure Carries (line : List Char) (members : List (String × Json)) : Prop where
  length_eq : (pieces ',' line).length = 11
  names_eq : members.map Prod.fst = columnNames
  texts_eq : members.map (fun x => x.2.plainText?) =
    (pieces ',' line).map fun text => some (String.ofList text)

/-- A table gives the members of some objects: it has a line for each of them behind a line of
column names, every one with a line feed at its end, and nowhere a quote.  Without objects it is
empty. -/
structure Agrees (csv : String) (objects : List (List (String × Json))) : Prop where
  quote_not_mem : '"' ∉ csv.toList
  eq_empty : objects = [] → csv = ""
  lines : objects ≠ [] → ∃ header lines, pieces '\n' csv.toList = header :: lines ++ [[]] ∧
    pieces ',' header = columnNames.map String.toList ∧ List.Forall₂ Carries lines objects

/-- The members of the JSON value of a row. -/
def members (row : ReportRow) : List (String × Json) :=
  columnNames.zip [row.registry.json, row.family.json, .text row.first, .text row.last,
    .text row.block, .bool row.isExact, .text row.tiling, row.country.json,
    .number row.countryCode, row.status.json, .number row.statusCode]

/-- The members show the row. -/
lemma shownBy_members (row : ReportRow) : row.ShownBy (members row) where
  names_eq := rfl
  registry := rfl
  family := rfl
  first := rfl
  last := rfl
  block := rfl
  isExact := rfl
  tiling := rfl
  country := rfl
  countryCode := rfl
  status := rfl
  statusCode := rfl

lemma forall₂_shownBy (rows : List ReportRow) :
    List.Forall₂ ReportRow.ShownBy rows (rows.map members) := by
  rw [List.forall₂_map_right_iff, List.forall₂_same]
  exact fun row _ => shownBy_members row

/-- Rows are an array of one object each. -/
lemma listJson_eq (rows : List ReportRow) :
    ReportRow.listJson rows = .array ((rows.map members).map .object) := by
  rw [List.map_map]
  rfl

/-- The objects of the document are those of the rows. -/
lemma member?_reportJson (table : CountryTable) (rows : List ReportRow) :
    (reportJson table rows).member? "rows" = some (.array ((rows.map members).map .object)) := by
  rw [← listJson_eq]
  rfl

lemma carries_plainLine (h : ∀ field ∈ fields row, needsQuotes field.toList = false) :
    Carries (plainLine (fields row)) (members row) := by
  have hpieces := pieces_plainLine h (List.cons_ne_nil _ _)
  refine ⟨by rw [hpieces]; rfl, rfl, ?_⟩
  rw [hpieces, List.map_map]
  simp only [Function.comp_def, String.ofList_toList]
  rfl

/-- The table of rows gives the members of their JSON values. -/
theorem agrees_write {ms : List Match} (h : List.Forall₂ (ReportRow.Spells table) ms rows) :
    Agrees (write rows) (rows.map members) := by
  have hrows : ∀ row ∈ rows, ∀ field ∈ fields row, needsQuotes field.toList = false :=
    forall_of_forall₂ h.flip fun _ _ hspells _ hfield => needsQuotes_of_mem_fields hspells hfield
  have hplain : ∀ fs ∈ columnNames :: rows.map fields, ∀ field ∈ fs,
      needsQuotes field.toList = false := by
    rw [List.forall_mem_cons, List.forall_mem_map]
    exact ⟨fun _ => needsQuotes_of_mem_columnNames, hrows⟩
  rcases eq_or_ne rows [] with rfl | hne
  · exact ⟨by simp [write], fun _ => rfl, fun hne => absurd rfl hne⟩
  have htext := toList_write hne hplain
  refine ⟨?_, fun hnil => absurd (List.map_eq_nil_iff.mp hnil) hne, fun _ => ?_⟩
  · rw [htext]
    intro hquote
    obtain ⟨line, hline, hquote⟩ := List.mem_flatMap.mp hquote
    obtain ⟨fs, hfs, rfl⟩ := List.mem_map.mp hline
    rcases List.mem_append.mp hquote with hquote | hquote
    · exact not_mem_plainLine (hplain fs hfs) (.inl rfl) hquote
    · simp at hquote
  · refine ⟨plainLine columnNames, rows.map fun row => plainLine (fields row), ?_, ?_, ?_⟩
    · have hfree : ∀ line ∈ (columnNames :: rows.map fields).map plainLine, '\n' ∉ line := by
        rw [List.forall_mem_map]
        exact fun fs hfs => not_mem_plainLine (hplain fs hfs) (.inr rfl)
      rw [htext, pieces_flatMap_concat hfree, List.map_cons, List.map_map]
      rfl
    · exact pieces_plainLine (fun _ => needsQuotes_of_mem_columnNames) (List.cons_ne_nil _ _)
    · rw [List.forall₂_map_left_iff, List.forall₂_map_right_iff, List.forall₂_same]
      exact fun row hrow => carries_plainLine (hrows row hrow)

end Csv

end Delegation
