import Delegation.Proofs.Address.Alphabet
import Delegation.Proofs.Statistics.Accounting
import Delegation.Proofs.Statistics.Columns
import Delegation.Proofs.Text.Blank

/-!
# Records written as lines

A record is written as a line of seven columns, in which there is some freedom: a missing country
may be left out, an address may be any of its texts, a number may have leading zeros, and a date
may be anything that fits into a column.  `Written` are the lines of given records, with lines of
system numbers anywhere among them.

Main result: `records_written_and_read`.  Behind a version line such lines are read back as the
records they were written for, and every record of a file that is read comes from a line of its
own whose columns denote it.
-/

namespace Delegation.Statistics

open Address Sequence Text

/-! ## The columns that are written -/

/-- A text that can stand in a column of a line. -/
def IsColumn (text : List Char) : Prop := '|' ∉ text ∧ '\n' ∉ text

/-- The column of a country: its letters, or nothing if there is none. -/
def WritesCountry (c : Country) (column : List Char) : Prop :=
  column = c.letters ∨ c = Country.unknown ∧ column = []

/-- The column of an extent: digits of a number in the range of its kind. -/
def WritesExtent : Family → Extent → List Char → Prop
  | .ipv4, .count n, column => readDecimal? column = some n ∧ n < 2 ^ 128
  | .ipv6, .length n, column => readDecimal? column = some n ∧ n < 256
  | _, _, _ => False

/-- The line with the given columns. -/
def recordLine (registry : Registry) (country : List Char) (type : String)
    (first value date : List Char) (status : Status) : List Char :=
  joined '|' [registry.name.toList, country, type.toList, first, value, date, status.name.toList]

/-- A line that a record is written as. -/
def WritesRecord (r : Record) (line : List Char) : Prop :=
  ∃ country first value date,
    line = recordLine r.registry country r.family.name first value date r.status ∧
    WritesCountry r.country country ∧ r.family.parse (String.ofList first) = .ok r.first ∧
    WritesExtent r.family r.extent value ∧ IsColumn date

/-- A line that system numbers are written as. -/
def WritesNumbers (line : List Char) : Prop :=
  ∃ (registry : Registry) (c : Country) (status : Status), ∃ country first value date,
    line = recordLine registry country ResourceType.asn.name first value date status ∧
    WritesCountry c country ∧ IsColumn first ∧ IsColumn value ∧ IsColumn date

/-- Lines of records in their order, and as many lines of system numbers among them. -/
inductive Written : List Record → Nat → List (List Char) → Prop where
  | nil : Written [] 0 []
  | record {r : Record} {line : List Char} {records : List Record} {n : Nat}
      {lines : List (List Char)} (hline : WritesRecord r line) (hlines : Written records n lines) :
      Written (r :: records) n (line :: lines)
  | numbers {line : List Char} {records : List Record} {n : Nat} {lines : List (List Char)}
      (hline : WritesNumbers line) (hlines : Written records n lines) :
      Written records (n + 1) (line :: lines)

/-! ## What fits into a column -/

lemma isColumn_registry (r : Registry) : IsColumn r.name.toList := by
  cases r <;> exact ⟨by decide, by decide⟩

lemma isColumn_status (s : Status) : IsColumn s.name.toList := by
  cases s <;> exact ⟨by decide, by decide⟩

lemma isColumn_family (f : Family) : IsColumn f.name.toList := by
  cases f <;> exact ⟨by decide, by decide⟩

lemma isColumn_of_isAddressChar {text : List Char} (h : ∀ c ∈ text, isAddressChar c = true) :
    IsColumn text := by
  constructor
  · intro hmem
    exact absurd (h _ hmem) (by decide)
  · intro hmem
    exact absurd (h _ hmem) (by decide)

lemma isColumn_of_readDecimal? {column : List Char} {n : Nat} (h : readDecimal? column = some n) :
    IsColumn column :=
  isColumn_of_isAddressChar fun _ hc => isAddressChar_of_readDecimal? h hc

lemma not_isBlank_of_isUpper {c : Char} (h : c.isUpper = true) : isBlank c = false := by
  have hrange : 65 ≤ c.toNat ∧ c.toNat ≤ 90 := by
    simpa [Char.isUpper, UInt32.le_iff_toNat_le] using h
  exact not_isBlank_of_visible (by omega) (by omega)

lemma WritesCountry.denotes {c : Country} {column : List Char} (h : WritesCountry c column) :
    DenotesCountry column c := by
  rcases h with rfl | ⟨rfl, rfl⟩
  · right
    refine trim_eq_self ?_ ?_
    · rintro a ha
      obtain rfl := Option.some.inj ha
      exact not_isBlank_of_isUpper c.first_isUpper
    · rintro a ha
      obtain rfl := Option.some.inj ha
      exact not_isBlank_of_isUpper c.second_isUpper
  · exact .inl ⟨rfl, rfl⟩

lemma WritesCountry.isColumn {c : Country} {column : List Char} (h : WritesCountry c column) :
    IsColumn column := by
  rcases h with rfl | ⟨rfl, rfl⟩
  · have hbar : ∀ a : Char, a.isUpper = true → a ≠ '|' ∧ a ≠ '\n' := by
      intro a ha
      constructor <;> rintro rfl <;> simp at ha
    have hfirst := hbar _ c.first_isUpper
    have hsecond := hbar _ c.second_isUpper
    simp [IsColumn, Country.letters, hfirst.1.symm, hfirst.2.symm, hsecond.1.symm, hsecond.2.symm]
  · exact ⟨List.not_mem_nil, List.not_mem_nil⟩

/-- Digits are a number without a plus sign. -/
lemma readCount?_of_readDecimal? {column : List Char} {n limit : Nat}
    (h : readDecimal? column = some n) (hn : n < limit) : readCount? limit column = some n := by
  rw [readCount?, h, Option.filter_some, if_pos (by simpa using hn)]
  rintro rest rfl
  simp [readDecimal?] at h

lemma WritesExtent.denotes {f : Family} {e : Extent} {column : List Char}
    (h : WritesExtent f e column) : DenotesExtent column f e := by
  match f, e, h with
  | .ipv4, .count n, ⟨hread, hn⟩ => exact readCount?_of_readDecimal? hread hn
  | .ipv6, .length n, ⟨hread, hn⟩ => exact readCount?_of_readDecimal? hread hn

lemma WritesExtent.isColumn {f : Family} {e : Extent} {column : List Char}
    (h : WritesExtent f e column) : IsColumn column := by
  match f, e, h with
  | .ipv4, .count n, ⟨hread, hn⟩ => exact isColumn_of_readDecimal? hread
  | .ipv6, .length n, ⟨hread, hn⟩ => exact isColumn_of_readDecimal? hread

/-! ## A line that is written -/

lemma exists_head?_registry (r : Registry) :
    ∃ c, r.name.toList.head? = some c ∧ isBlank c = false ∧ c ≠ '#' := by
  cases r <;> exact ⟨_, rfl, by decide, by decide⟩

lemma exists_getLast?_status (s : Status) :
    ∃ c, s.name.toList.getLast? = some c ∧ isBlank c = false := by
  cases s <;> exact ⟨_, rfl, by decide⟩

lemma status_ne_summary (s : Status) : s.name.toList ≠ "summary".toList := by
  cases s <;> decide

section Line

variable {registry : Registry} {country first value date : List Char} {type : String}
  {status : Status}

lemma recordLine_eq_append :
    recordLine registry country type first value date status =
      joined '|' [registry.name.toList, country, type.toList, first, value, date] ++
        '|' :: status.name.toList :=
  joined_append (List.cons_ne_nil registry.name.toList [country, type.toList, first, value, date])
    (List.cons_ne_nil status.name.toList [])

lemma head?_recordLine :
    (recordLine registry country type first value date status).head? =
      registry.name.toList.head? := by
  cases registry <;> rfl

/-- A line between the name of a registry and that of a status is neither blank nor a comment,
and has no blanks around it. -/
lemma significantText?_recordLine :
    significantText? (recordLine registry country type first value date status) =
      some (recordLine registry country type first value date status) := by
  obtain ⟨c, hc, hblank, hcomment⟩ := exists_head?_registry registry
  obtain ⟨d, hd, hblank'⟩ := exists_getLast?_status status
  have hhead : (recordLine registry country type first value date status).head? = some c :=
    head?_recordLine.trans hc
  have hlast : (recordLine registry country type first value date status).getLast? = some d := by
    rw [recordLine_eq_append, List.getLast?_append, List.getLast?_cons, hd]
    rfl
  generalize recordLine registry country type first value date status = line at hhead hlast ⊢
  have htrim : trim line = line := by
    refine trim_eq_self ?_ ?_
    · rw [hhead]
      rintro _ ⟨rfl⟩
      exact hblank
    · rw [hlast]
      rintro _ ⟨rfl⟩
      exact hblank'
  have hnil : line ≠ [] := by
    rintro rfl
    cases hhead
  rw [significantText?, htrim, hhead]
  exact if_neg (by simp [hnil, hcomment])

variable (hcountry : IsColumn country) (htype : IsColumn type.toList) (hfirst : IsColumn first)
  (hvalue : IsColumn value) (hdate : IsColumn date)

include hcountry htype hfirst hvalue hdate

/-- The columns are found again. -/
lemma columns_recordLine :
    columns (recordLine registry country type first value date status) =
      [registry.name.toList, country, type.toList, first, value, date, status.name.toList] := by
  refine pieces_joined '|' (List.cons_ne_nil _ _) ?_
  simp only [List.forall_mem_cons]
  exact ⟨(isColumn_registry registry).1, hcountry.1, htype.1, hfirst.1, hvalue.1, hdate.1,
    (isColumn_status status).1, List.forall_mem_nil _⟩

lemma lineFeed_not_mem_recordLine :
    '\n' ∉ recordLine registry country type first value date status := by
  intro hmem
  rcases eq_or_mem_of_mem_joined hmem with h | ⟨p, hp, hmem⟩
  · cases h
  · revert p
    simp only [List.forall_mem_cons]
    exact ⟨(isColumn_registry registry).2, hcountry.2, htype.2, hfirst.2, hvalue.2, hdate.2,
      (isColumn_status status).2, List.forall_mem_nil _⟩

/-- A line that ends in the name of a status is no summary. -/
lemma isSummary_recordLine :
    isSummary (recordLine registry country type first value date status) = false := by
  refine isSummary_eq_false ?_ (status_ne_summary status)
  rw [columns_recordLine hcountry htype hfirst hvalue hdate]
  rfl

/-- A line of seven columns is read as a record, whatever its columns hold. -/
lemma read_recordLine :
    Item.read (recordLine registry country type first value date status) =
      (readRecord? (recordLine registry country type first value date status)).map fun
        | some r => .record r
        | none => .asn := by
  rw [Item.read, isSummary_recordLine hcountry htype hfirst hvalue hdate]
  rfl

end Line

/-- A line of its own that is not skipped and is read as an item. -/
structure ReadsAs (line : List Char) (item : Item) : Prop where
  lineFeed_not_mem : '\n' ∉ line
  significant : significantText? line = some line
  read : Item.read line = .ok item

lemma WritesRecord.readsAs {r : Record} {line : List Char} (h : WritesRecord r line) :
    ReadsAs line (.record r) := by
  obtain ⟨country, first, value, date, rfl, hcountry, haddress, hvalue, hdate⟩ := h
  have htype := isColumn_family r.family
  have hfirst : IsColumn first :=
    isColumn_of_isAddressChar fun _ hc => isAddressChar_of_parse haddress hc
  have hdenotes : Denotes (recordLine r.registry country r.family.name first value date r.status)
      r :=
    ⟨country, first, value, date, [],
      columns_recordLine hcountry.isColumn htype hfirst hvalue.isColumn hdate, hcountry.denotes,
      haddress, hvalue.denotes⟩
  refine ⟨lineFeed_not_mem_recordLine hcountry.isColumn htype hfirst hvalue.isColumn hdate,
    significantText?_recordLine, ?_⟩
  rw [read_recordLine hcountry.isColumn htype hfirst hvalue.isColumn hdate,
    readRecord?_eq_some_iff.mpr hdenotes]
  rfl

lemma WritesNumbers.readsAs {line : List Char} (h : WritesNumbers line) : ReadsAs line .asn := by
  obtain ⟨registry, c, status, country, first, value, date, rfl, hcountry, hfirst, hvalue,
    hdate⟩ := h
  have htype : IsColumn ResourceType.asn.name.toList := ⟨by decide, by decide⟩
  have hdenotes : DenotesNumbers
      (recordLine registry country ResourceType.asn.name first value date status) :=
    ⟨registry, c, status, country, first, value, date, [],
      columns_recordLine hcountry.isColumn htype hfirst hvalue hdate, hcountry.denotes⟩
  refine ⟨lineFeed_not_mem_recordLine hcountry.isColumn htype hfirst hvalue hdate,
    significantText?_recordLine, ?_⟩
  rw [read_recordLine hcountry.isColumn htype hfirst hvalue hdate,
    readRecord?_eq_none_iff.mpr hdenotes]
  rfl

/-! ## All lines that are written -/

/-- Each line of records is read as one of them, or as system numbers. -/
lemma Written.exists_items {records : List Record} {n : Nat} {lines : List (List Char)}
    (h : Written records n lines) :
    ∃ items, List.Forall₂ ReadsAs lines items ∧
      ∀ header, File.ofItems header items = ⟨header, [], records, n⟩ := by
  induction h with
  | nil => exact ⟨[], .nil, fun _ => rfl⟩
  | record hline hlines ih =>
    obtain ⟨items, hitems, hfile⟩ := ih
    refine ⟨_, .cons hline.readsAs hitems, fun header => ?_⟩
    simpa [File.ofItems] using hfile header
  | numbers hline hlines ih =>
    obtain ⟨items, hitems, hfile⟩ := ih
    refine ⟨_, .cons hline.readsAs hitems, fun header => ?_⟩
    simpa [File.ofItems] using hfile header

section ReadsAs

variable {lines : List (List Char)} {items : List Item}

lemma mapM_read_of_readsAs (h : List.Forall₂ ReadsAs lines items) :
    lines.mapM Item.read = .ok items := by
  induction h with
  | nil => rfl
  | cons hline _ ih => exact mapM_cons_eq_ok_iff.mpr ⟨_, _, hline.read, ih, rfl⟩

lemma exists_readsAs (h : List.Forall₂ ReadsAs lines items) :
    ∀ line ∈ lines, ∃ item, ReadsAs line item := by
  induction h with
  | nil => simp
  | cons hline _ ih => exact List.forall_mem_cons.mpr ⟨⟨_, hline⟩, ih⟩

lemma filterMap_significantText?_of_readsAs (h : List.Forall₂ ReadsAs lines items) :
    lines.filterMap significantText? = lines := by
  induction h with
  | nil => rfl
  | cons hline _ ih => rw [List.filterMap_cons_some hline.significant, ih]

end ReadsAs

lemma isSupported_of_comment (rest : List Char) : isSupported ('#' :: rest) = false := rfl

/-- A comment is no version line. -/
lemma significantText?_of_header {version : List Char} {header : Header}
    (h : Header.read (trim version) = .ok header) :
    significantText? version = some (trim version) := by
  rw [significantText?]
  refine if_neg ?_
  rintro (hnil | hcomment)
  · rw [hnil] at h
    cases h
  · obtain ⟨rest, hrest⟩ := List.head?_eq_some_iff.mp hcomment
    rw [hrest, Header.read, columns, pieces_cons, if_neg (by decide)] at h
    obtain ⟨p, ps, hpieces⟩ := List.exists_cons_of_ne_nil (pieces_ne_nil '|' rest)
    rw [hpieces, consFirst] at h
    split at h
    · next hcolumns =>
      obtain ⟨rfl, -⟩ := List.cons.inj hcolumns
      rw [isSupported_of_comment] at h
      cases h
    · cases h

/-- Behind a version line the lines of records are read back. -/
lemma ofText_written {version : List Char} {header : Header} {records : List Record} {n : Nat}
    {lines : List (List Char)} {ending : List Char} (hversion : '\n' ∉ version)
    (hheader : Header.read (trim version) = .ok header) (hlines : Written records n lines)
    (hending : ending = [] ∨ ending = ['\n']) :
    File.ofText (String.ofList (joined '\n' (version :: lines) ++ ending)) =
      .ok ⟨header, [], records, n⟩ := by
  obtain ⟨items, hitems, hfile⟩ := hlines.exists_items
  have hsignificant := significantText?_of_header hheader
  have hread : (Feed.ofBytes (utf8 (joined '\n' (version :: lines) ++ ending))).lines =
      (version :: lines).map .ok := by
    refine Feed.lines_utf8_joined (List.forall_mem_cons.mpr ⟨?_, fun line hline => ?_⟩)
      (List.forall_mem_cons.mpr ⟨hversion, fun line hline => ?_⟩)
      (hending.imp_right fun h => ⟨h, List.cons_ne_nil _ _⟩)
    · rintro rfl
      cases hsignificant
    · obtain ⟨item, h⟩ := exists_readsAs hitems line hline
      rintro rfl
      cases h.significant
    · obtain ⟨item, h⟩ := exists_readsAs hitems line hline
      exact h.lineFeed_not_mem
  rw [File.ofText, encodeUtf8_eq, String.toList_ofList, File.ofBytes, File.ofFeed, hread,
    ofLines_eq_ok_iff]
  refine ⟨by simp, trim version, lines, header, items, ?_, hheader,
    mapM_read_of_readsAs hitems, (hfile header).symm⟩
  rw [significantTexts_map_ok, List.filterMap_cons_some hsignificant,
    filterMap_significantText?_of_readsAs hitems]

/-- Written records are read back, and what is read comes from lines that denote it. -/
theorem records_written_and_read :
    (∀ (version : List Char) (header : Header) (records : List Record) (n : Nat)
        (lines : List (List Char)) (ending : List Char),
      '\n' ∉ version → Header.read (trim version) = .ok header → Written records n lines →
      ending = [] ∨ ending = ['\n'] →
      File.ofText (String.ofList (joined '\n' (version :: lines) ++ ending)) =
        .ok ⟨header, [], records, n⟩) ∧
    ∀ (bytes : List UInt8) (file : File), File.ofBytes bytes = .ok file →
      ∃ version rest written, significantTexts (Feed.ofBytes bytes).lines = version :: rest ∧
        written.Sublist rest ∧ List.Forall₂ Denotes written file.records := by
  refine ⟨fun version header records n lines ending => ofText_written, fun bytes file h => ?_⟩
  obtain ⟨-, version, rest, header, items, htexts, hversion, hrest, rfl⟩ :=
    ofLines_eq_ok_iff.mp h
  obtain ⟨found, hfound, hrecords, -⟩ := (accounts_of_items hversion hrest).records
  obtain ⟨written, hwritten, hdenotes⟩ := exists_sublist_of_mapM hfound
  refine ⟨version, rest, written, htexts, hwritten.trans List.filter_sublist, ?_⟩
  rw [← hrecords]
  exact hdenotes.imp fun _ _ => readRecord?_eq_some_iff.mp

/-- A version line with blanks around it. -/
def writtenVersion : List Char := " 2.3|apnic|7|3|1|1|+1000\r".toList

/-- A record, system numbers and a record without a country. -/
def writtenLines : List (List Char) :=
  ["apnic|JP|ipv4|1.0.016.0|04096|20110412|allocated".toList,
    "apnic|JP|asn|2554|1|20020801|allocated".toList,
    "apnic||ipv6|2001:DB8::|32|#summary|available".toList]

/-- The records of the lines. -/
def writtenRecords : List Record :=
  [⟨.apnic, ⟨'J', 'P', rfl, rfl⟩, .ipv4, 2 ^ 24 + 2 ^ 12, .count 4096, .allocated⟩,
    ⟨.apnic, Country.unknown, .ipv6, 0x20010db8 * 2 ^ 96, .length 32, .available⟩]

theorem records_written_and_read_mixed :
    File.ofText (String.ofList (joined '\n' (writtenVersion :: writtenLines) ++ ['\n'])) =
      .ok ⟨⟨"2.3", .apnic, "7", 3, "1", "1", "+1000"⟩, [], writtenRecords, 1⟩ := by
  have hheader : Header.read (trim writtenVersion) =
      .ok ⟨"2.3", .apnic, "7", 3, "1", "1", "+1000"⟩ := by cbv
  have hfirst : WritesRecord ⟨.apnic, ⟨'J', 'P', rfl, rfl⟩, .ipv4, 2 ^ 24 + 2 ^ 12, .count 4096,
      .allocated⟩ "apnic|JP|ipv4|1.0.016.0|04096|20110412|allocated".toList :=
    ⟨"JP".toList, "1.0.016.0".toList, "04096".toList, "20110412".toList, rfl, .inl rfl, by cbv,
      ⟨by cbv, by decide⟩, by decide, by decide⟩
  have hnumbers : WritesNumbers "apnic|JP|asn|2554|1|20020801|allocated".toList :=
    ⟨.apnic, ⟨'J', 'P', rfl, rfl⟩, .allocated, "JP".toList, "2554".toList, "1".toList,
      "20020801".toList, rfl, .inl rfl, ⟨by decide, by decide⟩, ⟨by decide, by decide⟩,
      ⟨by decide, by decide⟩⟩
  have hlast : WritesRecord ⟨.apnic, Country.unknown, .ipv6, 0x20010db8 * 2 ^ 96, .length 32,
      .available⟩ "apnic||ipv6|2001:DB8::|32|#summary|available".toList :=
    ⟨[], "2001:DB8::".toList, "32".toList, "#summary".toList, rfl, .inr ⟨rfl, rfl⟩, by cbv,
      ⟨by cbv, by decide⟩, by decide, by decide⟩
  exact records_written_and_read.1 _ _ _ _ _ _ (by decide) hheader
    (.record hfirst (.numbers hnumbers (.record hlast .nil))) (.inr rfl)

end Delegation.Statistics
