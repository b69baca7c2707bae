import Delegation.Proofs.Command.Arguments
import Delegation.Proofs.Command.Inputs
import Delegation.Proofs.Json.Pretty
import Delegation.Proofs.Report.Csv

/-!
# Looking an address up

A lookup that finds its inputs and its address in order has an answer, because the entries that it
finds come from indexes that were built with the same table, and so they all have rows
(`exists_answers`).  That is why the answer may be left out without any effect on the exit code.
What is printed is the text of one JSON value only: an array with an object for each of these rows.

Main result: `lookup_exit_code`.
-/

namespace Delegation

open Build Sequence Statistics

variable {table : CountryTable} {records : List Record} {c : Catalog} {f : Family} {a : Nat}
  {m : Match}

/-- A record of the family belongs to some group and has the address in its span. -/
def IsDelegated (records : List Record) (f : Family) (a : Nat) : Prop :=
  ∃ y ∈ records, y.family = f ∧ (∃ g, y.group? = some g) ∧ ∃ s, y.span = .ok s ∧ s.contains a

/-- The matches are the entries with the address, one for each registry with a record that delegates
it, in the order of the registries, and the rows spell them out. -/
structure Answers (table : CountryTable) (records : List Record) (c : Catalog) (f : Family)
    (a : Nat) (ms : List Match) (rows : List ReportRow) : Prop where
  realms_eq : ms.map (·.realm) =
    (Registry.all.filter fun q => records.any (·.delegates ⟨q, f⟩ a)).map fun q => ⟨q, f⟩
  listed : ∀ m ∈ ms, m ∈ c.listed
  contains : ∀ m ∈ ms, m.entry.contains a
  spells : List.Forall₂ (ReportRow.Spells table) ms rows

lemma exists_delegates_iff {y : Record} :
    (∃ q, y.delegates ⟨q, f⟩ a) ↔
      y.family = f ∧ (∃ g, y.group? = some g) ∧ ∃ s, y.span = .ok s ∧ s.contains a := by
  simp only [Record.delegates_iff, Record.InGroup]
  constructor
  · rintro ⟨q, g, ⟨-, hfamily, hg⟩, h, hh, ha⟩
    obtain ⟨s, hs, rfl⟩ := Record.holding_eq_ok_iff.mp hh
    exact ⟨hfamily, ⟨g, hg⟩, s, hs, ha⟩
  · rintro ⟨hfamily, ⟨g, hg⟩, s, hs, ha⟩
    exact ⟨y.registry, g, ⟨rfl, hfamily, hg⟩, _, Record.holding_eq_ok_iff.mpr ⟨s, hs, rfl⟩, ha⟩

/-- No registry delegates an address that is not delegated. -/
lemma filter_delegates_eq_nil_iff :
    (Registry.all.filter fun q => records.any (·.delegates ⟨q, f⟩ a)) = [] ↔
      ¬ IsDelegated records f a := by
  rw [List.filter_eq_nil_iff]
  constructor
  · rintro h ⟨y, hy, hdelegated⟩
    obtain ⟨q, hq⟩ := exists_delegates_iff.mpr hdelegated
    exact h q (Registry.mem_all q) (List.any_eq_true.mpr ⟨y, hy, hq⟩)
  · intro h q _ hq
    obtain ⟨y, hy, hq⟩ := List.any_eq_true.mp hq
    exact h ⟨y, hy, exists_delegates_iff.mp ⟨q, hq⟩⟩

lemma matching_eq_nil_iff (hc : buildAll table records = .ok c) :
    c.matching f a = [] ↔ ¬ IsDelegated records f a := by
  have hrealms := map_realm_matching hc f a
  rw [Realm.filter_all] at hrealms
  rw [← filter_delegates_eq_nil_iff, ← List.map_eq_nil_iff (f := fun m : Match => m.realm),
    hrealms, List.map_eq_nil_iff]

lemma mem_listed_of_mem_matching (hc : buildAll table records = .ok c)
    (hm : m ∈ c.matching f a) : m ∈ c.listed ∧ m.entry.contains a := by
  obtain ⟨x, hx, hlookup⟩ := lookup_of_mem_matching hc hm
  obtain ⟨runs, hb⟩ := built_of_build hx
  obtain ⟨hmem, ha⟩ := (RangeIndex.lookup_eq_some_iff hb.ordered_entries).mp hlookup
  exact ⟨(mem_listed hc).mpr ⟨x, hx, hmem⟩, ha⟩

/-- What a built catalog holds for an address can be spelt out. -/
theorem exists_answers (hc : buildAll table records = .ok c) (f : Family) (a : Nat) :
    ∃ rows, Match.report table (c.matching f a) = .ok rows ∧
      Answers table records c f a (c.matching f a) rows := by
  have hmem := fun m (hm : m ∈ c.matching f a) => mem_listed_of_mem_matching hc hm
  obtain ⟨rows, hrows, hspells⟩ := exists_report_of_forall_mem_listed hc fun m hm => (hmem m hm).1
  refine ⟨rows, hrows, ?_, fun m hm => (hmem m hm).1, fun m hm => (hmem m hm).2, hspells⟩
  rw [map_realm_matching hc, Realm.filter_all]

/-- The objects that show an answer name the registries that delegate the address. -/
lemma Answers.registries_eq {ms : List Match} {rows : List ReportRow}
    {objects : List (List (String × Json))} (h : Answers table records c f a ms rows)
    (hshown : List.Forall₂ ReportRow.ShownBy rows objects) :
    objects.map (·.lookup "registry") =
      (Registry.all.filter fun q => records.any (·.delegates ⟨q, f⟩ a)).map
        fun q => some (.text q.name) :=
  calc
    objects.map (·.lookup "registry") = rows.map fun row => some (.text row.registry.name) :=
      (map_eq_map_of_forall₂ hshown fun _ _ hrow => hrow.registry.symm).symm
    _ = ms.map fun m => some (.text m.realm.registry.name) :=
      (map_eq_map_of_forall₂ h.spells fun _ _ hrow => by rw [hrow.registry_eq]).symm
    _ = (ms.map (·.realm)).map fun r => some (.text r.registry.name) := by
      rw [List.map_map]
      rfl
    _ = _ := by
      rw [h.realms_eq, List.map_map]
      rfl

namespace Command

variable {inputs : Inputs} {address : String} {paths : List String} {countries : Option String}
  {quiet : Bool}

/-- The inputs are in order, and so is the address, which one of their records delegates. -/
def Finds (inputs : Inputs) (address : String) (paths : List String)
    (countries : Option String) : Prop :=
  ∃ table records c f a, Loads inputs paths countries table records c ∧
    parseAddress address = .ok (f, a) ∧ IsDelegated records f a

lemma lookupText_of_loads (quiet : Bool)
    (h : Loads inputs paths countries table records c) (ha : parseAddress address = .ok (f, a)) :
    ∃ rows, Match.report table (c.matching f a) = .ok rows ∧
      Answers table records c f a (c.matching f a) rows ∧
      lookupText inputs address paths countries quiet =
        .ok (if quiet then "" else (ReportRow.listJson rows).pretty ++ "\n",
          !(c.matching f a).isEmpty) := by
  obtain ⟨tally, hload⟩ := exists_loadCatalog_eq_ok_iff.mpr ⟨records, h⟩
  obtain ⟨rows, hrows, hanswers⟩ := exists_answers h.built f a
  have hlookup : c.lookup address = .ok (c.matching f a) := map_eq_ok_iff.mpr ⟨_, ha, rfl⟩
  refine ⟨rows, hrows, hanswers, ?_⟩
  rw [lookupText, hload]
  cases quiet <;>
    simp [failing, failingPlainly, hlookup, hrows, bind, Except.bind, pure, Except.pure]

lemma loads_of_lookupText {result : String × Bool}
    (h : lookupText inputs address paths countries quiet = .ok result) :
    ∃ table records c f a, Loads inputs paths countries table records c ∧
      parseAddress address = .ok (f, a) := by
  rw [lookupText, bind_eq_ok_iff] at h
  obtain ⟨⟨table, c, tally⟩, hload, h⟩ := h
  obtain ⟨records, hloads⟩ := exists_loadCatalog_eq_ok_iff.mp ⟨tally, hload⟩
  obtain ⟨found, hfound, -⟩ := bind_eq_ok_iff.mp h
  obtain ⟨⟨f, a⟩, ha, -⟩ := map_eq_ok_iff.mp (failing_eq_ok_iff.mp hfound)
  exact ⟨table, records, c, f, a, hloads, ha⟩

lemma lookupOutcome_of_loads (quiet : Bool)
    (h : Loads inputs paths countries table records c) (ha : parseAddress address = .ok (f, a)) :
    ∃ rows, Match.report table (c.matching f a) = .ok rows ∧
      Answers table records c f a (c.matching f a) rows ∧
      lookupOutcome inputs address paths countries quiet =
        ⟨if c.matching f a = [] then 1 else 0,
          if quiet then "" else (ReportRow.listJson rows).pretty ++ "\n", ""⟩ := by
  obtain ⟨rows, hrows, hanswers, htext⟩ := lookupText_of_loads quiet h ha
  refine ⟨rows, hrows, hanswers, ?_⟩
  rw [lookupOutcome, htext]
  cases c.matching f a <;> rfl

/-- Without its inputs, an address or a match a lookup fails. -/
lemma finds_of_code_lookupOutcome
    (hcode : (lookupOutcome inputs address paths countries quiet).code ≠ 1) :
    Finds inputs address paths countries := by
  cases htext : lookupText inputs address paths countries quiet with
  | error complaint =>
    rw [lookupOutcome, htext] at hcode
    exact absurd rfl hcode
  | ok result =>
    obtain ⟨table, records, c, f, a, hloads, ha⟩ := loads_of_lookupText htext
    obtain ⟨rows, -, -, houtcome⟩ := lookupOutcome_of_loads quiet hloads ha
    refine ⟨table, records, c, f, a, hloads, ha, ?_⟩
    by_contra hnot
    rw [houtcome, if_pos ((matching_eq_nil_iff hloads.built).mpr hnot)] at hcode
    exact absurd rfl hcode

open scoped Classical in
/-- The exit code says whether the address was found. -/
lemma code_lookupOutcome :
    (lookupOutcome inputs address paths countries quiet).code =
      if Finds inputs address paths countries then 0 else 1 := by
  split_ifs with hfinds
  · obtain ⟨table, records, c, f, a, hloads, ha, hdelegated⟩ := hfinds
    obtain ⟨rows, -, -, houtcome⟩ := lookupOutcome_of_loads quiet hloads ha
    rw [houtcome, if_neg fun hnil => (matching_eq_nil_iff hloads.built).mp hnil hdelegated]
  · by_contra hcode
    exact hfinds (finds_of_code_lookupOutcome hcode)

lemma runInTree_lookup {t : FileTree} {input : List UInt8} {arguments : List String}
    (hread : Request.read arguments = .ok (.lookup address paths countries quiet)) :
    runInTree t input arguments =
      (lookupOutcome (Inputs.ofTree t input) address paths countries quiet, t) := by
  rw [runInTree, hread]
  rfl

/-- A lookup ends with zero if its inputs and its address are in order and one of their records
delegates the address, and with one otherwise.  Leaving the output out makes no difference to that;
it can be asked for right behind the name of the command.  With its output the lookup prints the
text of one JSON value and of no other: an array with one object for each registry that delegates
the address, in the order of the registries, and each of the objects shows the row of an entry with
the address. -/
theorem lookup_exit_code {arguments : List String} (t : FileTree) (input : List UInt8)
    (hread : Request.read arguments = .ok (.lookup address paths countries quiet)) :
    paths ≠ [] ∧
      ((runInTree t input arguments).1.code = 0 ↔
        Finds (Inputs.ofTree t input) address paths countries) ∧
      ((runInTree t input arguments).1.code ≠ 0 → (runInTree t input arguments).1.code = 1) ∧
      (∀ others quietly, Request.read others = .ok (.lookup address paths countries quietly) →
        (runInTree t input others).1.code = (runInTree t input arguments).1.code) ∧
      (quiet = false →
        (∃ before after, arguments = before ++ "lookup" :: after ∧
          Request.read (before ++ "lookup" :: "--quiet" :: after) =
            .ok (.lookup address paths countries true)) ∧
        ∀ table records c f a, Loads (Inputs.ofTree t input) paths countries table records c →
          parseAddress address = .ok (f, a) →
          ∃ rows objects, Match.report table (c.matching f a) = .ok rows ∧
            Answers table records c f a (c.matching f a) rows ∧
            List.Forall₂ ReportRow.ShownBy rows objects ∧
            objects.map (·.lookup "registry") =
              (Registry.all.filter fun q => records.any (·.delegates ⟨q, f⟩ a)).map
                (fun q => some (.text q.name)) ∧
            (∀ other : Json, other.pretty ++ "\n" = (runInTree t input arguments).1.stdout ↔
              other = .array (objects.map .object)) ∧
            ((runInTree t input arguments).1.code = 1 →
              (runInTree t input arguments).1.stdout = "[]\n")) := by
  rw [runInTree_lookup hread]
  refine ⟨paths_ne_nil_of_read hread, ?_, ?_, ?_, ?_⟩
  · rw [code_lookupOutcome]
    split_ifs with hfinds <;> simp [hfinds]
  · rw [code_lookupOutcome]
    split_ifs <;> simp
  · intro others quietly hothers
    rw [runInTree_lookup hothers, code_lookupOutcome, code_lookupOutcome]
  · rintro rfl
    refine ⟨read_add_quiet hread, fun table records c f a hloads ha => ?_⟩
    obtain ⟨rows, hrows, hanswers, houtcome⟩ := lookupOutcome_of_loads false hloads ha
    have hshown := Csv.forall₂_shownBy rows
    refine ⟨rows, _, hrows, hanswers, hshown, hanswers.registries_eq hshown, ?_, ?_⟩
    · intro other
      have hprinted : (lookupOutcome (Inputs.ofTree t input) address paths countries false).stdout =
          (ReportRow.listJson rows).pretty ++ "\n" := by
        rw [houtcome]
        rfl
      rw [hprinted, String.append_left_inj, Json.pretty_injective.eq_iff, Csv.listJson_eq]
    · rw [houtcome]
      intro hcode
      have hnil : c.matching f a = [] := by
        by_contra hne
        rw [if_neg hne] at hcode
        cases hcode
      have hspells := hanswers.spells
      rw [hnil, List.forall₂_nil_left_iff] at hspells
      rw [hspells]
      rfl

/-- The arguments of a lookup in `northTree`. -/
def northLookup (address : String) : List String :=
  ["lookup", address, "-i", "north", "--countries", "codes"]

/-- The row of the entry that `northRecord` leads to. -/
def northRow : ReportRow :=
  ⟨.apnic, .ipv4, "1.0.16.0", "1.0.31.255", "1.0.16.0/20", true, "1.0.16.0/20", .unknown, 0,
    .available, 5⟩

/-- The printed array of `northRow` alone. -/
def northText : String :=
  "[\n  \x7b\n" ++
    "    \"registry\": \"apnic\",\n" ++
    "    \"family\": \"ipv4\",\n" ++
    "    \"start\": \"1.0.16.0\",\n" ++
    "    \"end\": \"1.0.31.255\",\n" ++
    "    \"cidr\": \"1.0.16.0/20\",\n" ++
    "    \"cidr_exact\": true,\n" ++
    "    \"blocks\": \"1.0.16.0/20\",\n" ++
    "    \"country\": \"ZZ\",\n" ++
    "    \"country_code\": 0,\n" ++
    "    \"status\": \"available\",\n" ++
    "    \"status_code\": 5\n" ++
    "  \x7d\n]\n"

theorem lookup_exit_code_north :
    Request.read (northLookup "1.0.16.1") =
        .ok (.lookup "1.0.16.1" ["north"] (some "codes") false) ∧
      (runInTree northTree [] (northLookup "1.0.16.1")).1.code = 0 ∧
      (runInTree northTree [] (northLookup "1.0.16.1")).1.stdout = northText ∧
      Request.read (northLookup "1.0.32.1") =
        .ok (.lookup "1.0.32.1" ["north"] (some "codes") false) ∧
      (runInTree northTree [] (northLookup "1.0.32.1")).1.code = 1 ∧
      (runInTree northTree [] (northLookup "1.0.32.1")).1.stdout = "[]\n" := by
  have hread : Request.read (northLookup "1.0.16.1") =
      .ok (.lookup "1.0.16.1" ["north"] (some "codes") false) := rfl
  have hread' : Request.read (northLookup "1.0.32.1") =
      .ok (.lookup "1.0.32.1" ["north"] (some "codes") false) := rfl
  have hhit : parseAddress "1.0.16.1" = .ok (.ipv4, 0x01001001) := by cbv
  have hmiss : parseAddress "1.0.32.1" = .ok (.ipv4, 0x01002001) := by cbv
  have hspan : northRecord.span = .ok ⟨0x01001000, 0x01001fff⟩ := by cbv
  have hreport : Match.report unknownOnly (northCatalog.matching .ipv4 0x01001001) =
      .ok [northRow] := by decide +kernel
  obtain ⟨-, hcode, -, -, hprinted⟩ := lookup_exit_code northTree [] hread
  obtain ⟨-, hcode', hfail, -, hprinted'⟩ := lookup_exit_code northTree [] hread'
  have hzero : (runInTree northTree [] (northLookup "1.0.16.1")).1.code = 0 := by
    refine hcode.mpr ⟨_, _, _, _, _, loads_northTree, hhit, ?_⟩
    exact ⟨_, List.mem_singleton_self _, rfl, ⟨_, rfl⟩, _, hspan, by decide⟩
  have hone : (runInTree northTree [] (northLookup "1.0.32.1")).1.code = 1 := by
    refine hfail fun hzero => ?_
    obtain ⟨table, records, c, f, a, hloads, ha, y, hy, -, -, s, hs, hcontains⟩ := hcode'.mp hzero
    obtain ⟨-, rfl, -⟩ := loads_northTree.unique hloads
    obtain ⟨rfl, rfl⟩ := Prod.mk.inj (Except.ok.inj (hmiss.symm.trans ha))
    obtain rfl := List.mem_singleton.mp hy
    obtain rfl := Except.ok.inj (hspan.symm.trans hs)
    cases hcontains
  refine ⟨hread, hzero, ?_, hread', hone, ?_⟩
  · obtain ⟨rows, objects, hrows, -, hshown, -, htext, -⟩ :=
      (hprinted rfl).2 _ _ _ _ _ loads_northTree hhit
    obtain rfl := Except.ok.inj (hreport.symm.trans hrows)
    -- the row leaves one object only, and the array of this object is the value with the text
    obtain ⟨members, _, hmembers, hnil, rfl⟩ := List.forall₂_cons_left_iff.mp hshown
    rw [List.forall₂_nil_left_iff] at hnil
    obtain rfl := hmembers.unique (Csv.shownBy_members northRow)
    rw [← (htext _).mpr rfl, hnil]
    decide +kernel
  · obtain ⟨rows, objects, -, -, -, -, -, hempty⟩ :=
      (hprinted' rfl).2 _ _ _ _ _ loads_northTree hmiss
    exact hempty hone

end Command

end Delegation
