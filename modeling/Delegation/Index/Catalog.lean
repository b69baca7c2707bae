import Delegation.Index.Build

/-!
# Catalogs

A catalog holds the indexes of all realms that one build produced, by registry and then by
family.  Looking up an address finds at most one entry in each index of its family.
-/

namespace Delegation

/-- The indexes of one build. -/
structure Catalog where
  indexes : List RangeIndex
  deriving DecidableEq, Repr

/-- An entry that contains an address, with the realm of its index. -/
structure Match where
  realm : Realm
  entry : Entry
  deriving DecidableEq, Repr

namespace Catalog

/-- The catalog without indexes. -/
def empty : Catalog := ⟨[]⟩

/-- The number of indexes. -/
def size (c : Catalog) : Nat := c.indexes.length

/-- The index of a realm. -/
def index? (c : Catalog) (r : Realm) : Option RangeIndex := c.indexes.find? (·.realm = r)

/-- The entries that contain an address, one for each index at most. -/
def matching (c : Catalog) (f : Family) (address : Nat) : List Match :=
  (c.indexes.filter (·.realm.family = f)).filterMap fun x =>
    (x.lookup address).map fun e => ⟨x.realm, e⟩

/-- The entries that contain an address given as a text. -/
def lookup (c : Catalog) (text : String) : Except Fault (List Match) :=
  (parseAddress text).map fun (f, address) => c.matching f address

end Catalog

/-- The indexes of all realms, with what was counted for each. -/
def buildEach (table : CountryTable) (records : List Record) :
    Except Fault (List (RangeIndex × BuildTally)) :=
  Realm.all.mapM fun r => buildTallied table r records

/-- The catalog of all realms, with what was counted altogether. -/
def buildAllTallied (table : CountryTable) (records : List Record) :
    Except Fault (Catalog × BuildTally) :=
  (buildEach table records).map fun built =>
    (⟨built.map (·.1)⟩, (built.map (·.2)).foldl BuildTally.add BuildTally.zero)

/-- The catalog of all realms. -/
def buildAll (table : CountryTable) (records : List Record) : Except Fault Catalog :=
  (buildAllTallied table records).map (·.1)

/-- The note on one index of a catalog, unless its realm has no records. -/
def realmNote (r : Realm) (t : BuildTally) : List Note :=
  if 0 < t.records then
    [.info (r.text ++ ": " ++ toString t.entries ++ " entries from " ++ toString t.records ++
      " records")]
  else []

/-- The note on a whole catalog. -/
def catalogNote (c : Catalog) (t : BuildTally) : Note :=
  .info ("Built " ++ toString c.size ++ " indexes: " ++ toString t.entries ++
    " entries from " ++ toString t.records ++ " records (" ++
    toString t.coalesced.merges ++ " merged, " ++ toString t.coalesced.duplicates ++
    " duplicate, " ++ toString t.coalesced.overlaps ++ " overlapping, " ++
    toString t.skipped ++ " skipped)")

/-- The notes of building a catalog: those of each index up to the first failing one, and
the sum at the end. -/
def buildAllNotes (schedule : Schedule) (table : CountryTable) (records : List Record) :
    List Note :=
  let reached := Build.throughFirst (fun r => !(buildTallied table r records).isOk) Realm.all
  let each := reached.flatMap fun r =>
    buildNotes schedule table r records ++
      match buildTallied table r records with
      | .error _ => []
      | .ok (_, t) => realmNote r t
  each ++ match buildAllTallied table records with
    | .error _ => []
    | .ok (c, t) => [catalogNote c t]

end Delegation
