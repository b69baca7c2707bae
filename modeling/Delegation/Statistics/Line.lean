import Delegation.Record
import Delegation.Text.Blank
import Delegation.Text.Scientific

/-!
# Lines of statistics files

Registries publish their delegations as text files in the statistics exchange format.  A line
is cut into columns at its bars.  There are three kinds of lines:

* the version line `version|registry|serial|records|start|end|offset`, which comes first;
* a summary `registry|*|type|*|count|summary`, known by its end;
* a record `registry|country|type|start|value|date|status`, after which more columns may
  follow.  Records of system numbers are recognised but hold no addresses.
-/

namespace Delegation.Statistics

open Delegation.Text

/-- The type of the resources of a line. -/
inductive ResourceType where
  /-- System numbers. -/
  | asn
  | ipv4
  | ipv6
  deriving DecidableEq, Repr

namespace ResourceType

/-- All types. -/
def all : List ResourceType := [.asn, .ipv4, .ipv6]

/-- The name used in data files. -/
def name : ResourceType → String
  | .asn => "asn"
  | .ipv4 => "ipv4"
  | .ipv6 => "ipv6"

/-- The name used in notes. -/
def title : ResourceType → String
  | .asn => "Asn"
  | .ipv4 => "Ipv4"
  | .ipv6 => "Ipv6"

/-- The type with a name. -/
def ofName (s : String) : Except Fault ResourceType :=
  match all.find? (·.name == s) with
  | some t => .ok t
  | none => .error (.unknownName .resourceType s)

end ResourceType

/-- What is wrong with a line. -/
inductive LineFlaw where
  | versionFields (found : Nat)
  | unsupportedVersion (text : String)
  | recordCount (text : String)
  | malformedSummary (line : String)
  | summaryCount (text : String)
  | recordFields (found : Nat)
  | addressCount (text : String)
  | blockLength (text : String)
  /-- A column that holds no name of its list, or no address. -/
  | column (fault : Fault)
  deriving DecidableEq, Repr

/-- The words for a flaw. -/
def LineFlaw.text : LineFlaw → String
  | .versionFields found => "version line needs 7 fields, found " ++ toString found
  | .unsupportedVersion text => "unsupported format version " ++ quoted text
  | .recordCount text => "invalid record count " ++ quoted text
  | .malformedSummary line => "malformed summary line " ++ quoted line
  | .summaryCount text => "invalid summary count " ++ quoted text
  | .recordFields found => "record needs at least 7 fields, found " ++ toString found
  | .addressCount text => "invalid address count " ++ quoted text
  | .blockLength text => "invalid prefix length " ++ quoted text
  | .column fault => fault.message

/-- The columns of a line. -/
def columns (line : List Char) : List (List Char) := pieces '|' line

/-- Reads a column, with a flaw of its own if it is no number below a limit. -/
def readColumn (limit : Nat) (flaw : String → LineFlaw) (column : List Char) :
    Except LineFlaw Nat :=
  match readCount? limit column with
  | some n => .ok n
  | none => .error (flaw (String.ofList column))

/-- A result for a column, whose fault becomes a flaw of the line. -/
def inColumn {α : Type} (result : Except Fault α) : Except LineFlaw α :=
  match result with
  | .ok a => .ok a
  | .error fault => .error (.column fault)

/-- Reads the name of a registry. -/
def readRegistry (column : List Char) : Except LineFlaw Registry :=
  match Registry.ofName? (String.ofList column) with
  | some r => .ok r
  | none => .error (.column (.unknownName .registry (String.ofList column)))

/-- Reads the name of a status. -/
def readStatus (column : List Char) : Except LineFlaw Status :=
  match Status.ofName? (String.ofList column) with
  | some s => .ok s
  | none => .error (.column (.unknownName .status (String.ofList column)))

/-- Reads the name of a resource type. -/
def readType (column : List Char) : Except LineFlaw ResourceType :=
  inColumn (ResourceType.ofName (String.ofList column))

/-- Reads a country; a blank column is for records without one. -/
def readCountry (column : List Char) : Except LineFlaw Country :=
  match trim column with
  | [] => .ok Country.unknown
  | letters => inColumn (Country.ofName (String.ofList letters))

/-! ## The version line -/

/-- The version line. -/
structure Header where
  version : String
  registry : Registry
  serial : String
  /-- The number of records that the file should hold. -/
  records : Nat
  startDate : String
  endDate : String
  /-- The offset from universal time, which always has a sign. -/
  utcOffset : String
  deriving DecidableEq, Repr

/-- Whether a column names version 2 or 2.3 of the format. -/
def isSupported (version : List Char) : Bool :=
  match Scientific.read? version with
  | some x => x.liesIn roundsToTwo || x.liesIn roundsToTwoPointThree
  | none => false

/-- An offset with a sign. -/
def signed (offset : List Char) : List Char :=
  match offset with
  | '+' :: _ => offset
  | '-' :: _ => offset
  | _ => '+' :: offset

/-- Reads the version line. -/
def Header.read (line : List Char) : Except LineFlaw Header :=
  match columns line with
  | [version, registry, serial, records, startDate, endDate, offset] =>
    if isSupported version then do
      let records ← readColumn (2 ^ 64) .recordCount records
      let registry ← readRegistry registry
      .ok {
        version := String.ofList version
        registry := registry
        serial := String.ofList serial
        records := records
        startDate := String.ofList startDate
        endDate := String.ofList endDate
        utcOffset := String.ofList (signed offset) }
    else .error (.unsupportedVersion (String.ofList version))
  | fields => .error (.versionFields fields.length)

/-! ## Summaries and records -/

/-- A summary line. -/
structure Summary where
  registry : Registry
  type : ResourceType
  /-- The number of records of that type that the file should hold. -/
  count : Nat
  deriving DecidableEq, Repr

/-- Reads a summary line. -/
def Summary.read (line : List Char) : Except LineFlaw Summary :=
  match columns line with
  | [registry, _, type, _, count, word] =>
    if word = "summary".toList then do
      let registry ← readRegistry registry
      let type ← readType type
      let count ← readColumn (2 ^ 64) .summaryCount count
      .ok ⟨registry, type, count⟩
    else .error (.malformedSummary (String.ofList line))
  | _ => .error (.malformedSummary (String.ofList line))

/-- Reads a record line; none for system numbers. -/
def readRecord? (line : List Char) : Except LineFlaw (Option Record) :=
  match columns line with
  | registry :: country :: type :: first :: value :: _ :: status :: _ => do
    let registry ← readRegistry registry
    let status ← readStatus status
    let country ← readCountry country
    match ← readType type with
    | .asn => .ok none
    | .ipv4 =>
      let count ← readColumn (2 ^ 128) .addressCount value
      let first ← inColumn (Family.ipv4.parse (String.ofList first))
      .ok (some ⟨registry, country, .ipv4, first, .count count, status⟩)
    | .ipv6 =>
      let length ← readColumn 256 .blockLength value
      let first ← inColumn (Family.ipv6.parse (String.ofList first))
      .ok (some ⟨registry, country, .ipv6, first, .length length, status⟩)
  | fields => .error (.recordFields fields.length)

/-- What a line behind the version line holds. -/
inductive Item where
  | summary (s : Summary)
  | record (r : Record)
  /-- A record of system numbers. -/
  | asn
  deriving DecidableEq, Repr

/-- Whether a line is a summary. -/
def isSummary (line : List Char) : Bool := "|summary".toList.isSuffixOf line

/-- Reads a line behind the version line. -/
def Item.read (line : List Char) : Except LineFlaw Item :=
  if isSummary line then (Summary.read line).map .summary
  else (readRecord? line).map fun
    | some r => .record r
    | none => .asn

end Delegation.Statistics
