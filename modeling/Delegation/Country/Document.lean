import Delegation.Country.Table
import Delegation.Json.TextList

/-!
# Country tables from JSON

A country table is stated by a JSON list of its country codes.
-/

namespace Delegation.CountryTable

/-- What begins the detail of a fault in the JSON text itself. -/
def documentLabel : String := "country table: "

/-- Reads a table from a JSON document.  The fault of a text that is no JSON list of texts has the
line where reading stopped.  Behind the label its detail says what is wrong in words of its own, and
the line and the column are not named again at the end. -/
def ofDocument (document : String) : Except Fault CountryTable :=
  match Json.readTexts document with
  | .ok names => ofNames names
  | .error fault => .error (.parse fault.line (documentLabel ++ fault.flaw.text))

end Delegation.CountryTable
