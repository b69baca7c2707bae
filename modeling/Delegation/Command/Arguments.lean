import Delegation.Power
import Delegation.Text.Numeral

/-!
# Command-line arguments

Arguments are options and operands in any order.  A long option is `--name`, with its value
in the next argument or behind an equals sign; short options are single letters that can be
joined behind one dash, the last one with its value behind it.  Behind `--` everything is an
operand, and a single dash is always one.

Arguments are read from left to right.  The first one that does not fit ends the reading, and
so does the first request for help or for the version, whichever comes first.

A build takes a number of threads, which is checked like any other value.  The outcome of a build
does not depend on it, so `Request.build` leaves it out.  A machine that cannot start as many
threads makes the program fail before it reads a file; that failure is not modelled.
-/

namespace Delegation.Command

/-- Why arguments are not read to their end. -/
inductive Stop where
  /-- They do not fit. -/
  | usage
  | help
  | version
  deriving DecidableEq, Repr

/-- What an option does. -/
inductive OptionKind where
  /-- It stands alone. -/
  | flag
  /-- It takes a value that the function accepts. -/
  | value (accepts : String → Bool)
  /-- It ends the reading. -/
  | stop (s : Stop)

/-- An option. -/
structure OptionSpec where
  long : String
  short : Option Char
  kind : OptionKind
  /-- Whether the option may be given more than once. -/
  repeats : Bool

/-- What arguments may look like. -/
structure Grammar where
  options : List OptionSpec
  /-- How many operands there may be, if they are limited. -/
  maxOperands : Option Nat
  acceptsOperand : String → Bool

/-- What has been read. -/
structure Reading where
  /-- Options by their long names with their values, the latest first. -/
  options : List (String × String)
  /-- Operands, the latest first. -/
  operands : List String
  /-- The option whose value comes next. -/
  pending : Option OptionSpec
  /-- Whether only operands follow. -/
  onlyOperands : Bool

namespace Reading

/-- Nothing has been read. -/
def start : Reading := ⟨[], [], none, false⟩

/-- Whether an option has been given. -/
def has (r : Reading) (long : String) : Bool := r.options.any (·.1 == long)

/-- The values of an option, in their order. -/
def values (r : Reading) (long : String) : List String :=
  (r.options.reverse.filter (·.1 == long)).map (·.2)

/-- The value of an option. -/
def value? (r : Reading) (long : String) : Option String := (r.values long).head?

/-- Takes an option with a value, which is empty for a flag. -/
def addOption (r : Reading) (spec : OptionSpec) (value : String) : Except Stop Reading :=
  if !spec.repeats && r.has spec.long then .error .usage
  else .ok { r with options := (spec.long, value) :: r.options, pending := none }

/-- Takes an option with the value that was given for it. -/
def addValue (r : Reading) (spec : OptionSpec) (accepts : String → Bool) (value : String) :
    Except Stop Reading :=
  if accepts value then r.addOption spec value else .error .usage

/-- Takes an operand. -/
def addOperand (g : Grammar) (r : Reading) (operand : String) : Except Stop Reading :=
  if g.maxOperands.any (· ≤ r.operands.length) || !g.acceptsOperand operand then .error .usage
  else .ok { r with operands := operand :: r.operands }

/-- Reads a long option behind its two dashes. -/
def readLong (g : Grammar) (r : Reading) (s : List Char) : Except Stop Reading :=
  let name := s.takeWhile (· != '=')
  let attached := match s.drop name.length with
    | [] => none
    | _ :: value => some (String.ofList value)
  match g.options.find? (·.long == String.ofList name) with
  | none => .error .usage
  | some spec =>
    match spec.kind, attached with
    | .flag, none => r.addOption spec ""
    | .stop s, none => .error s
    | .value accepts, some value => r.addValue spec accepts value
    | .value _, none => .ok { r with pending := some spec }
    | _, some _ => .error .usage

/-- Reads short options behind their dash. -/
def readShort (g : Grammar) (r : Reading) : List Char → Except Stop Reading
  | [] => .ok r
  | c :: rest =>
    match g.options.find? (·.short == some c) with
    | none => .error .usage
    | some spec =>
      match spec.kind with
      | .stop s => .error s
      | .flag =>
        match r.addOption spec "" with
        | .error s => .error s
        | .ok r => readShort g r rest
      | .value accepts =>
        match rest with
        | [] => .ok { r with pending := some spec }
        | '=' :: value => r.addValue spec accepts (String.ofList value)
        | value => r.addValue spec accepts (String.ofList value)

/-- Reads one argument. -/
def step (g : Grammar) (r : Reading) (argument : String) : Except Stop Reading :=
  match r.pending with
  | some spec =>
    match argument.toList, spec.kind with
    | '-' :: _ :: _, _ => .error .usage
    | _, .value accepts => r.addValue spec accepts argument
    | _, _ => .error .usage
  | none =>
    if r.onlyOperands then addOperand g r argument
    else match argument.toList with
      | ['-', '-'] => .ok { r with onlyOperands := true }
      | '-' :: '-' :: s => readLong g r s
      | '-' :: c :: s => readShort g r (c :: s)
      | _ => addOperand g r argument

/-- Reads all arguments. -/
def read (g : Grammar) (arguments : List String) : Except Stop Reading :=
  match arguments.foldlM (step g) start with
  | .error s => .error s
  | .ok r => if r.pending.isSome then .error .usage else .ok r

end Reading

/-! ## Requests -/

/-- The form of a report. -/
inductive ReportFormat where
  | json
  | csv
  deriving DecidableEq, Repr

/-- What the program is asked to do. -/
inductive Request where
  /-- Build all indexes and write them to a file. -/
  | build (inputs : List String) (output : String) (format : ReportFormat)
      (countries : Option String) (sequential : Bool)
  /-- Look an address up. -/
  | lookup (address : String) (inputs : List String) (countries : Option String) (quiet : Bool)
  /-- Describe the range between two addresses. -/
  | cidr (first last : String)
  deriving DecidableEq, Repr

/-- A path must not be empty. -/
def isPath (s : String) : Bool := s != ""

/-- Whether a text is a number of threads. -/
def isThreadCount (s : String) : Bool := (Text.readCount? (2 ^ 64) s.toList).isSome

/-- The option that every command has. -/
def verboseOption : OptionSpec := ⟨"verbose", some 'v', .flag, false⟩

/-- The option that asks for help. -/
def helpOption : OptionSpec := ⟨"help", some 'h', .stop .help, false⟩

/-- An option with a path for its value. -/
def pathOption (long : String) (short : Option Char) (repeats : Bool) : OptionSpec :=
  ⟨long, short, .value isPath, repeats⟩

/-- What stands before the name of the command. -/
def outerGrammar : Grammar where
  options := [verboseOption, helpOption, ⟨"version", some 'V', .stop .version, false⟩]
  maxOperands := some 0
  acceptsOperand := fun _ => true

/-- The arguments of `build`. -/
def buildGrammar : Grammar where
  options := [verboseOption, helpOption, pathOption "output" (some 'o') false,
    ⟨"format", none, .value fun s => s == "json" || s == "csv", false⟩,
    pathOption "countries" none false,
    ⟨"threads", some 'j', .value isThreadCount, false⟩,
    ⟨"sequential", none, .flag, false⟩]
  maxOperands := none
  acceptsOperand := isPath

/-- The arguments of `lookup`. -/
def lookupGrammar : Grammar where
  options := [verboseOption, helpOption, pathOption "input" (some 'i') true,
    pathOption "countries" none false, ⟨"quiet", some 'q', .flag, false⟩]
  maxOperands := some 1
  acceptsOperand := fun _ => true

/-- The arguments of `cidr`. -/
def cidrGrammar : Grammar where
  options := [verboseOption, helpOption]
  maxOperands := some 2
  acceptsOperand := fun _ => true

/-- Reads the arguments of `build`. -/
def readBuild (arguments : List String) : Except Stop Request := do
  let r ← Reading.read buildGrammar arguments
  match r.operands, r.value? "output" with
  | [], _ => .error .usage
  | _, none => .error .usage
  | inputs, some output =>
    let format := if r.value? "format" = some "csv" then ReportFormat.csv else ReportFormat.json
    .ok (.build inputs.reverse output format (r.value? "countries") (r.has "sequential"))

/-- Reads the arguments of `lookup`. -/
def readLookup (arguments : List String) : Except Stop Request := do
  let r ← Reading.read lookupGrammar arguments
  match r.operands, r.values "input" with
  | [], _ => .error .usage
  | _, [] => .error .usage
  | address :: _, inputs =>
    .ok (.lookup address inputs (r.value? "countries") (r.has "quiet"))

/-- Reads the arguments of `cidr`. -/
def readCidr (arguments : List String) : Except Stop Request := do
  let r ← Reading.read cidrGrammar arguments
  match r.operands with
  | [last, first] => .ok (.cidr first last)
  | _ => .error .usage

/-- Reads the arguments of `help`, which may name a command. -/
def readHelp (arguments : List String) : Stop :=
  match arguments with
  | [] => .help
  | [name] => if ["build", "lookup", "cidr", "help"].contains name then .help else .usage
  | _ => .usage

/-- Reads the arguments of the command with a name. -/
def readNamed (name : String) (arguments : List String) : Except Stop Request :=
  if name = "build" then readBuild arguments
  else if name = "lookup" then readLookup arguments
  else if name = "cidr" then readCidr arguments
  else if name = "help" then .error (readHelp arguments)
  else .error .usage

/-- Reads options up to the name of a command, and then its arguments. -/
def readOuter (r : Reading) : List String → Except Stop Request
  | [] => .error .usage
  | argument :: arguments =>
    match argument.toList with
    | '-' :: _ :: _ =>
      match Reading.step outerGrammar r argument with
      | .error s => .error s
      | .ok r => if r.onlyOperands then .error .usage else readOuter r arguments
    | _ => readNamed argument arguments

/-- Reads the arguments of the program. -/
def Request.read (arguments : List String) : Except Stop Request :=
  readOuter Reading.start arguments

end Delegation.Command
