import TapeMachine.Text.Quoted
import TapeMachine.Text.Template

/-!
# The Catalog of Diagnostics

Every diagnostic has a code, and the catalog gives the severity, the wording and an explanation
for each. Codes are grouped by their first letters: CE0 internal errors, CE1 errors of the
language, CE2 invalid declarations, CW warnings of the build, RE and RW errors and warnings of a
run.

* `Catalog.standard` holds the diagnostics of this library;
* `Catalog.message?` words a diagnostic, or says why that is not possible.
-/

namespace TapeMachine

/-! ## §1 Entries -/

/-- Whether a diagnostic stops the work. -/
inductive Severity where
  | error
  | warning
  deriving DecidableEq, Repr

/-- The name of a severity. -/
def Severity.text : Severity → String
  | .error => "error"
  | .warning => "warning"

/-- What a diagnostic is about. -/
inductive Category where
  | general
  | language
  | tape
  | state
  | library
  | runtime
  | internal
  deriving DecidableEq, Repr

/-- The name of a category. -/
def Category.text : Category → String
  | .general => "general"
  | .language => "syntax"
  | .tape => "tape"
  | .state => "state"
  | .library => "library"
  | .runtime => "runtime"
  | .internal => "internal"

/-- A kind of diagnostic. -/
structure Entry where
  code : String
  severity : Severity
  template : String
  category : Category := .general
  explanation : String := ""
  deriving DecidableEq, Repr

/-! ## §2 Catalogs -/

/-- Why a diagnostic cannot be worded, or not be added. -/
inductive CatalogFault where
  | unknownCode (code : String)
  /-- The template cannot be filled in. -/
  | template (code wording : String) (fault : Text.Template.Fault)
  /-- The code has an entry already. -/
  | duplicate (code : String) (present added : String)
  deriving DecidableEq, Repr

/-- The fault in words. -/
def CatalogFault.message : CatalogFault → String
  | .unknownCode code => s!"unknown error code: {code}"
  | .template code wording (.missingKey key) =>
    s!"missing text key '{key}' for {code} in {Text.quoted wording}"
  | .template _ _ fault => fault.message
  | .duplicate code present added =>
    let present := Text.quoted present
    let added := Text.quoted added
    s!"duplicate error code {code}: {present} and {added}"

/-- Entries in the order in which they were added. -/
structure Catalog where
  entries : List Entry
  deriving DecidableEq, Repr

namespace Catalog

/-- The entry of a code. -/
def find? (c : Catalog) (code : String) : Option Entry :=
  c.entries.find? fun e => e.code == code

/-- The entry of a code, which has to be there. -/
def get (c : Catalog) (code : String) : Except CatalogFault Entry :=
  match c.find? code with
  | some e => .ok e
  | none => .error (.unknownCode code)

/-- The entry of a code written as a name; names that begin with an underscore are reserved. -/
def byName? (c : Catalog) (code : String) : Option Entry :=
  if "_".toList.isPrefixOf code.toList then none else c.find? code

/-- Adds an entry whose code is new. -/
def add (c : Catalog) (e : Entry) : Except CatalogFault Catalog :=
  match c.find? e.code with
  | some present => .error (.duplicate e.code present.template e.template)
  | none => .ok ⟨c.entries ++ [e]⟩

/-- The wording of a diagnostic with its values filled in. -/
def message? (c : Catalog) (code : String) (values : Text.Template.Values) :
    Except CatalogFault String := do
  let entry ← c.get code
  match Text.Template.fill values entry.template with
  | .ok text => return text
  | .error fault => .error (.template code entry.template fault)

/-- The diagnostics of this library. -/
def standard : Catalog where
  entries := [
    ⟨"CE0001", .error, "built-in library '\x7bname\x7d' is malformed: \x7breason\x7d", .internal,
      "A library shipped with the compiler failed to parse or validate (compiler bug)."⟩,
    ⟨"CE0002", .error, "instruction expects 5 fields, got \x7bgot\x7d", .internal,
      "The parse tree of an instruction did not have the five expected children."⟩,
    ⟨"CE1001", .error, "\x7bdetail\x7d", .language,
      "The source could not be parsed by the grammar."⟩,
    ⟨"CE2001", .error, "Expected at least a 1 in the tape", .tape,
      "The tape literal must contain at least one 1 cell."⟩,
    ⟨"CE2002", .error, "\"\x7bsymbol\x7d\" is an unknown movement", .language,
      "Movements are R/D (right), L/I (left) and H/N (halt)."⟩,
    ⟨"CE2003", .error, "Could not find the library \"\x7bname\x7d\"", .library,
      "Composed names must match a built-in library exactly. Run 'turingc --libs' to list them."⟩,
    ⟨"CE2004", .error,
      "duplicate \x7bconstruct\x7d declaration (first declared at \x7bprev_loc\x7d)", .language,
      "A program may declare at most one tape, initial state, final-state set and composition."⟩,
    ⟨"CW1001", .warning,
      "instruction (\x7bstate\x7d, \x7bvalue\x7d) already exists, overwriting it", .state,
      "A later instruction for the same state and tape value replaces the earlier one."⟩,
    ⟨"RE0001", .error, "no instruction given for state (\x7bstate\x7d, \x7bvalue\x7d)", .runtime,
      "The machine reached a non-final state with no transition for the value under the head."⟩,
    ⟨"RW0001", .warning,
      "state '\x7bstate\x7d' was visited more than \x7bthreshold\x7d times, probable infinite loop",
      .runtime,
      "Raise --threshold if the machine is expected to revisit states this often."⟩]

/-- The standard wording of a diagnostic. Where there is none, the fault takes its place. -/
def wording (code : String) (values : Text.Template.Values) : String :=
  match standard.message? code values with
  | .ok text => text
  | .error fault => fault.message

end Catalog

end TapeMachine
