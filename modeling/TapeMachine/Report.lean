import TapeMachine.Fault
import TapeMachine.Run

/-!
# Reports

A report collects the diagnostics of one program and shows them, each with the line it is about
and a mark under the place.

* `underline` marks a range of columns;
* `Report.excerpt` picks the line and its marks;
* `Report.render` shows all diagnostics, plain or in colour (`Style`);
* `Report.Screen` decides the style when a report is printed.
-/

namespace TapeMachine

/-! ## §1 Marks -/

/-- As many copies of a character as a number says; none for a negative number. -/
def copies (n : Int) (c : Char) : List Char := List.replicate n.toNat c

/-- How many columns lie before, in and behind a range of marked columns. -/
structure Marks where
  before : Int
  width : Int
  after : Int
  deriving DecidableEq, Repr

/-- The marks under a text of some length, from column `start` up to column `stop`. A missing,
zero or empty end marks one column. -/
def Marks.under (length : Nat) (start : Int) (stop : Option Int) : Marks :=
  let start := max 1 start
  let width := max 1 (nonzeroOr stop (start + 1) - start)
  let before := start - 1
  ⟨before, width, max 0 ((length : Int) - before - width)⟩

/-- Carets in the range, and tildes elsewhere. -/
def Marks.text (m : Marks) : String :=
  String.ofList (copies m.before '~' ++ copies m.width '^' ++ copies m.after '~')

/-- The longest run of one mark. -/
def Marks.longest (m : Marks) : Nat := (max m.before (max m.width m.after)).toNat

/-- The marks under a text, in print. -/
def underline (length : Nat) (start : Int) (stop : Option Int) : String :=
  (Marks.under length start stop).text

/-! ## §2 Diagnostics -/

/-- One diagnostic of a report. -/
structure Item where
  severity : Severity
  code : String
  message : String
  span : Option Span := none
  /-- The offending text, shown where the line is not at hand. -/
  snippet : Option String := none
  deriving DecidableEq, Repr

/-- The diagnostics of one program, with its lines and the name of its file. -/
structure Report where
  lines : List String
  filename : String
  items : List Item := []
  deriving DecidableEq, Repr

namespace Report

/-- An empty report on a program, whose text may be missing. -/
def on (source : Option String) (filename : String) : Report where
  lines := Text.linesOf (source.getD "")
  filename := filename

/-- Adds a diagnostic. -/
def add (r : Report) (item : Item) : Report := { r with items := r.items ++ [item] }

/-- Adds a diagnostic worded from a catalog, with the severity it has there. -/
def addEntry (r : Report) (catalog : Catalog) (code : String) (values : Text.Template.Values)
    (span : Option Span) (snippet : Option String) : Except CatalogFault Report := do
  let entry ← catalog.get code
  let message ← catalog.message? code values
  return r.add ⟨entry.severity, code, message, span, snippet⟩

/-- Adds a complaint. One about a library has no place in the program. -/
def addComplaint (r : Report) (c : Complaint) : Report :=
  match c.origin with
  | .library => r.add { severity := .error, code := c.code, message := c.message }
  | _ => r.add ⟨.error, c.code, c.message, some c.position, some c.snippet⟩

/-- Adds a warning about an overwritten rule. -/
def addOverwrite (r : Report) (w : Overwrite) : Report :=
  r.add ⟨.warning, Overwrite.code, w.message, some w.position, none⟩

/-- Adds what is to be said of the end of a run; most ends need no words. -/
def addStop (r : Report) : Stop → Report
  | .undefined state value =>
    let message := Catalog.wording "RE0001" [("state", state), ("value", bitText value)]
    r.add { severity := .error, code := "RE0001", message := message }
  | .loop state threshold =>
    let message :=
      Catalog.wording "RW0001" [("state", state), ("threshold", toString threshold)]
    r.add { severity := .warning, code := "RW0001", message := message }
  | .final | .exhausted _ => r

/-- Whether a report holds a warning. -/
def hasWarnings (r : Report) : Bool := r.items.any fun item => item.severity == .warning

/-! ## §3 Excerpts -/

/-- File name, and line and column where they are known. -/
def location (r : Report) (item : Item) : String :=
  match item.span with
  | none => r.filename
  | some span => s!"{r.filename}:{span.line}:{span.col}"

/-- The text that an excerpt shows, and the column where its marks begin: the line of the
program, or else the snippet from its first column. -/
def excerptLine (r : Report) (item : Item) (span : Span) : String × Int :=
  match Text.lineAt? r.lines span.line with
  | some line => (line, span.col)
  | none => (item.snippet.getD "", 1)

/-- The column where the marks end: that of the span if it ends on its own line, and else the
end of the text. -/
def excerptEnd (span : Span) (text : String) (start : Int) : Int :=
  match span.endCol with
  | some endCol =>
    if span.endLine = some span.line then start + (endCol - span.col) else text.length + 1
  | none => text.length + 1

/-- The offending line and the marks under it. -/
def excerptMarks (r : Report) (item : Item) (span : Span) : String × Marks :=
  let (text, start) := r.excerptLine item span
  (text, .under text.length start (some (excerptEnd span text start)))

/-- The offending line and the line of marks under it. -/
def excerpt (r : Report) (item : Item) (span : Span) : String × String :=
  let (text, marks) := r.excerptMarks item span
  (text, marks.text)

/-- The longest run of one mark in the excerpts of a report. -/
def longestRun (r : Report) : Nat :=
  r.items.foldl (fun longest item =>
    match item.span with
    | none => longest
    | some span => max longest (r.excerptMarks item span).2.longest) 0

/-! ## §4 Rendering -/

/-- Whether a report is shown in colour, and whether its guides go beyond ASCII. -/
structure Style where
  color : Bool := true
  unicode : Bool := true
  deriving DecidableEq, Repr

/-- No colours and ASCII only. -/
def Style.plain : Style := ⟨false, false⟩

/-- The escape sequence that begins a colour or another rendition. -/
def escape (rendition : String) : String := "\x1b[" ++ rendition ++ "m"

/-- A text in a rendition, or as it is in a style without colour. -/
def Style.paint (style : Style) (rendition text : String) : String :=
  if style.color then escape rendition ++ text ++ escape "0" else text

/-- The colour of a severity. -/
def colorOf : Severity → String
  | .error => "31"
  | .warning => "33"

/-- A kind of diagnostic, bold and in its colour. -/
def Style.paintSeverity (style : Style) (severity : Severity) : String :=
  if style.color then escape "1" ++ style.paint (colorOf severity) severity.text
  else severity.text

/-- A message ends with a full stop. -/
def withStop (message : String) : String :=
  if message.toList.getLast? = some '.' then message else message ++ "."

/-- The line that states a diagnostic. -/
def headline (r : Report) (style : Style) (item : Item) : String :=
  let location := style.paint "36" (r.location item)
  let severity := style.paintSeverity item.severity
  let code := style.paint "2" item.code
  let message := withStop item.message
  s!"{location}: {severity} [{code}]: {message}"

/-- The lines of a diagnostic: the headline, and the excerpt if its place is known. -/
def itemLines (r : Report) (style : Style) (item : Item) : List String :=
  match item.span with
  | none => [r.headline style item]
  | some span =>
    let (text, marks) := r.excerpt item span
    let bar := style.paint "90" (if style.unicode then "  │ " else "  | ")
    let corner := style.paint "90" (if style.unicode then "  ╰ " else "  ` ")
    [r.headline style item, bar ++ text, corner ++ style.paint (colorOf item.severity) marks]

/-- All diagnostics, one after the other. -/
def render (r : Report) (style : Style) : String :=
  "\n".intercalate (r.items.flatMap (r.itemLines style))

/-! ## §5 Printing -/

/-- Where a report is printed to: whether that is a terminal, and the settings of its user. -/
structure Screen where
  isTerminal : Bool
  noColor : Option String := none
  noUnicode : Option String := none
  term : Option String := none
  deriving DecidableEq, Repr

/-- Whether a screen has a feature that the user can turn off by a setting. -/
def Screen.allows (screen : Screen) (optOut : Option String) : Bool :=
  screen.isTerminal && optOut.isNone && screen.term != some "dumb"

/-- The style for a screen; each part may be given instead. -/
def Screen.style (screen : Screen) (color unicode : Option Bool) : Style :=
  ⟨color.getD (screen.allows screen.noColor), unicode.getD (screen.allows screen.noUnicode)⟩

/-- What is printed: the diagnostics and a line end, or nothing if there are none. -/
def printed (r : Report) (style : Style) : String :=
  if r.items.isEmpty then "" else r.render style ++ "\n"

end Report

end TapeMachine
