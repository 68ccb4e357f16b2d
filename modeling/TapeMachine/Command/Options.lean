import TapeMachine.Text.Numeral
import TapeMachine.Text.Quoted

/-!
# Command Line Options

What a command line asks for. Options are flags or settings with a value; long ones may be
shortened as long as that is unambiguous, short ones may be grouped behind one dash, a value may
follow after an equals sign, and two dashes end the options. Two dashes after an equals sign leave
a setting without a value. One argument names the source file.

* `Arg.classify` says what an argument is, by itself;
* `Options.read` reads a command line, and `UsageError` says what is wrong with one.
-/

namespace TapeMachine

/-! ## §1 The Options -/

/-- Options without a value. -/
inductive Flag where
  | help
  | version
  | dumpParse
  | dumpAst
  | trace
  | libs
  | quiet
  | verbose
  deriving DecidableEq, Repr

/-- Options with a value. -/
inductive Setting where
  | threshold
  | batch
  | maxSteps
  | libInfo
  deriving DecidableEq, Repr

/-- An option of either sort. -/
inductive OptionName where
  | flag (f : Flag)
  | setting (s : Setting)
  deriving DecidableEq, Repr

/-- All spellings of options, in order. -/
def spellings : List (String × OptionName) :=
  [("-h", .flag .help), ("--help", .flag .help), ("--version", .flag .version),
    ("--dump-parse", .flag .dumpParse), ("--dump-ast", .flag .dumpAst), ("--trace", .flag .trace),
    ("--threshold", .setting .threshold), ("--batch", .setting .batch),
    ("--max-steps", .setting .maxSteps), ("--libs", .flag .libs),
    ("--lib-info", .setting .libInfo), ("-q", .flag .quiet), ("--quiet", .flag .quiet),
    ("-v", .flag .verbose), ("--verbose", .flag .verbose)]

/-- The option of a spelling. -/
def optionOf? (text : String) : Option OptionName := spellings.lookup text

/-- All spellings of one option, as messages name it. -/
def OptionName.text (o : OptionName) : String :=
  "/".intercalate ((spellings.filter fun s => s.2 == o).map Prod.fst)

/-! ## §2 Errors -/

/-- What is wrong with a command line. -/
inductive UsageError where
  | ambiguous (text : String) (candidates : List String)
  | missingValue (o : OptionName)
  | ignoredValue (o : OptionName) (value : String)
  | notPositive (o : OptionName) (n : Int)
  | notANumber (o : OptionName) (value : String)
  | unrecognized (args : List String)
  deriving DecidableEq, Repr

/-- The error in words. -/
def UsageError.message : UsageError → String
  | .ambiguous text candidates =>
    let listed := ", ".intercalate candidates
    s!"ambiguous option: {text} could match {listed}"
  | .missingValue o => s!"argument {o.text}: expected one argument"
  | .ignoredValue o value =>
    s!"argument {o.text}: ignored explicit argument {Text.quoted value}"
  | .notPositive o n => s!"argument {o.text}: expected a positive integer, got {n}"
  | .notANumber o value =>
    s!"argument {o.text}: invalid _positive_int value: {Text.quoted value}"
  | .unrecognized args =>
    let listed := " ".intercalate args
    s!"unrecognized arguments: {listed}"

/-! ## §3 Arguments -/

/-- What an argument is. -/
inductive Arg where
  | value (text : String)
  /-- Two dashes: all that follows are values. -/
  | dashes
  /-- An option; `attached` is what follows an equals sign. -/
  | option (o : OptionName) (attached : Option String)
  /-- A short flag with further letters behind it, which an equals sign may set apart. -/
  | group (f : Flag) (letters : List Char)
  | unknown (text : String)
  deriving DecidableEq, Repr

/-- A text before its first equals sign, and what follows that sign. -/
def splitAtEquals (text : String) : String × Option String :=
  let before := text.toList.takeWhile (· != '=')
  match text.toList.dropWhile (· != '=') with
  | [] => (text, none)
  | _ :: after => (String.ofList before, some (String.ofList after))

/-- A dash and a number, whole or decimal, which is a value and no option. A line end may
follow. -/
def isNegativeNumber (text : String) : Bool :=
  match text.toList with
  | '-' :: body =>
    let body := if body.getLast? = some '\n' then body.dropLast else body
    match body.dropWhile Text.isDigit with
    | [] => !body.isEmpty
    | '.' :: decimals => !decimals.isEmpty && decimals.all Text.isDigit
    | _ => false
  | _ => false

/-- An argument with a dash that spells no option. -/
def Arg.classifyRest (text : String) : Arg :=
  if isNegativeNumber text || text.toList.contains ' ' then .value text else .unknown text

/-- Says what an argument before two dashes is. -/
def Arg.classify (text : String) : Except UsageError Arg :=
  match text.toList with
  | [] => .ok (.value text)
  | first :: rest =>
    if first ≠ '-' then .ok (.value text)
    else
      match optionOf? text, rest with
      | some o, _ => .ok (.option o none)
      | none, [] => .ok (.value text)
      | none, second :: letters =>
        let (name, attached) := splitAtEquals text
        match attached, optionOf? name with
        | some after, some o =>
          match o, after.toList with
          | .flag f, c :: cs =>
            .ok (if second = '-' then .option o (some after) else .group f (c :: cs))
          | _, _ => .ok (.option o (some after))
        | _, _ =>
          if second = '-' then
            match spellings.filter fun s => name.toList.isPrefixOf s.1.toList with
            | [] => .ok (.classifyRest text)
            | [(_, o)] => .ok (.option o attached)
            | candidates => .error (.ambiguous text (candidates.map Prod.fst))
          else
            match optionOf? (String.ofList [first, second]) with
            | some (.flag f) => .ok (.group f letters)
            | some (.setting s) => .ok (.option (.setting s) (some (String.ofList letters)))
            | none => .ok (.classifyRest text)

/-- Says what each argument is. -/
def Arg.classifyAll : List String → Except UsageError (List Arg)
  | [] => .ok []
  | text :: rest =>
    if text = "--" then .ok (.dashes :: rest.map .value)
    else do
      let arg ← classify text
      let args ← classifyAll rest
      return arg :: args

/-- The flags grouped behind one dash. Letters that begin with no flag are a value for the flag in
front of them, which takes none. -/
def groupedFlags (f : Flag) : List Char → Except UsageError (List Flag)
  | [] => .ok [f]
  | c :: rest =>
    match optionOf? (String.ofList ['-', c]) with
    | some (.flag g) => do return f :: (← groupedFlags g rest)
    | _ => .error (.ignoredValue (.flag f) (String.ofList (c :: rest)))

/-! ## §4 Reading a Command Line -/

/-- What a command line asks for. -/
structure Options where
  source : Option String := none
  version : Bool := false
  dumpParse : Bool := false
  dumpAst : Bool := false
  trace : Bool := false
  threshold : Nat := 1000
  batch : Nat := 5000
  maxSteps : Option Nat := none
  libs : Bool := false
  libInfo : Option String := none
  quiet : Bool := false
  /-- How often more notes were asked for. -/
  verbosity : Nat := 0
  /-- The settings that were left without a value. -/
  valueless : List Setting := []
  deriving DecidableEq, Repr

/-- Why a command line is not followed. -/
inductive Refusal where
  /-- An explanation of the options was asked for instead. -/
  | help
  | usage (e : UsageError)
  deriving DecidableEq, Repr

namespace Options

/-- Sets a flag. -/
def setFlag (o : Options) : Flag → Except Refusal Options
  | .help => .error .help
  | .version => .ok { o with version := true }
  | .dumpParse => .ok { o with dumpParse := true }
  | .dumpAst => .ok { o with dumpAst := true }
  | .trace => .ok { o with trace := true }
  | .libs => .ok { o with libs := true }
  | .quiet => .ok { o with quiet := true }
  | .verbose => .ok { o with verbosity := o.verbosity + 1 }

/-- The positive number that a setting is given. -/
def positive (s : Setting) (text : String) : Except Refusal Nat :=
  match Text.readInt? text with
  | none => .error (.usage (.notANumber (.setting s) text))
  | some n => if n ≤ 0 then .error (.usage (.notPositive (.setting s) n)) else .ok n.toNat

/-- Gives a setting its value. -/
def giveSetting (o : Options) (s : Setting) (text : String) : Except Refusal Options :=
  match s with
  | .threshold => do return { o with threshold := ← positive s text }
  | .batch => do return { o with batch := ← positive s text }
  | .maxSteps => do return { o with maxSteps := some (← positive s text) }
  | .libInfo => .ok { o with libInfo := some text }

/-- Sets a setting. Two dashes are no value: they leave the setting without one. -/
def setSetting (o : Options) (s : Setting) (text : String) : Except Refusal Options :=
  if text = "--" then
    .ok { o with
      libInfo := if s = .libInfo then none else o.libInfo
      valueless := s :: o.valueless }
  else do
    let o ← o.giveSetting s text
    return { o with valueless := o.valueless.filter (· != s) }

/-- How far a command line is read: the options so far, whether the source has its place, and
the arguments that have none, in order. -/
structure Reading where
  options : Options := {}
  sourceRead : Bool := false
  extras : List String := []

/-- Puts a source in its place. -/
def Reading.takeSource (r : Reading) (text : String) : Reading :=
  { r with options := { r.options with source := some text }, sourceRead := true }

/-- Keeps arguments that have no place. -/
def Reading.keep (r : Reading) (args : List String) : Reading :=
  { r with extras := r.extras ++ args }

/-- Reads classified arguments one after the other. -/
def readArgs (r : Reading) : List Arg → Except Refusal Reading
  | [] => .ok r
  -- Two dashes right before or behind the source belong to it.
  | .value text :: .dashes :: rest =>
    readArgs (if r.sourceRead then r.keep [text, "--"] else r.takeSource text) rest
  | .dashes :: .value text :: rest =>
    readArgs (if r.sourceRead then r.keep ["--", text] else r.takeSource text) rest
  | .value text :: rest =>
    readArgs (if r.sourceRead then r.keep [text] else r.takeSource text) rest
  | .dashes :: rest =>
    readArgs (if r.sourceRead then r.keep ["--"] else { r with sourceRead := true }) rest
  | .option (.flag f) none :: rest => do
    let options ← r.options.setFlag f
    readArgs { r with options } rest
  | .option (.flag f) (some text) :: _ => .error (.usage (.ignoredValue (.flag f) text))
  | .option (.setting s) (some text) :: rest => do
    let options ← r.options.setSetting s text
    readArgs { r with options } rest
  | .option (.setting s) none :: .value text :: rest => do
    let options ← r.options.setSetting s text
    readArgs { r with options } rest
  | .option (.setting s) none :: _ => .error (.usage (.missingValue (.setting s)))
  | .group f letters :: rest =>
    match groupedFlags f letters with
    | .error e => .error (.usage e)
    | .ok flags => do
      let options ← flags.foldlM setFlag r.options
      readArgs { r with options } rest
  | .unknown text :: rest => readArgs (r.keep [text]) rest

/-- Reads a command line. -/
def read (args : List String) : Except Refusal Options :=
  match Arg.classifyAll args with
  | .error e => .error (.usage e)
  | .ok args => do
    let r ← readArgs {} args
    if r.extras.isEmpty then return r.options else .error (.usage (.unrecognized r.extras))

end Options

end TapeMachine
