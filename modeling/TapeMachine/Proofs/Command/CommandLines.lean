import Mathlib.Data.List.Basic
import TapeMachine.Command.Options
import TapeMachine.Proofs.Attempts

/-!
# Command Lines that Ask for a Run

A command line that asks for a run names a source, and makes choices in front of the name and behind
it: flags for what is shown, and limits with positive numbers. They may come in any order and more
than once; of several numbers for a limit the last one counts.

* `Numeral` is a text that is read as a positive number, and `Choice` one choice;
* `commandLine` are the arguments, and `requested` says which options they stand for;
* `Options.read_commandLine`: these are the options that are read.
-/

namespace TapeMachine

/-! ## §1 Choices -/

/-- A text that is read as a positive number. -/
structure Numeral where
  text : String
  number : Nat
  reads : Text.readInt? text = some (number : Int)
  positive : 0 < number

/-- A choice that a command line makes for a run. -/
inductive Choice where
  | dumpParse
  | dumpAst
  | trace
  | quiet
  | verbose
  | threshold (n : Numeral)
  | batch (n : Numeral)
  | maxSteps (n : Numeral)

namespace Choice

/-- The arguments that make a choice. -/
def args : Choice → List String
  | .dumpParse => ["--dump-parse"]
  | .dumpAst => ["--dump-ast"]
  | .trace => ["--trace"]
  | .quiet => ["-q"]
  | .verbose => ["-v"]
  | .threshold n => ["--threshold", n.text]
  | .batch n => ["--batch", n.text]
  | .maxSteps n => ["--max-steps", n.text]

/-- Options with a choice made. -/
def set (o : Options) : Choice → Options
  | .dumpParse => { o with dumpParse := true }
  | .dumpAst => { o with dumpAst := true }
  | .trace => { o with trace := true }
  | .quiet => { o with quiet := true }
  | .verbose => { o with verbosity := o.verbosity + 1 }
  | .threshold n => { o with threshold := n.number }
  | .batch n => { o with batch := n.number }
  | .maxSteps n => { o with maxSteps := some n.number }

/-- What the arguments of a choice are, each by itself. -/
def classified : Choice → List Arg
  | .dumpParse => [.option (.flag .dumpParse) none]
  | .dumpAst => [.option (.flag .dumpAst) none]
  | .trace => [.option (.flag .trace) none]
  | .quiet => [.option (.flag .quiet) none]
  | .verbose => [.option (.flag .verbose) none]
  | .threshold n => [.option (.setting .threshold) none, .value n.text]
  | .batch n => [.option (.setting .batch) none, .value n.text]
  | .maxSteps n => [.option (.setting .maxSteps) none, .value n.text]

end Choice

/-- The options that choices stand for. -/
def choose (choices : List Choice) : Options := choices.foldl Choice.set {}

/-- Options that ask for nothing but a run, with all that it needs. -/
structure Options.ForRun (o : Options) : Prop where
  version : o.version = false
  libs : o.libs = false
  libInfo : o.libInfo = none
  valueless : o.valueless = []
  batch : 1 ≤ o.batch

theorem Options.ForRun.set {o : Options} (h : o.ForRun) (c : Choice) : (c.set o).ForRun := by
  cases c with
  | batch n => exact ⟨h.version, h.libs, h.libInfo, h.valueless, n.positive⟩
  | _ => exact ⟨h.version, h.libs, h.libInfo, h.valueless, h.batch⟩

theorem Options.ForRun.named {o : Options} (h : o.ForRun) (source : String) :
    { o with source := some source }.ForRun :=
  ⟨h.version, h.libs, h.libInfo, h.valueless, h.batch⟩

/-- Choices ask for nothing but a run. -/
theorem forRun_choose (choices : List Choice) : (choose choices).ForRun := by
  have hFrom (o : Options) (h : o.ForRun) : (choices.foldl Choice.set o).ForRun := by
    induction choices generalizing o with
    | nil => exact h
    | cons c choices ih => exact ih _ (h.set c)
  exact hFrom {} ⟨rfl, rfl, rfl, rfl, by decide⟩

/-- A command line with choices in front of the name of a source and behind it. -/
def commandLine (front : List Choice) (source : String) (back : List Choice) : List String :=
  front.flatMap Choice.args ++ source :: back.flatMap Choice.args

/-- The options that such a command line stands for. -/
def requested (front : List Choice) (source : String) (back : List Choice) : Options :=
  { choose (front ++ back) with source := some source }

theorem forRun_requested (front : List Choice) (source : String) (back : List Choice) :
    (requested front source back).ForRun :=
  (forRun_choose (front ++ back)).named source

/-- A name that is taken for a source as it stands: it has a first letter, which is no dash. -/
def NamesSource (source : String) : Prop :=
  ∃ first rest, source.toList = first :: rest ∧ first ≠ '-'

/-! ## §2 Single Arguments -/

theorem Arg.classify_of_namesSource {text : String} (hName : NamesSource text) :
    Arg.classify text = .ok (.value text) := by
  obtain ⟨first, rest, hText, hFirst⟩ := hName
  unfold Arg.classify
  rw [hText]
  simp [hFirst]

/-- A numeral is not taken for an option: a number with a dash in front is not positive. -/
theorem Numeral.namesSource (n : Numeral) : NamesSource n.text := by
  cases hText : n.text.toList with
  | nil =>
    have hReads := n.reads
    simp [Text.readInt?, hText, Text.readNat?, Text.numeralDigits?] at hReads
  | cons first rest =>
    refine ⟨first, rest, hText, ?_⟩
    rintro rfl
    -- Blanks are stripped, the dash stays in front, and the number would not be positive.
    have hFront : ('-' :: rest).dropWhile Text.isNumeralBlank = '-' :: rest :=
      List.dropWhile_cons_of_neg (by decide)
    obtain ⟨inner, hBack⟩ : ∃ inner,
        (('-' :: rest).reverse.dropWhile Text.isNumeralBlank).reverse = '-' :: inner := by
      rw [List.reverse_cons, List.dropWhile_append]
      split
      · exact ⟨[], by decide⟩
      · exact ⟨_, by rw [List.reverse_append]; rfl⟩
    have hReads := n.reads
    unfold Text.readInt? at hReads
    simp only [hText, hFront, hBack] at hReads
    obtain ⟨k, hNatural, hNegative⟩ := Option.map_eq_some_iff.1 hReads
    obtain ⟨size, -, rfl⟩ : ∃ size, Text.readNat? inner = some size ∧ (size : Int) = k := by
      simpa [Option.bind_eq_some_iff] using hNatural
    have hPositive := n.positive
    omega

/-- A name that is taken for a source is not the mark behind which all is. -/
theorem NamesSource.ne_dashes {text : String} (hName : NamesSource text) : text ≠ "--" := by
  rintro rfl
  obtain ⟨first, rest, hText, hFirst⟩ := hName
  exact hFirst (List.cons.inj hText).1.symm

theorem Arg.classifyAll_cons {text : String} {arg : Arg} (hText : text ≠ "--")
    (hArg : Arg.classify text = .ok arg) (rest : List String) :
    Arg.classifyAll (text :: rest) = (Arg.classifyAll rest).map (arg :: ·) := by
  rw [Arg.classifyAll, if_neg hText, hArg, ok_bind]
  cases Arg.classifyAll rest <;> rfl

/-- The arguments of a choice are classified by themselves. -/
theorem Choice.classifyAll_args (c : Choice) (rest : List String) :
    Arg.classifyAll (c.args ++ rest) = (Arg.classifyAll rest).map (c.classified ++ ·) := by
  have hLimit (spelling : String) (s : Setting) (n : Numeral) (hSpelling : spelling ≠ "--")
      (hOption : Arg.classify spelling = .ok (.option (.setting s) none)) :
      Arg.classifyAll (spelling :: n.text :: rest) =
        (Arg.classifyAll rest).map ([.option (.setting s) none, .value n.text] ++ ·) := by
    rw [Arg.classifyAll_cons hSpelling hOption,
      Arg.classifyAll_cons n.namesSource.ne_dashes (Arg.classify_of_namesSource n.namesSource)]
    cases Arg.classifyAll rest <;> rfl
  cases c with
  | threshold n => exact hLimit "--threshold" .threshold n (by decide) (by decide)
  | batch n => exact hLimit "--batch" .batch n (by decide) (by decide)
  | maxSteps n => exact hLimit "--max-steps" .maxSteps n (by decide) (by decide)
  | _ => exact Arg.classifyAll_cons (by decide) (by decide) rest

/-! ## §3 Whole Command Lines -/

theorem classifyAll_flatMap_args (choices : List Choice) (rest : List String) :
    Arg.classifyAll (choices.flatMap Choice.args ++ rest) =
      (Arg.classifyAll rest).map (choices.flatMap Choice.classified ++ ·) := by
  induction choices with
  | nil =>
    simp only [List.flatMap_nil, List.nil_append]
    cases Arg.classifyAll rest <;> rfl
  | cons c choices ih =>
    rw [List.flatMap_cons, List.append_assoc, Choice.classifyAll_args, ih, List.flatMap_cons]
    cases Arg.classifyAll rest with
    | error fault => rfl
    | ok args => simp [Except.map]

/-- The arguments of a command line that asks for a run are options, and a value for the source. -/
theorem classifyAll_commandLine (front back : List Choice) {source : String}
    (hSource : NamesSource source) :
    Arg.classifyAll (commandLine front source back) =
      .ok (front.flatMap Choice.classified ++ .value source :: back.flatMap Choice.classified) := by
  have hBack := classifyAll_flatMap_args back []
  rw [List.append_nil] at hBack
  rw [commandLine, classifyAll_flatMap_args,
    Arg.classifyAll_cons hSource.ne_dashes (Arg.classify_of_namesSource hSource), hBack]
  simp [Arg.classifyAll, Except.map]

namespace Options

theorem positive_numeral (s : Setting) (n : Numeral) : positive s n.text = .ok n.number := by
  have hPositive : ¬ (n.number : Int) ≤ 0 := by
    have hNumber := n.positive
    omega
  unfold positive
  rw [n.reads]
  simp only [if_neg hPositive, Int.toNat_natCast]

/-- A choice sets its option. -/
theorem readArgs_classified (c : Choice) {r : Reading} (hValueless : r.options.valueless = [])
    (rest : List Arg) :
    readArgs r (c.classified ++ rest) = readArgs { r with options := c.set r.options } rest := by
  have hGiven (s : Setting) (n : Numeral) {o : Options}
      (hGive : r.options.giveSetting s n.text = .ok o) (hSame : o.valueless = []) :
      readArgs r (.option (.setting s) none :: .value n.text :: rest) =
        readArgs { r with options := o } rest := by
    -- A value that is given makes up for one that was left out, and none was.
    have hNone : { o with valueless := o.valueless.filter (· != s) } = o := by
      rw [hSame, List.filter_nil, ← hSame]
    rw [readArgs, setSetting, if_neg n.namesSource.ne_dashes, hGive]
    change readArgs { r with options := { o with valueless := o.valueless.filter (· != s) } } rest = _
    rw [hNone]
  cases c with
  | threshold n =>
    refine hGiven .threshold n ?_ hValueless
    rw [giveSetting, positive_numeral]
    rfl
  | batch n =>
    refine hGiven .batch n ?_ hValueless
    rw [giveSetting, positive_numeral]
    rfl
  | maxSteps n =>
    refine hGiven .maxSteps n ?_ hValueless
    rw [giveSetting, positive_numeral]
    rfl
  | _ => rfl

theorem readArgs_flatMap_classified (choices : List Choice) {r : Reading}
    (hForRun : r.options.ForRun) (rest : List Arg) :
    readArgs r (choices.flatMap Choice.classified ++ rest) =
      readArgs { r with options := choices.foldl Choice.set r.options } rest := by
  induction choices generalizing r with
  | nil => rfl
  | cons c choices ih =>
    rw [List.flatMap_cons, List.append_assoc, readArgs_classified c hForRun.valueless]
    exact ih (r := { r with options := c.set r.options }) (hForRun.set c)

/-- In front of options, a value takes the place of the source. -/
theorem readArgs_source (source : String) {r : Reading} (hPlace : r.sourceRead = false)
    (back : List Choice) :
    readArgs r (.value source :: back.flatMap Choice.classified) =
      readArgs (r.takeSource source) (back.flatMap Choice.classified) := by
  -- What follows is an option or nothing, so that no dashes belong to the source.
  cases back with
  | nil => simp [readArgs, hPlace]
  | cons c back =>
    rw [List.flatMap_cons]
    cases c <;> simp [Choice.classified, readArgs, hPlace]

theorem foldl_set_source (choices : List Choice) (o : Options) (source : Option String) :
    choices.foldl Choice.set { o with source } = { choices.foldl Choice.set o with source } := by
  induction choices generalizing o with
  | nil => rfl
  | cons c choices ih =>
    rw [List.foldl_cons, List.foldl_cons, ← ih]
    cases c <;> rfl

/-- **Command lines that ask for a run** are read as what is chosen, for the source that is named. -/
theorem read_commandLine (front back : List Choice) {source : String} (hSource : NamesSource source) :
    Options.read (commandLine front source back) = .ok (requested front source back) := by
  -- The choices behind the source are read with the source in its place.
  have hBack := readArgs_flatMap_classified back
    (r := { options := { choose front with source := some source }, sourceRead := true })
    ((forRun_choose front).named source) []
  rw [List.append_nil, foldl_set_source] at hBack
  rw [requested, choose, List.foldl_append, Options.read, classifyAll_commandLine front back hSource]
  dsimp only
  rw [readArgs_flatMap_classified front (forRun_choose []), readArgs_source source rfl]
  change (readArgs { options := { choose front with source := some source }, sourceRead := true } _ >>=
    _) = _
  rw [hBack]
  rfl

end Options

end TapeMachine
