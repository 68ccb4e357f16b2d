import TapeMachine.Proofs.Language.PrintedRules
import TapeMachine.Proofs.Numbers

/-!
# Tape Literals

A program writes its tape as a literal of digits. On the tape of the machine that is built, the margin
goes around the digits, and a first digit 0 is dropped; neither changes the numbers that the digits
show.

* `Tape.Decodes` relates a tape to the digits of the literal that it comes from;
* `Tape.decodes_literal`: the tape of a literal with its margin does so;
* `exists_buildRecords_of_literal`: whatever else builds, it builds with a literal that has a 1;
* `exists_program_of_literal`: a literal is a program by itself;
* `build_decodes_literals` puts these together.
-/

namespace TapeMachine

/-! ## §1 Tapes of Literals -/

/-- The cells of a literal. A first digit 0 is dropped. -/
def literalCells : List Bool → List Bool
  | false :: rest => rest
  | digits => digits

/-- The tape of a machine that was built with a literal: its cells with the head on the first of them,
three cells with 0 in front, and at the end the fewest that leave three on the right of the head. It
shows the numbers that the digits of the literal show. -/
structure Tape.Decodes (t : Tape) (digits : List Bool) : Prop where
  cells : ∃ back, t = ⟨blanks 3 ++ literalCells digits ++ blanks back, 3⟩ ∧
    ∀ k, 3 + 3 < (blanks 3 ++ literalCells digits ++ blanks k).length ↔ back ≤ k
  ones : t.ones = digits.count true
  values : ∃ runs, ListsRuns digits runs ∧ t.values = runs.map fun r => r.2 - 1

namespace Tape

variable (digits : List Bool)

/-- A literal has the runs of its digits. -/
theorem runsFrom_literalCells : runsFrom 0 (literalCells digits) = runsFrom 0 digits := by
  unfold literalCells
  split <;> rfl

theorem values_literal : (restoreMargin ⟨literalCells digits, 0⟩).values =
    (runsFrom 0 digits).map (· - 1) := by
  rw [values_restoreMargin, values, runs, runsFrom_literalCells]

/-- **The tape of a literal** shows the numbers of its digits. -/
theorem decodes_literal : (restoreMargin ⟨literalCells digits, 0⟩).Decodes digits where
  cells := by
    refine ⟨_, rfl, fun k => ?_⟩
    simp only [List.length_append, List.length_replicate, margin]
    omega
  ones := by
    have hRuns := sum_runsFrom 0 (literalCells digits)
    rw [runsFrom_literalCells, sum_runsFrom] at hRuns
    rw [ones_restoreMargin]
    exact (Nat.add_left_cancel hRuns).symm
  values := by
    obtain ⟨runs, hRuns, hLengths⟩ := exists_listsRuns 0 digits
    refine ⟨runs, hRuns, ?_⟩
    rw [values_literal, ← hLengths, List.map_map]
    rfl

end Tape

/-! ## §2 Programs with a Literal -/

/-- Digits of which one is 1 make a sound tape. -/
theorem sound_of_literal {span : Option Span} {bits : List Field} {digits : List Bool}
    (hDigits : bits.map Field.text = digits.map bitText) (hOne : true ∈ digits) :
    (Record.tape span bits).Sound := by
  have hShown : true ∈ bits.map fun b => b.text == "1" := map_beq_of_digits hDigits ▸ hOne
  obtain ⟨bit, hBit, hText⟩ := List.mem_map.1 hShown
  exact any_cellsOf_iff.2 ⟨bit, hBit, beq_iff_eq.1 hText⟩

/-- **Programs with a literal**: where everything else builds, a literal with a 1 can be put in
anywhere. -/
theorem exists_buildRecords_of_literal (front back : List Record) (span : Option Span)
    {bits : List Field} {digits : List Bool} {text : String} {rest : Built}
    (hRest : buildRecords (front ++ back) text = .ok rest)
    (hFirst : ∀ r ∈ front ++ back, r.construct? ≠ some .tape)
    (hDigits : bits.map Field.text = digits.map bitText) (hOne : true ∈ digits) (source : String) :
    ∃ built, buildRecords (front ++ .tape span bits :: back) source = .ok built ∧
      built.machine.tape = Tape.restoreMargin ⟨literalCells digits, 0⟩ := by
  obtain ⟨hSound, hOnce, -⟩ := buildRecords_eq_ok_iff.1 hRest
  have hPerm : (front ++ .tape span bits :: back).Perm (.tape span bits :: (front ++ back)) :=
    List.perm_middle
  have hNew : Construct.tape ∉ (front ++ back).filterMap Record.construct? := fun hMem => by
    obtain ⟨r, hr, hTape⟩ := List.mem_filterMap.1 hMem
    exact hFirst r hr hTape
  have hOnce' : ((.tape span bits :: (front ++ back)).filterMap Record.construct?).Nodup :=
    List.nodup_cons.2 ⟨hNew, hOnce⟩
  have hSound' : ∀ r ∈ front ++ .tape span bits :: back, r.Sound := by
    intro r hr
    rcases List.mem_cons.1 (hPerm.mem_iff.1 hr) with rfl | hr
    · exact sound_of_literal hDigits hOne
    · exact hSound r hr
  refine ⟨_, buildRecords_eq_ok_iff.2 ⟨hSound', (hPerm.filterMap _).nodup_iff.2 hOnce', rfl⟩, ?_⟩
  have hCells : (draftOf (front ++ .tape span bits :: back)).cells = literalCells digits := by
    rw [(draftOf_of_perm hPerm hOnce').1]
    show cellsOf bits = _
    rw [cellsOf, map_beq_of_digits hDigits]
    rfl
  exact congrArg (fun cells => Tape.restoreMargin ⟨cells, 0⟩) hCells

/-! ## §3 Literals as Programs -/

/-- A literal in print. -/
def literalText (digits : List Bool) : String :=
  "\x7b" ++ String.join (digits.map bitText) ++ "\x7d;"

/-- The pieces of a literal behind the opening brace. -/
def digitPieces (digits : List Bool) : List Piece :=
  digits.map (fun value => ⟨⟨.bit, (bitText value).toList⟩, []⟩) ++
    [⟨⟨.rightBrace, ['}']⟩, []⟩, ⟨⟨.semicolon, [';']⟩, []⟩]

theorem validFrom_digitPieces (digits : List Bool) : Layout.ValidFrom [] (digitPieces digits) := by
  induction digits with
  | nil => exact ⟨.nil _, rfl, fun _ _ => rfl, .nil _, rfl, fun _ _ => rfl, .nil _⟩
  | cons value digits ih => exact ⟨.nil _, spelling_bitText value, fun _ _ => rfl, ih⟩

theorem textFrom_digitPieces (digits : List Bool) :
    Layout.textFrom [] (digitPieces digits) =
      (String.join (digits.map bitText)).toList ++ ['}', ';'] := by
  induction digits with
  | nil => rfl
  | cons value digits ih =>
    show (bitText value).toList ++ Layout.textFrom [] (digitPieces digits) = _
    rw [ih]
    simp

/-- **A literal is a program** by itself. -/
theorem exists_program_of_literal {digits : List Bool} (hSome : digits ≠ []) :
    ∃ p span bits, Program.ofSource (literalText digits) = .ok p ∧ p.records = [.tape span bits] ∧
      bits.map Field.text = digits.map bitText := by
  obtain ⟨value, digits, rfl⟩ := List.exists_cons_of_ne_nil hSome
  have hDecomposes : Decomposes (literalText (value :: digits))
      ⟨⟨⟨.leftBrace, ['{']⟩, []⟩ :: digitPieces (value :: digits), []⟩
      [.tape (bitText value).toList (digits.map fun value => (bitText value).toList)] := by
    refine ⟨?_, ⟨.nil _, rfl, fun _ _ => rfl, validFrom_digitPieces _⟩, ?_⟩
    · show '{' :: Layout.textFrom [] (digitPieces (value :: digits)) = _
      rw [textFrom_digitPieces]
      simp [literalText]
    · simp [Layout.words, digitPieces, Declaration.words, closingWords]
  obtain ⟨p, hProgram, hRecords⟩ := hDecomposes.exists_program
  obtain ⟨record, hOnly, hRecord⟩ := List.map_eq_singleton_iff.1 hRecords
  cases record with
  | tape span bits =>
    refine ⟨p, span, bits, hProgram, hOnly, ?_⟩
    have hTexts := congrArg (List.map Field.text) (Record.tape.inj hRecord).2
    have hSame : Field.text ∘ Field.unplaced = Field.text := rfl
    rw [List.map_map, hSame] at hTexts
    simpa [Declaration.field, Function.comp_def] using hTexts
  | _ => cases hRecord

/-! ## §4 Decoding -/

/-- **Decoding**: a literal with a 1 can be put into any program without a tape that builds. The tape of
the machine that is then built has the cells of the literal without a first 0, with three cells with 0
in front and the fewest behind that leave three on the right of the head; the cells with 1 and the
maximal runs are those of the digits. So numbers that are written in a literal, with any cells with 0
around and further ones between them, are read back. By itself such a literal is a program, too. And
on any tape the margin changes neither the numbers nor the cells with 1, which are one more for each
number than it says. -/
theorem build_decodes_literals :
    (∀ (front back : List Record) (span : Option Span) (bits : List Field) (digits : List Bool)
        (text source : String) (rest : Built),
      buildRecords (front ++ back) text = .ok rest →
      (∀ r ∈ front ++ back, r.construct? ≠ some .tape) →
      bits.map Field.text = digits.map bitText → true ∈ digits →
        ∃ built, buildRecords (front ++ .tape span bits :: back) source = .ok built ∧
          (∀ p, Program.ofSource source = .ok p → p.records = front ++ .tape span bits :: back →
            build source = .ok built) ∧
          built.machine.tape.Decodes digits ∧
          ∀ i first more j, digits = Tape.numeralCells i first more j →
            built.machine.tape.values = first :: more.map Prod.snd) ∧
    (∀ digits : List Bool, true ∈ digits →
      ∃ built, build (literalText digits) = .ok built ∧ built.machine.tape.Decodes digits) ∧
    ∀ m : Machine, m.restoreMargin.tape.values = m.tape.values ∧
      m.restoreMargin.tape.ones = m.tape.ones ∧
      m.tape.ones = (m.tape.values.map (· + 1)).sum := by
  refine ⟨?_, fun digits hOne => ?_, fun m => ?_⟩
  · intro front back span bits digits text source rest hRest hFirst hDigits hOne
    obtain ⟨built, hBuilt, hTape⟩ :=
      exists_buildRecords_of_literal front back span hRest hFirst hDigits hOne source
    refine ⟨built, hBuilt, fun p hProgram hRecords => ?_, hTape ▸ Tape.decodes_literal digits, ?_⟩
    · rw [build, hProgram, ok_bind, hRecords, hBuilt]
    · rintro i first more j rfl
      rw [hTape, Tape.values_literal, Tape.runsFrom_numeralCells, List.map_cons, List.map_map]
      rfl
  · obtain ⟨p, span, bits, hProgram, hRecords, hDigits⟩ :=
      exists_program_of_literal (List.ne_nil_of_mem hOne)
    have hNothing : buildRecords ([] ++ []) "" = .ok ⟨Draft.machine {} "", []⟩ := rfl
    obtain ⟨built, hBuilt, hTape⟩ := exists_buildRecords_of_literal [] [] span hNothing (by simp)
      hDigits hOne (literalText digits)
    refine ⟨built, ?_, hTape ▸ Tape.decodes_literal digits⟩
    rw [build, hProgram, ok_bind, hRecords]
    exact hBuilt
  · exact ⟨m.tape.values_restoreMargin, m.tape.ones_restoreMargin, m.tape.ones_eq_sum⟩

/-- The numbers 1 and 0 with a 0 in front, two between them and one behind, in a program with a rule. -/
theorem build_decodes_literals_of_two_numbers :
    let rule : Record :=
      .rule none [⟨"a", none⟩, ⟨"1", none⟩, ⟨"0", none⟩, ⟨"R", none⟩, ⟨"a", none⟩]
    let bits : List Field := ["0", "1", "1", "0", "0", "1", "0"].map fun text => ⟨text, none⟩
    ∃ built, buildRecords [rule, .tape none bits] "" = .ok built ∧
      built.machine.tape.values = [1, 0] ∧ built.machine.tape.ones = 3 := by
  intro rule bits
  obtain ⟨hBuilds, -, hAny⟩ := build_decodes_literals
  have hRest : buildRecords ([rule] ++ []) "" =
      .ok ⟨(draftOf [rule]).machine "", overwritesIn [rule]⟩ := by
    refine buildRecords_eq_ok_iff.2 ⟨?_, by decide, rfl⟩
    simp [rule, Rule.ofFields, Movement.ofSymbol?]
  obtain ⟨built, hBuilt, -, hDecodes, hNumbers⟩ := hBuilds [rule] [] none bits
    [false, true, true, false, false, true, false] "" "" _ hRest (by simp [rule, Record.construct?])
    (by decide) (by decide)
  have hValues : built.machine.tape.values = [1, 0] := hNumbers 1 1 [(1, 0)] 1 (by decide)
  exact ⟨built, hBuilt, hValues, hDecodes.ones⟩

end TapeMachine
