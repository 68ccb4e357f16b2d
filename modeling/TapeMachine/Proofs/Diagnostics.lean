import TapeMachine.Proofs.DocumentedFaults
import TapeMachine.Proofs.Excerpts

/-!
# Diagnostics Underline What They Are About

Every error and every warning of a build has a place in the program, and a report on the program
shows it with the line on which the place begins. Marked there is the movement, the name or the
declaration that is complained about. What goes on behind its line is marked up to the end of the
line, and so is all behind the place of an error of the language.

* `underlines_of_readWords`: errors of the language;
* `Record.Marked` and `Complaint.Marks` say what is marked for a declaration, and for a complaint
  about it;
* `Record.Offends.marks` and `marked_of_overwrite`: complaints about declarations, and warnings;
* `build_underlines_diagnostics` puts these together.
-/

namespace TapeMachine

open Layout

/-! ## §1 Errors of the Language -/

/-- For an error that is placed behind a front, the line is marked from there on. -/
theorem underlines_of_error (q : Place) (found : Unexpected) (lines : List String)
    (front : List Char) {rest more : List Char} {c : Char} (hRest : rest = c :: more)
    (hFeed : c ≠ '\n') :
    ∃ before shown, ((q.error found (positionAfter front)).position lines).Underlines
      (front ++ rest) before shown [] := by
  have hLine : 1 ≤ (positionAfter front).line := Nat.succ_pos _
  rw [q.position_error found hLine]
  obtain ⟨before, hUnderlines⟩ := Span.underlines_line front
    (s := .point (positionAfter front).line (positionAfter front).col) rfl rfl (fun _ => rfl) hRest
    hFeed
  exact ⟨before, _, hUnderlines⟩

/-- For an error of the language, its line is marked from its place on. -/
theorem underlines_of_readWords {source : List Char} {e : GrammarError}
    (hRead : readWords source = .error e) (lines : List String) :
    ∃ before shown, (e.position lines).Underlines source before shown [] := by
  obtain ⟨l, rest, q, rfl, hValid, hFollow, hStuck, hWithin, rfl⟩ := front_of_readFrom_error hRead
  cases rest with
  | nil =>
    -- The text ends too early, and the place is that of its last word.
    obtain ⟨-, word, before, -, hSpelling, hText, -, hStart⟩ :=
      Layout.exists_last_word (validBefore_nil_iff.1 hValid) hFollow fun hEnd => hWithin ⟨hEnd, rfl⟩
    obtain ⟨c, more, hChars, hFeed⟩ := hSpelling.exists_first
    have hBegins : word.text ++ l.last = c :: (more ++ l.last) := by
      rw [hChars]
      rfl
    rw [if_pos rfl, hStart, List.append_nil, hText]
    exact underlines_of_error q _ lines _ hBegins hFeed
  | cons c more =>
    -- The character that cannot come is not white space, so it is on the line of its place.
    have hFeed : c ≠ '\n' := by
      rintro rfl
      exact separator?_eq_none_iff.1 hStuck.separator ['\n'] more rfl (.space (by decide))
    rw [if_neg (List.cons_ne_nil c more), Cursor.after_start]
    exact underlines_of_error q _ lines _ rfl hFeed

/-! ## §2 Declarations -/

/-- For a record, the text of its declaration is marked if it is on one line, and else the line on
which it begins is marked to its end. -/
def Record.Marked (r : Record) (source shown behind : List Char) : Prop :=
  ∃ front body rest, source = front ++ (body ++ rest) ∧ r.StandsFor front body rest ∧
    ('\n' ∉ body → shown = body) ∧ ('\n' ∈ body → behind = [])

/-- What is marked for a complaint about a record. -/
inductive Complaint.Marks (c : Complaint) (r : Record) (source : List Char) :
    List Char → List Char → Prop
  /-- An unknown movement. -/
  | movement {span : Option Span} {state value write movement next : Field} {behind : List Char} :
      c.code = "CE2002" → r = .rule span [state, value, write, movement, next] →
        movement.span = some c.position → Marks c r source movement.text.toList behind
  /-- The first name of a library that there is not. -/
  | library {span : Option Span} {front back : List Field} {name : Field} {behind : List Char} :
      c.code = "CE2003" → r = .composition span (front ++ name :: back) →
        (∀ other ∈ front, other.text ∈ Registry.builtin.names) →
          name.text ∉ Registry.builtin.names → name.span = some c.position →
            Marks c r source name.text.toList behind
  /-- A blank tape, or a declaration that is repeated. -/
  | declaration {shown behind : List Char} :
      c.code = "CE2001" ∨ c.code = "CE2004" → r.span = some c.position →
        r.Marked source shown behind → Marks c r source shown behind

section Records

variable {source : String} {p : Program} {r : Record}

/-- A record of a program is marked at its span. -/
theorem Record.exists_marked (hProgram : Program.ofSource source = .ok p) (hr : r ∈ p.records) :
    ∃ s before shown behind, r.span = some s ∧ s.Underlines source.toList before shown behind ∧
      r.Marked source.toList shown behind := by
  have hStand := Program.recordsStand_of_ofSource hProgram
  obtain ⟨front, body, rest, hText, hStands⟩ := hStand.exists_standsFor hr
  rw [List.nil_append] at hText
  obtain ⟨d, first, more, hGap, hBody, hValid, -⟩ := hStands.cut
  -- The text of the record begins with a word.
  obtain ⟨c, chars, hChars, hFeed⟩ := hValid.2.1.exists_first
  have hBegins : body = c :: (chars ++ textFrom [] more) := by
    rw [hBody, textFrom, hGap, hChars]
    rfl
  obtain ⟨before, shown, behind, hUnderlines, hOne, hMany⟩ :=
    Span.underlines_of_text front rest hBegins hFeed
  rw [← hText] at hUnderlines
  exact ⟨_, before, shown, behind, hStands.span, hUnderlines, front, body, rest, hText, hStands, hOne,
    hMany⟩

/-- A word that a record keeps is marked at its span. -/
theorem Record.exists_underlined_field (hProgram : Program.ofSource source = .ok p)
    (hr : r ∈ p.records) {f : Field} {s : Span} (hf : f ∈ r.fields) (hSpan : f.span = some s)
    (hText : f.text.toList ≠ []) :
    ∃ before behind, s.Underlines source.toList before f.text.toList behind := by
  have hStand := Program.recordsStand_of_ofSource hProgram
  obtain ⟨front, body, rest, hSource, hStands⟩ := hStand.exists_standsFor hr
  rw [List.nil_append] at hSource
  obtain ⟨-, t, -, hPlace, -, hShows⟩ := hStands.places_of_fields f hf
  obtain rfl : s = t := Option.some.inj (hSpan.symm.trans hPlace)
  rw [← hSource] at hShows
  exact Span.underlines_of_shows hShows hText

/-- **Complaints**: for an offending record, what it is complained about is marked. -/
theorem Record.Offends.marks (hProgram : Program.ofSource source = .ok p) (hr : r ∈ p.records)
    {earlier : List Record} {c : Complaint} (hOffends : r.Offends earlier c) :
    ∃ before shown behind, c.position.Underlines source.toList before shown behind ∧
      c.Marks r source.toList shown behind := by
  have hForm := Program.wellFormed_of_ofSource hProgram r hr
  obtain ⟨s, before, shown, behind, hSpan, hUnderlines, hMarked⟩ := Record.exists_marked hProgram hr
  cases hOffends with
  | repeated declares isFirst place firstPlace =>
    obtain rfl := Option.some.inj (hSpan.symm.trans place)
    exact ⟨before, shown, behind, hUnderlines, .declaration (.inr rfl) place hMarked⟩
  | blankTape fresh blank =>
    obtain rfl := Option.some.inj hSpan
    exact ⟨before, shown, behind, hUnderlines, .declaration (.inl rfl) rfl hMarked⟩
  | @unknownLibrary span front back name here fresh known unknown place =>
    have hMem : name ∈ front ++ name :: back := List.mem_append_right _ List.mem_cons_self
    obtain ⟨first, rest, hText, -⟩ := hForm.2 name hMem
    obtain ⟨before, behind, hName⟩ := Record.exists_underlined_field hProgram hr hMem place
      (by rw [hText]; exact List.cons_ne_nil first rest)
    exact ⟨before, _, behind, hName, .library rfl rfl known unknown place⟩
  | @unknownMovement span state value write movement next here unknown place =>
    obtain ⟨_, _, _, found, _, hFields, -, -, -, hSpelling, -⟩ := hForm
    have hFound : found = movement := by simp_all
    rw [hFound] at hSpelling
    obtain ⟨before, behind, hMovement⟩ := Record.exists_underlined_field hProgram hr
      (f := movement) (by simp [Record.fields]) place hSpelling.1
    exact ⟨before, _, behind, hMovement, .movement rfl rfl place⟩

/-- **Warnings**: a warning is about a rule of the program, which is marked. -/
theorem marked_of_overwrite (hProgram : Program.ofSource source = .ok p) {w : Overwrite}
    (hw : w ∈ overwritesIn p.records) :
    ∃ fields rule before shown behind, .rule (some w.position) fields ∈ p.records ∧
      Rule.ofFields fields = .ok rule ∧ rule.state = w.state ∧ rule.value = w.value ∧
      w.position.Underlines source.toList before shown behind ∧
      (Record.rule (some w.position) fields).Marked source.toList shown behind := by
  obtain ⟨i, -, hAt⟩ := List.mem_flatMap.1 hw
  unfold overwritesAt at hAt
  cases hRecord : p.records[i]? with
  | none => simp [hRecord] at hAt
  | some r =>
    have hr := List.mem_of_getElem? hRecord
    rw [hRecord, Option.map_some, Option.getD_some] at hAt
    obtain ⟨s, before, shown, behind, hSpan, hUnderlines, hMarked⟩ := Record.exists_marked hProgram hr
    cases r with
    | rule span fields =>
      obtain rfl : span = some s := hSpan
      cases hRule : Rule.ofFields fields with
      | error fault => simp [hRule] at hAt
      | ok rule =>
        simp only [Record.overwrites, hRule, List.mem_ite_nil_right, List.mem_singleton] at hAt
        obtain ⟨-, rfl⟩ := hAt
        exact ⟨fields, rule, before, shown, behind, hr, hRule, rfl, rfl, hUnderlines, hMarked⟩
    | description | tape | initialState | finalStates | composition | other =>
      simp at hAt

end Records

/-! ## §3 Reports on a Build -/

/-- A complaint that is not about a library is shown at its place. -/
theorem Report.addComplaint_of_documented {c : Complaint} (hDocumented : c.Documented) (r : Report) :
    r.addComplaint c = r.add ⟨.error, c.code, c.message, some c.position, some c.snippet⟩ := by
  unfold addComplaint
  rcases hDocumented with ⟨hOrigin, -⟩ | ⟨hOrigin, -⟩
  · rw [hOrigin]
  · rw [hOrigin]

/-- **Diagnostics**: for every error and every warning of a build, a report on the program shows the
line on which its place begins, and below it marks for the place. Marked are the unknown movement, the
unknown name, and the declaration that is blank or repeated or overwrites a rule; a declaration that
goes on behind its line is marked up to the end of the line. For an error of the language, all of the
line is marked from its place on. -/
theorem build_underlines_diagnostics {source : String} (hFeeds : Text.OnlyFeeds source.toList) :
    (∀ fault, build source = .error fault → ∃ c before shown behind, fault.complaint? = some c ∧
      c.position.Underlines source.toList before shown behind ∧
      (∀ filename,
        ((Report.on (some source) filename).addComplaint c).Shows before shown behind) ∧
      (c.origin = .language ∧ c.code = "CE1001" ∧ behind = [] ∨
        ∃ p earlier r later, Program.ofSource source = .ok p ∧ p.records = earlier ++ r :: later ∧
          r.Offends earlier c ∧ c.Marks r source.toList shown behind)) ∧
    (∀ built, build source = .ok built → ∀ w ∈ built.warnings,
      ∃ p fields rule before shown behind, Program.ofSource source = .ok p ∧
        .rule (some w.position) fields ∈ p.records ∧ Rule.ofFields fields = .ok rule ∧
        rule.state = w.state ∧ rule.value = w.value ∧
        w.position.Underlines source.toList before shown behind ∧
        (∀ filename, ((Report.on (some source) filename).addOverwrite w).Shows before shown behind) ∧
        (Record.rule (some w.position) fields).Marked source.toList shown behind) := by
  constructor
  · intro fault hFails
    rcases fault_of_build hFails with
      hRejected | ⟨p, earlier, r, later, c, hProgram, hSplit, hOffends, hComplaint⟩
    · obtain ⟨e, line, hRead, rfl⟩ := Program.readWords_of_ofSource_error hRejected
      obtain ⟨before, shown, hUnderlines⟩ := underlines_of_readWords hRead (Text.linesOf source)
      refine ⟨_, before, shown, [], complaint?_language e _ line, hUnderlines, fun filename => ?_,
        .inl ⟨rfl, rfl, rfl⟩⟩
      exact Report.shows_add hFeeds hUnderlines filename rfl
    · have hr : r ∈ p.records := hSplit ▸ List.mem_append_right _ List.mem_cons_self
      obtain ⟨before, shown, behind, hUnderlines, hMarks⟩ := hOffends.marks hProgram hr
      refine ⟨c, before, shown, behind, hComplaint, hUnderlines, fun filename => ?_,
        .inr ⟨p, earlier, r, later, hProgram, hSplit, hOffends, hMarks⟩⟩
      rw [Report.addComplaint_of_documented hOffends.documented]
      exact Report.shows_add hFeeds hUnderlines filename rfl
  · intro built hBuilt w hw
    obtain ⟨p, hProgram, hBuilt⟩ := bind_eq_ok_iff.1 hBuilt
    obtain ⟨-, -, rfl⟩ := buildRecords_eq_ok_iff.1 hBuilt
    obtain ⟨fields, rule, before, shown, behind, hr, hRule, hState, hValue, hUnderlines, hMarked⟩ :=
      marked_of_overwrite hProgram hw
    refine ⟨p, fields, rule, before, shown, behind, hProgram, hr, hRule, hState, hValue, hUnderlines,
      fun filename => ?_, hMarked⟩
    exact Report.shows_add hFeeds hUnderlines filename rfl

/-- A movement that there is not, in the second line of a program. -/
theorem build_underlines_diagnostics_of_movement :
    ∃ fault c before behind, build "\x7b1\x7d;\n(a,1,0,Go,b);" = .error fault ∧
      fault.complaint? = some c ∧ c.position = ⟨2, 8, some 2, some 10⟩ ∧
      c.position.Underlines "\x7b1\x7d;\n(a,1,0,Go,b);".toList before "Go".toList behind ∧
      ((Report.on (some "\x7b1\x7d;\n(a,1,0,Go,b);") "go.tm").addComplaint c).Shows before
        "Go".toList behind := by
  have hFault : build "\x7b1\x7d;\n(a,1,0,Go,b);" =
      .error (.unknownMovement (some ⟨2, 8, some 2, some 10⟩) "Go") := rfl
  have hEach : "\x7b1\x7d;\n(a,1,0,Go,b);".toList.all
      (fun c => !Text.isLineEnd c || c == '\n') = true := by decide
  have hFeeds : Text.OnlyFeeds "\x7b1\x7d;\n(a,1,0,Go,b);".toList := by
    intro c hc hEnd
    simpa [hEnd] using List.all_eq_true.1 hEach c hc
  obtain ⟨c, before, shown, behind, hComplaint, hUnderlines, hShows, hMarks⟩ :=
    (build_underlines_diagnostics hFeeds).1 _ hFault
  have hOrigin : c.origin = .declaration :=
    (congrArg Complaint.origin (Option.some.inj hComplaint)).symm
  have hCode : c.code = "CE2002" := (congrArg Complaint.code (Option.some.inj hComplaint)).symm
  have hSnippet : c.snippet = "Go" := (congrArg Complaint.snippet (Option.some.inj hComplaint)).symm
  have hPosition : c.position = ⟨2, 8, some 2, some 10⟩ :=
    (congrArg Complaint.position (Option.some.inj hComplaint)).symm
  -- The complaint is about a movement, and its text is that of the complaint.
  have hShown : shown = "Go".toList := by
    rcases hMarks with ⟨hLanguage, -⟩ | ⟨p, earlier, r, later, -, -, hOffends, hMarks⟩
    · rw [hOrigin] at hLanguage
      cases hLanguage
    · cases hMarks with
      | movement _ hRule _ =>
        subst hRule
        cases hOffends with
        | repeated declares => cases declares
        | unknownMovement unknown place => exact congrArg String.toList hSnippet
      | library hOther => simp [hCode] at hOther
      | declaration hOther => simp [hCode] at hOther
  subst hShown
  exact ⟨_, c, before, behind, hFault, hComplaint, hPosition, hUnderlines, hShows "go.tm"⟩

end TapeMachine
