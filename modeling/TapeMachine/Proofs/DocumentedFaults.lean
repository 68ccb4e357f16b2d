import TapeMachine.Proofs.FirstFault
import TapeMachine.Proofs.Language.GrammarErrors
import TapeMachine.Proofs.Language.Shapes
import TapeMachine.Proofs.Libraries.Validation

/-!
# Only Documented Faults

Whatever a text says, its build ends with a machine, with an error of the language or with an error
of a declaration. The faults that are breaches of what the reader of programs guarantees do not
occur, the built-in libraries are valid, and all that is said is worded from the catalog.

* `Fault.entry?` and `Fault.message?_of_complaint`: the entry that words a complaint;
* `Complaint.Documented`: the complaints that are documented for a build;
* `documented_of_build`: there are no others;
* `build_fails_as_documented` puts these together.
-/

namespace TapeMachine

/-! ## §1 Wordings -/

/-- The entry of the catalog that words a fault, and the values that it is filled in with. -/
def Fault.entry? : Fault → Option (String × Text.Template.Values)
  | .language error _ _ => some ("CE1001", [("detail", error.message)])
  | .repeated construct _ first =>
    some ("CE2004", [("construct", construct.text), ("prev_loc", placeText first)])
  | .blankTape .. => some ("CE2001", [])
  | .unknownLibrary _ name => some ("CE2003", [("name", name)])
  | .unknownMovement _ symbol => some ("CE2002", [("symbol", symbol)])
  | .library name flaw => some ("CE0001", [("name", name), ("reason", flaw.reason)])
  | .fieldCount count => some ("CE0002", [("got", toString count)])
  | .tree _ => none

/-- The values that the wording of a warning is filled in with. -/
def Overwrite.values (w : Overwrite) : Text.Template.Values :=
  [("state", w.state), ("value", bitText w.value)]

/-- Every fault that has an entry can be worded: the catalog has the entry, and there is a value for
each place in its template. -/
theorem Fault.message?_of_entry {fault : Fault} {code : String} {values : Text.Template.Values}
    (hEntry : fault.entry? = some (code, values)) :
    Catalog.standard.message? code values = .ok (Catalog.wording code values) := by
  cases fault with
  | tree => cases hEntry
  | _ =>
    obtain ⟨rfl, rfl⟩ := Prod.mk.inj (Option.some.inj hEntry)
    exact Catalog.message?_eq_wording rfl rfl

/-- What the reader is told of a fault is the wording of its entry. -/
theorem Fault.message?_of_complaint {fault : Fault} {c : Complaint}
    (hComplaint : fault.complaint? = some c) :
    ∃ values, fault.entry? = some (c.code, values) ∧
      Catalog.standard.message? c.code values = .ok c.message := by
  obtain ⟨values, hEntry, hMessage⟩ : ∃ values, fault.entry? = some (c.code, values) ∧
      c.message = Catalog.wording c.code values := by
    cases fault with
    | fieldCount | tree => cases hComplaint
    | _ =>
      obtain rfl := Option.some.inj hComplaint
      exact ⟨_, rfl, rfl⟩
  rw [hMessage]
  exact ⟨values, hEntry, Fault.message?_of_entry hEntry⟩

/-- A warning is the wording of its entry. -/
theorem Overwrite.message?_eq (w : Overwrite) :
    Catalog.standard.message? Overwrite.code w.values = .ok w.message :=
  Catalog.message?_eq_wording rfl rfl

/-! ## §2 Documented Complaints -/

/-- What is documented for the build of a text: that the text is not in the language, or that one of
its declarations is not valid. -/
def Complaint.Documented (c : Complaint) : Prop :=
  c.origin = .language ∧ c.code = "CE1001" ∨
    c.origin = .declaration ∧ c.code ∈ ["CE2001", "CE2002", "CE2003", "CE2004"]

/-- An offending record is complained about in one of the documented ways. -/
theorem Record.Offends.documented {before : List Record} {r : Record} {c : Complaint}
    (hOffends : r.Offends before c) : c.Documented := by
  cases hOffends with
  | _ => exact .inr ⟨rfl, by simp⟩

/-- **Documented**: a text that is not built has a documented complaint. -/
theorem documented_of_build {source : String} {fault : Fault} (hFails : build source = .error fault) :
    ∃ c, fault.complaint? = some c ∧ c.Documented := by
  rcases fault_of_build hFails with hRejected | ⟨p, before, r, after, c, -, -, hOffends, hComplaint⟩
  · obtain ⟨e, line, -, rfl⟩ := Program.readWords_of_ofSource_error hRejected
    exact ⟨_, complaint?_language e _ line, .inl ⟨rfl, rfl⟩⟩
  · exact ⟨c, hComplaint, hOffends.documented⟩

/-! ## §3 Builds -/

/-- **Documented faults**: a text is built, or its build ends with a documented complaint; what is
said in either case is worded from the catalog, in which nothing is missing. A wrong number of
fields, a tree that is not that of a program and a library that is not what it should be are never
the fault: the built-in libraries are valid, and all branches and records of a text have the words
that their kind asks for. -/
theorem build_fails_as_documented (source : String) :
    ((∃ built, build source = .ok built ∧ ∀ w ∈ built.warnings,
        Catalog.standard.message? Overwrite.code w.values = .ok w.message) ∨
      ∃ fault c values, build source = .error fault ∧ fault.complaint? = some c ∧ c.Documented ∧
        fault.entry? = some (c.code, values) ∧
        Catalog.standard.message? c.code values = .ok c.message) ∧
    (∀ fault, build source = .error fault →
      (∀ count, fault ≠ .fieldCount count) ∧ (∀ breach, fault ≠ .tree breach) ∧
        ∀ name flaw, fault ≠ .library name flaw) ∧
    Registry.builtin.validate = .ok () ∧
    (∀ tree, Tree.ofSource source = .ok tree →
      ∃ span nodes, tree = .branch "start" span nodes ∧ ∀ node ∈ nodes, node.WellFormed) ∧
    (∀ p, Program.ofSource source = .ok p → ∀ r ∈ p.records, r.WellFormed) := by
  refine ⟨?_, fun fault hFails => ?_, Registry.validate_builtin, fun tree hTree => ?_,
    fun p hProgram => Program.wellFormed_of_ofSource hProgram⟩
  · cases hBuild : build source with
    | ok built => exact .inl ⟨built, rfl, fun w _ => w.message?_eq⟩
    | error fault =>
      obtain ⟨c, hComplaint, hDocumented⟩ := documented_of_build hBuild
      obtain ⟨values, hEntry, hMessage⟩ := Fault.message?_of_complaint hComplaint
      exact .inr ⟨fault, c, values, rfl, hComplaint, hDocumented, hEntry, hMessage⟩
  · obtain ⟨c, hComplaint, hDocumented⟩ := documented_of_build hFails
    refine ⟨?_, ?_, ?_⟩
    · rintro count rfl
      cases hComplaint
    · rintro breach rfl
      cases hComplaint
    · -- A complaint about a library is of another origin.
      rintro name flaw rfl
      obtain rfl := Option.some.inj hComplaint
      rcases hDocumented with ⟨hOrigin, -⟩ | ⟨hOrigin, -⟩
      · cases hOrigin
      · cases hOrigin
  · obtain ⟨lexemes, hRead, rfl⟩ := Tree.exists_words_of_ofSource hTree
    exact Tree.wellFormed_ofWords hRead

set_option maxRecDepth 100000 in
/-- A blank tape behind a rule: the complaint is worded, and the rule has its five fields. -/
theorem build_fails_as_documented_on_blank_tape :
    ∃ fault c p, build "(q0,0,1,R,q1);\x7b00\x7d;" = .error fault ∧ fault.complaint? = some c ∧
      c.code = "CE2001" ∧ Catalog.standard.message? "CE2001" [] = .ok c.message ∧
      Program.ofSource "(q0,0,1,R,q1);\x7b00\x7d;" = .ok p ∧ p.records.length = 2 ∧
      ∀ r ∈ p.records, r.WellFormed := by
  have hFault : build "(q0,0,1,R,q1);\x7b00\x7d;" =
      .error (.blankTape (some ⟨1, 15, some 1, some 20⟩) "00") := rfl
  have hProgram : Program.ofSource "(q0,0,1,R,q1);\x7b00\x7d;" = .ok
      ⟨some ⟨1, 1, some 1, some 20⟩,
        [.rule (some ⟨1, 1, some 1, some 15⟩) [⟨"q0", some ⟨1, 2, some 1, some 4⟩⟩,
            ⟨"0", some ⟨1, 5, some 1, some 6⟩⟩, ⟨"1", some ⟨1, 7, some 1, some 8⟩⟩,
            ⟨"R", some ⟨1, 9, some 1, some 10⟩⟩, ⟨"q1", some ⟨1, 11, some 1, some 13⟩⟩],
          .tape (some ⟨1, 15, some 1, some 20⟩) [⟨"0", some ⟨1, 16, some 1, some 17⟩⟩,
            ⟨"0", some ⟨1, 17, some 1, some 18⟩⟩]]⟩ := rfl
  obtain ⟨hEnds, -, -, -, hForms⟩ := build_fails_as_documented "(q0,0,1,R,q1);\x7b00\x7d;"
  rcases hEnds with ⟨built, hBuilt, -⟩ | ⟨fault, c, values, hBuild, hComplaint, -, hEntry, hMessage⟩
  · rw [hFault] at hBuilt
    cases hBuilt
  · rw [hFault] at hBuild
    obtain rfl := Except.error.inj hBuild
    obtain ⟨hCode, hValues⟩ := Prod.mk.inj (Option.some.inj hEntry)
    rw [← hCode, ← hValues] at hMessage
    exact ⟨_, c, _, hFault, hComplaint, hCode.symm, hMessage, hProgram, rfl, hForms _ hProgram⟩

end TapeMachine
