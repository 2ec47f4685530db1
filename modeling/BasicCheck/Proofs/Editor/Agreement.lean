import BasicCheck.Proofs.Editor.Lookup
import BasicCheck.Proofs.Recast.Renumbered
import BasicCheck.Report

/-!
# What an editor shows is what a check reports

An editor gives every document a file number of its own, shows the findings of one analysis behind
those of the other, and counts lines from zero in words of 32 bits. A check reads file zero and
sorts what it finds. Both say the same (**`Workspace.mirrors_messages`**): a text is read as it is
in file zero, and none of the places that anything is said of is beyond the words of an editor.
-/

namespace BasicCheck

namespace Editor

/-! ## 1. Places -/

theorem Addressable.fits {source : String} (h : Addressable source) (n : Nat) :
    (Place.ofOffset source.toList n).Fits :=
  ⟨show 0 < 1 + _ by omega, (h n).1, (h n).2⟩

theorem Position.toPlace_ofPlace_of_fits {p : Place} (h : p.Fits) : (ofPlace p).toPlace = p :=
  toPlace_ofPlace h.1 (Nat.le_of_lt h.2.1) h.2.2

/-- The analysis that a message comes from, and the two places that it lies between: a message
    counts lines from zero, its places count them from one. -/
def Message.spot (m : Message) : Option String × Place × Place :=
  (m.code, m.range.start.toPlace, m.range.stop.toPlace)

theorem Message.spot_ofDiagnostic {d : Diagnostic} (h : d.span.Fits) :
    (ofDiagnostic d).spot = (none, d.span.start, d.span.stop) := by
  rw [spot, ofDiagnostic, Range.ofSpan, Position.toPlace_ofPlace_of_fits h.1,
    Position.toPlace_ofPlace_of_fits h.2]

theorem Message.spot_ofFinding {f : Finding} (h : f.span.Fits) :
    (ofFinding f).spot = (some f.code, f.span.start, f.span.stop) := by
  cases f <;>
    rw [spot, ofFinding, Range.ofSpan, Position.toPlace_ofPlace_of_fits h.1,
      Position.toPlace_ofPlace_of_fits h.2]

/-! ## 2. Levels -/

theorem Message.level_ofDiagnostic_eq_error {d : Diagnostic} :
    (ofDiagnostic d).level = .error ↔ d.isError = true := by
  show Level.ofSeverity d.severity = .error ↔ (d.severity == .error) = true
  cases d.severity <;> decide

theorem Message.level_ofFinding_ne_error (f : Finding) : (ofFinding f).level ≠ .error := by
  cases f <;> exact Level.noConfusion

/-- The messages of a procedure show an error exactly if it has one. -/
theorem forall_level_ne_error {p : Procedure} (options : CheckOptions) :
    (∀ m ∈ p.diagnostics.map Message.ofDiagnostic ++ (p.findings options).map .ofFinding,
      m.level ≠ .error) ↔ p.hasErrors = false := by
  simp only [List.mem_append, List.mem_map, Procedure.hasErrors, List.any_eq_false]
  constructor
  · intro h d hd herror
    exact h _ (Or.inl ⟨d, hd, rfl⟩) (Message.level_ofDiagnostic_eq_error.mpr herror)
  · rintro h m (⟨d, hd, rfl⟩ | ⟨f, -, rfl⟩)
    · exact fun herror => h d hd (Message.level_ofDiagnostic_eq_error.mp herror)
    · exact Message.level_ofFinding_ne_error f

/-! ## 3. Messages and reports -/

/-- Messages that show a report. -/
structure Mirrors (messages : List Message) (report : Report) : Prop where
  /-- The diagnostics come first, in the order of the report, with the same places, severities and
      texts. -/
  diagnostics :
    (messages.take report.diagnostics.length).map (fun m => (m.spot, m.level, m.text)) =
      report.diagnostics.map fun d =>
        ((none, d.span.start, d.span.stop), .ofSeverity d.severity, d.message)
  /-- The others are the findings of the report, in whatever order. -/
  findings :
    ((messages.drop report.diagnostics.length).map Message.spot).Perm
      (report.findings.map fun f => (some f.code, f.span.start, f.span.stop))
  success : report.success = true ↔ ∀ m ∈ messages, m.level ≠ .error

namespace Workspace

/-- **An editor and a check agree.** After every history, what an editor shows of a document is what
    a check of its text reports. -/
theorem mirrors_messages (events : List Event) (uri source file : String) (document : Document)
    (hget : (empty.run events).get? uri = some document)
    (hsource : document.procedure.source = source) (haddress : Addressable source) :
    Mirrors ((empty.run events).messages uri)
      (.ofProcedure file (.ofText source 0) .all) := by
  obtain ⟨text, number, htext⟩ := exists_ofText events hget
  have hsame : text = source := by
    rw [← hsource, htext]
    simp [Procedure.ofText, Procedure.ofTokens]
  subst hsame
  have hfits := haddress.fits
  have hdiagnostics := Procedure.diagnostics_ofText hfits number
  have hfindings := Procedure.findings_ofText hfits number .all
  have hmessages : (empty.run events).messages uri =
      (Procedure.ofText text number).diagnostics.map .ofDiagnostic ++
        ((Procedure.ofText text number).findings .all).map .ofFinding := by
    simp only [messages, hget, htext]
  -- the file of the source has no effect but on the spans, so the messages correspond one to one
  have hlength : (Procedure.ofText text 0).diagnostics.length =
      ((Procedure.ofText text number).diagnostics.map Message.ofDiagnostic).length := by
    rw [hdiagnostics, List.length_map, List.length_map]
  rw [hmessages]
  constructor
  case diagnostics =>
    show (List.take (Procedure.ofText text 0).diagnostics.length _).map _ =
      (Procedure.ofText text 0).diagnostics.map _
    rw [hlength, List.take_left, hdiagnostics, List.map_map, List.map_map]
    refine List.map_congr_left fun d hd => ?_
    have hspan := Procedure.fits_of_mem_diagnostics hfits number hd
    rw [Function.comp_apply, Function.comp_apply, Message.spot_ofDiagnostic hspan,
      Diagnostic.recast, Span.recast_of_fits hspan]
    rfl
  case findings =>
    refine List.Perm.trans ?_ ((Report.findings_ofProcedure_perm file _ .all).symm.map _)
    show (List.map _ (List.drop (Procedure.ofText text 0).diagnostics.length _)).Perm _
    rw [hlength, List.drop_left, hfindings, List.map_map, List.map_map]
    refine List.Perm.of_eq (List.map_congr_left fun f hf => ?_)
    have hspan := Procedure.fits_of_mem_findings hfits number hf
    rw [Function.comp_apply, Function.comp_apply, Message.spot_ofFinding hspan,
      Finding.code_recast, Finding.span_recast, Span.recast_of_fits hspan]
  case success =>
    rw [forall_level_ne_error, Report.success_ofProcedure, Bool.not_eq_true',
      (Procedure.recasts_ofText hfits number).hasErrors]

/-- A document that has been changed once, of which one statement is never reached and one variable
    may be unassigned. -/
theorem mirrors_messages_update :
    let source := "x = y\nreturn\nz = 1\n"
    let w := empty.run [.open "a" "x = 1\n" 1, .update "a" source 2]
    ((w.get? "a").map (·.procedure.source) = some source ∧ Addressable source) ∧
      Mirrors (w.messages "a") (.ofProcedure "a.bp" (.ofText source 0) .all) := by
  intro source w
  have hheld : (w.get? "a").map (·.procedure.source) = some source := by
    simp [w, run, apply, get?_updateDocument, get?_openDocument, Procedure.ofText,
      Procedure.ofTokens]
  have haddress : Addressable source := addressable_of_length_lt (by decide)
  obtain ⟨document, hget, hsource⟩ := Option.map_eq_some_iff.mp hheld
  exact ⟨⟨hheld, haddress⟩, mirrors_messages _ _ _ "a.bp" document hget hsource haddress⟩

end Workspace

end Editor

end BasicCheck
