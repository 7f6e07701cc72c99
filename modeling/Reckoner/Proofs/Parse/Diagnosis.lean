import Reckoner.Proofs.Parse.LiveText
import Reckoner.Proofs.Parse.Steady
import Reckoner.Proofs.Scan.Positions

/-!
# Texts that fail are reported

A reader can be led into failures that say nothing about a program: tokens built by hand may have
unusable values, a character may be asked for where none is, and the depth of nesting may be
exceeded in a statement that is not known. None of them arises from a text. Whatever the text,
parsing it gives statements or an error that has a wording and a position.
-/

namespace Reckoner

theorem ScanError.message_eq {e : ScanError} {d : Diagnostic} (h : e.diagnostic? = some d) :
    e.message = d.message := by
  have hmessage : (e.diagnostic?.map Diagnostic.message).getD "" = d.message := by
    rw [h, Option.map_some, Option.getD_some]
  cases e with
  | malformedNumber spelling pos => exact hmessage
  | unexpectedCharacter character pos => exact hmessage
  | _ => cases h

theorem ParseFailure.message_eq {f : ParseFailure} {d : Diagnostic} (h : f.diagnostic? = some d) :
    f.message = d.message := by
  cases f with
  | scan e => exact ScanError.message_eq h
  | parse e => exact congrArg Diagnostic.message (Option.some.inj h)
  | _ => cases h

/-- A text that does not parse has an error with a wording and a position. -/
theorem exists_diagnostic_of_parseSource {source : String} {f : ParseFailure}
    (h : (parseSource source).1 = .error f) : ∃ d, f.diagnostic? = some d := by
  have hprogram : Parse.program (Reader.ofSource source) =
      (.error f, (Parse.program (Reader.ofSource source)).2) :=
    Prod.ext h rfl
  cases (Parse.ensures_program (Reader.kind_ending_ofSource source)).of_error hprogram with
  | refused => exact ⟨_, rfl⟩
  | buried => exact ⟨_, rfl⟩
  | deep => exact absurd h (Parse.steady_program.ne_tooDeep (Reader.ofSource source))
  | broken htakes _ hbreaks =>
      have herror := htakes.error_eq.symm.trans hbreaks.error_eq
      obtain ⟨before, rest, -, hfault⟩ := exists_fault_of_error source herror
      obtain ⟨wording, hwording⟩ := hfault.exists_diagnostic
      exact ⟨_, hwording⟩
  | unusable hmem hkind hvalue =>
      have hlexical := Cursor.lexical_of_mem_tokens (Cursor.start source) _ hmem
      exact absurd hvalue (hlexical.usable hkind f)

end Reckoner
