import Reckoner.Proofs.Command.Agreement
import Reckoner.Proofs.Eval.ErrorOrder
import Reckoner.Proofs.Tree.Records

/-!
# Dumps of trees

A job that shows the trees of a program writes a list of records. That text is a JSON document
exactly if every number of the program is finite, and then its only value is the list of the trees
as JSON. With a word for infinity added to the numbers it is a document in any case; hence two such
texts are equal only if the trees are the same.
-/

namespace Reckoner

/-! ## The trees of programs -/

namespace Tree

def LiteralMarks (marks : List Mark) : Prop :=
  ∀ x pos, ⟨.number, some (.number x), some pos⟩ ∈ marks → Number.IsLiteral x

theorem LiteralMarks.subset {ms ns : List Mark} (h : LiteralMarks ns) (hsub : ∀ m ∈ ms, m ∈ ns) :
    LiteralMarks ms :=
  fun x pos hm => h x pos (hsub _ hm)

theorem Tiered.isPlain {t : Tree} (h : t.Tiered) (hmarks : LiteralMarks t.marks) : t.IsPlain := by
  induction h with
  | number pos x => exact .intro (hmarks x pos (by simp [marks])) (by simp [children])
  | name pos id => exact .intro trivial (by simp [children])
  | group pos _ ih =>
      have hinner := ih (hmarks.subset (by simp +contextual [marks]))
      exact .intro trivial (by simpa [children] using hinner)
  | factorial pos _ _ ih =>
      have hoperand := ih (hmarks.subset (by simp +contextual [marks]))
      exact .intro trivial (by simpa [children] using hoperand)
  | binary pos _ _ _ _ ihl ihr =>
      have hleft := ihl (hmarks.subset (by simp +contextual [marks]))
      have hright := ihr (hmarks.subset (by simp +contextual [marks]))
      exact .intro trivial (by simpa [children] using ⟨hleft, hright⟩)

theorem IsStatement.isPlain {t : Tree} (h : t.IsStatement) (hmarks : LiteralMarks t.marks) :
    t.IsPlain := by
  cases t with
  | bare pos body => exact .intro trivial (by simpa [children] using h.1.isPlain hmarks)
  | assign pos id body =>
      have hbody := Tiered.isPlain h (hmarks.subset (by simp +contextual [marks]))
      exact .intro trivial (by simpa [children] using hbody)
  | print pos body =>
      have hbody := Tiered.isPlain h (hmarks.subset (by simp +contextual [marks]))
      exact .intro trivial (by simpa [children] using hbody)
  | _ => cases h

end Tree

theorem Numeral.isLiteral {l : List Char} {x : Float} (h : Numeral l x) : Number.IsLiteral x := by
  cases h with
  | whole _ _ => exact Number.isLiteral_nearest _ _
  | point _ _ _ _ => exact Number.isLiteral_nearest _ _

theorem Token.eq_of_mark_number {tok : Token} {value : Value} {pos : Position}
    (h : tok.mark = ⟨.number, some value, some pos⟩) :
    tok.kind = .number ∧ tok.value = value ∧ tok.pos = pos := by
  have hkind : tok.kind = .number := congrArg Mark.kind h
  simpa [mark, hkind] using h

theorem Lexeme.isLiteral {l rest : List Char} {kind : Token.Kind} {x : Float}
    (h : Lexeme l rest kind (.number x)) : Number.IsLiteral x := by
  generalize hvalue : Value.number x = value at h
  cases h with
  | punctuation _ _ => cases hvalue
  | number hx _ =>
      cases hvalue
      exact hx.isLiteral
  | word _ _ _ => cases hvalue

theorem isPlain_of_parseSource {source : String} {statements : List Tree}
    (h : (parseSource source).1 = .ok statements) : ∀ t ∈ statements, t.IsPlain := by
  obtain ⟨-, hall, hlayout⟩ := layout_of_parseSource h
  intro t ht
  apply (hall t ht).isPlain
  intro x pos hmark
  have hmem : ⟨.number, some (.number x), some pos⟩ ∈ statements.flatMap Tree.marks :=
    List.mem_flatMap.mpr ⟨t, ht, hmark⟩
  rw [← hlayout.marks_filter hall, List.mem_map] at hmem
  obtain ⟨tok, htok, hmark'⟩ := hmem
  obtain ⟨hkind, hvalue, -⟩ := Token.eq_of_mark_number hmark'
  obtain ⟨-, l, rest, -, hlexeme, -⟩ :=
    exists_lexeme_of_mem_tokens source tok (List.mem_of_mem_filter htok)
  rw [hkind, hvalue] at hlexeme
  exact hlexeme.isLiteral

/-! ## Numbers as programs -/

/-- A number alone is one token. -/
theorem tokenize_numeral {l : List Char} {x : Float} (h : Numeral l x) :
    (tokenize (String.ofList l)).tokens = [⟨.number, .number x, ⟨1, 1⟩, l.length⟩] ∧
      (tokenize (String.ofList l)).error? = none := by
  have hlexeme : Lexeme l [] .number (.number x) := .number h (by simp [EndsNumber])
  have hcut : Cut ⟨1, 1⟩ ([] ++ (l ++ [])) [⟨.number, .number x, ⟨1, 1⟩, l.length⟩] _ [] :=
    .next (.nil _) hlexeme (.stop (.nil _) halts_nil)
  have hscans : Scans ⟨1, 1⟩ (String.ofList l).toList
      [⟨.number, .number x, ⟨1, 1⟩, l.length⟩] none := by
    rw [List.nil_append, List.append_nil] at hcut
    rw [String.toList_ofList]
    exact ⟨_, hcut⟩
  exact (scans_tokenize _).unique hscans

/-- A number alone is a program. -/
theorem parseSource_numeral {l : List Char} {x : Float} (h : Numeral l x) :
    (parseSource (String.ofList l)).1 = .ok [.bare ⟨1, 1⟩ (.number ⟨1, 1⟩ x)] := by
  obtain ⟨htokens, herror⟩ := tokenize_numeral h
  refine (parseSource_eq_ok_iff ?_).2 ⟨herror, ?_, ?_⟩
  · rw [htokens]
    exact Nat.zero_le _
  · simp [Tree.IsStatement, Tree.Tiered.number, Tree.pos]
  · rw [htokens]
    exact .last rfl

/-! ## Dumps -/

namespace Command

/-- The job of showing the trees of a program that is given literally. -/
def Job.dump (source : String) : Job :=
  ⟨source, true, false, true, false⟩

section Dump

variable {source : String} {statements : List Tree} {text : String}

theorem run_dump_of_records (read : FileReader) (hparse : (parseSource source).1 = .ok statements)
    (htext : Tree.records? statements = some text) :
    ((Job.dump source).run read).outcome = .ok none ∧
      Output.standardText ((Job.dump source).run read).outputs = text ++ "\n" := by
  have hpair : parseSource source = (.ok statements, (parseSource source).2) :=
    Prod.ext hparse rfl
  let events := (parseSource source).2.toList ++ [Event.counted .command statements.length]
  have hresult : (Job.dump source).run read = ⟨events.map .record ++ [.line text], .ok none⟩ := by
    rw [Job.dump, Job.run, Job.text, if_pos rfl]
    simp only [Job.runText]
    rw [if_neg Bool.false_ne_true, hpair]
    simp [Job.showTrees, Job.headings, htext, events]
  rw [hresult]
  refine ⟨rfl, ?_⟩
  rw [Output.standardText_append, standardText_map_record, Output.line, Output.standardText_text,
    String.empty_append]
  exact String.append_empty

theorem exists_records_of_dump {read : FileReader}
    (h : ((Job.dump source).run read).outcome = .ok none) :
    ∃ statements text, (parseSource source).1 = .ok statements ∧
      Tree.records? statements = some text := by
  rw [Job.dump, Job.run, Job.text, if_pos rfl] at h
  simp only [Job.runText] at h
  rw [if_neg Bool.false_ne_true] at h
  rcases hparse : parseSource source with ⟨failure | statements, trail⟩
  · rw [hparse] at h
    cases h
  · rw [hparse] at h
    cases htext : Tree.records? statements with
    | none => simp [Job.showTrees, htext] at h
    | some text => exact ⟨statements, text, rfl, htext⟩

theorem records?_eq_some (h : ∀ t ∈ statements, t.height ≤ Tree.recordHeight) :
    ∃ text, Tree.records? statements = some text := by
  refine ⟨_, if_pos ?_⟩
  simpa using h

/-- The dump of a program is a document with numbers or infinity. -/
theorem document_dump (hparse : (parseSource source).1 = .ok statements)
    (htext : Tree.records? statements = some text) :
    Json.Document Json.ReadsOrInfinity (text ++ "\n").toList
      (.list (statements.map (Tree.json Number.finite?))) := by
  have hplain := isPlain_of_parseSource hparse
  refine Tree.document_records htext (fun n => .number (Json.reads_integer n)) ?_
  intro t ht x hx
  exact ((hplain t ht).isLiteral x hx).readsOrInfinity_recordNumber

/-- The dump of a program with a number that is not finite is no document. -/
theorem not_document_dump (hparse : (parseSource source).1 = .ok statements)
    (htext : Tree.records? statements = some text) {t : Tree} (ht : t ∈ statements) {x : Float}
    (hx : x ∈ t.numbers) (hfinite : ¬ Number.IsFinite x) (v : Json (ℤ ⊕ Float)) :
    ¬ Json.Document Json.Numeral.Reads (text ++ "\n").toList v := by
  intro hdocument
  have hspelled : Json.Spelled Json.ReadsOrInfinity (v.tokens.map (Json.Token.map some))
      (text ++ "\n").toList :=
    Json.Spelled.map (fun _ _ => .number) hdocument
  have htokens := hspelled.unique Json.lexical_readsOrInfinity (document_dump hparse htext)
    ((Json.apart_tokens v).map some) (Json.apart_tokens _) rfl
  -- The infinite number is the word for infinity, which is no number of the document.
  have hnone : Number.finite? (.inr x) = none :=
    if_pos (((isPlain_of_parseSource hparse t ht).isLiteral x hx).eq_infinite hfinite)
  have hmem : .number none ∈ v.tokens.map (Json.Token.map some) := by
    rw [htokens, Json.tokens, ← hnone]
    exact List.mem_cons_of_mem _ (Json.mem_itemTokens (List.mem_map_of_mem ht)
      (Tree.number_mem_tokens_json Number.finite? hx))
  obtain ⟨token, -, htoken⟩ := List.mem_map.1 hmem
  cases token <;> cases htoken

end Dump

/-- The dump of a program whose trees are not too high is a JSON document exactly if all numbers in
the program are finite, and then its one value is the list of the trees as JSON. -/
theorem dump_document_iff (source : String) (read : FileReader) {statements : List Tree}
    (hparse : (parseSource source).1 = .ok statements)
    (hheight : ∀ t ∈ statements, t.height ≤ Tree.recordHeight) :
    let result := (Job.dump source).run read
    let shown := (Output.standardText result.outputs).toList
    result.outcome = .ok none ∧
    ((∃ v, Json.Document Json.Numeral.Reads shown v) ↔
      ∀ t ∈ statements, ∀ x ∈ t.numbers, Number.IsFinite x) ∧
    ∀ v, Json.Document Json.Numeral.Reads shown v → v = .list (statements.map (Tree.json id)) := by
  intro result shown
  obtain ⟨text, htext⟩ := records?_eq_some hheight
  obtain ⟨houtcome, hshown⟩ := run_dump_of_records read hparse htext
  have hplain := isPlain_of_parseSource hparse
  have hdocument (hfinite : ∀ t ∈ statements, ∀ x ∈ t.numbers, Number.IsFinite x) :
      Json.Document Json.Numeral.Reads shown (.list (statements.map (Tree.json id))) := by
    simp only [shown, result, hshown]
    exact Tree.document_records htext Json.reads_integer fun t ht x hx =>
      ((hplain t ht).isLiteral x hx).reads_recordNumber (hfinite t ht x hx)
  have hfinite (v : Json (ℤ ⊕ Float)) (hv : Json.Document Json.Numeral.Reads shown v) :
      ∀ t ∈ statements, ∀ x ∈ t.numbers, Number.IsFinite x := by
    intro t ht x hx
    by_contra hnot
    simp only [shown, result, hshown] at hv
    exact not_document_dump hparse htext ht hx hnot v hv
  refine ⟨houtcome, ⟨fun ⟨v, hv⟩ => hfinite v hv, fun h => ⟨_, hdocument h⟩⟩, fun v hv => ?_⟩
  exact hv.unique Json.lexical_reads (hdocument (hfinite v hv))

/-- The dump of a program with a letter beyond the first plane and a tenth is a document. -/
theorem dump_document_iff_italic :
    ∃ statements, (parseSource "𝑥 = 0.1; print 𝑥 ^ 2").1 = .ok statements ∧
      Json.Document Json.Numeral.Reads
        (Output.standardText
          ((Job.dump "𝑥 = 0.1; print 𝑥 ^ 2").run fun _ => .error .missing).outputs).toList
        (.list (statements.map (Tree.json id))) := by
  have hcheck : (parseSource "𝑥 = 0.1; print 𝑥 ^ 2").1.map (fun statements =>
      statements.all fun t => t.height ≤ Tree.recordHeight ∧ ∀ x ∈ t.numbers, Number.IsFinite x) =
      .ok true := by
    decide +kernel
  cases hparse : (parseSource "𝑥 = 0.1; print 𝑥 ^ 2").1 with
  | error failure => simp [hparse, Except.map] at hcheck
  | ok statements =>
      rw [hparse] at hcheck
      have hall : ∀ t ∈ statements,
          t.height ≤ Tree.recordHeight ∧ ∀ x ∈ t.numbers, Number.IsFinite x := by
        simpa using Except.ok.inj hcheck
      obtain ⟨-, hiff, hvalue⟩ := dump_document_iff "𝑥 = 0.1; print 𝑥 ^ 2"
        (fun _ => .error .missing) hparse fun t ht => (hall t ht).1
      obtain ⟨v, hv⟩ := hiff.2 fun t ht => (hall t ht).2
      exact ⟨statements, rfl, hvalue v hv ▸ hv⟩

/-- A one with 309 zeros is greater than every double, so that its dump is no document. -/
theorem dump_of_overflow_no_document :
    let source := String.ofList ('1' :: List.replicate 309 '0')
    (∃ statements, (parseSource source).1 = .ok statements ∧
      ∀ t ∈ statements, t.height ≤ Tree.recordHeight) ∧
    ∀ read v, ¬ Json.Document Json.Numeral.Reads
      (Output.standardText ((Job.dump source).run read).outputs).toList v := by
  intro source
  let values := 1 :: List.replicate 309 0
  have hdigits : Digits ('1' :: List.replicate 309 '0') values :=
    digits_iff_mapM.2 (by decide +kernel)
  let x := Number.nearest (Number.ofDigits values) 1
  have hparse : (parseSource source).1 = .ok [.bare ⟨1, 1⟩ (.number ⟨1, 1⟩ x)] :=
    parseSource_numeral (.whole (List.cons_ne_nil _ _) hdigits)
  have hheight : ∀ t ∈ [Tree.bare ⟨1, 1⟩ (.number ⟨1, 1⟩ x)], t.height ≤ Tree.recordHeight := by
    simp [Tree.height, Tree.fold, Tree.recordHeight]
  have hmem : x ∈ (Tree.bare ⟨1, 1⟩ (.number ⟨1, 1⟩ x)).numbers := by
    simp [Tree.numbers, Tree.fold, Tree.value]
  have hinfinite : ¬ Number.IsFinite x := by decide +kernel
  obtain ⟨text, htext⟩ := records?_eq_some hheight
  refine ⟨⟨_, hparse, hheight⟩, fun read v => ?_⟩
  rw [(run_dump_of_records read hparse htext).2]
  exact not_document_dump hparse htext List.mem_cons_self hmem hinfinite v

/-- Two dumps are the same text exactly if the trees are the same. -/
theorem dump_eq_iff_same (source source' : String) (read read' : FileReader)
    (h : ((Job.dump source).run read).outcome = .ok none)
    (h' : ((Job.dump source').run read').outcome = .ok none) :
    ∃ statements statements', (parseSource source).1 = .ok statements ∧
      (parseSource source').1 = .ok statements' ∧
      (Output.standardText ((Job.dump source).run read).outputs =
          Output.standardText ((Job.dump source').run read').outputs ↔
        Tree.sameAll statements statements' = true) := by
  obtain ⟨statements, text, hparse, htext⟩ := exists_records_of_dump h
  obtain ⟨statements', text', hparse', htext'⟩ := exists_records_of_dump h'
  have hplain := isPlain_of_parseSource hparse
  have hplain' := isPlain_of_parseSource hparse'
  refine ⟨statements, statements', hparse, hparse', ?_⟩
  rw [(run_dump_of_records read hparse htext).2,
    (run_dump_of_records read' hparse' htext').2, Tree.sameAll_iff]
  constructor
  · -- A number may be infinite, so that the texts are read as documents with infinity.
    intro heq
    have hdocument := document_dump hparse htext
    rw [heq] at hdocument
    have hlist := hdocument.unique Json.lexical_readsOrInfinity (document_dump hparse' htext')
    exact Tree.forall₂_imp_of_mem (Tree.forall₂_map_eq_iff.2 (Json.list.inj hlist))
      fun t ht u hu => (hplain t ht).same_of_json_eq (hplain' u hu)
  · intro hsame
    have hrecords := Tree.forall₂_map_eq_iff.1 (Tree.forall₂_imp_of_mem hsame
      fun t ht u hu h => (hplain t ht).record_eq_of_same (hplain' u hu) h Tree.indentStep)
    rw [Tree.eq_recordList_of_records? htext, Tree.eq_recordList_of_records? htext', hrecords]

/-- Two dumps are the same if only the spelling of a number differs, and not if a name differs. -/
theorem dump_eq_iff_same_italic :
    let read : FileReader := fun _ => .error .missing
    let shown source := Output.standardText ((Job.dump source).run read).outputs
    shown "𝑥 = 0.1" = shown "𝑥 = 0.10" ∧ shown "𝑥 = 0.1" ≠ shown "x = 0.1" := by
  intro read shown
  have hlow : ∀ source ∈ ["𝑥 = 0.1", "𝑥 = 0.10", "x = 0.1"], (parseSource source).1.map
      (fun statements => statements.all fun t => t.height ≤ Tree.recordHeight) = .ok true := by
    decide +kernel
  have houtcome : ∀ source ∈ ["𝑥 = 0.1", "𝑥 = 0.10", "x = 0.1"],
      ((Job.dump source).run read).outcome = .ok none := by
    intro source hsource
    specialize hlow source hsource
    cases hparse : (parseSource source).1 with
    | error failure => simp [hparse, Except.map] at hlow
    | ok statements =>
        rw [hparse] at hlow
        obtain ⟨text, htext⟩ := records?_eq_some (by simpa using Except.ok.inj hlow)
        exact (run_dump_of_records read hparse htext).1
  have hspelling : (parseSource "𝑥 = 0.1").1.bind (fun statements =>
      (parseSource "𝑥 = 0.10").1.map (Tree.sameAll statements)) = .ok true := by
    decide +kernel
  have hname : (parseSource "𝑥 = 0.1").1.bind (fun statements =>
      (parseSource "x = 0.1").1.map (Tree.sameAll statements)) = .ok false := by
    decide +kernel
  constructor
  · obtain ⟨statements, others, hparse, hparse', hiff⟩ := dump_eq_iff_same "𝑥 = 0.1" "𝑥 = 0.10"
      read read (houtcome _ (by simp)) (houtcome _ (by simp))
    rw [hparse, hparse'] at hspelling
    exact hiff.2 (Except.ok.inj hspelling)
  · obtain ⟨statements, others, hparse, hparse', hiff⟩ := dump_eq_iff_same "𝑥 = 0.1" "x = 0.1"
      read read (houtcome _ (by simp)) (houtcome _ (by simp))
    rw [hparse, hparse'] at hname
    intro heq
    exact absurd (hiff.1 heq) (ne_true_of_eq_false (Except.ok.inj hname))

end Command

end Reckoner
