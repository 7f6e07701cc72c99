import Reckoner.Proofs.Scan.Trimming
import Reckoner.Proofs.Text.Newlines

/-!
# Carriage returns before newlines

A carriage return is a blank, so in front of a newline it lengthens a gap or a comment and ends the
number or the word before it, as the newline itself would. A text in which carriage returns stand
nowhere else is cut like the text without them, and only the newlines after them stand in another
column.
-/

namespace Reckoner

open Text (isDigit normalizeNewlines)

/-! ## Gaps -/

section Gaps

variable {g rest : List Char}

theorem Gap.newline_not_mem (h : Gap g rest) : '\n' ∉ g := by
  induction h with
  | nil => simp
  | blank hspace _ ih =>
      rw [List.mem_cons, not_or]
      refine ⟨?_, ih⟩
      rintro rfl
      cases hspace
  | comment hbody _ _ ih => simp [hbody, ih]

/-- A carriage return in a gap is its last character, and a newline follows. -/
theorem Gap.return_cases (h : Gap g rest) (hpaired : Text.ReturnsPaired (g ++ rest)) :
    '\r' ∉ g ∨ ∃ g' more, g = g' ++ ['\r'] ∧ rest = '\n' :: more ∧ '\r' ∉ g' := by
  by_cases hmem : '\r' ∈ g
  · right
    obtain ⟨before, after, rfl, hbefore⟩ := List.eq_append_cons_of_mem hmem
    have htext : before ++ '\r' :: after ++ rest = before ++ '\r' :: (after ++ rest) := by simp
    rw [htext] at hpaired
    obtain ⟨more, hmore⟩ := List.head?_eq_some_iff.mp hpaired.of_append.head?
    cases after with
    | nil => exact ⟨before, more, rfl, hmore, hbefore⟩
    | cons c after =>
        obtain ⟨rfl, -⟩ := List.cons.inj hmore
        exact absurd (by simp) h.newline_not_mem
  · exact .inl hmem

/-- In front of a newline the last character of a gap can be left out. -/
theorem Gap.dropLast {c : Char} (h : Gap (g ++ [c]) rest) (hrest : rest.head? = some '\n') :
    Gap g rest := by
  generalize hlong : g ++ [c] = long at h
  induction h generalizing g with
  | nil => simp at hlong
  | @blank d tail rest hspace hgap ih =>
      cases g with
      | nil => exact .nil rest
      | cons d' g =>
          obtain ⟨rfl, htail⟩ := List.cons.inj hlong
          exact .blank hspace (ih hrest htail)
  | @comment body tail rest hbody hhead hgap ih =>
      have htail : tail = [] := by
        cases tail with
        | nil => rfl
        | cons d tail => exact absurd (hhead d rfl) (hgap.head_ne_newline d rfl)
      subst htail
      rw [List.append_nil] at hlong
      cases g with
      | nil => exact .nil rest
      | cons d g =>
          obtain ⟨rfl, rfl⟩ := List.cons.inj hlong
          have hshorter : '\n' ∉ g := fun hmem => hbody (List.mem_append_left _ hmem)
          simpa using Gap.comment hshorter hhead hgap

theorem Gap.normalize (h : Gap g rest) (hg : '\r' ∉ g) : Gap g (normalizeNewlines rest) := by
  induction h with
  | nil => exact .nil _
  | blank hspace _ ih => exact .blank hspace (ih fun hmem => hg (List.mem_cons_of_mem _ hmem))
  | @comment body g rest hbody hhead _ ih =>
      simp only [List.mem_cons, List.mem_append, not_or] at hg
      refine .comment hbody ?_ (ih hg.2.2)
      rw [← Text.normalizeNewlines_append hg.2.2]
      exact Text.forall_head?_normalizeNewlines hhead rfl

end Gaps

/-! ## Lexemes and faults -/

section Lexemes

variable {l rest : List Char} {c : Char}

theorem Spelling.mem_cases (h : Spelling l) (hc : c ∈ l) : isDigit c = true ∨ c = '.' := by
  cases h with
  | whole _ hds => exact .inl (hds c hc)
  | point _ _ hds hes =>
      rw [List.mem_append, List.mem_cons] at hc
      rcases hc with hc | hc | hc
      · exact .inl (hds c hc)
      · exact .inr hc
      · exact .inl (hes c hc)

theorem Spelling.return_not_mem (h : Spelling l) : '\r' ∉ l := by
  intro hmem
  rcases h.mem_cases hmem with hdigit | hpoint
  · rw [isDigit_of_isSign rfl] at hdigit
    cases hdigit
  · cases hpoint

theorem Lexeme.return_not_mem {kind : Token.Kind} {value : Value} (h : Lexeme l rest kind value) :
    '\r' ∉ l := by
  have hword : isWordAhead (some '\r') = false := isWordAhead_of_isSign rfl
  cases h with
  | punctuation _ hkind =>
      rw [List.mem_singleton]
      rintro rfl
      cases hkind
  | number hnumeral _ => exact hnumeral.spelling.return_not_mem
  | word hc hcs _ =>
      intro hmem
      rcases List.mem_cons.mp hmem with rfl | hmem
      · simp [isWordAhead_of_startsWord hc] at hword
      · simp [hcs _ hmem] at hword

theorem EndsNumber.normalize (h : EndsNumber rest) : EndsNumber (normalizeNewlines rest) :=
  Text.forall_head?_normalizeNewlines h ⟨isDigit_of_isSign rfl, by decide⟩

theorem Lexeme.normalize {kind : Token.Kind} {value : Value} (h : Lexeme l rest kind value) :
    Lexeme l (normalizeNewlines rest) kind value := by
  cases h with
  | punctuation _ hkind => exact .punctuation _ hkind
  | number hnumeral hrest => exact .number hnumeral hrest.normalize
  | word hc hcs hrest =>
      apply Lexeme.word hc hcs
      exact Text.forall_head?_normalizeNewlines hrest (isWordAhead_of_isSign rfl)

theorem return_not_mem_of_digits (h : ∀ d ∈ l, isDigit d = true) : '\r' ∉ l := by
  intro hmem
  have hdigit := h _ hmem
  rw [isDigit_of_isSign rfl] at hdigit
  cases hdigit

theorem Fault.normalize {p : Position} {text : List Char} {e : ScanError} (h : Fault p text e)
    (hstarts : StartsNoGap text) : Fault p (normalizeNewlines text) e := by
  cases h with
  | @character c rest hdigit hword hkind =>
      have hc : '\r' ∉ [c] := by
        rw [List.mem_singleton]
        rintro rfl
        cases (hstarts _ rfl).1
      rw [← List.singleton_append, Text.normalizeNewlines_append hc]
      exact .character _ hdigit hword hkind
  | lonePoint hne hds hrest =>
      rw [← List.singleton_append, ← List.append_assoc, Text.normalizeNewlines_append (by
        simp [return_not_mem_of_digits hds]), List.append_assoc]
      apply Fault.lonePoint hne hds
      exact Text.forall_head?_normalizeNewlines hrest (isDigit_of_isSign rfl)
  | @secondPoint ds es rest hne hne' hds hes =>
      have hsplit : ds ++ '.' :: (es ++ '.' :: rest) = ds ++ '.' :: (es ++ ['.']) ++ rest := by simp
      rw [hsplit, Text.normalizeNewlines_append (by
        simp [return_not_mem_of_digits hds, return_not_mem_of_digits hes])]
      simpa using Fault.secondPoint (normalizeNewlines rest) hne hne' hds hes
  | notDecimal hl hrest hnone =>
      rw [Text.normalizeNewlines_append hl.return_not_mem]
      exact .notDecimal hl hrest.normalize hnone

theorem Halts.normalize (h : Halts rest) : Halts (normalizeNewlines rest) := by
  have hstarts : StartsNoGap (normalizeNewlines rest) :=
    Text.forall_head?_normalizeNewlines h.1 ⟨rfl, by decide⟩
  rcases h.cases .unknown with rfl | ⟨e, he⟩
  · exact halts_nil
  · exact (he.normalize h.1).halts hstarts

end Lexemes

/-! ## Cuts -/

/-- Whether two tokens are the same, but for the column if they end a statement. -/
structure Token.SameBesidesBreak (t t' : Token) : Prop where
  kind_eq : t'.kind = t.kind
  value_eq : t'.value = t.value
  line_eq : t'.pos.line = t.pos.line
  length_eq : t'.length = t.length
  col_eq : t.kind ≠ .terminator → t'.pos.col = t.pos.col

theorem Token.SameBesidesBreak.refl (t : Token) : t.SameBesidesBreak t :=
  ⟨rfl, rfl, rfl, rfl, fun _ => rfl⟩

theorem Token.SameBesidesBreak.symm {t t' : Token} (h : t.SameBesidesBreak t') :
    t'.SameBesidesBreak t :=
  ⟨h.kind_eq.symm, h.value_eq.symm, h.line_eq.symm, h.length_eq.symm,
    fun hkind => (h.col_eq (h.kind_eq ▸ hkind)).symm⟩

theorem Token.SameBesidesBreak.eq {t t' : Token} (h : t.SameBesidesBreak t')
    (hkind : t.kind ≠ .terminator) : t' = t := by
  obtain ⟨kind, value, ⟨line, col⟩, length⟩ := t
  obtain ⟨kind', value', ⟨line', col'⟩, length'⟩ := t'
  obtain rfl : kind' = kind := h.kind_eq
  obtain rfl : value' = value := h.value_eq
  obtain rfl : line' = line := h.line_eq
  obtain rfl : length' = length := h.length_eq
  obtain rfl : col' = col := h.col_eq hkind
  rfl

theorem Cut.normalize {p q : Position} {text r : List Char} {ts : List Token}
    (h : Cut p text ts q r) (hpaired : Text.ReturnsPaired text) :
    ∃ ts', Cut p (normalizeNewlines text) ts' q (normalizeNewlines r) ∧
      List.Forall₂ Token.SameBesidesBreak ts ts' := by
  induction h with
  | @stop p g r hgap hhalts =>
      rcases hgap.return_cases hpaired with hg | ⟨g', more, rfl, rfl, -⟩
      · rw [Text.normalizeNewlines_append hg]
        exact ⟨[], .stop (hgap.normalize hg) hhalts.normalize, .nil⟩
      · exact absurd (lexeme_newline more) (hhalts.2 _ _ _ _ rfl)
  | @next p q g l rest r kind value ts hgap hl _ ih =>
      obtain ⟨ts', hcut, hsame⟩ := ih hpaired.of_append.of_append
      rcases hgap.return_cases hpaired with hg | ⟨g', more, rfl, hnewline, hg⟩
      · have hgap' := hgap.normalize hg
        rw [Text.normalizeNewlines_append hl.return_not_mem] at hgap'
        rw [Text.normalizeNewlines_append hg, Text.normalizeNewlines_append hl.return_not_mem]
        exact ⟨_, .next hgap' hl.normalize hcut, .cons (.refl _) hsame⟩
      · obtain ⟨rfl, rfl, rfl, rfl⟩ := hl.unique (lexeme_newline more) hnewline
        have hgap' := (hgap.dropLast rfl).normalize hg
        have hplaces : ((p.past (g' ++ ['\r'])).past ['\n']) = (p.past g').past ['\n'] := by
          rw [Position.past_append]
          rfl
        rw [hplaces] at hcut
        have htext : normalizeNewlines (g' ++ ['\r'] ++ (['\n'] ++ rest)) =
            g' ++ (['\n'] ++ normalizeNewlines rest) := by
          rw [List.append_assoc, Text.normalizeNewlines_append hg]
          rfl
        rw [htext]
        refine ⟨_, .next hgap' (lexeme_newline _) hcut, .cons ?_ hsame⟩
        refine ⟨rfl, rfl, ?_, rfl, fun hkind => absurd rfl hkind⟩
        rw [Position.past_append]
        rfl

theorem Scans.normalize {p : Position} {text : List Char} {ts : List Token}
    {error? : Option ScanError} (h : Scans p text ts error?)
    (hpaired : Text.ReturnsPaired text) :
    ∃ ts', Scans p (normalizeNewlines text) ts' error? ∧
      List.Forall₂ Token.SameBesidesBreak ts ts' := by
  match error? with
  | none =>
      obtain ⟨q, hcut⟩ := h
      obtain ⟨ts', hcut', hsame⟩ := hcut.normalize hpaired
      exact ⟨ts', ⟨q, hcut'⟩, hsame⟩
  | some e =>
      obtain ⟨q, r, hcut, he⟩ := h
      obtain ⟨ts', hcut', hsame⟩ := hcut.normalize hpaired
      exact ⟨ts', ⟨q, _, hcut', he.normalize hcut.halts.1⟩, hsame⟩

/-- Without its carriage returns a text has the same tokens, but for the columns of newlines, and
the same error. -/
theorem tokenize_normalizeNewlines {source : String}
    (hpaired : Text.ReturnsPaired source.toList) :
    let normalized := tokenize (String.ofList (normalizeNewlines source.toList))
    List.Forall₂ Token.SameBesidesBreak (tokenize source).tokens normalized.tokens ∧
      normalized.error? = (tokenize source).error? := by
  intro normalized
  obtain ⟨ts', hscans, hsame⟩ := (scans_tokenize source).normalize hpaired
  have hnormalized := scans_tokenize (String.ofList (normalizeNewlines source.toList))
  rw [String.toList_ofList] at hnormalized
  obtain ⟨htokens, herror⟩ := hnormalized.unique hscans
  exact ⟨htokens ▸ hsame, herror⟩

end Reckoner
