import Reckoner.Proofs.Scan.Joining
import Reckoner.Text.Blank

/-!
# Lines without the blanks at their ends

Trimming removes more characters than the scanner takes for blanks. In a line without an error this
makes no difference: any other white space at the start of the line is an error, and at its end it
is an error or stands in a comment. A trimmed line has the tokens of the line, in other columns.
-/

namespace Reckoner

open Text (isBlank)

/-! ## What is trimmed -/

theorem Text.exists_trimBy (p : Char → Bool) (cs : List Char) :
    ∃ lead trail, cs = lead ++ (Text.trimBy p cs ++ trail) ∧ (∀ c ∈ lead, p c = true) ∧
      ∀ c ∈ trail, p c = true := by
  refine ⟨cs.takeWhile p, ((cs.dropWhile p).reverse.takeWhile p).reverse, ?_,
    fun c hc => List.mem_takeWhile_imp hc, fun c hc => ?_⟩
  · rw [Text.trimBy, ← List.reverse_append, List.takeWhile_append_dropWhile, List.reverse_reverse,
      List.takeWhile_append_dropWhile]
  · exact List.mem_takeWhile_imp (List.mem_reverse.mp hc)

theorem Text.mem_of_mem_trim {c : Char} {cs : List Char} (h : c ∈ Text.trim cs) : c ∈ cs := by
  obtain ⟨lead, trail, hsplit, -⟩ := Text.exists_trimBy isBlank cs
  have hmem : c ∈ lead ++ (Text.trimBy isBlank cs ++ trail) :=
    List.mem_append_right _ (List.mem_append_left _ h)
  rwa [← hsplit] at hmem

/-- White space within a line. -/
def isMargin (c : Char) : Bool :=
  isBlank c && c != '\n'

section Margins

variable {c : Char} {p q : Position} {text r : List Char} {ts : List Token}

theorem isMargin_iff : isMargin c = true ↔ isBlank c = true ∧ c ≠ '\n' := by
  rw [isMargin, Bool.and_eq_true, bne_iff_ne]

theorem ne_of_isMargin (h : isMargin c = true) {d : Char} (hd : isBlank d = false) : c ≠ d := by
  rintro rfl
  rw [isMargin, hd] at h
  cases h

theorem punctuation?_of_isMargin (h : isMargin c = true) : punctuation? c = none := by
  obtain ⟨hblank, hne⟩ := isMargin_iff.mp h
  unfold punctuation?
  split <;> first | rfl | exact absurd rfl hne | exact absurd hblank (by decide)

theorem endsToken_of_isMargin (h : isMargin c = true) (text : List Char) :
    EndsToken (c :: text) := by
  obtain ⟨hblank, -⟩ := isMargin_iff.mp h
  rintro d ⟨⟩
  exact ⟨isWordAhead_of_isBlank hblank, isDigit_of_isBlank hblank, ne_of_isMargin h (by decide)⟩

/-- White space that is no blank for the scanner starts no token. -/
theorem halts_of_isMargin (h : isMargin c = true) (hspace : isSpace c = false)
    (text : List Char) : Halts (c :: text) := by
  obtain ⟨hblank, -⟩ := isMargin_iff.mp h
  have hfault : Fault .unknown (c :: text) (.unexpectedCharacter c .unknown) :=
    .character text (isDigit_of_isBlank hblank)
      (startsWord_of_isWordAhead (isWordAhead_of_isBlank hblank)) (punctuation?_of_isMargin h)
  refine hfault.halts ?_
  rintro d ⟨⟩
  exact ⟨hspace, ne_of_isMargin h (by decide)⟩

/-! ## The start of a line -/

theorem Cut.blank (h : Cut (p.step c) text ts q r) (hspace : isSpace c = true) :
    Cut p (c :: text) ts q r := by
  cases h with
  | stop hgap hhalts => exact .stop (.blank hspace hgap) hhalts
  | next hgap hl hcut => exact .next (.blank hspace hgap) hl hcut

theorem Cut.dropBlank (h : Cut p (c :: text) ts q r) (hspace : isSpace c = true) :
    Cut (p.step c) text ts q r := by
  obtain ⟨ts', q', r', hcut⟩ := exists_cut (p.step c) text
  obtain ⟨rfl, rfl, rfl⟩ := h.unique (hcut.blank hspace)
  exact hcut

theorem Cut.dropMargin (h : Cut p (c :: text) ts q []) (hc : isMargin c = true) :
    Cut (p.step c) text ts q [] := by
  cases hspace : isSpace c with
  | true => exact h.dropBlank hspace
  | false =>
      have hstuck : Cut p ([] ++ c :: text) [] p (c :: text) :=
        .stop (.nil _) (halts_of_isMargin hc hspace text)
      cases (h.unique hstuck).2.2

theorem Cut.trimLeft {lead : List Char} (h : Cut p (lead ++ text) ts q [])
    (hlead : ∀ c ∈ lead, isMargin c = true) : Cut (p.past lead) text ts q [] := by
  induction lead generalizing p with
  | nil => exact h
  | cons c lead ih =>
      rw [List.forall_mem_cons] at hlead
      exact ih (h.dropMargin hlead.1) hlead.2

/-! ## The end of a line -/

theorem Gap.head_ne_newline {g rest : List Char} (h : Gap g rest) :
    ∀ d ∈ g.head?, d ≠ '\n' := by
  cases h with
  | nil => simp
  | blank hspace _ =>
      rintro d ⟨⟩ rfl
      cases hspace
  | comment _ _ _ =>
      rintro d ⟨⟩
      decide

/-- A character after a gap belongs to its last comment or to the gap, or follows the gap. -/
theorem Gap.snoc {g : List Char} (h : Gap g r) (hr : r = []) (hc : c ≠ '\n') :
    Gap (g ++ [c]) [] ∨ (isSpace c = false ∧ Gap g [c]) := by
  induction h with
  | nil rest =>
      cases hspace : isSpace c with
      | true => exact Or.inl (.blank hspace (.nil []))
      | false => exact Or.inr ⟨rfl, .nil [c]⟩
  | blank hspace _ ih =>
      rcases ih hr with hgap | ⟨hother, hgap⟩
      · exact Or.inl (.blank hspace hgap)
      · exact Or.inr ⟨hother, .blank hspace hgap⟩
  | @comment body g rest hbody hhead hgap _ =>
      -- Within a gap a comment is the last part: the newline that ends it is a token.
      have hg : g = [] := by
        cases g with
        | nil => rfl
        | cons d g => exact absurd (hhead d rfl) (hgap.head_ne_newline d rfl)
      have hbody' : '\n' ∉ body ++ [c] := by simp [hbody, hc.symm]
      have hcomment : Gap ('#' :: (body ++ [c] ++ [])) [] := .comment hbody' (by simp) (.nil [])
      left
      simpa [hg] using hcomment

theorem Cut.halts (h : Cut p text ts q r) : Halts r := by
  induction h with
  | stop _ hhalts => exact hhalts
  | next _ _ _ ih => exact ih

theorem Cut.snoc (h : Cut p text ts q r) (hr : r = []) (hc : isMargin c = true) :
    (∃ q', Cut p (text ++ [c]) ts q' []) ∨ Cut p (text ++ [c]) ts q [c] := by
  induction h with
  | @stop p g r hgap hhalts =>
      rw [hr, List.append_nil]
      rcases hgap.snoc hr (isMargin_iff.mp hc).2 with hgap' | ⟨hspace, hgap'⟩
      · have hcut : Cut p (g ++ [c] ++ []) [] (p.past (g ++ [c])) [] := .stop hgap' halts_nil
        rw [List.append_nil] at hcut
        exact Or.inl ⟨_, hcut⟩
      · exact Or.inr (.stop hgap' (halts_of_isMargin hc hspace []))
  | @next p q g l rest r kind value ts hgap hl _ ih =>
      simp only [List.append_assoc]
      have hgap' := hgap.extend_lexeme hl [c]
      have hl' := hl.extend (endsToken_of_isMargin hc [])
      rcases ih hr with ⟨q', hcut⟩ | hcut
      · exact Or.inl ⟨q', .next hgap' hl' hcut⟩
      · exact Or.inr (.next hgap' hl' hcut)

theorem Cut.dropLast (h : Cut p (text ++ [c]) ts q []) (hc : isMargin c = true) :
    ∃ q', Cut p text ts q' [] := by
  -- The shorter line is cut in some way. With the character again this gives a cut of the whole
  -- line, which has only one.
  obtain ⟨ts', q', r, hcut⟩ := exists_cut p text
  rcases hcut.halts.cases q' with rfl | ⟨e, he⟩
  · rcases hcut.snoc rfl hc with ⟨q'', hcut'⟩ | hcut'
    · obtain ⟨rfl, -⟩ := h.unique hcut'
      exact ⟨q', hcut⟩
    · cases (h.unique hcut').2.2
  · have hcut' := hcut.extend he (endsToken_of_isMargin hc [])
    have hnil := (h.unique hcut').2.2
    simp at hnil

theorem Cut.trimRight {trail : List Char} (h : Cut p (text ++ trail) ts q [])
    (htrail : ∀ c ∈ trail, isMargin c = true) : ∃ q', Cut p text ts q' [] := by
  induction trail using List.reverseRecOn generalizing q with
  | nil => exact ⟨q, by rwa [List.append_nil] at h⟩
  | append_singleton trail c ih =>
      rw [← List.append_assoc] at h
      simp only [List.forall_mem_append, List.forall_mem_singleton] at htrail
      obtain ⟨q', hcut⟩ := h.dropLast htrail.2
      exact ih hcut htrail.1

end Margins

/-! ## Trimmed lines -/

/-- The position some columns further to the right. -/
def Position.indent (n : Int) (p : Position) : Position :=
  ⟨p.line, p.col + n⟩

theorem Position.step_indent (n : Int) (p : Position) {c : Char} (hc : c ≠ '\n') :
    (p.indent n).step c = (p.step c).indent n := by
  simp only [step, hc, if_false, indent, mk.injEq, true_and]
  omega

theorem Position.past_of_line (p : Position) {cs : List Char} (h : '\n' ∉ cs) :
    p.past cs = p.indent cs.length := by
  induction cs generalizing p with
  | nil => simp [indent]
  | cons c cs ih =>
      rw [List.mem_cons, not_or] at h
      rw [past_cons, ih _ h.2, step, if_neg (Ne.symm h.1)]
      simp only [indent, List.length_cons, mk.injEq, true_and]
      omega

theorem Position.indent_indent (n : Int) (p : Position) : (p.indent n).indent (-n) = p := by
  rw [indent, indent, Int.add_neg_cancel_right]

theorem tokenize_of_cut {text : List Char} {ts : List Token} {q : Position}
    (h : Cut ⟨1, 1⟩ text ts q []) :
    (tokenize (String.ofList text)).tokens = ts ∧
      (tokenize (String.ofList text)).error? = none := by
  have hscans : Scans ⟨1, 1⟩ text ts none := ⟨q, h⟩
  have hscans' := scans_tokenize (String.ofList text)
  rw [String.toList_ofList] at hscans'
  exact hscans'.unique hscans

/-- A line without an error keeps its tokens when it is trimmed. -/
theorem tokenize_trim {line : String} (hline : '\n' ∉ line.toList)
    (h : (tokenize line).error? = none) :
    (tokenize (String.ofList (Text.trim line.toList))).error? = none ∧
      ∃ f, (tokenize (String.ofList (Text.trim line.toList))).tokens =
        (tokenize line).tokens.map (Token.relocate f) := by
  obtain ⟨lead, trail, hsplit, hlead, htrail⟩ := Text.exists_trimBy isBlank line.toList
  have hmargin {cs : List Char} (hcs : ∀ c ∈ cs, isBlank c = true) (hsub : cs ⊆ line.toList) :
      ∀ c ∈ cs, isMargin c = true := fun c hc =>
    isMargin_iff.mpr ⟨hcs c hc, fun hc' => hline (hc' ▸ hsub hc)⟩
  have hinside : '\n' ∉ lead ++ (Text.trim line.toList ++ trail) := by
    rw [Text.trim, ← hsplit]
    exact hline
  simp only [List.mem_append, not_or] at hinside
  have hcut := exists_cut_of_tokenize h
  rw [hsplit] at hcut
  have hcut := hcut.trimLeft (hmargin hlead (by rw [hsplit]; simp))
  obtain ⟨q, hcut⟩ := hcut.trimRight (hmargin htrail (by rw [hsplit]; simp))
  have hmoved := hcut.relocate (f := Position.indent (-lead.length)) fun c hc p =>
    Position.step_indent _ p fun hc' => hinside.2.1 (hc' ▸ hc)
  rw [Position.past_of_line _ hinside.1, Position.indent_indent] at hmoved
  obtain ⟨htokens, herror⟩ := tokenize_of_cut hmoved
  exact ⟨herror, _, htokens⟩

theorem tokenize_empty : (tokenize "").tokens = [] ∧ (tokenize "").error? = none := by
  have hcut : Cut ⟨1, 1⟩ ([] ++ []) [] ⟨1, 1⟩ [] := .stop (.nil []) halts_nil
  exact tokenize_of_cut hcut

/-- A comment has no tokens. -/
theorem tokens_of_comment {body : List Char} (h : '\n' ∉ body) :
    (tokenize (String.ofList ('#' :: body))).tokens = [] := by
  have hgap : Gap ('#' :: (body ++ [])) [] := .comment h (by simp) (.nil [])
  have hcut : Cut ⟨1, 1⟩ ('#' :: (body ++ []) ++ []) [] _ [] := .stop hgap halts_nil
  simp only [List.append_nil] at hcut
  exact (tokenize_of_cut hcut).1

end Reckoner
