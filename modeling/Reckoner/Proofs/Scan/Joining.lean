import Reckoner.Proofs.Scan.Tokenization

/-!
# Texts joined by a newline

No gap and no lexeme reaches across a newline. Two texts with a newline between them are therefore
cut like each of them, the second one where the first one ends. How a text is cut does not depend on
the position at which it starts: moving its start moves all positions. What goes wrong in the first
text goes wrong in the same way if any text follows.
-/

namespace Reckoner

open Text (isDigit)

/-! ## Moved positions -/

namespace Position

/-- The position some lines further down. -/
def lower (n : Int) (p : Position) : Position :=
  ⟨p.line + n, p.col⟩

theorem step_lower (n : Int) (p : Position) (c : Char) :
    (p.lower n).step c = (p.step c).lower n := by
  unfold step lower
  split
  · simp only [mk.injEq, and_true]
    omega
  · rfl

/-- The position after a text: its newlines are counted, and the characters after the last one. -/
theorem past_start (cs : List Char) :
    past ⟨1, 1⟩ cs =
      ⟨1 + cs.count '\n', 1 + (cs.reverse.takeWhile (· != '\n')).length⟩ := by
  induction cs using List.reverseRecOn with
  | nil => rfl
  | append_singleton cs c ih =>
      rw [past_append, ih, past_cons, past_nil, List.reverse_append, List.count_append]
      by_cases hc : c = '\n'
      · subst hc
        simp [step]
        omega
      · simp [step, hc]
        omega

theorem step_newline_past_start (cs : List Char) :
    (past ⟨1, 1⟩ cs).step '\n' = lower (1 + cs.count '\n') ⟨1, 1⟩ := by
  rw [past_start]
  simp [step, lower]
  omega

end Position

/-- The token at a moved position. -/
def Token.relocate (f : Position → Position) (t : Token) : Token :=
  { t with pos := f t.pos }

/-- The error at a moved position. -/
def ScanError.relocate (f : Position → Position) : ScanError → ScanError
  | .malformedNumber spelling pos => .malformedNumber spelling (f pos)
  | .unexpectedCharacter character pos => .unexpectedCharacter character (f pos)
  | .pastEnd position line => .pastEnd position line
  | .outOfRange position => .outOfRange position

section Relocation

variable {f : Position → Position} {p q : Position} {text r : List Char} {ts : List Token}

theorem past_relocate {cs : List Char} (hf : ∀ c ∈ cs, ∀ p, (f p).step c = f (p.step c))
    (p : Position) : (f p).past cs = f (p.past cs) := by
  induction cs generalizing p with
  | nil => rfl
  | cons c cs ih =>
      rw [List.forall_mem_cons] at hf
      rw [Position.past_cons, hf.1, ih hf.2, Position.past_cons]

theorem Fault.relocate {e : ScanError} (he : Fault p text e) (f : Position → Position) :
    Fault (f p) text (e.relocate f) := by
  cases he with
  | character rest hdigit hword hkind => exact .character rest hdigit hword hkind
  | lonePoint hne hds hrest => exact .lonePoint hne hds hrest
  | secondPoint rest hne hne' hds hes => exact .secondPoint rest hne hne' hds hes
  | notDecimal hl hrest hnone => exact .notDecimal hl hrest hnone

theorem Cut.relocate (h : Cut p text ts q r)
    (hf : ∀ c ∈ text, ∀ p, (f p).step c = f (p.step c)) :
    Cut (f p) text (ts.map (Token.relocate f)) (f q) r := by
  induction h with
  | @stop p g r hgap hhalts =>
      rw [List.forall_mem_append] at hf
      rw [← past_relocate hf.1]
      exact .stop hgap hhalts
  | @next p q g l rest r kind value ts hgap hl _ ih =>
      simp only [List.forall_mem_append] at hf
      obtain ⟨hg, hl', hrest⟩ := hf
      have hcut := ih hrest
      rw [← past_relocate hl', ← past_relocate hg] at hcut
      rw [List.map_cons, Token.relocate, ← past_relocate hg]
      exact .next hgap hl hcut

theorem Scans.relocate {error? : Option ScanError} (h : Scans p text ts error?)
    (hf : ∀ c ∈ text, ∀ p, (f p).step c = f (p.step c)) :
    Scans (f p) text (ts.map (Token.relocate f)) (error?.map (ScanError.relocate f)) := by
  match error? with
  | none =>
      obtain ⟨q, hcut⟩ := h
      exact ⟨f q, hcut.relocate hf⟩
  | some e =>
      obtain ⟨q, r, hcut, he⟩ := h
      exact ⟨f q, r, hcut.relocate hf, he.relocate f⟩

end Relocation

/-! ## More text -/

/-- Whether a text goes on with a character that no number and no word contains. -/
def EndsToken (text : List Char) : Prop :=
  ∀ c ∈ text.head?, isWordAhead (some c) = false ∧ isDigit c = false ∧ c ≠ '.'

section Extension

variable {p q : Position} {g l rest text r more : List Char} {ts : List Token} {e : ScanError}

theorem endsToken_newline (text : List Char) : EndsToken ('\n' :: text) := by
  rintro c ⟨⟩
  exact ⟨isWordAhead_of_isSign rfl, isDigit_of_isSign rfl, by decide⟩

theorem forall_head?_append {P : Char → Prop} (h : ∀ c ∈ rest.head?, P c)
    (hmore : ∀ c ∈ more.head?, P c) : ∀ c ∈ (rest ++ more).head?, P c := by
  cases rest with
  | nil => exact hmore
  | cons d rest => exact h

theorem Gap.extend (h : Gap g rest) (hmore : rest = [] → ∀ c ∈ more.head?, c = '\n') :
    Gap g (rest ++ more) := by
  induction h with
  | nil rest => exact .nil _
  | blank hspace _ ih => exact .blank hspace (ih hmore)
  | @comment body g rest hbody hhead _ ih =>
      refine .comment hbody ?_ (ih hmore)
      rw [← List.append_assoc]
      -- Only a comment at the end of the text could go on into the text that follows.
      by_cases hnil : rest = []
      · exact forall_head?_append hhead (hmore hnil)
      · rw [List.head?_append_of_ne_nil _ (List.append_ne_nil_of_right_ne_nil g hnil)]
        exact hhead

theorem EndsNumber.extend (h : EndsNumber rest) (hmore : EndsToken more) :
    EndsNumber (rest ++ more) :=
  forall_head?_append h fun c hc => (hmore c hc).2

theorem Lexeme.extend {kind : Token.Kind} {value : Value} (h : Lexeme l rest kind value)
    (hmore : EndsToken more) : Lexeme l (rest ++ more) kind value := by
  cases h with
  | punctuation rest hkind => exact .punctuation _ hkind
  | number hnumeral hrest => exact .number hnumeral (hrest.extend hmore)
  | word hc hcs hrest =>
      exact .word hc hcs (forall_head?_append hrest fun c hc => (hmore c hc).1)

theorem Fault.extend (he : Fault p text e) (hmore : EndsToken more) :
    Fault p (text ++ more) e := by
  cases he with
  | character rest hdigit hword hkind => exact .character _ hdigit hword hkind
  | lonePoint hne hds hrest =>
      rw [List.append_assoc, List.cons_append]
      exact .lonePoint hne hds (forall_head?_append hrest fun c hc => (hmore c hc).2.1)
  | @secondPoint ds es rest hne hne' hds hes =>
      have htext : ds ++ '.' :: (es ++ '.' :: rest) ++ more =
          ds ++ '.' :: (es ++ '.' :: (rest ++ more)) := by simp
      rw [htext]
      exact .secondPoint (rest ++ more) hne hne' hds hes
  | notDecimal hl hrest hnone =>
      rw [List.append_assoc]
      exact .notDecimal hl (hrest.extend hmore) hnone

/-- A lexeme follows the gap, so that nothing changes in front of it. -/
theorem Gap.extend_lexeme {kind : Token.Kind} {value : Value} (h : Gap g (l ++ rest))
    (hl : Lexeme l rest kind value) (more : List Char) : Gap g (l ++ (rest ++ more)) := by
  rw [← List.append_assoc]
  refine h.extend fun hnil => absurd ?_ hl.ne_nil
  exact (List.append_eq_nil_iff.mp hnil).1

/-- What is wrong with a text stays wrong if more text follows. -/
theorem Cut.extend (h : Cut p text ts q r) (he : Fault q r e) (hmore : EndsToken more) :
    Cut p (text ++ more) ts q (r ++ more) := by
  induction h with
  | @stop p g r hgap hhalts =>
      have hgap' : Gap g (r ++ more) := hgap.extend fun hnil => absurd hnil he.ne_nil
      have hstarts : StartsNoGap (r ++ more) := by
        intro c hc
        rw [List.head?_append_of_ne_nil _ he.ne_nil] at hc
        exact hhalts.1 c hc
      rw [List.append_assoc]
      exact .stop hgap' ((he.extend hmore).halts hstarts)
  | @next p q g l rest r kind value ts hgap hl _ ih =>
      simp only [List.append_assoc]
      exact .next (hgap.extend_lexeme hl more) (hl.extend hmore) (ih he)

theorem Scans.extend (h : Scans p text ts (some e)) (hmore : EndsToken more) :
    Scans p (text ++ more) ts (some e) := by
  obtain ⟨q, r, hcut, he⟩ := h
  exact ⟨q, r ++ more, hcut.extend he hmore, he.extend hmore⟩

end Extension

/-! ## Joined texts -/

/-- The token of a newline. -/
def Token.newline (p : Position) : Token :=
  ⟨.terminator, .text "\n", p, 1⟩

theorem lexeme_newline (rest : List Char) : Lexeme ['\n'] rest .terminator (.text "\n") :=
  .punctuation rest rfl

theorem Cut.join {p q q' : Position} {s t r : List Char} {ts us : List Token}
    (h : Cut p s ts q []) (h' : Cut (q.step '\n') t us q' r) :
    Cut p (s ++ '\n' :: t) (ts ++ Token.newline q :: us) q' r := by
  generalize hnil : ([] : List Char) = rest at h
  induction h with
  | @stop p g rest hgap hhalts =>
      subst hnil
      rw [List.append_nil]
      have hgap' : Gap g (['\n'] ++ t) := hgap.extend fun _ c hc => (Option.some.inj hc).symm
      exact .next hgap' (lexeme_newline t) h'
  | @next p q g l rest r kind value ts hgap hl _ ih =>
      simp only [List.append_assoc, List.cons_append]
      exact .next (hgap.extend_lexeme hl _) (hl.extend (endsToken_newline t)) (ih h' hnil)

theorem Scans.join {p q : Position} {s t : List Char} {ts us : List Token}
    {error? : Option ScanError} (h : Cut p s ts q []) (h' : Scans (q.step '\n') t us error?) :
    Scans p (s ++ '\n' :: t) (ts ++ Token.newline q :: us) error? := by
  match error? with
  | none =>
      obtain ⟨q', hcut⟩ := h'
      exact ⟨q', h.join hcut⟩
  | some e =>
      obtain ⟨q', r, hcut, he⟩ := h'
      exact ⟨q', r, h.join hcut, he⟩

section Joined

variable {s t : String}

theorem toList_joined : (s ++ "\n" ++ t).toList = s.toList ++ '\n' :: t.toList := by
  simp [String.toList_append]

theorem exists_cut_of_tokenize (h : (tokenize s).error? = none) :
    Cut ⟨1, 1⟩ s.toList (tokenize s).tokens (Position.past ⟨1, 1⟩ s.toList) [] := by
  have hscans := scans_tokenize s
  rw [h] at hscans
  obtain ⟨q, hcut⟩ := hscans
  obtain ⟨consumed, htext, rfl⟩ := hcut.pos_eq
  rw [List.append_nil] at htext
  rwa [← htext] at hcut

/-- The tokens of joined texts: the second text starts below the first one. -/
theorem tokenize_joined (h : (tokenize s).error? = none) :
    (tokenize (s ++ "\n" ++ t)).tokens =
      (tokenize s).tokens ++ Token.newline (Position.past ⟨1, 1⟩ s.toList) ::
        (tokenize t).tokens.map (Token.relocate (Position.lower (1 + s.toList.count '\n'))) ∧
    (tokenize (s ++ "\n" ++ t)).error? =
      (tokenize t).error?.map
        (ScanError.relocate (Position.lower (1 + s.toList.count '\n'))) := by
  have hbelow := (scans_tokenize t).relocate fun c _ p =>
    Position.step_lower (1 + s.toList.count '\n') p c
  rw [← Position.step_newline_past_start] at hbelow
  have hscans := Scans.join (exists_cut_of_tokenize h) hbelow
  rw [← toList_joined] at hscans
  exact (scans_tokenize (s ++ "\n" ++ t)).unique hscans

/-- Joined texts without an error start with a text without one. -/
theorem error?_of_joined (h : (tokenize (s ++ "\n" ++ t)).error? = none) :
    (tokenize s).error? = none := by
  have hscans := scans_tokenize s
  have hjoined := scans_tokenize (s ++ "\n" ++ t)
  cases herror : (tokenize s).error? with
  | none => rfl
  | some e =>
      rw [herror] at hscans
      have hextended := hscans.extend (endsToken_newline t.toList)
      rw [← toList_joined] at hextended
      rw [h] at hjoined
      cases (hjoined.unique hextended).2

end Joined

end Reckoner
