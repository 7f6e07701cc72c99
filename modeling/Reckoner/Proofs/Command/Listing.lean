import Reckoner.Proofs.Command.Dump
import Reckoner.Proofs.Text.Quoting

/-!
# Listings of tokens

A job that lists the tokens of a program writes one line for each of them, with the position, the
label of the kind and the quoted value between tabs. None of the three holds a tab or a newline, and
each is told by its text: numbers are shown by digits that read back, names and signs between
quotes, the newline by its escape. A listing is therefore the listing of one list of tokens only.
-/

namespace Reckoner

/-! ## Values of scanned tokens -/

namespace Number

variable {x y : Float}

/-- The full text of a literal is a numeral that stands for it, or the word for infinity. -/
theorem IsLiteral.fullText_cases (hx : IsLiteral x) :
    Json.Numeral.Reads (fullText x).toList (.inr x) ∨
      Binary.ofFloat x = .infinite false ∧ (fullText x).toList = "inf".toList := by
  rcases ofPattern_cases hx with ⟨hinfinite, -⟩ | ⟨significand, exponent, h⟩
  · right
    refine ⟨hinfinite, ?_⟩
    rw [fullText, show Binary.ofFloat x = .infinite false from hinfinite, String.toList_ofList]
    rfl
  · exact .inl (Json.reads_fullText hx h)

theorem IsLiteral.isWord_fullText (hx : IsLiteral x) :
    ∀ c ∈ (fullText x).toList, Json.isWord c = true := by
  rcases hx.fullText_cases with hreads | ⟨-, htext⟩
  · exact Json.lexical_reads.isWord hreads
  · rw [htext]
    exact List.all_eq_true.1 rfl

theorem not_reads_inf (x : ℤ ⊕ Float) : ¬ Json.Numeral.Reads "inf".toList x := by
  rintro ⟨m, htext, -⟩
  obtain ⟨c, cs, htext', hc, -⟩ := m.exists_text
  have hfirst : c = 'i' := (List.cons.inj (htext'.symm.trans htext)).1
  exact absurd hc (by rw [hfirst]; decide)

/-- Literals with the same full text are the same. -/
theorem IsLiteral.fullText_inj (hx : IsLiteral x) (hy : IsLiteral y)
    (h : (fullText x).toList = (fullText y).toList) : x = y := by
  rcases hx.fullText_cases with hreads | ⟨hinfinite, htext⟩ <;>
    rcases hy.fullText_cases with hreads' | ⟨hinfinite', htext'⟩
  · exact Sum.inr.inj (hreads.unique (h ▸ hreads'))
  · rw [h, htext'] at hreads
    exact absurd hreads (not_reads_inf _)
  · rw [← h, htext] at hreads'
    exact absurd hreads' (not_reads_inf _)
  · apply hx.finite?_inj hy
    simp only [finite?, hinfinite, hinfinite', if_true]

end Number

/-- Whether a text can stand between tabs in a line. -/
def IsField (cs : List Char) : Prop :=
  '\t' ∉ cs ∧ '\n' ∉ cs

theorem isField_of_isWord {cs : List Char} (h : ∀ c ∈ cs, Json.isWord c = true) : IsField cs :=
  ⟨fun hmem => absurd (h _ hmem) (by decide), fun hmem => absurd (h _ hmem) (by decide)⟩

theorem isField_of_isClear {cs : List Char} (h : ∀ c ∈ cs, Text.isClear c = true) : IsField cs := by
  obtain ⟨hnewline, -, htab⟩ := Text.isClear_controls
  exact ⟨fun hmem => Text.ne_of_isClear (h _ hmem) htab rfl,
    fun hmem => Text.ne_of_isClear (h _ hmem) hnewline rfl⟩

theorem IsField.append_cons {xs ys : List Char} (hx : IsField xs) (hy : IsField ys) {c : Char}
    (htab : '\t' ≠ c) (hnewline : '\n' ≠ c) : IsField (xs ++ c :: ys) := by
  simp only [IsField, List.mem_append, List.mem_cons, not_or]
  exact ⟨⟨hx.1, htab, hy.1⟩, hx.2, hnewline, hy.2⟩

/-- Texts of scanned tokens: the newline, or characters that stand for themselves. -/
def IsToken (l : List Char) : Prop :=
  l = ['\n'] ∨ ∀ c ∈ l, Text.isClear c = true

section Quoted

variable {l l' : List Char}

theorem IsToken.quotedChars_eq (h : IsToken l) :
    ∃ body, Text.quotedChars l = Text.apostrophe :: body ++ [Text.apostrophe] ∧
      (l = ['\n'] ∧ body = ['\\', 'n'] ∨ body = l ∧ ∀ c ∈ l, Text.isClear c = true) := by
  rcases h with rfl | h
  · exact ⟨['\\', 'n'], rfl, .inl ⟨rfl, rfl⟩⟩
  · exact ⟨l, Text.quotedChars_of_isClear h, .inr ⟨rfl, h⟩⟩

theorem IsToken.isField_quotedChars (h : IsToken l) : IsField (Text.quotedChars l) := by
  obtain ⟨body, hquoted, ⟨-, rfl⟩ | ⟨rfl, hclear⟩⟩ := h.quotedChars_eq
  · rw [hquoted]
    unfold IsField
    decide
  · have hnil : IsField [] := ⟨List.not_mem_nil, List.not_mem_nil⟩
    have hopened := hnil.append_cons (isField_of_isClear hclear) (c := Text.apostrophe) (by decide)
      (by decide)
    rw [hquoted]
    exact hopened.append_cons hnil (by decide) (by decide)

theorem IsToken.quotedChars_inj (h : IsToken l) (h' : IsToken l')
    (hsame : Text.quotedChars l = Text.quotedChars l') : l = l' := by
  obtain ⟨body, hquoted, hbody⟩ := h.quotedChars_eq
  obtain ⟨body', hquoted', hbody'⟩ := h'.quotedChars_eq
  rw [hquoted, hquoted'] at hsame
  obtain rfl : body = body' := by simpa using hsame
  have hbackslash : Text.isClear '\\' = false := by simp [Text.isClear]
  rcases hbody with ⟨rfl, rfl⟩ | ⟨rfl, hclear⟩ <;> rcases hbody' with ⟨rfl, hbody'⟩ | ⟨rfl, hother⟩
  · rfl
  · exact absurd rfl (Text.ne_of_isClear (hother '\\' (by simp)) hbackslash)
  · subst hbody'
    exact absurd rfl (Text.ne_of_isClear (hclear '\\' (by simp)) hbackslash)
  · rfl

end Quoted

theorem Lexeme.value_cases {l rest : List Char} {kind : Token.Kind} {value : Value}
    (h : Lexeme l rest kind value) :
    (∃ x, value = .number x ∧ Number.IsLiteral x) ∨
      value = .text (String.ofList l) ∧ IsToken l := by
  cases h with
  | @punctuation c kind _ hkind =>
      refine .inr ⟨by rw [String.singleton_eq_ofList], ?_⟩
      by_cases hc : c = '\n'
      · exact .inl (by rw [hc])
      · exact .inr (by simpa using Text.isClear_of_punctuation? hkind hc)
  | number hnumeral _ => exact .inl ⟨_, rfl, hnumeral.isLiteral⟩
  | word hc hcs _ =>
      refine .inr ⟨rfl, .inr (List.forall_mem_cons.mpr ⟨?_, fun d hd => ?_⟩)⟩
      · exact Text.isClear_of_isWordAhead (isWordAhead_of_startsWord hc)
      · exact Text.isClear_of_isWordAhead (hcs d hd)

theorem Lexeme.kind_mem_known {l rest : List Char} {kind : Token.Kind} {value : Value}
    (h : Lexeme l rest kind value) : kind ∈ Token.Kind.known := by
  cases h with
  | punctuation _ hkind =>
      unfold punctuation? at hkind
      split at hkind <;> cases hkind <;> decide
  | number _ _ => decide
  | word _ _ _ => split <;> decide

theorem toList_quoted (l : List Char) :
    (Value.text (String.ofList l)).quoted.toList = Text.quotedChars l := by
  rw [Value.quoted, Text.quoted, String.toList_ofList, String.toList_ofList]

theorem Lexeme.isField_quoted {l rest : List Char} {kind : Token.Kind} {value : Value}
    (h : Lexeme l rest kind value) : IsField value.quoted.toList := by
  rcases h.value_cases with ⟨x, rfl, hx⟩ | ⟨rfl, hl⟩
  · exact isField_of_isWord hx.isWord_fullText
  · rw [toList_quoted]
    exact hl.isField_quotedChars

/-- Quoted values of tokens are the same only for the same value: no number starts with a quote. -/
theorem Lexeme.quoted_inj {l l' rest rest' : List Char} {kind kind' : Token.Kind}
    {value value' : Value} (h : Lexeme l rest kind value) (h' : Lexeme l' rest' kind' value')
    (hsame : value.quoted.toList = value'.quoted.toList) : value = value' := by
  have hapart {x : Float} (hx : Number.IsLiteral x) (l : List Char) :
      (Number.fullText x).toList ≠ Text.quotedChars l := by
    intro hsame
    have hquote : Text.quoteFor l ∈ (Number.fullText x).toList := by
      rw [hsame]
      exact List.mem_cons_self
    have hword := hx.isWord_fullText _ hquote
    rw [Text.quoteFor] at hword
    split at hword <;> cases hword
  rcases h.value_cases with ⟨x, rfl, hx⟩ | ⟨rfl, hl⟩ <;>
    rcases h'.value_cases with ⟨y, rfl, hy⟩ | ⟨rfl, hl'⟩
  · rw [hx.fullText_inj hy hsame]
  · rw [toList_quoted] at hsame
    exact absurd hsame (hapart hx l')
  · rw [toList_quoted] at hsame
    exact absurd hsame.symm (hapart hy l)
  · rw [toList_quoted, toList_quoted] at hsame
    rw [hl.quotedChars_inj hl' hsame]

/-! ## Lines -/

namespace Position

/-- The position as it is listed. -/
def text (p : Position) : String :=
  toString p.line ++ ":" ++ toString p.col

theorem toList_text (p : Position) :
    p.text.toList = (toString p.line).toList ++ ':' :: (toString p.col).toList := by
  simp [text, String.toList_append]

theorem isWord_toString (n : Int) : ∀ c ∈ (toString n).toList, Json.isWord c = true :=
  Json.lexical_reads.isWord (Json.reads_integer n)

theorem toString_inj {m n : Int} (h : (toString m).toList = (toString n).toList) : m = n :=
  Sum.inl.inj ((Json.reads_integer m).unique (h ▸ Json.reads_integer n))

theorem isField_text (p : Position) : IsField p.text.toList := by
  rw [toList_text]
  exact (isField_of_isWord (isWord_toString p.line)).append_cons
    (isField_of_isWord (isWord_toString p.col)) (by decide) (by decide)

theorem text_inj {p q : Position} (h : p.text.toList = q.text.toList) : p = q := by
  have hcolon (cs : List Char) : ∀ c ∈ (':' :: cs).head?, Json.isWord c = false := by
    rintro c ⟨⟩
    decide
  rw [toList_text, toList_text] at h
  obtain ⟨hline, hcol⟩ := Json.run_append_inj (isWord_toString p.line) (isWord_toString q.line)
    (hcolon _) (hcolon _) h
  obtain ⟨line, col⟩ := p
  obtain ⟨line', col'⟩ := q
  obtain rfl : line = line' := toString_inj hline
  obtain rfl : col = col' := toString_inj (List.cons.inj hcol).2
  rfl

end Position

namespace Token

theorem Kind.isField_label : ∀ kind ∈ known, IsField kind.label.toList := by
  unfold IsField
  decide

theorem Kind.label_inj :
    ∀ kind ∈ known, ∀ kind' ∈ known, kind.label.toList = kind'.label.toList → kind = kind' := by
  decide

/-- Whether a token can be found in a text. -/
def Scanned (t : Token) : Prop :=
  ∃ l rest, Lexeme l rest t.kind t.value

theorem scanned_of_mem {source : String} : ∀ t ∈ (tokenize source).tokens, t.Scanned := by
  intro t ht
  obtain ⟨-, l, rest, -, hlexeme, -⟩ := exists_lexeme_of_mem_tokens source t ht
  exact ⟨l, rest, hlexeme⟩

end Token

namespace Command

open Job (tokenLine)

variable {t u : Token}

theorem toList_tokenLine (t : Token) :
    (tokenLine t).toList =
      t.pos.text.toList ++ '\t' :: (t.kind.label.toList ++ '\t' :: t.value.quoted.toList) := by
  simp [tokenLine, Position.text, String.toList_append]

theorem field_append_inj {a b r s : List Char} (ha : IsField a) (hb : IsField b)
    (h : a ++ '\t' :: r = b ++ '\t' :: s) : a = b ∧ r = s := by
  have hrun {cs : List Char} (hcs : IsField cs) : ∀ c ∈ cs, (c != '\t') = true := by
    intro c hc
    rw [bne_iff_ne]
    rintro rfl
    exact hcs.1 hc
  obtain ⟨hfield, hrest⟩ := Json.run_append_inj (hrun ha) (hrun hb) (by simp) (by simp) h
  exact ⟨hfield, (List.cons.inj hrest).2⟩

/-- A line is the line of one position, one kind and one value. -/
theorem tokenLine_inj (ht : t.Scanned) (hu : u.Scanned)
    (h : (tokenLine t).toList = (tokenLine u).toList) :
    t.pos = u.pos ∧ t.kind = u.kind ∧ t.value = u.value := by
  obtain ⟨l, rest, hl⟩ := ht
  obtain ⟨l', rest', hl'⟩ := hu
  rw [toList_tokenLine, toList_tokenLine] at h
  obtain ⟨hpos, h⟩ := field_append_inj t.pos.isField_text u.pos.isField_text h
  obtain ⟨hlabel, hvalue⟩ := field_append_inj (Token.Kind.isField_label _ hl.kind_mem_known)
    (Token.Kind.isField_label _ hl'.kind_mem_known) h
  exact ⟨Position.text_inj hpos,
    Token.Kind.label_inj _ hl.kind_mem_known _ hl'.kind_mem_known hlabel, hl.quoted_inj hl' hvalue⟩

theorem count_tokenLine (ht : t.Scanned) :
    (tokenLine t).toList.count '\t' = 2 ∧ '\n' ∉ (tokenLine t).toList := by
  obtain ⟨l, rest, hl⟩ := ht
  obtain ⟨htab, hnewline⟩ := t.pos.isField_text
  obtain ⟨htab', hnewline'⟩ := Token.Kind.isField_label _ hl.kind_mem_known
  obtain ⟨htab'', hnewline''⟩ := hl.isField_quoted
  rw [toList_tokenLine]
  constructor
  · simp [List.count_append, List.count_eq_zero_of_not_mem htab,
      List.count_eq_zero_of_not_mem htab', List.count_eq_zero_of_not_mem htab'']
  · simp [hnewline, hnewline', hnewline'']

/-! ## Listings -/

/-- The job of listing the tokens of a program that is given literally. -/
def Job.listing (source : String) : Job :=
  ⟨source, true, true, false, false⟩

/-- What is listed of a token. -/
def listed (t : Token) : Int × Int × Token.Kind × Value :=
  (t.pos.line, t.pos.col, t.kind, t.value)

theorem standardText_listing (source : String) (read : FileReader) :
    Output.standardText ((Job.listing source).run read).outputs =
      String.join ((tokenize source).tokens.map fun t => tokenLine t ++ "\n") := by
  have houtputs : ((Job.listing source).run read).outputs =
      (tokenize source).tokens.flatMap fun t => [.record (.found t), .line (tokenLine t)] := rfl
  rw [houtputs]
  induction (tokenize source).tokens with
  | nil => rfl
  | cons t ts ih =>
      rw [List.flatMap_cons, Output.standardText_append, ih, List.map_cons, String.join_cons]
      simp [Output.standardText, Output.standard, Output.line]

theorem lines_listing (source : String) (read : FileReader) :
    Text.lines (Output.standardText ((Job.listing source).run read).outputs).toList =
      (tokenize source).tokens.map fun t => (tokenLine t).toList := by
  have hlines : ∀ line ∈ (tokenize source).tokens.map fun t => (tokenLine t).toList,
      '\n' ∉ line := by
    rw [List.forall_mem_map]
    exact fun t ht => (count_tokenLine (Token.scanned_of_mem t ht)).2
  rw [standardText_listing, ← Text.lines_flatMap hlines]
  simp [String.toList_join, List.flatMap_map, String.toList_append]

theorem listed_of_lines {ts us : List Token} (hts : ∀ t ∈ ts, t.Scanned) (hus : ∀ t ∈ us, t.Scanned)
    (h : (ts.map fun t => (tokenLine t).toList) = us.map fun t => (tokenLine t).toList) :
    ts.map listed = us.map listed := by
  induction ts generalizing us with
  | nil =>
      rw [List.map_nil, eq_comm, List.map_eq_nil_iff] at h
      rw [h]
  | cons t ts ih =>
      obtain ⟨u, us, rfl, hline, hlines⟩ := List.map_eq_cons_iff.mp h.symm
      rw [List.forall_mem_cons] at hts hus
      obtain ⟨hpos, hkind, hvalue⟩ := tokenLine_inj hts.1 hus.1 hline.symm
      rw [List.map_cons, List.map_cons, ih hts.2 hus.2 hlines.symm]
      simp [listed, hpos, hkind, hvalue]

/-- The listing of the tokens of a program loses nothing of them. It has one line for each token up
to the end or the first error, with which the job then fails. A line holds two tabs, between which
stand the position, the label of the kind and the quoted value, and no newline. Two programs with
the same listing have tokens of the same kinds and values at the same positions. -/
theorem listing_lossless (source : String) (read : FileReader) :
    let found := tokenize source
    let result := (Job.listing source).run read
    Output.standardText result.outputs =
      String.join (found.tokens.map fun t => tokenLine t ++ "\n") ∧
    (result.outcome =
      match found.error? with
      | some e => .error (.program (.parse (.scan e)))
      | none => .ok none) ∧
    (∀ t ∈ found.tokens,
      tokenLine t = t.pos.text ++ "\t" ++ t.kind.label ++ "\t" ++ t.value.quoted ∧
      (tokenLine t).toList.count '\t' = 2 ∧ '\n' ∉ (tokenLine t).toList) ∧
    ∀ other,
      Output.standardText ((Job.listing other).run read).outputs =
          Output.standardText result.outputs →
        (tokenize other).tokens.map listed = found.tokens.map listed := by
  intro found result
  refine ⟨standardText_listing source read, rfl, ?_, ?_⟩
  · exact fun t ht => ⟨rfl, count_tokenLine (Token.scanned_of_mem t ht)⟩
  · intro other hsame
    apply listed_of_lines Token.scanned_of_mem Token.scanned_of_mem
    rw [← lines_listing other read, ← lines_listing source read, hsame]

/-- Programs with other blanks and comments between the same tokens, of which the last is a newline. -/
theorem listing_lossless_comment :
    let read : FileReader := fun _ => .error .missing
    let printed := fun source => Output.standardText ((Job.listing source).run read).outputs
    printed "é²=1\n" =
        "1:1\tIDENT\t'é²'\n1:3\tASSIGN\t'='\n1:4\tNUMBER\t1.0\n1:5\tEND\t'\\n'\n" ∧
      (tokenize "é²=1\n# one").tokens.map listed = (tokenize "é²=1\n").tokens.map listed := by
  intro read printed
  have hsame : printed "é²=1\n# one" = printed "é²=1\n" := by decide +kernel
  exact ⟨by decide +kernel, (listing_lossless "é²=1\n" read).2.2.2 _ hsame⟩

end Command

end Reckoner
