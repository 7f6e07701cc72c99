import Reckoner.Proofs.Parse.Reading
import Reckoner.Proofs.Scan.Munch

/-!
# The scanner cuts a text by maximal munch

Each loop of the scanner is described by the text ahead: where a gap, a lexeme or a fault starts the
scanner finds just this one. Since it is a function, there is no other way to cut a text, and since
every text goes on with one of them or ends, it cuts the whole text up to the first fault.
-/

namespace Reckoner

open Text (isDigit)

/-! ## Gaps -/

theorem exists_gap (text : List Char) :
    ∃ g rest, text = g ++ rest ∧ Gap g rest ∧ StartsNoGap rest := by
  induction text with
  | nil => exact ⟨[], [], rfl, .nil [], by simp [StartsNoGap]⟩
  | cons c cs ih =>
      by_cases hspace : isSpace c = true
      · obtain ⟨g, rest, rfl, hgap, hrest⟩ := ih
        exact ⟨c :: g, rest, rfl, .blank hspace hgap, hrest⟩
      · by_cases hcomment : c = '#'
        · obtain ⟨body, rest, rfl, hbody, hrest⟩ := exists_longest_run (· != '\n') cs
          have hhead : ∀ d ∈ rest.head?, d = '\n' := fun d hd => by simpa using hrest d hd
          refine ⟨'#' :: (body ++ []), rest, by simp [hcomment], .comment ?_ hhead (.nil rest), ?_⟩
          · intro hmem
            simpa using hbody '\n' hmem
          · intro d hd
            rw [hhead d hd]
            exact ⟨rfl, by decide⟩
        · refine ⟨[], c :: cs, rfl, .nil _, ?_⟩
          rintro d ⟨⟩
          exact ⟨by simpa using hspace, hcomment⟩

namespace Cursor

variable {c : Cursor} {rest : List Char}

theorem skipComment_eq {body : List Char} (h : 0 ≤ c.position) (hahead : c.ahead = body ++ rest)
    (hbody : '\n' ∉ body) (hrest : ∀ d ∈ rest.head?, d = '\n') :
    c.skipComment = (.ok (), c.past body) := by
  have hrun : ∀ d ∈ body, inComment (some d) = true := by
    intro d hd
    simp only [inComment, bne_iff_ne, ne_eq, Option.some.injEq]
    rintro rfl
    exact hbody hd
  have hstop : ∀ d ∈ rest.head?, inComment (some d) = false := fun d hd => by
    rw [hrest d hd]
    rfl
  rw [skipComment, takeWhile_run h hahead hrun hstop]

theorem skipGap_none {blanks : List Char} (h : 0 ≤ c.position) (hahead : c.ahead = blanks ++ rest)
    (hblanks : ∀ d ∈ blanks, isSpace d = true) (hrest : StartsNoGap rest) :
    c.skipGap = (.ok (), c.past blanks) := by
  have hrun := takeWhile_run (p := isGap) h hahead hblanks fun d hd => (hrest d hd).1
  have hpeek : (c.past blanks).peek 0 ≠ some '#' := by
    rw [peek_zero (inside_past h blanks), ahead_past h hahead]
    intro hhash
    exact (hrest '#' hhash).2 rfl
  rw [skipGap]
  split
  · next hgap =>
    rw [hrun] at hgap
    cases hgap
  · next hgap =>
    rw [hrun] at hgap
    cases hgap
    rw [if_neg (by simpa using hpeek)]

theorem skipGap_comment {blanks body : List Char} (h : 0 ≤ c.position)
    (hahead : c.ahead = blanks ++ '#' :: (body ++ rest))
    (hblanks : ∀ d ∈ blanks, isSpace d = true) (hbody : '\n' ∉ body)
    (hrest : ∀ d ∈ rest.head?, d = '\n') :
    c.skipGap = (c.past (blanks ++ '#' :: body)).skipGap := by
  have hrun := takeWhile_run (p := isGap) h hahead hblanks (by rintro d ⟨⟩; rfl)
  have hinside := inside_past h blanks
  have hahead' := ahead_past h hahead
  have hpeek : (c.past blanks).peek 0 = some '#' := by rw [peek_zero hinside, hahead']; rfl
  have hstep := next_of_cons hinside hahead'
  have hinside' : 0 ≤ ((c.past blanks).step '#').position := by rw [position_step]; omega
  have hcomment := skipComment_eq hinside' (ahead_step hinside hahead') hbody hrest
  rw [skipGap]
  split
  · next hgap =>
    rw [hrun] at hgap
    cases hgap
  · next hgap =>
    rw [hrun] at hgap
    cases hgap
    rw [if_pos (by simpa using hpeek)]
    split
    · next hnext =>
      rw [hstep] at hnext
      cases hnext
    · next hnext =>
      rw [hstep] at hnext
      cases hnext
      split
      · next hskip =>
        rw [hcomment] at hskip
        cases hskip
      · next hskip =>
        rw [hcomment] at hskip
        cases hskip
        rw [past_append, past_cons]

/-- The scanner crosses a gap up to a text at which no gap starts. -/
theorem skipGap_of_gap {g : List Char} (hgap : Gap g rest) (hrest : StartsNoGap rest)
    {blanks : List Char} (hblanks : ∀ d ∈ blanks, isSpace d = true) (h : 0 ≤ c.position)
    (hahead : c.ahead = blanks ++ (g ++ rest)) : c.skipGap = (.ok (), c.past (blanks ++ g)) := by
  -- The scanner takes a run of blanks at once, a gap has them one by one: those that are passed
  -- already are kept until a comment or the end of the gap.
  induction hgap generalizing c blanks with
  | nil rest =>
      rw [List.append_nil]
      exact skipGap_none h hahead hblanks hrest
  | @blank d g rest hd _ ih =>
      have hsplit : blanks ++ d :: g = (blanks ++ [d]) ++ g := by simp
      rw [hsplit]
      refine ih hrest (fun e he => ?_) h (by simpa using hahead)
      rcases List.mem_append.mp he with he | he
      · exact hblanks e he
      · rwa [List.mem_singleton.mp he]
  | @comment body g rest hbody hhead _ ih =>
      have hahead' : c.ahead = blanks ++ '#' :: (body ++ (g ++ rest)) := by simpa using hahead
      have hsplit : blanks ++ '#' :: (body ++ g) = (blanks ++ '#' :: body) ++ g := by simp
      have hnone : ∀ d ∈ ([] : List Char), isSpace d = true := by simp
      rw [skipGap_comment h hahead' hblanks hbody hhead, hsplit,
        past_append c (blanks ++ '#' :: body) g]
      refine ih hrest hnone (inside_past h _) (ahead_past h ?_)
      simpa using hahead

/-! ## Numbers -/

section Numbers

variable {ds es : List Char} {start : Position}

theorem takeDigits (h : 0 ≤ c.position) (hahead : c.ahead = ds ++ rest)
    (hds : ∀ d ∈ ds, isDigit d = true) (hrest : ∀ d ∈ rest.head?, isDigit d = false) :
    c.takeWhile isDigitAhead = (.ok ds, c.past ds) :=
  takeWhile_run h hahead hds hrest

theorem takeNumber_whole (h : 0 ≤ c.position) (hahead : c.ahead = ds ++ rest)
    (hds : ∀ d ∈ ds, isDigit d = true) (hrest : EndsNumber rest) :
    c.takeNumber start = (.ok ds, c.past ds) := by
  have hpeek : (c.past ds).peek 0 ≠ some '.' := by
    rw [peek_zero (inside_past h ds), ahead_past h hahead]
    intro hpoint
    exact (hrest '.' hpoint).2 rfl
  simp [takeNumber, takeDigits h hahead hds fun d hd => (hrest d hd).1, hpeek]

theorem takeNumber_lonePoint (h : 0 ≤ c.position) (hahead : c.ahead = ds ++ '.' :: rest)
    (hds : ∀ d ∈ ds, isDigit d = true) (hrest : ∀ d ∈ rest.head?, isDigit d = false) :
    c.takeNumber start =
      (.error (.malformedNumber (String.ofList (ds ++ ['.'])) start), c.past ds) := by
  have hinside := inside_past h ds
  have hahead' := ahead_past h hahead
  have hpeek : (c.past ds).peek 0 = some '.' := by rw [peek_zero hinside, hahead']; rfl
  have hnext : isDigitAhead ((c.past ds).peek 1) = false := by
    rw [peek_one hinside hahead']
    cases hhead : rest.head? with
    | none => rfl
    | some d => exact hrest d hhead
  have hwhole := takeDigits h hahead hds (by rintro d ⟨⟩; exact isDigit_of_isSign rfl)
  simp [takeNumber, hwhole, hpeek, hnext]

theorem takeFraction (h : 0 ≤ c.position) (hahead : c.ahead = ds ++ '.' :: (es ++ rest))
    (hds : ∀ d ∈ ds, isDigit d = true) (hne : es ≠ []) (hes : ∀ d ∈ es, isDigit d = true)
    (hrest : ∀ d ∈ rest.head?, isDigit d = false) :
    c.takeNumber start =
      if (c.past (ds ++ '.' :: es)).peek 0 == some '.' then
        (.error (.malformedNumber (String.ofList (ds ++ '.' :: es ++ ['.'])) start),
          c.past (ds ++ '.' :: es))
      else (.ok (ds ++ '.' :: es), c.past (ds ++ '.' :: es)) := by
  have hinside := inside_past h ds
  have hahead' := ahead_past h hahead
  have hpeek : (c.past ds).peek 0 = some '.' := by rw [peek_zero hinside, hahead']; rfl
  have hnext : isDigitAhead ((c.past ds).peek 1) = true := by
    obtain ⟨e, es, rfl⟩ := List.exists_cons_of_ne_nil hne
    rw [peek_one hinside hahead']
    exact hes e List.mem_cons_self
  have hwhole := takeDigits h hahead hds (by rintro d ⟨⟩; exact isDigit_of_isSign rfl)
  have hinside' : 0 ≤ ((c.past ds).step '.').position := by rw [position_step]; omega
  have hfraction := takeDigits hinside' (ahead_step hinside hahead') hes hrest
  have hpast : ((c.past ds).step '.').past es = c.past (ds ++ '.' :: es) := by
    rw [past_append, past_cons]
  rw [hpast] at hfraction
  simp only [takeNumber, hwhole, hpeek, hnext, hfraction, beq_self_eq_true, if_true]

theorem takeNumber_point (h : 0 ≤ c.position) (hahead : c.ahead = ds ++ '.' :: (es ++ rest))
    (hds : ∀ d ∈ ds, isDigit d = true) (hne : es ≠ []) (hes : ∀ d ∈ es, isDigit d = true)
    (hrest : EndsNumber rest) :
    c.takeNumber start = (.ok (ds ++ '.' :: es), c.past (ds ++ '.' :: es)) := by
  have hpeek : (c.past (ds ++ '.' :: es)).peek 0 ≠ some '.' := by
    rw [peek_zero (inside_past h _), ahead_past h (by simpa using hahead)]
    intro hpoint
    exact (hrest '.' hpoint).2 rfl
  rw [takeFraction h hahead hds hne hes fun d hd => (hrest d hd).1, if_neg (by simpa using hpeek)]

theorem takeNumber_secondPoint (h : 0 ≤ c.position)
    (hahead : c.ahead = ds ++ '.' :: (es ++ '.' :: rest)) (hds : ∀ d ∈ ds, isDigit d = true)
    (hne : es ≠ []) (hes : ∀ d ∈ es, isDigit d = true) :
    c.takeNumber start =
      (.error (.malformedNumber (String.ofList (ds ++ '.' :: es ++ ['.'])) start),
        c.past (ds ++ '.' :: es)) := by
  have hpeek : (c.past (ds ++ '.' :: es)).peek 0 = some '.' := by
    rw [peek_zero (inside_past h _), ahead_past h (by simpa using hahead)]
    rfl
  rw [takeFraction h hahead hds hne hes (by rintro d ⟨⟩; exact isDigit_of_isSign rfl),
    if_pos (by simpa using hpeek)]

theorem takeNumber_of_spelling {l : List Char} (h : 0 ≤ c.position) (hahead : c.ahead = l ++ rest)
    (hl : Spelling l) (hrest : EndsNumber rest) : c.takeNumber start = (.ok l, c.past l) := by
  cases hl with
  | whole _ hds => exact takeNumber_whole h hahead hds hrest
  | point _ hne hds hes => exact takeNumber_point h (by simpa using hahead) hds hne hes hrest

end Numbers

/-! ## Tokens -/

theorem readToken_of_lexeme {l : List Char} {kind : Token.Kind} {value : Value}
    (hl : Lexeme l rest kind value) (h : 0 ≤ c.position) (hahead : c.ahead = l ++ rest) :
    ∃ character, c.peek 0 = some character ∧
      c.readToken character = (.ok ⟨kind, value, c.pos, l.length⟩, c.past l) := by
  rw [peek_zero h, hahead]
  cases hl with
  | @punctuation character kind _ hkind =>
      refine ⟨character, rfl, ?_⟩
      have hsign := isSign_of_punctuation? hkind
      have hword := startsWord_of_isWordAhead (isWordAhead_of_isSign hsign)
      simp [readToken, isDigit_of_isSign hsign, hword, hkind, Token.ofValue, Value.display]
  | @number l rest x hnumeral hrest =>
      obtain ⟨d, ds, rfl, hd⟩ := hnumeral.spelling.exists_digit
      refine ⟨d, rfl, ?_⟩
      rw [readToken, if_pos hd, readNumber,
        takeNumber_of_spelling h hahead hnumeral.spelling hrest]
      simp only [hnumeral.literal?]
  | @word character cs rest hcharacter hcs hrest =>
      refine ⟨character, rfl, ?_⟩
      have hdigit : isDigit character = false := by
        cases hd : isDigit character with
        | false => rfl
        | true =>
            rw [startsWord_of_isDigit hd] at hcharacter
            cases hcharacter
      have hrun := takeWhile_run h hahead
        (List.forall_mem_cons.mpr ⟨isWordAhead_of_startsWord hcharacter, hcs⟩) hrest
      have hword : Token.ofValue (wordKind (String.ofList (character :: cs)))
          (.text (String.ofList (character :: cs))) c.pos =
            ⟨if String.ofList (character :: cs) = "print" then .print else .name,
              .text (String.ofList (character :: cs)), c.pos, (character :: cs).length⟩ := by
        simp only [Token.ofValue, Value.display, wordKind, String.length_ofList, beq_iff_eq]
      simp only [readToken, hdigit, hcharacter, readWord, hrun, hword, Bool.false_eq_true, if_false,
        if_true]

theorem readToken_of_malformed {l : List Char} {e : ScanError}
    (hl : ∃ digit ds, l = digit :: ds ∧ isDigit digit = true) (h : 0 ≤ c.position)
    (hahead : c.ahead = l ++ rest) (hread : (c.readNumber c.pos).1 = .error e) :
    ∃ character, c.peek 0 = some character ∧ (c.readToken character).1 = .error e := by
  obtain ⟨digit, ds, rfl, hdigit⟩ := hl
  refine ⟨digit, ?_, ?_⟩
  · rw [peek_zero h, hahead]
    rfl
  · rw [readToken, if_pos hdigit, hread]

theorem readToken_of_fault {text : List Char} {e : ScanError} (he : Fault c.pos text e)
    (h : 0 ≤ c.position) (hahead : c.ahead = text) :
    ∃ character, c.peek 0 = some character ∧ (c.readToken character).1 = .error e := by
  have hdigits {ds : List Char} (hne : ds ≠ []) (hds : ∀ d ∈ ds, isDigit d = true) :
      ∃ digit tail, ds = digit :: tail ∧ isDigit digit = true :=
    (Spelling.whole hne hds).exists_digit
  cases he with
  | @character character rest hdigit hword hkind =>
      refine ⟨character, ?_, by simp [readToken, hdigit, hword, hkind]⟩
      rw [peek_zero h, hahead]
      rfl
  | lonePoint hne hds hrest =>
      refine readToken_of_malformed (hdigits hne hds) h hahead ?_
      rw [readNumber, takeNumber_lonePoint h hahead hds hrest]
  | secondPoint rest hne hne' hds hes =>
      refine readToken_of_malformed (hdigits hne hds) h hahead ?_
      rw [readNumber, takeNumber_secondPoint h hahead hds hne' hes]
  | @notDecimal l rest hl hrest hnone =>
      have hliteral : Number.literal? l = none := by
        rw [Option.eq_none_iff_forall_ne_some]
        exact fun x hx => hnone x (hl.numeral hx)
      refine readToken_of_malformed hl.exists_digit h hahead ?_
      rw [readNumber, takeNumber_of_spelling h hahead hl hrest]
      simp only [hliteral]

/-! ## The next token -/

section Next

variable {g : List Char} (hgap : Gap g rest) (hrest : StartsNoGap rest) (h : 0 ≤ c.position)
  (hahead : c.ahead = g ++ rest)

include hgap hrest h hahead

theorem skipGap_eq : c.skipGap = (.ok (), c.past g) := by
  have hnone : ∀ d ∈ ([] : List Char), isSpace d = true := by simp
  exact skipGap_of_gap hgap hrest hnone h hahead

theorem nextToken_of_end (hnil : rest = []) : c.nextToken = (.ok none, c.past g) := by
  have hpeek : (c.past g).peek 0 = none := by
    rw [peek_zero (inside_past h g), ahead_past h hahead, hnil]
    rfl
  simp only [nextToken, skipGap_eq hgap hrest h hahead, hpeek]

theorem nextToken_of_lexeme {l more : List Char} {kind : Token.Kind} {value : Value}
    (hsplit : rest = l ++ more) (hl : Lexeme l more kind value) :
    c.nextToken = (.ok (some ⟨kind, value, c.pos.past g, l.length⟩), (c.past g).past l) := by
  obtain ⟨character, hpeek, hread⟩ := readToken_of_lexeme hl (inside_past h g)
    ((ahead_past h hahead).trans hsplit)
  simp only [nextToken, skipGap_eq hgap hrest h hahead, hpeek, hread, pos_past]

theorem nextToken_of_fault {e : ScanError} (he : Fault (c.pos.past g) rest e) :
    c.nextToken.1 = .error e := by
  rw [← pos_past] at he
  obtain ⟨character, hpeek, hread⟩ := readToken_of_fault he (inside_past h g) (ahead_past h hahead)
  simp only [nextToken, skipGap_eq hgap hrest h hahead, hpeek]
  split
  · next hok =>
    rw [hok] at hread
    cases hread
  · next herror =>
    rw [herror] at hread
    cases hread
    rfl

end Next

/-- A cursor before a text. -/
def before (p : Position) (text : List Char) : Cursor :=
  ⟨text.toArray, 0, p.line, p.col⟩

@[simp] theorem ahead_before (p : Position) (text : List Char) : (before p text).ahead = text := by
  simp [before, ahead]

end Cursor

/-! ## There is one way to cut -/

theorem eq_of_past {c : Cursor} {cs ds xs ys : List Char} (h : c.past cs = c.past ds)
    (hsplit : cs ++ xs = ds ++ ys) : cs = ds ∧ xs = ys := by
  have hlen : cs.length = ds.length := by
    have hpos := congrArg Cursor.position h
    simp only [Cursor.position_past] at hpos
    omega
  exact List.append_inj hsplit hlen

theorem Gap.unique {g g' rest rest' : List Char} (hgap : Gap g rest) (hgap' : Gap g' rest')
    (hrest : StartsNoGap rest) (hrest' : StartsNoGap rest') (h : g ++ rest = g' ++ rest') :
    g = g' ∧ rest = rest' := by
  -- Both are what the scanner crosses from the same cursor, and it is a function.
  let c := Cursor.before .unknown (g ++ rest)
  have hskip : c.skipGap = (.ok (), c.past g) :=
    Cursor.skipGap_eq hgap hrest (Int.le_refl 0) (Cursor.ahead_before _ _)
  have hskip' : c.skipGap = (.ok (), c.past g') :=
    Cursor.skipGap_eq hgap' hrest' (Int.le_refl 0) ((Cursor.ahead_before _ _).trans h)
  exact eq_of_past (congrArg Prod.snd (hskip.symm.trans hskip')) h

theorem Lexeme.unique {l l' rest rest' : List Char} {kind kind' : Token.Kind}
    {value value' : Value} (hl : Lexeme l rest kind value) (hl' : Lexeme l' rest' kind' value')
    (h : l ++ rest = l' ++ rest') :
    l = l' ∧ rest = rest' ∧ kind = kind' ∧ value = value' := by
  let c := Cursor.before .unknown (l ++ rest)
  obtain ⟨d, hpeek, hread⟩ :=
    Cursor.readToken_of_lexeme (c := c) hl (Int.le_refl 0) (Cursor.ahead_before _ _)
  obtain ⟨d', hpeek', hread'⟩ :=
    Cursor.readToken_of_lexeme (c := c) hl' (Int.le_refl 0) ((Cursor.ahead_before _ _).trans h)
  rw [hpeek] at hpeek'
  cases hpeek'
  rw [hread] at hread'
  obtain ⟨htoken, hpast⟩ := Prod.mk.inj hread'
  obtain ⟨rfl, rfl⟩ := eq_of_past hpast h
  cases htoken
  exact ⟨rfl, rfl, rfl, rfl⟩

/-- A fault is no lexeme. -/
theorem Fault.not_lexeme {p : Position} {text : List Char} {e : ScanError} (he : Fault p text e)
    {l rest : List Char} {kind : Token.Kind} {value : Value} (h : text = l ++ rest) :
    ¬ Lexeme l rest kind value := by
  intro hl
  let c := Cursor.before p text
  obtain ⟨d, hpeek, hread⟩ :=
    Cursor.readToken_of_lexeme (c := c) hl (Int.le_refl 0) ((Cursor.ahead_before _ _).trans h)
  obtain ⟨d', hpeek', hread'⟩ :=
    Cursor.readToken_of_fault (c := c) he (Int.le_refl 0) (Cursor.ahead_before _ _)
  rw [hpeek] at hpeek'
  cases hpeek'
  rw [hread] at hread'
  cases hread'

theorem Fault.unique {p : Position} {text : List Char} {e e' : ScanError} (he : Fault p text e)
    (he' : Fault p text e') : e = e' := by
  let c := Cursor.before p text
  obtain ⟨d, hpeek, hread⟩ :=
    Cursor.readToken_of_fault (c := c) he (Int.le_refl 0) (Cursor.ahead_before _ _)
  obtain ⟨d', hpeek', hread'⟩ :=
    Cursor.readToken_of_fault (c := c) he' (Int.le_refl 0) (Cursor.ahead_before _ _)
  rw [hpeek] at hpeek'
  cases hpeek'
  rw [hread] at hread'
  exact Except.error.inj hread'

theorem Cut.unique {p q q' : Position} {text : List Char} {ts ts' : List Token} {r r' : List Char}
    (h : Cut p text ts q r) (h' : Cut p text ts' q' r') : ts = ts' ∧ q = q' ∧ r = r' := by
  generalize htext : text = text' at h'
  induction h generalizing text' ts' q' r' with
  | @stop p g r hgap hhalts =>
      cases h' with
      | stop hgap' hhalts' =>
          obtain ⟨rfl, rfl⟩ := hgap.unique hgap' hhalts.1 hhalts'.1 htext
          exact ⟨rfl, rfl, rfl⟩
      | next hgap' hl _ =>
          obtain ⟨-, hr⟩ := hgap.unique hgap' hhalts.1 (hl.startsNoGap _) htext
          exact absurd hl (hhalts.2 _ _ _ _ hr)
  | @next p q g l rest r kind value ts hgap hl _ ih =>
      cases h' with
      | stop hgap' hhalts' =>
          obtain ⟨-, hr⟩ := hgap.unique hgap' (hl.startsNoGap _) hhalts'.1 htext
          exact absurd hl (hhalts'.2 _ _ _ _ hr.symm)
      | next hgap' hl' hcut' =>
          obtain ⟨rfl, hr⟩ := hgap.unique hgap' (hl.startsNoGap _) (hl'.startsNoGap _) htext
          obtain ⟨rfl, rfl, rfl, rfl⟩ := hl.unique hl' hr
          obtain ⟨rfl, rfl, rfl⟩ := ih _ rfl hcut'
          exact ⟨rfl, rfl, rfl⟩

/-! ## Every text is cut -/

/-- At every text where no gap starts there is the end, a lexeme or a fault. -/
theorem lexeme_or_fault (p : Position) {text : List Char} (h : StartsNoGap text) :
    text = [] ∨ (∃ l rest kind value, text = l ++ rest ∧ Lexeme l rest kind value) ∨
      ∃ e, Fault p text e := by
  cases text with
  | nil => exact Or.inl rfl
  | cons c cs =>
      right
      cases hdigit : isDigit c with
      | true =>
          rcases spelling_cases cs hdigit with ⟨l, rest, hsplit, hl, hrest⟩ |
            ⟨ds, rest, hsplit, hne, hds, hrest⟩ | ⟨ds, es, rest, hsplit, hne, hne', hds, hes⟩
          · by_cases hnumeral : ∃ x, Numeral l x
            · obtain ⟨x, hx⟩ := hnumeral
              exact Or.inl ⟨l, rest, _, _, hsplit, .number hx hrest⟩
            · rw [hsplit]
              exact Or.inr ⟨_, .notDecimal hl hrest fun x hx => hnumeral ⟨x, hx⟩⟩
          · rw [hsplit]
            exact Or.inr ⟨_, .lonePoint hne hds hrest⟩
          · rw [hsplit]
            exact Or.inr ⟨_, .secondPoint rest hne hne' hds hes⟩
      | false =>
          cases hword : startsWord c with
          | true =>
              obtain ⟨ds, rest, rfl, hds, hrest⟩ :=
                exists_longest_run (fun d => isWordAhead (some d)) cs
              exact Or.inl ⟨c :: ds, rest, _, _, rfl, .word hword hds hrest⟩
          | false =>
              cases hkind : punctuation? c with
              | some kind => exact Or.inl ⟨[c], cs, kind, _, rfl, .punctuation cs hkind⟩
              | none => exact Or.inr ⟨_, .character cs hdigit hword hkind⟩

theorem Fault.halts {p : Position} {text : List Char} {e : ScanError} (he : Fault p text e)
    (h : StartsNoGap text) : Halts text :=
  ⟨h, fun _ _ _ _ hsplit => he.not_lexeme hsplit⟩

theorem halts_nil : Halts [] := by
  refine ⟨by simp [StartsNoGap], fun l rest kind value hsplit hl => hl.ne_nil ?_⟩
  exact (List.append_eq_nil_iff.mp hsplit.symm).1

theorem Fault.ne_nil {p : Position} {text : List Char} {e : ScanError} (he : Fault p text e) :
    text ≠ [] := by
  cases he with
  | notDecimal hl _ _ =>
      obtain ⟨d, ds, rfl, -⟩ := hl.exists_digit
      simp
  | _ => simp

/-- What is left of a text is empty or starts with a fault. -/
theorem Halts.cases {text : List Char} (h : Halts text) (p : Position) :
    text = [] ∨ ∃ e, Fault p text e := by
  rcases lexeme_or_fault p h.1 with hnil | ⟨l, rest, kind, value, hsplit, hl⟩ | hfault
  · exact Or.inl hnil
  · exact absurd hl (h.2 l rest kind value hsplit)
  · exact Or.inr hfault

theorem exists_cut (p : Position) (text : List Char) : ∃ ts q r, Cut p text ts q r := by
  obtain ⟨g, rest, rfl, hgap, hrest⟩ := exists_gap text
  rcases lexeme_or_fault p hrest with rfl | ⟨l, more, kind, value, rfl, hl⟩ | ⟨e, he⟩
  · exact ⟨[], _, [], .stop hgap halts_nil⟩
  · have hless : more.length < (g ++ (l ++ more)).length := by
      have hpos := List.length_pos_iff.mpr hl.ne_nil
      simp only [List.length_append]
      omega
    obtain ⟨ts, q, r, hcut⟩ := exists_cut ((p.past g).past l) more
    exact ⟨_, q, r, .next hgap hl hcut⟩
  · exact ⟨[], _, rest, .stop hgap (he.halts hrest)⟩
termination_by text.length

theorem Scans.unique {p : Position} {text : List Char} {ts ts' : List Token}
    {error? error?' : Option ScanError} (h : Scans p text ts error?)
    (h' : Scans p text ts' error?') : ts = ts' ∧ error? = error?' := by
  match error?, error?' with
  | none, none =>
      obtain ⟨q, hcut⟩ := h
      obtain ⟨q', hcut'⟩ := h'
      exact ⟨(hcut.unique hcut').1, rfl⟩
  | none, some e =>
      obtain ⟨q, hcut⟩ := h
      obtain ⟨q', r, hcut', he⟩ := h'
      exact absurd (hcut.unique hcut').2.2.symm he.ne_nil
  | some e, none =>
      obtain ⟨q, r, hcut, he⟩ := h
      obtain ⟨q', hcut'⟩ := h'
      exact absurd (hcut.unique hcut').2.2 he.ne_nil
  | some e, some e' =>
      obtain ⟨q, r, hcut, he⟩ := h
      obtain ⟨q', r', hcut', he'⟩ := h'
      obtain ⟨rfl, rfl, rfl⟩ := hcut.unique hcut'
      exact ⟨rfl, congrArg some (he.unique he')⟩

/-! ## The scanner cuts -/

theorem scans_tokens {p q : Position} {text : List Char} {ts : List Token} {r : List Char}
    (hcut : Cut p text ts q r) {c : Cursor} (h : 0 ≤ c.position) (hpos : c.pos = p)
    (hahead : c.ahead = text) : Scans p text c.tokens.tokens c.tokens.error? := by
  induction hcut generalizing c with
  | @stop p g r hgap hhalts =>
      subst hpos
      rcases hhalts.cases (c.pos.past g) with rfl | ⟨e, he⟩
      · rw [Cursor.tokens_of_none (Cursor.nextToken_of_end hgap hhalts.1 h hahead rfl)]
        exact ⟨_, .stop hgap hhalts⟩
      · have hnext := Cursor.nextToken_of_fault hgap hhalts.1 h hahead he
        rw [Cursor.tokens_of_error (Prod.ext hnext rfl)]
        exact ⟨_, r, .stop hgap hhalts, he⟩
  | @next p q g l rest r kind value ts hgap hl _ ih =>
      subst hpos
      have hnext := Cursor.nextToken_of_lexeme hgap (hl.startsNoGap rest) h hahead rfl hl
      have hinside := Cursor.inside_past (Cursor.inside_past h g) l
      have hahead' := Cursor.ahead_past (Cursor.inside_past h g) (Cursor.ahead_past h hahead)
      have hscans := ih hinside (by simp) hahead'
      rw [Cursor.tokens_of_some hnext]
      -- The error is that of the rest, so that only the cut gets longer.
      revert hscans
      cases ((c.past g).past l).tokens.error? with
      | none =>
          rintro ⟨q, hcut⟩
          exact ⟨q, .next hgap hl hcut⟩
      | some e =>
          rintro ⟨q, r, hcut, he⟩
          exact ⟨q, r, .next hgap hl hcut, he⟩

/-- The scanner finds the tokens of a text, and the error at its first fault. -/
theorem scans_tokenize (source : String) :
    Scans ⟨1, 1⟩ source.toList (tokenize source).tokens (tokenize source).error? := by
  obtain ⟨ts, q, r, hcut⟩ := exists_cut ⟨1, 1⟩ source.toList
  exact scans_tokens hcut (Int.le_refl 0) rfl (Cursor.ahead_start source)

/-! ## Nothing is lost -/

theorem Cut.text_eq {p q : Position} {text : List Char} {ts : List Token} {r : List Char}
    (h : Cut p text ts q r) :
    ∃ gaps lexemes last, text = (List.zipWith (· ++ ·) gaps lexemes).flatten ++ last ++ r ∧
      gaps.length = ts.length ∧ lexemes.map (fun l => (l.length : Int)) = ts.map Token.length := by
  induction h with
  | @stop p g r hgap hhalts => exact ⟨[], [], g, by simp, rfl, rfl⟩
  | @next p q g l rest r kind value ts hgap hl _ ih =>
      obtain ⟨gaps, lexemes, last, rfl, hgaps, hlexemes⟩ := ih
      exact ⟨g :: gaps, l :: lexemes, last, by simp, by simp [hgaps], by simp [hlexemes]⟩

theorem Cut.pos_eq {p q : Position} {text : List Char} {ts : List Token} {r : List Char}
    (h : Cut p text ts q r) : ∃ consumed, text = consumed ++ r ∧ q = p.past consumed := by
  induction h with
  | @stop p g r hgap hhalts => exact ⟨g, rfl, rfl⟩
  | @next p q g l rest r kind value ts hgap hl _ ih =>
      obtain ⟨consumed, rfl, rfl⟩ := ih
      exact ⟨g ++ (l ++ consumed), by simp, by rw [Position.past_append, Position.past_append]⟩

/-- The scanner cuts every text by maximal munch: its tokens are those of the only way to cut the
text into gaps and lexemes, no character is lost, and the rest is empty exactly if there is no
error. Otherwise it is the text at the fault that the error reports. -/
theorem tokenize_munch (source : String) :
    ∃ q r, Cut ⟨1, 1⟩ source.toList (tokenize source).tokens q r ∧
      (∀ ts q' r', Cut ⟨1, 1⟩ source.toList ts q' r' →
        ts = (tokenize source).tokens ∧ q' = q ∧ r' = r) ∧
      (∃ gaps lexemes last,
        source.toList = (List.zipWith (· ++ ·) gaps lexemes).flatten ++ last ++ r ∧
        gaps.length = (tokenize source).tokens.length ∧
        lexemes.map (fun l => (l.length : Int)) = (tokenize source).tokens.map Token.length) ∧
      (∃ consumed, source.toList = consumed ++ r ∧ q = Position.past ⟨1, 1⟩ consumed) ∧
      ((tokenize source).error? = none ↔ r = []) ∧
      ∀ e, (tokenize source).error? = some e → Fault q r e := by
  have hscans := scans_tokenize source
  cases herror : (tokenize source).error? with
  | none =>
      rw [herror] at hscans
      obtain ⟨q, hcut⟩ := hscans
      exact ⟨q, [], hcut, fun ts q' r' hcut' => hcut'.unique hcut, hcut.text_eq, hcut.pos_eq,
        by simp, by simp⟩
  | some e =>
      rw [herror] at hscans
      obtain ⟨q, r, hcut, he⟩ := hscans
      refine ⟨q, r, hcut, fun ts q' r' hcut' => hcut'.unique hcut, hcut.text_eq, hcut.pos_eq,
        by simp [he.ne_nil], ?_⟩
      rintro e' ⟨⟩
      exact he

end Reckoner
