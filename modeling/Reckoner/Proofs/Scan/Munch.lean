import Mathlib.Algebra.Group.Nat.Defs
import Mathlib.Data.List.Forall2
import Mathlib.Data.List.TakeDrop
import Reckoner.Proofs.Scan.Ahead
import Reckoner.Proofs.Text.Classes

/-!
# Gaps and lexemes

How a text is cut into tokens is said here without a scanner. Gaps of blanks and comments stand
between lexemes: single punctuation characters, well-formed numbers and words. A number or a word is
as long as it can be, which is a condition on the character after it. The cut ends at the end of the
text or where no lexeme starts; what is wrong there is one of four faults.
-/

namespace Reckoner

open Text (isDigit decimalValue?)

def isSpace (c : Char) : Bool :=
  c == ' ' || c == '\t' || c == '\r'

/-- Blanks and comments before the rest of a text. A comment goes on up to the end of its line or of
the text. -/
inductive Gap : List Char → List Char → Prop
  | nil (rest : List Char) : Gap [] rest
  | blank {c : Char} {g rest : List Char} : isSpace c = true → Gap g rest → Gap (c :: g) rest
  | comment {body g rest : List Char} :
      '\n' ∉ body → (∀ c ∈ (g ++ rest).head?, c = '\n') → Gap g rest →
        Gap ('#' :: (body ++ g)) rest

/-- Whether neither a blank nor a comment starts at the text. -/
def StartsNoGap (text : List Char) : Prop :=
  ∀ c ∈ text.head?, isSpace c = false ∧ c ≠ '#'

/-- Digits of any script, with at most one point, which has a digit on both sides. -/
inductive Spelling : List Char → Prop
  | whole {ds : List Char} : ds ≠ [] → (∀ d ∈ ds, isDigit d = true) → Spelling ds
  | point {ds es : List Char} :
      ds ≠ [] → es ≠ [] → (∀ d ∈ ds, isDigit d = true) → (∀ d ∈ es, isDigit d = true) →
        Spelling (ds ++ '.' :: es)

/-- The values of decimal digits. -/
def Digits : List Char → List Nat → Prop :=
  List.Forall₂ fun c d => decimalValue? c = some d

/-- Well-formed numbers, whose digits are all decimal, with the double nearest to them. -/
inductive Numeral : List Char → Float → Prop
  | whole {ds : List Char} {values : List Nat} :
      ds ≠ [] → Digits ds values → Numeral ds (Number.nearest (Number.ofDigits values) 1)
  | point {ds es : List Char} {values fraction : List Nat} :
      ds ≠ [] → es ≠ [] → Digits ds values → Digits es fraction →
        Numeral (ds ++ '.' :: es)
          (Number.nearest (Number.ofDigits (values ++ fraction)) (10 ^ fraction.length))

/-- Whether the text goes on with neither a digit nor a point. -/
def EndsNumber (text : List Char) : Prop :=
  ∀ c ∈ text.head?, isDigit c = false ∧ c ≠ '.'

/-- Pieces of text that are tokens of a kind with a value, before the rest of the text. -/
inductive Lexeme : List Char → List Char → Token.Kind → Value → Prop
  | punctuation {c : Char} {kind : Token.Kind} (rest : List Char) :
      punctuation? c = some kind → Lexeme [c] rest kind (.text (String.singleton c))
  | number {l rest : List Char} {x : Float} :
      Numeral l x → EndsNumber rest → Lexeme l rest .number (.number x)
  | word {c : Char} {cs rest : List Char} :
      startsWord c = true → (∀ d ∈ cs, isWordAhead (some d) = true) →
        (∀ d ∈ rest.head?, isWordAhead (some d) = false) →
          Lexeme (c :: cs) rest
            (if String.ofList (c :: cs) = "print" then .print else .name)
            (.text (String.ofList (c :: cs)))

/-- What is wrong with a text at a position where no lexeme starts. -/
inductive Fault (p : Position) : List Char → ScanError → Prop
  | character {c : Char} (rest : List Char) :
      isDigit c = false → startsWord c = false → punctuation? c = none →
        Fault p (c :: rest) (.unexpectedCharacter c p)
  | lonePoint {ds rest : List Char} :
      ds ≠ [] → (∀ d ∈ ds, isDigit d = true) → (∀ c ∈ rest.head?, isDigit c = false) →
        Fault p (ds ++ '.' :: rest) (.malformedNumber (String.ofList (ds ++ ['.'])) p)
  | secondPoint {ds es : List Char} (rest : List Char) :
      ds ≠ [] → es ≠ [] → (∀ d ∈ ds, isDigit d = true) → (∀ d ∈ es, isDigit d = true) →
        Fault p (ds ++ '.' :: (es ++ '.' :: rest))
          (.malformedNumber (String.ofList (ds ++ '.' :: es ++ ['.'])) p)
  | notDecimal {l rest : List Char} :
      Spelling l → EndsNumber rest → (∀ x, ¬ Numeral l x) →
        Fault p (l ++ rest) (.malformedNumber (String.ofList l) p)

/-- Whether the text has ended or no lexeme starts at it. -/
def Halts (text : List Char) : Prop :=
  StartsNoGap text ∧
    ∀ l rest kind value, text = l ++ rest → ¬ Lexeme l rest kind value

/-- The tokens of a text that starts at a position, and what is left of it, with its position, where
no further lexeme starts. -/
inductive Cut : Position → List Char → List Token → Position → List Char → Prop
  | stop {p : Position} {g r : List Char} : Gap g r → Halts r → Cut p (g ++ r) [] (p.past g) r
  | next {p q : Position} {g l rest r : List Char} {kind : Token.Kind} {value : Value}
      {ts : List Token} :
      Gap g (l ++ rest) → Lexeme l rest kind value → Cut ((p.past g).past l) rest ts q r →
        Cut p (g ++ (l ++ rest)) (⟨kind, value, p.past g, l.length⟩ :: ts) q r

/-- The tokens of a text that starts at a position, and the error at the fault where they end. -/
def Scans (p : Position) (text : List Char) (ts : List Token) : Option ScanError → Prop
  | none => ∃ q, Cut p text ts q []
  | some e => ∃ q r, Cut p text ts q r ∧ Fault q r e

/-! ## Numbers -/

theorem Digits.isDigit {ds : List Char} {values : List Nat} (h : Digits ds values) :
    ∀ d ∈ ds, isDigit d = true := by
  induction h with
  | nil => simp
  | cons hd _ ih => exact List.forall_mem_cons.mpr ⟨Text.isDigit_of_decimalValue? hd, ih⟩

theorem digits_iff_mapM {ds : List Char} {values : List Nat} :
    Digits ds values ↔ ds.mapM decimalValue? = some values := by
  induction ds generalizing values with
  | nil =>
      rw [List.mapM_nil]
      exact ⟨fun h => by cases h; rfl, fun h => by cases h; exact .nil⟩
  | cons d ds ih =>
      rw [List.mapM_cons]
      constructor
      · intro h
        cases h with
        | cons hd hds => simp [hd, ih.mp hds]
      · intro h
        simp only [Option.bind_eq_bind, Option.bind_eq_some_iff, Option.pure_def,
          Option.some.injEq] at h
        obtain ⟨value, hd, rest, hds, rfl⟩ := h
        exact .cons hd (ih.mpr hds)

theorem point_not_mem {ds : List Char} (h : ∀ d ∈ ds, isDigit d = true) : '.' ∉ ds := by
  intro hmem
  have hpoint := h '.' hmem
  rw [isDigit_of_isSign rfl] at hpoint
  cases hpoint

theorem Numeral.spelling {l : List Char} {x : Float} (h : Numeral l x) : Spelling l := by
  cases h with
  | whole hne hds => exact .whole hne hds.isDigit
  | point hne hne' hds hes => exact .point hne hne' hds.isDigit hes.isDigit

theorem span_of_run {p : Char → Bool} {run rest : List Char} (hrun : ∀ c ∈ run, p c = true)
    (hrest : ∀ c ∈ rest.head?, p c = false) : (run ++ rest).span p = (run, rest) := by
  have htake := takeWhile_of_run hrun hrest
  have hsplit := List.takeWhile_append_dropWhile (p := p) (l := run ++ rest)
  rw [htake] at hsplit
  rw [List.span_eq_takeWhile_dropWhile, htake, List.append_cancel_left hsplit]

theorem span_digits {ds : List Char} (h : ∀ d ∈ ds, isDigit d = true) (rest : List Char)
    (hrest : ∀ c ∈ rest.head?, c = '.') : (ds ++ rest).span (· != '.') = (ds, rest) := by
  refine span_of_run (fun c hc => bne_iff_ne.mpr ?_) fun c hc => by simp [hrest c hc]
  rintro rfl
  exact point_not_mem h hc

theorem literal?_whole {ds : List Char} (hne : ds ≠ []) (h : ∀ d ∈ ds, isDigit d = true) :
    Number.literal? ds = (ds.mapM decimalValue?).map fun values =>
      Number.nearest (Number.ofDigits values) 1 := by
  have hspan := span_digits h [] (by simp)
  rw [List.append_nil] at hspan
  rw [Number.literal?, hspan]
  cases hvalues : ds.mapM decimalValue? <;> simp [Number.digitRun?, hne, hvalues]

theorem literal?_point {ds es : List Char} (hne : es ≠ []) (h : ∀ d ∈ ds, isDigit d = true) :
    Number.literal? (ds ++ '.' :: es) = (ds.mapM decimalValue?).bind fun values =>
      (es.mapM decimalValue?).map fun fraction =>
        Number.nearest (Number.ofDigits (values ++ fraction)) (10 ^ fraction.length) := by
  have hspan := span_digits h ('.' :: es) (by simp)
  rw [Number.literal?, hspan]
  cases hvalues : ds.mapM decimalValue? <;> cases hfraction : es.mapM decimalValue? <;>
    simp [Number.digitRun?, hne, hvalues, hfraction]

theorem Numeral.literal? {l : List Char} {x : Float} (h : Numeral l x) :
    Number.literal? l = some x := by
  cases h with
  | whole hne hds => rw [literal?_whole hne hds.isDigit, digits_iff_mapM.mp hds]; rfl
  | point _ hne hds hes =>
      rw [literal?_point hne hds.isDigit, digits_iff_mapM.mp hds, digits_iff_mapM.mp hes]
      rfl

/-- The spellings that can be converted are the well-formed numbers. -/
theorem Spelling.numeral {l : List Char} (h : Spelling l) {x : Float}
    (hx : Number.literal? l = some x) : Numeral l x := by
  cases h with
  | whole hne hds =>
      rw [literal?_whole hne hds, Option.map_eq_some_iff] at hx
      obtain ⟨values, hvalues, rfl⟩ := hx
      exact .whole hne (digits_iff_mapM.mpr hvalues)
  | point hne hne' hds hes =>
      rw [literal?_point hne' hds, Option.bind_eq_some_iff] at hx
      obtain ⟨values, hvalues, hx⟩ := hx
      obtain ⟨fraction, hfraction, rfl⟩ := Option.map_eq_some_iff.mp hx
      exact .point hne hne' (digits_iff_mapM.mpr hvalues) (digits_iff_mapM.mpr hfraction)

theorem Spelling.exists_digit {l : List Char} (h : Spelling l) :
    ∃ d ds, l = d :: ds ∧ isDigit d = true := by
  cases h with
  | @whole l hne hds =>
      obtain ⟨d, ds, rfl⟩ := List.exists_cons_of_ne_nil hne
      exact ⟨d, ds, rfl, hds d List.mem_cons_self⟩
  | @point l es hne _ hds _ =>
      obtain ⟨d, ds, rfl⟩ := List.exists_cons_of_ne_nil hne
      exact ⟨d, ds ++ '.' :: es, rfl, hds d List.mem_cons_self⟩

/-- Every text that starts with a digit starts with a spelling or with too many points. -/
theorem spelling_cases {d : Char} (cs : List Char) (hd : isDigit d = true) :
    (∃ l rest, d :: cs = l ++ rest ∧ Spelling l ∧ EndsNumber rest) ∨
    (∃ ds rest, d :: cs = ds ++ '.' :: rest ∧ ds ≠ [] ∧ (∀ d ∈ ds, isDigit d = true) ∧
      ∀ c ∈ rest.head?, isDigit c = false) ∨
    ∃ ds es rest, d :: cs = ds ++ '.' :: (es ++ '.' :: rest) ∧ ds ≠ [] ∧ es ≠ [] ∧
      (∀ d ∈ ds, isDigit d = true) ∧ ∀ d ∈ es, isDigit d = true := by
  obtain ⟨ds, rest, hsplit, hds, hrest⟩ := exists_longest_run isDigit (d :: cs)
  have hne : ds ≠ [] := by
    rintro rfl
    rw [List.nil_append] at hsplit
    rw [hrest d (by rw [← hsplit]; rfl)] at hd
    cases hd
  by_cases hpoint : ∃ tail, rest = '.' :: tail
  · obtain ⟨tail, rfl⟩ := hpoint
    obtain ⟨es, rest, rfl, hes, hrest'⟩ := exists_longest_run isDigit tail
    by_cases hnil : es = []
    · subst hnil
      exact Or.inr (Or.inl ⟨ds, rest, hsplit, hne, hds, hrest'⟩)
    · by_cases hsecond : ∃ tail, rest = '.' :: tail
      · obtain ⟨tail, rfl⟩ := hsecond
        exact Or.inr (Or.inr ⟨ds, es, tail, hsplit, hne, hnil, hds, hes⟩)
      · refine Or.inl ⟨ds ++ '.' :: es, rest, by simp [hsplit], .point hne hnil hds hes, ?_⟩
        intro c hc
        refine ⟨hrest' c hc, ?_⟩
        rintro rfl
        exact hsecond (List.head?_eq_some_iff.mp hc)
  · refine Or.inl ⟨ds, rest, hsplit, .whole hne hds, fun c hc => ⟨hrest c hc, ?_⟩⟩
    rintro rfl
    exact hpoint (List.head?_eq_some_iff.mp hc)

/-! ## First characters -/

theorem isSign_of_isSpace {c : Char} (h : isSpace c = true) : isSign c = true := by
  simp only [isSpace, Bool.or_eq_true, beq_iff_eq] at h
  rcases h with (rfl | rfl) | rfl <;> rfl

theorem punctuation?_of_startsGap {c : Char} (h : isSpace c = true ∨ c = '#') :
    punctuation? c = none := by
  simp only [isSpace, Bool.or_eq_true, beq_iff_eq] at h
  rcases h with ((rfl | rfl) | rfl) | rfl <;> rfl

/-- A lexeme starts with a digit, with the start of a word or with punctuation. -/
theorem Lexeme.head_cases {l rest : List Char} {kind : Token.Kind} {value : Value}
    (h : Lexeme l rest kind value) :
    ∃ c cs, l = c :: cs ∧
      (isDigit c = true ∨ startsWord c = true ∨ ∃ kind, punctuation? c = some kind) := by
  cases h with
  | @punctuation c kind _ hkind => exact ⟨c, [], rfl, Or.inr (Or.inr ⟨kind, hkind⟩)⟩
  | number hnumeral _ =>
      obtain ⟨d, ds, rfl, hd⟩ := hnumeral.spelling.exists_digit
      exact ⟨d, ds, rfl, Or.inl hd⟩
  | @word c cs _ hc _ _ => exact ⟨c, cs, rfl, Or.inr (Or.inl hc)⟩

theorem Lexeme.ne_nil {l rest : List Char} {kind : Token.Kind} {value : Value}
    (h : Lexeme l rest kind value) : l ≠ [] := by
  obtain ⟨c, cs, rfl, -⟩ := h.head_cases
  exact List.cons_ne_nil c cs

theorem not_startsGap {c : Char} (h : isDigit c = true ∨ startsWord c = true ∨
    ∃ kind, punctuation? c = some kind) : isSpace c = false ∧ c ≠ '#' := by
  have hnot : ¬ (isSpace c = true ∨ c = '#') := by
    intro hgap
    have hsign : isSign c = true := hgap.elim isSign_of_isSpace fun hc => by rw [hc]; rfl
    rcases h with hd | hw | ⟨kind, hkind⟩
    · rw [isDigit_of_isSign hsign] at hd
      cases hd
    · rw [startsWord_of_isWordAhead (isWordAhead_of_isSign hsign)] at hw
      cases hw
    · rw [punctuation?_of_startsGap hgap] at hkind
      cases hkind
  rw [not_or, Bool.not_eq_true] at hnot
  exact hnot

theorem Lexeme.startsNoGap {l rest : List Char} {kind : Token.Kind} {value : Value}
    (h : Lexeme l rest kind value) (more : List Char) : StartsNoGap (l ++ more) := by
  obtain ⟨c, cs, rfl, hc⟩ := h.head_cases
  rintro d ⟨⟩
  exact not_startsGap hc

end Reckoner
