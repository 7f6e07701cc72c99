import Reckoner.Proofs.Json.Grammar

/-!
# JSON documents have one value

The tokens of a value tell the value, and no beginning of them is the tokens of another one. Among
two neighbouring tokens of a value one is a mark, so that a name or a number ends where its
characters end; hence the text tells the tokens.
-/

namespace Reckoner.Json

open Text (quotationMark)

variable {ν : Type}

/-! ## Tokens tell the value -/

/-- Tokens at which a value can start. -/
def Token.Starts : Token ν → Prop
  | .mark .openList | .mark .openObject => True
  | .mark _ => False
  | _ => True

theorem exists_tokens (v : Json ν) : ∃ t ts, v.tokens = t :: ts ∧ t.Starts := by
  cases v <;> rw [tokens] <;> exact ⟨_, _, rfl, trivial⟩

theorem ne_tokens_append {t : Token ν} (ht : ¬ t.Starts) (v : Json ν) (r s : List (Token ν)) :
    t :: r ≠ v.tokens ++ s := by
  obtain ⟨u, us, hu, hstarts⟩ := v.exists_tokens
  rw [hu]
  intro h
  exact ht ((List.cons.inj h).1 ▸ hstarts)

-- By recursion on the first value. What follows the tokens is arbitrary, so that the claim for a
-- value can be used in front of the remaining items.
mutual

theorem tokens_append_inj (v w : Json ν) {r s : List (Token ν)}
    (h : v.tokens ++ r = w.tokens ++ s) : v = w ∧ r = s := by
  match v, w with
  | .null, w | .truth _, w | .string _, w | .number _, w => cases w <;> simp_all [tokens]
  | .list vs, w =>
      cases w with
      | list ws =>
          obtain ⟨rfl, hrest⟩ := itemTokens_append_inj vs ws (by simpa [tokens] using h)
          exact ⟨rfl, hrest⟩
      | _ => simp [tokens] at h
  | .object ms, w =>
      cases w with
      | object ns =>
          obtain ⟨rfl, hrest⟩ := memberTokens_append_inj ms ns (by simpa [tokens] using h)
          exact ⟨rfl, hrest⟩
      | _ => simp [tokens] at h

theorem itemTokens_append_inj (vs ws : List (Json ν)) {r s : List (Token ν)}
    (h : itemTokens vs ++ r = itemTokens ws ++ s) : vs = ws ∧ r = s := by
  match vs, ws with
  | [], [] => simpa [itemTokens] using h
  | [], w :: ws =>
      rw [itemTokens, itemTokens, List.append_assoc] at h
      exact absurd h (ne_tokens_append id w _ _)
  | v :: vs, [] =>
      rw [itemTokens, itemTokens, List.append_assoc] at h
      exact absurd h.symm (ne_tokens_append id v _ _)
  | v :: vs, w :: ws =>
      rw [itemTokens, itemTokens, List.append_assoc, List.append_assoc] at h
      obtain ⟨rfl, hmore⟩ := tokens_append_inj v w h
      obtain ⟨rfl, hrest⟩ := moreItems_append_inj vs ws hmore
      exact ⟨rfl, hrest⟩

theorem moreItems_append_inj (vs ws : List (Json ν)) {r s : List (Token ν)}
    (h : moreItems vs ++ r = moreItems ws ++ s) : vs = ws ∧ r = s := by
  match vs, ws with
  | [], [] => simpa [moreItems] using h
  | [], w :: ws => simp [moreItems] at h
  | v :: vs, [] => simp [moreItems] at h
  | v :: vs, w :: ws =>
      rw [moreItems, moreItems, List.cons_append, List.cons_append, List.append_assoc,
        List.append_assoc] at h
      obtain ⟨rfl, hmore⟩ := tokens_append_inj v w (List.cons.inj h).2
      obtain ⟨rfl, hrest⟩ := moreItems_append_inj vs ws hmore
      exact ⟨rfl, hrest⟩

theorem memberTokens_append_inj (ms ns : List (List ℕ × Json ν)) {r s : List (Token ν)}
    (h : memberTokens ms ++ r = memberTokens ns ++ s) : ms = ns ∧ r = s := by
  match ms, ns with
  | [], [] => simpa [memberTokens] using h
  | [], (key, w) :: ns => simp [memberTokens] at h
  | (key, v) :: ms, [] => simp [memberTokens] at h
  | (key, v) :: ms, (key', w) :: ns =>
      simp only [memberTokens, List.cons_append, List.append_assoc, List.cons.injEq,
        Token.string.injEq] at h
      obtain ⟨rfl, -, h⟩ := h
      obtain ⟨rfl, hmore⟩ := tokens_append_inj v w h
      obtain ⟨rfl, hrest⟩ := moreMembers_append_inj ms ns hmore
      exact ⟨rfl, hrest⟩

theorem moreMembers_append_inj (ms ns : List (List ℕ × Json ν)) {r s : List (Token ν)}
    (h : moreMembers ms ++ r = moreMembers ns ++ s) : ms = ns ∧ r = s := by
  match ms, ns with
  | [], [] => simpa [moreMembers] using h
  | [], (key, w) :: ns => simp [moreMembers] at h
  | (key, v) :: ms, [] => simp [moreMembers] at h
  | (key, v) :: ms, (key', w) :: ns =>
      simp only [moreMembers, List.cons_append, List.append_assoc, List.cons.injEq,
        Token.string.injEq] at h
      obtain ⟨-, rfl, -, h⟩ := h
      obtain ⟨rfl, hmore⟩ := tokens_append_inj v w h
      obtain ⟨rfl, hrest⟩ := moreMembers_append_inj ms ns hmore
      exact ⟨rfl, hrest⟩

end

theorem tokens_injective : Function.Injective (@tokens ν) := by
  intro v w h
  exact (tokens_append_inj v w (congrArg (· ++ []) h)).1

/-! ## Marks between the other tokens -/

/-- Whether a token is a mark. -/
def Token.IsMark : Token ν → Prop
  | .mark _ => True
  | _ => False

/-- Whether of any two neighbouring tokens one is a mark. -/
def Apart (ts : List (Token ν)) : Prop :=
  ts.IsChain fun t u => t.IsMark ∨ u.IsMark

section Apart

variable {ts us : List (Token ν)}

theorem Apart.mark_cons (m : Mark) (h : Apart ts) : Apart (.mark m :: ts) :=
  List.isChain_cons.2 ⟨fun _ _ => .inl trivial, h⟩

theorem Apart.append (ht : Apart ts) (hu : Apart us) (hhead : ∀ t ∈ us.head?, t.IsMark) :
    Apart (ts ++ us) :=
  List.isChain_append.2 ⟨ht, hu, fun _ _ t ht => .inr (hhead t ht)⟩

theorem Apart.map {μ : Type} (f : ν → μ) (h : Apart ts) : Apart (ts.map (Token.map f)) := by
  have hmark (t : Token ν) : (t.map f).IsMark ↔ t.IsMark := by cases t <;> rfl
  refine (List.isChain_map _).2 (h.imp fun t u htu => ?_)
  rwa [hmark, hmark]

theorem Apart.member (key : List ℕ) (h : Apart ts) :
    Apart (.string key :: .mark .colon :: ts) :=
  List.isChain_cons.2 ⟨fun _ ht => .inr (by cases ht; trivial), h.mark_cons _⟩

end Apart

theorem isMark_head_moreItems (vs : List (Json ν)) : ∀ t ∈ (moreItems vs).head?, t.IsMark := by
  cases vs <;> simp [moreItems, Token.IsMark]

theorem isMark_head_moreMembers (ms : List (List ℕ × Json ν)) :
    ∀ t ∈ (moreMembers ms).head?, t.IsMark := by
  cases ms <;> simp [moreMembers, Token.IsMark]

mutual

theorem apart_tokens (v : Json ν) : Apart v.tokens := by
  match v with
  | .null | .truth _ | .string _ | .number _ => rw [tokens]; exact List.isChain_singleton _
  | .list vs => rw [tokens]; exact (apart_itemTokens vs).mark_cons _
  | .object ms => rw [tokens]; exact (apart_memberTokens ms).mark_cons _

theorem apart_itemTokens (vs : List (Json ν)) : Apart (itemTokens vs) := by
  match vs with
  | [] => rw [itemTokens]; exact List.isChain_singleton _
  | v :: vs =>
      rw [itemTokens]
      exact (apart_tokens v).append (apart_moreItems vs) (isMark_head_moreItems vs)

theorem apart_moreItems (vs : List (Json ν)) : Apart (moreItems vs) := by
  match vs with
  | [] => rw [moreItems]; exact List.isChain_singleton _
  | v :: vs =>
      rw [moreItems]
      exact ((apart_tokens v).append (apart_moreItems vs) (isMark_head_moreItems vs)).mark_cons _

theorem apart_memberTokens (ms : List (List ℕ × Json ν)) : Apart (memberTokens ms) := by
  match ms with
  | [] => rw [memberTokens]; exact List.isChain_singleton _
  | (key, v) :: ms =>
      rw [memberTokens]
      exact ((apart_tokens v).append (apart_moreMembers ms) (isMark_head_moreMembers ms)).member key

theorem apart_moreMembers (ms : List (List ℕ × Json ν)) : Apart (moreMembers ms) := by
  match ms with
  | [] => rw [moreMembers]; exact List.isChain_singleton _
  | (key, v) :: ms =>
      rw [moreMembers]
      exact (((apart_tokens v).append (apart_moreMembers ms)
        (isMark_head_moreMembers ms)).member key).mark_cons _

end

/-! ## Texts tell the tokens -/

theorem Piece.ne_quotationMark_cons {us : List ℕ} {a : List Char} (h : Piece us a)
    (r s : List Char) : a ++ r ≠ quotationMark :: s := by
  cases h with
  | plain _ hne _ => exact fun h => hne (List.cons.inj h).1
  | escape _ => exact fun h => absurd (List.cons.inj h).1 (by decide)
  | unit _ _ => exact fun h => absurd (List.cons.inj h).1 (by decide)

theorem Piece.append_inj {us vs : List ℕ} {a b r s : List Char} (ha : Piece us a)
    (hb : Piece vs b) (h : a ++ r = b ++ s) : us = vs ∧ r = s := by
  have hu : escape? 'u' = none := by decide
  cases ha with
  | plain _ _ hslash =>
      cases hb with
      | plain _ _ _ =>
          obtain ⟨rfl, hrest⟩ := List.cons.inj h
          exact ⟨rfl, hrest⟩
      | escape _ => exact absurd (List.cons.inj h).1 hslash
      | unit _ _ => exact absurd (List.cons.inj h).1 hslash
  | escape hc =>
      cases hb with
      | plain _ _ hslash => exact absurd (List.cons.inj h).1.symm hslash
      | escape hc' =>
          obtain ⟨rfl, hrest⟩ := List.cons.inj (List.cons.inj h).2
          rw [hc, Option.some_inj] at hc'
          exact ⟨by rw [hc'], hrest⟩
      | unit _ _ =>
          obtain ⟨rfl, -⟩ := List.cons.inj (List.cons.inj h).2
          rw [hu] at hc
          cases hc
  | unit hlength hvalues =>
      cases hb with
      | plain _ _ hslash => exact absurd (List.cons.inj h).1.symm hslash
      | escape hc =>
          obtain ⟨rfl, -⟩ := List.cons.inj (List.cons.inj h).2
          rw [hu] at hc
          cases hc
      | unit hlength' hvalues' =>
          obtain ⟨rfl, hrest⟩ :=
            List.append_inj (List.cons.inj (List.cons.inj h).2).2 (hlength.trans hlength'.symm)
          rw [hvalues, Option.some_inj] at hvalues'
          exact ⟨by rw [hvalues'], hrest⟩

theorem Body.append_quotationMark_inj {us vs : List ℕ} {a b r s : List Char} (ha : Body us a)
    (hb : Body vs b) (h : a ++ quotationMark :: r = b ++ quotationMark :: s) :
    us = vs ∧ r = s := by
  induction ha generalizing vs b with
  | nil =>
      cases hb with
      | nil => simpa using h
      | cons hpiece _ =>
          rw [List.append_assoc] at h
          exact absurd h.symm (hpiece.ne_quotationMark_cons _ _)
  | cons hpiece _ ih =>
      cases hb with
      | nil =>
          rw [List.append_assoc] at h
          exact absurd h (hpiece.ne_quotationMark_cons _ _)
      | cons hpiece' hb' =>
          rw [List.append_assoc, List.append_assoc] at h
          obtain ⟨rfl, hmore⟩ := hpiece.append_inj hpiece' h
          obtain ⟨rfl, hrest⟩ := ih hb' hmore
          exact ⟨rfl, hrest⟩

theorem isWord_eq_false_of_isBlank {c : Char} (h : isBlank c = true) : isWord c = false := by
  simp only [isBlank, Bool.or_eq_true, beq_iff_eq] at h
  rcases h with ((rfl | rfl) | rfl) | rfl <;> rfl

theorem isWord_char (m : Mark) : isWord m.char = false := by
  cases m <;> rfl

theorem isBlank_char (m : Mark) : isBlank m.char = false := by
  cases m <;> rfl

theorem char_ne_quotationMark (m : Mark) : m.char ≠ quotationMark := by
  cases m <;> decide

theorem char_injective : Function.Injective Mark.char := by
  intro m n h
  cases m <;> cases n <;> simp_all [Mark.char]

/-- What is asked of the texts of numbers: they are words other than the names, and each has one
value. -/
structure Lexical (N : List Char → ν → Prop) : Prop where
  ne_nil {w : List Char} {x : ν} : N w x → w ≠ []
  isWord {w : List Char} {x : ν} : N w x → ∀ c ∈ w, isWord c = true
  not_name {w : List Char} {x : ν} : N w x → (name? w : Option (Token ν)) = none
  unique {w : List Char} {x y : ν} : N w x → N w y → x = y

section Lexical

variable {N : List Char → ν → Prop} (hN : Lexical N) {t u : Token ν} {ts us : List (Token ν)}
  {a b r s : List Char}

theorem isWord_of_name? (h : name? a = some t) :
    a ≠ [] ∧ (∀ c ∈ a, isWord c = true) ∧ ¬ t.IsMark := by
  rw [name?] at h
  split_ifs at h with hnull htrue hfalse
  · cases h
    rw [hnull]
    exact ⟨by decide, List.all_eq_true.1 rfl, id⟩
  · cases h
    rw [htrue]
    exact ⟨by decide, List.all_eq_true.1 rfl, id⟩
  · cases h
    rw [hfalse]
    exact ⟨by decide, List.all_eq_true.1 rfl, id⟩

include hN

theorem Word.unique (ht : Word N t a) (hu : Word N u a) : t = u := by
  cases ht with
  | name ht =>
      cases hu with
      | name hu => exact Option.some_inj.1 (ht.symm.trans hu)
      | number hy => exact absurd ht (by simp [hN.not_name hy])
  | number hx =>
      cases hu with
      | name hu => exact absurd hu (by simp [hN.not_name hx])
      | number hy => rw [hN.unique hx hy]

theorem Word.isWord (h : Word N t a) : a ≠ [] ∧ ∀ c ∈ a, isWord c = true := by
  cases h with
  | name h => exact ⟨(isWord_of_name? h).1, (isWord_of_name? h).2.1⟩
  | number h => exact ⟨hN.ne_nil h, hN.isWord h⟩

theorem Word.exists_cons (h : Word N t a) : ∃ c cs, a = c :: cs ∧ Json.isWord c = true := by
  obtain ⟨hne, hall⟩ := h.isWord hN
  obtain ⟨c, cs, rfl⟩ := List.exists_cons_of_ne_nil hne
  exact ⟨c, cs, rfl, hall c List.mem_cons_self⟩

omit hN in
theorem Word.not_isMark (h : Word N t a) : ¬ t.IsMark := by
  cases h with
  | name h => exact (isWord_of_name? h).2.2
  | number _ => exact id

theorem Spells.append_inj (ha : Spells N t a) (hb : Spells N u b)
    (hr : ¬ t.IsMark → ∀ c ∈ r.head?, Json.isWord c = false)
    (hs : ¬ u.IsMark → ∀ c ∈ s.head?, Json.isWord c = false) (h : a ++ r = b ++ s) :
    t = u ∧ r = s := by
  have hquote : Json.isWord quotationMark = false := by decide
  cases ha with
  | mark m =>
      cases hb with
      | mark n =>
          obtain ⟨hchar, hrest⟩ := List.cons.inj h
          exact ⟨by rw [char_injective hchar], hrest⟩
      | string _ => exact absurd (List.cons.inj h).1 (char_ne_quotationMark m)
      | word hb =>
          obtain ⟨c, cs, rfl, hc⟩ := hb.exists_cons hN
          rw [← (List.cons.inj h).1, isWord_char] at hc
          cases hc
  | string ha =>
      cases hb with
      | mark n => exact absurd (List.cons.inj h).1.symm (char_ne_quotationMark n)
      | string hb =>
          simp only [List.cons_append, List.append_assoc, List.cons.injEq, true_and,
            List.nil_append] at h
          obtain ⟨rfl, hrest⟩ := ha.append_quotationMark_inj hb h
          exact ⟨rfl, hrest⟩
      | word hb =>
          obtain ⟨c, cs, rfl, hc⟩ := hb.exists_cons hN
          rw [← (List.cons.inj h).1, hquote] at hc
          cases hc
  | word ha =>
      cases hb with
      | mark n =>
          obtain ⟨c, cs, rfl, hc⟩ := ha.exists_cons hN
          rw [(List.cons.inj h).1, isWord_char] at hc
          cases hc
      | string _ =>
          obtain ⟨c, cs, rfl, hc⟩ := ha.exists_cons hN
          rw [(List.cons.inj h).1, hquote] at hc
          cases hc
      | word hb =>
          obtain ⟨rfl, hrest⟩ := run_append_inj (ha.isWord hN).2 (hb.isWord hN).2
            (hr ha.not_isMark) (hs hb.not_isMark) h
          exact ⟨ha.unique hN hb, hrest⟩

theorem Spells.exists_cons (h : Spells N t a) : ∃ c cs, a = c :: cs ∧ Json.isBlank c = false := by
  cases h with
  | mark m => exact ⟨_, _, rfl, isBlank_char m⟩
  | string _ => exact ⟨_, _, rfl, by decide⟩
  | word h =>
      obtain ⟨c, cs, rfl, hc⟩ := h.exists_cons hN
      refine ⟨c, cs, rfl, ?_⟩
      by_contra hblank
      rw [isWord_eq_false_of_isBlank (Bool.not_eq_false _ ▸ hblank)] at hc
      cases hc

omit hN in
theorem Spelled.isWord_head (h : Spelled N ts r) (hapart : Apart (t :: ts)) (ht : ¬ t.IsMark) :
    ∀ c ∈ r.head?, Json.isWord c = false := by
  cases h with
  | nil hgap => exact fun c hc => isWord_eq_false_of_isBlank (hgap c (List.mem_of_mem_head? hc))
  | @cons gap w rest u us hgap hu _ =>
      cases gap with
      | nil =>
          have hmark : u.IsMark := (List.isChain_cons_cons.1 hapart).1.resolve_left ht
          cases hu with
          | mark m => simp [isWord_char]
          | string _ => cases hmark
          | word hw => exact absurd hmark hw.not_isMark
      | cons c gap =>
          rintro _ ⟨⟩
          exact isWord_eq_false_of_isBlank (hgap c List.mem_cons_self)

/-- A text is the text of one sequence of tokens at most, if marks stand between the others. -/
theorem Spelled.unique (ha : Spelled N ts a) (hb : Spelled N us b) (hts : Apart ts)
    (hus : Apart us) (h : a = b) : ts = us := by
  -- A token starts with a character that is not blank, so that both texts have the same blanks in
  -- front of it; and the token ends at the same place in both.
  induction ha generalizing us b with
  | nil hgap =>
      cases hb with
      | nil _ => rfl
      | cons _ hu _ =>
          obtain ⟨c, cs, rfl, hc⟩ := hu.exists_cons hN
          have hblank := hgap c (by simp [h])
          rw [hc] at hblank
          cases hblank
  | cons hgap ht hrest ih =>
      obtain ⟨c, cs, rfl, hc⟩ := ht.exists_cons hN
      cases hb with
      | nil hgap' =>
          have hblank := hgap' c (by simp [← h])
          rw [hc] at hblank
          cases hblank
      | cons hgap' hu hrest' =>
          obtain ⟨c', cs', rfl, hc'⟩ := hu.exists_cons hN
          obtain ⟨-, hmore⟩ := run_append_inj hgap hgap' (by simpa using hc) (by simpa using hc') h
          obtain ⟨rfl, heq⟩ := ht.append_inj hN hu (hrest.isWord_head hts)
            (hrest'.isWord_head hus) hmore
          rw [ih hrest' hts.tail hus.tail heq]

/-- A text is a document with one value at most. -/
theorem Document.unique {text : List Char} {v w : Json ν} (hv : Document N text v)
    (hw : Document N text w) : v = w :=
  tokens_injective (Spelled.unique hN hv hw (apart_tokens v) (apart_tokens w) rfl)

end Lexical

/-! ## Numbers -/

/-- The numbers of the standard, and the word for infinity, which has no number as its value. -/
inductive ReadsOrInfinity : List Char → Option (ℤ ⊕ Float) → Prop
  | number {w : List Char} {x : ℤ ⊕ Float} : Numeral.Reads w x → ReadsOrInfinity w (some x)
  | infinity : ReadsOrInfinity "Infinity".toList none

theorem Numeral.name?_text (m : Numeral) : (name? m.text : Option (Token ν)) = none := by
  obtain ⟨c, cs, htext, hc, -⟩ := m.exists_text
  rw [htext, name?]
  split_ifs with hnull htrue hfalse
  · have hfirst : c = 'n' := (List.cons.inj hnull).1
    exact absurd hc (by rw [hfirst]; decide)
  · have hfirst : c = 't' := (List.cons.inj htrue).1
    exact absurd hc (by rw [hfirst]; decide)
  · have hfirst : c = 'f' := (List.cons.inj hfalse).1
    exact absurd hc (by rw [hfirst]; decide)
  · rfl

theorem lexical_reads : Lexical Numeral.Reads where
  ne_nil := by
    rintro _ _ ⟨m, rfl, rfl⟩ hnil
    obtain ⟨c, cs, htext, -⟩ := m.exists_text
    rw [htext] at hnil
    cases hnil
  isWord := by
    rintro _ _ ⟨m, rfl, rfl⟩
    obtain ⟨-, -, -, -, hword⟩ := m.exists_text
    exact hword
  not_name := by
    rintro _ _ ⟨m, rfl, rfl⟩
    exact m.name?_text
  unique := Numeral.Reads.unique

theorem not_reads_infinity (x : ℤ ⊕ Float) : ¬ Numeral.Reads "Infinity".toList x := by
  rintro ⟨m, htext, -⟩
  obtain ⟨c, cs, htext', hc, -⟩ := m.exists_text
  have hfirst : c = 'I' := (List.cons.inj (htext'.symm.trans htext)).1
  exact absurd hc (by rw [hfirst]; decide)

theorem lexical_readsOrInfinity : Lexical ReadsOrInfinity where
  ne_nil h := by
    cases h with
    | number h => exact lexical_reads.ne_nil h
    | infinity => decide
  isWord h := by
    cases h with
    | number h => exact lexical_reads.isWord h
    | infinity => exact List.all_eq_true.1 rfl
  not_name h := by
    cases h with
    | number h =>
        obtain ⟨m, rfl, -⟩ := h
        exact m.name?_text
    | infinity => rfl
  unique hx hy := by
    cases hx with
    | number hx =>
        cases hy with
        | number hy => rw [hx.unique hy]
        | infinity => exact absurd hx (not_reads_infinity _)
    | infinity =>
        cases hy with
        | number hy => exact absurd hy (not_reads_infinity _)
        | infinity => rfl

end Reckoner.Json
