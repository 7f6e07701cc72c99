import Reckoner.Proofs.Json.Numeral
import Reckoner.Text.Json

/-!
# JSON documents

A JSON text is a sequence of tokens with blanks between them: six marks, strings, numbers and three
names. Which sequences are values is said by the tokens of a value; which texts are a token is said
by relations. Strings are lists of UTF-16 code units, since an escape may stand for half of a
surrogate pair. What counts as a number is a parameter: numbers of the standard, or numbers and a
word for infinity, as some readers allow it.
-/

namespace Reckoner

/-- The values of JSON, with numbers of a given kind. The members of an object are in order. -/
inductive Json (ν : Type)
  | null
  | truth (content : Bool)
  | string (units : List ℕ)
  | number (content : ν)
  | list (items : List (Json ν))
  | object (members : List (List ℕ × Json ν))

namespace Json

open Text (quotationMark)

variable {ν μ : Type}

/-! ## Tokens -/

/-- The characters that structure a document. -/
inductive Mark
  | openList
  | closeList
  | openObject
  | closeObject
  | colon
  | comma

def Mark.char : Mark → Char
  | .openList => '['
  | .closeList => ']'
  | .openObject => '\x7b'
  | .closeObject => '\x7d'
  | .colon => ':'
  | .comma => ','

/-- Marks and the values that have no parts. -/
inductive Token (ν : Type)
  | mark (m : Mark)
  | null
  | truth (content : Bool)
  | string (units : List ℕ)
  | number (content : ν)

/-- Replaces the number that a token is. -/
def Token.map (f : ν → μ) : Token ν → Token μ
  | .mark m => .mark m
  | .null => .null
  | .truth content => .truth content
  | .string units => .string units
  | .number content => .number (f content)

mutual

/-- The tokens of a value. -/
def tokens : Json ν → List (Token ν)
  | .null => [.null]
  | .truth content => [.truth content]
  | .string units => [.string units]
  | .number content => [.number content]
  | .list items => .mark .openList :: itemTokens items
  | .object members => .mark .openObject :: memberTokens members

/-- The items of a list from its first item on, and the mark that closes it. -/
def itemTokens : List (Json ν) → List (Token ν)
  | [] => [.mark .closeList]
  | v :: vs => v.tokens ++ moreItems vs

/-- The items of a list after its first item, and the mark that closes it. -/
def moreItems : List (Json ν) → List (Token ν)
  | [] => [.mark .closeList]
  | v :: vs => .mark .comma :: (v.tokens ++ moreItems vs)

/-- The members of an object from its first member on, and the mark that closes it. -/
def memberTokens : List (List ℕ × Json ν) → List (Token ν)
  | [] => [.mark .closeObject]
  | (key, v) :: ms => .string key :: .mark .colon :: (v.tokens ++ moreMembers ms)

/-- The members of an object after its first member, and the mark that closes it. -/
def moreMembers : List (List ℕ × Json ν) → List (Token ν)
  | [] => [.mark .closeObject]
  | (key, v) :: ms =>
    .mark .comma :: .string key :: .mark .colon :: (v.tokens ++ moreMembers ms)

end

theorem itemTokens_eq (vs : List (Json ν)) :
    itemTokens vs = [.mark .comma].intercalate (vs.map tokens) ++ [.mark .closeList] := by
  induction vs with
  | nil => rw [itemTokens]; rfl
  | cons v vs ih =>
      cases vs with
      | nil => simp [itemTokens, moreItems]
      | cons w ws =>
          have hmore : moreItems (w :: ws) = .mark .comma :: itemTokens (w :: ws) := by
            rw [moreItems, itemTokens]
          rw [itemTokens, hmore, ih]
          simp [List.intercalate_cons_cons]

theorem mem_moreItems {t : Token ν} {v : Json ν} {vs : List (Json ν)} (hv : v ∈ vs)
    (ht : t ∈ v.tokens) : t ∈ moreItems vs := by
  induction vs with
  | nil => cases hv
  | cons w ws ih =>
      rw [moreItems]
      rcases List.mem_cons.1 hv with rfl | hv
      · simp [ht]
      · simp [ih hv]

theorem mem_itemTokens {t : Token ν} {v : Json ν} {vs : List (Json ν)} (hv : v ∈ vs)
    (ht : t ∈ v.tokens) : t ∈ itemTokens vs := by
  cases vs with
  | nil => cases hv
  | cons w ws =>
      rw [itemTokens]
      rcases List.mem_cons.1 hv with rfl | hv
      · simp [ht]
      · simp [mem_moreItems hv ht]

/-- The tokens of one member of an object. -/
def member (m : List ℕ × Json ν) : List (Token ν) :=
  .string m.1 :: .mark .colon :: m.2.tokens

theorem memberTokens_eq (ms : List (List ℕ × Json ν)) :
    memberTokens ms = [.mark .comma].intercalate (ms.map member) ++ [.mark .closeObject] := by
  induction ms with
  | nil => rw [memberTokens]; rfl
  | cons m ms ih =>
      obtain ⟨key, v⟩ := m
      cases ms with
      | nil => simp [memberTokens, moreMembers, member]
      | cons n ns =>
          have hmore : moreMembers (n :: ns) = .mark .comma :: memberTokens (n :: ns) := by
            rw [moreMembers, memberTokens]
          rw [memberTokens, hmore, ih]
          simp [List.intercalate_cons_cons, member]

/-! ## Strings -/

/-- The UTF-16 code units of a character. -/
def codeUnits (c : Char) : List ℕ :=
  if c.toNat < 0x10000 then [c.toNat]
  else [0xD800 + (c.toNat - 0x10000) / 0x400, 0xDC00 + (c.toNat - 0x10000) % 0x400]

/-- The value of a hexadecimal digit. -/
def hexDigit? (c : Char) : Option ℕ :=
  if '0' ≤ c ∧ c ≤ '9' then some (c.toNat - '0'.toNat)
  else if 'a' ≤ c ∧ c ≤ 'f' then some (c.toNat - 'a'.toNat + 10)
  else if 'A' ≤ c ∧ c ≤ 'F' then some (c.toNat - 'A'.toNat + 10)
  else none

/-- The value of hexadecimal digits. -/
def hexValue? (digits : List Char) : Option ℕ :=
  digits.foldlM (fun value c => (hexDigit? c).map (16 * value + ·)) 0

/-- The code unit for which a character after a backslash stands. -/
def escape? (c : Char) : Option ℕ :=
  [(quotationMark, 0x22), ('\\', 0x5C), ('/', 0x2F), ('b', 0x8), ('f', 0xC), ('n', 0xA),
    ('r', 0xD), ('t', 0x9)].lookup c

/-- How code units are written inside a string: as a character, by one of the short escapes, or by
four hexadecimal digits. -/
inductive Piece : List ℕ → List Char → Prop
  | plain {c : Char} :
      0x20 ≤ c.toNat → c ≠ quotationMark → c ≠ '\\' → Piece (codeUnits c) [c]
  | escape {c : Char} {n : ℕ} : escape? c = some n → Piece [n] ['\\', c]
  | unit {digits : List Char} {n : ℕ} :
      digits.length = 4 → hexValue? digits = some n → Piece [n] ('\\' :: 'u' :: digits)

/-- What stands between the quotation marks of a string. -/
inductive Body : List ℕ → List Char → Prop
  | nil : Body [] []
  | cons {us vs : List ℕ} {a b : List Char} : Piece us a → Body vs b → Body (us ++ vs) (a ++ b)

/-! ## Documents -/

/-- The token of one of the three names. -/
def name? (w : List Char) : Option (Token ν) :=
  if w = "null".toList then some .null
  else if w = "true".toList then some (.truth true)
  else if w = "false".toList then some (.truth false)
  else none

/-- The blanks that may stand between tokens. -/
def isBlank (c : Char) : Bool :=
  c == ' ' || c == '\t' || c == '\n' || c == '\r'

section Spelling

variable (N : List Char → ν → Prop)

/-- The texts of names and numbers. -/
inductive Word : Token ν → List Char → Prop
  | name {t : Token ν} {w : List Char} : name? w = some t → Word t w
  | number {x : ν} {w : List Char} : N w x → Word (.number x) w

/-- The texts of a token. -/
inductive Spells : Token ν → List Char → Prop
  | mark (m : Mark) : Spells (.mark m) [m.char]
  | string {us : List ℕ} {w : List Char} :
      Body us w → Spells (.string us) (quotationMark :: (w ++ [quotationMark]))
  | word {t : Token ν} {w : List Char} : Word N t w → Spells t w

/-- The texts of a sequence of tokens, with any blanks around them. -/
inductive Spelled : List (Token ν) → List Char → Prop
  | nil {gap : List Char} : (∀ c ∈ gap, isBlank c = true) → Spelled [] gap
  | cons {gap w rest : List Char} {t : Token ν} {ts : List (Token ν)} :
      (∀ c ∈ gap, isBlank c = true) → Spells N t w → Spelled ts rest →
        Spelled (t :: ts) (gap ++ (w ++ rest))

/-- Whether a text is a document with the given value. -/
def Document (text : List Char) (v : Json ν) : Prop :=
  Spelled N v.tokens text

end Spelling

section Building

variable {N : List Char → ν → Prop} {ts us : List (Token ν)} {a b : List Char}

theorem Spelled.token {t : Token ν} (h : Spells N t a) : Spelled N [t] a := by
  have hcons : Spelled N [t] ([] ++ (a ++ [])) := .cons (by simp) h (.nil (by simp))
  simpa using hcons

theorem Spelled.mark (m : Mark) : Spelled N [.mark m] [m.char] :=
  .token (.mark m)

theorem Spelled.blanks_append {gap : List Char} (hgap : ∀ c ∈ gap, isBlank c = true)
    (h : Spelled N ts a) : Spelled N ts (gap ++ a) := by
  cases h with
  | nil hgap' => exact .nil fun c hc => (List.mem_append.1 hc).elim (hgap c) (hgap' c)
  | cons hgap' ht hts =>
      rw [← List.append_assoc]
      exact .cons (fun c hc => (List.mem_append.1 hc).elim (hgap c) (hgap' c)) ht hts

theorem Spelled.append (ha : Spelled N ts a) (hb : Spelled N us b) :
    Spelled N (ts ++ us) (a ++ b) := by
  induction ha with
  | nil hgap => exact hb.blanks_append hgap
  | cons hgap ht _ ih =>
      rw [List.append_assoc, List.append_assoc]
      exact .cons hgap ht ih

theorem Spelled.intercalate {sep : List (Token ν)} {gap : List Char} (hsep : Spelled N sep gap)
    {tss : List (List (Token ν))} {texts : List (List Char)}
    (h : List.Forall₂ (Spelled N) tss texts) :
    Spelled N (sep.intercalate tss) (gap.intercalate texts) := by
  induction h with
  | nil => exact .nil (by simp)
  | @cons ts text tss texts hts hrest ih =>
      cases hrest with
      | nil => simpa using hts
      | cons _ _ =>
          rw [List.intercalate_cons_cons, List.intercalate_cons_cons]
          exact (hts.append hsep).append ih

variable {M : List Char → μ → Prop} {f : ν → μ} (hf : ∀ w x, N w x → M w (f x))

include hf

theorem Spells.map {t : Token ν} (h : Spells N t a) : Spells M (t.map f) a := by
  cases h with
  | mark m => exact .mark m
  | string h => exact .string h
  | word h =>
      refine .word ?_
      cases h with
      | number h => exact .number (hf _ _ h)
      | name h =>
          refine .name ?_
          simp only [name?] at h ⊢
          split_ifs at h ⊢ <;> cases h <;> rfl

/-- Where the numbers of one kind are numbers of another, their tokens are too. -/
theorem Spelled.map (h : Spelled N ts a) : Spelled M (ts.map (Token.map f)) a := by
  induction h with
  | nil hgap => exact .nil hgap
  | cons hgap ht _ ih => exact .cons hgap (ht.map hf) ih

end Building

end Json

end Reckoner
