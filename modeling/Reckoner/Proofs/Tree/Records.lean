import Reckoner.Proofs.Json.Layout
import Reckoner.Proofs.Json.Strings
import Reckoner.Proofs.Json.Unambiguity
import Reckoner.Tree.Outline

/-!
# Records of trees

A tree as JSON is an object with its kind, its value, its line and column and its children. The
record of a tree spells that object, whatever its indentation. On trees that hold only names and
doubles that are not negative, the object tells the tree up to sameness, and trees that are the
same have one record.
-/

namespace Reckoner

open Json (Spelled units)

variable {ν : Type} {N : List Char → ν → Prop}

/-! ## Trees as JSON -/

/-- A value as JSON, with its numbers given by a function. -/
def Value.json (f : ℤ ⊕ Float → ν) : Value → Json ν
  | .absent => .null
  | .text content => .string (units content)
  | .number content => .number (f (.inr content))
  | .integer content => .number (f (.inl content))
  | .truth content => .truth content

namespace Tree

/-- A tree as JSON, with its numbers given by a function. -/
def json (f : ℤ ⊕ Float → ν) : Tree → Json ν :=
  fold fun t children => .object [
    (units "kind", .string (units t.kind)),
    (units "value", t.value.json f),
    (units "line", .number (f (.inl t.pos.line))),
    (units "col", .number (f (.inl t.pos.col))),
    (units "children", .list children)]

theorem json_eq (f : ℤ ⊕ Float → ν) (t : Tree) :
    t.json f = .object [
      (units "kind", .string (units t.kind)),
      (units "value", t.value.json f),
      (units "line", .number (f (.inl t.pos.line))),
      (units "col", .number (f (.inl t.pos.col))),
      (units "children", .list (t.children.map (json f)))] :=
  fold_eq _ t

/-- The numbers in a tree. -/
def numbers : Tree → List Float :=
  fold fun t lists =>
    (match t.value with
    | .number x => [x]
    | _ => []) ++ lists.flatten

theorem mem_numbers_iff {t : Tree} {x : Float} :
    x ∈ t.numbers ↔ t.value = .number x ∨ ∃ child ∈ t.children, x ∈ child.numbers := by
  have heq : t.numbers = (match t.value with
      | .number x => [x]
      | _ => []) ++ (t.children.map numbers).flatten := fold_eq _ t
  rw [heq, List.mem_append]
  refine or_congr ?_ (by simp)
  cases t.value <;> simp [eq_comm]

theorem number_mem_tokens_json (f : ℤ ⊕ Float → ν) {t : Tree} {x : Float} (hx : x ∈ t.numbers) :
    .number (f (.inr x)) ∈ (t.json f).tokens := by
  induction t using induction_children with
  | step t ih =>
    rw [json_eq]
    rcases mem_numbers_iff.1 hx with hvalue | ⟨child, hchild, hx⟩
    · simp [Json.tokens, Json.memberTokens, Json.moreMembers, hvalue, Value.json]
    · have hmem := Json.mem_itemTokens (List.mem_map_of_mem hchild) (ih child hchild hx)
      simp [Json.tokens, Json.memberTokens, Json.moreMembers, hmem]

/-! ## Records spell trees -/

theorem isBlank_indent (width : ℕ) : ∀ c ∈ (indent width).toList, Json.isBlank c = true := by
  intro c hc
  rw [indent, String.toList_ofList] at hc
  rw [List.eq_of_mem_replicate hc]
  rfl

/-- Items between two marks, each on lines of its own, are the items with commas between them. -/
theorem spelled_block {opening closing : Json.Mark} {tss : List (List (Json.Token ν))}
    {texts : List String} (width : ℕ)
    (h : List.Forall₂ (fun ts text => Spelled N ts text.toList) tss texts) :
    Spelled N (.mark opening :: ([.mark .comma].intercalate tss ++ [.mark closing]))
      ([opening.char, '\n'] ++ (",\n".intercalate texts).toList ++
        ('\n' :: (indent width).toList ++ [closing.char])) := by
  have hfeed : ∀ c ∈ ['\n'], Json.isBlank c = true := List.all_eq_true.1 rfl
  have hopen : Spelled N [.mark opening] [opening.char, '\n'] :=
    (Spelled.mark opening).append (.nil hfeed)
  have hcomma : Spelled N [.mark .comma] ",\n".toList := (Spelled.mark .comma).append (.nil hfeed)
  have hclose : Spelled N [.mark closing] ('\n' :: (indent width).toList ++ [closing.char]) :=
    (Spelled.mark closing).blanks_append (List.forall_mem_cons.2 ⟨rfl, isBlank_indent width⟩)
  rw [String.toList_intercalate]
  exact (hopen.append (hcomma.intercalate (List.forall₂_map_right_iff.2 h))).append hclose

theorem toList_recordList (width : ℕ) {items : List String} (h : items ≠ []) :
    (recordList width items).toList =
      ['[', '\n'] ++
        (",\n".intercalate (items.map fun item => indent (width + indentStep) ++ item)).toList ++
        ('\n' :: (indent width).toList ++ [']']) := by
  rw [recordList, if_neg (by simpa using h)]
  simp [String.toList_append]

theorem spelled_recordList (width : ℕ) {vs : List (Json ν)} {items : List String}
    (h : List.Forall₂ (fun v item => Spelled N v.tokens item.toList) vs items) :
    Spelled N (Json.list vs).tokens (recordList width items).toList := by
  rw [Json.tokens, Json.itemTokens_eq]
  by_cases hnil : items = []
  · subst hnil
    cases h
    have htext : (recordList width []).toList = ['['] ++ [']'] := by simp [recordList]
    rw [htext]
    exact (Spelled.mark .openList).append (Spelled.mark .closeList)
  · rw [toList_recordList width hnil]
    refine spelled_block width ?_
    rw [List.forall₂_map_left_iff, List.forall₂_map_right_iff]
    refine h.imp fun v item hv => ?_
    rw [String.toList_append]
    exact hv.blanks_append (isBlank_indent _)

theorem spelled_field (width : ℕ) (key : String) {text : String} {v : Json ν}
    (h : Spelled N v.tokens text.toList) :
    Spelled N (Json.member (units key, v))
      (indent width ++ Text.Json.string key ++ ": " ++ text).toList := by
  have hkey : Spelled N [.string (units key)] (Text.Json.string key).toList :=
    .token (Json.spells_string N key)
  have hcolon : Spelled N [.mark .colon] ": ".toList :=
    (Spelled.mark .colon).append (.nil (List.all_eq_true.1 rfl))
  simp only [String.toList_append]
  exact ((hkey.blanks_append (isBlank_indent width)).append hcolon).append h

theorem spelled_recordValue (f : ℤ ⊕ Float → ν)
    (hinteger : ∀ n : ℤ, N (toString n).toList (f (.inl n))) {value : Value}
    (hnumber : ∀ x, value = .number x → N (recordNumber x).toList (f (.inr x))) :
    Spelled N (value.json f).tokens (recordValue value).toList := by
  cases value with
  | absent => exact .token (.word (.name rfl))
  | text content => exact .token (Json.spells_string N content)
  | number content => exact .token (.word (.number (hnumber content rfl)))
  | integer content => exact .token (.word (.number (hinteger content)))
  | truth content => cases content <;> exact .token (.word (.name rfl))

theorem record_eq (t : Tree) (width : ℕ) :
    t.record width =
      let inside := width + indentStep
      let field (key text : String) : String :=
        indent inside ++ Text.Json.string key ++ ": " ++ text
      let fields := [
        field "kind" (Text.Json.string t.kind),
        field "value" (recordValue t.value),
        field "line" (toString t.pos.line),
        field "col" (toString t.pos.col),
        field "children"
          (recordList inside (t.children.map fun child => child.record (inside + indentStep)))]
      "\x7b\n" ++ ",\n".intercalate fields ++ "\n" ++ indent width ++ "\x7d" := by
  rw [record, fold_eq]
  simp only [List.map_map]
  rfl

theorem toList_braces (width : ℕ) (fields : List String) :
    ("\x7b\n" ++ ",\n".intercalate fields ++ "\n" ++ indent width ++ "\x7d").toList =
      ['\x7b', '\n'] ++ (",\n".intercalate fields).toList ++
        ('\n' :: (indent width).toList ++ ['\x7d']) := by
  simp [String.toList_append]

theorem spelled_record (f : ℤ ⊕ Float → ν)
    (hinteger : ∀ n : ℤ, N (toString n).toList (f (.inl n))) (t : Tree)
    (hnumber : ∀ x ∈ t.numbers, N (recordNumber x).toList (f (.inr x))) (width : ℕ) :
    Spelled N (t.json f).tokens (t.record width).toList := by
  -- The records of the children stand two steps further to the right.
  induction t using induction_children generalizing width with
  | step t ih =>
    have hkind : Spelled N (Json.string (units t.kind)).tokens (Text.Json.string t.kind).toList :=
      .token (Json.spells_string N t.kind)
    have hvalue := spelled_recordValue f hinteger fun x hx =>
      hnumber x (mem_numbers_iff.2 (.inl hx))
    have hint (n : ℤ) : Spelled N (Json.number (f (.inl n))).tokens (toString n).toList :=
      .token (.word (.number (hinteger n)))
    have hchild (child : Tree) (hmem : child ∈ t.children) :=
      ih child hmem (fun x hx => hnumber x (mem_numbers_iff.2 (.inr ⟨child, hmem, hx⟩)))
        (width + indentStep + indentStep)
    have hchildren := spelled_recordList (width + indentStep)
      (List.forall₂_map_left_iff.2 (List.forall₂_map_right_iff.2 (List.forall₂_same.2 hchild)))
    rw [json_eq, Json.tokens, Json.memberTokens_eq, record_eq, toList_braces]
    refine spelled_block width ?_
    exact .cons (spelled_field _ _ hkind) (.cons (spelled_field _ _ hvalue)
      (.cons (spelled_field _ _ (hint _)) (.cons (spelled_field _ _ (hint _))
      (.cons (spelled_field _ _ hchildren) .nil))))

theorem eq_recordList_of_records? {trees : List Tree} {text : String}
    (h : records? trees = some text) :
    text = recordList 0 (trees.map fun t => t.record indentStep) := by
  rw [records?] at h
  split at h
  · exact (Option.some.inj h).symm
  · cases h

/-- The records of a list of trees, with a line feed after them, are a document. -/
theorem document_records {f : ℤ ⊕ Float → ν} {trees : List Tree} {text : String}
    (htext : records? trees = some text)
    (hinteger : ∀ n : ℤ, N (toString n).toList (f (.inl n)))
    (hnumber : ∀ t ∈ trees, ∀ x ∈ t.numbers, N (recordNumber x).toList (f (.inr x))) :
    Json.Document N (text ++ "\n").toList (.list (trees.map (json f))) := by
  have hlist := spelled_recordList 0 (List.forall₂_map_left_iff.2 (List.forall₂_map_right_iff.2
    (List.forall₂_same.2 fun t ht => spelled_record f hinteger t (hnumber t ht) indentStep)))
  rw [eq_recordList_of_records? htext, String.toList_append, Json.Document,
    ← List.append_nil (Json.tokens _)]
  exact hlist.append (.nil (List.all_eq_true.1 rfl))

end Tree

/-! ## Literals -/

namespace Number

/-- Whether a double is infinity or a finite number that is not negative. -/
def IsLiteral (x : Float) : Prop :=
  x.toBits.toNat ≤ infinitePattern

/-- Whether a double is neither infinite nor undefined. -/
def IsFinite (x : Float) : Prop :=
  ∃ negative significand exponent, Binary.ofFloat x = .finite negative significand exponent

instance (x : Float) : Decidable (IsFinite x) :=
  match h : Binary.ofFloat x with
  | .finite negative significand exponent => isTrue ⟨negative, significand, exponent, h⟩
  | .infinite _ => isFalse fun ⟨_, _, _, hfinite⟩ => nomatch h.symm.trans hfinite
  | .nan => isFalse fun ⟨_, _, _, hfinite⟩ => nomatch h.symm.trans hfinite

/-- A number other than infinity. -/
def finite? : ℤ ⊕ Float → Option (ℤ ⊕ Float)
  | .inl n => some (.inl n)
  | .inr x => if Binary.ofFloat x = .infinite false then none else some (.inr x)

theorem isLiteral_nearest (n d : ℕ) : IsLiteral (nearest n d) := by
  rw [IsLiteral, toNat_toBits_nearest]
  exact nearestPattern_le n d

namespace IsLiteral

variable {x y : Float}

theorem eq_infinite (hx : IsLiteral x) (hfinite : ¬ IsFinite x) :
    Binary.ofFloat x = .infinite false := by
  rcases ofPattern_cases hx with ⟨hinfinite, -⟩ | ⟨significand, exponent, h⟩
  · exact hinfinite
  · exact absurd ⟨false, significand, exponent, h⟩ hfinite

theorem toNat_toBits (hx : IsLiteral x) (hinfinite : Binary.ofFloat x = .infinite false) :
    x.toBits.toNat = infinitePattern := by
  rcases ofPattern_cases hx with ⟨-, hpattern⟩ | ⟨significand, exponent, h⟩
  · exact hpattern
  · exact absurd (hinfinite.symm.trans h) nofun

theorem finite?_inj (hx : IsLiteral x) (hy : IsLiteral y)
    (h : finite? (.inr x) = finite? (.inr y)) : x = y := by
  simp only [finite?] at h
  split_ifs at h with hx' hy'
  · have hbits := (hx.toNat_toBits hx').trans (hy.toNat_toBits hy').symm
    rw [← ofBits_toBits x, ← ofBits_toBits y, UInt64.toNat_inj.1 hbits]
  · exact Sum.inr.inj (Option.some.inj h)

theorem reads_recordNumber (hx : IsLiteral x) (hfinite : IsFinite x) :
    Json.Numeral.Reads (Tree.recordNumber x).toList (.inr x) := by
  obtain ⟨negative, significand, exponent, h⟩ := hfinite
  rcases ofPattern_cases hx with ⟨hinfinite, -⟩ | ⟨significand', exponent', h'⟩
  · exact absurd (h.symm.trans hinfinite) nofun
  · rw [Tree.recordNumber, h]
    exact Json.reads_fullText hx h'

theorem readsOrInfinity_recordNumber (hx : IsLiteral x) :
    Json.ReadsOrInfinity (Tree.recordNumber x).toList (finite? (.inr x)) := by
  rw [finite?]
  split_ifs with hinfinite
  · rw [Tree.recordNumber, hinfinite]
    exact .infinity
  · refine .number (hx.reads_recordNumber ?_)
    by_contra hfinite
    exact hinfinite (hx.eq_infinite hfinite)

end IsLiteral

end Number

/-! ## Sameness -/

/-- The values that programs hold: none, a name or a literal. -/
def Value.IsPlain : Value → Prop
  | .absent | .text _ => True
  | .number x => Number.IsLiteral x
  | _ => False

namespace Value

variable {a b : Value}

theorem IsPlain.same_of_json_eq (ha : a.IsPlain) (hb : b.IsPlain)
    (h : a.json Number.finite? = b.json Number.finite?) : a.same b = true := by
  cases a with
  | absent => cases b <;> simp_all [json, same]
  | text content =>
      cases b with
      | text content' => simpa [json, same, Json.units_injective.eq_iff] using h
      | _ => simp [json] at h
  | number x =>
      cases b with
      | number y =>
          have hxy : x = y := ha.finite?_inj hb (Json.number.inj h)
          rw [same, Number.beq_iff_eq_of_le ha hb, hxy]
      | _ => simp_all [json, IsPlain]
  | _ => cases ha

theorem IsPlain.recordValue_eq (ha : a.IsPlain) (hb : b.IsPlain) (h : a.same b = true) :
    Tree.recordValue a = Tree.recordValue b := by
  cases a with
  | absent => cases b <;> simp_all [same, integer?, IsPlain]
  | text content => cases b <;> simp_all [same, integer?, IsPlain]
  | number x =>
      cases b with
      | number y =>
          rw [same, Number.beq_iff_eq_of_le ha hb] at h
          rw [h]
      | _ => simp_all [same, integer?, IsPlain]
  | _ => cases ha

end Value

namespace Tree

/-- Trees whose values are those of programs. -/
inductive IsPlain : Tree → Prop
  | intro {t : Tree} : t.value.IsPlain → (∀ child ∈ t.children, child.IsPlain) → t.IsPlain

theorem IsPlain.value {t : Tree} : t.IsPlain → t.value.IsPlain
  | .intro h _ => h

theorem IsPlain.children {t : Tree} : t.IsPlain → ∀ child ∈ t.children, child.IsPlain
  | .intro _ h => h

theorem IsPlain.isLiteral {t : Tree} (h : t.IsPlain) : ∀ x ∈ t.numbers, Number.IsLiteral x := by
  induction h with
  | @intro t hvalue _ ih =>
      intro x hx
      rcases mem_numbers_iff.1 hx with hx | ⟨child, hchild, hx⟩
      · rw [hx] at hvalue
        exact hvalue
      · exact ih child hchild x hx

theorem forall₂_imp_of_mem {R S : Tree → Tree → Prop} {ts us : List Tree}
    (h : List.Forall₂ R ts us) (himp : ∀ t ∈ ts, ∀ u ∈ us, R t u → S t u) :
    List.Forall₂ S ts us := by
  induction h with
  | nil => exact .nil
  | cons ht _ ih =>
      refine .cons (himp _ List.mem_cons_self _ List.mem_cons_self ht) (ih fun t ht u hu => ?_)
      exact himp t (List.mem_cons_of_mem _ ht) u (List.mem_cons_of_mem _ hu)

theorem forall₂_map_eq_iff {α : Type} {f : Tree → α} {ts us : List Tree} :
    List.Forall₂ (fun t u => f t = f u) ts us ↔ ts.map f = us.map f := by
  rw [← List.forall₂_eq_eq_eq, List.forall₂_map_left_iff, List.forall₂_map_right_iff]

theorem sameAll_iff {ts us : List Tree} :
    sameAll ts us = true ↔ List.Forall₂ (fun t u => t.same u = true) ts us := by
  induction ts generalizing us with
  | nil => cases us <;> simp [sameAll]
  | cons t ts ih =>
      cases us with
      | nil => simp [sameAll]
      | cons u us =>
          have hcons : sameAll (t :: ts) (u :: us) = (t.same u && sameAll ts us) := by
            simp [sameAll, Bool.and_left_comm]
          rw [hcons, Bool.and_eq_true, ih, List.forall₂_cons]

theorem same_iff {t u : Tree} :
    t.same u = true ↔ t.kind = u.kind ∧ t.value.same u.value = true ∧ t.pos = u.pos ∧
      sameAll t.children u.children = true := by
  have hfold : t.same u = (t.kind == u.kind && t.value.same u.value && t.pos == u.pos &&
      (t.children.map same).length == u.children.length &&
      (List.zipWith (fun compare child => compare child) (t.children.map same)
        u.children).all id) :=
    congrFun (fold_eq _ t) u
  rw [hfold, sameAll, List.length_map, List.zipWith_map_left]
  simp only [Bool.and_eq_true, beq_iff_eq, and_assoc]

/-- Plain trees with the same JSON are the same. -/
theorem IsPlain.same_of_json_eq {t u : Tree} (ht : t.IsPlain) (hu : u.IsPlain)
    (h : t.json Number.finite? = u.json Number.finite?) : t.same u = true := by
  induction ht generalizing u with
  | @intro t hvalue _ ih =>
      rw [json_eq, json_eq] at h
      simp only [Json.object.injEq, List.cons.injEq, Prod.mk.injEq, Json.string.injEq,
        Json.number.injEq, Json.list.injEq, Number.finite?, Option.some.injEq, Sum.inl.injEq,
        true_and, and_true] at h
      obtain ⟨hkind, hvalues, hline, hcol, hchildren⟩ := h
      have hpos : t.pos = u.pos := by
        cases hp : t.pos
        cases hp' : u.pos
        simp_all
      refine same_iff.2 ⟨Json.units_injective hkind, hvalue.same_of_json_eq hu.value hvalues,
        hpos, sameAll_iff.2 ?_⟩
      exact forall₂_imp_of_mem (forall₂_map_eq_iff.2 hchildren) fun child hchild child' hchild' =>
        ih child hchild (hu.children child' hchild')

/-- Plain trees that are the same have the same record. -/
theorem IsPlain.record_eq_of_same {t u : Tree} (ht : t.IsPlain) (hu : u.IsPlain)
    (h : t.same u = true) (width : ℕ) : t.record width = u.record width := by
  induction ht generalizing u width with
  | @intro t hvalue _ ih =>
      obtain ⟨hkind, hvalues, hpos, hchildren⟩ := same_iff.1 h
      have hrecords : t.children.map (fun child => child.record (width + indentStep + indentStep)) =
          u.children.map (fun child => child.record (width + indentStep + indentStep)) :=
        forall₂_map_eq_iff.1 (forall₂_imp_of_mem (sameAll_iff.1 hchildren)
          fun child hchild child' hchild' hsame =>
            ih child hchild (hu.children child' hchild') hsame _)
      rw [record_eq, record_eq, hkind, hpos, hvalue.recordValue_eq hu.value hvalues]
      simp only [hrecords]

end Tree

end Reckoner
