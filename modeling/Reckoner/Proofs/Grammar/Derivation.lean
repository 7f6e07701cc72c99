import Mathlib.Computability.Language
import Mathlib.Order.CompletePartialOrder
import Reckoner.Token.Basic

/-!
# Derivations of the grammar

The rules of the language are written down as data, in extended form, over the kinds of tokens.
`Derives` says which sequences of kinds a form stands for. The derivable languages are the least
ones closed under the rules: they are closed themselves, and every closed family of languages
contains them. The two halves of this are what later proofs use in place of single derivations.
-/

namespace Reckoner.Grammar

open Computability
open Token (Kind)

inductive Nonterminal
  | program
  | statement
  | expression
  | term
  | factor
  | suffixed
  | primary

/-- Right-hand sides of rules. -/
inductive Form
  | token (kind : Kind)
  | rule (name : Nonterminal)
  | seq (first second : Form)
  | alt (first second : Form)
  | many (form : Form)

namespace Form

/-- Operands of one tier, joined by the given operators. -/
def joined (operand : Nonterminal) (operator : Form) : Form :=
  .seq (.rule operand) (.many (.seq operator (.rule operand)))

end Form

/-- The rules of the grammar. The end of the input counts as a token, which ends a statement as
well as the program. -/
def Nonterminal.form : Nonterminal → Form
  | .program =>
    .seq
      (.many (.seq (.many (.token .terminator))
        (.seq (.rule .statement) (.alt (.token .terminator) (.token .endOfInput)))))
      (.seq (.many (.token .terminator)) (.token .endOfInput))
  | .statement =>
    .alt (.seq (.token .print) (.rule .expression))
      (.alt (.seq (.token .name) (.seq (.token .assign) (.rule .expression)))
        (.rule .expression))
  | .expression => .joined .term (.alt (.token .plus) (.token .minus))
  | .term => .joined .factor (.alt (.token .star) (.token .slash))
  | .factor => .joined .suffixed (.token .caret)
  | .suffixed => .seq (.rule .primary) (.many (.token .bang))
  | .primary =>
    .alt (.token .number)
      (.alt (.token .name)
        (.seq (.token .openParen) (.seq (.rule .expression) (.token .closeParen))))

/-- The sequences of kinds that a form stands for. -/
inductive Derives : Form → List Kind → Prop
  | token (kind : Kind) : Derives (.token kind) [kind]
  | rule {name : Nonterminal} {w : List Kind} :
      Derives name.form w → Derives (.rule name) w
  | seq {f g : Form} {v w : List Kind} :
      Derives f v → Derives g w → Derives (.seq f g) (v ++ w)
  | left {f g : Form} {w : List Kind} : Derives f w → Derives (.alt f g) w
  | right {f g : Form} {w : List Kind} : Derives g w → Derives (.alt f g) w
  | none {f : Form} : Derives (.many f) []
  | more {f : Form} {v w : List Kind} :
      Derives f v → Derives (.many f) w → Derives (.many f) (v ++ w)

/-! ## The least closed languages -/

def single (kind : Kind) : Language Kind := {[kind]}

@[simp] theorem mem_single {kind : Kind} {w : List Kind} : w ∈ single kind ↔ w = [kind] :=
  Iff.rfl

theorem mem_of_le {l m : Language Kind} (h : l ≤ m) {w : List Kind} (hw : w ∈ l) : w ∈ m :=
  h hw

/-- What a form stands for when the rules stand for the given languages. -/
def Form.language (L : Nonterminal → Language Kind) : Form → Language Kind
  | .token kind => single kind
  | .rule name => L name
  | .seq f g => f.language L * g.language L
  | .alt f g => f.language L + g.language L
  | .many f => (f.language L)∗

/-- Whether languages contain everything that the rules make of them. -/
def Closed (L : Nonterminal → Language Kind) : Prop :=
  ∀ name, (Nonterminal.form name).language L ≤ L name

theorem Derives.mem_language {L : Nonterminal → Language Kind} (hL : Closed L) {f : Form}
    {w : List Kind} (h : Derives f w) : w ∈ f.language L := by
  induction h with
  | token kind => exact mem_single.mpr rfl
  | rule _ ih => exact hL _ ih
  | seq _ _ ihf ihg => exact Language.append_mem_mul ihf ihg
  | left _ ih => exact (Language.mem_add ..).mpr (Or.inl ih)
  | right _ ih => exact (Language.mem_add ..).mpr (Or.inr ih)
  | none => exact Language.nil_mem_kstar _
  | more _ _ ihf ihrest =>
      exact mem_of_le mul_kstar_le_kstar (Language.append_mem_mul ihf ihrest)

def derived (name : Nonterminal) : Language Kind := {w | Derives (.rule name) w}

theorem Derives.many_flatten {f : Form} {ws : List (List Kind)}
    (h : ∀ w ∈ ws, Derives f w) : Derives (.many f) ws.flatten := by
  induction ws with
  | nil => exact .none
  | cons w ws ih =>
      exact .more (h w List.mem_cons_self) (ih fun v hv => h v (List.mem_cons_of_mem w hv))

theorem Derives.of_mem_language {f : Form} {w : List Kind} (h : w ∈ f.language derived) :
    Derives f w := by
  induction f generalizing w with
  | token kind =>
      rw [mem_single.mp h]
      exact .token kind
  | rule name => exact h
  | seq f g ihf ihg =>
      obtain ⟨u, hu, v, hv, rfl⟩ := Language.mem_mul.mp h
      exact .seq (ihf hu) (ihg hv)
  | alt f g ihf ihg =>
      rcases (Language.mem_add ..).mp h with hf | hg
      · exact .left (ihf hf)
      · exact .right (ihg hg)
  | many f ih =>
      obtain ⟨ws, rfl, hws⟩ := Language.mem_kstar.mp h
      exact .many_flatten fun v hv => ih (hws v hv)

theorem closed_derived : Closed derived :=
  fun _ _ h => .rule (.of_mem_language h)

theorem derived_le (name : Nonterminal) : derived name ≤ name.form.language derived := by
  intro w hw
  cases hw with
  | rule h => exact h.mem_language closed_derived

end Reckoner.Grammar
