/-!
# Environments

An environment gives values to variables. Each variable has at most one value; giving it another
one replaces the first.
-/

namespace Reckoner

/-- Variables with their values, in the order in which they were first given one. -/
structure Environment where
  bindings : List (String × Float)

namespace Environment

/-- The environment without variables. -/
def empty : Environment := ⟨[]⟩

/-- The value of a variable. -/
def get? (env : Environment) (id : String) : Option Float :=
  env.bindings.lookup id

/-- The bindings with a value for a variable, which keeps its place or comes last. -/
def insertInto (id : String) (value : Float) : List (String × Float) → List (String × Float)
  | [] => [(id, value)]
  | (other, old) :: rest =>
    if other = id then (id, value) :: rest else (other, old) :: insertInto id value rest

/-- Gives a variable a value. -/
def insert (env : Environment) (id : String) (value : Float) : Environment :=
  ⟨insertInto id value env.bindings⟩

/-- The environment with the given bindings; later ones replace earlier ones. -/
def ofList (bindings : List (String × Float)) : Environment :=
  bindings.foldl (fun env binding => env.insert binding.1 binding.2) empty

/-- The bindings in the order of the names. -/
def sorted (env : Environment) : List (String × Float) :=
  env.bindings.mergeSort fun a b => decide (a.1 ≤ b.1)

theorem lookup_insertInto (id other : String) (value : Float)
    (bindings : List (String × Float)) :
    (insertInto id value bindings).lookup other =
      if other = id then some value else bindings.lookup other := by
  induction bindings with
  | nil =>
    by_cases h : other = id
    · simp [insertInto, h]
    · simp [insertInto, h, List.lookup_cons, beq_eq_false_iff_ne.2 h]
  | cons binding rest ih =>
    obtain ⟨first, old⟩ := binding
    by_cases hFirst : first = id
    · by_cases h : other = id
      · simp [insertInto, hFirst, h]
      · simp [insertInto, hFirst, h, List.lookup_cons, beq_eq_false_iff_ne.2 h]
    · by_cases h : other = first
      · subst h
        simp [insertInto, hFirst]
      · simp [insertInto, hFirst, List.lookup_cons, beq_eq_false_iff_ne.2 h, ih]

/-- A variable has the value that it was given last, and the others keep theirs. -/
theorem get?_insert (env : Environment) (id other : String) (value : Float) :
    (env.insert id value).get? other = if other = id then some value else env.get? other :=
  lookup_insertInto id other value env.bindings

end Environment

end Reckoner
