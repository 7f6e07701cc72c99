import Reckoner.Proofs.Eval.Joining
import Reckoner.Proofs.Parse.Depth
import Reckoner.Proofs.Tree.Formatting

/-!
# Programs that differ in their formatting

Two texts whose tokens have the same gist parse alike and do the same. Whether a text parses is said
by its tokens and the depth of its groups, neither of which formatting touches, and what statements
do depends on no position.
-/

namespace Reckoner

open Formatting Reckoner.Tree

variable {s t : String} {us vs : List Tree}

theorem parseSource_reformat (hs : (parseSource s).1 = .ok us) (ht : (tokenize t).error? = none)
    (hgist : gist (tokenize s).tokens = gist (tokenize t).tokens) :
    ∃ vs, (parseSource t).1 = .ok vs ∧ vs.map unplaced = us.map unplaced := by
  obtain ⟨-, hall, hlayout⟩ := layout_of_parseSource hs
  obtain ⟨vs, hlayout', hall', hshape⟩ := hlayout.reformat hall hgist
  have hdepth (v : Tree) (hv : v ∈ vs) : v.nesting ≤ Parse.nestingLimit := by
    have hmem : v.unplaced ∈ us.map unplaced := hshape ▸ List.mem_map_of_mem hv
    obtain ⟨u, hu, hsame⟩ := List.mem_map.mp hmem
    rw [← nesting_unplaced v, ← hsame, nesting_unplaced u]
    exact nesting_le_of_parseSource hs u hu
  have hnesting := nesting_of_layout hlayout' fun v hv => ⟨hall' v hv, hdepth v hv⟩
  exact ⟨vs, (parseSource_eq_ok_iff hnesting).mpr ⟨ht, hall', hlayout'⟩, hshape⟩

/-- Statements that differ in their positions only have the same effects and fail alike. -/
theorem interpret_of_unplaced (h : vs.map unplaced = us.map unplaced) (env : Environment) :
    (interpret env vs).environment = (interpret env us).environment ∧
      (interpret env vs).effects = (interpret env us).effects ∧
      (interpret env vs).error?.map EvalError.problem =
        (interpret env us).error?.map EvalError.problem := by
  have hus := interpret_relocate (fun _ => .unknown) env us
  have hvs := interpret_relocate (fun _ => .unknown) env vs
  have hsame : interpret env (vs.map unplaced) = interpret env (us.map unplaced) := by rw [h]
  rw [show us.map unplaced = us.map (relocate fun _ => .unknown) from rfl, hus,
    show vs.map unplaced = vs.map (relocate fun _ => .unknown) from rfl, hvs] at hsame
  obtain ⟨heffects, herror, henv⟩ := Outcome.mk.inj hsame
  refine ⟨henv, heffects, ?_⟩
  have hproblem : EvalError.problem ∘ EvalError.relocate (fun _ => .unknown) =
      EvalError.problem := rfl
  have hmapped := congrArg (Option.map EvalError.problem) herror
  rwa [Option.map_map, Option.map_map, hproblem] at hmapped

/-- Whether two runs end alike: both succeed, both fail with the same wording, or both do not parse. -/
def Run.EndsLike (run run' : Run) : Prop :=
  (run.error? = none ∧ run'.error? = none) ∨
    (∃ e e', run.error? = some (.eval e) ∧ run'.error? = some (.eval e') ∧
      e'.diagnostic.text = e.diagnostic.text) ∨
    ∃ f f', run.error? = some (.parse f) ∧ run'.error? = some (.parse f')

theorem run_of_unplaced (hs : (parseSource s).1 = .ok us) (ht : (parseSource t).1 = .ok vs)
    (h : vs.map unplaced = us.map unplaced) (env : Environment) :
    (run env t).environment = (run env s).environment ∧
      (run env t).printed = (run env s).printed ∧ (run env s).EndsLike (run env t) := by
  obtain ⟨henv, heffects, hproblem⟩ := interpret_of_unplaced h env
  obtain ⟨herror, henv₁, heffects₁⟩ := run_of_ok hs env
  obtain ⟨herror', henv₂, heffects₂⟩ := run_of_ok ht env
  refine ⟨?_, ?_, ?_⟩
  · rw [henv₁, henv₂, henv]
  · rw [Run.printed, Run.printed, heffects₁, heffects₂, heffects]
  · rw [Run.EndsLike, herror, herror']
    cases hfirst : (interpret env us).error? with
    | none =>
        rw [hfirst, Option.map_none, Option.map_eq_none_iff] at hproblem
        exact Or.inl ⟨rfl, by rw [hproblem, Option.map_none]⟩
    | some e =>
        rw [hfirst, Option.map_some, Option.map_eq_some_iff] at hproblem
        obtain ⟨e', hsecond, hsame⟩ := hproblem
        rw [hsecond]
        exact Or.inr (Or.inl ⟨e, e', rfl, rfl, congrArg EvalProblem.text hsame⟩)

/-- Formatting does not influence what a program means. Two texts without errors, whose tokens have
the same gist, both parse or both do not. If they do, their statements differ in nothing but their
positions. With the same variables at the start they give variables the same values, print the same
values and end alike. -/
theorem formatting_invariance (s t : String) (hs : (tokenize s).error? = none)
    (ht : (tokenize t).error? = none)
    (hgist : gist (tokenize s).tokens = gist (tokenize t).tokens) :
    ((∃ us, (parseSource s).1 = .ok us) ↔ ∃ vs, (parseSource t).1 = .ok vs) ∧
    (∀ us vs, (parseSource s).1 = .ok us → (parseSource t).1 = .ok vs →
      vs.map unplaced = us.map unplaced) ∧
    ∀ env, (run env t).environment = (run env s).environment ∧
      (run env t).printed = (run env s).printed ∧ (run env s).EndsLike (run env t) := by
  match hus : (parseSource s).1, hvs : (parseSource t).1 with
  | .ok us, second =>
      obtain ⟨vs, hvs', hshape⟩ := parseSource_reformat hus ht hgist
      obtain rfl : second = .ok vs := hvs.symm.trans hvs'
      refine ⟨⟨fun _ => ⟨vs, rfl⟩, fun _ => ⟨us, rfl⟩⟩, ?_, run_of_unplaced hus hvs' hshape⟩
      rintro _ _ ⟨⟩ ⟨⟩
      exact hshape
  | .error f, .ok vs =>
      obtain ⟨us, hus', -⟩ := parseSource_reformat hvs hs hgist.symm
      rw [hus] at hus'
      cases hus'
  | .error f, .error f' =>
      refine ⟨⟨nofun, nofun⟩, nofun, fun env => ?_⟩
      obtain ⟨herror, henv, heffects⟩ := run_of_error hus env
      obtain ⟨herror', henv', heffects'⟩ := run_of_error hvs env
      refine ⟨henv'.trans henv.symm, ?_, Or.inr (Or.inr ⟨f, f', herror, herror'⟩)⟩
      rw [Run.printed, Run.printed, heffects, heffects']

/-- Blanks, comments, blank lines, other terminators and another spelling of a number. -/
theorem formatting_invariance_layout :
    let s := "x=0.5;print x"
    let t := "# half\n\tx = 00.50 # set\n\n;print x ;\n"
    (tokenize s).error? = none ∧ (tokenize t).error? = none ∧
      gist (tokenize s).tokens = gist (tokenize t).tokens ∧
      ∃ us vs, (parseSource s).1 = .ok us ∧ (parseSource t).1 = .ok vs ∧
        vs.map unplaced = us.map unplaced ∧
        (run .empty t).printed = (run .empty s).printed ∧ (run .empty s).printed = [0.5] := by
  intro s t
  have hs : (tokenize s).error? = none := by decide +kernel
  have ht : (tokenize t).error? = none := by decide +kernel
  have hgist : gist (tokenize s).tokens = gist (tokenize t).tokens := by decide +kernel
  obtain ⟨hparses, hshape, hruns⟩ := formatting_invariance s t hs ht hgist
  have hprinted : (run .empty s).printed = [0.5] := by decide +kernel
  have hok : (parseSource s).1.isOk = true := by decide +kernel
  match hus : (parseSource s).1 with
  | .error f =>
      rw [hus] at hok
      cases hok
  | .ok us =>
      obtain ⟨vs, hvs⟩ := hparses.mp ⟨us, hus⟩
      exact ⟨hs, ht, hgist, us, vs, rfl, hvs, hshape us vs hus hvs, (hruns .empty).2.1, hprinted⟩

end Reckoner
