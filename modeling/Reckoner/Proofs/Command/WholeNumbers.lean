import Reckoner.Proofs.Command.Agreement
import Reckoner.Proofs.Number.Integers

/-!
# Whole numbers are printed as they are written

A natural number can be written with zeros in front of it, with digits of any script, and with a
point and zeros after it. Up to `2 ^ 53` a program that prints such a number writes its digits, and
nothing else: the number is read as a double of the same value, and the plain text of the double
has no point.
-/

namespace Reckoner

open Text (decimalValue?)

/-- The ways to write a natural number in decimal digits. -/
inductive WrittenWhole (n : ℕ) : List Char → Prop
  | digits {ds : List Char} {values : List ℕ} :
      ds ≠ [] → Digits ds values → Nat.ofDigits 10 values.reverse = n → WrittenWhole n ds
  | point {ds zeros : List Char} {values : List ℕ} :
      ds ≠ [] → Digits ds values → Nat.ofDigits 10 values.reverse = n →
        zeros ≠ [] → (∀ z ∈ zeros, decimalValue? z = some 0) → WrittenWhole n (ds ++ '.' :: zeros)

/-! ## Values of digits -/

namespace Number

theorem ofDigits_eq (values : List ℕ) : ofDigits values = Nat.ofDigits 10 values.reverse := by
  rw [Nat.ofDigits_eq_foldr, List.foldr_reverse, ofDigits]
  simp only [Nat.cast_id, Nat.add_comm]

theorem ofDigits_append_zeros (values : List ℕ) (k : ℕ) :
    ofDigits (values ++ List.replicate k 0) = ofDigits values * 10 ^ k := by
  rw [ofDigits_eq, ofDigits_eq, List.reverse_append, List.reverse_replicate, Nat.ofDigits_append,
    Nat.ofDigits_replicate_zero, List.length_replicate, Nat.zero_add, Nat.mul_comm]

end Number

theorem digits_of_zeros {zeros : List Char} (h : ∀ z ∈ zeros, decimalValue? z = some 0) :
    Digits zeros (List.replicate zeros.length 0) := by
  induction zeros with
  | nil => exact .nil
  | cons z zeros ih =>
      exact .cons (h z List.mem_cons_self) (ih fun y hy => h y (List.mem_cons_of_mem z hy))

/-- A written natural number is a numeral for the double nearest to it. -/
theorem WrittenWhole.exists_numeral {n : ℕ} {l : List Char} (h : WrittenWhole n l) :
    ∃ m d : ℕ, 0 < d ∧ (m / d : ℚ) = n ∧ Numeral l (Number.nearest m d) := by
  cases h with
  | @digits _ values hne hds hn =>
      refine ⟨Number.ofDigits values, 1, one_pos, ?_, .whole hne hds⟩
      rw [Number.ofDigits_eq, hn, Nat.cast_one, div_one]
  | @point ds zeros values hne hds hn hne' hzeros =>
      refine ⟨_, _, ?_, ?_, .point hne hne' hds (digits_of_zeros hzeros)⟩
      · exact Nat.pow_pos (by norm_num)
      · rw [Number.ofDigits_append_zeros, Number.ofDigits_eq, hn, List.length_replicate]
        push_cast
        exact mul_div_cancel_right₀ _ (by positivity)

/-! ## Printing a number -/

section Printing

variable {l : List Char} {x : Float}

theorem tokenize_print (h : Numeral l x) :
    (tokenize ("print " ++ String.ofList l)).tokens =
        [⟨.print, .text "print", ⟨1, 1⟩, 5⟩, ⟨.number, .number x, ⟨1, 7⟩, l.length⟩] ∧
      (tokenize ("print " ++ String.ofList l)).error? = none := by
  have hprint : String.ofList ['p', 'r', 'i', 'n', 't'] = "print" := rfl
  have hletters : ['r', 'i', 'n', 't'].all (fun d => isWordAhead (some d)) = true := by
    decide +kernel
  have hword : Lexeme ['p', 'r', 'i', 'n', 't'] ([' '] ++ (l ++ [])) .print (.text "print") := by
    have hlexeme : Lexeme ['p', 'r', 'i', 'n', 't'] ([' '] ++ (l ++ [])) _ _ :=
      .word (by decide +kernel) (List.all_eq_true.mp hletters) (by rintro d ⟨⟩; decide +kernel)
    rwa [hprint, if_pos rfl] at hlexeme
  have hnumber : Lexeme l [] .number (.number x) := .number h (by simp [EndsNumber])
  have hspace : Gap [' '] (l ++ []) := .blank rfl (.nil _)
  have hcut : Cut ⟨1, 1⟩ ([] ++ (['p', 'r', 'i', 'n', 't'] ++ ([' '] ++ (l ++ []))))
      [⟨.print, .text "print", ⟨1, 1⟩, 5⟩, ⟨.number, .number x, ⟨1, 7⟩, l.length⟩] _ [] :=
    .next (.nil _) hword (.next hspace hnumber (.stop (.nil _) halts_nil))
  have hscans : Scans ⟨1, 1⟩ ("print " ++ String.ofList l).toList
      [⟨.print, .text "print", ⟨1, 1⟩, 5⟩, ⟨.number, .number x, ⟨1, 7⟩, l.length⟩] none := by
    have htext : ("print " ++ String.ofList l).toList =
        [] ++ (['p', 'r', 'i', 'n', 't'] ++ ([' '] ++ (l ++ []))) := by
      simp
    rw [htext]
    exact ⟨_, hcut⟩
  exact (scans_tokenize _).unique hscans

theorem parseSource_print (h : Numeral l x) :
    (parseSource ("print " ++ String.ofList l)).1 =
      .ok [.print ⟨1, 1⟩ (.number ⟨1, 7⟩ x)] := by
  obtain ⟨htokens, herror⟩ := tokenize_print h
  refine (parseSource_eq_ok_iff ?_).mpr ⟨herror, ?_, ?_⟩
  · rw [htokens]
    exact Nat.zero_le _
  · simp [Tree.IsStatement, Tree.Tiered.number]
  · rw [htokens]
    exact .last rfl

theorem interpret_print (env : Environment) (pos pos' : Position) :
    interpret env [.print pos (.number pos' x)] = ⟨[.printed x], none, env⟩ := by
  have heval : evaluate env (.number pos' x) = .ok x := by
    rw [evaluate_eq_eval, Tree.eval_eq]
    rfl
  simp [interpret, execute, heval, Except.map, Effect.apply]

end Printing

namespace Command

/-- A program that prints a natural number up to `2 ^ 53` writes its digits, however the number is
written, and ends without an error. -/
theorem print_whole_number {n : ℕ} (hn : n ≤ 2 ^ 53) {spelling : String}
    (h : WrittenWhole n spelling.toList) (read : FileReader) :
    let result := (Job.literally ("print " ++ spelling) false).run read
    Output.standardText result.outputs = toString n ++ "\n" ∧
      (∀ content, .complaint content ∉ result.outputs) ∧
      ∃ outcome, result.outcome = .ok (some outcome) ∧ outcome.error? = none := by
  intro result
  obtain ⟨m, d, hd, hratio, hnumeral⟩ := h.exists_numeral
  have hparse := parseSource_print hnumeral
  rw [String.ofList_toList] at hparse
  obtain ⟨herror, -, heffects⟩ := run_of_ok hparse .empty
  rw [interpret_print] at herror heffects
  have hprinted : (Reckoner.run .empty ("print " ++ spelling)).printed = [Number.nearest m d] := by
    rw [Run.printed, heffects]
    rfl
  have hshown : Number.plainText (Number.nearest m d) = toString n := by
    refine Number.plainText_of_value? (Number.value?_nearest_of_le hn hd hratio) ?_
    exact hn.trans_lt (by decide)
  obtain ⟨hstandard, hcomplaints, houtcome⟩ :=
    run_literally ("print " ++ spelling) false read
  rw [hprinted, List.map_singleton, hshown] at hstandard
  rw [herror] at houtcome
  refine ⟨?_, hcomplaints, _, houtcome, rfl⟩
  rw [hstandard]
  simp [banner, String.join]

/-- The greatest such number, with a zero in front of it, a digit of another script in it and a zero
after its point. -/
theorem print_whole_number_greatest :
    let digits := ['0', '٩', '0', '0', '7', '1', '9', '9', '2', '5', '4', '7', '4', '0', '9', '9',
      '2', '.', '0']
    WrittenWhole (2 ^ 53) digits ∧
      Output.standardText ((Job.literally ("print " ++ String.ofList digits) false).run
        fun _ => .error .missing).outputs = "9007199254740992\n" := by
  intro digits
  have hdigits : Digits (digits.take 17) [0, 9, 0, 0, 7, 1, 9, 9, 2, 5, 4, 7, 4, 0, 9, 9, 2] :=
    digits_iff_mapM.mpr (by decide +kernel)
  have hzeros : ∀ z ∈ ['0'], decimalValue? z = some 0 :=
    List.forall_mem_singleton.mpr (by decide +kernel)
  have h : WrittenWhole (2 ^ 53) digits :=
    .point (by decide) hdigits (by decide) (by decide) hzeros
  have h' : WrittenWhole (2 ^ 53) (String.ofList digits).toList := by
    rwa [String.toList_ofList]
  exact ⟨h, (print_whole_number le_rfl h' _).1.trans (by decide +kernel)⟩

end Command

end Reckoner
