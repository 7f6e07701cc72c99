import Reckoner.Proofs.Parse.LiveText
import Reckoner.Proofs.Parse.Refinement

/-!
# How far parsing looks ahead

What is recorded while a text is parsed shows when its tokens were found: every entry has the number
of tokens that had been taken by then. At no time are there more than two tokens that were found and
not yet taken. Two are needed only at a name that may start an assignment; rules that have read an
expression have looked at one token after it, which is the one that ended it. Hence a statement is
reported as parsed right after its next token has been found, or at the end of the text.
-/

namespace Reckoner

/-! ## Records -/

namespace Entry

def token? (entry : Entry) : Option Token :=
  match entry.event with
  | .found token => some token
  | _ => none

def report? (entry : Entry) : Option (String × Position) :=
  match entry.event with
  | .parsed kind pos => some (kind, pos)
  | _ => none

end Entry

def found (entries : List Entry) : List Token :=
  entries.filterMap Entry.token?

def reports (entries : List Entry) : List (String × Position) :=
  entries.filterMap Entry.report?

/-- Whether a statement may start after the tokens. -/
def MayStartAfter (ws : List Token) : Prop :=
  ∀ t ∈ ws.getLast?, t.kind = .terminator

/-- Whether a statement has just been read when so many tokens of the text have been taken and the
given ones have been found: these are the tokens before the statement, its own ones, and the next
one. Where there is no next one, the text has been read to its end. -/
def JustRead (source : String) (statement : Tree) (taken : Nat) (seen : List Token) : Prop :=
  ∃ ws xs rest, (tokenize source).tokens = ws ++ (xs ++ rest) ∧
    MayStartAfter ws ∧ statement.IsStatement ∧ statement.Spells xs ∧
    taken = ws.length + xs.length ∧ seen = ws ++ (xs ++ rest.take 1) ∧
    (rest = [] → (tokenize source).error? = none)

/-- Whether an entry may come after the ones before it, if these statements are reported one after
the other. -/
structure Entry.Follows (source : String) (reported : List Tree) (before : List Entry)
    (entry : Entry) : Prop where
  found_prefix : found (before ++ [entry]) <+: (tokenize source).tokens
  ahead_le : (found (before ++ [entry])).length ≤ entry.taken + 2
  taken_le : ∀ earlier ∈ before, earlier.taken ≤ entry.taken
  justRead : ∀ report, entry.report? = some report →
    ∃ statement, reported[(reports before).length]? = some statement ∧
      report = (statement.kind, statement.pos) ∧
      JustRead source statement entry.taken (found before)

/-- Whether every entry may come after the ones before it, and the statements are those that are
reported. -/
structure Recorded (source : String) (reported : List Tree) (entries : List Entry) : Prop where
  reports_eq : reports entries = reported.map fun statement => (statement.kind, statement.pos)
  follows : ∀ before entry after, entries = before ++ entry :: after →
    entry.Follows source reported before

theorem MayStartAfter.append {ws zs : List Token} (h : MayStartAfter ws)
    (hzs : ∀ t ∈ zs, t.kind = .terminator) : MayStartAfter (ws ++ zs) := by
  intro t ht
  rw [List.getLast?_append, Option.mem_def, Option.or_eq_some_iff] at ht
  rcases ht with hlast | ⟨-, hlast⟩
  · exact hzs t (List.mem_of_getLast? hlast)
  · exact h t hlast

section Records

variable {source : String} {reported more : List Tree} {entries before : List Entry} {entry : Entry}

theorem found_append (xs ys : List Entry) : found (xs ++ ys) = found xs ++ found ys :=
  List.filterMap_append

theorem Entry.Follows.append (h : entry.Follows source reported before) (more : List Tree) :
    entry.Follows source (reported ++ more) before where
  found_prefix := h.found_prefix
  ahead_le := h.ahead_le
  taken_le := h.taken_le
  justRead report hreport := by
    obtain ⟨statement, hget, hrest⟩ := h.justRead report hreport
    obtain ⟨hless, -⟩ := List.getElem?_eq_some_iff.mp hget
    exact ⟨statement, (List.getElem?_append_left hless).trans hget, hrest⟩

theorem recorded_nil : Recorded source [] [] where
  reports_eq := rfl
  follows before entry after h := by simp at h

theorem Recorded.push (h : Recorded source reported entries)
    (hreports : reports [entry] = more.map fun statement => (statement.kind, statement.pos))
    (hfollows : entry.Follows source (reported ++ more) entries) :
    Recorded source (reported ++ more) (entries ++ [entry]) where
  reports_eq := by
    rw [List.map_append, ← h.reports_eq, ← hreports]
    exact List.filterMap_append
  follows before other after hsplit := by
    rcases List.eq_nil_or_concat' after with rfl | ⟨after, last, rfl⟩
    · obtain ⟨rfl, hlast⟩ := List.append_inj' hsplit rfl
      cases hlast
      exact hfollows
    · rw [← List.cons_append, ← List.append_assoc] at hsplit
      obtain ⟨hbefore, -⟩ := List.append_inj' hsplit rfl
      exact (h.follows before other after hbefore).append more

end Records

/-! ## Readers with their records -/

theorem Supply.isLive_next {supply rest : Supply} {t? : Option Token}
    (h : supply.isLive = true) (hnext : supply.next = (.ok t?, rest)) : rest.isLive = true := by
  cases supply with
  | listed tokens => cases h
  | live cursor =>
      simp only [next] at hnext
      split at hnext <;> cases hnext
      rfl

/-- Whether the record of a reader is that of a text with the statements reported so far, and at
most so many tokens were found and not yet taken. -/
structure Reader.Logged (source : String) (reported : List Tree) (n : Nat) (r : Reader) : Prop where
  tokens_eq : found r.trail.toList ++ r.supply.tokens = (tokenize source).tokens
  length_eq : (found r.trail.toList).length = r.taken + r.buffer.length
  ahead_le : r.buffer.length ≤ n
  live : r.supply.isLive = true ∨ r.supply.tokens = []
  taken_le : ∀ entry ∈ r.trail.toList, entry.taken ≤ r.taken
  recorded : Recorded source reported r.trail.toList

namespace Reader

variable {source : String} {reported : List Tree} {m n k : Nat} {r : Reader}

theorem logged_ofSource (source : String) : (ofSource source).Logged source [] 0 where
  tokens_eq := rfl
  length_eq := rfl
  ahead_le := Nat.le_refl 0
  live := Or.inl rfl
  taken_le := by simp [ofSource, ofSupply]
  recorded := recorded_nil

theorem Logged.mono (h : r.Logged source reported m) (hle : m ≤ n) :
    r.Logged source reported n :=
  { h with ahead_le := h.ahead_le.trans hle }

theorem Logged.found_eq (h : r.Logged source reported n) :
    found r.trail.toList = (tokenize source).tokens.take (r.taken + r.buffer.length) := by
  rw [← h.tokens_eq, ← h.length_eq, List.take_left]

/-- A token that is found is recorded, and one more token is ahead. -/
theorem Logged.receive {t : Token} {rest : Supply} (h : r.Logged source reported n) (hn : n < 2)
    (hnext : r.supply.next = (.ok (some t), rest)) :
    (r.receive t rest).Logged source reported (n + 1) := by
  obtain ⟨htokens, -⟩ := Supply.next_some hnext
  have hlive : r.supply.isLive = true := h.live.resolve_right (by simp [htokens])
  have htrail : (r.receive t rest).trail.toList = r.trail.toList ++ [⟨r.taken, .found t⟩] := by
    simp [Reader.receive, hlive]
  have hfound : found (r.receive t rest).trail.toList = found r.trail.toList ++ [t] := by
    rw [htrail, found_append]
    rfl
  have hsplit : found r.trail.toList ++ [t] ++ rest.tokens = (tokenize source).tokens := by
    rw [List.append_assoc, ← h.tokens_eq, htokens]
    rfl
  have hahead := h.ahead_le
  have hlength := h.length_eq
  refine ⟨?_, ?_, ?_, ?_, ?_, ?_⟩
  · rw [hfound]
    exact hsplit
  · rw [hfound, List.length_append, hlength]
    simp only [Reader.receive, List.length_append, List.length_singleton]
    omega
  · simpa [Reader.receive] using hahead
  · exact Or.inl (Supply.isLive_next hlive hnext)
  · rw [htrail, List.forall_mem_append, List.forall_mem_singleton]
    exact ⟨h.taken_le, Nat.le_refl _⟩
  · rw [htrail, ← List.append_nil reported]
    refine h.recorded.push rfl ⟨?_, ?_, h.taken_le, ?_⟩
    · rw [← htrail, hfound]
      exact ⟨rest.tokens, hsplit⟩
    · rw [← htrail, hfound, List.length_append, hlength, List.length_singleton]
      simp only
      omega
    · rintro report ⟨⟩

theorem Logged.pull (h : r.Logged source reported n) (hn : n < 2) :
    r.pull.2.Logged source reported (n + 1) := by
  match hnext : r.supply.next with
  | (.ok (some t), rest) =>
      rw [Reader.pull, hnext]
      exact h.receive hn hnext
  | (.ok none, rest) =>
      obtain ⟨hnil, -⟩ := Supply.next_none hnext
      obtain ⟨hnil', -⟩ := Supply.tokens_of_next_none hnext
      have htokens := h.tokens_eq
      rw [hnil] at htokens
      rw [Reader.pull, hnext]
      exact
        { h with
          tokens_eq := by simpa only [hnil'] using htokens
          ahead_le := Nat.le_succ_of_le h.ahead_le
          live := Or.inr hnil' }
  | (.error e, rest) =>
      obtain ⟨hnil, -, rfl⟩ := Supply.next_error hnext
      have htokens := h.tokens_eq
      rw [hnil] at htokens
      rw [Reader.pull, hnext]
      exact
        { h with
          tokens_eq := htokens
          ahead_le := Nat.le_succ_of_le h.ahead_le
          live := Or.inr rfl }

theorem Logged.pullMany (h : r.Logged source reported n) (hn : n + k ≤ 2) :
    (pullMany k r).2.Logged source reported (n + k) := by
  induction k generalizing n r with
  | zero => exact h
  | succ k ih =>
      rw [Reader.pullMany]
      split
      · exact h.mono (Nat.le_add_right _ _)
      · have hpull := h.pull (by omega)
        rcases hstep : r.pull with ⟨e | ⟨⟩, r'⟩
        · rw [hstep] at hpull
          exact hpull.mono (by omega)
        · rw [hstep] at hpull
          have hmore := ih hpull (by omega)
          rwa [Nat.add_assoc, Nat.add_comm 1 k] at hmore

theorem Logged.fill (h : r.Logged source reported n) (hk : k ≤ n) (hn : n ≤ 2) :
    (r.fill k).2.Logged source reported n := by
  have hahead := h.ahead_le
  have hexact : r.Logged source reported r.buffer.length := { h with ahead_le := Nat.le_refl _ }
  exact (hexact.pullMany (by omega)).mono (by omega)

theorem Logged.drop (h : r.Logged source reported (n + 1)) : r.drop.Logged source reported n := by
  cases hbuffer : r.buffer with
  | nil =>
      have hdrop : r.drop = r := by simp [Reader.drop, hbuffer]
      rw [hdrop]
      exact { h with ahead_le := by simp [hbuffer] }
  | cons t ts =>
      have hdrop : r.drop = { r with buffer := ts, taken := r.taken + 1 } := by
        simp [Reader.drop, hbuffer]
      have hahead := h.ahead_le
      have hlength := h.length_eq
      rw [hbuffer, List.length_cons] at hahead hlength
      rw [hdrop]
      exact
        { tokens_eq := h.tokens_eq
          length_eq := by simp only [hlength]; omega
          ahead_le := Nat.le_of_succ_le_succ hahead
          live := h.live
          taken_le := fun entry hentry => Nat.le_succ_of_le (h.taken_le entry hentry)
          recorded := h.recorded }

theorem Logged.report {statement : Tree} (h : r.Logged source reported n) (hn : n ≤ 2)
    (hread : JustRead source statement r.taken (found r.trail.toList)) :
    (r.record (.parsed statement.kind statement.pos)).Logged source (reported ++ [statement]) n := by
  have htrail : (r.record (.parsed statement.kind statement.pos)).trail.toList =
      r.trail.toList ++ [⟨r.taken, .parsed statement.kind statement.pos⟩] := by
    simp [Reader.record]
  have hfound : found (r.record (.parsed statement.kind statement.pos)).trail.toList =
      found r.trail.toList := by
    rw [htrail, found_append]
    exact List.append_nil _
  refine ⟨?_, ?_, h.ahead_le, h.live, ?_, ?_⟩
  · rw [hfound]
    exact h.tokens_eq
  · rw [hfound]
    exact h.length_eq
  · rw [htrail, List.forall_mem_append, List.forall_mem_singleton]
    exact ⟨h.taken_le, Nat.le_refl _⟩
  · rw [htrail]
    refine h.recorded.push rfl ⟨?_, ?_, h.taken_le, ?_⟩
    · rw [← htrail, hfound]
      exact ⟨r.supply.tokens, h.tokens_eq⟩
    · rw [← htrail, hfound, h.length_eq]
      exact Nat.add_le_add_left (h.ahead_le.trans hn) r.taken
    · rintro report ⟨⟩
      refine ⟨statement, ?_, rfl, hread⟩
      have hlength : (reports r.trail.toList).length = reported.length := by
        rw [h.recorded.reports_eq, List.length_map]
      rw [hlength, List.getElem?_concat_length]

end Reader

/-! ## Steps -/

namespace Parse

/-- Whether a step that starts with at most `m` tokens ahead leaves at most `n` of them, or two if
it fails, and reports no statement. -/
def Lazy {α : Type} (m n : Nat) (step : Parse α) : Prop :=
  ∀ (source : String) (reported : List Tree) (r : Reader), r.Logged source reported m →
    Ensures step r (fun _ r' => r'.Logged source reported n)
      (fun _ r' => r'.Logged source reported 2)

section Steps

variable {α β : Type} {k m n : Nat} {step : Parse α} {next : α → Parse β}

theorem Lazy.narrow (h : Lazy m n step) (hm : k ≤ m) : Lazy k n step :=
  fun source reported r hr => h source reported r (hr.mono hm)

theorem lazy_pure (a : α) : Lazy n n (pure a : Parse α) :=
  fun _ _ _ hr => hr

theorem lazy_fail (f : ParseFailure) (hm : m ≤ 2) : Lazy m n (fail f : Parse α) :=
  fun _ _ _ hr => hr.mono hm

theorem lazy_reject (e : ParseError) (hm : m ≤ 2) : Lazy m n (reject e : Parse α) :=
  lazy_fail (.parse e) hm

theorem lazy_fuel : Lazy n n fuel :=
  fun _ _ _ hr => hr

theorem Lazy.bind (h : Lazy k m step) (hnext : ∀ a, Lazy m n (next a)) :
    Lazy k n (step >>= next) := by
  intro source reported r hr
  exact Ensures.bind ((h source reported r hr).imp
    (fun a r' hr' => hnext a source reported r' hr') fun _ _ hr' => hr')

theorem lazy_peek (hk : k < n) (hn : n ≤ 2) : Lazy n n (peek k) := by
  intro source reported r hr
  have hfill := hr.fill hk hn
  unfold Ensures peek
  match hstep : r.fill (k + 1) with
  | (.ok (), r') => simpa only [hstep] using hfill
  | (.error e, r') =>
      rw [hstep] at hfill
      exact hfill.mono hn

theorem lazy_advance : Lazy 2 1 advance := by
  refine (lazy_peek (by decide) (by decide)).bind fun t source reported r hr => ?_
  exact hr.drop

theorem lazy_accept (kinds : List Token.Kind) : Lazy 1 1 (accept kinds) := by
  refine (lazy_peek (by decide) (by decide)).bind fun t => ?_
  split
  · exact (lazy_advance.narrow (by decide)).bind fun u => lazy_pure _
  · exact lazy_pure _

theorem lazy_expect (kinds : List Token.Kind) : Lazy 2 1 (expect kinds) := by
  have hrefused : Lazy 2 1 (current >>= fun t => (reject (.unexpected t) : Parse Token)) :=
    (lazy_peek (by decide) (by decide)).bind fun t => lazy_reject _ (by decide)
  -- A token that is not accepted stays ahead, but then the step fails.
  unfold expect accept
  rw [bind_assoc]
  refine (lazy_peek (by decide) (by decide)).bind fun t => ?_
  split
  · rw [bind_assoc]
    refine lazy_advance.bind fun u => ?_
    exact lazy_pure u
  · exact hrefused

end Steps

/-! ## Rules -/

section Rules

variable {rule nested : Parse Tree}

theorem Lazy.unlessEnd (h : Lazy 2 1 rule) (problem : ParseProblem) :
    Lazy 2 1 (unlessEnd problem rule) := by
  refine (lazy_peek (by decide) (by decide)).bind fun t => ?_
  split
  · exact lazy_reject _ (by decide)
  · exact h

theorem Lazy.chain (h : Lazy 2 1 rule) (operators : Token.Kind → Option Operator) (rounds : Nat)
    (left : Tree) : Lazy 1 1 (chain operators rule rounds left) := by
  induction rounds generalizing left with
  | zero => exact lazy_pure left
  | succ rounds ih =>
      refine (lazy_peek (by decide) (by decide)).bind fun t => ?_
      cases operators t.kind with
      | none => exact lazy_pure left
      | some op =>
          refine (lazy_advance.narrow (by decide)).bind fun _ => ?_
          exact ((h.unlessEnd _).narrow (by decide)).bind fun right => ih _

theorem Lazy.tier (h : Lazy 2 1 rule) (operators : Token.Kind → Option Operator) :
    Lazy 2 1 (tier operators rule) :=
  h.bind fun left => lazy_fuel.bind fun rounds => h.chain operators rounds left

theorem lazy_bangs (rounds : Nat) (operand : Tree) : Lazy 1 1 (bangs rounds operand) := by
  induction rounds generalizing operand with
  | zero => exact lazy_pure operand
  | succ rounds ih =>
      refine (lazy_accept _).bind fun t => ?_
      cases t with
      | none => exact lazy_pure operand
      | some bang => exact ih _

theorem Lazy.group (h : Lazy 2 1 nested) : Lazy 2 1 (group nested) := by
  refine (lazy_expect _).bind fun opening => ?_
  refine (h.narrow (by decide)).bind fun inner => ?_
  refine (lazy_accept _).bind fun t => ?_
  split
  · exact lazy_pure _
  · refine (lazy_peek (by decide) (by decide)).bind fun u => ?_
    split <;> exact lazy_reject _ (by decide)

theorem Lazy.primary (h : Lazy 2 1 nested) : Lazy 2 1 (primary nested) := by
  refine (lazy_peek (by decide) (by decide)).bind fun t => ?_
  split
  · refine lazy_advance.bind fun _ => ?_
    split
    · exact lazy_pure _
    · exact lazy_fail _ (by decide)
  · exact lazy_advance.bind fun _ => lazy_pure _
  · exact h.group
  · exact lazy_reject _ (by decide)

theorem Lazy.suffixed (h : Lazy 2 1 nested) : Lazy 2 1 (suffixed nested) :=
  h.primary.bind fun operand => lazy_fuel.bind fun rounds => lazy_bangs rounds operand

theorem lazy_within (depth : Nat) : Lazy 2 1 (within depth) := by
  induction depth with
  | zero => exact lazy_fail _ (by decide)
  | succ depth ih => exact ((ih.suffixed.tier _).tier _).tier _

theorem lazy_statement : Lazy 2 1 statement := by
  have hexpression : Lazy 2 1 expression := lazy_within _
  have hbody (problem : ParseProblem) : Lazy 1 1 (unlessEnd problem expression) :=
    (hexpression.unlessEnd problem).narrow (by decide)
  have hbare : Lazy 2 1 bare := hexpression.bind fun body => lazy_pure _
  have hassignment : Lazy 2 1 assignment := by
    refine (lazy_expect _).bind fun target => ?_
    refine ((lazy_expect _).narrow (by decide)).bind fun sign => ?_
    exact (hbody _).bind fun body => lazy_pure _
  refine (lazy_peek (by decide) (by decide)).bind fun t => ?_
  split
  · refine (lazy_expect _).bind fun keyword => ?_
    exact (hbody _).bind fun body => lazy_pure _
  -- Only here a second token is looked at, before the first one is taken.
  · refine (lazy_peek (by decide) (by decide)).bind fun following => ?_
    split
    · exact hassignment
    · exact hbare
  · exact hbare

theorem lazy_terminators (rounds : Nat) : Lazy 1 1 (terminators rounds) := by
  induction rounds with
  | zero => exact lazy_pure _
  | succ rounds ih =>
      refine (lazy_accept _).bind fun t => ?_
      cases t with
      | none => exact lazy_pure _
      | some terminator => exact ih

end Rules

/-! ## Programs -/

section Programs

variable {source : String} {reported : List Tree} {r r' start : Reader} {ws xs : List Token}
  {s : Grammar.State} {t : Tree}

/-- A statement that was read leaves one token ahead, if there is one. -/
theorem ReadsStatement.justRead (h : ReadsStatement start xs s t r')
    (htakes : (Reader.ofSource source).Takes ws start)
    (hstart : MayStartAfter ws) (hlogged : r'.Logged source reported 1) :
    JustRead source t r'.taken (found r'.trail.toList) := by
  have hall := htakes.trans h.takes
  have htokens : (tokenize source).tokens = ws ++ (xs ++ r'.rest) := by
    rw [← List.append_assoc]
    exact hall.rest_eq
  have htaken : r'.taken = ws.length + xs.length := by
    rw [hall.taken_eq, List.length_append]
    exact Nat.zero_add _
  have hlexical : ∀ x ∈ xs, x.Lexical := by
    intro x hx
    apply Cursor.lexical_of_mem_tokens (Cursor.start source)
    change x ∈ (tokenize source).tokens
    simp [htokens, hx]
  -- The rule has looked at the next token and at no other one.
  have hnext : r'.rest.take r'.buffer.length = r'.rest.take 1 := by
    cases hbuffer : r'.buffer with
    | nil =>
        have hsome := h.settled.resolve_left (not_not_intro hbuffer)
        simp [Reader.rest, hbuffer, hsome]
    | cons u us =>
        have hle := hlogged.ahead_le
        rw [hbuffer, List.length_cons] at hle
        rw [List.eq_nil_of_length_eq_zero (Nat.le_zero.mp (Nat.le_of_succ_le_succ hle))]
        rfl
  refine ⟨ws, xs, r'.rest, htokens, hstart, h.isStatement, h.spells hlexical, htaken, ?_, ?_⟩
  · rw [hlogged.found_eq, htokens, htaken, ← hnext, ← List.append_assoc, ← List.append_assoc,
      ← List.length_append, List.take_length_add_append]
  · intro hnil
    have herror := Reader.error_of_settled h.settled hnil
    rwa [hall.error_eq] at herror

/-- After a statement that was reported the text ends or goes on behind a terminator. -/
theorem logged_further {n : Nat} {first : Tree} (hsettled : r.Settled)
    (htakes : (Reader.ofSource source).Takes ws r)
    (hlogged : r.Logged source (reported ++ [first]) 1)
    (hstatements : ∀ (middle : Reader) (vs : List Token),
      middle.Logged source (reported ++ [first]) 1 → (Reader.ofSource source).Takes vs middle →
        MayStartAfter vs → Ensures (statements n) middle
          (fun ts r' => r'.Logged source (reported ++ [first] ++ ts) 2)
          (fun _ r' => ∃ ts, r'.Logged source (reported ++ [first] ++ ts) 2)) :
    Ensures (current >>= fun following => do
        if following.kind ≠ .endOfInput then
          let _ ← expect [.terminator]
        return first :: (← statements n)) r
      (fun ts r' => r'.Logged source (reported ++ ts) 2)
      (fun _ r' => ∃ ts, r'.Logged source (reported ++ ts) 2) := by
  have hend := htakes.kind_ending (Reader.kind_ending_ofSource source)
  refine Ensures.bind (ensures_current_of_settled hsettled ?_)
  split
  · have hexpect : Ensures (expect [.terminator]) r
        (fun t q => t.kind = .terminator ∧ r.Takes [t] q) (fun _ _ => True) :=
      ensures_expect hend (by decide) (fun q hk htok => ⟨hk, htok⟩) (fun _ _ _ _ => trivial)
        fun _ _ _ _ => trivial
    have hlazy := lazy_expect [.terminator] source _ r (hlogged.mono (by decide))
    refine Ensures.bind ((hexpect.and hlazy).imp ?_ fun f q h => ⟨[first], h.2⟩)
    rintro t q ⟨⟨hk, htok⟩, hq⟩
    have hmore := hstatements q (ws ++ [t]) hq (htakes.trans htok) (by simp [MayStartAfter, hk])
    simp only [List.append_assoc, List.singleton_append] at hmore
    exact Ensures.bind (hmore.imp (fun ts q' h => h) fun f q' h => h.imp' (first :: ·) fun _ h => h)
  · next hk =>
    have hlast : Ensures (statements n) r
        (fun ts q => q.Logged source (reported ++ first :: ts) 2)
        (fun _ q => ∃ ts, q.Logged source (reported ++ ts) 2) := by
      rw [Ensures, statements_at_end n hsettled (not_not.mp hk)]
      exact hlogged.mono (by decide)
    exact Ensures.bind hlast

/-- Statements are reported one after the other, each as soon as it has been read. -/
theorem logged_statements (n : Nat) (hlogged : r.Logged source reported 1)
    (htakes : (Reader.ofSource source).Takes ws r) (hstart : MayStartAfter ws) :
    Ensures (statements n) r (fun ts r' => r'.Logged source (reported ++ ts) 2)
      (fun _ r' => ∃ ts, r'.Logged source (reported ++ ts) 2) := by
  induction n generalizing r reported ws with
  | zero =>
      have hsame : r.Logged source (reported ++ []) 1 := by rwa [List.append_nil]
      exact hsame.mono (by decide)
  | succ n ih =>
      have hend := htakes.kind_ending (Reader.kind_ending_ofSource source)
      have hnone {q : Reader} (h : q.Logged source reported 2) :
          q.Logged source (reported ++ []) 2 := by rwa [List.append_nil]
      rw [statements]
      refine Ensures.bind (ensures_fuel fun m hm => ?_)
      refine Ensures.bind (((ensures_terminators m hm hend).and
        (lazy_terminators m source reported r hlogged)).imp ?_ fun f q h => ⟨[], hnone h.2⟩)
      rintro - start ⟨⟨zs, htakes', hzs, hsettled, hterminator⟩, hlogged'⟩
      have hall := htakes.trans htakes'
      have hend' := htakes'.kind_ending hend
      refine Ensures.bind (ensures_current_of_settled hsettled ?_)
      split
      · exact hnone (hlogged'.mono (by decide))
      · next hk =>
        have hlazy : Ensures (ifTooDeep statement (.parse ⟨.tooDeep, start.next⟩)) start
            (fun _ q => q.Logged source reported 1) (fun _ q => q.Logged source reported 2) :=
          ensures_ifTooDeep ((lazy_statement source reported start (hlogged'.mono (by decide))).imp
            (fun _ _ h => h) fun _ _ h => ⟨fun _ => h, fun _ => h⟩)
        refine Ensures.bind (((ensures_first hend' hsettled hk hterminator).and hlazy).imp ?_
          fun f q h => ⟨[], hnone h.2⟩)
        rintro first q ⟨⟨xs, s, hreads⟩, hq⟩
        have hjust := hreads.justRead hall (hstart.append hzs) hq
        have htaken := (hall.trans hreads.takes).trans (takes_record (.parsed first.kind first.pos))
        exact logged_further hreads.settled htaken (hq.report (by decide) hjust)
          fun middle vs hmiddle hvs hstart' => ih hmiddle hvs hstart'

theorem logged_program (source : String) :
    Ensures program (Reader.ofSource source) (fun ts r => r.Logged source ts 2)
      (fun _ r => ∃ ts, r.Logged source ts 2) := by
  have hlogged := (Reader.logged_ofSource source).mono (n := 1) (by decide)
  refine Ensures.bind (ensures_fuel fun n _ => ?_)
  exact logged_statements n hlogged (Reader.Takes.refl _) (by simp [MayStartAfter])

end Programs

end Parse

/-- Parsing is lazy. Whether it succeeds or fails, every entry of the record is made when at most two
tokens have been found and not yet taken, and the number of tokens taken never goes down from one
entry to the next. Each statement of the result, or each one that was parsed before the failure, is
reported when exactly its tokens, those before it and the one token after it have been found, or the
whole text if there is no token after it. -/
theorem parsing_lazy (source : String) :
    parseSource source = ((Parse.program (Reader.ofSource source)).1,
      (Parse.program (Reader.ofSource source)).2.trail.map Entry.event) ∧
    let r := (Parse.program (Reader.ofSource source)).2
    let entries := r.trail.toList
    (∀ entry ∈ entries, entry.taken ≤ r.taken) ∧
    (found entries).length = r.taken + r.buffer.length ∧ r.buffer.length ≤ 2 ∧
    ∃ reported, Recorded source reported entries ∧
      ∀ statements, (parseSource source).1 = .ok statements → statements = reported := by
  refine ⟨rfl, ?_⟩
  intro r entries
  have hprogram := Parse.logged_program source
  have hlogged : ∃ reported, r.Logged source reported 2 ∧
      ∀ statements, (parseSource source).1 = .ok statements → statements = reported := by
    match hstep : Parse.program (Reader.ofSource source) with
    | (.ok statements, r') =>
        simp only [parseSource, r, hstep]
        exact ⟨statements, hprogram.of_ok hstep, fun _ h => (Except.ok.inj h).symm⟩
    | (.error f, r') =>
        obtain ⟨reported, h⟩ := hprogram.of_error hstep
        simp only [parseSource, r, hstep]
        exact ⟨reported, h, nofun⟩
  obtain ⟨reported, h, hreported⟩ := hlogged
  exact ⟨h.taken_le, h.length_eq, h.ahead_le, reported, h.recorded, hreported⟩

end Reckoner
