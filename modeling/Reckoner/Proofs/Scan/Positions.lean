import Reckoner.Proofs.Scan.Trimming

/-!
# Where a cursor stands

A cursor and the scanner on it can be asked for many things, in any order, and some of them fail.
Whatever is asked, the cursor only reads on from where it stands, so that it always stands after a
beginning of the text, in the line and the column that this beginning leads to. The positions of
tokens and of errors are those of the cursor where they start, and since no character is read twice
the tokens follow one another without overlap.
-/

namespace Reckoner

open Text (isDigit)

namespace Position

/-- The position right after the beginning of a text: the newlines in it are counted, and the
characters after the last of them. -/
def after (beginning : List Char) : Position :=
  ⟨1 + beginning.count '\n', 1 + (beginning.reverse.takeWhile (· != '\n')).length⟩

theorem past_eq_after (cs : List Char) : past ⟨1, 1⟩ cs = after cs :=
  past_start cs

/-- Whether a position is not later in a text than another one. -/
def Leads (p q : Position) : Prop :=
  p.line < q.line ∨ p.line = q.line ∧ p.col ≤ q.col

theorem Leads.refl (p : Position) : p.Leads p :=
  Or.inr ⟨rfl, Int.le_refl _⟩

theorem Leads.trans {p q r : Position} (h : p.Leads q) (h' : q.Leads r) : p.Leads r := by
  unfold Leads at h h' ⊢
  omega

theorem leads_step (p : Position) (c : Char) : p.Leads (p.step c) := by
  by_cases hc : c = '\n'
  · simp only [step, hc, if_true]
    exact Or.inl (Int.lt_succ p.line)
  · simp only [step, hc, if_false]
    exact Or.inr ⟨rfl, Int.le_of_lt (Int.lt_succ p.col)⟩

theorem leads_past (p : Position) (cs : List Char) : p.Leads (p.past cs) := by
  induction cs generalizing p with
  | nil => exact Leads.refl p
  | cons c cs ih => exact (leads_step p c).trans (ih (p.step c))

end Position

/-! ## Reading on -/

namespace Cursor

/-- Whether a cursor comes to stand where the other one does by reading on. -/
def Reaches (c d : Cursor) : Prop :=
  ∃ cs rest, c.ahead = cs ++ rest ∧ d = c.past cs

theorem Reaches.refl (c : Cursor) : c.Reaches c :=
  ⟨[], c.ahead, rfl, rfl⟩

section Reading

variable {c d e : Cursor}

theorem Reaches.inside (hd : c.Reaches d) (h : 0 ≤ c.position) : 0 ≤ d.position := by
  obtain ⟨cs, rest, -, rfl⟩ := hd
  exact inside_past h cs

theorem Reaches.trans (hd : c.Reaches d) (he : d.Reaches e) (h : 0 ≤ c.position) :
    c.Reaches e := by
  obtain ⟨cs, rest, hahead, rfl⟩ := hd
  obtain ⟨ds, more, hahead', rfl⟩ := he
  rw [ahead_past h hahead] at hahead'
  refine ⟨cs ++ ds, more, ?_, (past_append c cs ds).symm⟩
  rw [hahead, hahead', List.append_assoc]

variable (h : 0 ≤ c.position)

include h

theorem reaches_step {character : Char} (hpeek : c.peek 0 = some character) :
    c.Reaches (c.step character) := by
  rw [peek_zero h] at hpeek
  obtain ⟨rest, hrest⟩ := List.head?_eq_some_iff.mp hpeek
  exact ⟨[character], rest, hrest, rfl⟩

theorem reaches_takeWhile (p : Option Char → Bool) : c.Reaches (c.takeWhile p).2 := by
  rw [takeWhile_eq p h]
  exact ⟨_, _, List.takeWhile_append_dropWhile.symm, rfl⟩

theorem reaches_skipComment : c.Reaches c.skipComment.2 := by
  have hrun := reaches_takeWhile h inComment
  unfold skipComment
  split <;> simp_all

theorem reaches_skipGap : c.Reaches c.skipGap.2 := by
  obtain ⟨g, rest, hsplit, hgap, hrest⟩ := exists_gap c.ahead
  rw [skipGap_eq hgap hrest h hsplit]
  exact ⟨g, rest, hsplit, rfl⟩

theorem reaches_takeNumber (start : Position) : c.Reaches (c.takeNumber start).2 := by
  have hwhole := reaches_takeWhile h isDigitAhead
  unfold takeNumber
  split
  · next hrun => simpa only [hrun] using hwhole
  · next d hrun =>
    rw [hrun] at hwhole
    have hinside := hwhole.inside h
    split
    · next hpoint =>
      split
      · have hstep := reaches_step hinside (eq_of_beq hpoint)
        have hfraction := reaches_takeWhile (hstep.inside hinside) isDigitAhead
        have hboth := hwhole.trans (hstep.trans hfraction hinside) h
        split
        · next hrun' => simpa only [hrun'] using hboth
        · next hrun' =>
          rw [hrun'] at hboth
          split <;> exact hboth
      · exact hwhole
    · exact hwhole

theorem reaches_readNumber (start : Position) : c.Reaches (c.readNumber start).2 := by
  have hnumber := reaches_takeNumber h start
  unfold readNumber
  split
  · next hrun => simpa only [hrun] using hnumber
  · next hrun =>
    rw [hrun] at hnumber
    split <;> exact hnumber

theorem reaches_readWord (start : Position) : c.Reaches (c.readWord start).2 := by
  have hrun := reaches_takeWhile h isWordAhead
  unfold readWord
  split <;> simp_all

theorem reaches_readToken {character : Char} (hpeek : c.peek 0 = some character) :
    c.Reaches (c.readToken character).2 := by
  unfold readToken
  split
  · exact reaches_readNumber h c.pos
  · split
    · exact reaches_readWord h c.pos
    · split
      · exact reaches_step h hpeek
      · exact Reaches.refl c

theorem reaches_nextToken : c.Reaches c.nextToken.2 := by
  have hgap := reaches_skipGap h
  unfold nextToken
  split
  · next hskip => simpa only [hskip] using hgap
  · next d hskip =>
    rw [hskip] at hgap
    split
    · exact hgap
    · next character hpeek =>
      have htoken := hgap.trans (reaches_readToken (hgap.inside h) hpeek) h
      split <;> simp_all

theorem reaches_next {character : Char} (hnext : c.next = .ok (character, d)) : c.Reaches d := by
  cases hahead : c.ahead with
  | nil =>
      have hend : c.atEnd = true := by rw [atEnd_eq h, hahead, List.isEmpty_nil]
      rw [next, if_pos hend] at hnext
      cases hnext
  | cons first rest =>
      rw [next_of_cons h hahead] at hnext
      cases hnext
      exact ⟨[character], rest, hahead, rfl⟩

end Reading

theorem reaches_tokens (c : Cursor) (h : 0 ≤ c.position) : c.Reaches c.tokens.stop := by
  have hnext := reaches_nextToken h
  match hstep : c.nextToken with
  | (.error e, d) =>
      rw [hstep] at hnext
      rwa [tokens_of_error hstep]
  | (.ok none, d) =>
      rw [hstep] at hnext
      rwa [tokens_of_none hstep]
  | (.ok (some t), d) =>
      rw [hstep] at hnext
      have hless := remaining_nextToken_lt hstep
      rw [tokens_of_some hstep]
      exact hnext.trans (reaches_tokens d (hnext.inside h)) h
termination_by c.remaining

/-! ## Operations -/

/-- What a cursor, or the scanner on it, can be asked for. -/
inductive Operation
  | next
  | peek (offset : Int)
  | skipGap
  | skipComment
  | readNumber (start : Position)
  | readWord (start : Position)
  | nextToken
  /-- All tokens up to the end or the first error. -/
  | tokens

/-- The cursor after an operation, whether it fails or not. -/
def perform (c : Cursor) : Operation → Cursor
  | .next =>
    match c.next with
    | .ok (_, d) => d
    | .error _ => c
  | .peek _ => c
  | .skipGap => c.skipGap.2
  | .skipComment => c.skipComment.2
  | .readNumber start => (c.readNumber start).2
  | .readWord start => (c.readWord start).2
  | .nextToken => c.nextToken.2
  | .tokens => c.tokens.stop

def performAll (c : Cursor) (ops : List Operation) : Cursor :=
  ops.foldl perform c

theorem reaches_perform {c : Cursor} (h : 0 ≤ c.position) (op : Operation) :
    c.Reaches (c.perform op) := by
  cases op with
  | next =>
      rw [perform]
      cases hnext : c.next with
      | ok read => exact reaches_next h hnext
      | error e => exact Reaches.refl c
  | peek offset => exact Reaches.refl c
  | skipGap => exact reaches_skipGap h
  | skipComment => exact reaches_skipComment h
  | readNumber start => exact reaches_readNumber h start
  | readWord start => exact reaches_readWord h start
  | nextToken => exact reaches_nextToken h
  | tokens => exact reaches_tokens c h

theorem reaches_performAll {c : Cursor} (h : 0 ≤ c.position) (ops : List Operation) :
    c.Reaches (c.performAll ops) := by
  induction ops generalizing c with
  | nil => exact Reaches.refl c
  | cons op ops ih =>
      have hop := reaches_perform h op
      exact hop.trans (ih (hop.inside h)) h

/-- A cursor that has read on from the start of a text stands after a beginning of it. -/
theorem Reaches.tracks {source : String} {c : Cursor} (h : (start source).Reaches c) :
    0 ≤ c.position ∧ c.position ≤ source.length ∧
      c.pos = Position.after (source.toList.take c.position.toNat) := by
  obtain ⟨cs, rest, hahead, rfl⟩ := h
  rw [ahead_start] at hahead
  have hposition : ((start source).past cs).position = cs.length := by
    rw [position_past]
    exact Int.zero_add _
  have hlength : source.length = cs.length + rest.length := by
    rw [← String.length_toList, hahead, List.length_append]
  rw [hposition, hlength, pos_past, Int.toNat_natCast, hahead, List.take_left]
  refine ⟨by omega, by omega, ?_⟩
  exact Position.past_eq_after cs

end Cursor

/-! ## Tokens and errors -/

namespace Token

/-- Whether a token ends before another one starts. -/
def Precedes (t u : Token) : Prop :=
  t.pos.line < u.pos.line ∨ t.pos.line = u.pos.line ∧ t.endCol ≤ u.pos.col

end Token

section Cuts

variable {p q : Position} {text r : List Char} {ts : List Token}

theorem Cut.exists_lexeme (h : Cut p text ts q r) :
    ∀ t ∈ ts, ∃ before l rest, text = before ++ (l ++ rest) ∧ Lexeme l rest t.kind t.value ∧
      t.length = l.length ∧ t.pos = p.past before := by
  induction h with
  | stop _ _ => simp
  | @next p q g l rest r kind value ts hgap hl _ ih =>
      rw [List.forall_mem_cons]
      constructor
      · exact ⟨g, l, rest, rfl, hl, rfl, rfl⟩
      · intro t ht
        obtain ⟨before, l', rest', rfl, hl', hlength, hpos⟩ := ih t ht
        refine ⟨g ++ (l ++ before), l', rest', by simp, hl', hlength, ?_⟩
        rw [hpos, Position.past_append, Position.past_append]

/-- Only the newline itself is a lexeme with a newline in it. -/
theorem Lexeme.newline_cases {l rest : List Char} {kind : Token.Kind} {value : Value}
    (h : Lexeme l rest kind value) : l = ['\n'] ∨ '\n' ∉ l := by
  have hdigit : isDigit '\n' = false := isDigit_of_isSign rfl
  have hword : isWordAhead (some '\n') = false := isWordAhead_of_isSign rfl
  cases h with
  | @punctuation c kind _ _ =>
      by_cases hc : c = '\n'
      · exact Or.inl (by rw [hc])
      · exact Or.inr (by simpa using Ne.symm hc)
  | number hnumeral _ =>
      right
      intro hmem
      cases hnumeral.spelling with
      | whole _ hds => simp [hds _ hmem] at hdigit
      | point _ _ hds hes =>
          simp only [List.mem_append, List.mem_cons] at hmem
          rcases hmem with hmem | hmem | hmem
          · simp [hds _ hmem] at hdigit
          · cases hmem
          · simp [hes _ hmem] at hdigit
  | @word c cs _ hc hcs _ =>
      right
      intro hmem
      rcases List.mem_cons.mp hmem with rfl | hmem
      · simp [isWordAhead_of_startsWord hc] at hword
      · simp [hcs _ hmem] at hword

theorem Lexeme.leads {l rest : List Char} {kind : Token.Kind} {value : Value}
    (h : Lexeme l rest kind value) (p : Position) :
    Position.Leads ⟨p.line, p.col + l.length⟩ (p.past l) := by
  rcases h.newline_cases with rfl | hl
  · exact Or.inl (Int.lt_succ p.line)
  · rw [Position.past_of_line p hl]
    exact Position.Leads.refl _

/-- The tokens of a text follow one another. -/
theorem Cut.pairwise_precedes (h : Cut p text ts q r) : ts.Pairwise Token.Precedes := by
  induction h with
  | stop _ _ => exact List.Pairwise.nil
  | @next p q g l rest r kind value ts hgap hl hcut ih =>
      apply List.Pairwise.cons _ ih
      intro u hu
      obtain ⟨before, -, -, -, -, -, hpos⟩ := hcut.exists_lexeme u hu
      -- Between the two tokens the text `before` is read, which leads no position back.
      have hleads := (hl.leads (p.past g)).trans (Position.leads_past _ before)
      rw [← hpos] at hleads
      exact hleads

theorem Fault.exists_diagnostic {e : ScanError} (h : Fault p text e) :
    ∃ wording, e.diagnostic? = some ⟨wording, p⟩ := by
  cases h <;> exact ⟨_, rfl⟩

end Cuts

section Texts

variable (source : String)

theorem exists_cut_tokenize :
    ∃ q r, Cut ⟨1, 1⟩ source.toList (tokenize source).tokens q r := by
  have hscans := scans_tokenize source
  cases herror : (tokenize source).error? with
  | none =>
      rw [herror] at hscans
      obtain ⟨q, hcut⟩ := hscans
      exact ⟨q, [], hcut⟩
  | some e =>
      rw [herror] at hscans
      obtain ⟨q, r, hcut, -⟩ := hscans
      exact ⟨q, r, hcut⟩

theorem exists_lexeme_of_mem_tokens :
    ∀ t ∈ (tokenize source).tokens, ∃ before l rest, source.toList = before ++ (l ++ rest) ∧
      Lexeme l rest t.kind t.value ∧ t.length = l.length ∧ t.pos = Position.after before := by
  obtain ⟨q, r, hcut⟩ := exists_cut_tokenize source
  intro t ht
  obtain ⟨before, l, rest, hsplit, hl, hlength, hpos⟩ := hcut.exists_lexeme t ht
  exact ⟨before, l, rest, hsplit, hl, hlength, hpos.trans (Position.past_eq_after before)⟩

theorem exists_fault_of_error {e : ScanError} (h : (tokenize source).error? = some e) :
    ∃ before rest, source.toList = before ++ rest ∧ Fault (Position.after before) rest e := by
  have hscans := scans_tokenize source
  rw [h] at hscans
  obtain ⟨q, r, hcut, hfault⟩ := hscans
  obtain ⟨before, hsplit, rfl⟩ := hcut.pos_eq
  rw [Position.past_eq_after] at hfault
  exact ⟨before, r, hsplit, hfault⟩

theorem tokens_pairwise_precedes : (tokenize source).tokens.Pairwise Token.Precedes := by
  obtain ⟨q, r, hcut⟩ := exists_cut_tokenize source
  exact hcut.pairwise_precedes

end Texts

end Reckoner
