import ChartInflation.Proofs.Yaml.Reading.Lexer

/-!
# Document starts with nothing else on their line

Behind the dashes of a marker the reader finds no token exactly if nothing but blanks and a comment
stands there (`isBareStart_iff`).  Tokens are counted for that: each one that is read adds to those
that were read before, and none is taken back (`length_le_of_run`).
-/

set_option autoImplicit false

namespace ChartInflation.Yaml

/-- Whether a line starts a document, with nothing of the document on it. -/
def IsBareStart (line : List Char) : Prop :=
  marker? line = some .start ∧ tokens ⟨3, 0, 3⟩ false (line.drop 3) = .ok []

/-- Whether a text is one line without its line feed.  It may end in a carriage return. -/
def OneLine (line : List Char) : Prop :=
  ∃ body ending, line = body ++ ending ∧ (∀ c ∈ body, isBreak c = false) ∧
    (ending = [] ∨ ending = ['\r'])

def isIdle (rest : List Char) : Bool :=
  match rest.dropWhile isGap with
  | [] => true
  | ['\r'] => true
  | '#' :: _ => true
  | _ => false

/-! ## Tokens are not taken back -/

namespace Lexer

section Lengths
variable {s s' : Lexer}

theorem dropCandidate_tokens (dropped : s.dropCandidate = .ok s') : s'.tokens = s.tokens := by
  unfold dropCandidate at dropped
  split at dropped
  · split at dropped
    · cases dropped
    · cases dropped
      rfl
  · cases dropped
    rfl

theorem saveCandidate_tokens (saved : s.saveCandidate = .ok s') : s'.tokens = s.tokens := by
  unfold saveCandidate at saved
  split at saved
  · obtain ⟨between, dropped, isSaved⟩ := Outcome.bind_eq_ok_iff.mp saved
    cases isSaved
    change between.tokens = s.tokens
    exact dropCandidate_tokens dropped
  · cases saved
    rfl

theorem length_insertAt (position : Nat) (ts : List Token) :
    (s.insertAt position ts).tokens.length = s.tokens.length + ts.length := by
  simp only [insertAt, List.length_append, List.length_take, List.length_reverse, List.length_drop]
  omega

theorem length_openBlock (column position : Nat) (t : Token) :
    s.tokens.length ≤ (s.openBlock column position t).tokens.length := by
  unfold openBlock
  split
  · exact le_rfl
  · have inserted := length_insertAt (s := s) position [t]
    change _ ≤ (s.insertAt position [t]).tokens.length
    omega

theorem length_closeBlocks (column : Int) :
    s.tokens.length ≤ (s.closeBlocks column).tokens.length := by
  unfold closeBlocks
  split
  · exact le_rfl
  · simp

theorem length_finish {ts : List Token} (finished : s.finish = .ok ts) :
    s.tokens.length ≤ ts.length := by
  obtain ⟨last, dropped, isLast⟩ := Outcome.bind_eq_ok_iff.mp finished
  cases isLast
  rw [List.length_reverse, dropCandidate_tokens dropped]
  exact length_closeBlocks (-1)

end Lengths

def Adds (s : Lexer) (next : Except Fault Lexer) : Prop :=
  ∀ s', next = .ok s' → s.tokens.length < s'.tokens.length

section Adds
variable {s : Lexer}

theorem adds_error (fault : Fault) : s.Adds (.error fault) := by
  intro s' isOk
  cases isOk

theorem adds_ok {s' : Lexer} (more : s.tokens.length < s'.tokens.length) : s.Adds (.ok s') := by
  intro s'' isOk
  cases isOk
  exact more

theorem adds_ite {condition : Prop} [Decidable condition] {x y : Except Fault Lexer}
    (first : s.Adds x) (second : s.Adds y) : s.Adds (if condition then x else y) := by
  split
  · exact first
  · exact second

theorem adds_bind {α : Type} {x : Except Fault α} {f : α → Except Fault Lexer}
    (each : ∀ a, x = .ok a → s.Adds (f a)) : s.Adds (x >>= f) := by
  intro s' isOk
  obtain ⟨a, isA, isNext⟩ := Outcome.bind_eq_ok_iff.mp isOk
  exact each a isA s' isNext

theorem adds_dropCandidate {f : Lexer → Except Fault Lexer}
    (each : ∀ s', s'.tokens = s.tokens → s.Adds (f s')) : s.Adds (s.dropCandidate >>= f) :=
  adds_bind fun s' dropped => each s' (dropCandidate_tokens dropped)

theorem adds_saveCandidate {f : Lexer → Except Fault Lexer}
    (each : ∀ s', s'.tokens = s.tokens → s.Adds (f s')) : s.Adds (s.saveCandidate >>= f) :=
  adds_bind fun s' saved => each s' (saveCandidate_tokens saved)

theorem directiveToken_adds : s.Adds s.directiveToken := by
  refine adds_bind fun s' dropped => adds_bind fun d _ => adds_ok ?_
  have closed := length_closeBlocks (s := s) (-1)
  rw [← dropCandidate_tokens dropped] at closed
  simp only [moveTo, push, List.length_cons]
  omega

theorem openFlow_adds (t : Token) : s.Adds (s.openFlow t) := by
  refine adds_saveCandidate fun s' same => adds_ok ?_
  simp [pass, push, same]

theorem closeFlow_adds (t : Token) : s.Adds (s.closeFlow t) := by
  refine adds_dropCandidate fun s' same => ?_
  dsimp only
  split
  · exact adds_ok (by simp [pass, push, same])
  · exact adds_ok (by simp [pass, push, same])

theorem flowEntryToken_adds : s.Adds s.flowEntryToken := by
  refine adds_dropCandidate fun s' same => adds_ok ?_
  simp [pass, push, same]

theorem adds_openBlock {column position : Nat} {t : Token} {f : Lexer → Except Fault Lexer}
    (each : ∀ s', s.tokens.length ≤ s'.tokens.length → s.Adds (f s')) :
    s.Adds ((s.openBlock column position t).dropCandidate >>= f) := by
  refine adds_bind fun s' dropped => each s' ?_
  rw [dropCandidate_tokens dropped]
  exact length_openBlock column position t

theorem blockEntryToken_adds : s.Adds s.blockEntryToken := by
  refine adds_ite (adds_error _) (adds_openBlock fun s' kept => adds_ok ?_)
  simp only [pass, push, List.length_cons]
  omega

theorem keyToken_adds : s.Adds s.keyToken := by
  refine adds_ite (adds_error _) (adds_openBlock fun s' kept => adds_ok ?_)
  simp only [pass, push, List.length_cons]
  omega

theorem valueToken_adds : s.Adds s.valueToken := by
  refine adds_bind fun candidate _ => ?_
  cases candidate with
  | some c =>
      refine adds_ok ?_
      have inserted := length_insertAt (s := s) c.position [.key]
      have opened := length_openBlock (s := s.insertAt c.position [.key]) c.mark.column c.position
        .blockMappingStart
      simp only [pass, push, List.length_cons]
      omega
  | none =>
      refine adds_ite (adds_error _) (adds_ok ?_)
      have opened := length_openBlock (s := s) s.mark.column s.tokens.length .blockMappingStart
      simp only [pass, push, List.length_cons]
      omega

theorem anchorToken_adds (make : String → Token) : s.Adds (s.anchorToken make) := by
  refine adds_saveCandidate fun s' same => adds_bind fun name _ => adds_ok ?_
  simp [moveTo, push, same]

theorem tagToken_adds : s.Adds s.tagToken := by
  refine adds_saveCandidate fun s' same => adds_bind fun tag _ => adds_ok ?_
  simp [moveTo, push, same]

theorem blockScalarToken_adds (style : Style) : s.Adds (s.blockScalarToken style) := by
  refine adds_dropCandidate fun s' same => adds_bind fun scalar _ => adds_ok ?_
  simp [moveTo, push, same]

theorem flowScalarToken_adds (style : Style) (read : Lexer → Except Fault Lexeme) :
    s.Adds (s.flowScalarToken style read) := by
  refine adds_saveCandidate fun s' same => adds_bind fun scalar _ => adds_ok ?_
  simp [moveTo, push, same]

theorem token_adds (c : Char) (rest : List Char) : s.Adds (s.token c rest) := by
  unfold token
  refine adds_ite directiveToken_adds ?_
  refine adds_ite (openFlow_adds _) (adds_ite (openFlow_adds _) ?_)
  refine adds_ite (closeFlow_adds _) (adds_ite (closeFlow_adds _) ?_)
  refine adds_ite flowEntryToken_adds (adds_ite blockEntryToken_adds ?_)
  refine adds_ite keyToken_adds (adds_ite valueToken_adds ?_)
  refine adds_ite (anchorToken_adds _) (adds_ite (anchorToken_adds _) ?_)
  refine adds_ite tagToken_adds ?_
  refine adds_ite (blockScalarToken_adds _) (adds_ite (blockScalarToken_adds _) ?_)
  refine adds_ite (flowScalarToken_adds _ _) (adds_ite (flowScalarToken_adds _ _) ?_)
  exact adds_ite (flowScalarToken_adds _ _) (adds_error _)

end Adds

theorem round_of_nothing {fuel : Nat} {s : Lexer} (nothing : s.rest = []) :
    round fuel s = s.finish := by
  rw [round, nothing]

theorem length_of_round {fuel : Nat} {s : Lexer} {ts : List Token}
    (behind : ∀ s' : Lexer, s'.run fuel = .ok ts → s'.tokens.length ≤ ts.length)
    (ran : round fuel s = .ok ts) :
    s.tokens.length ≤ ts.length ∧ (s.rest ≠ [] → s.tokens.length < ts.length) := by
  cases here : s.rest with
  | nil =>
      rw [round_of_nothing here] at ran
      exact ⟨length_finish ran, fun more => absurd rfl more⟩
  | cons c rest =>
      rw [round, here] at ran
      obtain ⟨next, isToken, goesOn⟩ := Outcome.bind_eq_ok_iff.mp ran
      have closed := length_closeBlocks (s := s) s.mark.column
      have added := token_adds c rest next isToken
      have kept := behind next goesOn
      have more : s.tokens.length < ts.length := by omega
      exact ⟨more.le, fun _ => more⟩

theorem length_le_of_run {fuel : Nat} {s : Lexer} {ts : List Token} (ran : s.run fuel = .ok ts) :
    s.tokens.length ≤ ts.length := by
  induction fuel generalizing s with
  | zero => cases ran
  | succ fuel ih =>
      rw [run_succ] at ran
      exact (length_of_round (fun s' => ih) ran).1

end Lexer

/-- A text has no tokens if there is nothing behind its blanks, breaks and comments. -/
theorem tokens_eq_nil_iff (mark : Mark) (keyAllowed : Bool) (text : List Char) :
    tokens mark keyAllowed text = .ok [] ↔
      (skipSpacing false false keyAllowed mark text).2.2 = [] := by
  rw [tokens, Lexer.run_succ]
  constructor
  · intro ran
    by_contra more
    have added := (Lexer.length_of_round (fun s' => Lexer.length_le_of_run) ran).2 more
    exact Nat.not_lt_zero _ added
  · intro nothing
    rw [Lexer.round_of_nothing nothing]
    rfl

/-! ## One line -/

theorem first_of_isIdle {c : Char} {rest : List Char} (idle : isIdle (c :: rest)) :
    isGap c ∨ c = '\r' ∨ c = '#' := by
  by_cases gap : isGap c
  · exact Or.inl gap
  · rw [isIdle, List.dropWhile_cons_of_neg gap] at idle
    split at idle
    next nothing => cases nothing
    next isReturn =>
      cases isReturn
      exact Or.inr (Or.inl rfl)
    next isComment =>
      cases isComment
      exact Or.inr (Or.inr rfl)
    next => cases idle

section Line
variable {body ending : List Char} (ended : ending = [] ∨ ending = ['\r'])
include ended

theorem skipSpacing_comment (goesOn : ∀ c ∈ body, isBreak c = false) (mark : Mark) :
    (skipSpacing false true false mark (body ++ ending)).2.2 = [] := by
  induction body generalizing mark with
  | nil => rcases ended with rfl | rfl <;> rfl
  | cons c body ih =>
      have inside := goesOn c (List.mem_cons_self ..)
      rw [List.cons_append, skipSpacing]
      · simp only [inside, Bool.false_eq_true, if_false, if_true]
        exact ih (fun d member => goesOn d (List.mem_cons_of_mem _ member)) mark.next
      · exact notPair_of_goesOn inside _

/-- Behind the start of a line, blanks and a comment are all that is skipped. -/
theorem skipSpacing_line (goesOn : ∀ c ∈ body, isBreak c = false) {mark : Mark}
    (inside : mark.column ≠ 0) :
    (skipSpacing false false false mark (body ++ ending)).2.2 = [] ↔ isIdle (body ++ ending) := by
  induction body generalizing mark with
  | nil => rcases ended with rfl | rfl <;> exact iff_of_true rfl rfl
  | cons c body ih =>
      have visible := goesOn c (List.mem_cons_self ..)
      have behind : ∀ d ∈ body, isBreak d = false := fun d member =>
        goesOn d (List.mem_cons_of_mem _ member)
      rw [List.cons_append, skipSpacing]
      · by_cases isComment : c = '#'
        · have skipped := skipSpacing_comment ended behind mark.next
          simp [isComment, skipped, show isBreak '#' = false from rfl, isIdle, isGap]
        · by_cases gap : isGap c
          · have dropped : isIdle (c :: (body ++ ending)) = isIdle (body ++ ending) := by
              rw [isIdle, List.dropWhile_cons_of_pos gap]
              rfl
            -- no key may begin on the line, so that a tab is skipped too
            have blank : c = ' ' ∨ c = '\t' := by simpa [isGap] using gap
            rw [dropped, ← @ih behind mark.next (Nat.succ_ne_zero _)]
            rcases blank with rfl | rfl <;> simp [show isBreak _ = false from visible]
          · have kept : ¬ isIdle (c :: (body ++ ending)) := by
              intro idle
              rcases first_of_isIdle idle with blank | rfl | rfl
              · exact gap blank
              · cases visible
              · exact isComment rfl
            -- a byte order mark is skipped in the first column only
            have notBlank : c ≠ ' ' ∧ c ≠ '\t' := by simpa [isGap] using gap
            simp [visible, isComment, notBlank, inside, kept]
      · exact notPair_of_goesOn visible _

end Line

theorem OneLine.tail {c : Char} {rest : List Char} (oneLine : OneLine (c :: rest))
    (goesOn : c ≠ '\r') : OneLine rest := by
  obtain ⟨body, ending, whole, inside, ended⟩ := oneLine
  cases body with
  | nil =>
      rcases ended with rfl | rfl
      · cases whole
      · cases whole
        exact absurd rfl goesOn
  | cons d body =>
      obtain ⟨rfl, rfl⟩ := List.cons.inj whole
      exact ⟨body, ending, rfl, fun d member => inside d (List.mem_cons_of_mem _ member), ended⟩

theorem marker?_eq_start_iff (line : List Char) : marker? line = some .start ↔
    ∃ rest, line = '-' :: '-' :: '-' :: rest ∧ atSpacing rest := by
  unfold marker?
  split
  next rest => simp
  next rest => simp
  next noDashes _ =>
    refine iff_of_false (by simp) ?_
    rintro ⟨rest, rfl, _⟩
    exact noDashes rest rfl

/-- On the line of a bare start stand dashes, blanks and, behind at least one of them, a comment. -/
theorem isBareStart_iff {line : List Char} (oneLine : OneLine line) :
    IsBareStart line ↔ ∃ rest, line = '-' :: '-' :: '-' :: rest ∧ atSpacing rest ∧ isIdle rest := by
  have idle {rest : List Char} (isLine : line = '-' :: '-' :: '-' :: rest) :
      tokens ⟨3, 0, 3⟩ false (line.drop 3) = .ok [] ↔ isIdle rest := by
    rw [isLine] at oneLine
    have behind := ((oneLine.tail (by decide)).tail (by decide)).tail (by decide)
    obtain ⟨body, ending, rfl, goesOn, ended⟩ := behind
    rw [isLine]
    exact (tokens_eq_nil_iff _ _ _).trans (skipSpacing_line ended goesOn (by decide))
  rw [IsBareStart, marker?_eq_start_iff]
  constructor
  · rintro ⟨⟨rest, isLine, spaced⟩, nothing⟩
    exact ⟨rest, isLine, spaced, (idle isLine).mp nothing⟩
  · rintro ⟨rest, isLine, spaced, isIdle⟩
    exact ⟨⟨rest, isLine, spaced⟩, (idle isLine).mpr isIdle⟩

end ChartInflation.Yaml
