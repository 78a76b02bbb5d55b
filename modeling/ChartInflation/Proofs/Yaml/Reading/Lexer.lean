import ChartInflation.Proofs.Yaml.Reading.Literal

/-!
# The lexer in a block

What the lexer does outside of flow collections, one token or one line break after the other.  Each
rule says that a lexer gives some tokens if the one that goes on behind what was read does.
-/

set_option autoImplicit false

namespace ChartInflation.Yaml

/-- How many characters of a text may begin a token: neither spaces nor line feeds. -/
def tokenBound (text : List Char) : Nat :=
  text.countP fun c => c != ' ' && c != '\n'

theorem tokenBound_le_length (text : List Char) : tokenBound text ≤ text.length :=
  List.countP_le_length

theorem skipSpacing_visible (inFlow keyAllowed : Bool) (mark : Mark) {c : Char}
    (visible : isVisible c) (rest : List Char) :
    skipSpacing inFlow false keyAllowed mark (c :: rest) = (keyAllowed, mark, c :: rest) := by
  have goesOn := isBreak_of_isVisible visible
  rw [skipSpacing]
  · simp [isVisible, isGap] at visible
    simp [goesOn, visible]
  · exact notPair_of_goesOn goesOn rest

/-- What a lexer has read: the tokens so far, the last one first, and the columns of the open block
collections. -/
structure Blocks where
  tokens : List Token
  indent : Int
  indents : List Int

namespace Blocks

def add (b : Blocks) (ts : List Token) : Blocks :=
  { b with tokens := ts.reverse ++ b.tokens }

def opened (b : Blocks) (column : Nat) (t : Token) : Blocks :=
  if b.indent ≥ column then b else ⟨t :: b.tokens, column, b.indent :: b.indents⟩

def closed (b : Blocks) (column : Int) : Blocks :=
  ⟨List.replicate (Lexer.unwind column b.indent b.indents).1 .blockEnd ++ b.tokens,
    (Lexer.unwind column b.indent b.indents).2.1, (Lexer.unwind column b.indent b.indents).2.2⟩

variable (b : Blocks)

@[simp] theorem add_indent (ts : List Token) : (b.add ts).indent = b.indent := rfl

theorem add_add (ts us : List Token) : (b.add ts).add us = b.add (ts ++ us) := by
  simp [add]

theorem opened_of_ge {column : Nat} (open? : b.indent ≥ column) (t : Token) :
    b.opened column t = b :=
  if_pos open?

theorem opened_indent {column : Nat} (le : b.indent ≤ column) (t : Token) :
    (b.opened column t).indent = column := by
  unfold opened
  split
  · exact le_antisymm le ‹_›
  · rfl

theorem closed_of_le (b : Blocks) {column : Int} (le : b.indent ≤ column) : b.closed column = b := by
  obtain ⟨tokens, indent, indents⟩ := b
  have stays : Lexer.unwind column indent indents = (0, indent, indents) := by
    cases indents with
    | nil => rfl
    | cons i indents => exact if_neg (not_lt.mpr le)
  rw [closed, stays]
  rfl

/-- Closing the innermost collection first makes no difference where it is left anyway. -/
theorem closed_cons {tokens : List Token} {indent outer column : Int} {indents : List Int}
    (left : column < indent) : closed ⟨tokens, indent, outer :: indents⟩ column =
      closed ⟨.blockEnd :: tokens, outer, indents⟩ column := by
  have unwinds : Lexer.unwind column indent (outer :: indents) =
      ((Lexer.unwind column outer indents).1 + 1, (Lexer.unwind column outer indents).2) :=
    if_pos left
  rw [closed, closed, unwinds]
  simp only [List.replicate_succ', List.append_assoc, List.singleton_append]

end Blocks

namespace Lexer

def block (b : Blocks) (mark : Mark) (candidate : Option Candidate) (keyAllowed : Bool)
    (rest : List Char) : Lexer :=
  ⟨mark, rest, b.tokens, candidate, [], keyAllowed, b.indent, b.indents⟩

def Gives (s : Lexer) (ts : List Token) : Prop :=
  s.run (tokenBound s.rest + 1) = .ok ts

def round (fuel : Nat) (s : Lexer) : Except Fault (List Token) :=
  match s.rest with
  | [] => s.finish
  | c :: rest => do run fuel (← (s.closeBlocks s.mark.column).token c rest)

theorem run_succ (fuel : Nat) (s : Lexer) : s.run (fuel + 1) =
    round fuel { s with
      keyAllowed := (skipSpacing s.inFlow false s.keyAllowed s.mark s.rest).1
      mark := (skipSpacing s.inFlow false s.keyAllowed s.mark s.rest).2.1
      rest := (skipSpacing s.inFlow false s.keyAllowed s.mark s.rest).2.2 } := by
  rcases spaced : skipSpacing s.inFlow false s.keyAllowed s.mark s.rest with
    ⟨keyAllowed, mark, rest⟩
  rw [run, spaced]
  cases rest <;> rfl

section Rules
variable {b : Blocks} {mark : Mark} {candidate : Option Candidate} {keyAllowed : Bool}
variable {rest : List Char} {ts : List Token}

theorem gives_iff_of_visible {s : Lexer} {c : Char} (visible : isVisible c)
    (here : s.rest = c :: rest) : s.Gives ts ↔
      (s.closeBlocks s.mark.column).token c rest >>= run (tokenBound rest + 1) = .ok ts := by
  have counted : tokenBound s.rest = tokenBound rest + 1 := by
    rw [here, tokenBound, List.countP_cons_of_pos]
    · rfl
    · simp only [bne_iff_ne, Bool.and_eq_true]
      exact ⟨ne_of_isVisible visible (by decide), ne_of_isVisible visible (by decide)⟩
  have stays : { s with
      keyAllowed := (skipSpacing s.inFlow false s.keyAllowed s.mark s.rest).1
      mark := (skipSpacing s.inFlow false s.keyAllowed s.mark s.rest).2.1
      rest := (skipSpacing s.inFlow false s.keyAllowed s.mark s.rest).2.2 } = s := by
    rw [here, skipSpacing_visible _ _ _ visible]
    simp only [← here]
  rw [Gives, counted, run_succ, stays, round, here]

theorem gives_of_token {s s' : Lexer} {c : Char} (visible : isVisible c) (here : s.rest = c :: rest)
    (token : (s.closeBlocks s.mark.column).token c rest = .ok s') (behind : s'.rest <:+ rest)
    (gives : s'.Gives ts) : s.Gives ts := by
  have fewer : tokenBound s'.rest ≤ tokenBound rest := behind.sublist.countP_le
  rw [gives_iff_of_visible visible here]
  exact Outcome.bind_eq_ok_iff.mpr ⟨s', token, run_mono gives (by omega)⟩

theorem gives_nil_iff : (block b mark candidate keyAllowed []).Gives ts ↔
    (block b mark candidate keyAllowed []).finish = .ok ts := Iff.rfl

/-- Only what is left of a text behind spaces, breaks and comments counts. -/
theorem gives_iff_of_spacing {keyAllowed' : Bool} {mark' : Mark} {rest' : List Char}
    (bound : tokenBound rest = tokenBound rest')
    (spacing : skipSpacing false false keyAllowed mark rest =
      skipSpacing false false keyAllowed' mark' rest') :
    (block b mark candidate keyAllowed rest).Gives ts ↔
      (block b mark' candidate keyAllowed' rest').Gives ts := by
  have same : (block b mark candidate keyAllowed rest).run (tokenBound rest' + 1) =
      (block b mark' candidate keyAllowed' rest').run (tokenBound rest' + 1) := by
    rw [run_succ, run_succ]
    change round _ { (block b mark candidate keyAllowed rest) with
      keyAllowed := (skipSpacing false false keyAllowed mark rest).1
      mark := (skipSpacing false false keyAllowed mark rest).2.1
      rest := (skipSpacing false false keyAllowed mark rest).2.2 } = _
    rw [spacing]
    rfl
  change run (tokenBound rest + 1) _ = _ ↔ run (tokenBound rest' + 1) _ = _
  rw [bound, same]

theorem gives_spaces_iff {n : Nat} :
    (block b mark candidate keyAllowed (Printer.spaces n ++ rest)).Gives ts ↔
      (block b (mark.through (Printer.spaces n)) candidate keyAllowed rest).Gives ts := by
  refine gives_iff_of_spacing ?_ ?_
  · rw [tokenBound, List.countP_append, Printer.spaces, List.countP_replicate]
    simp
    rfl
  · induction n generalizing mark with
    | zero => rfl
    | succ n ih =>
        rw [Printer.spaces, List.replicate_succ, List.cons_append, skipSpacing]
        · exact @ih mark.next
        · simp

theorem gives_feed_iff : (block b mark candidate keyAllowed ('\n' :: rest)).Gives ts ↔
    (block b (mark.newLine 1) candidate true rest).Gives ts := by
  refine gives_iff_of_spacing (List.countP_cons_of_neg (by simp)) ?_
  rw [skipSpacing]
  · simp [show isBreak '\n' = true from rfl]
  · simp

end Rules

section Block
variable (b : Blocks) (mark : Mark) (candidate : Option Candidate) (keyAllowed : Bool)
variable (rest : List Char)

@[simp] theorem block_mark : (block b mark candidate keyAllowed rest).mark = mark := rfl

@[simp] theorem block_inFlow : (block b mark candidate keyAllowed rest).inFlow = false := rfl

@[simp] theorem block_keyAllowed :
    (block b mark candidate keyAllowed rest).keyAllowed = keyAllowed := rfl

@[simp] theorem block_tokens : (block b mark candidate keyAllowed rest).tokens = b.tokens := rfl

@[simp] theorem block_indent : (block b mark candidate keyAllowed rest).indent = b.indent := rfl

@[simp] theorem block_rest : (block b mark candidate keyAllowed rest).rest = rest := rfl

theorem closeBlocks_block (column : Int) :
    (block b mark candidate keyAllowed rest).closeBlocks column =
      block (b.closed column) mark candidate keyAllowed rest := rfl

theorem insertAt_block (ts us : List Token) :
    (block (b.add us) mark candidate keyAllowed rest).insertAt b.tokens.length ts =
      block (b.add (ts ++ us)) mark candidate keyAllowed rest := by
  simp [insertAt, block, Blocks.add]

/-- A block collection may open in front of tokens that were read already. -/
theorem openBlock_before (column : Nat) (t : Token) (us : List Token) :
    (block (b.add us) mark candidate keyAllowed rest).openBlock column b.tokens.length t =
      block ((b.opened column t).add us) mark candidate keyAllowed rest := by
  unfold openBlock Blocks.opened
  by_cases inside : b.indent ≥ column
  · simp [inside]
  · rw [insertAt_block]
    simp [inside, block, Blocks.add, inFlow]

theorem openBlock_block (column : Nat) (t : Token) :
    (block b mark candidate keyAllowed rest).openBlock column b.tokens.length t =
      block (b.opened column t) mark candidate keyAllowed rest :=
  openBlock_before b mark candidate keyAllowed rest column t []

end Block

/-! ## Candidates -/

/-- A candidate that no colon makes a key any more, and that need not become one. -/
def Passed (candidate : Option Candidate) (mark : Mark) : Prop :=
  ∀ c ∈ candidate, c.required = false ∧ c.mark.line < mark.line

theorem passed_none (mark : Mark) : Passed none mark := by
  simp [Passed]

def Harmless (candidate : Option Candidate) : Prop :=
  ∀ c ∈ candidate, c.required = false

theorem Passed.harmless {candidate : Option Candidate} {mark : Mark}
    (passed : Passed candidate mark) : Harmless candidate :=
  fun c isCandidate => (passed c isCandidate).1

def saved (b : Blocks) (mark : Mark) (candidate : Option Candidate) (keyAllowed : Bool) :
    Option Candidate :=
  if keyAllowed then some ⟨b.indent == mark.column, b.tokens.length, mark⟩ else candidate

section Passed
variable {b : Blocks} {mark : Mark} {candidate : Option Candidate} {keyAllowed : Bool}
variable {rest : List Char}

theorem dropCandidate_harmless (harmless : Harmless candidate) :
    (block b mark candidate keyAllowed rest).dropCandidate =
      .ok (block b mark none keyAllowed rest) := by
  cases candidate with
  | none => rfl
  | some c => simp [dropCandidate, block, harmless c rfl]

theorem dropCandidate_passed (passed : Passed candidate mark) :
    (block b mark candidate keyAllowed rest).dropCandidate =
      .ok (block b mark none keyAllowed rest) :=
  dropCandidate_harmless passed.harmless

theorem liveCandidate_passed (passed : Passed candidate mark) :
    (block b mark candidate keyAllowed rest).liveCandidate = .ok none := by
  cases candidate with
  | none => rfl
  | some c => simp [liveCandidate, block, passed c rfl]

theorem saveCandidate_passed (passed : keyAllowed → Passed candidate mark) :
    (block b mark candidate keyAllowed rest).saveCandidate =
      .ok (block b mark (saved b mark candidate keyAllowed) keyAllowed rest) := by
  cases keyAllowed with
  | false => rfl
  | true =>
      rw [saveCandidate, block_keyAllowed, if_pos rfl, dropCandidate_passed (passed rfl)]
      rfl

end Passed

/-! ## Lines -/

/-- Whatever a lexer passed on the lines before, it gives some tokens from the start of a line whose
first `column` characters are spaces. -/
def Onward (b : Blocks) (column : Nat) (rest : List Char) (ts : List Token) : Prop :=
  ∀ mark candidate, mark.column = 0 → Passed candidate mark →
    (block b mark candidate true (Printer.spaces column ++ rest)).Gives ts

section Onward
variable {b : Blocks} {column : Nat} {rest : List Char} {ts : List Token}

theorem onward_end (open? : (b.closed (-1)).tokens.reverse = ts) : Onward b 0 [] ts := by
  intro mark candidate _ passed
  change finish (block b mark candidate true []) = _
  rw [finish, closeBlocks_block, dropCandidate_passed passed]
  exact congrArg Except.ok open?

theorem onward_closed {tokens : List Token} {indent outer : Int} {indents : List Int}
    (follows : Follows outer column rest) (inside : outer < indent) (least : -1 ≤ outer)
    (onward : Onward ⟨.blockEnd :: tokens, outer, indents⟩ column rest ts) :
    Onward ⟨tokens, indent, outer :: indents⟩ column rest ts := by
  intro mark candidate atStart passed
  have given := onward mark candidate atStart passed
  cases follows with
  | nothing =>
      change (block _ mark candidate true []).Gives ts at given ⊢
      rw [gives_nil_iff, finish, closeBlocks_block] at given ⊢
      rwa [Blocks.closed_cons (by omega)]
  | line column_le visible =>
      rw [gives_spaces_iff, Mark.through_spaces] at given ⊢
      rw [gives_iff_of_visible visible rfl, closeBlocks_block] at given ⊢
      rwa [Blocks.closed_cons]
      change ((mark.column + column : Nat) : Int) < indent
      omega

end Onward

/-! ## Marks of collections -/

section Marks
variable {b : Blocks} {mark : Mark} {candidate : Option Candidate} {rest : List Char}
variable {ts : List Token} (passed : Passed candidate mark) (spaced : atSpacing rest)
include passed spaced

theorem gives_dash (le : b.indent ≤ mark.column)
    (gives : (block ((b.opened mark.column .blockSequenceStart).add [.blockEntry]) mark.next none true
      rest).Gives ts) : (block b mark candidate true ('-' :: rest)).Gives ts := by
  refine gives_of_token (by decide) rfl ?_ (List.suffix_refl _) gives
  rw [block_mark, closeBlocks_block, Blocks.closed_of_le b le]
  have isEntry : token (block b mark candidate true ('-' :: rest)) '-' rest =
      blockEntryToken (block b mark candidate true ('-' :: rest)) := by
    simp [token, spaced]
  rw [isEntry, blockEntryToken, block_mark, block_tokens, openBlock_block]
  simp only [block_inFlow, block_keyAllowed, dropCandidate_passed passed]
  rfl

theorem gives_question (le : b.indent ≤ mark.column)
    (gives : (block ((b.opened mark.column .blockMappingStart).add [.key]) mark.next none true
      rest).Gives ts) : (block b mark candidate true ('?' :: rest)).Gives ts := by
  refine gives_of_token (by decide) rfl ?_ (List.suffix_refl _) gives
  rw [block_mark, closeBlocks_block, Blocks.closed_of_le b le]
  have isKey : token (block b mark candidate true ('?' :: rest)) '?' rest =
      keyToken (block b mark candidate true ('?' :: rest)) := by
    simp [token, spaced]
  rw [isKey, keyToken, block_mark, block_tokens, openBlock_block]
  simp only [block_inFlow, block_keyAllowed, dropCandidate_passed passed]
  rfl

theorem gives_colon (inside : b.indent = mark.column)
    (gives : (block (b.add [.value]) mark.next none true rest).Gives ts) :
    (block b mark candidate true (':' :: rest)).Gives ts := by
  refine gives_of_token (by decide) rfl ?_ (List.suffix_refl _) gives
  rw [block_mark, closeBlocks_block, Blocks.closed_of_le b inside.le]
  have isValue : token (block b mark candidate true (':' :: rest)) ':' rest =
      valueToken (block b mark candidate true (':' :: rest)) := by
    simp [token, spaced]
  rw [isValue, valueToken, liveCandidate_passed passed, Outcome.ok_bind]
  simp only [block_mark, block_tokens, openBlock_block, Blocks.opened_of_ge b inside.ge]
  rfl

end Marks

theorem gives_value {b : Blocks} {mark keyMark : Mark} {rest : List Char} {ts us : List Token}
    {required : Bool} (spaced : atSpacing rest) (le : b.indent ≤ mark.column)
    (sameLine : keyMark.line = mark.line) (near : mark.index ≤ keyMark.index + 1024)
    (gives : (block ((b.opened keyMark.column .blockMappingStart).add (.key :: us ++ [.value]))
      mark.next none false rest).Gives ts) :
    (block (b.add us) mark (some ⟨required, b.tokens.length, keyMark⟩) false (':' :: rest)).Gives
      ts := by
  refine gives_of_token (by decide) rfl ?_ (List.suffix_refl _) gives
  rw [block_mark, closeBlocks_block, Blocks.closed_of_le (b.add us) le]
  have isValue : ∀ s : Lexer, s.inFlow = false → s.token ':' rest = s.valueToken := by
    intro s outside
    simp [token, spaced, outside]
  have live : liveCandidate (block (b.add us) mark (some ⟨required, b.tokens.length, keyMark⟩) false
      (':' :: rest)) = .ok (some ⟨required, b.tokens.length, keyMark⟩) := by
    simp [liveCandidate, block, sameLine]
    omega
  rw [isValue _ rfl, valueToken, live, Outcome.ok_bind]
  simp only [insertAt_block, openBlock_before]
  simp [block, push, pass, Blocks.add, Mark.next]

end Lexer

end ChartInflation.Yaml
