import ChartInflation.Proofs.Yaml.Reading.Tags

/-!
# Nodes on one line

A scalar that is not a block scalar, or an empty collection, in front of the colon of a key or at
the end of a line, with a tag or without.
-/

set_option autoImplicit false

namespace ChartInflation.Yaml

open Printer (beginsAsIndicator singleQuotedBody spaces)

inductive Inline : List Char → List Token → Prop
  | plain {text : List Char} (plain : Plain text) :
      Inline text [.scalar .plain (String.ofList text)]
  | singleQuoted {text : List Char} (indent : Nat) (fits : FitsSingle text) :
      Inline ('\'' :: (singleQuotedBody indent false text ++ ['\'']))
        [.scalar .singleQuoted (String.ofList text)]
  | doubleQuoted (text : List Char) :
      Inline ('"' :: (doubleQuotedBody text ++ ['"'])) [.scalar .doubleQuoted (String.ofList text)]
  | sequence : Inline ['[', ']'] [.flowSequenceStart, .flowSequenceEnd]
  | mapping : Inline ['{', '}'] [.flowMappingStart, .flowMappingEnd]
  | tagged {tag : Tag} (readable : tag.Readable) {text : List Char} {us : List Token}
      (inline : Inline text us) :
      Inline (Printer.tagText tag ++ ' ' :: text) (tagTokens (some tag) ++ us)

theorem Inline.begins {text : List Char} {us : List Token} (inline : Inline text us) :
    ∃ c rest, text = c :: rest ∧ isVisible c := by
  cases inline with
  | plain plain => exact plain.first
  | @tagged tag =>
      obtain ⟨rest, isText⟩ := Printer.tagText_begins tag
      exact ⟨'!', _, by rw [isText]; rfl, by decide⟩
  | _ => exact ⟨_, _, rfl, by decide⟩

/-- What stands behind such a node inside a collection in column `indent`. -/
inductive Behind (indent : Int) : List Char → Prop
  | key {rest : List Char} (spaced : atSpacing rest) : Behind indent (':' :: rest)
  | line {column : Nat} {rest : List Char} (follows : Follows indent column rest) :
      Behind indent ('\n' :: (spaces column ++ rest))

theorem Behind.noQuote {indent : Int} {rest : List Char} (behind : Behind indent rest) :
    rest.head? ≠ some '\'' := by
  cases behind <;> simp

namespace Lexer

/-! ## Plain scalars -/

/-- Only what may begin a plain scalar begins like one. -/
theorem token_plain (s : Lexer) (outside : s.inFlow = false) {c : Char} {text : List Char}
    (visible : isVisible c) (begins : beginsAsIndicator (c :: text) = false) (rest : List Char) :
    s.token c (text ++ rest) = s.flowScalarToken .plain fun s =>
      plainScalar ⟨s.inFlow, s.indent + 1⟩ s.mark .none [] s.rest := by
  have noMark : ("#,[]\x7b\x7d&*!|>'\"%@`".toList.contains c ||
      ((c == '?' || c == ':' || c == '-') && atSpacing text)) = false := by
    unfold beginsAsIndicator at begins
    split at begins
    · cases begins
    · cases begins
    · rename_i same
      obtain ⟨rfl, rfl⟩ := List.cons.inj same
      exact begins
    · rename_i same
      cases same
  obtain ⟨noIndicator, unspaced⟩ := Bool.or_eq_false_iff.mp noMark
  have apart : c = '?' ∨ c = ':' ∨ c = '-' → atSpacing (text ++ rest) = false := by
    intro isMark
    have isMark' : (c == '?' || c == ':' || c == '-') = true := by simpa [or_assoc] using isMark
    rw [isMark', Bool.true_and] at unspaced
    cases text with
    | nil => cases unspaced
    | cons d text => exact unspaced
  have noGap := isGap_of_isVisible visible
  have begins : beginsPlain false c (text ++ rest) := by
    by_cases isMark : c = '?' ∨ c = ':' ∨ c = '-'
    · have noSpacing := apart isMark
      rcases isMark with rfl | rfl | rfl <;> simp [beginsPlain, noSpacing]
    · simp at noIndicator isMark
      simp [beginsPlain, isIndicator, noIndicator, isMark, noGap]
  have noCollection : ∀ d, d = '?' ∨ d = ':' ∨ d = '-' → ¬ (c = d ∧ atSpacing (text ++ rest)) := by
    rintro d isMark ⟨rfl, spaced⟩
    simp [apart isMark] at spaced
  simp at noIndicator
  simp [token, outside, begins, noIndicator, noCollection]

section Inline
variable {b : Blocks} {mark : Mark} {candidate : Option Candidate} {keyAllowed : Bool}
variable {rest : List Char} {ts : List Token}

theorem flowScalarToken_passed (passed : keyAllowed → Passed candidate mark) (style : Style)
    {read : Lexer → Except Fault Lexeme} {text : List Char} {behind : Mark} {afterBreak : Bool}
    {more : List Char}
    (isRead : read (block b mark (saved b mark candidate keyAllowed) keyAllowed rest) =
      .ok ⟨text, behind, more, afterBreak⟩) :
    (block b mark candidate keyAllowed rest).flowScalarToken style read =
      .ok (block (b.add [.scalar style (String.ofList text)]) behind
        (saved b mark candidate keyAllowed) afterBreak more) := by
  rw [flowScalarToken, saveCandidate_passed passed, Outcome.ok_bind, isRead]
  rfl

theorem token_singleQuoted (s : Lexer) (text : List Char) :
    s.token '\'' text = s.flowScalarToken .singleQuoted fun s =>
      singleQuotedScalar s.mark.next .none [] (s.rest.drop 1) := by
  simp [token]

theorem token_doubleQuoted (s : Lexer) (text : List Char) :
    s.token '"' text = s.flowScalarToken .doubleQuoted fun s =>
      doubleQuotedScalar s.mark.next .none [] .none (s.rest.drop 1) := by
  simp [token]

theorem gives_brackets {first last : Char} {opens closes : Token}
    (isFirst : ∀ s text, token s first text = s.openFlow opens)
    (isLast : ∀ s text, token s last text = s.closeFlow closes)
    (visible : isVisible first ∧ isVisible last)
    (goesOn : isBreak first = false ∧ isBreak last = false)
    (le : b.indent ≤ mark.column) (passed : keyAllowed → Passed candidate mark)
    (gives : (block (b.add [opens, closes]) (mark.through [first, last])
      (saved b mark candidate keyAllowed) false rest).Gives ts) :
    (block b mark candidate keyAllowed (first :: last :: rest)).Gives ts := by
  let middle : Lexer := ⟨mark.next, last :: rest, opens :: b.tokens, none,
    [saved b mark candidate keyAllowed], true, b.indent, b.indents⟩
  have opened : ((block b mark candidate keyAllowed (first :: last :: rest)).closeBlocks
      mark.column).token first (last :: rest) = .ok middle := by
    rw [closeBlocks_block, Blocks.closed_of_le b le, isFirst, openFlow, saveCandidate_passed passed]
    rfl
  have closed : (middle.closeBlocks middle.mark.column).token last rest =
      .ok (block (b.add [opens, closes]) mark.next.next (saved b mark candidate keyAllowed) false
        rest) := by
    rw [isLast]
    rfl
  rw [Mark.through, goesOn.1, Mark.through, goesOn.2] at gives
  refine gives_of_token visible.1 rfl opened (List.suffix_refl _) ?_
  exact gives_of_token visible.2 rfl closed (List.suffix_refl _) gives

theorem gives_plain {text : List Char} (plain : Plain text) (behind : Behind b.indent rest)
    (le : b.indent ≤ mark.column) (passed : keyAllowed → Passed candidate mark)
    (gives : (block (b.add [.scalar .plain (String.ofList text)]) (mark.through text)
      (saved b mark candidate keyAllowed) false rest).Gives ts) :
    (block b mark candidate keyAllowed (text ++ rest)).Gives ts := by
  obtain ⟨c, tail, isText, visible⟩ := plain.first
  have token : ∀ {behind : Mark} {afterBreak : Bool} {more : List Char},
      plainScalar ⟨false, b.indent + 1⟩ mark .none [] (text ++ rest) =
        .ok ⟨text, behind, more, afterBreak⟩ →
      ((block b mark candidate keyAllowed (text ++ rest)).closeBlocks mark.column).token c
        (tail ++ rest) = .ok (block (b.add [.scalar .plain (String.ofList text)]) behind
          (saved b mark candidate keyAllowed) afterBreak more) := by
    intro behind afterBreak more isRead
    rw [closeBlocks_block, Blocks.closed_of_le b le,
      token_plain _ rfl visible (isText ▸ plain.begins)]
    exact flowScalarToken_passed passed _ isRead
  cases behind with
  | key spaced =>
      refine gives_of_token visible (by rw [isText]; rfl)
        (token (plainScalar_key plain _ mark spaced)) ?_ gives
      exact List.suffix_append _ _
  | @line column rest follows =>
      refine gives_of_token visible (by rw [isText]; rfl)
        (token (plainScalar_line plain _ mark follows)) ?_ ?_
      · exact ⟨tail ++ '\n' :: spaces column, by simp⟩
      · rw [gives_feed_iff, gives_spaces_iff] at gives
        rw [Mark.through_append]
        exact gives

theorem gives_quoted {quote : Char} {style : Style} {text body : List Char}
    {read : Lexer → Except Fault Lexeme}
    (isQuoted : ∀ s more, token s quote more = s.flowScalarToken style read)
    (visible : isVisible quote)
    (le : b.indent ≤ mark.column) (passed : keyAllowed → Passed candidate mark)
    (isRead : read (block b mark (saved b mark candidate keyAllowed) keyAllowed
      (quote :: (body ++ quote :: rest))) =
        .ok ⟨text, mark.through (quote :: (body ++ [quote])), rest, false⟩)
    (gives : (block (b.add [.scalar style (String.ofList text)])
      (mark.through (quote :: (body ++ [quote]))) (saved b mark candidate keyAllowed) false
      rest).Gives ts) :
    (block b mark candidate keyAllowed (quote :: (body ++ [quote]) ++ rest)).Gives ts := by
  have quoted : quote :: (body ++ [quote]) ++ rest = quote :: (body ++ quote :: rest) := by simp
  rw [quoted]
  refine gives_of_token visible rfl ?_ (List.suffix_append_of_suffix (List.suffix_cons _ _)) gives
  rw [block_mark, closeBlocks_block, Blocks.closed_of_le b le, isQuoted]
  exact flowScalarToken_passed passed style isRead

/-- A node on one line is read as its tokens.  The candidate that a tag leaves stays that of the
whole node: no key may begin behind the tag. -/
theorem gives_inline {text : List Char} {us : List Token} (inline : Inline text us)
    (behind : Behind b.indent rest) (le : b.indent ≤ mark.column)
    (passed : keyAllowed → Passed candidate mark)
    (gives : (block (b.add us) (mark.through text) (saved b mark candidate keyAllowed) false
      rest).Gives ts) : (block b mark candidate keyAllowed (text ++ rest)).Gives ts := by
  induction inline generalizing b mark candidate keyAllowed with
  | plain plain => exact gives_plain plain behind le passed gives
  | @singleQuoted text indent fits =>
      refine gives_quoted token_singleQuoted (by decide) le passed ?_ gives
      exact @singleQuotedScalar_body indent mark.next .none [] false text rest .none fits
        behind.noQuote
  | doubleQuoted text =>
      refine gives_quoted token_doubleQuoted (by decide) le passed ?_ gives
      exact @doubleQuotedScalar_body mark.next .none [] rfl text rest
  | sequence =>
      exact gives_brackets (by simp [token]) (by simp [token]) (by decide) (by decide) le passed gives
  | mapping =>
      exact gives_brackets (by simp [token]) (by simp [token]) (by decide) (by decide) le passed gives
  | @tagged tag readable text us _ ih =>
      have further : b.indent ≤ ((mark.through (Printer.tagText tag)).through (spaces 1)).column := by
        rw [Mark.through_spaces, mark.through_of_line (Printer.tagText_goesOn tag)]
        simp only
        omega
      rw [List.append_assoc]
      refine gives_tag readable.isSome rfl le passed ?_
      refine gives_spaces_iff (n := 1).mpr ?_
      refine ih behind further (by simp) ?_
      rw [Blocks.add_add, ← Mark.through_append, ← Mark.through_append]
      exact gives

theorem Passed.saved (passed : Passed candidate mark) (inside : b.indent < mark.column)
    {later : Mark} (behind : mark.line < later.line) :
    Passed (saved b mark candidate keyAllowed) later := by
  cases keyAllowed with
  | false => exact fun c isCandidate =>
      ⟨(passed c isCandidate).1, (passed c isCandidate).2.trans behind⟩
  | true =>
      intro c isCandidate
      rw [Option.mem_def, Lexer.saved, if_pos rfl, Option.some.injEq] at isCandidate
      rw [← isCandidate]
      exact ⟨beq_eq_false_iff_ne.mpr inside.ne, behind⟩

theorem gives_line {text : List Char} {us : List Token} (inline : Inline text us) {column : Nat}
    (follows : Follows b.indent column rest) (inside : b.indent < mark.column)
    (passed : Passed candidate mark) (onward : Onward (b.add us) column rest ts) :
    (block b mark candidate keyAllowed (text ++ '\n' :: (spaces column ++ rest))).Gives ts := by
  refine gives_inline inline (.line follows) inside.le (fun _ => passed) ?_
  rw [gives_feed_iff]
  exact onward _ _ rfl (passed.saved inside (Nat.lt_succ_of_le (mark.line_le_through text)))

theorem gives_key {text : List Char} {us : List Token} (inline : Inline text us)
    (goesOn : ∀ c ∈ text, isBreak c = false) (short : text.length ≤ 1024)
    (spaced : atSpacing rest) (le : b.indent ≤ mark.column) (passed : Passed candidate mark)
    (gives : ∀ behind : Mark, mark.column < behind.column →
      (block ((b.opened mark.column .blockMappingStart).add (.key :: us ++ [.value])) behind none
        false rest).Gives ts) :
    (block b mark candidate true (text ++ ':' :: rest)).Gives ts := by
  refine gives_inline inline (.key spaced) le (fun _ => passed) ?_
  rw [mark.through_of_line goesOn]
  refine gives_value spaced ?_ rfl ?_ (gives _ ?_)
  · simp only
    omega
  · simp only
    omega
  · simp only [Mark.next]
    omega

end Inline

/-! ## Literal blocks -/

theorem through_column {mark : Mark} {c : Char} (ends : isBreak c) (front : List Char) :
    (mark.through (front ++ [c])).column = 0 := by
  rw [Mark.through_append, Mark.through, ends]
  rfl

theorem literalBody_ends {indent : Nat} {lineStart : Bool} {text : List Char}
    (some : lineStart = false ∨ text ≠ []) :
    ∃ front c, Printer.literalBody indent lineStart text = front ++ [c] ∧ isBreak c := by
  induction text generalizing lineStart with
  | nil =>
      obtain rfl := some.resolve_right (by simp)
      exact ⟨[], '\n', rfl, rfl⟩
  | cons c text ih =>
      unfold Printer.literalBody
      by_cases ends : isBreak c
      · rw [if_pos ends]
        cases text with
        | nil => exact ⟨[], c, rfl, ends⟩
        | cons d text =>
            obtain ⟨front, e, isBody, isEnd⟩ := @ih true (.inr (by simp))
            exact ⟨c :: front, e, by rw [isBody]; rfl, isEnd⟩
      · rw [if_neg ends]
        obtain ⟨front, e, isBody, isEnd⟩ := @ih false (.inl rfl)
        exact ⟨(if lineStart then spaces indent else []) ++ c :: front, e, by simp [isBody], isEnd⟩

/-- A literal block, below a collection in column `b.indent` if there is one. -/
theorem gives_literal {b : Blocks} {mark : Mark} {candidate : Option Candidate} {keyAllowed : Bool}
    {rest text : List Char} {ts : List Token} (least : -1 ≤ b.indent) (some : text ≠ [])
    (printable : ∀ c ∈ text, Printer.isPrintable c) {column : Nat}
    (follows : Follows b.indent column rest) (le : b.indent ≤ mark.column)
    (harmless : Harmless candidate)
    (onward : Onward (b.add [.scalar .literal (String.ofList text)]) column rest ts) :
    (block b mark candidate keyAllowed ('|' :: (Printer.literalHeader text ++ '\n' ::
      (Printer.literalBody ((max b.indent 0).toNat + 2) true text ++
        (spaces column ++ rest))))).Gives ts := by
  have isRead := blockScalar_literal mark.next least some printable follows
  obtain ⟨front, c, isBody, ends⟩ := @literalBody_ends ((max b.indent 0).toNat + 2) true _ (.inr some)
  generalize Printer.literalBody ((max b.indent 0).toNat + 2) true text = body at isRead isBody ⊢
  have token : ∀ more, token (block b mark candidate keyAllowed ('|' :: more)) '|' more =
      blockScalarToken (block b mark candidate keyAllowed ('|' :: more)) .literal := by
    simp [token]
  have atStart : (mark.next.through (Printer.literalHeader text ++ '\n' :: body)).column = 0 := by
    rw [isBody, ← List.cons_append, ← List.append_assoc]
    exact through_column ends _
  have given := onward _ none atStart (passed_none _)
  rw [gives_spaces_iff, ← Mark.through_append, List.append_assoc, List.cons_append] at given
  refine gives_of_token (by decide) rfl ?_ ?_ given
  · rw [block_mark, closeBlocks_block, Blocks.closed_of_le b le, token, blockScalarToken,
      dropCandidate_harmless harmless, Outcome.ok_bind]
    change (blockScalar false b.indent mark.next _ >>= _) = _
    rw [block_rest, List.drop_one, List.tail_cons, isRead]
    rfl
  · exact ⟨Printer.literalHeader text ++ '\n' :: (body ++ spaces column), by simp⟩

end Lexer

end ChartInflation.Yaml
