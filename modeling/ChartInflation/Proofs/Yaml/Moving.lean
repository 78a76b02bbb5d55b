import ChartInflation.Proofs.Outcome
import ChartInflation.Yaml.Token.Lexer

/-!
# Where a text begins

A lexer goes on the same way some characters and lines further on, as long as the column is the
same: of lines and indices only differences are looked at (`Lexer.run_moved`).  So a text makes the
same tokens at the start of a stream and on the line behind a marker (`tokens_behind_marker`).
-/

set_option autoImplicit false

namespace ChartInflation.Yaml

section Moved
variable (index line : Nat)

def Mark.moved (m : Mark) : Mark :=
  ⟨m.index + index, m.line + line, m.column⟩

def Lexeme.moved (x : Lexeme) : Lexeme :=
  { x with mark := x.mark.moved index line }

def Read.moved {α : Type} (x : Read α) : Read α :=
  { x with mark := x.mark.moved index line }

def BlockHeader.moved (h : BlockHeader) : BlockHeader :=
  { h with mark := h.mark.moved index line }

def Candidate.moved (c : Candidate) : Candidate :=
  { c with mark := c.mark.moved index line }

def Lexer.moved (s : Lexer) : Lexer :=
  { s with
    mark := s.mark.moved index line
    candidate := s.candidate.map (Candidate.moved index line)
    outer := s.outer.map (·.map (Candidate.moved index line)) }

variable {index line}

@[simp] theorem Mark.moved_column (m : Mark) : (m.moved index line).column = m.column := rfl

@[simp] theorem Mark.next_moved (m : Mark) :
    (m.moved index line).next = m.next.moved index line := by
  simp [Mark.next, Mark.moved]
  omega

@[simp] theorem Mark.newLine_moved (m : Mark) (width : Nat) :
    (m.moved index line).newLine width = (m.newLine width).moved index line := by
  simp [Mark.newLine, Mark.moved]
  omega

@[simp] theorem Mark.along_moved (m : Mark) (width column : Nat) :
    (⟨(m.moved index line).index + width, (m.moved index line).line, column⟩ : Mark) =
      Mark.moved index line ⟨m.index + width, m.line, column⟩ := by
  simp [Mark.moved]
  omega

section Read
variable {α : Type} (x : Read α)

@[simp] theorem Read.moved_item : (x.moved index line).item = x.item := rfl

@[simp] theorem Read.moved_mark : (x.moved index line).mark = x.mark.moved index line := rfl

@[simp] theorem Read.moved_rest : (x.moved index line).rest = x.rest := rfl

end Read

/-! ## Scalars -/

/-- What a plain scalar does at a character other than the carriage return of a pair. -/
theorem plainScalar_cons (context : PlainContext) {mark : Mark} (held : Gap) (read : List Char)
    {column : Nat} (atColumn : mark.column = column) {c : Char} {rest : List Char}
    (notPair : ∀ more, c = '\r' → rest = '\n' :: more → False) :
    plainScalar context mark held read (c :: rest) =
      if isBreak c then plainScalar context (mark.newLine 1) (held.addBreak c) read rest
      else if isGap c then
        if held.isLines && (column : Int) < context.indent && c == '\t' then .error .token
        else plainScalar context mark.next (held.addSpace c) read rest
      else if held.isLines && !context.inFlow && (column : Int) < context.indent then
        .ok ⟨read.reverse, mark, c :: rest, held.isLines⟩
      else if c == '#' && held != .none then .ok ⟨read.reverse, mark, c :: rest, held.isLines⟩
      else if c == ':' && context.inFlow && rest.head?.any (fun d => isFlowIndicator d || d == '?')
        then .error .token
      else if (c == ':' && atSpacing rest) || (context.inFlow && isFlowIndicator c) then
        .ok ⟨read.reverse, mark, c :: rest, held.isLines⟩
      else plainScalar context mark.next .none (c :: (held.text.reverse ++ read)) rest := by
  subst atColumn
  cases rest with
  | nil =>
      conv =>
        lhs
        rw [plainScalar]
        · skip
        · tactic => exact notPair
      simp
  | cons d rest =>
      rw [plainScalar]
      · rfl
      · exact notPair

theorem plainScalar_moved (context : PlainContext) (mark : Mark) (held : Gap)
    (read text : List Char) : plainScalar context (mark.moved index line) held read text =
      Lexeme.moved index line <$> plainScalar context mark held read text := by
  fun_induction plainScalar context mark held read text with
  | case1 => rfl
  | case2 mark held read rest ih => simpa only [plainScalar, Mark.newLine_moved] using ih
  | case3 mark held read c rest notPair atBreak ih =>
    rw [plainScalar_cons _ _ _ (Mark.moved_column mark) notPair,
      if_pos atBreak, Mark.newLine_moved, ih]
  | case4 mark held read c rest notPair noBreak atGap tab =>
    rw [plainScalar_cons _ _ _ (Mark.moved_column mark) notPair,
      if_neg noBreak, if_pos atGap, if_pos tab]
    rfl
  | case5 mark held read c rest notPair noBreak atGap noTab ih =>
    rw [plainScalar_cons _ _ _ (Mark.moved_column mark) notPair,
      if_neg noBreak, if_pos atGap, if_neg noTab,
      Mark.next_moved, ih]
  | case6 mark held read c rest notPair noBreak noGap stop outside =>
    rw [plainScalar_cons _ _ _ (Mark.moved_column mark) notPair,
      if_neg noBreak, if_neg noGap, if_pos outside]
    rfl
  | case7 mark held read c rest notPair noBreak noGap stop inside comment =>
    rw [plainScalar_cons _ _ _ (Mark.moved_column mark) notPair,
      if_neg noBreak, if_neg noGap, if_neg inside,
      if_pos comment]
    rfl
  | case8 mark held read c rest notPair noBreak noGap inside noComment colon =>
    rw [plainScalar_cons _ _ _ (Mark.moved_column mark) notPair,
      if_neg noBreak, if_neg noGap, if_neg inside,
      if_neg noComment, if_pos (by cases rest <;> exact colon)]
    rfl
  | case9 mark held read c rest notPair noBreak noGap stop inside noComment noColon ends =>
    rw [plainScalar_cons _ _ _ (Mark.moved_column mark) notPair,
      if_neg noBreak, if_neg noGap, if_neg inside,
      if_neg noComment, if_neg (by cases rest <;> exact noColon), if_pos ends]
    rfl
  | case10 mark held read c rest notPair noBreak noGap inside noComment noColon goesOn ih =>
    rw [plainScalar_cons _ _ _ (Mark.moved_column mark) notPair,
      if_neg noBreak, if_neg noGap, if_neg inside,
      if_neg noComment, if_neg (by cases rest <;> exact noColon), if_neg goesOn,
      Mark.next_moved, ih]

theorem singleQuotedScalar_moved (mark : Mark) (held : Gap) (read text : List Char) :
    singleQuotedScalar (mark.moved index line) held read text =
      Lexeme.moved index line <$> singleQuotedScalar mark held read text := by
  fun_induction singleQuotedScalar mark held read text with
  | case1 => rfl
  | case2 mark held read rest ih => simpa only [singleQuotedScalar, Mark.newLine_moved] using ih
  | case3 mark held read rest ih => simpa only [singleQuotedScalar, Mark.next_moved] using ih
  | _ =>
    rw [singleQuotedScalar]
    · simp_all +zetaDelta [Lexeme.moved]
    all_goals assumption

theorem doubleQuotedScalar_moved (mark : Mark) (held : Gap) (read : List Char) (escape : Escape)
    (text : List Char) : doubleQuotedScalar (mark.moved index line) held read escape text =
      Lexeme.moved index line <$> doubleQuotedScalar mark held read escape text := by
  fun_induction doubleQuotedScalar mark held read escape text with
  | case1 => simp [doubleQuotedScalar]
  | _ => simp_all +zetaDelta [doubleQuotedScalar, Lexeme.moved]

/-! ## Spacing, words and tags -/

theorem skipSpacing_moved (inFlow comment keyAllowed : Bool) (mark : Mark) (text : List Char) :
    skipSpacing inFlow comment keyAllowed (mark.moved index line) text =
      (skipSpacing inFlow comment keyAllowed mark text).map id
        (Prod.map (Mark.moved index line) id) := by
  fun_induction skipSpacing inFlow comment keyAllowed mark text with
  | case1 => rfl
  | case2 comment keyAllowed mark rest ih => simpa only [skipSpacing, Mark.newLine_moved] using ih
  | case7 keyAllowed comment mark c rest notPair noBreak noComment noSign noSpace =>
    rw [skipSpacing, if_neg noBreak, if_neg noComment, if_neg noSign, Mark.moved_column,
      if_neg noSpace]
    · rfl
    · exact notPair
  | _ =>
    rw [skipSpacing]
    · simp_all
    · assumption

theorem word_moved (mark : Mark) (text : List Char) :
    word (mark.moved index line) text = (word mark text).moved index line := by
  fun_induction word mark text with
  | case1 => rfl
  | case2 mark c rest isWord more ih => simp_all +zetaDelta [word, Read.moved]
  | case3 mark c rest noWord => simp [word, noWord, Read.moved]

theorem anchorName_moved (mark : Mark) (text : List Char) :
    anchorName (mark.moved index line) text =
      Read.moved index line <$> anchorName mark text := by
  simp only [anchorName, word_moved]
  split <;> simp_all [Read.moved]

theorem tagText_moved (wide : Bool) (owed : Nat) (mark : Mark) (text : List Char) :
    tagText wide owed (mark.moved index line) text =
      Read.moved index line <$> tagText wide owed mark text := by
  fun_induction tagText wide owed mark text with
  | case2 mark a b rest high low isLow isHigh octet next left notNext ih =>
    simp only [tagText, isLow, isHigh]
    rw [if_neg notNext]
    rfl
  | _ => simp_all +zetaDelta [tagText, Read.moved]

theorem tagBody_moved (mark : Mark) (text : List Char) :
    tagBody (mark.moved index line) text = Read.moved index line <$> tagBody mark text := by
  unfold tagBody
  split
  · rename_i rest
    rw [Mark.next_moved, tagText_moved]
    cases tagText true 0 mark.next rest with
    | error f => rfl
    | ok suffix =>
        simp only [Outcome.map_ok, Outcome.ok_bind, Read.moved_item, Read.moved_rest]
        split <;> simp [Read.moved]
  · simp only [word_moved, Read.moved_rest, Read.moved_mark, Read.moved_item, Mark.next_moved]
    split
    · rename_i rest _
      rw [tagText_moved]
      cases tagText false 0 (word mark text).mark.next rest with
      | error f => rfl
      | ok suffix =>
          simp only [Outcome.map_ok, Outcome.ok_bind, Read.moved_item, Read.moved_rest]
          by_cases empty : suffix.item.isEmpty <;> simp only [empty] <;> rfl
    · rw [tagText_moved]
      cases tagText false 0 mark text <;> simp [Read.moved]

theorem tagProperty_moved (inFlow : Bool) (mark : Mark) (text : List Char) :
    tagProperty inFlow (mark.moved index line) text =
      Read.moved index line <$> tagProperty inFlow mark text := by
  rw [tagProperty, tagProperty, tagBody_moved]
  cases tagBody mark text with
  | error f => rfl
  | ok tag =>
      simp only [Outcome.map_ok, Outcome.ok_bind, Read.moved_rest]
      split <;> simp_all

/-! ## Lines -/

theorem skipLine_moved (mark : Mark) (text : List Char) :
    skipLine (mark.moved index line) text =
      (skipLine mark text).map (Mark.moved index line) id := by
  fun_induction skipLine mark text with
  | case1 => rfl
  | _ => simp_all [skipLine]

theorem skipGaps_moved (mark : Mark) (text : List Char) :
    skipGaps (mark.moved index line) text =
      (skipGaps mark text).map (Mark.moved index line) id := by
  fun_induction skipGaps mark text with
  | case1 => rfl
  | _ => simp_all [skipGaps]

theorem skipBreak_moved (mark : Mark) (text : List Char) :
    skipBreak (mark.moved index line) text =
      (skipBreak mark text).map (Mark.moved index line) id := by
  unfold skipBreak
  split
  · simp
  · split <;> simp
  · rfl

theorem endOfLine_moved (mark : Mark) (text : List Char) :
    endOfLine (mark.moved index line) text =
      Prod.map (Mark.moved index line) id <$> endOfLine mark text := by
  rw [endOfLine, endOfLine, skipGaps_moved]
  obtain ⟨mark, text⟩ := skipGaps mark text
  simp only [Prod.map_apply, id_eq]
  split
  · simp only [skipLine_moved, Prod.map_fst, Prod.map_snd, id_eq, skipBreak_moved]
    split <;> rfl
  · simp only [skipBreak_moved]
    split <;> rfl

theorem blockHeader_moved (mark : Mark) (text : List Char) :
    blockHeader (mark.moved index line) text =
      BlockHeader.moved index line <$> blockHeader mark text := by
  rw [blockHeader, blockHeader]
  cases blockMarks text with
  | error f => rfl
  | ok marks =>
      simp only [Outcome.ok_bind, Mark.moved_column, Mark.along_moved, endOfLine_moved]
      simp [BlockHeader.moved]

/-! ## Block scalars -/

theorem blockIndentation_cons {mark : Mark} (b : BlockScalar) {column : Nat}
    (atColumn : mark.column = column) {c : Char} {rest : List Char}
    (notPair : ∀ more, c = '\r' → rest = '\n' :: more → False) :
    blockIndentation mark b (c :: rest) =
      if c == ' ' && b.isIndentation column then blockIndentation mark.next b rest
      else if c == '\t' && b.isIndentation column then .error .token
      else
        let b := { b with widest := max b.widest column }
        if isBreak c then
          blockIndentation (mark.newLine 1) { b with empty := breakText c :: b.empty } rest
        else
          let b := b.settled
          if column = b.indent then
            let b := b.beginLine (isGap c)
            blockContent mark.next { b with read := c :: b.read } rest
          else .ok (b, mark, c :: rest) := by
  subst atColumn
  rw [blockIndentation]
  exact notPair

theorem blockContent_cons (mark : Mark) (b : BlockScalar) {c : Char} {rest : List Char}
    (notPair : ∀ more, c = '\r' → rest = '\n' :: more → False) :
    blockContent mark b (c :: rest) =
      if isBreak c then blockIndentation (mark.newLine 1) { b with ending := [breakText c] } rest
      else blockContent mark.next { b with read := c :: b.read } rest := by
  rw [blockContent]
  exact notPair

theorem blockIndentation_moved (mark : Mark) (b : BlockScalar) (text : List Char) :
    blockIndentation (mark.moved index line) b text =
      Prod.map id (Prod.map (Mark.moved index line) id) <$> blockIndentation mark b text := by
  refine blockIndentation.induct
    (fun mark b text => blockIndentation (mark.moved index line) b text =
      Prod.map id (Prod.map (Mark.moved index line) id) <$> blockIndentation mark b text)
    (fun mark b text => blockContent (mark.moved index line) b text =
      Prod.map id (Prod.map (Mark.moved index line) id) <$> blockContent mark b text)
    ?atEnd ?atPair ?atSpace ?atTab ?atBreak ?atContent
    ?atOther ?endsInside ?pairInside ?breakInside ?alongInside mark b text
  case atEnd =>
    intro mark b
    simp [blockIndentation]
  case atPair =>
    intro mark b rest ih
    simpa [blockIndentation] using ih
  case atSpace =>
    intro mark b c rest notPair indentation ih
    simpa only [blockIndentation_cons _ (Mark.moved_column mark) notPair,
      blockIndentation_cons _ (@rfl _ mark.column) notPair, if_pos indentation,
      Mark.next_moved] using ih
  case atTab =>
    intro mark b c rest notPair noSpace tab
    simp only [blockIndentation_cons _ (Mark.moved_column mark) notPair,
      blockIndentation_cons _ (@rfl _ mark.column) notPair, if_neg noSpace, if_pos tab]
    rfl
  case atBreak =>
    intro mark b c rest notPair noSpace noTab wide atBreak ih
    simpa only [blockIndentation_cons _ (Mark.moved_column mark) notPair,
      blockIndentation_cons _ (@rfl _ mark.column) notPair, if_neg noSpace, if_neg noTab,
      if_pos atBreak, Mark.newLine_moved] using ih
  case atContent =>
    intro mark b c rest notPair noSpace noTab wide noBreak settled atContent begun ih
    simp only [settled, wide] at atContent
    simpa only [blockIndentation_cons _ (Mark.moved_column mark) notPair,
      blockIndentation_cons _ (@rfl _ mark.column) notPair, if_neg noSpace, if_neg noTab,
      if_neg noBreak, if_pos atContent, Mark.next_moved] using ih
  case atOther =>
    intro mark b c rest notPair noSpace noTab wide noBreak settled outside
    simp only [settled, wide] at outside
    simp only [blockIndentation_cons _ (Mark.moved_column mark) notPair,
      blockIndentation_cons _ (@rfl _ mark.column) notPair, if_neg noSpace, if_neg noTab,
      if_neg noBreak, if_neg outside]
    rfl
  case endsInside =>
    intro mark b
    simp [blockContent]
  case pairInside =>
    intro mark b rest ih
    simpa [blockContent] using ih
  case breakInside =>
    intro mark b c rest notPair atBreak ih
    simpa only [blockContent_cons _ _ notPair, if_pos atBreak, Mark.newLine_moved] using ih
  case alongInside =>
    intro mark b c rest notPair noBreak ih
    simpa only [blockContent_cons _ _ notPair, if_neg noBreak, Mark.next_moved] using ih

theorem blockScalar_moved (folded : Bool) (parent : Int) (mark : Mark) (text : List Char) :
    blockScalar folded parent (mark.moved index line) text =
      Lexeme.moved index line <$> blockScalar folded parent mark text := by
  rw [blockScalar, blockScalar, blockHeader_moved]
  simp only [bind_map_left, map_bind]
  simp [BlockHeader.moved, blockIndentation_moved, Lexeme.moved]
  rfl

/-! ## Directives -/

theorem versionNumber_moved (mark : Mark) (text : List Char) :
    versionNumber (mark.moved index line) text =
      Read.moved index line <$> versionNumber mark text := by
  simp only [versionNumber]
  split <;> simp [Read.moved]

theorem versionDirective_moved (mark : Mark) (text : List Char) :
    versionDirective (mark.moved index line) text =
      Read.moved index line <$> versionDirective mark text := by
  rw [versionDirective, versionDirective, skipGaps_moved]
  obtain ⟨mark, text⟩ := skipGaps mark text
  simp only [Prod.map_apply, id_eq, versionNumber_moved]
  cases versionNumber mark text with
  | error f => rfl
  | ok major =>
      simp only [Outcome.map_ok, Outcome.ok_bind, Read.moved_rest, Read.moved_mark,
        Mark.next_moved, versionNumber_moved]
      split <;> simp [Read.moved]

theorem directiveHandle_moved (mark : Mark) (text : List Char) :
    directiveHandle (mark.moved index line) text =
      Read.moved index line <$> directiveHandle mark text := by
  unfold directiveHandle
  split
  · simp only [Mark.next_moved, word_moved, Read.moved_rest, Read.moved_item, Read.moved_mark]
    split
    · rfl
    · split <;> rfl
  · rfl

theorem handleDirective_moved (mark : Mark) (text : List Char) :
    handleDirective (mark.moved index line) text =
      Read.moved index line <$> handleDirective mark text := by
  rw [handleDirective, handleDirective, skipGaps_moved]
  obtain ⟨mark, text⟩ := skipGaps mark text
  simp only [Prod.map_apply, id_eq, directiveHandle_moved]
  cases directiveHandle mark text with
  | error f => rfl
  | ok handle =>
      simp only [Outcome.map_ok, Outcome.ok_bind, Read.moved_rest, Read.moved_mark,
        skipGaps_moved]
      split
      · rfl
      · cases isGap _ with
        | false => rfl
        | true =>
            obtain ⟨mark, text⟩ := skipGaps handle.mark handle.rest
            simp only [Prod.map_apply, id_eq, tagText_moved]
            cases tagText true 0 mark text with
            | error f => rfl
            | ok start =>
                simp [Read.moved, apply_ite (Read.moved index line <$> ·)]

def directiveEnd (value : Read Directive) : Except Fault (Read Directive) := do
  let (mark, rest) ← endOfLine value.mark value.rest
  return ⟨value.item, mark, rest⟩

theorem directiveEnd_moved (value : Read Directive) :
    directiveEnd (value.moved index line) = Read.moved index line <$> directiveEnd value := by
  rw [directiveEnd, directiveEnd, Read.moved_mark, Read.moved_rest, endOfLine_moved]
  cases endOfLine value.mark value.rest <;> rfl

theorem directive_moved (mark : Mark) (text : List Char) :
    directive (mark.moved index line) text =
      Read.moved index line <$> directive mark text := by
  rw [directive, directive, word_moved]
  simp only [Read.moved_item, Read.moved_rest, Read.moved_mark, versionDirective_moved,
    handleDirective_moved]
  have value : ∀ x : Except Fault (Read Directive),
      Read.moved index line <$> x >>= directiveEnd =
        Read.moved index line <$> (x >>= directiveEnd) := by
    intro x
    cases x with
    | error f => rfl
    | ok value => exact directiveEnd_moved value
  split
  · rfl
  · split
    · exact value _
    · split
      · exact value _
      · rfl

/-! ## Tokens -/

namespace Lexer
variable (s : Lexer)

@[simp] theorem moved_inFlow : (s.moved index line).inFlow = s.inFlow := by
  simp [inFlow, moved]

@[simp] theorem moved_mark : (s.moved index line).mark = s.mark.moved index line := rfl

@[simp] theorem moved_rest : (s.moved index line).rest = s.rest := rfl

@[simp] theorem moved_keyAllowed : (s.moved index line).keyAllowed = s.keyAllowed := rfl

@[simp] theorem moved_tokens : (s.moved index line).tokens = s.tokens := rfl

@[simp] theorem moved_indent : (s.moved index line).indent = s.indent := rfl

@[simp] theorem insertAt_moved (position : Nat) (ts : List Token) :
    (s.moved index line).insertAt position ts = (s.insertAt position ts).moved index line := rfl

@[simp] theorem closeBlocks_moved (column : Int) :
    (s.moved index line).closeBlocks column = (s.closeBlocks column).moved index line := by
  rw [closeBlocks, closeBlocks, moved_inFlow]
  split <;> rfl

@[simp] theorem openBlock_moved (column position : Nat) (t : Token) :
    (s.moved index line).openBlock column position t =
      (s.openBlock column position t).moved index line := by
  have agree : ((s.moved index line).inFlow ∨ (s.moved index line).indent ≥ (column : Int)) ↔
      (s.inFlow ∨ s.indent ≥ (column : Int)) := by rw [moved_inFlow]; rfl
  by_cases isOpen : s.inFlow ∨ s.indent ≥ (column : Int)
  · rw [openBlock, openBlock, if_pos isOpen, if_pos (agree.mpr isOpen)]
  · rw [openBlock, openBlock, if_neg isOpen, if_neg (mt agree.mp isOpen)]
    rfl

theorem dropCandidate_moved :
    (s.moved index line).dropCandidate = moved index line <$> s.dropCandidate := by
  unfold dropCandidate
  cases found : s.candidate with
  | none => simp [moved, found]
  | some c =>
      simp only [moved, found, Option.map_some, Candidate.moved]
      split <;> rfl

theorem saveCandidate_moved :
    (s.moved index line).saveCandidate = moved index line <$> s.saveCandidate := by
  unfold saveCandidate
  rw [dropCandidate_moved]
  by_cases allowed : s.keyAllowed
  · rw [if_pos allowed, if_pos (show (s.moved index line).keyAllowed from allowed)]
    cases s.dropCandidate with
    | error f => rfl
    | ok s => simp [moved, inFlow, Candidate.moved]
  · rw [if_neg allowed, if_neg (show ¬ (s.moved index line).keyAllowed from allowed)]
    rfl

theorem liveCandidate_moved :
    (s.moved index line).liveCandidate =
      Option.map (Candidate.moved index line) <$> s.liveCandidate := by
  unfold liveCandidate
  cases found : s.candidate with
  | none => simp [moved, found]
  | some c =>
      have agree : (c.mark.line + line < s.mark.line + line ∨
          c.mark.index + index + 1024 < s.mark.index + index) ↔
          (c.mark.line < s.mark.line ∨ c.mark.index + 1024 < s.mark.index) := by omega
      simp only [moved, found, Option.map_some, Candidate.moved, Mark.moved, agree]
      split
      · split <;> rfl
      · rfl

theorem finish_moved : (s.moved index line).finish = s.finish := by
  rw [finish, finish, closeBlocks_moved, dropCandidate_moved]
  cases (s.closeBlocks (-1)).dropCandidate <;> rfl

theorem directiveToken_moved :
    (s.moved index line).directiveToken = moved index line <$> s.directiveToken := by
  rw [directiveToken, directiveToken, closeBlocks_moved, dropCandidate_moved]
  cases (s.closeBlocks (-1)).dropCandidate with
  | error f => rfl
  | ok s =>
      have read := @directive_moved index line s.mark.next (s.rest.drop 1)
      simp only [Outcome.map_ok, Outcome.ok_bind, moved_mark, moved_rest, Mark.next_moved, read]
      cases directive s.mark.next (s.rest.drop 1) <;> rfl

theorem openFlow_moved (t : Token) :
    (s.moved index line).openFlow t = moved index line <$> s.openFlow t := by
  rw [openFlow, openFlow, saveCandidate_moved]
  cases s.saveCandidate with
  | error f => rfl
  | ok s => simp [moved, push, pass]

theorem closeFlow_moved (t : Token) :
    (s.moved index line).closeFlow t = moved index line <$> s.closeFlow t := by
  rw [closeFlow, closeFlow, dropCandidate_moved]
  cases s.dropCandidate with
  | error f => rfl
  | ok s =>
      obtain ⟨mark, rest, tokens, candidate, outer, keyAllowed, indent, indents⟩ := s
      cases outer <;> simp [moved, push, pass]

theorem flowEntryToken_moved :
    (s.moved index line).flowEntryToken = moved index line <$> s.flowEntryToken := by
  rw [flowEntryToken, flowEntryToken, dropCandidate_moved]
  cases s.dropCandidate with
  | error f => rfl
  | ok s => simp [moved, push, pass]

theorem blockEntryToken_moved :
    (s.moved index line).blockEntryToken = moved index line <$> s.blockEntryToken := by
  simp only [blockEntryToken, moved_inFlow, moved_keyAllowed, moved_mark, moved_tokens,
    Mark.moved_column, openBlock_moved, dropCandidate_moved]
  split
  · rfl
  · cases (s.openBlock s.mark.column s.tokens.length .blockSequenceStart).dropCandidate with
    | error f => rfl
    | ok s => simp [moved, push, pass]

theorem keyToken_moved :
    (s.moved index line).keyToken = moved index line <$> s.keyToken := by
  simp only [keyToken, moved_inFlow, moved_keyAllowed, moved_mark, moved_tokens,
    Mark.moved_column, openBlock_moved, dropCandidate_moved]
  split
  · rfl
  · cases (s.openBlock s.mark.column s.tokens.length .blockMappingStart).dropCandidate with
    | error f => rfl
    | ok s => simp [moved, push, pass, inFlow]

theorem valueToken_moved :
    (s.moved index line).valueToken = moved index line <$> s.valueToken := by
  rw [valueToken, valueToken, liveCandidate_moved]
  cases s.liveCandidate with
  | error f => rfl
  | ok candidate =>
      cases candidate with
      | some c =>
          simp only [Outcome.map_ok, Outcome.ok_bind, Option.map_some, insertAt_moved,
            Candidate.moved, Mark.moved_column, openBlock_moved]
          simp [moved, push, pass]
      | none =>
          simp only [Outcome.map_ok, Outcome.ok_bind, Option.map_none, moved_inFlow,
            moved_keyAllowed, moved_mark, moved_tokens, Mark.moved_column, openBlock_moved]
          split
          · rfl
          · simp [moved, push, pass, inFlow]

theorem anchorToken_moved (make : String → Token) :
    (s.moved index line).anchorToken make = moved index line <$> s.anchorToken make := by
  rw [anchorToken, anchorToken, saveCandidate_moved]
  cases s.saveCandidate with
  | error f => rfl
  | ok s =>
      simp only [Outcome.map_ok, Outcome.ok_bind, moved_mark, moved_rest, Mark.next_moved,
        anchorName_moved]
      cases anchorName s.mark.next (s.rest.drop 1) <;> rfl

theorem tagToken_moved :
    (s.moved index line).tagToken = moved index line <$> s.tagToken := by
  rw [tagToken, tagToken, saveCandidate_moved]
  cases s.saveCandidate with
  | error f => rfl
  | ok s =>
      simp only [Outcome.map_ok, Outcome.ok_bind, moved_mark, moved_rest, Mark.next_moved,
        moved_inFlow, tagProperty_moved]
      cases tagProperty s.inFlow s.mark.next (s.rest.drop 1) <;> rfl

theorem blockScalarToken_moved (style : Style) :
    (s.moved index line).blockScalarToken style =
      moved index line <$> s.blockScalarToken style := by
  rw [blockScalarToken, blockScalarToken, dropCandidate_moved]
  cases s.dropCandidate with
  | error f => rfl
  | ok s =>
      simp only [Outcome.map_ok, Outcome.ok_bind, moved_mark, moved_rest, Mark.next_moved,
        moved_indent, blockScalar_moved]
      cases blockScalar (style == .folded) s.indent s.mark.next (s.rest.drop 1) <;> rfl

theorem flowScalarToken_moved (style : Style) {read : Lexer → Except Fault Lexeme}
    (readMoved : ∀ s, read (s.moved index line) = Lexeme.moved index line <$> read s) :
    (s.moved index line).flowScalarToken style read =
      moved index line <$> s.flowScalarToken style read := by
  rw [flowScalarToken, flowScalarToken, saveCandidate_moved]
  cases s.saveCandidate with
  | error f => rfl
  | ok s =>
      simp only [Outcome.map_ok, Outcome.ok_bind, readMoved]
      cases read s <;> rfl

theorem token_moved (c : Char) (rest : List Char) :
    (s.moved index line).token c rest = moved index line <$> s.token c rest := by
  simp only [token, moved_mark, Mark.moved_column, moved_inFlow, directiveToken_moved,
    openFlow_moved, closeFlow_moved, flowEntryToken_moved, blockEntryToken_moved, keyToken_moved,
    valueToken_moved, anchorToken_moved, tagToken_moved, blockScalarToken_moved,
    apply_ite (moved index line <$> ·)]
  rw [flowScalarToken_moved, flowScalarToken_moved, flowScalarToken_moved]
  · rfl
  · intro s
    simp only [moved_inFlow, moved_indent, moved_mark, moved_rest, plainScalar_moved]
  · intro s
    simp only [moved_mark, moved_rest, Mark.next_moved, doubleQuotedScalar_moved]
  · intro s
    simp only [moved_mark, moved_rest, Mark.next_moved, singleQuotedScalar_moved]

/-- A lexer goes on the same way some characters and lines further on. -/
theorem run_moved (fuel : Nat) : (s.moved index line).run fuel = s.run fuel := by
  induction fuel generalizing s with
  | zero => rfl
  | succ fuel ih =>
      simp only [run, moved_inFlow, moved_keyAllowed, moved_mark, moved_rest, skipSpacing_moved]
      obtain ⟨keyAllowed, mark, rest⟩ := skipSpacing s.inFlow false s.keyAllowed s.mark s.rest
      cases rest with
      | nil => exact finish_moved { s with keyAllowed := keyAllowed, mark := mark, rest := [] }
      | cons c rest =>
          let here : Lexer := { s with keyAllowed := keyAllowed, mark := mark, rest := c :: rest }
          change ((here.moved index line).closeBlocks mark.column).token c rest >>= run fuel =
            (here.closeBlocks mark.column).token c rest >>= run fuel
          rw [closeBlocks_moved, token_moved]
          cases (here.closeBlocks mark.column).token c rest with
          | error f => rfl
          | ok next => exact ih next

theorem run_mono {s : Lexer} {fuel more : Nat} {ts : List Token} (enough : s.run fuel = .ok ts)
    (le : fuel ≤ more) : s.run more = .ok ts := by
  induction fuel generalizing s more with
  | zero => cases enough
  | succ fuel ih =>
      obtain ⟨more, rfl⟩ : ∃ n, more = n + 1 := ⟨more - 1, by omega⟩
      rw [run] at enough ⊢
      generalize skipSpacing s.inFlow false s.keyAllowed s.mark s.rest = spaced at enough ⊢
      obtain ⟨keyAllowed, mark, rest⟩ := spaced
      cases rest with
      | nil => exact enough
      | cons c rest =>
          obtain ⟨next, token, ran⟩ := Outcome.bind_eq_ok_iff.mp enough
          exact Outcome.bind_eq_ok_iff.mpr ⟨next, token, ih ran (by omega)⟩

end Lexer

end Moved

/-- What is read from the start of a stream is also read behind a break in front of it. -/
theorem tokens_behind_break {text : List Char} {ts : List Token}
    (read : tokens ⟨0, 0, 0⟩ true text = .ok ts) :
    tokens ⟨0, 0, 0⟩ true ('\n' :: text) = .ok ts := by
  have behind : tokens ⟨0, 0, 0⟩ true ('\n' :: text) =
      (Lexer.start ⟨1, 1, 0⟩ true text).run (text.length + 2) := by
    have isBreak : isBreak '\n' := by decide
    simp only [tokens, List.length_cons, Lexer.run, Lexer.start, Lexer.inFlow, List.isEmpty_nil,
      Bool.not_true]
    simp [skipSpacing, isBreak, Mark.newLine]
  have moved := @Lexer.run_moved 1 1 (Lexer.start ⟨0, 0, 0⟩ true text) (text.length + 1)
  rw [behind]
  exact Lexer.run_mono (moved.trans read) (by omega)

/-- What is read from the start of a stream is also read behind a marker, from the next line on. -/
theorem tokens_behind_marker {text : List Char} {ts : List Token}
    (read : tokens ⟨0, 0, 0⟩ true text = .ok ts) :
    tokens ⟨3, 0, 3⟩ false ('\n' :: text) = .ok ts := by
  have skipped : skipSpacing false false false ⟨3, 0, 3⟩ ('\n' :: text) =
      skipSpacing false false true ⟨4, 1, 0⟩ text := by
    have isBreak : isBreak '\n' := by decide
    simp [skipSpacing, isBreak, Mark.newLine]
  have behind : tokens ⟨3, 0, 3⟩ false ('\n' :: text) =
      (Lexer.start ⟨4, 1, 0⟩ true text).run (text.length + 2) := by
    simp only [tokens, List.length_cons, Lexer.run, Lexer.start, Lexer.inFlow, List.isEmpty_nil,
      Bool.not_true, skipped]
  have moved := @Lexer.run_moved 4 1 (Lexer.start ⟨0, 0, 0⟩ true text) (text.length + 1)
  rw [behind]
  exact Lexer.run_mono (moved.trans read) (by omega)

end ChartInflation.Yaml
