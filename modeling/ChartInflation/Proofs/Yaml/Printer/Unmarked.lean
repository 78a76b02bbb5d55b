import ChartInflation.Proofs.Yaml.Markers
import ChartInflation.Proofs.Yaml.Printer.Escapes
import ChartInflation.Proofs.Yaml.Printer.NumberText
import ChartInflation.Proofs.Yaml.Printer.Written

/-!
# What is written holds no marker

The text of a tree ends its last line, and no line of it begins with three dashes or dots: a string
that would is quoted, and the lines inside a scalar are indented (`print_unmarked`).
-/

set_option autoImplicit false

namespace ChartInflation.Yaml.Printer

open LineState

/-! ## Lines -/

/-- A line that does not begin with three dashes or dots. -/
theorem start_after_ne_marked {text : List Char} (goesOn : ∀ c ∈ text, isBreak c = false)
    (noDashes : ∀ rest, text ≠ '-' :: '-' :: '-' :: rest)
    (noDots : ∀ rest, text ≠ '.' :: '.' :: '.' :: rest) : start.after text ≠ .marked := by
  have inside : ∀ {text}, (∀ c ∈ text, isBreak c = false) → inside.after text ≠ .marked := by
    intro text goesOn
    rw [inside_after goesOn]
    simp
  rcases text with _ | ⟨a, text⟩
  · simp
  rw [List.forall_mem_cons] at goesOn
  by_cases first : a = '-' ∨ a = '.'
  · rcases text with _ | ⟨b, text⟩
    · rcases first with rfl | rfl <;> decide
    rw [List.forall_mem_cons] at goesOn
    by_cases second : b = a
    · subst second
      rcases text with _ | ⟨c, text⟩
      · rcases first with rfl | rfl <;> decide
      rw [List.forall_mem_cons] at goesOn
      by_cases third : c = b
      · subst third
        rcases first with rfl | rfl
        · exact absurd rfl (noDashes text)
        · exact absurd rfl (noDots text)
      · have other : start.after (b :: b :: c :: text) = LineState.inside.after text := by
          rcases first with rfl | rfl <;> simp [next, goesOn, third]
        rw [other]
        exact inside goesOn.2.2.2
    · have other : start.after (a :: b :: text) = LineState.inside.after text := by
        rcases first with rfl | rfl <;> simp [next, goesOn, second]
      rw [other]
      exact inside goesOn.2.2
  · have other : start.after (a :: text) = LineState.inside.after text := by
      simp [next, goesOn, not_or.mp first]
    rw [other]
    exact inside goesOn.2

/-- From inside a line a text ends the line if it does so from elsewhere. -/
theorem inside_after_eq_start {s : LineState} {text : List Char} (some : text ≠ [])
    (ends : s.after text = .start) : inside.after text = .start := by
  induction text generalizing s with
  | nil => exact absurd rfl some
  | cons c text ih =>
      by_cases atBreak : isBreak c
      · have unmarked : s ≠ .marked := by
          rintro rfl
          rw [marked_after] at ends
          cases ends
        rw [after_cons, next_break unmarked atBreak] at ends
        rwa [after_cons, next_break (by simp) atBreak]
      · rw [after_cons, inside_next (by simpa using atBreak)]
        refine ih ?_ ends
        rintro rfl
        exact atBreak (next_eq_start_iff.mp ends).2

theorem inside_spaces (n : Nat) : inside.after (spaces n) = .inside := by
  refine inside_after fun c member => ?_
  rw [List.eq_of_mem_replicate member]
  decide

theorem start_spaces (n : Nat) : start.after (spaces (n + 1)) = .inside :=
  inside_spaces n

/-- A text that ends the line it goes on with, in front of which there may be spaces. -/
def EndsLine (text : List Char) : Prop :=
  text ≠ [] ∧ start.after text = .start

theorem EndsLine.after_spaces {text : List Char} (ends : EndsLine text) (n : Nat) :
    start.after (spaces n ++ text) = .start := by
  rw [after_append]
  cases n with
  | zero => exact ends.2
  | succ n =>
      rw [start_spaces]
      exact inside_after_eq_start ends.1 ends.2

theorem endsLine_of_line {text : List Char} (goesOn : ∀ c ∈ text, isBreak c = false)
    (noDashes : ∀ rest, text ≠ '-' :: '-' :: '-' :: rest)
    (noDots : ∀ rest, text ≠ '.' :: '.' :: '.' :: rest) : EndsLine (text ++ ['\n']) := by
  refine ⟨by simp, ?_⟩
  rw [after_append]
  exact next_break (start_after_ne_marked goesOn noDashes noDots) (by decide)

/-! ## Scalars -/

theorem isBreak_of_isNumberCharacter {c : Char} (isNumber : isNumberCharacter c) :
    isBreak c = false := by
  rw [← Bool.not_eq_true, isBreak_iff]
  simp [isNumberCharacter, isAsciiDigit_iff, char_eq_iff] at isNumber
  omega

theorem numberText_ne (n : Number) {c : Char} (isMark : c = '-' ∨ c = '.') (rest : List Char) :
    numberText n ≠ c :: c :: rest := by
  obtain ⟨sign, body, isText, isSign, isBody⟩ := exists_sign n
  rw [isText]
  intro same
  rcases isBody with rfl | rfl | ⟨-, d, more, rfl, isDigit⟩
  · rcases isSign with rfl | rfl <;> rcases isMark with rfl | rfl <;> simp at same
  · rcases isSign with rfl | rfl <;> rcases isMark with rfl | rfl <;> simp at same
  · have isMark : d = '-' ∨ d = '.' := by
      rcases isSign with rfl | rfl
      · rw [List.nil_append, List.cons.injEq] at same
        exact same.1 ▸ isMark
      · rw [List.cons_append, List.nil_append, List.cons.injEq, List.cons.injEq] at same
        exact same.2.1 ▸ isMark
    rcases isMark with rfl | rfl <;> exact absurd isDigit (by decide)

theorem numberText_endsLine (n : Number) : EndsLine (numberText n ++ ['\n']) := by
  refine endsLine_of_line
    (fun c member => isBreak_of_isNumberCharacter (isNumeric_numberText n c member)) ?_ ?_
  · exact fun rest => numberText_ne n (.inl rfl) _
  · exact fun rest => numberText_ne n (.inr rfl) _

theorem endsLine_of_inside {c : Char} {text : List Char} (opens : start.next c = .inside)
    (ends : inside.after text = .start) : EndsLine (c :: text) :=
  ⟨by simp, by rw [after_cons, opens, ends]⟩

theorem plain_endsLine {text : List Char} (fits : fitsPlain text) : EndsLine (text ++ ['\n']) := by
  simp only [fitsPlain, Bool.and_eq_true, Bool.not_eq_true', List.any_eq_false] at fits
  refine endsLine_of_line (by simpa using fits.1.1.1.1.1.2) ?_ ?_
  all_goals
    rintro rest rfl
    simp [beginsAsIndicator] at fits

def lineState (lineStart : Bool) : LineState :=
  if lineStart then .start else .inside

theorem lineState_ne_marked (lineStart : Bool) : lineState lineStart ≠ .marked := by
  cases lineStart <;> simp [lineState]

theorem after_indentation {indent : Nat} (indented : 0 < indent) (lineStart : Bool) :
    (lineState lineStart).after (if lineStart then spaces indent else []) = .inside := by
  obtain ⟨n, rfl⟩ : ∃ n, indent = n + 1 := ⟨indent - 1, by omega⟩
  cases lineStart
  · rfl
  · exact start_spaces n

/-- The inside of single quotes leads into the line that its closing quote stands on. -/
theorem after_singleQuotedBody {indent : Nat} (indented : 0 < indent) (lineStart : Bool)
    (text : List Char) :
    (lineState lineStart).after (singleQuotedBody indent lineStart text) = .inside := by
  induction text generalizing lineStart with
  | nil => exact after_indentation indented lineStart
  | cons c text ih =>
      rw [singleQuotedBody]
      by_cases atBreak : isBreak c
      · rw [if_pos atBreak, after_cons, next_break (lineState_ne_marked lineStart) atBreak]
        exact ih true
      · have quoted : inside.after (if c = '\'' then ['\'', '\''] else [c]) = .inside := by
          refine inside_after ?_
          split
          · exact goesOn_of_all (by decide)
          · simpa using atBreak
        rw [if_neg atBreak, after_append, after_append, after_indentation indented, quoted]
        exact ih false

theorem after_literalBody {indent : Nat} (indented : 0 < indent) (lineStart : Bool)
    (text : List Char) :
    (lineState lineStart).after (literalBody indent lineStart text) = .start := by
  induction text generalizing lineStart with
  | nil => cases lineStart <;> rfl
  | cons c text ih =>
      rw [literalBody]
      by_cases atBreak : isBreak c
      · rw [if_pos atBreak, after_cons, next_break (lineState_ne_marked lineStart) atBreak]
        exact ih true
      · rw [if_neg atBreak, after_append, after_indentation indented, after_cons,
          inside_next (by simpa using atBreak)]
        exact ih false

theorem literalHeader_goesOn (text : List Char) : ∀ c ∈ literalHeader text, isBreak c = false := by
  unfold literalHeader
  rw [List.forall_mem_append]
  constructor
  · split <;> exact goesOn_of_all (by decide)
  · split
    · exact goesOn_of_all (by decide)
    · split <;> exact goesOn_of_all (by decide)
    · split
      · exact goesOn_of_all (by decide)
      · split <;> exact goesOn_of_all (by decide)

theorem doubleQuoted_goesOn (text : List Char) : ∀ c ∈ doubleQuoted text, isBreak c = false := by
  rw [doubleQuoted, List.cons_append, List.forall_mem_cons, List.forall_mem_append]
  refine ⟨by decide, ?_, goesOn_of_all (by decide)⟩
  intro d member
  obtain ⟨c, -, isWritten⟩ := List.mem_flatMap.mp member
  split at isWritten
  · exact (escape_escapes c).goesOn d isWritten
  · rename_i plain
    rw [List.mem_singleton.mp isWritten]
    simp only [Bool.or_eq_true, not_or] at plain
    simpa using plain.1.1.2

def Fits (s : String) : Style → Prop
  | .plain => '\n' ∉ s.toList ∧ readsOtherwise s = false ∧ fitsPlain s.toList
  | .singleQuoted => '\n' ∉ s.toList ∧ fitsSingleQuotes s.toList
  | .doubleQuoted => True
  | .literal => '\n' ∈ s.toList ∧ fitsLiteral s.toList
  | .folded => False

theorem fits_styleOf (s : String) : Fits s (styleOf s) := by
  have contains : s.toList.contains '\n' = true ↔ '\n' ∈ s.toList := List.contains_iff_mem
  unfold styleOf
  by_cases broken : '\n' ∈ s.toList
  · rw [if_pos (contains.mpr broken)]
    split
    · exact ⟨broken, ‹_›⟩
    · trivial
  · rw [if_neg (mt contains.mp broken)]
    split
    · rename_i plain
      simp only [Bool.and_eq_true, Bool.not_eq_true'] at plain
      exact ⟨broken, plain⟩
    split
    · exact ⟨broken, ‹_›⟩
    · trivial

theorem nonempty_of_plain {s : String} (string : readsOtherwise s = false) : s.toList ≠ [] := by
  intro empty
  have isEmpty : s = "" := String.toList_inj.mp empty
  rw [isEmpty] at string
  cases string

theorem stringLine_endsLine {indent : Nat} (indented : 0 < indent) (s : String) :
    EndsLine (stringLine indent s) := by
  have fits := fits_styleOf s
  unfold stringLine
  generalize styleOf s = style at fits ⊢
  cases style with
  | plain => exact plain_endsLine fits.2.2
  | singleQuoted =>
      change EndsLine ('\'' :: (singleQuotedBody indent false s.toList ++ ['\'', '\n']))
      refine endsLine_of_inside (by decide) ?_
      rw [after_append, show inside = lineState false from rfl, after_singleQuotedBody indented]
      rfl
  | literal =>
      change EndsLine ('|' :: (literalHeader s.toList ++ '\n' :: literalBody indent true s.toList))
      refine endsLine_of_inside (by decide) ?_
      rw [after_append, inside_after (literalHeader_goesOn _), after_cons,
        next_break (by simp) (by decide)]
      exact after_literalBody indented true _
  | _ =>
      refine endsLine_of_line (doubleQuoted_goesOn _) ?_ ?_
      all_goals
        intro rest same
        cases same

/-! ## Tags -/

def InTag (c : Char) : Prop :=
  33 ≤ c.toNat ∧ c.toNat ≤ 126 ∧ c.toNat ≠ 35

instance (c : Char) : Decidable (InTag c) :=
  inferInstanceAs (Decidable (_ ∧ _))

theorem tagOctet_inTag {b : UInt8} (plain : isPlainTagOctet b) : InTag (Char.ofNat b.toNat) := by
  simp [isPlainTagOctet, isWord_iff, char_eq_iff] at plain
  unfold InTag
  omega

theorem hexDigits_inTag (width n : Nat) : ∀ c ∈ hexDigits width n, InTag c := by
  induction width generalizing n with
  | zero => exact List.forall_mem_nil _
  | succ width ih =>
      have digit : ∀ m < 16, InTag (if m < 10 then Char.ofNat (48 + m) else Char.ofNat (55 + m)) := by
        decide
      rw [hexDigits, List.forall_mem_append, List.forall_mem_singleton]
      exact ⟨ih _, digit _ (Nat.mod_lt n (by decide))⟩

theorem tagSuffix_inTag (text : List Char) : ∀ c ∈ tagSuffix text, InTag c := by
  intro c member
  obtain ⟨b, -, isWritten⟩ := List.mem_flatMap.mp member
  split at isWritten
  · rename_i plain
    rw [List.mem_singleton.mp isWritten]
    exact tagOctet_inTag plain
  · rcases List.mem_cons.mp isWritten with rfl | isDigit
    · decide
    · exact hexDigits_inTag _ _ c isDigit

theorem tagText_inTag (tag : Tag) : ∀ c ∈ tagText tag, InTag c := by
  unfold tagText
  split
  · exact List.forall_mem_cons.mpr ⟨by decide, tagSuffix_inTag _⟩
  · simp only [List.forall_mem_append, List.forall_mem_singleton]
    exact ⟨⟨by simp [InTag], tagSuffix_inTag _⟩, by decide⟩

theorem tagText_goesOn (tag : Tag) : ∀ c ∈ tagText tag, isBreak c = false := by
  intro c member
  have inTag := tagText_inTag tag c member
  rw [← Bool.not_eq_true, isBreak_iff]
  unfold InTag at inTag
  omega

theorem tagText_begins (tag : Tag) : ∃ rest, tagText tag = '!' :: rest := by
  unfold tagText
  split
  · exact ⟨_, rfl⟩
  · exact ⟨_, rfl⟩

/-! ## Nodes -/

/-- The states in which a node may be written: at the root it begins a line. -/
def Ready (place : Place) (s : LineState) : Prop :=
  s ≠ .marked ∧ (place = .root → s = .start)

theorem next_space {s : LineState} (unmarked : s ≠ .marked) : s.next ' ' = .inside := by
  cases s <;> first | rfl | exact absurd rfl unmarked

theorem Ready.after_gap {place : Place} {s : LineState} (ready : Ready place s) :
    (place.gap = [] ∧ s = .start) ∨ s.after place.gap = .inside := by
  cases place with
  | root => exact .inl ⟨rfl, ready.2 rfl⟩
  | _ => exact .inr (next_space ready.1)

theorem Ready.after_line {place : Place} {s : LineState} (ready : Ready place s)
    {text : List Char} (ends : EndsLine text) : s.after (place.gap ++ text) = .start := by
  rw [after_append]
  rcases ready.after_gap with ⟨noGap, rfl⟩ | inside
  · rw [noGap]
    exact ends.2
  · rw [inside]
    exact inside_after_eq_start ends.1 ends.2

theorem Ready.after_tag {place : Place} {s : LineState} (ready : Ready place s) (tag : Tag) :
    s.after (place.gap ++ tagText tag) = .inside := by
  obtain ⟨rest, isText⟩ := tagText_begins tag
  have goesOn := tagText_goesOn tag
  rw [isText, List.forall_mem_cons] at goesOn
  rw [after_append, isText, after_cons]
  rcases ready.after_gap with ⟨noGap, rfl⟩ | inside
  · rw [noGap]
    exact inside_after goesOn.2
  · rw [inside]
    exact inside_after goesOn.2

theorem line_ends {place : Place} {s : LineState} (ready : Ready place s) (tag? : Option Tag)
    {text : List Char} (ends : EndsLine text) : s.after (line place tag? text) = .start := by
  cases tag? with
  | none => exact ready.after_line ends
  | some tag =>
      rw [line, after_append, ready.after_tag, after_cons, next_space (by simp)]
      exact inside_after_eq_start ends.1 ends.2

theorem collection_ends {place : Place} {s : LineState} (ready : Ready place s) (column : Nat)
    (tag? : Option Tag) (compact : Bool) {body : List Char} (ends : EndsLine body) :
    s.after (collection place column tag? compact (spaces column ++ body)) = .start := by
  have lines := ends.after_spaces column
  unfold collection
  cases tag? with
  | some tag =>
      rw [after_append, ready.after_tag, after_cons, next_break (by simp) (by decide)]
      exact lines
  | none =>
      simp only
      split
      · have dropped : (spaces column ++ body).drop column = body := by simp [spaces]
        rw [dropped, after_cons, next_space ready.1]
        exact inside_after_eq_start ends.1 ends.2
      split
      · rename_i atRoot
        rw [ready.2 atRoot]
        exact lines
      · rw [after_cons, next_break ready.1 (by decide)]
        exact lines

/-- The text of what is in a collection: lines, the first of which begins in a column, unless there
is nothing in it. -/
def Lines {α : Type} (column : Nat) (inside : List α) (text : List Char) : Prop :=
  (inside = [] ∧ text = []) ∨ ∃ body, text = spaces column ++ body ∧ EndsLine body

theorem Lines.after {α : Type} {column : Nat} {inside : List α} {text : List Char}
    (lines : Lines column inside text) : start.after text = .start := by
  rcases lines with ⟨-, rfl⟩ | ⟨body, rfl, ends⟩
  · rfl
  · exact ends.after_spaces column

theorem endsLine_fixed : EndsLine "[]\n".toList ∧ EndsLine "\x7b\x7d\n".toList ∧
    EndsLine "null\n".toList ∧ EndsLine "true\n".toList ∧ EndsLine "false\n".toList := by
  unfold EndsLine
  decide

theorem scalarColumn_pos (column? : Option Nat) : 0 < scalarColumn column? := by
  cases column? <;> simp [scalarColumn]

theorem next_colon {s : LineState} (unmarked : s ≠ .marked) : s.next ':' = .inside := by
  cases s <;> first | rfl | exact absurd rfl unmarked

/-- The break at the end of a key may give way to something else. -/
theorem after_dropLast {s : LineState} {text : List Char} (ends : s.after text = .start) :
    s.after text.dropLast ≠ .marked := by
  rcases List.eq_nil_or_concat text with rfl | ⟨front, c, rfl⟩
  · rw [show s = .start from ends]
    simp
  · rw [List.concat_eq_append, after_append] at ends
    rw [List.concat_eq_append, List.dropLast_concat]
    exact (next_eq_start_iff.mp ends).1

mutual

/-- A node ends the line it stands on and all its other lines. -/
theorem after_node {place : Place} {s : LineState} (ready : Ready place s) (column? : Option Nat)
    (tag? : Option Tag) (v : Value) {text : List Char}
    (written : node place column? tag? v = .ok text) : s.after text = .start := by
  obtain ⟨ofSequence, ofMapping, ofNull, ofTrue, ofFalse⟩ := endsLine_fixed
  match v with
  | .tagged tag v =>
      obtain ⟨rfl, written⟩ := node_tagged_eq_ok_iff.mp written
      exact after_node ready column? (some tag) v written
  | .sequence (v :: vs) =>
      obtain ⟨_, isBody, rfl⟩ := node_sequence_eq_ok_iff.mp written
      rcases lines_items _ (v :: vs) isBody with ⟨isNil, -⟩ | ⟨body, rfl, ends⟩
      · cases isNil
      exact collection_ends ready _ tag? _ ends
  | .mapping (e :: es) =>
      obtain ⟨_, isBody, rfl⟩ := node_mapping_eq_ok_iff.mp written
      rcases lines_entries _ _ (e :: es) isBody with ⟨isNil, -⟩ | ⟨body, rfl, ends⟩
      · cases isNil
      exact collection_ends ready _ tag? _ ends
  | .sequence [] =>
      rw [← Except.ok.inj written]
      exact line_ends ready tag? ofSequence
  | .mapping [] =>
      rw [← Except.ok.inj written]
      exact line_ends ready tag? ofMapping
  | .null =>
      rw [← Except.ok.inj written]
      exact line_ends ready tag? ofNull
  | .bool b =>
      rw [← Except.ok.inj written]
      exact line_ends ready tag? (by cases b <;> assumption)
  | .number n =>
      rw [← Except.ok.inj written]
      exact line_ends ready tag? (numberText_endsLine n)
  | .string s =>
      rw [← Except.ok.inj written]
      exact line_ends ready tag? (stringLine_endsLine (scalarColumn_pos column?) s)

theorem lines_items (column : Nat) (vs : List Value) {text : List Char}
    (written : items column vs = .ok text) : Lines column vs text := by
  match vs with
  | [] => exact .inl ⟨rfl, (Except.ok.inj written).symm⟩
  | v :: vs =>
      obtain ⟨first, more, isFirst, isMore, rfl⟩ := items_cons_eq_ok_iff.mp written
      have behindDash : Ready .item (.dashes false) := ⟨by simp, by simp⟩
      refine .inr ⟨_, rfl, by simp, ?_⟩
      change (LineState.after (.dashes false) (first ++ more)) = .start
      rw [after_append, after_node behindDash _ _ v isFirst]
      exact (lines_items column vs isMore).after

theorem lines_entries (column : Nat) (alone : Bool) (es : List (Value × Value)) {text : List Char}
    (written : entries column alone es = .ok text) : Lines column es text := by
  match es with
  | [] => exact .inl ⟨rfl, (Except.ok.inj written).symm⟩
  | (k, v) :: es =>
      obtain ⟨-, more, isMore, entry⟩ := entries_cons_eq_ok_iff.mp written
      have ends := (lines_entries column false es isMore).after
      have atStart : Ready .root .start := ⟨by simp, fun _ => rfl⟩
      have behindMark : ∀ place, place ≠ .root → Ready place .inside :=
        fun place notRoot => ⟨by simp, fun root => absurd root notRoot⟩
      split at entry
      · obtain ⟨key, value, isKey, isValue, rfl⟩ := entry
        refine .inr ⟨_, rfl, by simp, ?_⟩
        rw [List.append_assoc, List.cons_append, after_append, after_cons,
          next_colon (after_dropLast (after_node atStart _ _ k isKey)), after_append,
          after_node (behindMark .value (by decide)) _ _ v isValue, ends]
      · obtain ⟨key, value, isKey, isValue, rfl⟩ := entry
        refine .inr ⟨_, rfl, by simp, ?_⟩
        have secondLine : start.after (spaces column ++ ':' :: value) = .start := by
          refine EndsLine.after_spaces ⟨by simp, ?_⟩ column
          exact after_node (behindMark .longValue (by decide)) _ _ v isValue
        change inside.after (key ++ (spaces column ++ ':' :: value) ++ more) = .start
        rw [after_append, after_append, after_node (behindMark .longKey (by decide)) _ _ k isKey,
          secondLine, ends]

end

/-- The text of a tree ends its last line, and no line begins with three dashes or dots. -/
theorem print_unmarked {v : Value} {text : String} (written : v.print = .ok text) :
    start.after text.toList = .start := by
  obtain ⟨lines, isText, rfl⟩ := Outcome.map_eq_ok_iff.mp written
  rw [String.toList_ofList]
  exact after_node ⟨by simp, fun _ => rfl⟩ _ _ v isText

end ChartInflation.Yaml.Printer
