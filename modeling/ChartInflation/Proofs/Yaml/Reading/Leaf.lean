import ChartInflation.Proofs.Yaml.Printer.Ambiguity
import ChartInflation.Proofs.Yaml.Reading.Inline

/-!
# Leaves

A string that is not a literal block is written as a node on one line (`inline_string`), and so are
all other scalars and the empty collections.  A simple key is such a node, and its text is short
enough for the colon behind it to be found (`inline_key`).
-/

set_option autoImplicit false

namespace ChartInflation.Yaml.Printer

/-! ## How long a key is -/

section Length

theorem length_hexDigits (width n : Nat) : (hexDigits width n).length = width := by
  induction width generalizing n with
  | zero => rfl
  | succ width ih => rw [hexDigits, List.length_append, ih, List.length_singleton]

/-- An escape takes at most four characters for each octet of the character it stands for. -/
theorem length_escape_le (c : Char) : (escape c).length ≤ 4 * c.utf8Size := by
  have positive : 0 < c.utf8Size := c.utf8Size_pos
  have choose : ∀ {p : Prop} [Decidable p] {a b : List Char}, a.length ≤ 4 →
      (¬ p → b.length ≤ 4 * c.utf8Size) → (if p then a else b).length ≤ 4 * c.utf8Size := by
    intro p _ a b short no
    split
    · omega
    · exact no ‹_›
  unfold escape
  iterate 14 refine choose (by decide) fun _ => ?_
  refine choose ?_ fun more => ?_
  · rw [List.length_append, length_hexDigits]
    rfl
  have atLeast : 2 ≤ c.utf8Size := by
    have notOne : c.utf8Size ≠ 1 := by
      rw [Ne, Char.utf8Size_eq_one_iff, UInt32.le_iff_toNat_le]
      change ¬ c.toNat ≤ 127
      omega
    omega
  have widest : ¬ c.toNat ≤ 0xFFFF → c.utf8Size = 4 := by
    intro wide
    rw [Char.utf8Size_eq_four_iff, UInt32.lt_iff_toNat_lt]
    change 65535 < c.toNat
    omega
  split
  · rw [List.length_append, length_hexDigits]
    change 2 + 4 ≤ _
    omega
  · rw [List.length_append, length_hexDigits]
    change 2 + 8 ≤ _
    rw [widest ‹_›]
    decide

theorem length_encode_cons (c : Char) (text : List Char) :
    (Utf8.encode (c :: text)).length = c.utf8Size + (Utf8.encode text).length := by
  rw [Utf8.encode, List.flatMap_cons, List.length_append, String.length_utf8EncodeChar]
  rfl

theorem length_le_encode (text : List Char) : text.length ≤ (Utf8.encode text).length := by
  induction text with
  | nil => exact le_rfl
  | cons c text ih =>
      have positive := c.utf8Size_pos
      rw [length_encode_cons, List.length_cons]
      omega

theorem length_doubleQuotedBody_le (text : List Char) :
    (doubleQuotedBody text).length ≤ 4 * (Utf8.encode text).length := by
  induction text with
  | nil => exact le_rfl
  | cons c text ih =>
      have positive := c.utf8Size_pos
      have escaped := length_escape_le c
      rw [doubleQuotedBody, List.flatMap_cons, ← doubleQuotedBody, List.length_append,
        length_encode_cons]
      split
      · omega
      · rw [List.length_singleton]
        omega

end Length

theorem singleQuotedBody_line {indent : Nat} {text : List Char}
    (goesOn : ∀ c ∈ text, isBreak c = false) :
    (∀ c ∈ singleQuotedBody indent false text, isBreak c = false) ∧
      (singleQuotedBody indent false text).length ≤ 2 * text.length := by
  induction text with
  | nil => exact ⟨List.forall_mem_nil _, le_rfl⟩
  | cons c text ih =>
      rw [List.forall_mem_cons] at goesOn
      obtain ⟨stays, short⟩ := ih goesOn.2
      rw [singleQuotedBody, goesOn.1]
      simp only [Bool.false_eq_true, if_false, List.nil_append, List.length_append,
        List.forall_mem_append, List.length_cons]
      split
      · exact ⟨⟨goesOn_of_all (by decide), stays⟩, by simp; omega⟩
      · exact ⟨⟨by simpa using goesOn.1, stays⟩, by simp; omega⟩

/-! ## Leaves on one line -/

theorem plain_word {text : List Char}
    (word : text = "null".toList ∨ text = "true".toList ∨ text = "false".toList) : Plain text := by
  rcases word with rfl | rfl | rfl
  · exact ⟨goesOn_of_all (by decide), by decide, ⟨'n', _, rfl, by decide⟩,
      ⟨['n', 'u', 'l'], 'l', rfl, by decide⟩, by decide, by decide⟩
  · exact ⟨goesOn_of_all (by decide), by decide, ⟨'t', _, rfl, by decide⟩,
      ⟨['t', 'r', 'u'], 'e', rfl, by decide⟩, by decide, by decide⟩
  · exact ⟨goesOn_of_all (by decide), by decide, ⟨'f', _, rfl, by decide⟩,
      ⟨['f', 'a', 'l', 's'], 'e', rfl, by decide⟩, by decide, by decide⟩

theorem inline_string {s : String} (notLiteral : styleOf s ≠ .literal) (indent : Nat) :
    ∃ text, Inline text [.scalar (styleOf s) s] ∧ stringLine indent s = text ++ ['\n'] ∧
      ((∀ c ∈ s.toList, isBreak c = false) → (∀ c ∈ text, isBreak c = false) ∧
        text.length ≤ 4 * (Utf8.encode s.toList).length + 2) := by
  have fits := fits_styleOf s
  have octets := length_le_encode s.toList
  unfold stringLine
  generalize styleOf s = style at fits notLiteral ⊢
  cases style with
  | plain =>
      have inline := Inline.plain (plain_of_fits (nonempty_of_plain fits.2.1) fits.2.2)
      rw [String.ofList_toList] at inline
      exact ⟨_, inline, rfl, fun goesOn => ⟨goesOn, by omega⟩⟩
  | singleQuoted =>
      have inline := Inline.singleQuoted indent (fitsSingle fits.1 fits.2)
      rw [String.ofList_toList] at inline
      refine ⟨_, inline, by simp, fun goesOn => ?_⟩
      obtain ⟨stays, short⟩ := @singleQuotedBody_line indent _ goesOn
      rw [List.forall_mem_cons, List.forall_mem_append]
      refine ⟨⟨by decide, stays, goesOn_of_all (by decide)⟩, ?_⟩
      simp
      omega
  | literal => exact absurd rfl notLiteral
  | folded => exact fits.elim
  | doubleQuoted =>
      have inline := Inline.doubleQuoted s.toList
      rw [String.ofList_toList] at inline
      refine ⟨_, inline, rfl, fun _ => ⟨?_, ?_⟩⟩
      · exact doubleQuoted_goesOn s.toList
      · have short := length_doubleQuotedBody_le s.toList
        simp
        omega

/-! ## Tags -/

def tagFront : Option Tag → List Char
  | none => []
  | some tag => tagText tag ++ [' ']

theorem line_eq (place : Place) (tag? : Option Tag) (text : List Char) :
    line place tag? text = place.gap ++ (tagFront tag? ++ text) := by
  cases tag? with
  | none => rfl
  | some tag => simp [line, tagFront]

theorem tagFront_goesOn (tag? : Option Tag) : ∀ c ∈ tagFront tag?, isBreak c = false := by
  cases tag? with
  | none => exact List.forall_mem_nil _
  | some tag =>
      rw [tagFront, List.forall_mem_append]
      exact ⟨tagText_goesOn tag, goesOn_of_all (by decide)⟩

def FrontReadable (tag? : Option Tag) : Prop :=
  ∀ tag ∈ tag?, tag.Readable

theorem frontReadable_none : FrontReadable none := by
  simp [FrontReadable]

theorem frontReadable_some {tag : Tag} (readable : tag.Readable) : FrontReadable (some tag) :=
  fun _ isTag => Option.some.inj isTag ▸ readable

theorem inline_underTag {tag? : Option Tag} (readable : FrontReadable tag?) {text : List Char}
    {us : List Token} (inline : Inline text us) :
    Inline (tagFront tag? ++ text) (tagTokens tag? ++ us) := by
  cases tag? with
  | none => exact inline
  | some tag =>
      rw [tagFront, List.append_assoc]
      exact inline.tagged (readable tag rfl)

theorem length_tagSuffix_le (text : List Char) :
    (tagSuffix text).length ≤ 3 * (Utf8.encode text).length := by
  unfold tagSuffix
  induction Utf8.encode text with
  | nil => exact le_rfl
  | cons b octets ih =>
      rw [List.flatMap_cons, List.length_append, List.length_cons]
      split
      · rw [List.length_singleton]
        omega
      · rw [List.length_cons, length_hexDigits]
        omega

/-- A tag takes at most three characters for each octet of its name, and four for brackets. -/
theorem length_tagText_le (tag : Tag) :
    (tagText tag).length ≤ 3 * (Utf8.encode (tagName tag)).length + 4 := by
  unfold tagText
  split
  · rename_i c rest isName
    have short := length_tagSuffix_le (c :: rest)
    rw [isName, length_encode_cons, List.length_cons]
    omega
  · have short := length_tagSuffix_le (tagName tag)
    simp only [List.length_append]
    have brackets : ("!<".toList).length = 2 ∧ ['>'].length = 1 := ⟨rfl, rfl⟩
    omega

/-! ## Tokens of trees -/

def isFlat (place : Place) (tag? : Option Tag) : Bool :=
  place.inMapping && !isCompact place tag?

def keyPlace (key : Value) : Place :=
  if isSimpleKey key then .root else .longKey

def valuePlace (key : Value) : Place :=
  if isSimpleKey key then .value else .longValue

mutual

/-- The tokens of a node behind what `place` tells, under the tag `tag?`.  A sequence that stands
flat is neither opened nor closed. -/
def nodeTokens (place : Place) (tag? : Option Tag) : Value → List Token
  | .null => tagTokens tag? ++ [.scalar .plain "null"]
  | .bool b => tagTokens tag? ++ [.scalar .plain (if b then "true" else "false")]
  | .number n => tagTokens tag? ++ [.scalar .plain (String.ofList (numberText n))]
  | .string s => tagTokens tag? ++ [.scalar (styleOf s) s]
  | .sequence [] => tagTokens tag? ++ [.flowSequenceStart, .flowSequenceEnd]
  | .mapping [] => tagTokens tag? ++ [.flowMappingStart, .flowMappingEnd]
  | .sequence (v :: vs) => tagTokens tag? ++
      if isFlat place tag? then itemTokens (v :: vs)
      else .blockSequenceStart :: (itemTokens (v :: vs) ++ [.blockEnd])
  | .mapping (e :: es) => tagTokens tag? ++
      .blockMappingStart :: (entryTokens (e :: es) ++ [.blockEnd])
  | .tagged tag v => nodeTokens place (some tag) v

def itemTokens : List Value → List Token
  | [] => []
  | v :: vs => .blockEntry :: (nodeTokens .item none v ++ itemTokens vs)

def entryTokens : List (Value × Value) → List Token
  | [] => []
  | (k, v) :: es => .key :: (nodeTokens (keyPlace k) none k ++
      .value :: (nodeTokens (valuePlace k) none v ++ entryTokens es))

end

theorem isSimpleKey_iff (k : Value) : isSimpleKey k ↔ ∃ n, simpleKeySize? k = some n ∧ n ≤ 128 := by
  unfold isSimpleKey
  split
  · rename_i n size
    simp [size]
  · rename_i size
    simp [size]

/-- What stands on one line may stand there behind a tag. -/
theorem inline_ofLine {tag? : Option Tag} (readable : FrontReadable tag?) {k : Value} {size : Nat}
    {text key : List Char} {us : List Token} (inline : Inline text us)
    (goesOn : ∀ c ∈ text, isBreak c = false) (short : text.length ≤ size)
    (isKey : line .root tag? (text ++ ['\n']) = key)
    (isTokens : nodeTokens .root tag? k = tagTokens tag? ++ us) :
    ∃ text, Inline text (nodeTokens .root tag? k) ∧ key = text ++ ['\n'] ∧
      (∀ c ∈ text, isBreak c = false) ∧ text.length ≤ (tagFront tag?).length + size := by
  rw [line_eq] at isKey
  refine ⟨_, isTokens ▸ inline_underTag readable inline, by simp [← isKey, Place.gap],
    List.forall_mem_append.mpr ⟨tagFront_goesOn tag?, goesOn⟩, ?_⟩
  rw [List.length_append]
  omega

/-- A node that a simple key may be is a node on one line, and not much longer than its size. -/
theorem inline_simple {k : Value} {n : Nat} (size : simpleKeySize? k = some n) {tag? : Option Tag}
    (readable : FrontReadable tag?) (bare : ∀ tag u, k ≠ .tagged tag u) {column : Nat}
    {key : List Char} (written : node .root (some column) tag? k = .ok key) :
    ∃ text, Inline text (nodeTokens .root tag? k) ∧ key = text ++ ['\n'] ∧
      (∀ c ∈ text, isBreak c = false) ∧ text.length ≤ (tagFront tag?).length + (4 * n + 5) := by
  cases k with
  | null =>
      have plain := plain_word (.inl rfl)
      exact inline_ofLine readable (.plain plain) plain.goesOn (by simp) (Except.ok.inj written) rfl
  | bool b =>
      have plain : Plain (if b then "true" else "false").toList :=
        plain_word (by cases b <;> simp)
      have inline := Inline.plain plain
      rw [String.ofList_toList] at inline
      refine inline_ofLine readable inline plain.goesOn ?_ ?_ rfl
      · cases b <;> simp
      · rw [← Except.ok.inj written]
        cases b <;> rfl
  | number m =>
      have plain := plain_numberText m
      refine inline_ofLine readable (.plain plain) plain.goesOn ?_ (Except.ok.inj written) rfl
      rw [← Option.some.inj size]
      omega
  | string s =>
      rw [simpleKeySize?] at size
      split at size
      · cases size
      · rename_i noBreaks
        have goesOn : ∀ c ∈ s.toList, isBreak c = false := by simpa using noBreaks
        -- literal style is for strings with line breaks only
        have notLiteral : styleOf s ≠ .literal := by
          intro literal
          have fits := fits_styleOf s
          rw [literal] at fits
          cases goesOn _ fits.1
        obtain ⟨text, inline, isLine, oneLine⟩ := inline_string notLiteral (scalarColumn (some column))
        refine inline_ofLine readable inline (oneLine goesOn).1 ?_ ?_ rfl
        · have bound := (oneLine goesOn).2
          rw [Option.some.inj size] at bound
          omega
        · rw [← Except.ok.inj written, isLine]
  | sequence vs =>
      cases vs with
      | nil =>
          exact inline_ofLine readable .sequence (goesOn_of_all (by decide)) (by simp)
            (Except.ok.inj written) rfl
      | cons v vs => cases size
  | mapping es =>
      cases es with
      | nil =>
          exact inline_ofLine readable .mapping (goesOn_of_all (by decide)) (by simp)
            (Except.ok.inj written) rfl
      | cons e es => cases size
  | tagged tag u => exact absurd rfl (bare tag u)

theorem inline_key {k : Value} (readable : k.Readable) (simple : isSimpleKey k) {column : Nat}
    {key : List Char} (written : node .root (some column) none k = .ok key) :
    ∃ text, Inline text (nodeTokens .root none k) ∧ key = text ++ ['\n'] ∧
      (∀ c ∈ text, isBreak c = false) ∧ text.length ≤ 1024 := by
  obtain ⟨n, size, short⟩ := (isSimpleKey_iff k).mp simple
  by_cases bare : ∀ tag u, k ≠ .tagged tag u
  · obtain ⟨text, inline, isKey, goesOn, bound⟩ :=
      inline_simple size frontReadable_none bare written
    refine ⟨text, inline, isKey, goesOn, ?_⟩
    rw [tagFront, List.length_nil] at bound
    omega
  · push Not at bare
    obtain ⟨tag, u, rfl⟩ := bare
    obtain ⟨m, innerSize, rfl⟩ := Option.map_eq_some_iff.mp size
    have here : tag.Readable := by
      cases readable with
      | tagged here _ => exact here tag u rfl
    have innerBare : ∀ tag' w, u ≠ .tagged tag' w := by
      rintro tag' w rfl
      cases written
    obtain ⟨text, inline, isKey, goesOn, bound⟩ :=
      inline_simple innerSize (frontReadable_some here) innerBare written
    have tagShort := length_tagText_le tag
    refine ⟨text, inline, isKey, goesOn, ?_⟩
    rw [tagFront, List.length_append, List.length_singleton] at bound
    omega

end ChartInflation.Yaml.Printer
