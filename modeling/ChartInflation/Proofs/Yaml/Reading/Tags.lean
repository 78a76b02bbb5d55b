import ChartInflation.Proofs.Yaml.Printer.Ambiguity
import ChartInflation.Proofs.Yaml.Reading.Lexer
import ChartInflation.Yaml.Decoder

/-!
# Tags are read as they are written

How a tag is read depends on its own text only, whatever blank stands behind it
(`tagProperty_within`).  So each tag is written as one token or as none (`readTag?`), and where there
is one the lexer finds it wherever the tag stands in a block (`Lexer.gives_tag`).  Not every tag
survives this: some octets are written as they are that the reader does not take.
-/

set_option autoImplicit false

namespace ChartInflation.Yaml

def Mark.plus (m k : Mark) : Mark :=
  ⟨m.index + k.index, m.line + k.line, m.column + k.column⟩

def Read.within {α : Type} (m : Mark) (more : List Char) (x : Read α) : Read α :=
  ⟨x.item, m.plus x.mark, x.rest ++ more⟩

theorem tagProperty_block (mark : Mark) (text : List Char) : tagProperty false mark text =
    tagBody mark text >>= fun tag => if atSpacing tag.rest then .ok tag else .error .token := by
  unfold tagProperty
  congr 1
  funext tag
  split <;> rfl

section Within
variable {m : Mark} {more : List Char}

@[simp] theorem Mark.plus_next (k : Mark) : (m.plus k).next = m.plus k.next := by
  simp [Mark.plus, Mark.next]
  omega

@[simp] theorem Mark.plus_along (k : Mark) (width : Nat) :
    (⟨(m.plus k).index + width, (m.plus k).line, (m.plus k).column + width⟩ : Mark) =
      m.plus ⟨k.index + width, k.line, k.column + width⟩ := by
  simp [Mark.plus]
  omega

variable (spaced : atSpacing more)
include spaced

theorem not_isWord_of_spaced {c : Char} {rest : List Char} (begins : more = c :: rest) :
    isWord c = false := by
  subst begins
  simp only [atSpacing, Bool.or_eq_true, isGap_iff, isBreak_iff] at spaced
  rw [← Bool.not_eq_true, isWord_iff]
  omega

theorem word_within (k : Mark) (text : List Char) :
    word (m.plus k) (text ++ more) = (word k text).within m more := by
  induction text generalizing k with
  | nil =>
      cases more with
      | nil => rfl
      | cons c rest =>
          rw [List.nil_append, word, word, not_isWord_of_spaced spaced rfl]
          rfl
  | cons c text ih =>
      rw [List.cons_append, word, word]
      split
      · rw [Mark.plus_next, ih]
        rfl
      · rfl

theorem not_isTagCharacter_of_spaced {c : Char} {rest : List Char} (begins : more = c :: rest) :
    isTagCharacter c = false ∧ c ≠ '%' ∧ c ≠ ',' ∧ c ≠ '[' ∧ c ≠ ']' := by
  have noWord := not_isWord_of_spaced spaced begins
  subst begins
  simp only [atSpacing, Bool.or_eq_true, isGap_iff, isBreak_iff] at spaced
  simp [isTagCharacter, noWord, char_eq_iff]
  omega

theorem hexDigit?_of_spaced {c : Char} {rest : List Char} (begins : more = c :: rest) :
    hexDigit? c = none := by
  subst begins
  simp only [atSpacing, Bool.or_eq_true, isGap_iff, isBreak_iff] at spaced
  unfold hexDigit?
  simp only [char_le_iff]
  rw [if_neg, if_neg, if_neg]
  all_goals
    intro range
    have bounds : 48 ≤ c.toNat ∧ c.toNat ≤ 102 := ⟨by simp at range; omega, by simp at range; omega⟩
    omega

/-- A percent sign and fewer than two characters do not become an escape. -/
theorem tagText_short (wide : Bool) (owed : Nat) (mark : Mark) {rest : List Char}
    (short : ∀ a b more, rest = a :: b :: more → False) :
    tagText wide owed mark ('%' :: (rest ++ more)) = .error .token := by
  have blank : ∀ {c tail}, more = c :: tail → hexDigit? c = none :=
    fun begins => hexDigit?_of_spaced spaced begins
  rcases rest with _ | ⟨a, _ | ⟨b, rest⟩⟩
  · rcases more with _ | ⟨c, _ | ⟨d, tail⟩⟩
    · rfl
    · rfl
    · simp [tagText, blank rfl]
  · rcases more with _ | ⟨c, tail⟩
    · rfl
    · simp [tagText, blank rfl]
  · exact absurd rfl (short a b rest)

theorem tagText_within (wide : Bool) (owed : Nat) (k : Mark) (text : List Char) :
    tagText wide owed (m.plus k) (text ++ more) =
      Read.within m more <$> tagText wide owed k text := by
  have ends : ∀ {owed k}, tagText wide owed (m.plus k) more =
      if owed ≠ 0 then .error .token else .ok ⟨[], m.plus k, more⟩ := by
    intro owed k
    cases more with
    | nil => rfl
    | cons c rest =>
        have noTag := not_isTagCharacter_of_spaced spaced rfl
        rw [tagText]
        · simp [noTag]
        · intro a b more isEscape
          exact absurd isEscape noTag.2.1
  fun_induction tagText wide owed k text with
  | case2 mark a b rest high low isLow isHigh octet next left notNext ih =>
    simp only [List.cons_append, tagText, isLow, isHigh]
    rw [if_neg notNext]
    rfl
  | case6 owed k c rest noEscape isEscape =>
    obtain rfl := beq_iff_eq.mp isEscape
    exact tagText_short spaced wide owed _ fun a b rest isRest => noEscape a b rest rfl isRest
  | case11 | case12 => simp_all [Read.within]
  | case1 | case3 | case4 | case5 => simp_all +zetaDelta [tagText, Read.within]
  | _ =>
    rw [List.cons_append, tagText]
    · simp_all +zetaDelta [Read.within]
    · intro a b more isEscape
      simp_all

/-- Nothing but a tag's own text begins with a visible character. -/
theorem append_spaced_eq_cons {c : Char} (visible : isGap c = false ∧ isBreak c = false)
    {text rest : List Char} (begins : text ++ more = c :: rest) :
    ∃ tail, text = c :: tail ∧ rest = tail ++ more := by
  cases text with
  | nil =>
      rw [List.nil_append] at begins
      simp [begins, atSpacing, visible] at spaced
  | cons d tail =>
      obtain ⟨rfl, rfl⟩ := List.cons.inj begins
      exact ⟨tail, rfl, rfl⟩

theorem append_spaced_ne_cons {c : Char} (visible : isGap c = false ∧ isBreak c = false)
    {text : List Char} (other : ∀ tail, text ≠ c :: tail) : ∀ tail, text ++ more ≠ c :: tail := by
  intro tail begins
  obtain ⟨inner, isText, -⟩ := append_spaced_eq_cons spaced visible begins
  exact other inner isText

theorem verbatimTag_within (k : Mark) (rest : List Char) :
    tagBody (m.plus k) ('<' :: (rest ++ more)) = Read.within m more <$> tagBody k ('<' :: rest) := by
  simp only [tagBody, Mark.plus_next, tagText_within spaced]
  cases tagText true 0 k.next rest with
  | error f => rfl
  | ok suffix =>
      obtain ⟨item, mark, rest⟩ := suffix
      simp only [Read.within, Outcome.map_ok, Outcome.ok_bind]
      by_cases closes : ∃ tail, rest = '>' :: tail
      · obtain ⟨tail, rfl⟩ := closes
        cases item <;> simp [Read.within]
      · have notClosed : ∀ tail, rest ≠ '>' :: tail := fun tail isRest => closes ⟨tail, isRest⟩
        split
        · exact absurd ‹_› (append_spaced_ne_cons spaced (by decide) notClosed _)
        · split
          · exact absurd rfl (notClosed _)
          · rfl

theorem shorthandTag_within (k : Mark) {text : List Char} (shorthand : ∀ tail, text ≠ '<' :: tail) :
    tagBody (m.plus k) (text ++ more) = Read.within m more <$> tagBody k text := by
  rw [tagBody, tagBody]
  · simp only [word_within spaced, Read.within]
    by_cases named : ∃ tail, (word k text).rest = '!' :: tail
    · obtain ⟨tail, isRest⟩ := named
      simp only [isRest, List.cons_append, Mark.plus_next, tagText_within spaced]
      cases tagText false 0 (word k text).mark.next tail with
      | error f => rfl
      | ok suffix =>
          simp only [Outcome.map_ok, Outcome.ok_bind, Read.within]
          split <;> rfl
    · have unnamed : ∀ tail, (word k text).rest ≠ '!' :: tail := fun tail isRest =>
        named ⟨tail, isRest⟩
      split
      · exact absurd ‹_› (append_spaced_ne_cons spaced (by decide) unnamed _)
      · rw [tagText_within spaced]
        cases tagText false 0 k text <;> rfl
  · exact shorthand
  · exact append_spaced_ne_cons spaced (by decide) shorthand

theorem tagBody_within (k : Mark) (text : List Char) :
    tagBody (m.plus k) (text ++ more) = Read.within m more <$> tagBody k text := by
  by_cases verbatim : ∃ rest, text = '<' :: rest
  · obtain ⟨rest, rfl⟩ := verbatim
    exact verbatimTag_within spaced k rest
  · exact shorthandTag_within spaced k fun tail isText => verbatim ⟨tail, isText⟩

theorem tagProperty_within (k : Mark) (text : List Char) :
    tagProperty false (m.plus k) (text ++ more) = Read.within m more <$> tagProperty false k text := by
  have spacing : ∀ rest, atSpacing (rest ++ more) = atSpacing rest := by
    intro rest
    cases rest with
    | nil => exact spaced
    | cons c rest => rfl
  rw [tagProperty_block, tagProperty_block, tagBody_within spaced k text]
  cases tagBody k text with
  | error f => rfl
  | ok tag =>
      simp only [Outcome.map_ok, Outcome.ok_bind, Read.within, spacing]
      split <;> rfl

end Within

def Reaches (k : Mark) (text : List Char) (m : Mark) (rest : List Char) : Prop :=
  ∃ front, text = front ++ rest ∧ m = ⟨k.index + front.length, k.line, k.column + front.length⟩

section Reaches
variable {k m : Mark} {text rest : List Char}

theorem reaches_refl (k : Mark) (text : List Char) : Reaches k text k text :=
  ⟨[], rfl, rfl⟩

theorem Reaches.behind (front : List Char)
    (reaches : Reaches ⟨k.index + front.length, k.line, k.column + front.length⟩ text m rest) :
    Reaches k (front ++ text) m rest := by
  obtain ⟨more, rfl, rfl⟩ := reaches
  refine ⟨front ++ more, by simp, ?_⟩
  simp only [List.length_append, Nat.add_assoc]

theorem Reaches.trans {m' : Mark} {rest' : List Char} (first : Reaches k text m rest)
    (second : Reaches m rest m' rest') : Reaches k text m' rest' := by
  obtain ⟨front, rfl, rfl⟩ := first
  exact second.behind front

theorem word_reaches (k : Mark) (text : List Char) :
    Reaches k text (word k text).mark (word k text).rest := by
  induction text generalizing k with
  | nil => exact reaches_refl k []
  | cons c text ih =>
      rw [word]
      split
      · exact (ih k.next).behind [c]
      · exact reaches_refl k _

theorem tagText_reaches {wide : Bool} {owed : Nat} {x : Read Bytes}
    (read : tagText wide owed k text = .ok x) : Reaches k text x.mark x.rest := by
  fun_induction tagText wide owed k text generalizing x with
  | case1 mark a b | case3 mark a b =>
    rename_i ih
    rw [Outcome.pure_eq_ok, Outcome.ok_bind] at read
    obtain ⟨y, isRead, isValue⟩ := Outcome.bind_eq_ok_iff.mp read
    rw [← Except.ok.inj isValue]
    exact (ih _ isRead).behind ['%', a, b]
  | case8 owed mark c rest _ _ _ _ ih =>
    obtain ⟨y, isRead, isValue⟩ := Outcome.bind_eq_ok_iff.mp read
    rw [← Except.ok.inj isValue]
    exact (ih isRead).behind [c]
  | case10 => exact Except.ok.inj read ▸ reaches_refl _ _
  | case12 => exact Except.ok.inj read ▸ reaches_refl _ _
  | _ => cases read

theorem tagBody_reaches {x : Read (String × Bytes)} (read : tagBody k text = .ok x) :
    Reaches k text x.mark x.rest := by
  unfold tagBody at read
  split at read
  · obtain ⟨suffix, isSuffix, ends⟩ := Outcome.bind_eq_ok_iff.mp read
    have reached := (tagText_reaches isSuffix).behind ['<']
    split at ends
    · rename_i _ isRest
      rw [← Except.ok.inj ends]
      rw [isRest] at reached
      exact reached.trans ((reaches_refl _ _).behind ['>'])
    · cases ends
  · simp only at read
    split at read
    · rename_i isRest
      have reached := word_reaches k text
      rw [isRest] at reached
      obtain ⟨suffix, isSuffix, ends⟩ := Outcome.bind_eq_ok_iff.mp read
      split at ends
      · cases ends
      · rw [← Except.ok.inj ends]
        exact reached.trans ((tagText_reaches isSuffix).behind ['!'])
    · obtain ⟨suffix, isSuffix, ends⟩ := Outcome.bind_eq_ok_iff.mp read
      rw [← Except.ok.inj ends]
      exact tagText_reaches isSuffix

/-- A text without blanks is read whole or not at all. -/
theorem tagProperty_whole (closed : ∀ c ∈ text, isGap c = false ∧ isBreak c = false)
    {x : Read (String × Bytes)} (read : tagProperty false k text = .ok x) :
    x.rest = [] ∧ x.mark = ⟨k.index + text.length, k.line, k.column + text.length⟩ := by
  rw [tagProperty_block, Outcome.bind_eq_ok_iff] at read
  obtain ⟨tag, isTag, ends⟩ := read
  obtain ⟨front, rfl, isMark⟩ := tagBody_reaches isTag
  split at ends
  · rename_i spaced
    rw [← Except.ok.inj ends]
    cases isRest : tag.rest with
    | nil => exact ⟨rfl, by simpa using isMark⟩
    | cons c rest =>
        have visible := closed c (by simp [isRest])
        rw [isRest] at spaced
        simp [atSpacing, visible] at spaced
  · cases ends

end Reaches

/-! ## Tags of trees -/

def readTag? (tag : Tag) : Option (String × Bytes) :=
  ((tagProperty false ⟨0, 0, 0⟩ ((Printer.tagText tag).drop 1)).toOption).map (·.item)

def tagOctets? (tag : Tag) : Option Bytes :=
  (readTag? tag).bind fun t => (resolveTag standardHandles t.1 t.2).toOption

/-- A tag that is itself again after it was written and read. -/
def Tag.Readable (tag : Tag) : Prop :=
  localTag? (tagOctets? tag) = some tag

instance (tag : Tag) : Decidable tag.Readable :=
  inferInstanceAs (Decidable (_ = _))

def Value.Readable (v : Value) : Prop :=
  v.Everywhere fun w => ∀ tag u, w = .tagged tag u → tag.Readable

theorem Value.Untagged.readable {v : Value} (untagged : v.Untagged) : v.Readable :=
  untagged.imp fun _ here tag u isTagged => absurd isTagged (here tag u)

def tagTokens (tag? : Option Tag) : List Token :=
  ((tag?.bind readTag?).map fun t => Token.tag t.1 t.2).toList

theorem tagTokens_of_readTag? {tag : Tag} {t : String × Bytes} (isRead : readTag? tag = some t) :
    tagTokens (some tag) = [.tag t.1 t.2] := by
  simp [tagTokens, isRead]

def underTags (tag? : Option Tag) : Properties :=
  ⟨none, tag?.bind tagOctets?⟩

theorem Tag.Readable.exists_token {tag : Tag} (readable : tag.Readable) :
    ∃ handle suffix octets, readTag? tag = some (handle, suffix) ∧
      resolveTag standardHandles handle suffix = .ok octets ∧ tagOctets? tag = some octets ∧
      localTag? (some octets) = some tag := by
  unfold Tag.Readable at readable
  cases isOctets : tagOctets? tag with
  | none =>
      rw [isOctets] at readable
      cases readable
  | some octets =>
      rw [isOctets] at readable
      obtain ⟨⟨handle, suffix⟩, isRead, resolved⟩ := Option.bind_eq_some_iff.mp isOctets
      exact ⟨handle, suffix, octets, isRead, Outcome.toOption_eq_some_iff.mp resolved, rfl, readable⟩

theorem Tag.Readable.isSome {tag : Tag} (readable : tag.Readable) : (readTag? tag).isSome := by
  obtain ⟨handle, suffix, octets, isRead, -⟩ := readable.exists_token
  exact Option.isSome_iff_exists.mpr ⟨_, isRead⟩

theorem tagText_closed (tag : Tag) :
    ∀ c ∈ Printer.tagText tag, isGap c = false ∧ isBreak c = false := by
  intro c member
  have inTag := Printer.tagText_inTag tag c member
  unfold Printer.InTag at inTag
  constructor
  · rw [← Bool.not_eq_true, isGap_iff]
    omega
  · rw [← Bool.not_eq_true, isBreak_iff]
    omega

/-- A tag is read the same way wherever it stands. -/
theorem tagProperty_written {tag : Tag} {t : String × Bytes} (read : readTag? tag = some t)
    {more : List Char} (spaced : atSpacing more) {text : List Char}
    (isText : Printer.tagText tag = '!' :: text) (m : Mark) :
    tagProperty false m (text ++ more) = .ok ⟨t, m.through text, more⟩ := by
  obtain ⟨x, isRead, rfl⟩ := Option.map_eq_some_iff.mp read
  rw [isText, List.drop_one, List.tail_cons, Outcome.toOption_eq_some_iff] at isRead
  have closed : ∀ c ∈ text, isGap c = false ∧ isBreak c = false :=
    fun c member => tagText_closed tag c (isText ▸ List.mem_cons_of_mem _ member)
  obtain ⟨noRest, isMark⟩ := tagProperty_whole closed isRead
  have placed := tagProperty_within (m := m) spaced ⟨0, 0, 0⟩ text
  rw [isRead, Outcome.map_ok] at placed
  rw [Mark.through_of_line m fun c member => (closed c member).2]
  simpa [Read.within, noRest, isMark, Mark.plus] using placed

namespace Lexer

theorem token_bang (s : Lexer) (rest : List Char) : token s '!' rest = s.tagToken := by
  simp [token]

theorem gives_tag {b : Blocks} {mark : Mark} {candidate : Option Candidate} {keyAllowed : Bool}
    {rest : List Char} {ts : List Token} {tag : Tag} (isRead : (readTag? tag).isSome)
    (spaced : atSpacing rest) (le : b.indent ≤ mark.column)
    (passed : keyAllowed → Passed candidate mark)
    (gives : (block (b.add (tagTokens (some tag))) (mark.through (Printer.tagText tag))
      (saved b mark candidate keyAllowed) false rest).Gives ts) :
    (block b mark candidate keyAllowed (Printer.tagText tag ++ rest)).Gives ts := by
  obtain ⟨⟨handle, suffix⟩, isRead⟩ := Option.isSome_iff_exists.mp isRead
  obtain ⟨text, isText⟩ := Printer.tagText_begins tag
  rw [tagTokens_of_readTag? isRead, isText, Mark.through, show isBreak '!' = false from rfl,
    if_neg (by decide)] at gives
  rw [isText, List.cons_append]
  refine gives_of_token (by decide) rfl ?_ (List.suffix_append _ _) gives
  rw [block_mark, closeBlocks_block, Blocks.closed_of_le b le, token_bang, tagToken,
    saveCandidate_passed passed, Outcome.ok_bind]
  change (tagProperty false mark.next (text ++ rest) >>= _) = _
  rw [tagProperty_written isRead spaced isText]
  rfl

end Lexer

end ChartInflation.Yaml
