import ChartInflation.Proofs.Yaml.Moving
import ChartInflation.Proofs.Yaml.Printer.Unmarked

/-!
# Plain scalars are read as they are written

A text of one line that begins like a plain scalar and holds neither the end of a key nor the
beginning of a comment is read whole, up to the colon behind a key (`plainScalar_key`) or to what
stands on the lines behind it (`plainScalar_line`).
-/

set_option autoImplicit false

namespace ChartInflation.Yaml

def Mark.through (m : Mark) : List Char → Mark
  | [] => m
  | c :: rest => (if isBreak c then m.newLine 1 else m.next).through rest

namespace Mark
variable (m : Mark)

theorem through_append (text more : List Char) :
    m.through (text ++ more) = (m.through text).through more := by
  induction text generalizing m with
  | nil => rfl
  | cons c text ih => exact ih _

theorem line_le_through (text : List Char) : m.line ≤ (m.through text).line := by
  induction text generalizing m with
  | nil => exact le_rfl
  | cons c text ih =>
      refine le_trans ?_ (ih _)
      split
      · exact Nat.le_succ _
      · exact le_rfl

theorem through_of_line {text : List Char} (goesOn : ∀ c ∈ text, isBreak c = false) :
    m.through text = ⟨m.index + text.length, m.line, m.column + text.length⟩ := by
  induction text generalizing m with
  | nil => rfl
  | cons c text ih =>
      rw [List.forall_mem_cons] at goesOn
      rw [through, goesOn.1, if_neg (by decide), ih _ goesOn.2]
      simp only [next, List.length_cons]
      congr 1 <;> omega

theorem through_spaces (n : Nat) :
    m.through (Printer.spaces n) = ⟨m.index + n, m.line, m.column + n⟩ := by
  rw [through_of_line m, Printer.spaces, List.length_replicate]
  intro c member
  rw [List.eq_of_mem_replicate member]
  decide

end Mark

def isVisible (c : Char) : Bool :=
  !isGap c && !isBreak c && c != '#' && c != '\uFEFF'

/-- What stands on the lines behind a node inside a collection in column `indent`: nothing, or
behind some spaces what goes on with a collection around it. -/
inductive Follows (indent : Int) : Nat → List Char → Prop
  | nothing : Follows indent 0 []
  | line {column : Nat} {c : Char} {rest : List Char} (column_le : (column : Int) ≤ indent)
      (visible : isVisible c) : Follows indent column (c :: rest)

theorem Follows.mono {inner outer : Int} {column : Nat} {rest : List Char}
    (follows : Follows outer column rest) (le : outer ≤ inner) : Follows inner column rest := by
  cases follows with
  | nothing => exact .nothing
  | line column_le visible => exact .line (column_le.trans le) visible

section Visible
variable {c : Char} (visible : isVisible c)
include visible

theorem isGap_of_isVisible : isGap c = false := by
  simp only [isVisible, Bool.and_eq_true, Bool.not_eq_true'] at visible
  exact visible.1.1.1

theorem isBreak_of_isVisible : isBreak c = false := by
  simp only [isVisible, Bool.and_eq_true, Bool.not_eq_true'] at visible
  exact visible.1.1.2

theorem ne_of_isVisible {d : Char} (hidden : isVisible d = false) : c ≠ d := by
  rintro rfl
  rw [visible] at hidden
  cases hidden

end Visible

/-! ## Texts that may stand plain -/

structure Plain (text : List Char) : Prop where
  goesOn : ∀ c ∈ text, isBreak c = false
  begins : Printer.beginsAsIndicator text = false
  first : ∃ c rest, text = c :: rest ∧ isVisible c
  last : ∃ front c, text = front ++ [c] ∧ isGap c = false
  noColon : Printer.hasInnerColon text = false
  noComment : Printer.hasInnerComment text = false

theorem notPair_of_goesOn {c : Char} (goesOn : isBreak c = false) (rest : List Char) :
    ∀ more, c = '\r' → rest = '\n' :: more → False := by
  rintro more rfl
  cases goesOn

theorem anyPair_cons {p : Char → Char → Bool} {c : Char} {text : List Char}
    (noPair : Printer.anyPair p (c :: text) = false) :
    Printer.firstIs (p c) text = false ∧ Printer.anyPair p text = false := by
  cases text with
  | nil => exact ⟨rfl, rfl⟩
  | cons d text => exact Bool.or_eq_false_iff.mp noPair

/-- A text without a character of one kind in front of one of another kind. -/
theorem firstIs_of_anyPair {p q : Char → Bool} {c : Char} {text : List Char}
    (noPair : Printer.anyPair (fun a b => p a && q b) (c :: text) = false) (isKind : p c) :
    Printer.firstIs q text = false := by
  have behind := (anyPair_cons noPair).1
  cases text with
  | nil => rfl
  | cons d text => simpa [Printer.firstIs, isKind] using behind

theorem hasInnerColon_cons {c : Char} {text : List Char}
    (noColon : Printer.hasInnerColon (c :: text) = false) :
    (c = ':' → atSpacing text = false) ∧ Printer.hasInnerColon text = false := by
  by_cases colon : c = ':'
  · subst colon
    obtain ⟨apart, behind⟩ := Bool.or_eq_false_iff.mp noColon
    exact ⟨fun _ => apart, behind⟩
  · refine ⟨fun same => absurd same colon, ?_⟩
    rw [Printer.hasInnerColon] at noColon
    · exact noColon
    · exact colon

structure GoesPlain (text : List Char) : Prop where
  goesOn : ∀ c ∈ text, isBreak c = false
  last : ∃ front c, text = front ++ [c] ∧ isGap c = false
  noColon : Printer.hasInnerColon text = false
  noComment : Printer.hasInnerComment text = false

theorem Plain.goesPlain {text : List Char} (plain : Plain text) : GoesPlain text :=
  ⟨plain.goesOn, plain.last, plain.noColon, plain.noComment⟩

namespace GoesPlain
variable {c d : Char} {text : List Char}

theorem not_nil : ¬ GoesPlain [] := by
  rintro ⟨-, ⟨front, c, same, -⟩, -, -⟩
  simp at same

theorem isGap_of_singleton (plain : GoesPlain [c]) : isGap c = false := by
  obtain ⟨front, d, same, noGap⟩ := plain.last
  cases front with
  | nil => rwa [(List.cons.inj same).1]
  | cons _ front => simp at same

theorem tail (plain : GoesPlain (c :: d :: text)) : GoesPlain (d :: text) where
  goesOn e member := plain.goesOn e (List.mem_cons_of_mem _ member)
  last := by
    obtain ⟨front, e, same, noGap⟩ := plain.last
    cases front with
    | nil => simp at same
    | cons _ front => exact ⟨front, e, (List.cons.inj same).2, noGap⟩
  noColon := (hasInnerColon_cons plain.noColon).2
  noComment := (anyPair_cons plain.noComment).2

/-- The colon of a key does not stand inside the text. -/
theorem noEnd (plain : GoesPlain (c :: text)) (rest : List Char) :
    (c == ':' && atSpacing (text ++ rest)) = false := by
  rw [Bool.and_eq_false_iff]
  by_cases colon : c = ':'
  · have apart := (hasInnerColon_cons plain.noColon).1 colon
    cases text with
    | nil => cases apart
    | cons d text => exact .inr apart
  · exact .inl (by simpa using colon)

theorem notComment (plain : GoesPlain (c :: text)) (gap : isGap c) :
    Printer.firstIs (· == '#') text = false :=
  firstIs_of_anyPair (p := fun c => isGap c || isBreak c) plain.noComment (by simp [gap])

end GoesPlain

theorem Gap.addSpace_of_line {held : Gap} (oneLine : held.isLines = false) (c : Char) :
    (held.addSpace c).isLines = false ∧ (held.addSpace c).text = held.text ++ [c] := by
  cases held with
  | none => exact ⟨rfl, rfl⟩
  | spaces held => exact ⟨rfl, by simp [Gap.addSpace, Gap.text]⟩
  | lines first more => cases oneLine

/-- A plain scalar goes on over a text that it may hold.  Blanks in front of the text are held
back. -/
theorem plainScalar_through {indent : Int} (mark : Mark) {held : Gap} {read text : List Char}
    (oneLine : held.isLines = false) (plain : GoesPlain text)
    (begins : held ≠ .none → Printer.firstIs (· == '#') text = false) (rest : List Char) :
    plainScalar ⟨false, indent⟩ mark held read (text ++ rest) =
      plainScalar ⟨false, indent⟩ (mark.through text) .none
        (text.reverse ++ (held.text.reverse ++ read)) rest := by
  induction text generalizing mark held read with
  | nil => exact absurd plain GoesPlain.not_nil
  | cons c text ih =>
      have goesOn := plain.goesOn c (List.mem_cons_self ..)
      rw [List.cons_append, plainScalar_cons _ _ _ rfl (notPair_of_goesOn goesOn _), Mark.through,
        goesOn]
      simp only [Bool.false_eq_true, if_false, oneLine, Bool.false_and]
      by_cases gap : isGap c
      · obtain ⟨stillOne, added⟩ := Gap.addSpace_of_line oneLine c
        rw [if_pos gap]
        cases text with
        | nil => simp [plain.isGap_of_singleton] at gap
        | cons d text =>
            rw [ih _ stillOne plain.tail (fun _ => plain.notComment gap), added]
            simp
      · have noHash : (c == '#' && held != .none) = false := by
          by_cases nothing : held = .none
          · simp [nothing]
          · simp [show (c == '#') = false from begins nothing]
        rw [if_neg gap, noHash]
        simp only [Bool.and_false, Bool.false_and, Bool.false_eq_true, if_false,
          plain.noEnd rest, Bool.or_false]
        cases text with
        | nil => rfl
        | cons d text =>
            rw [ih _ rfl plain.tail (by simp)]
            simp [Gap.text]

section Plain
variable {text : List Char} (plain : Plain text) (indent : Int) (mark : Mark)
include plain

theorem plainScalar_key {rest : List Char} (spaced : atSpacing rest) :
    plainScalar ⟨false, indent⟩ mark .none [] (text ++ ':' :: rest) =
      .ok ⟨text, mark.through text, ':' :: rest, false⟩ := by
  rw [plainScalar_through mark rfl plain.goesPlain (by simp),
    plainScalar_cons _ _ _ rfl (by simp)]
  simp [show isBreak ':' = false from rfl, show isGap ':' = false from rfl, Gap.isLines, Gap.text,
    spaced]

/-- A scalar on a line of its own ends at what follows, which is indented less than it could be. -/
theorem plainScalar_line {column : Nat} {rest : List Char} (follows : Follows indent column rest) :
    plainScalar ⟨false, indent + 1⟩ mark .none [] (text ++ '\n' :: (Printer.spaces column ++ rest)) =
      .ok ⟨text, mark.through (text ++ '\n' :: Printer.spaces column), rest, true⟩ := by
  rw [plainScalar_through mark rfl plain.goesPlain (by simp),
    plainScalar_cons _ _ _ rfl (by simp), if_pos (show isBreak '\n' = true from rfl),
    Mark.through_append, Mark.through, if_pos (show isBreak '\n' = true from rfl),
    Mark.through_spaces]
  generalize (mark.through text) = behind
  -- Spaces behind the break change nothing but the column.
  have skip : ∀ n (m : Mark), plainScalar ⟨false, indent + 1⟩ m (.lines ['\n'] []) text.reverse
      (Printer.spaces n ++ rest) = plainScalar ⟨false, indent + 1⟩
        ⟨m.index + n, m.line, m.column + n⟩ (.lines ['\n'] []) text.reverse rest := by
    intro n
    induction n with
    | zero => exact fun m => rfl
    | succ n ih =>
        intro m
        rw [Printer.spaces, List.replicate_succ, List.cons_append,
          plainScalar_cons _ _ _ rfl (by simp)]
        simp only [show isBreak ' ' = false from rfl, show isGap ' ' = true from rfl,
          show (' ' == '\t') = false from rfl, Bool.and_false, Bool.false_eq_true, if_false, if_true]
        refine (ih m.next).trans ?_
        simp only [Mark.next, Nat.add_assoc, Nat.add_comm 1]
  rw [List.append_nil, Gap.text, List.reverse_nil, List.append_nil]
  change plainScalar _ (behind.newLine 1) (.lines ['\n'] []) _ _ = _
  rw [skip]
  cases follows with
  | nothing => simp [plainScalar, Gap.isLines]
  | line column_le visible =>
      have goesOn := isBreak_of_isVisible visible
      rw [plainScalar_cons _ _ _ rfl (notPair_of_goesOn goesOn _)]
      have less : ((behind.newLine 1).column + column : Int) < indent + 1 := by
        simp only [Mark.newLine]
        omega
      simp [goesOn, isGap_of_isVisible visible, Gap.isLines, less]

end Plain

/-! ## What is written plain -/

namespace Printer

theorem hasInnerColon_of_drop {text : List Char} (begins : beginsAsIndicator text = false)
    (inner : hasInnerColon (text.drop 1) = false) : hasInnerColon text = false := by
  unfold hasInnerColon
  split
  · rename_i rest
    rw [Bool.or_eq_false_iff]
    refine ⟨?_, inner⟩
    simpa [beginsAsIndicator] using begins
  · exact inner
  · rfl

theorem plain_of_fits {text : List Char} (some : text ≠ []) (fits : fitsPlain text) :
    Plain text := by
  simp only [fitsPlain, Bool.and_eq_true, Bool.not_eq_true'] at fits
  obtain ⟨⟨⟨⟨⟨⟨noEscapes, noBreaks⟩, first⟩, last⟩, begins⟩, noColon⟩, noComment⟩ := fits
  have goesOn : ∀ c ∈ text, isBreak c = false := by simpa using noBreaks
  have printable : ∀ c ∈ text, isPrintable c := by
    have printable := (Bool.or_eq_false_iff.mp noEscapes).1
    simpa using printable
  have noGap : ∀ c ∈ text, isSpaceOrBreak c = false → isGap c = false := by
    intro c member spaceless
    have isPrintable := (isPrintable_iff c).mp (printable c member)
    rw [← Bool.not_eq_true, isGap_iff]
    simp [isSpaceOrBreak, char_eq_iff] at spaceless
    omega
  refine ⟨goesOn, begins, ?_, ?_, hasInnerColon_of_drop begins noColon, noComment⟩
  · obtain ⟨c, rest, rfl⟩ := List.exists_cons_of_ne_nil some
    refine ⟨c, rest, rfl, ?_⟩
    have member : c ∈ c :: rest := List.mem_cons_self ..
    have isPrintable := (isPrintable_iff c).mp (printable c member)
    have noHash : c ≠ '#' := by
      rintro rfl
      simp [beginsAsIndicator] at begins
    have noMark : c ≠ '\uFEFF' := by
      rintro rfl
      simp at isPrintable
    simp [isVisible, noGap c member first, goesOn c member, noHash, noMark]
  · obtain ⟨front, c, rfl⟩ := (List.eq_nil_or_concat text).resolve_left some
    rw [List.concat_eq_append] at noGap last ⊢
    refine ⟨front, c, rfl, noGap c (by simp) ?_⟩
    simpa [lastIs] using last

theorem hasInnerColon_of_not_mem {text : List Char} (noColon : ':' ∉ text) :
    hasInnerColon text = false := by
  induction text with
  | nil => rfl
  | cons c text ih =>
      obtain ⟨different, later⟩ := not_or.mp (mt List.mem_cons.mpr noColon)
      unfold hasInnerColon
      split
      · rename_i same
        exact absurd (List.cons.inj same).1.symm different
      · rename_i same
        rw [← (List.cons.inj same).2]
        exact ih later
      · rfl

theorem hasInnerComment_of_not_mem {text : List Char} (noHash : '#' ∉ text) :
    hasInnerComment text = false := by
  induction text with
  | nil => rfl
  | cons c text ih =>
      obtain ⟨-, later⟩ := not_or.mp (mt List.mem_cons.mpr noHash)
      cases text with
      | nil => rfl
      | cons d text =>
          have different : d ≠ '#' := fun same => later (same ▸ List.mem_cons_self ..)
          exact Bool.or_eq_false_iff.mpr ⟨by simp [different], ih later⟩

/-- Digits and marks make a plain scalar, as long as they do not begin like structure. -/
theorem plain_of_numeric {text : List Char} (numeric : IsNumeric text) (some : text ≠ [])
    (begins : beginsAsIndicator text = false) : Plain text := by
  have range : ∀ c ∈ text, (48 ≤ c.toNat ∧ c.toNat ≤ 57) ∨ c.toNat = 45 ∨ c.toNat = 46 ∨
      c.toNat = 101 ∨ c.toNat = 105 ∨ c.toNat = 110 ∨ c.toNat = 102 ∨ c.toNat = 97 := by
    intro c member
    have isNumber := numeric c member
    simpa [isNumberCharacter, isAsciiDigit_iff, char_eq_iff] using isNumber
  have noGap : ∀ c ∈ text, isGap c = false := by
    intro c member
    rw [← Bool.not_eq_true, isGap_iff]
    have bounds := range c member
    omega
  have apart : ∀ d : Char, isNumberCharacter d = false → d ∉ text := fun d other member =>
    absurd (numeric d member) (by simp [other])
  have goesOn : ∀ c ∈ text, isBreak c = false := fun c member =>
    isBreak_of_isNumberCharacter (numeric c member)
  refine ⟨goesOn, begins, ?_, ?_, hasInnerColon_of_not_mem (apart ':' (by decide)),
    hasInnerComment_of_not_mem (apart '#' (by decide))⟩
  · obtain ⟨c, rest, rfl⟩ := List.exists_cons_of_ne_nil some
    have member : c ∈ c :: rest := List.mem_cons_self ..
    have noHash : c ≠ '#' := fun same => apart '#' (by decide) (same ▸ member)
    have noMark : c ≠ '\uFEFF' := fun same => apart '\uFEFF' (by decide) (same ▸ member)
    exact ⟨c, rest, rfl, by simp [isVisible, noGap c member, goesOn c member, noHash, noMark]⟩
  · obtain ⟨front, c, rfl⟩ := (List.eq_nil_or_concat text).resolve_left some
    exact ⟨front, c, List.concat_eq_append, noGap c (by simp)⟩

theorem plain_numberText (n : Number) : Plain (numberText n) := by
  obtain ⟨sign, body, isText, isSign, isBody⟩ := exists_sign n
  refine plain_of_numeric (isNumeric_numberText n) ?_ ?_
  · rw [isText]
    rcases isBody with rfl | rfl | ⟨-, d, rest, rfl, -⟩ <;> simp
  · rw [isText]
    rcases isBody with rfl | rfl | ⟨-, d, rest, rfl, digit⟩
    · rcases isSign with rfl | rfl <;> decide
    · rcases isSign with rfl | rfl <;> decide
    · have range := (isAsciiDigit_iff d).mp digit
      have noMark : ∀ e : Char, e.toNat < 48 ∨ 57 < e.toNat → d ≠ e := by
        rintro e outside rfl
        omega
      have goesOn : isGap d = false ∧ isBreak d = false := by
        rw [← Bool.not_eq_true, ← Bool.not_eq_true, isGap_iff, isBreak_iff]
        omega
      rcases isSign with rfl | rfl
      · simp [beginsAsIndicator, noMark]
      · unfold beginsAsIndicator
        split
        · rename_i same
          exact absurd (List.cons.inj (List.cons.inj same).2).1 (noMark '-' (by decide))
        · rename_i same
          cases (List.cons.inj same).1
        · rename_i same
          obtain ⟨isDash, isRest⟩ := List.cons.inj same
          rw [← isDash, ← isRest]
          simp [atSpacing, goesOn]
        · rfl

end Printer

end ChartInflation.Yaml
