import ChartInflation.Proofs.Yaml.Reading.Plain

/-!
# Quoted scalars are read as they are written

In single quotes a line break of its own kind is kept, and the spaces that indent the next line are
dropped (`singleQuotedScalar_body`).  In double quotes every escape is read as the character it
stands for (`doubleQuotedScalar_body`).
-/

set_option autoImplicit false

namespace ChartInflation.Yaml

open Printer

/-! ## Single quotes -/

theorem singleQuotedScalar_cons (mark : Mark) (held : Gap) (read : List Char) {c : Char}
    {rest : List Char} (notPair : ∀ more, c = '\r' → rest = '\n' :: more → False)
    (notQuotes : ∀ more, c = '\'' → rest = '\'' :: more → False) :
    singleQuotedScalar mark held read (c :: rest) =
      if isBreak c then singleQuotedScalar (mark.newLine 1) (held.addBreak c) read rest
      else if isGap c then singleQuotedScalar mark.next (held.addSpace c) read rest
      else if c = '\'' then .ok ⟨(held.text.reverse ++ read).reverse, mark.next, rest, false⟩
      else singleQuotedScalar mark.next .none (c :: (held.text.reverse ++ read)) rest := by
  rw [singleQuotedScalar]
  · exact notPair
  · exact notQuotes

/-- What is held back in front of a text in single quotes, at the start of a line or inside it.  No
space and break stand side by side, and no line feed is among the breaks. -/
inductive Holding : Gap → Bool → List Char → Prop
  | none {text : List Char} : Holding .none false text
  | spaces {held text : List Char} (noBreak : firstIs isBreak text = false) :
      Holding (.spaces held) false text
  | lines {first more text : List Char} (kept : first ≠ ['\n'])
      (noSpace : firstIs (· == ' ') text = false) : Holding (.lines first more) true text

theorem text_of_kept {first : List Char} (kept : first ≠ ['\n']) (more : List Char) :
    (Gap.lines first more).text = first ++ more.reverse := by
  unfold Gap.text
  split <;> simp_all

theorem singleQuotedScalar_spaces (mark : Mark) (first more read : List Char) (n : Nat)
    (rest : List Char) :
    singleQuotedScalar mark (.lines first more) read (spaces n ++ rest) =
      singleQuotedScalar (mark.through (spaces n)) (.lines first more) read rest := by
  induction n generalizing mark with
  | zero => rfl
  | succ n ih =>
      rw [spaces, List.replicate_succ, List.cons_append,
        singleQuotedScalar_cons _ _ _ (by simp) (by simp)]
      exact ih mark.next

theorem singleQuotedScalar_close (mark : Mark) (held : Gap) (read : List Char) {rest : List Char}
    (noQuote : rest.head? ≠ some '\'') :
    singleQuotedScalar mark held read ('\'' :: rest) =
      .ok ⟨read.reverse ++ held.text, mark.next, rest, false⟩ := by
  rw [singleQuotedScalar_cons _ _ _ (by simp) (fun more _ same => noQuote (by rw [same]; rfl))]
  simp [show isBreak '\'' = false from rfl, show isGap '\'' = false from rfl]

structure FitsSingle (text : List Char) : Prop where
  noFeed : '\n' ∉ text
  printable : ∀ c ∈ text, isPrintable c
  noSpaceBreak : anyPair (fun a b => a == ' ' && isBreak b) text = false
  noBreakSpace : anyPair (fun a b => isBreak a && b == ' ') text = false

theorem fitsSingle {text : List Char} (noFeed : '\n' ∉ text) (fits : fitsSingleQuotes text) :
    FitsSingle text := by
  simp only [fitsSingleQuotes, needsEscapes, Bool.and_eq_true, Bool.not_eq_true',
    Bool.or_eq_false_iff] at fits
  exact ⟨noFeed, by simpa using fits.1.1, fits.1.2, fits.2⟩

theorem FitsSingle.tail {c : Char} {text : List Char} (fits : FitsSingle (c :: text)) :
    FitsSingle text :=
  ⟨fun member => fits.noFeed (List.mem_cons_of_mem _ member),
    fun d member => fits.printable d (List.mem_cons_of_mem _ member),
    (anyPair_cons fits.noSpaceBreak).2, (anyPair_cons fits.noBreakSpace).2⟩

/-- Of the printable characters only three end a line, and each of these but the line feed is kept
in a scalar. -/
theorem break_of_printable {c : Char} (printable : isPrintable c) (atBreak : isBreak c) :
    c = '\n' ∨ c = '\u2028' ∨ c = '\u2029' := by
  rw [isPrintable_iff] at printable
  rw [isBreak_iff] at atBreak
  simp only [char_eq_iff, Char.reduceToNat]
  omega

theorem breakText_of_printable {c : Char} (printable : isPrintable c) (atBreak : isBreak c) :
    breakText c = c := by
  rcases break_of_printable printable atBreak with rfl | rfl | rfl <;> rfl

theorem isSpace_of_printable {c : Char} (printable : isPrintable c) (gap : isGap c) : c = ' ' := by
  rw [isGap_iff] at gap
  rw [isPrintable_iff] at printable
  simp only [char_eq_iff, Char.reduceToNat]
  omega

namespace Holding
variable {held : Gap} {lineStart : Bool} {c : Char} {text : List Char}

/-- A break that is kept joins what is held back. -/
theorem addBreak (holding : Holding held lineStart (c :: text)) (fits : FitsSingle (c :: text))
    (atBreak : isBreak c) :
    Holding (held.addBreak c) true text ∧ (held.addBreak c).text = held.text ++ [c] := by
  have isText := breakText_of_printable (fits.printable c (List.mem_cons_self ..)) atBreak
  have noSpace : firstIs (· == ' ') text = false := firstIs_of_anyPair fits.noBreakSpace atBreak
  have isKept : [c] ≠ ['\n'] := by
    rintro same
    exact fits.noFeed ((List.cons.inj same).1 ▸ List.mem_cons_self ..)
  cases holding with
  | none =>
      rw [Gap.addBreak, isText, text_of_kept isKept]
      · exact ⟨.lines isKept noSpace, rfl⟩
      · exact fun _ _ same => by cases same
  | spaces noBreak =>
      rw [firstIs, atBreak] at noBreak
      cases noBreak
  | lines kept _ =>
      rw [Gap.addBreak, isText, text_of_kept kept, text_of_kept kept]
      exact ⟨.lines kept noSpace, by simp⟩

theorem addSpace (holding : Holding held lineStart (' ' :: text))
    (fits : FitsSingle (' ' :: text)) :
    Holding (held.addSpace ' ') false text ∧ (held.addSpace ' ').text = held.text ++ [' '] := by
  have noBreak : firstIs isBreak text = false :=
    firstIs_of_anyPair (p := (· == ' ')) fits.noSpaceBreak rfl
  cases holding with
  | none => exact ⟨.spaces noBreak, rfl⟩
  | spaces _ => exact ⟨.spaces noBreak, by simp [Gap.addSpace, Gap.text]⟩
  | lines _ noSpace => cases noSpace

/-- The spaces that indent a line are dropped. -/
theorem skip (holding : Holding held lineStart text) (indent : Nat) (mark : Mark)
    (read more : List Char) :
    singleQuotedScalar mark held read
        ((if lineStart then Printer.spaces indent else []) ++ more) =
      singleQuotedScalar (mark.through (if lineStart then Printer.spaces indent else [])) held
        read more := by
  cases holding with
  | none => rfl
  | spaces _ => rfl
  | lines _ _ => exact singleQuotedScalar_spaces _ _ _ _ _ _

end Holding

theorem singleQuotedScalar_body {indent : Nat} (mark : Mark) {held : Gap} (read : List Char)
    {lineStart : Bool} {text rest : List Char} (holding : Holding held lineStart text)
    (fits : FitsSingle text) (noQuote : rest.head? ≠ some '\'') :
    singleQuotedScalar mark held read (singleQuotedBody indent lineStart text ++ '\'' :: rest) =
      .ok ⟨read.reverse ++ (held.text ++ text),
        mark.through (singleQuotedBody indent lineStart text ++ ['\'']), rest, false⟩ := by
  induction text generalizing mark held read lineStart with
  | nil =>
      rw [singleQuotedBody, List.append_nil, holding.skip, singleQuotedScalar_close _ _ _ noQuote,
        Mark.through_append]
      rfl
  | cons c text ih =>
      by_cases atBreak : isBreak c
      · obtain ⟨nowHolding, added⟩ := holding.addBreak fits atBreak
        have notReturn : c ≠ '\r' := by
          rintro rfl
          cases fits.printable _ (List.mem_cons_self ..)
        have notQuote : c ≠ '\'' := by
          rintro rfl
          cases atBreak
        rw [singleQuotedBody, if_pos atBreak, List.cons_append,
          singleQuotedScalar_cons _ _ _ (fun _ same => absurd same notReturn)
            (fun _ same => absurd same notQuote), if_pos atBreak,
          ih _ _ nowHolding fits.tail, added, List.cons_append, Mark.through, if_pos atBreak]
        simp
      · have goesOn : isBreak c = false := by simpa using atBreak
        rw [singleQuotedBody, if_neg atBreak, List.append_assoc, List.append_assoc, holding.skip,
          List.append_assoc, List.append_assoc, Mark.through_append]
        generalize mark.through (if lineStart then spaces indent else []) = mark
        by_cases isQuote : c = '\''
        · subst isQuote
          rw [if_pos rfl]
          simp only [List.cons_append, List.nil_append]
          rw [singleQuotedScalar, ih _ _ .none fits.tail]
          simp [Mark.through, goesOn, Gap.text]
        rw [if_neg isQuote, List.singleton_append, List.singleton_append,
          singleQuotedScalar_cons _ _ _ (notPair_of_goesOn goesOn _)
            (fun _ same => absurd same isQuote), if_neg atBreak, Mark.through, if_neg atBreak]
        by_cases gap : isGap c
        · obtain rfl := isSpace_of_printable (fits.printable c (List.mem_cons_self ..)) gap
          obtain ⟨nowHolding, added⟩ := holding.addSpace fits
          rw [if_pos gap, ih _ _ nowHolding fits.tail, added]
          simp
        · rw [if_neg gap, if_neg isQuote, ih _ _ .none fits.tail]
          simp [Gap.text]

/-! ## Double quotes -/

theorem doubleQuotedScalar_cons (mark : Mark) (held : Gap) (read : List Char) {c : Char}
    {rest : List Char} (notPair : ∀ more, c = '\r' → rest = '\n' :: more → False) :
    doubleQuotedScalar mark held read .none (c :: rest) =
      if isBreak c then doubleQuotedScalar (mark.newLine 1) (held.addBreak c) read .none rest
      else if isGap c then doubleQuotedScalar mark.next (held.addSpace c) read .none rest
      else
        let read := held.text.reverse ++ read
        if c = '"' then .ok ⟨read.reverse, mark.next, rest, false⟩
        else if c = '\\' then doubleQuotedScalar mark.next .none read .begun rest
        else doubleQuotedScalar mark.next .none (c :: read) .none rest := by
  rw [doubleQuotedScalar]
  exact notPair

theorem doubleQuotedScalar_begun (mark : Mark) (held : Gap) (read : List Char) {c : Char}
    (goesOn : isBreak c = false) (rest : List Char) :
    doubleQuotedScalar mark held read .begun (c :: rest) =
      match simpleEscape? c, escapeLength? c with
      | some x, _ => doubleQuotedScalar mark.next held (x :: read) .none rest
      | none, some n => doubleQuotedScalar mark.next held read (.digits (n - 1) 0) rest
      | none, none => .error .token := by
  rw [doubleQuotedScalar, goesOn]
  · rfl
  · exact notPair_of_goesOn goesOn rest

theorem hexDigit?_upper {n : Nat} (small : n < 16) :
    hexDigit? (if n < 10 then Char.ofNat (48 + n) else Char.ofNat (55 + n)) = some n := by
  revert n
  decide

theorem isBreak_upper {n : Nat} (small : n < 16) :
    isBreak (if n < 10 then Char.ofNat (48 + n) else Char.ofNat (55 + n)) = false := by
  revert n
  decide

section Digit
variable (mark : Mark) (held : Gap) (read : List Char) {c : Char} {d code : Nat}
variable (digit : hexDigit? c = some d) (rest : List Char)
include digit

theorem doubleQuotedScalar_digit (left : Nat) :
    doubleQuotedScalar mark held read (.digits (left + 1) code) (c :: rest) =
      doubleQuotedScalar mark.next held read (.digits left (code * 16 + d)) rest := by
  rw [doubleQuotedScalar.eq_def]
  simp only [digit]

theorem doubleQuotedScalar_lastDigit {x : Char} (means : characterOf? (code * 16 + d) = some x) :
    doubleQuotedScalar mark held read (.digits 0 code) (c :: rest) =
      doubleQuotedScalar mark.next held (x :: read) .none rest := by
  rw [doubleQuotedScalar.eq_def]
  simp only [digit, means]

end Digit

/-- The first digits of a code point, with `left + 1` more of them to come. -/
theorem doubleQuotedScalar_digits (mark : Mark) (held : Gap) (read : List Char) (width left : Nat)
    {code n : Nat} (fits : n < 16 ^ width) (rest : List Char) :
    doubleQuotedScalar mark held read (.digits (left + width) code) (hexDigits width n ++ rest) =
      doubleQuotedScalar (mark.through (hexDigits width n)) held read
        (.digits left (code * 16 ^ width + n)) rest := by
  induction width generalizing n left rest with
  | zero =>
      obtain rfl : n = 0 := by simpa using fits
      simp [hexDigits, Mark.through]
  | succ width ih =>
      have small : n % 16 < 16 := Nat.mod_lt n (by decide)
      have fitsAbove : n / 16 < 16 ^ width := by
        rw [pow_succ] at fits
        omega
      have value : (code * 16 ^ width + n / 16) * 16 + n % 16 = code * 16 ^ (width + 1) + n := by
        rw [pow_succ, ← Nat.mul_assoc]
        omega
      rw [hexDigits, List.append_assoc, show left + (width + 1) = left + 1 + width by omega,
        ih (left + 1) fitsAbove, List.singleton_append, Mark.through_append,
        doubleQuotedScalar_digit _ _ _ (hexDigit?_upper small), value, Mark.through,
        isBreak_upper small]
      rfl

theorem characterOf?_toNat (c : Char) : characterOf? c.toNat = some c := by
  have valid := c.valid
  rw [characterOf?, if_neg, Char.ofNat_toNat]
  simp only [UInt32.isValidChar, Nat.isValidChar] at valid
  change c.toNat < 0xD800 ∨ 0xDFFF < c.toNat ∧ c.toNat < 0x110000 at valid
  omega

theorem Printer.Escapes.begins {c : Char} {text : List Char} (escapes : Escapes c text) :
    ∃ body, text = '\\' :: body := by
  cases escapes with
  | letter means => exact ⟨_, rfl⟩
  | digits asks fits => exact ⟨_, rfl⟩

theorem doubleQuotedScalar_escape (mark : Mark) (read : List Char) {c : Char} {text : List Char}
    (escapes : Escapes c ('\\' :: text)) (rest : List Char) :
    doubleQuotedScalar mark .none read .begun (text ++ rest) =
      doubleQuotedScalar (mark.through text) .none (c :: read) .none rest := by
  have goesOn := escapes.goesOn
  cases escapes with
  | letter means =>
      rw [List.forall_mem_cons, List.forall_mem_singleton] at goesOn
      rw [List.singleton_append, doubleQuotedScalar_begun _ _ _ goesOn.2, means, Mark.through,
        goesOn.2]
      rfl
  | @digits d width asks fits =>
      rw [List.forall_mem_cons, List.forall_mem_cons] at goesOn
      have noLetter : simpleEscape? d = none := by
        unfold escapeLength? at asks
        split at asks <;> first | rfl | cases asks
      obtain ⟨width, rfl⟩ : ∃ n, width = n + 1 := by
        unfold escapeLength? at asks
        split at asks <;> first | exact ⟨_, (Option.some.inj asks).symm⟩ | cases asks
      have small : c.toNat % 16 < 16 := Nat.mod_lt _ (by decide)
      have fitsAbove : c.toNat / 16 < 16 ^ width := by
        rw [pow_succ] at fits
        omega
      have value : (0 * 16 ^ width + c.toNat / 16) * 16 + c.toNat % 16 = c.toNat := by omega
      have first := @doubleQuotedScalar_digits mark.next .none read width 0 0 _ fitsAbove
        ([if c.toNat % 16 < 10 then Char.ofNat (48 + c.toNat % 16)
          else Char.ofNat (55 + c.toNat % 16)] ++ rest)
      rw [Nat.zero_add] at first
      rw [List.cons_append, doubleQuotedScalar_begun _ _ _ goesOn.2.1, noLetter, asks, hexDigits,
        List.append_assoc]
      refine first.trans ?_
      rw [List.singleton_append, doubleQuotedScalar_lastDigit _ _ _ (hexDigit?_upper small) _
        (value ▸ characterOf?_toNat c), Mark.through, goesOn.2.1, Mark.through_append, Mark.through,
        isBreak_upper small]
      rfl

def doubleQuotedBody (text : List Char) : List Char :=
  text.flatMap fun c =>
    if !isPrintable c || isBreak c || c == '"' || c == '\\' then escape c else [c]

theorem doubleQuotedScalar_body (mark : Mark) {held : Gap} (read : List Char)
    (oneLine : held.isLines = false) (text rest : List Char) :
    doubleQuotedScalar mark held read .none (doubleQuotedBody text ++ '"' :: rest) =
      .ok ⟨read.reverse ++ (held.text ++ text), mark.through (doubleQuotedBody text ++ ['"']), rest,
        false⟩ := by
  induction text generalizing mark held read with
  | nil =>
      rw [doubleQuotedBody, List.flatMap_nil, List.nil_append,
        doubleQuotedScalar_cons _ _ _ (by simp)]
      simp [show isBreak '"' = false from rfl, show isGap '"' = false from rfl, Mark.through]
  | cons c text ih =>
      rw [doubleQuotedBody, List.flatMap_cons, ← doubleQuotedBody, List.append_assoc,
        List.append_assoc, Mark.through_append]
      split
      · obtain ⟨body, isText⟩ := (escape_escapes c).begins
        have escapes := escape_escapes c
        rw [isText] at escapes ⊢
        rw [List.cons_append, doubleQuotedScalar_cons _ _ _ (by simp)]
        simp only [show isBreak '\\' = false from rfl, show isGap '\\' = false from rfl,
          Bool.false_eq_true, if_false, if_true, show ('\\' = '"') = False by decide]
        rw [doubleQuotedScalar_escape _ _ escapes, ih _ _ rfl]
        simp [Gap.text, Mark.through, show isBreak '\\' = false from rfl]
      · rename_i plain
        simp only [Bool.or_eq_true, not_or, Bool.not_eq_true, beq_iff_eq] at plain
        obtain ⟨⟨⟨-, goesOn⟩, noQuote⟩, noBackslash⟩ := plain
        rw [List.singleton_append, doubleQuotedScalar_cons _ _ _ (notPair_of_goesOn goesOn _),
          goesOn, Mark.through, goesOn]
        simp only [Bool.false_eq_true, if_false, noQuote, noBackslash, Mark.through]
        by_cases gap : isGap c
        · obtain ⟨stillOne, added⟩ := Gap.addSpace_of_line oneLine c
          rw [if_pos gap, ih _ _ stillOne, added]
          simp
        · rw [if_neg gap, ih _ _ rfl]
          simp [Gap.text]

end ChartInflation.Yaml
