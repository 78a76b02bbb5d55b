import ChartInflation.Inflation.Version
import ChartInflation.Proofs.Outcome
import ChartInflation.Proofs.Text.Pieces
import Mathlib.Data.List.Infix
import Mathlib.Data.List.TakeWhile

/-!
# The version that is found

A version token is told here by its form, and where it stands in a text by what is in front of it.
The search finds the token that begins first, and of those that begin there the longest
(`first_of_find?`); it finds nothing only where no token stands (`stands_nowhere_of_find?`).  From
this follows when a version is accepted (`detect_first_token`).
-/

set_option autoImplicit false

namespace ChartInflation.Version

structure IsNumber (number : List Char) : Prop where
  inhabited : number ≠ []
  digits : ∀ c ∈ number, isDecimalDigit c

def dotted (numbers : List (List Char)) : List Char :=
  ['.'].intercalate numbers

/-- A version token: at least two numbers with points between them, perhaps behind a `v`. -/
structure IsToken (token : List Char) (numbers : List (List Char)) : Prop where
  written : token = dotted numbers ∨ token = 'v' :: dotted numbers
  several : 2 ≤ numbers.length
  areNumbers : ∀ number ∈ numbers, IsNumber number

def Stands (text front token : List Char) (numbers : List (List Char)) : Prop :=
  IsToken token numbers ∧ front ++ token <+: text

/-- No token begins further in front, and none that begins here is longer. -/
structure IsFirst (text front token : List Char) (numbers : List (List Char)) : Prop where
  stands : Stands text front token numbers
  leftmost : ∀ front' token' numbers', Stands text front' token' numbers' →
    front.length ≤ front'.length
  longest : ∀ token' numbers', Stands text front token' numbers' → token'.length ≤ token.length

/-! ## Numbers at the start of a text -/

section Groups
variable {number rest text : List Char} {numbers : List (List Char)}

theorem dotted_cons (number : List Char) (inhabited : numbers ≠ []) :
    dotted (number :: numbers) = number ++ '.' :: dotted numbers := by
  rw [dotted, List.intercalate_cons_of_ne_nil inhabited, List.append_assoc, List.singleton_append]
  rfl

theorem prefix_dotted (number : List Char) (numbers : List (List Char)) :
    number <+: dotted (number :: numbers) := by
  cases numbers with
  | nil => rw [dotted, List.intercalate_singleton]
  | cons next numbers =>
      rw [dotted_cons number (List.cons_ne_nil next numbers)]
      exact List.prefix_append ..

theorem dotted_prefix {front : List (List Char)} (inFront : front <+: numbers) :
    dotted front <+: dotted numbers := by
  obtain ⟨back, rfl⟩ := inFront
  induction front with
  | nil => exact List.nil_prefix
  | cons number front ih =>
      by_cases last : front = []
      · subst last
        rw [dotted, List.intercalate_singleton]
        exact prefix_dotted number back
      · have more : front ++ back ≠ [] := by simp [last]
        rw [List.cons_append, dotted_cons number last, dotted_cons number more,
          List.prefix_append_right_inj, List.cons_prefix_cons]
        exact ⟨rfl, ih⟩

theorem IsNumber.noPoint (isNumber : IsNumber number) : '.' ∉ number := by
  intro member
  exact absurd (isNumber.digits '.' member) (by decide)

theorem pieces_dotted (inhabited : numbers ≠ []) (areNumbers : ∀ number ∈ numbers, IsNumber number) :
    pieces '.' (dotted numbers) = numbers := by
  cases numbers with
  | nil => exact absurd rfl inhabited
  | cons number numbers =>
      exact pieces_intercalate fun number member => (areNumbers number member).noPoint

/-- Where a number ends at a point, the numbers behind the point are the others. -/
theorem groups_point (isNumber : IsNumber number) :
    groups (number ++ '.' :: rest) = number :: groups rest := by
  have digits : ∀ c ∈ number, (isDecimalDigit c || c == '.') = true := by
    intro c member
    simp [isNumber.digits c member]
  have inhabited : number.isEmpty = false := by simp [isNumber.inhabited]
  rw [groups, List.takeWhile_append_of_pos digits, List.takeWhile_cons_of_pos (by simp),
    pieces_append, pieces_of_not_mem isNumber.noPoint, List.singleton_append, List.takeWhile_cons,
    inhabited]
  rfl

theorem groups_end (isNumber : IsNumber number)
    (ends : ∀ c, rest.head? = some c → ¬ isDecimalDigit c ∧ c ≠ '.') :
    groups (number ++ rest) = [number] := by
  have digits : ∀ c ∈ number, (isDecimalDigit c || c == '.') = true := by
    intro c member
    simp [isNumber.digits c member]
  have stops : rest.takeWhile (fun c => isDecimalDigit c || c == '.') = [] := by
    cases rest with
    | nil => rfl
    | cons c rest =>
        obtain ⟨noDigit, noPoint⟩ := ends c rfl
        exact List.takeWhile_cons_of_neg (by simp [noDigit, noPoint])
  have inhabited : number.isEmpty = false := by simp [isNumber.inhabited]
  rw [groups, List.takeWhile_append_of_pos digits, stops, List.append_nil,
    pieces_of_not_mem isNumber.noPoint, List.takeWhile_cons, inhabited]
  rfl

theorem groups_number (isNumber : IsNumber number)
    (ends : ∀ c, rest.head? = some c → ¬ isDecimalDigit c) :
    ∃ more, groups (number ++ rest) = number :: more := by
  by_cases point : rest.head? = some '.'
  · obtain ⟨behind, rfl⟩ := List.head?_eq_some_iff.mp point
    exact ⟨groups behind, groups_point isNumber⟩
  · refine ⟨[], groups_end isNumber ?_⟩
    intro c first
    exact ⟨ends c first, fun isPoint => point (isPoint ▸ first)⟩

theorem isNumber_of_groups (text : List Char) : ∀ number ∈ groups text, IsNumber number := by
  intro number member
  have isPiece := (List.takeWhile_prefix _).subset member
  refine ⟨by simpa using List.mem_takeWhile_imp member, ?_⟩
  intro c inside
  have passes := List.mem_takeWhile_imp (pieces_subset _ number isPiece inside)
  rcases Bool.or_eq_true_iff.mp passes with digit | point
  · exact digit
  · exact absurd (beq_iff_eq.mp point ▸ inside) (pieces_noSeparator _ number isPiece)

theorem dotted_groups (text : List Char) : dotted (groups text) <+: text := by
  have kept : dotted (groups text) <+:
      dotted (pieces '.' (text.takeWhile fun c => isDecimalDigit c || c == '.')) :=
    dotted_prefix (List.takeWhile_prefix _)
  rw [dotted, dotted, intercalate_pieces] at kept
  exact kept.trans (List.takeWhile_prefix _)

/-- A number goes on as long as there are digits. -/
theorem le_groups_number {number : List Char} (isNumber : IsNumber number) (back : List Char) :
    1 ≤ (groups (number ++ back)).length ∧
      number.length ≤ (dotted (groups (number ++ back))).length := by
  have whole : IsNumber (number ++ back.takeWhile isDecimalDigit) := by
    refine ⟨by simp [isNumber.inhabited], ?_⟩
    intro c member
    rcases List.mem_append.mp member with inside | behind
    · exact isNumber.digits c inside
    · exact List.mem_takeWhile_imp behind
  have ends : ∀ c, (back.dropWhile isDecimalDigit).head? = some c → ¬ isDecimalDigit c := by
    intro c first
    have stops := List.head?_dropWhile_not isDecimalDigit back
    rw [first] at stops
    simpa using stops
  obtain ⟨more, found⟩ := groups_number whole ends
  rw [List.append_assoc, List.takeWhile_append_dropWhile] at found
  have reaches := (prefix_dotted (number ++ back.takeWhile isDecimalDigit) more).length_le
  rw [List.length_append] at reaches
  rw [found, List.length_cons]
  omega

/-- What is found at the start of a text reaches as far as any numbers there. -/
theorem le_groups (inhabited : numbers ≠ []) (areNumbers : ∀ number ∈ numbers, IsNumber number)
    (begins : dotted numbers <+: text) : numbers.length ≤ (groups text).length ∧
      (dotted numbers).length ≤ (dotted (groups text)).length := by
  induction numbers generalizing text with
  | nil => exact absurd rfl inhabited
  | cons number numbers ih =>
      rw [List.forall_mem_cons] at areNumbers
      obtain ⟨isNumber, others⟩ := areNumbers
      by_cases last : numbers = []
      · subst last
        rw [dotted, List.intercalate_singleton] at begins ⊢
        obtain ⟨back, rfl⟩ := begins
        exact le_groups_number isNumber back
      · rw [dotted_cons number last] at begins ⊢
        obtain ⟨back, rfl⟩ := begins
        obtain ⟨many, reaches⟩ := ih last others (List.prefix_append (dotted numbers) back)
        have some : groups (dotted numbers ++ back) ≠ [] := by
          have inhabited := List.length_pos_of_ne_nil last
          exact List.ne_nil_of_length_pos (by omega)
        rw [List.append_assoc, List.cons_append, groups_point isNumber, dotted_cons number some]
        simp only [List.length_append, List.length_cons]
        omega

end Groups

/-! ## A token at the start of a text -/

section Here
variable {text front token : List Char} {numbers : List (List Char)}

def mark (text : List Char) : List Char :=
  if text.head? = some 'v' then ['v'] else []

def behindMark (text : List Char) : List Char :=
  text.drop (mark text).length

theorem mark_append (text : List Char) : mark text ++ behindMark text = text := by
  unfold behindMark mark
  split
  next first =>
    obtain ⟨rest, rfl⟩ := List.head?_eq_some_iff.mp first
    rfl
  next => rfl

theorem here?_eq (text : List Char) : here? text =
    if 2 ≤ (groups (behindMark text)).length then some (groups (behindMark text)) else none := by
  unfold behindMark mark
  split
  next first =>
    obtain ⟨rest, rfl⟩ := List.head?_eq_some_iff.mp first
    rw [here?, List.length_singleton, List.drop_one, List.tail_cons]
    rcases groups rest with _ | ⟨a, _ | ⟨b, more⟩⟩ <;> simp
  next other =>
    rw [List.length_nil, List.drop_zero, here?]
    · rcases groups text with _ | ⟨a, _ | ⟨b, more⟩⟩ <;> simp
    · rintro rest rfl
      exact other rfl

theorem head?_dotted (isToken : IsToken token numbers) :
    ∃ c more, dotted numbers = c :: more ∧ isDecimalDigit c := by
  cases numbers with
  | nil => exact absurd isToken.several (by decide)
  | cons number numbers =>
      have isNumber := isToken.areNumbers number (List.mem_cons_self ..)
      obtain ⟨back, whole⟩ := prefix_dotted number numbers
      cases number with
      | nil => exact absurd rfl isNumber.inhabited
      | cons c number =>
          exact ⟨c, number ++ back, whole.symm, isNumber.digits c (List.mem_cons_self ..)⟩

theorem written_mark (isToken : IsToken token numbers) (begins : token <+: text) :
    token = mark text ++ dotted numbers := by
  obtain ⟨back, rfl⟩ := begins
  rcases isToken.written with plain | marked
  · obtain ⟨c, more, isText, digit⟩ := head?_dotted isToken
    have first : mark (token ++ back) = [] := by
      rw [plain, isText, mark, if_neg]
      rintro isMark
      rw [List.cons_append, List.head?_cons, Option.some.injEq] at isMark
      rw [isMark] at digit
      exact absurd digit (by decide)
    rw [first, plain, List.nil_append]
  · have first : mark (token ++ back) = ['v'] := by rw [marked]; rfl
    rw [first, marked, List.singleton_append]

theorem stands_here_iff : Stands text [] token numbers ↔
    token = mark text ++ dotted numbers ∧ dotted numbers <+: behindMark text ∧
      2 ≤ numbers.length ∧ ∀ number ∈ numbers, IsNumber number := by
  constructor
  · rintro ⟨isToken, begins⟩
    have isWritten := written_mark isToken begins
    rw [List.nil_append, isWritten] at begins
    nth_rewrite 2 [← mark_append text] at begins
    rw [List.prefix_append_right_inj] at begins
    exact ⟨isWritten, begins, isToken.several, isToken.areNumbers⟩
  · rintro ⟨rfl, begins, several, areNumbers⟩
    refine ⟨⟨?_, several, areNumbers⟩, ?_⟩
    · unfold mark
      split
      · exact Or.inr rfl
      · exact Or.inl rfl
    · nth_rewrite 2 [← mark_append text]
      rwa [List.nil_append, List.prefix_append_right_inj]

theorem first_of_here? (found : here? text = some numbers) :
    IsFirst text [] (mark text ++ dotted numbers) numbers := by
  rw [here?_eq] at found
  split at found
  case isFalse => cases found
  next several =>
    obtain rfl := Option.some.inj found
    refine ⟨?_, fun _ _ _ _ => Nat.zero_le _, ?_⟩
    · exact stands_here_iff.mpr
        ⟨rfl, dotted_groups _, several, isNumber_of_groups _⟩
    · intro token' numbers' stands
      obtain ⟨rfl, begins, many, areNumbers⟩ := stands_here_iff.mp stands
      have inhabited : numbers' ≠ [] := List.ne_nil_of_length_pos (by omega)
      have reaches := (le_groups inhabited areNumbers begins).2
      rw [List.length_append, List.length_append]
      omega

theorem not_stands_of_here? (missed : here? text = none) : ¬ Stands text [] token numbers := by
  intro stands
  obtain ⟨_, begins, several, areNumbers⟩ := stands_here_iff.mp stands
  have inhabited : numbers ≠ [] := List.ne_nil_of_length_pos (by omega)
  have many := (le_groups inhabited areNumbers begins).1
  rw [here?_eq, if_pos (by omega)] at missed
  cases missed

end Here

/-! ## The token that begins first -/

section Find
variable {text front token : List Char} {numbers : List (List Char)}

theorem stands_cons_iff {c d : Char} : Stands (c :: text) (d :: front) token numbers ↔
    d = c ∧ Stands text front token numbers := by
  rw [Stands, Stands, List.cons_append, List.cons_prefix_cons]
  exact and_left_comm

theorem stands_nowhere_of_find? (missed : find? text = none) :
    ¬ Stands text front token numbers := by
  induction text generalizing front with
  | nil =>
      rintro ⟨isToken, begins⟩
      obtain ⟨_, rfl⟩ := List.append_eq_nil_iff.mp (List.prefix_nil.mp begins)
      obtain ⟨c, more, isText, _⟩ := head?_dotted isToken
      rcases isToken.written with plain | marked
      · rw [isText] at plain
        cases plain
      · cases marked
  | cons c text ih =>
      rw [find?] at missed
      cases here : here? (c :: text) with
      | some found => simp [here] at missed
      | none =>
          rw [here] at missed
          intro stands
          cases front with
          | nil => exact not_stands_of_here? here stands
          | cons d front => exact ih missed (stands_cons_iff.mp stands).2

theorem IsFirst.cons {c : Char} (first : IsFirst text front token numbers)
    (missed : here? (c :: text) = none) : IsFirst (c :: text) (c :: front) token numbers := by
  refine ⟨stands_cons_iff.mpr ⟨rfl, first.stands⟩, ?_, ?_⟩
  · intro front' token' numbers' stands
    cases front' with
    | nil => exact absurd stands (not_stands_of_here? missed)
    | cons d front' =>
        have behind := first.leftmost front' token' numbers' (stands_cons_iff.mp stands).2
        rw [List.length_cons, List.length_cons]
        omega
  · intro token' numbers' stands
    exact first.longest token' numbers' (stands_cons_iff.mp stands).2

theorem first_of_find? (found : find? text = some numbers) :
    ∃ front token, IsFirst text front token numbers := by
  induction text with
  | nil => cases found
  | cons c text ih =>
      rw [find?] at found
      cases here : here? (c :: text) with
      | some first =>
          rw [here] at found
          obtain rfl := Option.some.inj found
          exact ⟨[], _, first_of_here? here⟩
      | none =>
          rw [here] at found
          obtain ⟨front, token, first⟩ := ih found
          exact ⟨c :: front, token, first.cons here⟩

theorem IsToken.unique {numbers' : List (List Char)} (isToken : IsToken token numbers)
    (isToken' : IsToken token numbers') : numbers = numbers' := by
  have same : dotted numbers = dotted numbers' := by
    have written := written_mark isToken List.prefix_rfl
    exact List.append_cancel_left (written.symm.trans (written_mark isToken' List.prefix_rfl))
  have many := isToken.several
  have many' := isToken'.several
  rw [← pieces_dotted (List.ne_nil_of_length_pos (by omega)) isToken.areNumbers, same,
    pieces_dotted (List.ne_nil_of_length_pos (by omega)) isToken'.areNumbers]

theorem IsFirst.unique {front' token' : List Char} {numbers' : List (List Char)}
    (first : IsFirst text front token numbers) (first' : IsFirst text front' token' numbers') :
    numbers = numbers' := by
  have sameLength : front.length = front'.length :=
    Nat.le_antisymm (first.leftmost _ _ _ first'.stands) (first'.leftmost _ _ _ first.stands)
  have begins := first.stands.2
  have begins' := first'.stands.2
  have sameFront : front = front' :=
    List.IsPrefix.eq_of_length_le
      (List.prefix_of_prefix_length_le ((List.prefix_append ..).trans begins)
        ((List.prefix_append ..).trans begins') sameLength.le) sameLength.ge
  subst sameFront
  have sameReach : token.length = token'.length :=
    Nat.le_antisymm (first'.longest _ _ first.stands) (first.longest _ _ first'.stands)
  have sameToken : front ++ token = front ++ token' :=
    List.IsPrefix.eq_of_length
      (List.prefix_of_prefix_length_le begins begins' (by simp [sameReach])) (by simp [sameReach])
  obtain rfl := List.append_cancel_left sameToken
  exact first.stands.1.unique first'.stands.1

theorem find?_eq_some_iff :
    find? text = some numbers ↔ ∃ front token, IsFirst text front token numbers := by
  constructor
  · exact first_of_find?
  · rintro ⟨front, token, first⟩
    cases found : find? text with
    | none => exact absurd first.stands (stands_nowhere_of_find? found)
    | some numbers' =>
        obtain ⟨_, _, first'⟩ := first_of_find? found
        rw [first'.unique first]

theorem find?_eq_none_iff :
    find? text = none ↔ ∀ front token numbers, ¬ Stands text front token numbers := by
  constructor
  · intro missed front token numbers
    exact stands_nowhere_of_find? missed
  · intro nowhere
    cases found : find? text with
    | none => rfl
    | some numbers =>
        obtain ⟨front, token, first⟩ := first_of_find? found
        exact absurd first.stands (nowhere front token numbers)

/-- A token alone is the first one of its own text. -/
theorem IsToken.first (isToken : IsToken token numbers) : IsFirst token [] token numbers := by
  refine ⟨⟨isToken, List.prefix_rfl⟩, fun _ _ _ _ => Nat.zero_le _, ?_⟩
  intro token' numbers' stands
  exact List.IsPrefix.length_le stands.2

end Find

/-! ## The version that is accepted -/

theorem detect_of_find? {text : String} {numbers : List (List Char)}
    (found : find? text.toList = some numbers) : detect text =
      if numbers.head? = some ['3'] then .ok (String.ofList (dotted numbers))
      else .error (.unsupportedVersion
        ("helmgen requires helm V3 but got v" ++ String.ofList (dotted numbers))
        (some (String.ofList (dotted numbers)))) := by
  have isVersion : joined "." (numbers.map String.ofList) = String.ofList (dotted numbers) := by
    apply String.toList_inj.mp
    rw [toList_joined, List.map_map, String.toList_ofList]
    simp [Function.comp_def, dotted]
  rw [detect, found, ← isVersion]
  rfl

theorem detect_eq_ok_iff (text version : String) : detect text = .ok version ↔
    ∃ numbers, find? text.toList = some numbers ∧ numbers.head? = some ['3'] ∧
      version = String.ofList (dotted numbers) := by
  cases found : find? text.toList with
  | none => simp [detect, found]
  | some numbers =>
      rw [detect_of_find? found]
      by_cases supported : numbers.head? = some ['3']
      · simp [supported, eq_comm]
      · simp [supported]

theorem detect_eq_error_iff (text : String) (e : InflationError) : detect text = .error e ↔
    find? text.toList = none ∧
        e = .unsupportedVersion
          ("cannot find version string in " ++ String.ofList (trim text.toList)) none ∨
      ∃ numbers, find? text.toList = some numbers ∧ numbers.head? ≠ some ['3'] ∧
        e = .unsupportedVersion
          ("helmgen requires helm V3 but got v" ++ String.ofList (dotted numbers))
          (some (String.ofList (dotted numbers))) := by
  cases found : find? text.toList with
  | none => simp [detect, found, eq_comm]
  | some numbers =>
      rw [detect_of_find? found]
      by_cases supported : numbers.head? = some ['3']
      · simp [supported]
      · simp [supported, eq_comm]

theorem exists_find?_iff {text : List Char} {holds : List (List Char) → Prop} :
    (∃ numbers, find? text = some numbers ∧ holds numbers) ↔
      ∃ front token numbers, IsFirst text front token numbers ∧ holds numbers := by
  simp only [find?_eq_some_iff]
  constructor
  · rintro ⟨numbers, ⟨front, token, first⟩, held⟩
    exact ⟨front, token, numbers, first, held⟩
  · rintro ⟨front, token, numbers, first, held⟩
    exact ⟨numbers, ⟨front, token, first⟩, held⟩

theorem find?_dotted {text : List Char} {numbers : List (List Char)}
    (found : find? text = some numbers) : find? (dotted numbers) = some numbers := by
  obtain ⟨front, token, first⟩ := first_of_find? found
  have isToken : IsToken (dotted numbers) numbers :=
    ⟨Or.inl rfl, first.stands.1.several, first.stands.1.areNumbers⟩
  exact find?_eq_some_iff.mpr ⟨[], dotted numbers, isToken.first⟩

/-- The version of the first token is accepted exactly if its first number is a single `3`; it is
named in the error otherwise.  An accepted version is accepted again. -/
theorem detect_first_token (text : String) :
    (∀ version, detect text = .ok version ↔ ∃ front token numbers,
      IsFirst text.toList front token numbers ∧ numbers.head? = some ['3'] ∧
        version = String.ofList (dotted numbers)) ∧
    (∀ e, detect text = .error e ↔
      (∀ front token numbers, ¬ Stands text.toList front token numbers) ∧
        e = .unsupportedVersion
          ("cannot find version string in " ++ String.ofList (trim text.toList)) none ∨
      ∃ front token numbers, IsFirst text.toList front token numbers ∧
        numbers.head? ≠ some ['3'] ∧
        e = .unsupportedVersion
          ("helmgen requires helm V3 but got v" ++ String.ofList (dotted numbers))
          (some (String.ofList (dotted numbers)))) ∧
    ∀ version, detect text = .ok version → detect version = .ok version := by
  refine ⟨?_, ?_, ?_⟩
  · intro version
    rw [detect_eq_ok_iff, exists_find?_iff]
  · intro e
    rw [detect_eq_error_iff, find?_eq_none_iff, exists_find?_iff]
  · intro version accepted
    obtain ⟨numbers, found, supported, rfl⟩ := (detect_eq_ok_iff text version).mp accepted
    refine (detect_eq_ok_iff _ _).mpr ⟨numbers, ?_, supported, rfl⟩
    rw [String.toList_ofList]
    exact find?_dotted found

/-- Digits that stop at a point without a number behind it are no token, nor is a second `v`. -/
theorem detect_restarted : detect "helm 3. vv3.14.0.+g3fc9f4b" = .ok "3.14.0" ∧
    detect "3.14.0" = .ok "3.14.0" := by
  have accepted : detect "helm 3. vv3.14.0.+g3fc9f4b" = .ok "3.14.0" := by decide +kernel
  exact ⟨accepted, (detect_first_token _).2.2 _ accepted⟩

end ChartInflation.Version
