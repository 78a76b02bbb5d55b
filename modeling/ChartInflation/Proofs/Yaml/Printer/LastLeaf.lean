import ChartInflation.Proofs.Yaml.Character
import ChartInflation.Proofs.Yaml.Printer.NumberText
import ChartInflation.Proofs.Yaml.Printer.Unmarked
import ChartInflation.Text.Blank

/-!
# How the text of a tree ends

The text of a tree ends as its last leaf does.  So blanks at its end are content exactly where that
leaf is a string that stands without quotes and ends in blanks (`trimEnd_print`).
-/

set_option autoImplicit false

namespace ChartInflation.Yaml

mutual

/-- What stands last in a tree: neither a tag nor a collection that holds anything. -/
def Value.lastLeaf : Value → Value
  | .tagged _ v => v.lastLeaf
  | .sequence vs => (lastItem? vs).getD (.sequence [])
  | .mapping es => (lastField? es).getD (.mapping [])
  | v => v

def lastItem? : List Value → Option Value
  | [] => none
  | v :: vs => some ((lastItem? vs).getD v.lastLeaf)

def lastField? : List (Value × Value) → Option Value
  | [] => none
  | (_, v) :: es => some ((lastField? es).getD v.lastLeaf)

end

namespace Printer

inductive LeafLine : Value → List Char → Prop where
  | null : LeafLine .null "null\n".toList
  | bool (b : Bool) : LeafLine (.bool b) (if b then "true\n" else "false\n").toList
  | number (n : Number) : LeafLine (.number n) (numberText n ++ ['\n'])
  | string (indent : Nat) (s : String) : LeafLine (.string s) (stringLine indent s)
  | sequence : LeafLine (.sequence []) "[]\n".toList
  | mapping : LeafLine (.mapping []) "\x7b\x7d\n".toList

def EndsAs (text : List Char) (leaf : Value) : Prop :=
  ∃ front own, text = front ++ own ∧ LeafLine leaf own

theorem EndsAs.behind {text : List Char} {leaf : Value} (ends : EndsAs text leaf)
    (front : List Char) : EndsAs (front ++ text) leaf := by
  obtain ⟨inner, own, rfl, isLeaf⟩ := ends
  exact ⟨front ++ inner, own, (List.append_assoc ..).symm, isLeaf⟩

theorem endsAs_line (place : Place) (tag? : Option Tag) {leaf : Value} {own : List Char}
    (isLeaf : LeafLine leaf own) : EndsAs (line place tag? own) leaf := by
  cases tag? with
  | none => exact ⟨place.gap, own, rfl, isLeaf⟩
  | some tag => exact ⟨place.gap ++ tagText tag ++ [' '], own, by simp [line], isLeaf⟩

theorem endsAs_collection (place : Place) (column : Nat) (tag? : Option Tag) (compact : Bool)
    {body : List Char} {leaf : Value} (ends : EndsAs body leaf) :
    EndsAs (collection place column tag? compact (spaces column ++ body)) leaf := by
  have lines := ends.behind (spaces column)
  unfold collection
  cases tag? with
  | some tag => simpa using lines.behind (place.gap ++ tagText tag ++ ['\n'])
  | none =>
      simp only
      split
      · have dropped : (spaces column ++ body).drop column = body := by simp [spaces]
        rw [dropped]
        exact ends.behind [' ']
      · split
        · exact lines
        · exact lines.behind ['\n']

inductive LinesEnd (column : Nat) : Option Value → List Char → Prop where
  | nothing : LinesEnd column none []
  | lines {leaf : Value} {body : List Char} (ends : EndsAs body leaf) :
      LinesEnd column (some leaf) (spaces column ++ body)

theorem EndsAs.before {column : Nat} {last? : Option Value} {own : Value} {text more : List Char}
    (ends : EndsAs text own) (others : LinesEnd column last? more) :
    EndsAs (text ++ more) (last?.getD own) := by
  cases others with
  | nothing => rwa [List.append_nil]
  | lines others => exact (others.behind (spaces column)).behind text

mutual

theorem endsAs_node {place : Place} (column? : Option Nat) (tag? : Option Tag) (v : Value)
    {text : List Char} (written : node place column? tag? v = .ok text) :
    EndsAs text v.lastLeaf := by
  match v with
  | .tagged tag v =>
      obtain ⟨rfl, written⟩ := node_tagged_eq_ok_iff.mp written
      exact endsAs_node column? (some tag) v written
  | .sequence (v :: vs) =>
      obtain ⟨_, isBody, rfl⟩ := node_sequence_eq_ok_iff.mp written
      cases linesEnd_items _ (v :: vs) isBody with
      | lines ends => exact endsAs_collection place _ tag? _ ends
  | .mapping (e :: es) =>
      obtain ⟨_, isBody, rfl⟩ := node_mapping_eq_ok_iff.mp written
      cases linesEnd_entries _ _ (e :: es) isBody with
      | lines ends => exact endsAs_collection place _ tag? _ ends
  | .sequence [] => exact Except.ok.inj written ▸ endsAs_line place tag? .sequence
  | .mapping [] => exact Except.ok.inj written ▸ endsAs_line place tag? .mapping
  | .null => exact Except.ok.inj written ▸ endsAs_line place tag? .null
  | .bool b => exact Except.ok.inj written ▸ endsAs_line place tag? (.bool b)
  | .number n => exact Except.ok.inj written ▸ endsAs_line place tag? (.number n)
  | .string s => exact Except.ok.inj written ▸ endsAs_line place tag? (.string _ s)

theorem linesEnd_items (column : Nat) (vs : List Value) {text : List Char}
    (written : items column vs = .ok text) : LinesEnd column (lastItem? vs) text := by
  match vs with
  | [] => exact Except.ok.inj written ▸ .nothing
  | v :: vs =>
      obtain ⟨first, more, isFirst, isMore, rfl⟩ := items_cons_eq_ok_iff.mp written
      have ends := (endsAs_node _ _ v isFirst).behind ['-']
      exact .lines (ends.before (linesEnd_items column vs isMore))

theorem linesEnd_entries (column : Nat) (alone : Bool) (es : List (Value × Value))
    {text : List Char} (written : entries column alone es = .ok text) :
    LinesEnd column (lastField? es) text := by
  match es with
  | [] => exact Except.ok.inj written ▸ .nothing
  | (k, v) :: es =>
      obtain ⟨-, more, isMore, entry⟩ := entries_cons_eq_ok_iff.mp written
      have others := linesEnd_entries column false es isMore
      split at entry
      · obtain ⟨key, value, -, isValue, rfl⟩ := entry
        have ends := (endsAs_node _ _ v isValue).behind (key.dropLast ++ [':'])
        simpa [lastField?] using LinesEnd.lines (ends.before others)
      · obtain ⟨key, value, -, isValue, rfl⟩ := entry
        have ends := (endsAs_node _ _ v isValue).behind ('?' :: key ++ (spaces column ++ [':']))
        simpa [lastField?] using LinesEnd.lines (ends.before others)

end

/-! ## What is cut off -/

/-- A text ends in one line feed with no blank in front of it. -/
def Closed (text : List Char) : Prop :=
  ∃ front c, text = front ++ [c, '\n'] ∧ isBlank c = false

theorem closed_append_iff {text : List Char} (long : 2 ≤ text.length) (front : List Char) :
    Closed (front ++ text) ↔ Closed text := by
  constructor
  · rintro ⟨inner, c, same, visible⟩
    rcases List.append_eq_append_iff.mp same with ⟨more, -, isText⟩ | ⟨more, -, isText⟩
    · exact ⟨more, c, isText, visible⟩
    · have none : more = [] := by
        have total := congrArg List.length isText
        simp only [List.length_append, List.length_cons, List.length_nil] at total
        exact List.eq_nil_of_length_eq_zero (by omega)
      exact ⟨[], c, by simpa [none] using isText.symm, visible⟩
  · rintro ⟨inner, c, rfl, visible⟩
    exact ⟨front ++ inner, c, (List.append_assoc ..).symm, visible⟩

theorem trimEnd_eq_iff {text : List Char} (long : 2 ≤ text.length) :
    trimEnd text ++ ['\n'] = text ↔ Closed text := by
  constructor
  · intro same
    rw [trimEnd] at same
    cases kept : text.reverse.dropWhile isBlank with
    | nil => 
        rw [kept] at same
        rw [← same] at long
        simp at long
    | cons c front =>
        rw [kept, List.reverse_cons, List.append_assoc] at same
        have visible := List.head_dropWhile_not isBlank (l := text.reverse) (by simp [kept])
        simp only [kept, List.head_cons] at visible
        exact ⟨front.reverse, c, same.symm, visible⟩
  · rintro ⟨front, c, rfl, visible⟩
    have feed : isBlank '\n' := by decide
    simp [trimEnd, feed, visible]

theorem closed_concat_iff (front : List Char) (c : Char) :
    Closed (front ++ [c, '\n']) ↔ isBlank c = false := by
  constructor
  · rintro ⟨inner, d, same, visible⟩
    obtain ⟨rfl, -⟩ := List.cons.inj (List.append_inj_right' same rfl)
    exact visible
  · intro visible
    exact ⟨front, c, rfl, visible⟩

def withoutFeed (text : List Char) : List Char :=
  if lastIs (· == '\n') text then text.dropLast else text

/-- Whether a string stands without quotes and ends in a blank, one line feed apart. -/
def endsInBlank (s : String) : Bool :=
  match styleOf s with
  | .plain | .literal => !lastIs (!isBlank ·) (withoutFeed s.toList)
  | _ => false

def leafEndsInBlank : Value → Bool
  | .string s => endsInBlank s
  | _ => false

theorem exists_literalBody_append (indent : Nat) (lineStart : Bool) (front back : List Char) :
    ∃ text lineStart', literalBody indent lineStart (front ++ back) =
      text ++ literalBody indent lineStart' back := by
  induction front generalizing lineStart with
  | nil => exact ⟨[], lineStart, rfl⟩
  | cons c front ih =>
      rw [List.cons_append, literalBody]
      split
      · obtain ⟨text, next, same⟩ := ih true
        exact ⟨c :: text, next, by rw [same]; rfl⟩
      · obtain ⟨text, next, same⟩ := ih false
        exact ⟨(if lineStart then spaces indent else []) ++ c :: text, next, by
          rw [same, List.append_assoc]; rfl⟩

theorem isBlank_of_isBreak {c : Char} (isBreak : isBreak c) : isBlank c := by
  simp only [Yaml.isBreak, Bool.or_eq_true, beq_iff_eq] at isBreak
  rcases isBreak with (((rfl | rfl) | rfl) | rfl) | rfl <;> decide

theorem not_closed_of_last {front : List Char} {c : Char} (other : c ≠ '\n') :
    ¬ Closed (front ++ [c]) := by
  rintro ⟨inner, d, same, -⟩
  have last := congrArg List.getLast? same
  simp at last
  exact other last

theorem closed_literalBody_feed (indent : Nat) (header front : List Char) :
    Closed (header ++ '\n' :: literalBody indent true (front ++ ['\n'])) ↔
      lastIs (!isBlank ·) front := by
  rcases List.eq_nil_or_concat' front with rfl | ⟨front, d, rfl⟩
  · have body : header ++ '\n' :: literalBody indent true ([] ++ ['\n']) =
        header ++ ['\n', '\n'] := rfl
    rw [body, closed_concat_iff]
    simp [lastIs, show isBlank '\n' = true by decide]
  · obtain ⟨inner, lineStart, same⟩ := exists_literalBody_append indent true front [d, '\n']
    obtain ⟨gap, ends⟩ : ∃ gap, literalBody indent lineStart [d, '\n'] = gap ++ [d, '\n'] := by
      by_cases breaks : isBreak d
      · exact ⟨[], by simp [literalBody, breaks, show isBreak '\n' = true by decide]⟩
      · exact ⟨if lineStart then spaces indent else [], by
          simp [literalBody, breaks, show isBreak '\n' = true by decide]⟩
    have body : header ++ '\n' :: literalBody indent true (front ++ [d] ++ ['\n']) =
        (header ++ '\n' :: inner ++ gap) ++ [d, '\n'] := by
      rw [List.append_assoc, List.singleton_append, same, ends]
      simp
    rw [body, closed_concat_iff]
    simp [lastIs]

theorem closed_literalBody_other (indent : Nat) (header front : List Char) {c : Char}
    (noFeed : c ≠ '\n') :
    Closed (header ++ '\n' :: literalBody indent true (front ++ [c])) ↔ isBlank c = false := by
  obtain ⟨inner, lineStart, same⟩ := exists_literalBody_append indent true front [c]
  rw [same]
  by_cases breaks : isBreak c
  · have body : header ++ '\n' :: (inner ++ literalBody indent lineStart [c]) =
        (header ++ '\n' :: inner) ++ [c] := by simp [literalBody, breaks]
    rw [body]
    refine iff_of_false (not_closed_of_last noFeed) ?_
    simp [isBlank_of_isBreak breaks]
  · have body : header ++ '\n' :: (inner ++ literalBody indent lineStart [c]) =
        (header ++ '\n' :: inner ++ if lineStart then spaces indent else []) ++ [c, '\n'] := by
      simp [literalBody, breaks]
    rw [body, closed_concat_iff]

theorem closed_literalBody_iff (indent : Nat) (header : List Char) {text : List Char}
    (some : text ≠ []) : Closed (header ++ '\n' :: literalBody indent true text) ↔
      lastIs (!isBlank ·) (withoutFeed text) := by
  obtain ⟨front, c, rfl⟩ := List.eq_nil_or_concat' text |>.resolve_left some
  by_cases feed : c = '\n'
  · subst feed
    have cutOff : withoutFeed (front ++ ['\n']) = front := by simp [withoutFeed, lastIs]
    rw [cutOff, closed_literalBody_feed]
  · have kept : withoutFeed (front ++ [c]) = front ++ [c] := by simp [withoutFeed, lastIs, feed]
    rw [kept, closed_literalBody_other indent header front feed]
    simp [lastIs]

theorem closed_stringLine_iff (indent : Nat) (s : String) :
    Closed (stringLine indent s) ↔ endsInBlank s = false := by
  have fits := fits_styleOf s
  unfold stringLine endsInBlank
  generalize styleOf s = style at fits ⊢
  cases style with
  | plain =>
      obtain ⟨oneLine, -, -⟩ := fits
      rcases List.eq_nil_or_concat' s.toList with none | ⟨front, c, isText⟩
      · have short : ¬ Closed ['\n'] := by
          rintro ⟨front, c, same, -⟩
          simpa using congrArg List.length same
        simp [none, short, withoutFeed, lastIs]
      · have other : c ≠ '\n' := by
          rintro rfl
          simp [isText] at oneLine
        simp [isText, closed_concat_iff, withoutFeed, lastIs, other]
  | literal =>
      have some : s.toList ≠ [] := List.ne_nil_of_mem fits.1
      have body := closed_literalBody_iff indent ('|' :: literalHeader s.toList) some
      simpa using body
  | singleQuoted =>
      have quoted := closed_concat_iff ('\'' :: singleQuotedBody indent false s.toList) '\''
      exact iff_of_true (quoted.mpr (by decide)) rfl
  | _ =>
      refine iff_of_true ?_ rfl
      simp only [doubleQuoted, List.append_assoc, List.cons_append, List.nil_append]
      exact (closed_concat_iff ('"' :: _) '"').mpr (by decide)

theorem two_le_stringLine (indent : Nat) (s : String) : 2 ≤ (stringLine indent s).length := by
  have fits := fits_styleOf s
  unfold stringLine
  generalize styleOf s = style at fits ⊢
  cases style with
  | plain =>
      have some := List.length_pos_iff.mpr (nonempty_of_plain fits.2.1)
      simp only [List.length_append, List.length_singleton]
      omega
  | singleQuoted => simp
  | literal => simp; omega
  | _ => simp [doubleQuoted]

theorem isBlank_of_isNumberCharacter {c : Char} (isNumber : isNumberCharacter c) :
    isBlank c = false := by
  rw [← Bool.not_eq_true]
  intro blank
  simp [isNumberCharacter, isAsciiDigit_iff, char_eq_iff] at isNumber
  simp [isBlank, char_eq_iff, char_le_iff] at blank
  omega

theorem closed_numberText (n : Number) : Closed (numberText n ++ ['\n']) := by
  obtain ⟨sign, body, isText, -, isBody⟩ := exists_sign n
  have some : numberText n ≠ [] := by
    rcases isBody with rfl | rfl | ⟨-, d, more, rfl, -⟩ <;> simp [isText]
  obtain ⟨front, c, isLast⟩ := List.eq_nil_or_concat' (numberText n) |>.resolve_left some
  have isNumber := isNumeric_numberText n c (by simp [isLast])
  rw [isLast, List.append_assoc]
  exact (closed_concat_iff front c).mpr (isBlank_of_isNumberCharacter isNumber)

theorem Closed.two_le {text : List Char} (closed : Closed text) : 2 ≤ text.length := by
  obtain ⟨front, c, rfl, -⟩ := closed
  simp

theorem closed_leaf {leaf : Value} {own : List Char} (isLeaf : LeafLine leaf own) :
    2 ≤ own.length ∧ (Closed own ↔ leafEndsInBlank leaf = false) := by
  have always {text : List Char} (closed : Closed text) :
      2 ≤ text.length ∧ (Closed text ↔ false = false) :=
    ⟨closed.two_le, iff_of_true closed rfl⟩
  cases isLeaf with
  | string indent s => exact ⟨two_le_stringLine indent s, closed_stringLine_iff indent s⟩
  | number n => exact always (closed_numberText n)
  | bool b =>
      cases b with
      | false => exact always ((closed_concat_iff "fals".toList 'e').mpr (by decide))
      | true => exact always ((closed_concat_iff "tru".toList 'e').mpr (by decide))
  | null => exact always ((closed_concat_iff "nul".toList 'l').mpr (by decide))
  | sequence => exact always ((closed_concat_iff ['['] ']').mpr (by decide))
  | mapping => exact always ((closed_concat_iff ['\x7b'] '\x7d').mpr (by decide))

end Printer

open Printer

def Value.endsInBlank (v : Value) : Bool :=
  leafEndsInBlank v.lastLeaf

/-- Blanks can be cut off the text of a tree, a line feed apart, exactly if its last leaf stands
without quotes and ends in them. -/
theorem trimEnd_print {v : Value} {text : String} (printed : v.print = .ok text) :
    trimEnd text.toList ++ ['\n'] = text.toList ↔ v.endsInBlank = false := by
  obtain ⟨lines, written, rfl⟩ := Outcome.map_eq_ok_iff.mp printed
  obtain ⟨front, own, rfl, isLeaf⟩ := endsAs_node none none v written
  obtain ⟨long, closed⟩ := closed_leaf isLeaf
  rw [String.toList_ofList, trimEnd_eq_iff (by rw [List.length_append]; omega),
    closed_append_iff long, closed]
  rfl

end ChartInflation.Yaml
