import ChartInflation.Text.Pieces
import ChartInflation.Yaml.Stream
import Mathlib.Data.List.Forall2

/-!
# Texts without markers

How far a line has come towards a marker is a state that each character changes.  A text that leads
from the start of a line to the start of a line, never with three dashes or dots in front, is cut
nowhere.  Such texts with `---` lines between them are therefore cut at exactly these lines
(`sections_joined`).
-/

set_option autoImplicit false

namespace ChartInflation.Yaml

inductive LineState where
  | start
  /-- One dash, or two, are all there is of the line. -/
  | dashes (two : Bool)
  | dots (two : Bool)
  | inside
  /-- Three dashes or dots stood at the start of a line. -/
  | marked
deriving DecidableEq, Repr

namespace LineState

def next (s : LineState) (c : Char) : LineState :=
  if s = .marked then .marked
  else if isBreak c then .start
  else match s with
    | .start => if c = '-' then .dashes false else if c = '.' then .dots false else .inside
    | .dashes two => if c ≠ '-' then .inside else if two then .marked else .dashes true
    | .dots two => if c ≠ '.' then .inside else if two then .marked else .dots true
    | _ => .inside

def after (s : LineState) (text : List Char) : LineState :=
  text.foldl next s

variable (s : LineState) (c : Char) (text more : List Char)

@[simp] theorem after_nil : s.after [] = s := rfl

@[simp] theorem after_cons : s.after (c :: text) = (s.next c).after text := rfl

@[simp] theorem after_append : s.after (text ++ more) = (s.after text).after more :=
  List.foldl_append

@[simp] theorem marked_after : marked.after text = .marked := by
  induction text with
  | nil => rfl
  | cons c text ih => exact ih

variable {s c text}

theorem ne_marked_of_after (clear : s.after text ≠ .marked) : s ≠ .marked := by
  rintro rfl
  exact clear (marked_after text)

theorem next_break (clear : s ≠ .marked) (isBreak : isBreak c) : s.next c = .start := by
  simp [next, clear, isBreak]

theorem next_eq_start_iff : s.next c = .start ↔ s ≠ .marked ∧ isBreak c := by
  constructor
  · intro starts
    by_contra other
    unfold next at starts
    split at starts
    · cases starts
    · rename_i clear
      rw [if_neg fun isBreak => other ⟨clear, isBreak⟩] at starts
      repeat' split at starts
      all_goals cases starts
  · rintro ⟨clear, isBreak⟩
    exact next_break clear isBreak

theorem inside_next (goesOn : isBreak c = false) : inside.next c = .inside := by
  simp [next, goesOn]

theorem inside_after (goesOn : ∀ c ∈ text, isBreak c = false) : inside.after text = .inside := by
  induction text with
  | nil => rfl
  | cons c text ih =>
      rw [after_cons, inside_next (goesOn c (List.mem_cons_self ..))]
      exact ih fun c member => goesOn c (List.mem_cons_of_mem _ member)

end LineState

open LineState

/-- A text that begins with three characters alike, dashes or dots, is marked or not at an end. -/
theorem after_repeated {c : Char} (isMark : c = '-' ∨ c = '.') {front back rest : List Char}
    (some : front ≠ []) (begins : front ++ back = c :: c :: c :: rest) :
    LineState.start.after front ≠ .start := by
  rcases front with _ | ⟨a, _ | ⟨b, _ | ⟨d, front⟩⟩⟩
  · exact absurd rfl some
  all_goals
    simp only [List.cons_append, List.nil_append, List.cons.injEq] at begins
    rcases isMark with rfl | rfl
  · simp [begins.1, LineState.next, isBreak]
  · simp [begins.1, LineState.next, isBreak]
  · simp [begins.1, begins.2.1, LineState.next, isBreak]
  · simp [begins.1, begins.2.1, LineState.next, isBreak]
  · simp [begins.1, begins.2.1, begins.2.2.1, LineState.next, isBreak]
  · simp [begins.1, begins.2.1, begins.2.2.1, LineState.next, isBreak]

/-- No marker begins a text that is not marked, whatever follows it. -/
theorem marker?_append {front : List Char} (some : front ≠ [])
    (clear : LineState.start.after front = .start) (back : List Char) :
    marker? (front ++ back) = none := by
  unfold marker?
  split
  · rename_i begins
    exact absurd clear (after_repeated (.inl rfl) some begins)
  · rename_i begins
    exact absurd clear (after_repeated (.inr rfl) some begins)
  · rfl

theorem cut_append (opening : Opening) {s : LineState} {front : List Char}
    (clear : s.after front = .start) (back : List Char) :
    cut opening (s = .start) 0 (front ++ back) =
      front.foldr consFirst (cut opening true 0 back) := by
  induction front generalizing s with
  | nil => simp [show s = .start from clear]
  | cons c front ih =>
      have unmarked : s.next c ≠ .marked := ne_marked_of_after (by
        rw [show (s.next c).after front = .start from clear]
        simp)
      have noMarker : (if decide (s = .start) then marker? (c :: (front ++ back)) else none) =
          none := by
        split
        · rename_i atStart
          rw [of_decide_eq_true atStart] at clear
          exact marker?_append (List.cons_ne_nil c front) clear back
        · rfl
      have next : decide (s.next c = .start) = isBreak c := by
        have clear : s ≠ .marked := by
          rintro rfl
          exact unmarked rfl
        rw [Bool.eq_iff_iff, decide_eq_true_eq, next_eq_start_iff]
        exact ⟨And.right, fun isBreak => ⟨clear, isBreak⟩⟩
      rw [List.cons_append, cut, noMarker, List.foldr_cons, ← ih clear, next]

theorem cut_start_append (opening : Opening) {front : List Char}
    (clear : LineState.start.after front = .start) (back : List Char) :
    cut opening true 0 (front ++ back) = front.foldr consFirst (cut opening true 0 back) := by
  simpa using cut_append opening clear back

theorem foldr_consFirst (opening : Opening) (front text : List Char)
    (more : List (Opening × List Char)) :
    front.foldr consFirst ((opening, text) :: more) = (opening, front ++ text) :: more := by
  induction front with
  | nil => rfl
  | cons c front ih => rw [List.foldr_cons, ih]; rfl

/-- A marker line ends the section in front of it, and its line break begins the next one. -/
theorem cut_marker_line (opening : Opening) (text : List Char) :
    cut opening true 0 ('-' :: '-' :: '-' :: '\n' :: text) =
      (opening, []) :: consFirst '\n' (cut .start true 0 text) := by
  have isMarker : marker? ('-' :: '-' :: '-' :: '\n' :: text) = some .start := by
    simp [marker?, atSpacing, isBreak]
  have isBreak : isBreak '\n' = true := by decide
  rw [cut, if_pos rfl, isMarker]
  simp [cut, isBreak]

/-- Texts with `---` lines between them are cut at these lines and nowhere else. -/
theorem cut_joined (opening : Opening) (text : String) (texts : List String)
    (clear : ∀ t ∈ text :: texts, LineState.start.after t.toList = .start) :
    cut opening true 0 (joined "---\n" (text :: texts)).toList =
      (opening, text.toList) :: texts.map fun t => (.start, '\n' :: t.toList) := by
  induction texts generalizing opening text with
  | nil =>
      have alone := cut_start_append opening (clear text (List.mem_cons_self ..)) []
      rw [List.append_nil, cut, foldr_consFirst, List.append_nil] at alone
      simpa [joined] using alone
  | cons t texts ih =>
      have first := cut_start_append opening (clear text (List.mem_cons_self ..))
      have later := ih .start t fun u member => clear u (List.mem_cons_of_mem _ member)
      have lines : (joined "---\n" (text :: t :: texts)).toList =
          text.toList ++ '-' :: '-' :: '-' :: '\n' :: (joined "---\n" (t :: texts)).toList := by
        simp [joined]
      rw [lines, first, cut_marker_line, later, consFirst, foldr_consFirst, List.append_nil,
        List.map_cons]

theorem sections_joined (text : String) (texts : List String)
    (clear : ∀ t ∈ text :: texts, LineState.start.after t.toList = .start) :
    sections (joined "---\n" (text :: texts)).toList =
      (.stream, text.toList) :: texts.map fun t => (.start, '\n' :: t.toList) :=
  cut_joined .stream text texts clear

end ChartInflation.Yaml
