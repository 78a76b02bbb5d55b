import ChartInflation.Proofs.Yaml.Reading.Quoted

/-!
# Literal blocks are read as they are written

The lines of a block are collected one by one, and of the breaks at its end the header keeps those
that belong to the text (`blockScalar_literal`).
-/

set_option autoImplicit false

namespace ChartInflation.Yaml

open Printer

/-! ## Lines -/

structure Collects (column : Nat) (b : BlockScalar) (text : List Char) : Prop where
  folded : b.folded = false
  indent : b.indent = column
  all : (b.empty ++ b.ending ++ b.read).reverse = text
  breaks : ∀ c ∈ b.empty ++ b.ending, isBreak c
  content : firstIs isBreak b.read = false
  begun : b.ending = [] → b.read = []

structure CollectsLine (column : Nat) (b : BlockScalar) (text : List Char) : Prop where
  folded : b.folded = false
  indent : b.indent = column
  all : b.read.reverse = text
  empty : b.empty = []
  ending : b.ending = []
  some : b.read ≠ []
  content : firstIs isBreak b.read = false

/-- A text with a line break at its end, unless it ends a line itself. -/
def withBreak : Bool → List Char → List Char
  | lineStart, [] => if lineStart then [] else ['\n']
  | _, c :: rest => c :: withBreak (isBreak c) rest

theorem withBreak_append (lineStart : Bool) (front : List Char) (c : Char) :
    withBreak lineStart (front ++ [c]) = front ++ c :: if isBreak c then [] else ['\n'] := by
  induction front generalizing lineStart with
  | nil => rfl
  | cons d front ih => rw [List.cons_append, withBreak, ih, List.cons_append]

section Collecting
variable {column : Nat} {b : BlockScalar} {text : List Char}

theorem Collects.settled (collects : Collects column b text) (positive : 0 < column) :
    b.settled = b := by
  have indent := collects.indent
  rw [BlockScalar.settled, if_neg (by omega)]

theorem Collects.widest (collects : Collects column b text) (widest : Nat) :
    Collects column { b with widest := widest } text :=
  ⟨collects.folded, collects.indent, collects.all, collects.breaks, collects.content,
    collects.begun⟩

theorem Collects.emptyLine (collects : Collects column b text) {c : Char} (atBreak : isBreak c) :
    Collects column { b with empty := c :: b.empty } (text ++ [c]) := by
  refine ⟨collects.folded, collects.indent, ?_, ?_, collects.content, collects.begun⟩
  · rw [← collects.all]
    simp
  · exact List.forall_mem_cons.mpr ⟨atBreak, collects.breaks⟩

theorem Collects.beginLine (collects : Collects column b text) {c : Char}
    (goesOn : isBreak c = false) (spaced : Bool) :
    CollectsLine column { b.beginLine spaced with read := c :: (b.beginLine spaced).read }
      (text ++ [c]) := by
  have folded := collects.folded
  refine ⟨folded, collects.indent, ?_, rfl, rfl, by simp, goesOn⟩
  rw [← collects.all]
  simp [BlockScalar.beginLine, folded]

theorem CollectsLine.along (collects : CollectsLine column b text) {c : Char}
    (goesOn : isBreak c = false) :
    CollectsLine column { b with read := c :: b.read } (text ++ [c]) := by
  refine ⟨collects.folded, collects.indent, ?_, collects.empty, collects.ending, by simp, goesOn⟩
  rw [← collects.all]
  simp

theorem CollectsLine.endLine (collects : CollectsLine column b text) {c : Char}
    (atBreak : isBreak c) : Collects column { b with ending := [c] } (text ++ [c]) := by
  have empty := collects.empty
  refine ⟨collects.folded, collects.indent, ?_, ?_, collects.content, by simp⟩
  · rw [← collects.all]
    simp [empty]
  · simp [empty, atBreak]

end Collecting

theorem blockIndentation_spaces (mark : Mark) (b : BlockScalar) (n : Nat)
    (indented : b.indent = 0 ∨ mark.column + n ≤ b.indent) (rest : List Char) :
    blockIndentation mark b (spaces n ++ rest) =
      blockIndentation (mark.through (spaces n)) b rest := by
  induction n generalizing mark with
  | zero => rfl
  | succ n ih =>
      have isIndentation : b.isIndentation mark.column := by
        simp [BlockScalar.isIndentation]
        omega
      rw [spaces, List.replicate_succ, List.cons_append,
        blockIndentation_cons b rfl (by simp), if_pos (by simp [isIndentation])]
      refine ih mark.next ?_
      simp only [Mark.next]
      omega

theorem notPair_of_printable {c : Char} (printable : isPrintable c) (rest : List Char) :
    ∀ more, c = '\r' → rest = '\n' :: more → False := by
  rintro more rfl
  cases printable

section Lines
variable {column : Nat} (positive : 0 < column)
include positive

theorem blockIndentation_end {parent : Int} (inside : parent < column) (mark : Mark)
    (atStart : mark.column = 0) {b : BlockScalar} {text : List Char}
    (collects : Collects column b text) {k : Nat} {rest : List Char}
    (follows : Follows parent k rest) :
    ∃ b', blockIndentation mark b (spaces k ++ rest) =
      .ok (b', mark.through (spaces k), rest) ∧ Collects column b' text := by
  have settled := collects.settled positive
  have indent := collects.indent
  have less : k < column := by
    cases follows with
    | nothing => exact positive
    | line column_le _ => omega
  rw [blockIndentation_spaces _ _ _ (.inr (by omega))]
  cases follows with
  | nothing => exact ⟨b, by rw [blockIndentation, settled], collects⟩
  | @line _ c rest column_le visible =>
      have goesOn := isBreak_of_isVisible visible
      have noSpace : (c == ' ') = false :=
        beq_eq_false_iff_ne.mpr (ne_of_isVisible visible (by decide))
      have noTab : (c == '\t') = false :=
        beq_eq_false_iff_ne.mpr (ne_of_isVisible visible (by decide))
      have widened := collects.widest (max b.widest (mark.column + k))
      have away : mark.column + k ≠ column := by omega
      rw [Mark.through_spaces, blockIndentation_cons b rfl (notPair_of_goesOn goesOn _)]
      refine ⟨_, ?_, widened⟩
      simp only [noSpace, noTab, Bool.false_and, Bool.false_eq_true, if_false, goesOn,
        widened.settled positive, widened.indent, away]

theorem blockIndentation_content {mark : Mark} (atStart : mark.column = 0) {b : BlockScalar}
    {text : List Char} (collects : Collects column b text) {c : Char} (goesOn : isBreak c = false)
    (rest : List Char) :
    ∃ b', blockIndentation mark b (spaces column ++ c :: rest) =
      blockContent (mark.through (spaces column)).next b' rest ∧
        CollectsLine column b' (text ++ [c]) := by
  have indent := collects.indent
  have widened := collects.widest (max b.widest column)
  have within : b.isIndentation column = false := by
    simp [BlockScalar.isIndentation]
    omega
  rw [blockIndentation_spaces _ _ _ (.inr (by omega)), Mark.through_spaces, atStart, Nat.zero_add,
    blockIndentation_cons b rfl (notPair_of_goesOn goesOn _)]
  refine ⟨_, ?_, widened.beginLine goesOn (isGap c)⟩
  simp only [within, Bool.and_false, Bool.false_eq_true, if_false, goesOn,
    widened.settled positive, widened.indent, if_true]

def ReadsLines (column k : Nat) (rest text : List Char) : Prop :=
  ∀ mark b before, mark.column = 0 → Collects column b before →
    ∃ b', blockIndentation mark b (literalBody column true text ++ (spaces k ++ rest)) =
      .ok (b', mark.through (literalBody column true text ++ spaces k), rest) ∧
        Collects column b' (before ++ withBreak true text)

def ReadsInside (column k : Nat) (rest text : List Char) : Prop :=
  ∀ mark b before, CollectsLine column b before →
    ∃ b', blockContent mark b (literalBody column false text ++ (spaces k ++ rest)) =
      .ok (b', mark.through (literalBody column false text ++ spaces k), rest) ∧
        Collects column b' (before ++ withBreak false text)

theorem readsLines_nil {parent : Int} (inside : parent < column) {k : Nat} {rest : List Char}
    (follows : Follows parent k rest) : ReadsLines column k rest [] := by
  intro mark b before atStart collects
  rw [withBreak, if_pos rfl, List.append_nil]
  exact blockIndentation_end positive inside mark atStart collects follows

theorem readsInside_nil {parent : Int} (inside : parent < column) {k : Nat} {rest : List Char}
    (follows : Follows parent k rest) : ReadsInside column k rest [] := by
  intro mark b before collects
  rw [literalBody, if_neg (by decide), List.singleton_append, blockContent_cons _ _ (by simp),
    if_pos (by decide)]
  exact blockIndentation_end positive inside (mark.newLine 1) rfl
    (collects.endLine (c := '\n') (by decide)) follows

omit positive

section Break
variable {k : Nat} {rest text : List Char} {c : Char} (printable : isPrintable c)
  (atBreak : isBreak c) (onward : ReadsLines column k rest text)
include printable atBreak onward

/-- An empty line. -/
theorem readsLines_break : ReadsLines column k rest (c :: text) := by
  intro mark b before atStart collects
  have noSpace : (c == ' ') = false := by
    rw [beq_eq_false_iff_ne]
    rintro rfl
    cases atBreak
  have noTab : (c == '\t') = false := by
    rw [beq_eq_false_iff_ne]
    rintro rfl
    cases atBreak
  obtain ⟨b', read, result⟩ := onward (mark.newLine 1) _ _ rfl
    ((collects.widest (max b.widest mark.column)).emptyLine atBreak)
  rw [literalBody, if_pos atBreak, List.cons_append,
    blockIndentation_cons b rfl (notPair_of_printable printable _), withBreak, atBreak]
  simp only [noSpace, noTab, Bool.false_and, Bool.false_eq_true, if_false, if_true,
    breakText_of_printable printable atBreak]
  refine ⟨b', read.trans ?_, ?_⟩
  · rw [List.cons_append, Mark.through, if_pos atBreak]
  · rwa [List.append_assoc] at result

theorem readsInside_break : ReadsInside column k rest (c :: text) := by
  intro mark b before collects
  obtain ⟨b', read, result⟩ := onward (mark.newLine 1) _ _ rfl (collects.endLine atBreak)
  rw [literalBody, if_pos atBreak, List.cons_append,
    blockContent_cons _ _ (notPair_of_printable printable _), if_pos atBreak,
    breakText_of_printable printable atBreak, withBreak, atBreak]
  refine ⟨b', read.trans ?_, ?_⟩
  · rw [List.cons_append, Mark.through, if_pos atBreak]
  · rwa [List.append_assoc] at result

end Break

section Line
variable {k : Nat} {rest text : List Char} {c : Char} (goesOn : isBreak c = false)
  (onward : ReadsInside column k rest text)
include goesOn onward

/-- The first character of a line, behind the indentation. -/
theorem readsLines_line (positive : 0 < column) : ReadsLines column k rest (c :: text) := by
  intro mark b before atStart collects
  obtain ⟨b₁, begun, line⟩ := blockIndentation_content positive atStart collects goesOn
    (literalBody column false text ++ (spaces k ++ rest))
  obtain ⟨b', read, result⟩ := onward (mark.through (spaces column)).next _ _ line
  rw [literalBody, goesOn, if_neg (by decide), if_pos rfl, List.append_assoc, List.cons_append,
    withBreak, goesOn]
  refine ⟨b', begun.trans (read.trans ?_), ?_⟩
  · rw [List.append_assoc, List.cons_append, Mark.through_append mark (spaces column),
      Mark.through, goesOn, if_neg (by decide)]
  · rwa [List.append_assoc] at result

theorem readsInside_along : ReadsInside column k rest (c :: text) := by
  intro mark b before collects
  obtain ⟨b', read, result⟩ := onward mark.next _ _ (collects.along goesOn)
  rw [literalBody, goesOn, if_neg (by decide), if_neg (by decide), List.nil_append,
    List.cons_append, blockContent_cons _ _ (notPair_of_goesOn goesOn _), goesOn,
    if_neg (by decide), withBreak, goesOn]
  refine ⟨b', read.trans ?_, ?_⟩
  · rw [List.cons_append, Mark.through, goesOn, if_neg (by decide)]
  · rwa [List.append_assoc] at result

end Line

include positive

/-- What is read of the lines of a text, from the start of a line or from inside it. -/
theorem literalBody_read {parent : Int} (inside : parent < column) {k : Nat} {rest : List Char}
    (follows : Follows parent k rest) {text : List Char} (printable : ∀ c ∈ text, isPrintable c) :
    ReadsLines column k rest text ∧ ReadsInside column k rest text := by
  induction text with
  | nil =>
      exact ⟨readsLines_nil positive inside follows, readsInside_nil positive inside follows⟩
  | cons c text ih =>
      rw [List.forall_mem_cons] at printable
      obtain ⟨fromStart, fromInside⟩ := ih printable.2
      cases atBreak : isBreak c with
      | true =>
          exact ⟨readsLines_break printable.1 atBreak fromStart,
            readsInside_break printable.1 atBreak fromStart⟩
      | false =>
          exact ⟨readsLines_line atBreak fromInside positive,
            readsInside_along atBreak fromInside⟩

/-- The first line of a block settles its column. -/
theorem blockIndentation_first {mark : Mark} (atStart : mark.column = 0) {least : Nat}
    (isLeast : least ≤ column) {c : Char} (printable : isPrintable c)
    (noBreak : isSpaceOrBreak c = false) (rest : List Char) :
    ∃ b, blockIndentation mark ⟨false, least, 0, 0, [], [], [], false⟩
        (spaces column ++ c :: rest) = blockContent (mark.through (spaces column)).next b rest ∧
      CollectsLine column b [c] := by
  obtain ⟨noSpace, goesOn⟩ := Bool.or_eq_false_iff.mp noBreak
  have noTab : (c == '\t') = false := by
    rw [beq_eq_false_iff_ne]
    rintro rfl
    cases printable
  have isColumn : max (max (max 0 column) least) 1 = column := by omega
  rw [blockIndentation_spaces _ _ _ (.inl rfl), Mark.through_spaces, atStart, Nat.zero_add,
    blockIndentation_cons _ rfl (notPair_of_goesOn goesOn _)]
  simp only [noSpace, noTab, Bool.false_and, Bool.false_eq_true, if_false, goesOn,
    BlockScalar.settled, if_true, isColumn]
  exact ⟨_, rfl, rfl, rfl, rfl, rfl, rfl, by simp, goesOn⟩

end Lines

/-! ## Headers -/

/-- What is to become of the breaks at the end of a text, if the text is to be kept. -/
inductive Chomps : List Char → Chomping → Prop
  | strip {front : List Char} {c : Char} (goesOn : isBreak c = false) : Chomps (front ++ [c]) .strip
  | clip {front : List Char} {d c : Char} (goesOn : isBreak d = false) (atBreak : isBreak c) :
      Chomps (front ++ [d, c]) .clip
  | keep {front : List Char} {c : Char} (atBreak : isBreak c) : Chomps (front ++ [c]) .keep

def chompingMark : Chomping → List Char
  | .clip => []
  | .strip => ['-']
  | .keep => ['+']

theorem literalHeader_eq {text : List Char} (some : text ≠ []) :
    ∃ chomping, Chomps text chomping ∧ literalHeader text =
      (if firstIs isSpaceOrBreak text then ['2'] else []) ++ chompingMark chomping := by
  obtain ⟨front, c, rfl⟩ := (List.eq_nil_or_concat text).resolve_left some
  rw [List.concat_eq_append, literalHeader, List.reverse_append]
  cases atBreak : isBreak c with
  | false =>
      refine ⟨.strip, .strip atBreak, ?_⟩
      rcases List.eq_nil_or_concat front with rfl | ⟨front, d, rfl⟩ <;>
        simp [atBreak, chompingMark]
  | true =>
      rcases List.eq_nil_or_concat front with rfl | ⟨front, d, rfl⟩
      · exact ⟨.keep, .keep atBreak, by simp [atBreak, chompingMark]⟩
      · cases broken : isBreak d with
        | false =>
            refine ⟨.clip, ?_, by simp [atBreak, broken, chompingMark]⟩
            rw [List.concat_eq_append, List.append_assoc]
            exact .clip broken atBreak
        | true => exact ⟨.keep, .keep atBreak, by simp [atBreak, broken, chompingMark]⟩

theorem blockHeader_literal (mark : Mark) (indented : Bool) (chomping : Chomping)
    (rest : List Char) :
    blockHeader mark (((if indented then ['2'] else []) ++ chompingMark chomping) ++ '\n' :: rest) =
      .ok ⟨chomping, if indented then 2 else 0,
        mark.through (((if indented then ['2'] else []) ++ chompingMark chomping) ++ ['\n']),
          rest⟩ := by
  cases indented <;> cases chomping <;> rfl

/-! ## Blocks -/

/-- Behind the last character of the content there is one break, if the text ends so. -/
theorem Collects.ends {column : Nat} {b : BlockScalar} {text : List Char}
    (collects : Collects column b text) {c d : Char} {front : List Char}
    (goesOn : isBreak d = false) (same : (b.empty ++ b.ending) ++ b.read = c :: d :: front) :
    b.ending = [c] ∧ b.empty = [] ∧ b.read = d :: front := by
  have breaks := collects.breaks
  have noBreak : d ∉ b.empty ++ b.ending := by
    intro member
    rw [breaks d member] at goesOn
    cases goesOn
  cases ending : b.ending with
  | nil =>
      rw [ending, collects.begun ending, List.append_nil, List.append_nil] at same
      exact absurd (by simp [same]) noBreak
  | cons e behind =>
      rw [ending] at same noBreak
      cases empty : b.empty with
      | nil =>
          rw [empty, List.nil_append, List.cons_append] at same
          obtain ⟨rfl, isRest⟩ := List.cons.inj same
          cases behind with
          | nil => exact ⟨rfl, rfl, isRest⟩
          | cons f behind => exact absurd (by simp [(List.cons.inj isRest).1]) noBreak
      | cons x before =>
          rw [empty, List.cons_append, List.cons_append] at same
          obtain ⟨-, isRest⟩ := List.cons.inj same
          refine absurd ?_ noBreak
          cases before with
          | nil => simp [(List.cons.inj isRest).1]
          | cons y before => simp [empty, (List.cons.inj isRest).1]

theorem Collects.text {column : Nat} {b : BlockScalar} {text : List Char} {chomping : Chomping}
    (chomps : Chomps text chomping) (collects : Collects column b (withBreak true text)) :
    b.text chomping = text := by
  have all := collects.all
  rw [List.reverse_eq_iff] at all
  cases chomps with
  | @strip front c goesOn =>
      have reversed : (front ++ [c, '\n']).reverse = '\n' :: c :: front.reverse := by simp
      rw [withBreak_append, goesOn, if_neg (by decide), reversed] at all
      obtain ⟨-, -, isRead⟩ := collects.ends goesOn all
      simp [BlockScalar.text, isRead]
  | @clip front d c goesOn atBreak =>
      have split : front ++ [d, c] = (front ++ [d]) ++ [c] := by simp
      have reversed : (front ++ [d] ++ [c]).reverse = c :: d :: front.reverse := by simp
      rw [split, withBreak_append, if_pos atBreak, reversed] at all
      obtain ⟨isEnding, -, isRead⟩ := collects.ends goesOn all
      simp [BlockScalar.text, isRead, isEnding]
  | @keep front c atBreak =>
      rw [withBreak_append, if_pos atBreak] at all
      rw [BlockScalar.text, all, List.reverse_reverse]

/-- A literal block behind its indicator, below a block at column `parent`. -/
theorem blockScalar_literal {parent : Int} (mark : Mark) (least : -1 ≤ parent) {text : List Char}
    (some : text ≠ []) (printable : ∀ c ∈ text, isPrintable c) {k : Nat} {rest : List Char}
    (follows : Follows parent k rest) :
    blockScalar false parent mark (literalHeader text ++ '\n' ::
      (literalBody ((max parent 0).toNat + 2) true text ++ (spaces k ++ rest))) =
      .ok ⟨text, mark.through (literalHeader text ++ '\n' ::
        (literalBody ((max parent 0).toNat + 2) true text ++ spaces k)), rest, true⟩ := by
  obtain ⟨column, isColumn⟩ : ∃ column, (max parent 0).toNat + 2 = column := ⟨_, rfl⟩
  have positive : 0 < column := by omega
  have inside : parent < column := by omega
  obtain ⟨chomping, chomps, isHeader⟩ := literalHeader_eq some
  rw [isColumn, isHeader, blockScalar, blockHeader_literal, Outcome.ok_bind]
  generalize behindHeader : mark.through (((if firstIs isSpaceOrBreak text then ['2'] else []) ++
    chompingMark chomping) ++ ['\n']) = lineMark
  have atStart : lineMark.column = 0 := by
    rw [← behindHeader, Mark.through_append]
    rfl
  have onward : ∀ more, mark.through (((if firstIs isSpaceOrBreak text then ['2'] else []) ++
      chompingMark chomping) ++ '\n' :: more) = lineMark.through more := by
    intro more
    rw [← behindHeader, ← Mark.through_append, List.append_assoc _ ['\n'], List.singleton_append]
  rw [onward]
  clear behindHeader onward isHeader
  cases indented : firstIs isSpaceOrBreak text with
  | true =>
      have start : Collects column ⟨false, (parent + 1).toNat, column, 0, [], [], [], false⟩ [] :=
        ⟨rfl, rfl, rfl, by simp, rfl, fun _ => rfl⟩
      obtain ⟨b, read, collects⟩ := (literalBody_read positive inside follows printable).1
        lineMark _ [] atStart start
      simp only [if_true, OfNat.ofNat_ne_zero, if_false, isColumn]
      rw [read, Outcome.ok_bind, Outcome.pure_eq_ok, collects.text chomps]
  | false =>
      obtain ⟨c, text, rfl⟩ := List.exists_cons_of_ne_nil some
      rw [List.forall_mem_cons] at printable
      obtain ⟨-, goesOn⟩ := Bool.or_eq_false_iff.mp indented
      have isBody : literalBody column true (c :: text) =
          spaces column ++ c :: literalBody column false text := by
        rw [literalBody, goesOn, if_neg (by decide), if_pos rfl]
      obtain ⟨b₁, begun, line⟩ := blockIndentation_first positive atStart
        (show (parent + 1).toNat ≤ column by omega) printable.1 indented
        (literalBody column false text ++ (spaces k ++ rest))
      obtain ⟨b, read, collects⟩ := (literalBody_read positive inside follows printable.2).2
        (lineMark.through (spaces column)).next b₁ [c] line
      simp only [Bool.false_eq_true, if_false, if_true]
      have collected : Collects column b (withBreak true (c :: text)) := by
        rw [withBreak, goesOn]
        exact collects
      rw [isBody, List.append_assoc, List.append_assoc, List.cons_append, List.cons_append, begun,
        read, Outcome.ok_bind, Outcome.pure_eq_ok, collected.text chomps, Mark.through_append lineMark,
        Mark.through, goesOn, if_neg (by decide)]

end ChartInflation.Yaml
