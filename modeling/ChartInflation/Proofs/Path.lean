import ChartInflation.FileSystem
import ChartInflation.Proofs.Text.Pieces

/-!
# Joining paths

The steps of a joined path are those of its left side, and then those of its right side
(`steps_join`).  A path that neither begins at the root nor goes up stays below the left side.
-/

set_option autoImplicit false

namespace ChartInflation

namespace Path

def inner (p : Path) : List String :=
  p.names.filter (· != ".")

/-- Whether a path neither begins at the root nor goes up. -/
def StaysBelow (p : Path) : Prop :=
  .root ∉ p.components ∧ .up ∉ p.components

instance (p : Path) : Decidable p.StaysBelow :=
  inferInstanceAs (Decidable (_ ∧ _))

theorem staysBelow_iff (p : Path) : p.StaysBelow ↔ p.isAbsolute = false ∧ ".." ∉ p.names := by
  have up : Component.up ∈ (p.names.filter (· != ".")).map componentOf ↔ ".." ∈ p.names := by
    constructor
    · intro inSteps
      obtain ⟨name, member, isUp⟩ := List.mem_map.mp inSteps
      by_cases same : name = ".."
      · exact same ▸ (List.mem_filter.mp member).1
      · simp [componentOf, same] at isUp
    · intro member
      exact List.mem_map.mpr ⟨"..", List.mem_filter.mpr ⟨member, by decide⟩, by simp [componentOf]⟩
  have root : Component.root ∉ (p.names.filter (· != ".")).map componentOf := by
    intro inSteps
    obtain ⟨name, _, isRoot⟩ := List.mem_map.mp inSteps
    unfold componentOf at isRoot
    split at isRoot <;> simp at isRoot
  unfold StaysBelow components
  by_cases absolute : p.isAbsolute
  · simp [absolute]
  · rw [Bool.not_eq_true] at absolute
    simp only [absolute, Bool.false_eq_true, if_false, true_and]
    split <;> simp [up, root]

theorem isAbsolute_iff (p : Path) : p.isAbsolute ↔ p.text.toList.head? = some '/' := by
  unfold isAbsolute
  split
  next rest text => simp [text]
  next other =>
    simp only [Bool.false_eq_true, false_iff]
    intro first
    obtain ⟨rest, text⟩ := List.head?_eq_some_iff.mp first
    exact other rest text

section Join
variable {d q : Path}

theorem isAbsolute_join_left (q : Path) (absolute : d.isAbsolute) : (d.join q).isAbsolute := by
  unfold join
  by_cases own : q.isAbsolute
  · rwa [if_pos own]
  · rw [if_neg own]
    rw [isAbsolute_iff] at absolute
    split
    · rw [isAbsolute_iff, String.toList_append, List.head?_append, absolute, Option.some_or]
    · rw [isAbsolute_iff, String.toList_append, String.toList_append, List.append_assoc,
        List.head?_append, absolute, Option.some_or]

/-- What begins at the root is seen from anywhere as it is. -/
theorem join_join (q : Path) (absolute : d.isAbsolute) : d.join (d.join q) = d.join q := by
  rw [join, if_pos (isAbsolute_join_left q absolute)]

theorem names_of_text {p : Path} (text : p.text.toList = d.text.toList ++ '/' :: q.text.toList) :
    p.names = d.names ++ q.names := by
  simp [names, piecesOf, text, pieces_append]

structure EndsInName (p : Path) : Prop where
  inhabited : p.text.toList ≠ []
  noSlash : endsInSlash p.text.toList = false

structure Continues (q : Path) : Prop extends EndsInName q where
  relative : q.isAbsolute = false

theorem steps_of_endsInName {p : Path} (ends : p.EndsInName) : FileSystem.steps p = p.names := by
  rw [FileSystem.steps, ends.noSlash, if_neg Bool.false_ne_true, List.append_nil]

theorem isAbsolute_of_not_mem {name : String} (noSlash : '/' ∉ name.toList) :
    isAbsolute ⟨name⟩ = false := by
  rw [← Bool.not_eq_true, isAbsolute_iff]
  intro first
  exact noSlash (List.mem_of_mem_head? first)

theorem continues_of_not_mem {name : String} (inhabited : name.toList ≠ [])
    (noSlash : '/' ∉ name.toList) : Continues ⟨name⟩ := by
  refine ⟨⟨inhabited, ?_⟩, isAbsolute_of_not_mem noSlash⟩
  rw [endsInSlash, beq_eq_false_iff_ne]
  intro last
  exact noSlash (List.mem_of_getLast? last)

theorem names_of_not_mem {name : String} (inhabited : name.toList ≠ [])
    (noSlash : '/' ∉ name.toList) : names ⟨name⟩ = [name] := by
  have someName : name ≠ "" := by
    rintro rfl
    exact inhabited rfl
  simp [names, piecesOf, pieces_of_not_mem noSlash, someName]

/-- The left side is kept as it is written, with a slash behind it where it ends in none. -/
theorem text_join (relative : q.isAbsolute = false) : ∃ slash : List Char,
    (d.join q).text.toList = d.text.toList ++ slash ++ q.text.toList ∧
      (slash = ['/'] ∨ slash = [] ∧ (d.text = "" ∨ endsInSlash d.text.toList)) := by
  unfold join
  rw [relative, if_neg Bool.false_ne_true]
  by_cases closed : d.isEmpty || endsInSlash d.text.toList
  · rw [if_pos closed]
    refine ⟨[], by simp, Or.inr ⟨rfl, ?_⟩⟩
    simpa [isEmpty, String.isEmpty_iff] using closed
  · rw [if_neg closed]
    exact ⟨['/'], by simp, Or.inl rfl⟩

theorem names_join (relative : q.isAbsolute = false) :
    (d.join q).names = d.names ++ q.names := by
  obtain ⟨slash, text, rfl | ⟨rfl, empty | closed⟩⟩ := text_join (d := d) relative
  · exact names_of_text (by simpa using text)
  · have same : (d.join q).text = q.text := String.toList_inj.mp (by simpa [empty] using text)
    simp [names, same, empty, piecesOf, pieces]
  · -- what stands in front of the slash has the same names
    rw [endsInSlash, beq_iff_eq] at closed
    obtain ⟨front, isFront⟩ := List.getLast?_eq_some_iff.mp closed
    have left : d.names = names ⟨String.ofList front⟩ ++ names ⟨""⟩ :=
      names_of_text (by simpa using isFront)
    have whole : (d.join q).names = names ⟨String.ofList front⟩ ++ q.names :=
      names_of_text (by simpa [isFront] using text)
    have nothing : names ⟨""⟩ = [] := rfl
    rw [whole, left, nothing, List.append_nil]

theorem isAbsolute_join (relative : q.isAbsolute = false) :
    (d.join q).isAbsolute = d.isAbsolute := by
  by_cases empty : d.text = ""
  · have alone : d.join q = q := by simp [join, isEmpty, empty]
    rw [alone, relative]
    simp [isAbsolute, empty]
  · obtain ⟨slash, text, _⟩ := text_join (d := d) relative
    cases left : d.text.toList with
    | nil => exact absurd (String.toList_eq_nil_iff.mp left) empty
    | cons c rest => by_cases root : c = '/' <;> simp [isAbsolute, text, left, root]

variable (continues : q.Continues)
include continues

theorem names_ne_nil : q.names ≠ [] := by
  have relative := continues.relative
  cases text : q.text.toList with
  | nil => exact absurd text continues.inhabited
  | cons c rest =>
      have first : c ≠ '/' := by
        rintro rfl
        simp [isAbsolute, text] at relative
      cases cut : pieces '/' rest with
      | nil => exact absurd cut (pieces_ne_nil '/' rest)
      | cons piece more => simp [names, piecesOf, text, pieces, first, cut]

theorem endsInName_join : (d.join q).EndsInName := by
  obtain ⟨slash, text, _⟩ := text_join (d := d) continues.relative
  constructor
  · simp [text, continues.inhabited]
  · rw [text, endsInSlash, List.getLast?_append, List.getLast?_eq_some_getLast continues.inhabited,
      Option.some_or, ← List.getLast?_eq_some_getLast continues.inhabited]
    exact continues.noSlash

theorem steps_join : FileSystem.steps (d.join q) = d.names ++ q.names := by
  rw [steps_of_endsInName (endsInName_join continues), names_join continues.relative]

end Join

end Path

end ChartInflation
