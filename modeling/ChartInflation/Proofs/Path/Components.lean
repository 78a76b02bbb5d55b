import ChartInflation.Proofs.Path

/-!
# The steps of a path

Two texts are one path if they have the same steps.  What is joined to a path adds its steps behind
those of the path (`components_join`), and the path above a name is the path that the name was joined
to (`parent?_joinName`), however many slashes and dots either of them is written with.
-/

set_option autoImplicit false

namespace ChartInflation.Path

variable {d p q : Path} {name : String}

def isStep (piece : String) : Bool :=
  piece != "." && piece != ""

def start (p : Path) : List Component :=
  if p.isAbsolute then [.root] else if p.names.head? = some "." then [.here] else []

theorem components_eq (p : Path) : p.components = p.start ++ p.inner.map componentOf := by
  unfold components start inner
  split
  · rfl
  · split <;> rfl

theorem inner_eq (p : Path) : p.inner = (piecesOf '/' p.text).filter isStep := by
  rw [inner, names, List.filter_filter]
  rfl

/-! ## Joining -/

theorem start_join (relative : q.isAbsolute = false) (first : q.names.head? ≠ some ".") :
    (d.join q).start = d.start := by
  have head : (d.join q).names.head? = some "." ↔ d.names.head? = some "." := by
    rw [names_join relative]
    cases d.names <;> simp [first]
  simp only [start, isAbsolute_join relative, head]

theorem components_join (relative : q.isAbsolute = false) (first : q.names.head? ≠ some ".") :
    (d.join q).components = d.components ++ q.inner.map componentOf := by
  have names : (d.join q).inner = d.inner ++ q.inner := by
    rw [inner, names_join relative, List.filter_append, inner, inner]
  rw [components_eq, components_eq, start_join relative first, names, List.map_append,
    List.append_assoc]

theorem components_joinName (noSlash : '/' ∉ name.toList) (notHere : name ≠ ".")
    (notUp : name ≠ "..") :
    (d.joinName name).components = d.components ++ (if name = "" then [] else [.name name]) := by
  have cut : piecesOf '/' name = [name] := piecesOf_of_not_mem noSlash
  have first : (names ⟨name⟩).head? ≠ some "." := by
    rw [names, cut]
    by_cases empty : name = "" <;> simp [empty, notHere]
  rw [joinName, components_join (isAbsolute_of_not_mem noSlash) first, inner_eq, cut]
  by_cases empty : name = ""
  · simp [isStep, empty]
  · rw [List.filter_cons_of_pos (by simp [isStep, empty, notHere]), if_neg empty]
    simp [componentOf, notUp]

/-! ## The path above -/

def startOf (first : String) : List Component :=
  if first = "" then [.root] else if first = "." then [.here] else []

theorem isAbsolute_iff_pieces {first : String} {more : List String}
    (cut : piecesOf '/' p.text = first :: more) : p.isAbsolute ↔ first = "" ∧ more ≠ [] := by
  cases text : p.text.toList with
  | nil =>
      rw [piecesOf, text] at cut
      obtain ⟨rfl, rfl⟩ := List.cons.inj cut
      simp [isAbsolute, text]
  | cons c rest =>
      have some := pieces_ne_nil '/' rest
      rw [piecesOf, text, pieces] at cut
      by_cases slash : c = '/'
      · rw [if_pos slash] at cut
        obtain ⟨rfl, rfl⟩ := List.cons.inj cut
        simp [isAbsolute, text, slash, some]
      · rw [if_neg slash] at cut
        cases behind : pieces '/' rest with
        | nil => exact absurd behind some
        | cons piece pieces =>
            rw [behind] at cut
            obtain ⟨rfl, rfl⟩ := List.cons.inj cut
            simp [isAbsolute, text, slash]

theorem components_of_pieces {first : String} {more : List String}
    (cut : piecesOf '/' p.text = first :: more) (inhabited : first = "" → more ≠ []) :
    p.components = startOf first ++ ((first :: more).filter isStep).map componentOf := by
  have steps : p.inner = (first :: more).filter isStep := by rw [inner_eq, cut]
  have begins : p.start = startOf first := by
    have absolute := isAbsolute_iff_pieces cut
    by_cases empty : first = ""
    · rw [start, if_pos (absolute.mpr ⟨empty, inhabited empty⟩), startOf, if_pos empty]
    · have head : p.names.head? = some first := by simp [names, cut, empty]
      rw [start, if_neg fun root => empty (absolute.mp root).1, head, startOf, if_neg empty]
      simp only [Option.some.injEq]
  rw [components_eq, begins, steps]

theorem withoutEmptyEnd_suffix (names : List String) : withoutEmptyEnd names <:+ names := by
  induction names with
  | nil => exact List.suffix_rfl
  | cons piece rest ih =>
      unfold withoutEmptyEnd
      split
      · exact ih.trans (List.suffix_cons piece rest)
      · exact List.suffix_rfl

theorem filter_withoutEmptyEnd (names : List String) :
    (withoutEmptyEnd names).filter isStep = names.filter isStep := by
  induction names with
  | nil => rfl
  | cons piece rest ih =>
      unfold withoutEmptyEnd
      split
      next noStep =>
        rw [ih, List.filter_cons_of_neg]
        rcases noStep with rfl | rfl <;> decide
      next => rfl

/-- The path above a last piece that is a step is what stands in front of it. -/
theorem parent?_of_pieces {first : String} {mids : List String}
    (cut : piecesOf '/' p.text = first :: (mids ++ [name])) (step : isStep name) :
    ∃ above, p.parent? = some above ∧
      above.components = startOf first ++ ((first :: mids).filter isStep).map componentOf := by
  have noStop : ¬ (name = "" ∨ name = ".") := by simpa [isStep, and_comm] using step
  -- what is written behind the last step in front of the name is left out, but it is no step
  obtain ⟨kept, isKept⟩ : ∃ kept, kept = (withoutEmptyEnd mids.reverse).reverse := ⟨_, rfl⟩
  have among : kept ⊆ mids := by
    rw [isKept]
    intro piece member
    exact List.mem_reverse.mp ((withoutEmptyEnd_suffix _).subset (List.mem_reverse.mp member))
  have steps : kept.filter isStep = mids.filter isStep := by
    rw [isKept, List.filter_reverse, filter_withoutEmptyEnd, List.filter_reverse,
      List.reverse_reverse]
  have above : p.parent? =
      some ⟨if kept.isEmpty ∧ p.isAbsolute then "/" else joined "/" (first :: kept)⟩ := by
    simp only [parent?, cut, List.head?_cons, Option.getD_some, List.drop_succ_cons, List.drop_zero,
      List.reverse_append, List.reverse_singleton, List.singleton_append, withoutEmptyEnd,
      if_neg noStop, ← isKept]
  refine ⟨_, above, ?_⟩
  by_cases root : kept.isEmpty ∧ p.isAbsolute
  · have empty : first = "" := ((isAbsolute_iff_pieces cut).mp root.2).1
    have nothing : mids.filter isStep = [] := by
      rw [← steps, List.isEmpty_iff.mp root.1, List.filter_nil]
    rw [if_pos root, empty, List.filter_cons_of_neg (by decide), nothing]
    rfl
  · have inhabited : first = "" → kept ≠ [] := by
      intro empty nothing
      have absolute : p.isAbsolute := (isAbsolute_iff_pieces cut).mpr ⟨empty, by simp⟩
      exact root ⟨by rw [nothing]; rfl, absolute⟩
    have again : piecesOf '/' (joined "/" (first :: kept)) = first :: kept := by
      refine piecesOf_joined fun piece member => piecesOf_noSeparator (s := p.text) ?_
      rw [cut]
      rcases List.mem_cons.mp member with rfl | isIn
      · exact List.mem_cons_self ..
      · exact List.mem_cons_of_mem _ (List.mem_append_left _ (among isIn))
    rw [if_neg root, components_of_pieces again inhabited, List.filter_cons, List.filter_cons, steps]

theorem exists_piecesOf_joinName (noSlash : '/' ∉ name.toList) (inhabited : d.text ≠ "") :
    ∃ first mids, piecesOf '/' (d.joinName name).text = first :: (mids ++ [name]) ∧
      d.components = startOf first ++ ((first :: mids).filter isStep).map componentOf := by
  have last : piecesOf '/' name = [name] := piecesOf_of_not_mem noSlash
  obtain ⟨slash, text, rfl | ⟨rfl, empty | closed⟩⟩ :=
    text_join (d := d) (isAbsolute_of_not_mem noSlash)
  · obtain ⟨first, more, cut, begins⟩ := exists_piecesOf '/' d.text
    refine ⟨first, more, ?_, components_of_pieces cut (begins inhabited)⟩
    rw [joinName, piecesOf_append d.text name (by simpa using text), cut, last, List.cons_append]
  · exact absurd empty inhabited
  · -- the slash that the path ends in stands in front of the name
    rw [endsInSlash, beq_iff_eq] at closed
    obtain ⟨front, isFront⟩ := List.getLast?_eq_some_iff.mp closed
    obtain ⟨first, more, cut, -⟩ := exists_piecesOf '/' (String.ofList front)
    have own : piecesOf '/' d.text = first :: (more ++ [""]) := by
      rw [piecesOf_append (String.ofList front) "" (by simpa using isFront), cut]
      rfl
    have noStep : [""].filter isStep = [] := rfl
    refine ⟨first, more, ?_, ?_⟩
    · rw [joinName, piecesOf_append (String.ofList front) name (by simpa [isFront] using text), cut,
        last, List.cons_append]
    · rw [components_of_pieces own (by simp), ← List.cons_append, List.filter_append, noStep,
        List.append_nil]

/-- The path above a name is the path that the name was joined to. -/
theorem parent?_joinName (noSlash : '/' ∉ name.toList) (step : isStep name) :
    ∃ above, (d.joinName name).parent? = some above ∧ above.components = d.components := by
  by_cases empty : d.text = ""
  · -- nothing but the name is written
    have alone : d.joinName name = ⟨name⟩ := by
      simp [joinName, join, isEmpty, empty, isAbsolute_of_not_mem noSlash]
    have nothing : d = ⟨""⟩ := by rw [← empty]
    have inhabited : name ≠ "" := by
      rintro rfl
      cases step
    refine ⟨⟨""⟩, ?_, by rw [nothing]⟩
    rw [alone]
    simp [parent?, piecesOf_of_not_mem noSlash, withoutEmptyEnd, inhabited]
  · obtain ⟨first, mids, cut, steps⟩ := exists_piecesOf_joinName noSlash empty
    obtain ⟨above, isAbove, same⟩ := parent?_of_pieces cut step
    exact ⟨above, isAbove, same.trans steps.symm⟩

end ChartInflation.Path
