import ChartInflation.Inflation.Output
import ChartInflation.Proofs.Resources

/-!
# Notes in front of the documents

The second reading of what the renderer printed drops whole lines up to the first separator line.
Where none of these lines begins with dashes, it finds exactly the resources of the documents behind
them (`resources_behind_noise`).  A separator line is known by its dashes and blanks and by a
comment that is well-formed text; a comment that is not keeps the line from being found
(`isSeparator_of_opens`).
-/

set_option autoImplicit false

namespace ChartInflation.Output

open Yaml (Value)

def dashes : Bytes := [0x2D, 0x2D, 0x2D]

/-- A line that opens a document: dashes and blanks, and behind at least one blank a comment.  The
second argument is the text of the comment. -/
inductive Opens : Bytes → Bytes → Prop where
  | bare (blanks ending : Bytes) (areBlank : ∀ b ∈ blanks, b = 0x20 ∨ b = 0x09)
      (ended : ending = [] ∨ ending = [0x0D]) : Opens (dashes ++ (blanks ++ ending)) []
  | commented (blanks comment : Bytes) (areBlank : ∀ b ∈ blanks, b = 0x20 ∨ b = 0x09)
      (separated : blanks ≠ []) : Opens (dashes ++ (blanks ++ 0x23 :: comment)) comment

/-- Octets in front of the documents: whole lines, none of which begins with dashes. -/
structure Noise (front : Bytes) : Prop where
  ended : front = [] ∨ front.getLast? = some 0x0A
  quiet : ∀ line ∈ front.splitOn 0x0A, ¬ dashes <+: line

/-! ## Lines -/

theorem isSeparator_blanks {blanks : Bytes} (areBlank : ∀ b ∈ blanks, b = 0x20 ∨ b = 0x09)
    (rest : Bytes) : isSeparator (dashes ++ (blanks ++ rest)) = isSeparator (dashes ++ rest) := by
  have dropped : (blanks ++ rest).dropWhile (fun b => b == 0x20 || b == 0x09) =
      rest.dropWhile fun b => b == 0x20 || b == 0x09 :=
    List.dropWhile_append_of_pos fun b member => by simpa using areBlank b member
  change isSeparator (0x2D :: 0x2D :: 0x2D :: (blanks ++ rest)) =
    isSeparator (0x2D :: 0x2D :: 0x2D :: rest)
  rw [isSeparator, isSeparator, dropped]

/-- An opening line separates documents exactly if its comment is well-formed text. -/
theorem isSeparator_of_opens {line comment : Bytes} (opens : Opens line comment) :
    isSeparator line = (Utf8.decode? comment).isSome := by
  cases opens with
  | bare blanks ending areBlank ended =>
      rw [isSeparator_blanks areBlank]
      rcases ended with rfl | rfl <;> rfl
  | commented blanks comment areBlank separated =>
      rw [isSeparator_blanks areBlank]
      rfl

theorem dashes_of_isSeparator {line : Bytes} (separates : isSeparator line) : dashes <+: line := by
  unfold isSeparator at separates
  split at separates
  next rest => exact ⟨rest, rfl⟩
  next => simp at separates

theorem firstLine_append {front : Bytes} (hasEnd : 0x0A ∈ front) (rest : Bytes) :
    firstLine (front ++ rest) = firstLine front := by
  rw [firstLine, List.takeWhile_append, if_neg]
  · rfl
  · intro sameLength
    have whole : front.takeWhile (· != 0x0A) = front :=
      (List.takeWhile_prefix _).eq_of_length sameLength
    rw [← whole] at hasEnd
    simpa using List.all_eq_true.mp List.all_takeWhile 0x0A hasEnd

theorem firstLine_cons {b : UInt8} (goesOn : b ≠ 0x0A) (bytes : Bytes) :
    firstLine (b :: bytes) = b :: firstLine bytes := by
  rw [firstLine, List.takeWhile_cons_of_pos (by simpa using goesOn)]
  rfl

theorem splitOn_cons (b : UInt8) (bytes : Bytes) : (b :: bytes).splitOn 0x0A =
    if b = 0x0A then [] :: bytes.splitOn 0x0A
    else (bytes.splitOn 0x0A).modifyHead (b :: ·) := by
  rw [List.splitOn, List.splitOnP_cons_eq_if_modifyHead]
  simp [List.splitOn]

theorem splitOn_eq_cons (bytes : Bytes) :
    ∃ more, bytes.splitOn 0x0A = firstLine bytes :: more := by
  induction bytes with
  | nil => exact ⟨[], rfl⟩
  | cons b bytes ih =>
      obtain ⟨more, cut⟩ := ih
      by_cases isEnd : b = 0x0A
      · refine ⟨bytes.splitOn 0x0A, ?_⟩
        rw [splitOn_cons, if_pos isEnd, isEnd]
        rfl
      · refine ⟨more, ?_⟩
        rw [splitOn_cons, if_neg isEnd, cut, firstLine_cons isEnd]
        rfl

/-- The whole lines of what follows an octet are lines of the whole text. -/
theorem mem_lines_cons {b : UInt8} {front line : Bytes} (lineStart : Bool)
    (member : line ∈ if b == 0x0A then front.splitOn 0x0A else (front.splitOn 0x0A).tail) :
    line ∈ if lineStart then (b :: front).splitOn 0x0A else ((b :: front).splitOn 0x0A).tail := by
  by_cases isEnd : b = 0x0A
  · rw [splitOn_cons, if_pos isEnd]
    simp only [isEnd, beq_self_eq_true, if_true] at member
    cases lineStart with
    | true => exact List.mem_cons_of_mem _ member
    | false => exact member
  · rw [splitOn_cons, if_neg isEnd]
    simp only [beq_eq_false_iff_ne.mpr isEnd, Bool.false_eq_true, if_false] at member
    obtain ⟨more, cut⟩ := splitOn_eq_cons front
    rw [cut] at member ⊢
    cases lineStart with
    | true => exact List.mem_cons_of_mem _ member
    | false => exact member

theorem fromSeparator?_append {lineStart : Bool} {front : Bytes} (bytes : Bytes)
    (ended : front = [] ∧ lineStart ∨ front.getLast? = some 0x0A)
    (quiet : ∀ line ∈ if lineStart then front.splitOn 0x0A else (front.splitOn 0x0A).tail,
      ¬ dashes <+: line) :
    fromSeparator? lineStart (front ++ bytes) = fromSeparator? true bytes := by
  induction front generalizing lineStart with
  | nil =>
      have atStart : lineStart = true := by simpa using ended
      rw [atStart, List.nil_append]
  | cons b front ih =>
      have last : (b :: front).getLast? = some 0x0A := by simpa using ended
      have endedAfter : front = [] ∧ (b == 0x0A) ∨ front.getLast? = some 0x0A := by
        cases front with
        | nil => simpa using last
        | cons c front => exact Or.inr (by rwa [List.getLast?_cons_cons] at last)
      have notHere : ¬ (lineStart && isSeparator (firstLine (b :: (front ++ bytes)))) := by
        rw [Bool.and_eq_true, ← List.cons_append, firstLine_append (List.mem_of_getLast? last)]
        rintro ⟨atStart, separates⟩
        obtain ⟨more, cut⟩ := splitOn_eq_cons (b :: front)
        rw [if_pos atStart, cut] at quiet
        exact quiet _ (List.mem_cons_self ..) (dashes_of_isSeparator separates)
      rw [List.cons_append, fromSeparator?, if_neg notHere]
      exact ih endedAfter fun line member => quiet line (mem_lines_cons lineStart member)

theorem fromSeparator?_of_isSeparator {bytes : Bytes} (separates : isSeparator (firstLine bytes)) :
    fromSeparator? true bytes = some bytes := by
  cases bytes with
  | nil => simp [firstLine, isSeparator] at separates
  | cons b bytes => rw [fromSeparator?, if_pos (by simp [separates])]

theorem fromSeparator?_of_opens {bytes comment : Bytes} (opens : Opens (firstLine bytes) comment)
    (wellFormed : (Utf8.decode? comment).isSome) : fromSeparator? true bytes = some bytes :=
  fromSeparator?_of_isSeparator ((isSeparator_of_opens opens).trans wellFormed)

/-! ## The second reading -/

theorem documents_eq_ok_iff {bytes found : Bytes} (begins : fromSeparator? true bytes = some found)
    (values : List Value) : documents bytes = .ok values ↔
      ∃ all, Value.ofStream found = .ok all ∧ values = all.filter (!·.isNull) := by
  cases read : Value.ofStream found with
  | error fault => simp [documents, begins, read]
  | ok all => simp [documents, begins, read, @eq_comm _ values]

/-- The second reading succeeds with the resources of what begins at the separator line, if there
are any. -/
theorem reread_eq_ok_iff {bytes found : Bytes} (begins : fromSeparator? true bytes = some found)
    (primary : InputError) (rs : Resources) :
    reread bytes primary = .ok rs ↔ Resources.ofBytes found = .ok rs ∧ rs ≠ [] := by
  rw [Resources.ofBytes_eq_ok_iff]
  cases read : documents bytes with
  | error e =>
      have unread : ∀ all, Value.ofStream found ≠ .ok all := by
        intro all isRead
        rw [(documents_eq_ok_iff begins _).mpr ⟨all, isRead, rfl⟩] at read
        cases read
      simp [reread, read, unread]
  | ok values =>
      obtain ⟨all, isRead, isFiltered⟩ := (documents_eq_ok_iff begins values).mp read
      have sameResources : Resources.ofValues values = .ok rs ↔ Resources.Are all rs := by
        rw [Resources.ofValues, Resources.ofValuesFrom_eq_ok_iff, isFiltered,
          Resources.are_filter_iff]
      simp only [isRead, Except.ok.injEq, exists_eq_left', ← sameResources]
      cases values with
      | nil =>
          constructor
          · intro accepted
            simp [reread, read] at accepted
          · rintro ⟨accepted, inhabited⟩
            exact absurd (Except.ok.inj accepted).symm inhabited
      | cons v values =>
          have someResource : Resources.ofValues (v :: values) = .ok rs → rs ≠ [] := by
            rw [sameResources, Resources.Are, ← isFiltered]
            rintro are rfl
            cases are
          cases accepted : Resources.ofValues (v :: values) with
          | error e => simp [reread, read, accepted]
          | ok found =>
              rw [accepted] at someResource
              simpa [reread, read, accepted] using someResource

/-- What stands in front of the documents does not change what they are: where the first reading
fails, the second one gives the resources of the documents alone, and fails if these are refused or
hold none.  With nothing in front this says that a refused stream is not accepted in part. -/
theorem resources_behind_noise {front bytes comment : Bytes} (noise : Noise front)
    (opens : Opens (firstLine bytes) comment) (wellFormed : (Utf8.decode? comment).isSome) :
    (∀ rs, Resources.ofBytes (front ++ bytes) = .ok rs → resources (front ++ bytes) = .ok rs) ∧
    ∀ e, Resources.ofBytes (front ++ bytes) = .error e →
      ∀ rs, resources (front ++ bytes) = .ok rs ↔ Resources.ofBytes bytes = .ok rs ∧ rs ≠ [] := by
  have begins : fromSeparator? true (front ++ bytes) = some bytes := by
    rw [fromSeparator?_append bytes (noise.ended.imp_left fun isEmpty => ⟨isEmpty, rfl⟩) noise.quiet]
    exact fromSeparator?_of_opens opens wellFormed
  constructor
  · intro rs accepted
    rw [resources, accepted]
  · intro e refused rs
    rw [resources, refused]
    exact reread_eq_ok_iff begins e rs

def oneResource : Bytes := Bytes.ofString "--- # a\napiVersion: v1\nkind: A\n"

theorem resources_behind_note : ∃ rs, Resources.ofBytes oneResource = .ok rs ∧
    resources (Bytes.ofString "NOTE\n" ++ oneResource) = .ok rs ∧ rs ≠ [] := by
  have accepted : (Resources.ofBytes oneResource).toOption.map List.length = some 1 := by
    decide +kernel
  have refused : (Resources.ofBytes (Bytes.ofString "NOTE\n" ++ oneResource)).toOption.isNone := by
    decide +kernel
  have noise : Noise (Bytes.ofString "NOTE\n") := ⟨by decide +kernel, by decide +kernel⟩
  have opens : Opens (firstLine oneResource) [0x20, 0x61] := by
    have line : firstLine oneResource = dashes ++ ([0x20] ++ 0x23 :: [0x20, 0x61]) := by
      decide +kernel
    rw [line]
    exact .commented [0x20] [0x20, 0x61] (by simp) (by simp)
  cases alone : Resources.ofBytes oneResource with
  | error e => simp [alone, Except.toOption] at accepted
  | ok rs =>
      cases whole : Resources.ofBytes (Bytes.ofString "NOTE\n" ++ oneResource) with
      | ok all => simp [whole, Except.toOption] at refused
      | error e =>
          have inhabited : rs ≠ [] := by
            rintro rfl
            simp [alone, Except.toOption] at accepted
          have behind := (resources_behind_noise noise opens (by decide +kernel)).2 e whole rs
          exact ⟨rs, rfl, behind.mpr ⟨alone, inhabited⟩, inhabited⟩

def hiddenDocument : Bytes :=
  dashes ++ ([0x20] ++ 0x23 :: [0x20, 0xFF]) ++
    0x0A :: Bytes.ofString "kind: lost\n---\napiVersion: v1\nkind: A\n"

/-- The stream is refused, but the second reading passes its first document over. -/
theorem resources_behind_undecodable_comment : ∃ e rs,
    Opens (firstLine hiddenDocument) [0x20, 0xFF] ∧
    Resources.ofBytes ([] ++ hiddenDocument) = .error e ∧
    resources ([] ++ hiddenDocument) = .ok rs ∧ rs ≠ [] := by
  have refused : (Resources.ofBytes hiddenDocument).toOption.isNone := by
    decide +kernel
  have accepted : (resources hiddenDocument).toOption.map List.length = some 1 := by
    decide +kernel
  have opens : Opens (firstLine hiddenDocument) [0x20, 0xFF] := by
    have line : firstLine hiddenDocument = dashes ++ ([0x20] ++ 0x23 :: [0x20, 0xFF]) := by
      decide +kernel
    rw [line]
    exact .commented [0x20] [0x20, 0xFF] (by simp) (by simp)
  rw [List.nil_append]
  cases whole : Resources.ofBytes hiddenDocument with
  | ok all => simp [whole, Except.toOption] at refused
  | error e =>
      cases reread : resources hiddenDocument with
      | error e' => simp [reread, Except.toOption] at accepted
      | ok rs =>
          refine ⟨e, rs, opens, rfl, rfl, ?_⟩
          rintro rfl
          simp [reread, Except.toOption] at accepted

end ChartInflation.Output
