import ChartInflation.Proofs.Inflation.Output
import ChartInflation.Proofs.Text.Utf8
import ChartInflation.Proofs.Yaml.BareStart

/-!
# Where the second reading begins

The second reading looks for the first line that starts a document and holds nothing else.  It finds
these lines as the document reader knows them (`isStart_encode_iff`), and also those where the comment
follows the dashes at once, which are text to the reader.  In front of the first start, only such a
line makes a difference (`documents_from_first_start`, `documents_from_glued_line`).
-/

set_option autoImplicit false

namespace ChartInflation.Output

open Yaml (Value atSpacing isBreak isGap isIdle IsBareStart OneLine)

/-- A line that starts a document and holds nothing else: dashes and blanks, and behind at least one
blank perhaps a comment, which is well-formed text. -/
def IsStart (line : Bytes) : Prop :=
  ∃ comment, Opens line comment ∧ (Utf8.decode? comment).isSome

/-- A line on which a comment follows the dashes at once. -/
def IsGlued (line : Bytes) : Prop :=
  ∃ comment, line = dashes ++ 0x23 :: comment ∧ (Utf8.decode? comment).isSome

def documentsOfLines : List Bytes → Except InputError (List Value)
  | [] => .ok []
  | lines =>
    match Value.ofStream ([0x0A].intercalate lines) with
    | .error fault => .error (.yaml fault)
    | .ok values => .ok (values.filter (!·.isNull))

/-! ## The lines that separate documents -/

theorem start_or_glued {line : Bytes} (separates : isSeparator line) :
    IsStart line ∨ IsGlued line := by
  unfold isSeparator at separates
  split at separates
  case h_2 => cases separates
  case h_1 rest =>
    have areBlank : ∀ b ∈ rest.takeWhile (fun b => b == 0x20 || b == 0x09), b = 0x20 ∨ b = 0x09 := by
      intro b member
      simpa using List.all_eq_true.mp List.all_takeWhile b member
    have whole : rest.takeWhile (fun b => b == 0x20 || b == 0x09) ++
        rest.dropWhile (fun b => b == 0x20 || b == 0x09) = rest := List.takeWhile_append_dropWhile
    generalize rest.takeWhile (fun b => b == 0x20 || b == 0x09) = blanks at areBlank whole
    generalize rest.dropWhile (fun b => b == 0x20 || b == 0x09) = behind at separates whole
    subst whole
    split at separates
    · exact Or.inl ⟨[], .bare blanks [] areBlank (Or.inl rfl), rfl⟩
    · exact Or.inl ⟨[], .bare blanks [0x0D] areBlank (Or.inr rfl), rfl⟩
    · next comment =>
      cases blanks with
      | nil => exact Or.inr ⟨comment, rfl, separates⟩
      | cons b blanks =>
          exact Or.inl ⟨comment, .commented (b :: blanks) comment areBlank (by simp), separates⟩
    · cases separates

theorem isSeparator_iff (line : Bytes) : isSeparator line ↔ IsStart line ∨ IsGlued line := by
  constructor
  · exact start_or_glued
  · rintro (⟨comment, opens, decodes⟩ | ⟨comment, rfl, decodes⟩)
    · rw [isSeparator_of_opens opens]
      exact decodes
    · exact decodes

theorem Opens.spaced {octets comment : Bytes} (opens : Opens octets comment) :
    octets[3]? ≠ some 0x23 := by
  have blank_first (b : UInt8) (rest : Bytes) (blank : b = 0x20 ∨ b = 0x09) :
      (dashes ++ b :: rest)[3]? ≠ some 0x23 := by
    intro isSign
    rcases blank with rfl | rfl <;> cases isSign
  cases opens with
  | bare blanks ending areBlank ended =>
      cases blanks with
      | nil => rcases ended with rfl | rfl <;> decide
      | cons b blanks => exact blank_first b _ (areBlank b (List.mem_cons_self ..))
  | commented blanks comment areBlank separated =>
      cases blanks with
      | nil => exact absurd rfl separated
      | cons b blanks => exact blank_first b _ (areBlank b (List.mem_cons_self ..))

theorem isStart_iff (octets : Bytes) :
    IsStart octets ↔ isSeparator octets ∧ octets[3]? ≠ some 0x23 := by
  constructor
  · intro start
    refine ⟨(isSeparator_iff octets).mpr (Or.inl start), ?_⟩
    obtain ⟨comment, opens, _⟩ := start
    exact opens.spaced
  · rintro ⟨separates, spaced⟩
    rcases start_or_glued separates with start | ⟨comment, rfl, _⟩
    · exact start
    · exact absurd rfl spaced

theorem isGlued_iff (octets : Bytes) :
    IsGlued octets ↔ isSeparator octets ∧ octets[3]? = some 0x23 := by
  constructor
  · intro glued
    refine ⟨(isSeparator_iff octets).mpr (Or.inr glued), ?_⟩
    obtain ⟨comment, rfl, _⟩ := glued
    rfl
  · rintro ⟨separates, unspaced⟩
    rcases start_or_glued separates with ⟨comment, opens, _⟩ | glued
    · exact absurd unspaced opens.spaced
    · exact glued

instance : DecidablePred IsStart := fun line => decidable_of_iff _ (isStart_iff line).symm

instance : DecidablePred IsGlued := fun line => decidable_of_iff _ (isGlued_iff line).symm

/-! ## What the document reader makes of these lines -/

theorem dropWhile_encode (text : List Char) :
    (Utf8.encode text).dropWhile (fun b => b == 0x20 || b == 0x09) =
      Utf8.encode (text.dropWhile isGap) := by
  induction text with
  | nil => rfl
  | cons c text ih =>
      by_cases gap : isGap c
      · have blank : c = ' ' ∨ c = '\t' := by simpa [isGap] using gap
        rw [List.dropWhile_cons_of_pos gap, ← ih]
        rcases blank with rfl | rfl <;> rfl
      · rw [List.dropWhile_cons_of_neg gap]
        cases octets : Utf8.encode (c :: text) with
        | nil => rfl
        | cons b back =>
            refine List.dropWhile_cons_of_neg ?_
            intro blank
            have isBlank : b = 0x20 ∨ b = 0x09 := by simpa using blank
            rcases isBlank with rfl | rfl
            all_goals
              obtain ⟨_, isText, _⟩ := (Utf8.encode_eq_cons_iff (by decide) _ _).mp octets
              cases isText
              exact gap rfl

theorem isSeparator_encode (rest : List Char) :
    isSeparator (Utf8.encode ('-' :: '-' :: '-' :: rest)) ↔ isIdle rest := by
  change isSeparator (0x2D :: 0x2D :: 0x2D :: Utf8.encode rest) ↔ _
  rw [isSeparator, dropWhile_encode, isIdle]
  generalize rest.dropWhile isGap = behind
  constructor
  · intro separates
    split at separates
    next nothing =>
      rw [(Utf8.encode_eq_nil_iff behind).mp nothing]
    next isReturn =>
      obtain ⟨more, rfl, nothing⟩ := (Utf8.encode_eq_cons_iff (by decide) _ _).mp isReturn
      rw [(Utf8.encode_eq_nil_iff more).mp nothing]
      rfl
    next comment isComment =>
      obtain ⟨more, rfl, _⟩ := (Utf8.encode_eq_cons_iff (by decide) _ _).mp isComment
      rfl
    next => cases separates
  · intro idle
    split at idle
    next => rfl
    next => rfl
    next comment =>
      change (Utf8.decode? (Utf8.encode comment)).isSome
      rw [Utf8.decode?_encode]
      rfl
    next => cases idle

theorem isSeparator_encode_iff (text : List Char) : isSeparator (Utf8.encode text) ↔
    ∃ rest, text = '-' :: '-' :: '-' :: rest ∧ isIdle rest := by
  constructor
  · intro separates
    obtain ⟨rest, isLine⟩ := dashes_of_isSeparator separates
    obtain ⟨_, rfl, second⟩ := (Utf8.encode_eq_cons_iff (by decide) _ _).mp isLine.symm
    obtain ⟨_, rfl, third⟩ := (Utf8.encode_eq_cons_iff (by decide) _ _).mp second
    obtain ⟨behind, rfl, _⟩ := (Utf8.encode_eq_cons_iff (by decide) _ _).mp third
    exact ⟨behind, rfl, (isSeparator_encode behind).mp separates⟩
  · rintro ⟨rest, rfl, idle⟩
    exact (isSeparator_encode rest).mpr idle

theorem atSpacing_iff {rest : List Char} (idle : isIdle rest) :
    atSpacing rest ↔ (Utf8.encode ('-' :: '-' :: '-' :: rest))[3]? ≠ some 0x23 := by
  change _ ↔ (Utf8.encode rest)[0]? ≠ some 0x23
  rw [← List.head?_eq_getElem?, Ne, List.head?_eq_some_iff]
  simp only [Utf8.encode_eq_cons_iff (show (0x23 : UInt8) < 0x80 by decide)]
  cases rest with
  | nil => simp [atSpacing]
  | cons c rest =>
      rcases Yaml.first_of_isIdle idle with gap | rfl | rfl
      · have blank : c = ' ' ∨ c = '\t' := by simpa [isGap] using gap
        rcases blank with rfl | rfl <;> simp [atSpacing, isGap]
      · simp [atSpacing, isBreak]
      · simp [atSpacing, isGap, isBreak]

/-- Of a line that is text, the second reading and the document reader agree on whether it is a
start. -/
theorem isStart_encode_iff {text : List Char} (oneLine : OneLine text) :
    IsStart (Utf8.encode text) ↔ IsBareStart text := by
  rw [isStart_iff, isSeparator_encode_iff, Yaml.isBareStart_iff oneLine]
  constructor
  · rintro ⟨⟨rest, rfl, idle⟩, spaced⟩
    exact ⟨rest, rfl, (atSpacing_iff idle).mpr spaced, idle⟩
  · rintro ⟨rest, rfl, spaced, idle⟩
    exact ⟨⟨rest, rfl, idle⟩, (atSpacing_iff idle).mp spaced⟩

/-! ## The first line that separates -/

theorem tail_splitOn_cons (b : UInt8) (bytes : Bytes) : ((b :: bytes).splitOn 0x0A).tail =
    if b == 0x0A then bytes.splitOn 0x0A else (bytes.splitOn 0x0A).tail := by
  rw [splitOn_cons]
  by_cases isEnd : b = 0x0A
  · simp [isEnd]
  · obtain ⟨more, cut⟩ := splitOn_eq_cons bytes
    simp [isEnd, cut]

/-- What is found is the first separator line and all lines behind it. -/
theorem fromSeparator?_eq (lineStart : Bool) (bytes : Bytes) : fromSeparator? lineStart bytes =
    match (if lineStart then bytes.splitOn 0x0A else (bytes.splitOn 0x0A).tail).dropWhile
      (!isSeparator ·) with
    | [] => none
    | lines => some ([0x0A].intercalate lines) := by
  induction bytes generalizing lineStart with
  | nil => cases lineStart <;> rfl
  | cons b bytes ih =>
      -- behind this octet, the lines that begin are all but the first one of the whole
      rw [fromSeparator?, ih, ← tail_splitOn_cons]
      obtain ⟨more, cut⟩ := splitOn_eq_cons (b :: bytes)
      by_cases here : lineStart && isSeparator (firstLine (b :: bytes))
      · obtain ⟨rfl, separates⟩ := Bool.and_eq_true_iff.mp here
        rw [if_pos here, if_pos rfl, cut, List.dropWhile_cons_of_neg (by simp [separates])]
        change _ = some ([0x0A].intercalate (firstLine (b :: bytes) :: more))
        rw [← cut, List.intercalate_splitOn]
      · rw [if_neg here]
        cases lineStart with
        | false => rfl
        | true =>
            have passed : (!isSeparator (firstLine (b :: bytes))) = true := by simpa using here
            have dropped : (firstLine (b :: bytes) :: more).dropWhile (!isSeparator ·) =
                more.dropWhile (!isSeparator ·) := List.dropWhile_cons_of_pos passed
            rw [if_pos rfl, cut, dropped]
            rfl

theorem documents_eq (bytes : Bytes) : documents bytes =
    documentsOfLines ((bytes.splitOn 0x0A).dropWhile (!isSeparator ·)) := by
  rw [documents, fromSeparator?_eq, if_pos rfl]
  cases (bytes.splitOn 0x0A).dropWhile (!isSeparator ·) <;> rfl

/-- Where a test passes all that another one passes, and the other one stops no later, both drop the
same. -/
theorem dropWhile_eq_of_takeWhile {α : Type} {p q : α → Bool} {xs : List α}
    (weaker : ∀ x, q x → p x) (agree : ∀ x ∈ xs.takeWhile p, q x) :
    xs.dropWhile q = xs.dropWhile p := by
  induction xs with
  | nil => rfl
  | cons x xs ih =>
      by_cases passes : p x
      · rw [List.takeWhile_cons_of_pos passes, List.forall_mem_cons] at agree
        rw [List.dropWhile_cons_of_pos passes, List.dropWhile_cons_of_pos agree.1, ih agree.2]
      · have stops : ¬ q x := fun passed => passes (weaker x passed)
        rw [List.dropWhile_cons_of_neg passes, List.dropWhile_cons_of_neg stops]

/-- The second reading begins at the first line that is a start or has its comment glued to the
dashes.  If none of the latter stands in front of the first start, it gives the documents from this
start on.  A start is what the document reader takes for one. -/
theorem documents_from_first_start (bytes : Bytes) :
    documents bytes = documentsOfLines
      ((bytes.splitOn 0x0A).dropWhile fun line => ¬ (IsStart line ∨ IsGlued line)) ∧
    ((∀ line ∈ (bytes.splitOn 0x0A).takeWhile (¬ IsStart ·), ¬ IsGlued line) →
      documents bytes = documentsOfLines ((bytes.splitOn 0x0A).dropWhile (¬ IsStart ·))) ∧
    ∀ text, OneLine text → (IsStart (Utf8.encode text) ↔ IsBareStart text) := by
  have found : documents bytes = documentsOfLines
      ((bytes.splitOn 0x0A).dropWhile fun line => ¬ (IsStart line ∨ IsGlued line)) := by
    rw [documents_eq]
    congr 2
    funext line
    simp only [← isSeparator_iff]
    simp
  refine ⟨found, ?_, fun text oneLine => isStart_encode_iff oneLine⟩
  intro unglued
  rw [found, dropWhile_eq_of_takeWhile]
  · intro line passes
    simp only [decide_eq_true_eq] at passes ⊢
    exact fun start => passes (Or.inl start)
  · intro line member
    have passes := List.all_eq_true.mp List.all_takeWhile line member
    simp only [decide_eq_true_eq] at passes ⊢
    exact not_or.mpr ⟨passes, unglued line member⟩

def noteInFront : Bytes := Bytes.ofString "NOTE\n--- # a\na: 1\n"

theorem documents_behind_note : documents noteInFront =
      documentsOfLines [Bytes.ofString "--- # a", Bytes.ofString "a: 1", []] ∧
    IsBareStart "--- # a".toList := by
  have unglued : ∀ line ∈ (noteInFront.splitOn 0x0A).takeWhile (¬ IsStart ·), ¬ IsGlued line := by
    decide +kernel
  have lines : (noteInFront.splitOn 0x0A).dropWhile (¬ IsStart ·) =
      [Bytes.ofString "--- # a", Bytes.ofString "a: 1", []] := by
    decide +kernel
  have oneLine : OneLine "--- # a".toList :=
    ⟨"--- # a".toList, [], by simp, Yaml.goesOn_of_all (by decide +kernel), Or.inl rfl⟩
  obtain ⟨_, behind, readers⟩ := documents_from_first_start noteInFront
  rw [← lines]
  exact ⟨behind unglued, (readers _ oneLine).mp (by decide +kernel)⟩

def gluedInFront : Bytes := Bytes.ofString "---#banner\n---\na: 1\n"

/-- The line in front is found, and its text is one document more. -/
theorem documents_from_glued_line : documents gluedInFront ≠
    documentsOfLines ((gluedInFront.splitOn 0x0A).dropWhile (¬ IsStart ·)) := by
  have fromGlued : (documents gluedInFront).toOption.map List.length = some 2 := by
    decide +kernel
  have fromStart : (documentsOfLines
      ((gluedInFront.splitOn 0x0A).dropWhile (¬ IsStart ·))).toOption.map List.length = some 1 := by
    decide +kernel
  intro same
  rw [same, fromStart] at fromGlued
  cases fromGlued

end ChartInflation.Output
