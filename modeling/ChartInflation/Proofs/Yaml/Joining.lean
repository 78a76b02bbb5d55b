import ChartInflation.Proofs.Yaml.Markers
import ChartInflation.Proofs.Yaml.Moving

/-!
# Documents one after the other

Texts that are each read as one document, and hold no marker, are read as just these documents when
they are put together with `---` lines between them (`documentsOfText_joined`).
-/

set_option autoImplicit false

namespace ChartInflation.Yaml

/-- A text without markers that is read as one document. -/
structure ReadsAlone (text : String) (document : Document) : Prop where
  unmarked : LineState.start.after text.toList = .start
  read : documentsOfText text.toList = .ok [document]
  inhabited : document ≠ .void

def sectionOf (opening : Opening) (ts : List Token) : Except Fault Section := do
  let directives ← directivesOnly (ts.dropWhile (!isDirective ·))
  return ⟨opening, ts.takeWhile (!isDirective ·), directives⟩

theorem readSection_stream (text : List Char) :
    readSection .stream text = tokens ⟨0, 0, 0⟩ true text >>= sectionOf .stream := rfl

theorem readSection_start (text : List Char) :
    readSection .start text = tokens ⟨3, 0, 3⟩ false text >>= sectionOf .start := rfl

theorem sectionOf_eq_ok_iff (opening : Opening) (ts : List Token) (s : Section) :
    sectionOf opening ts = .ok s ↔ s.opening = opening ∧ s.content = ts.takeWhile (!isDirective ·) ∧
      directivesOnly (ts.dropWhile (!isDirective ·)) = .ok s.directives := by
  obtain ⟨o, content, directives⟩ := s
  simp only [sectionOf, Outcome.bind_eq_ok_iff, Outcome.pure_eq_ok, Except.ok.injEq,
    Section.mk.injEq]
  constructor
  · rintro ⟨_, isDirectives, rfl, rfl, rfl⟩
    exact ⟨rfl, rfl, isDirectives⟩
  · rintro ⟨rfl, rfl, isDirectives⟩
    exact ⟨_, isDirectives, rfl, rfl, rfl⟩

/-- The section of a text at the start of a stream is its section also behind a marker. -/
theorem readSection_behind_marker {text : List Char} {s : Section}
    (read : readSection .stream text = .ok s) :
    readSection .start ('\n' :: text) = .ok { s with opening := .start } := by
  rw [readSection_stream, Outcome.bind_eq_ok_iff] at read
  obtain ⟨ts, isTokens, isSection⟩ := read
  rw [readSection_start, tokens_behind_marker isTokens, Outcome.ok_bind, sectionOf_eq_ok_iff]
  exact ⟨rfl, ((sectionOf_eq_ok_iff _ _ _).mp isSection).2⟩

theorem documentsOfText_eq_ok_iff (text : List Char) (found : List Document) :
    documentsOfText text = .ok found ↔ text.all isAllowed ∧ ∃ ss documents,
      List.Forall₂ (fun t s => readSection t.1 t.2 = .ok s) (sections text) ss ∧
      documentsOf ss = .ok documents ∧
      found = if documents.isEmpty then [.void] else documents := by
  unfold documentsOfText
  cases allowed : text.all isAllowed with
  | false => simp
  | true =>
      simp only [Bool.not_true, Bool.false_eq_true, if_false, true_and, Outcome.bind_eq_ok_iff,
        Outcome.mapM_eq_ok_iff, Outcome.pure_eq_ok, Except.ok.injEq]
      constructor
      · rintro ⟨ss, areRead, documents, isDocuments, rfl⟩
        exact ⟨ss, documents, areRead, isDocuments, rfl⟩
      · rintro ⟨ss, documents, areRead, isDocuments, rfl⟩
        exact ⟨ss, areRead, documents, isDocuments, rfl⟩

structure ReadsBehind (text : String) (document : Document) : Prop where
  unmarked : LineState.start.after text.toList = .start
  allowed : text.toList.all isAllowed
  read : ∃ content, readContent [] content = .ok document ∧
    readSection .stream text.toList = .ok ⟨.stream, content, []⟩

theorem documentsOf_single_eq_ok_iff (s : Section) (document : Document) :
    documentsOf [s] = .ok [document] ↔
      s.content ≠ [] ∧ s.directives = [] ∧ readContent [] s.content = .ok document := by
  obtain ⟨opening, content, directives⟩ := s
  cases content with
  | nil => cases directives <;> simp [documentsOf, laterDocuments]
  | cons t ts =>
      cases directives with
      | nil => simp [documentsOf, laterDocuments, Outcome.bind_eq_ok_iff]
      | cons d ds => simp [documentsOf, laterDocuments, Outcome.bind_eq_ok_iff]

theorem ReadsAlone.exists_content {text : String} {document : Document}
    (alone : ReadsAlone text document) : text.toList.all isAllowed ∧ ∃ content, content ≠ [] ∧
      readContent [] content = .ok document ∧
      readSection .stream text.toList = .ok ⟨.stream, content, []⟩ := by
  obtain ⟨allowed, ss, documents, areRead, isDocuments, found⟩ :=
    (documentsOfText_eq_ok_iff _ _).mp alone.read
  have only := sections_joined text [] (by simpa using alone.unmarked)
  rw [joined, List.map_nil] at only
  rw [only, List.forall₂_cons_left_iff] at areRead
  obtain ⟨s, rest, isRead, noMore, rfl⟩ := areRead
  rw [List.forall₂_nil_left_iff] at noMore
  subst noMore
  have isDocument : documents = [document] := by
    cases documents with
    | nil => simp [alone.inhabited] at found
    | cons d ds => simpa using found.symm
  rw [isDocument, documentsOf_single_eq_ok_iff] at isDocuments
  obtain ⟨inhabited, noDirectives, isContent⟩ := isDocuments
  obtain ⟨ts, -, isSection⟩ := Outcome.bind_eq_ok_iff.mp (readSection_stream _ ▸ isRead)
  have opens := ((sectionOf_eq_ok_iff _ _ _).mp isSection).1
  obtain ⟨opening, content, directives⟩ := s
  cases opens
  cases noDirectives
  exact ⟨allowed, content, inhabited, isContent, isRead⟩

theorem ReadsAlone.behind {text : String} {document : Document} (alone : ReadsAlone text document) :
    ReadsBehind text document := by
  obtain ⟨allowed, content, -, isContent, isRead⟩ := alone.exists_content
  exact ⟨alone.unmarked, allowed, content, isContent, isRead⟩

theorem laterDocuments_eq_ok {documents : List Document} {contents : List (List Token)}
    (read : List.Forall₂ (fun d c => readContent [] c = .ok d) documents contents) :
    laterDocuments [] (contents.map fun content => ⟨.start, content, []⟩) = .ok documents := by
  induction read with
  | nil => rfl
  | cons isDocument _ ih => simp [laterDocuments, isDocument, ih]

theorem all_joined {p : Char → Bool} {separator : String} (separates : separator.toList.all p)
    {texts : List String} (all : ∀ t ∈ texts, t.toList.all p) :
    (joined separator texts).toList.all p := by
  induction texts with
  | nil => rfl
  | cons text texts ih =>
      rw [List.forall_mem_cons] at all
      cases texts with
      | nil => exact all.1
      | cons t texts =>
          rw [joined, String.toList_append, String.toList_append, List.all_append, List.all_append,
            all.1, separates, ih all.2]
          · rfl
          · simp

theorem exists_contents {texts : List String} {documents : List Document}
    (behind : List.Forall₂ ReadsBehind texts documents) :
    (∀ t ∈ texts, t.toList.all isAllowed) ∧
    (∀ t ∈ texts, LineState.start.after t.toList = .start) ∧
    ∃ contents : List (List Token),
      List.Forall₂ (fun d c => readContent [] c = .ok d) documents contents ∧
      List.Forall₂ (fun t s => readSection t.1 t.2 = .ok s)
        (texts.map fun t => (.start, '\n' :: t.toList))
        (contents.map fun content => ⟨.start, content, []⟩) := by
  induction behind with
  | nil => exact ⟨by simp, by simp, [], .nil, .nil⟩
  | cons isBehind _ ih =>
      obtain ⟨unmarked, allowed, content, isContent, isRead⟩ := isBehind
      obtain ⟨othersAllowed, othersUnmarked, contents, areContents, areSections⟩ := ih
      exact ⟨List.forall_mem_cons.mpr ⟨allowed, othersAllowed⟩,
        List.forall_mem_cons.mpr ⟨unmarked, othersUnmarked⟩, content :: contents,
        .cons isContent areContents, .cons (readSection_behind_marker isRead) areSections⟩

/-- Documents with `---` lines between them are read one after the other. -/
theorem documentsOfText_joined {text : String} {texts : List String} {document : Document}
    {documents : List Document} (alone : ReadsAlone text document)
    (others : List.Forall₂ ReadsAlone texts documents) :
    documentsOfText (joined "---\n" (text :: texts)).toList = .ok (document :: documents) := by
  obtain ⟨allowed, content, inhabited, isContent, isRead⟩ := alone.exists_content
  obtain ⟨othersAllowed, unmarked, contents, areContents, areSections⟩ :=
    exists_contents (others.imp fun _ _ => ReadsAlone.behind)
  rw [documentsOfText_eq_ok_iff,
    sections_joined text texts (List.forall_mem_cons.mpr ⟨alone.unmarked, unmarked⟩)]
  refine ⟨all_joined (by decide) (List.forall_mem_cons.mpr ⟨allowed, othersAllowed⟩),
    _, document :: documents, .cons isRead areSections, ?_, rfl⟩
  obtain ⟨t, ts, rfl⟩ := List.exists_cons_of_ne_nil inhabited
  simp [documentsOf, isContent, laterDocuments_eq_ok areContents]

/-! ## Texts in which there is nothing to read -/

structure HoldsNothing (text : String) : Prop where
  unmarked : LineState.start.after text.toList = .start
  allowed : text.toList.all isAllowed
  noTokens : tokens ⟨0, 0, 0⟩ true text.toList = .ok []

variable {text : String} {documents : List Document}

theorem HoldsNothing.readSection (nothing : HoldsNothing text) :
    readSection .stream text.toList = .ok ⟨.stream, [], []⟩ := by
  rw [readSection_stream, nothing.noTokens]
  rfl

theorem HoldsNothing.behind (nothing : HoldsNothing text) :
    ReadsBehind text (.content Node.empty) :=
  ⟨nothing.unmarked, nothing.allowed, [], rfl, nothing.readSection⟩

/-- Behind such a text each document begins at a `---` line. -/
theorem documentsOfText_behind {texts : List String} (nothing : HoldsNothing text)
    (behind : List.Forall₂ ReadsBehind texts documents) (some : documents ≠ []) :
    documentsOfText (joined "---\n" (text :: texts)).toList = .ok documents := by
  obtain ⟨allowed, unmarked, contents, areContents, areSections⟩ := exists_contents behind
  rw [documentsOfText_eq_ok_iff,
    sections_joined text texts (List.forall_mem_cons.mpr ⟨nothing.unmarked, unmarked⟩)]
  refine ⟨all_joined (by decide) (List.forall_mem_cons.mpr ⟨nothing.allowed, allowed⟩),
    _, documents, .cons nothing.readSection areSections, ?_, by simp [some]⟩
  have later := laterDocuments_eq_ok areContents
  cases contents with
  | nil => exact later
  | cons content contents => exact later

theorem readSection_behind_break {text : List Char} {s : Section}
    (read : readSection .stream text = .ok s) : readSection .stream ('\n' :: text) = .ok s := by
  rw [readSection_stream, Outcome.bind_eq_ok_iff] at read ⊢
  obtain ⟨ts, isTokens, isSection⟩ := read
  exact ⟨ts, tokens_behind_break isTokens, isSection⟩

theorem ReadsBehind.after_break {document : Document} (behind : ReadsBehind text document) :
    ReadsBehind ("\n" ++ text) document := by
  obtain ⟨unmarked, allowed, content, isContent, isRead⟩ := behind
  have lines : ("\n" ++ text).toList = '\n' :: text.toList := by simp
  refine ⟨?_, ?_, content, isContent, ?_⟩
  · rw [lines]
    exact unmarked
  · rw [lines, List.all_cons, allowed]
    rfl
  · rw [lines]
    exact readSection_behind_break isRead

end ChartInflation.Yaml
