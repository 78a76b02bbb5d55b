import ChartInflation.Proofs.CommandLine.OutputFiles
import ChartInflation.Proofs.ResourceStream
import ChartInflation.Proofs.Yaml.BareStart
import ChartInflation.Proofs.Yaml.Printer.LastLeaf

/-!
# Values shown in front of resources

The effective values are shown between two `---` lines, without the blanks at the end of their text.
What is printed is a stream of documents: the values and then the resources, as long as the blanks
are not part of the values (`shown_values_read_back`).
-/

set_option autoImplicit false

namespace ChartInflation

open Yaml (Value Document HoldsNothing ReadsAlone ReadsBehind)

namespace Yaml

/-! ## Comments -/

theorem skipSpacing_commentLine {body : List Char} (goesOn : ∀ c ∈ body, isBreak c = false)
    (keyAllowed : Bool) (mark : Mark) :
    (skipSpacing false true keyAllowed mark (body ++ ['\n'])).2.2 = [] := by
  induction body generalizing mark with
  | nil => rfl
  | cons c body ih =>
      have inside := goesOn c (List.mem_cons_self ..)
      rw [List.cons_append, skipSpacing]
      · simp only [inside, Bool.false_eq_true, if_false, if_true]
        exact ih (fun d member => goesOn d (List.mem_cons_of_mem _ member)) mark.next
      · exact notPair_of_goesOn inside _

theorem holdsNothing_comment (text : String)
    (oneLine : ∀ c ∈ text.toList, isAllowed c ∧ isBreak c = false) :
    HoldsNothing ("#" ++ text ++ "\n") := by
  have goesOn : ∀ c ∈ text.toList, isBreak c = false := fun c member => (oneLine c member).2
  have lines : ("#" ++ text ++ "\n").toList = '#' :: (text.toList ++ ['\n']) := by simp
  refine ⟨?_, ?_, ?_⟩
  · rw [lines, LineState.after_cons, LineState.after_append]
    rw [show LineState.start.next '#' = .inside from rfl, LineState.inside_after goesOn]
    rfl
  · rw [lines, List.all_cons, List.all_append]
    simp [show isAllowed '#' = true from rfl, show isAllowed '\n' = true from rfl]
    exact fun c member => (oneLine c member).1
  · rw [lines, tokens_eq_nil_iff]
    exact skipSpacing_commentLine goesOn true (Mark.next ⟨0, 0, 0⟩)

theorem holdsNothing_break : HoldsNothing "\n" := ⟨rfl, rfl, rfl⟩

/-! ## A blank line in front of documents -/

def behindBreak : List String → List String
  | [] => ["\n"]
  | text :: texts => ("\n" ++ text) :: texts

theorem behindBreak_eq_cons (texts : List String) :
    ∃ first rest, behindBreak texts = first :: rest := by
  cases texts with
  | nil => exact ⟨_, _, rfl⟩
  | cons text texts => exact ⟨_, _, rfl⟩

theorem joined_behindBreak (separator : String) (texts : List String) :
    joined separator (behindBreak texts) = "\n" ++ joined separator texts := by
  match texts with
  | [] => rfl
  | [_] => rfl
  | _ :: _ :: _ => simp [behindBreak, joined, String.append_assoc]

theorem exists_behindBreak {texts : List String} {documents : List Document} {values : List Value}
    (behind : List.Forall₂ ReadsBehind texts documents)
    (areValues : List.Forall₂ (fun d v => Value.ofDocument d = .ok v) documents values)
    (inhabited : ∀ v ∈ values, v.isNull = false) : ∃ documents' values',
      List.Forall₂ ReadsBehind (behindBreak texts) documents' ∧
      List.Forall₂ (fun d v => Value.ofDocument d = .ok v) documents' values' ∧
      values'.filter (!·.isNull) = values := by
  cases behind with
  | nil =>
      cases areValues
      exact ⟨_, [.null], .cons holdsNothing_break.behind .nil, .cons rfl .nil, rfl⟩
  | cons isBehind others =>
      refine ⟨_, values, .cons isBehind.after_break others, areValues, ?_⟩
      exact List.filter_eq_self.mpr fun v member => by simp [inhabited v member]

end Yaml

namespace CommandLine

def Uncoloured (env : Environment) : Prop :=
  env.lookup "CLICOLOR_FORCE" = none ∨ env.lookup "CLICOLOR_FORCE" = some "0"

theorem Uncoloured.styled {env : Environment} (plain : Uncoloured env) (codes : List Nat)
    (text : String) : styled env codes text = text := by
  unfold CommandLine.styled
  rcases plain with none | zero
  · rw [none]
  · simp [zero]

/-- The lines around the values lose nothing of them: no blank at the end of their text belongs to
them, or the name of the values file, if that is all there is to show, fits in a comment. -/
def FitsFrame (values : ValuesSource) : Prop :=
  if Values.isEmpty values.inline then
    ∀ c ∈ values.file.text.toList, Yaml.isAllowed c ∧ Yaml.isBreak c = false
  else values.inline.endsInBlank = false

instance (values : ValuesSource) : Decidable (FitsFrame values) :=
  inferInstanceAs (Decidable (if Values.isEmpty values.inline then
    ∀ c ∈ values.file.text.toList, Yaml.isAllowed c ∧ Yaml.isBreak c = false
    else values.inline.endsInBlank = false))

def documentOf (inline : Value) : Value :=
  if Values.isEmpty inline then .null else inline

section Shown
variable {env : Environment} {values : ValuesSource}

theorem exists_shownBody (plain : Uncoloured env) (fits : FitsFrame values)
    (readsBack : values.inline.ReadsBack) (shown : (shownValues env values).report = none) :
    ∃ body document v,
      (shownValues env values).stdout = "# Computed Values\n---\n" ++ body ++ "---\n" ++ "\n" ∧
      ReadsBehind body document ∧ Value.ofDocument document = .ok v ∧
      v.same (documentOf values.inline) := by
  unfold shownValues at shown ⊢
  unfold FitsFrame at fits
  unfold documentOf
  rw [plain.styled] at shown ⊢
  by_cases empty : Values.isEmpty values.inline
  · rw [if_pos empty] at fits
    have comment : HoldsNothing ("#" ++ (" unchanged from " ++ values.file.text) ++ "\n") := by
      refine Yaml.holdsNothing_comment _ ?_
      rw [String.toList_append, List.forall_mem_append]
      exact ⟨by simp [Yaml.isAllowed, Yaml.isBreak], fits⟩
    refine ⟨_, _, .null, ?_, comment.behind, rfl, ?_⟩
    · simp only [empty, if_true, Ending.success]
      simp [← String.toList_inj]
    · rw [if_pos empty]
      rfl
  · rw [if_neg empty] at fits
    simp only [empty, Bool.false_eq_true, if_false] at shown ⊢
    cases printed : values.inline.print with
    | error fault => simp [printed, Ending.failed, Ending.failure] at shown
    | ok text =>
        have inhabited : values.inline ≠ .null := by
          intro isNull
          rw [isNull] at empty
          exact empty rfl
        obtain ⟨document, v, alone, isValue, equal⟩ :=
          Resources.readsAlone_of_readsBack printed inhabited readsBack
        refine ⟨text, document, v, ?_, alone.behind, isValue, equal⟩
        have whole : String.ofList (trimEnd text.toList) ++ "\n" = text :=
          String.toList_inj.mp (by simpa using (Yaml.trimEnd_print printed).mpr fits)
        simp only [Ending.success]
        generalize String.ofList (trimEnd text.toList) = kept at whole ⊢
        rw [← whole]
        simp [← String.toList_inj]

theorem exists_resourceDocuments {rs : Resources} {texts : List String}
    (printed : List.Forall₂ (fun (r : Resource) text => r.print = .ok text) rs texts)
    (readsBack : ∀ r ∈ rs, r.toValue.ReadsBack) : ∃ documents vs,
      List.Forall₂ ReadsBehind texts documents ∧
      List.Forall₂ (fun d v => Value.ofDocument d = .ok v) documents vs ∧
      List.Forall₂ (fun (r : Resource) v => v.same r.toValue) rs vs ∧
      ∀ v ∈ vs, v.isNull = false := by
  induction printed with
  | nil => exact ⟨[], [], .nil, .nil, .nil, by simp⟩
  | @cons r text _ _ isText _ ih =>
      rw [List.forall_mem_cons] at readsBack
      obtain ⟨documents, vs, areBehind, areValues, areSame, inhabited⟩ := ih readsBack.2
      obtain ⟨document, v, alone, isValue, equal⟩ :=
        Resources.readsAlone_of_readsBack isText (by simp [Resource.toValue]) readsBack.1
      have isMapping : v.isNull = false := by
        cases v with
        | mapping es => rfl
        | _ => simp [Resource.toValue, Value.same] at equal
      exact ⟨document :: documents, v :: vs, .cons alone.behind areBehind, .cons isValue areValues,
        .cons equal areSame, List.forall_mem_cons.mpr ⟨isMapping, inhabited⟩⟩

theorem framed_reads_back (plain : Uncoloured env) (fits : FitsFrame values)
    (readsBack : values.inline.ReadsBack) (shown : (shownValues env values).report = none)
    {rs : Resources} {text : String} (printed : rs.print = .ok text)
    (resourcesReadBack : ∀ r ∈ rs, r.toValue.ReadsBack) :
    ∃ v vs, Value.ofStream (Bytes.ofString ((shownValues env values).stdout ++ text)) =
        .ok (v :: vs) ∧
      v.same (documentOf values.inline) ∧
      List.Forall₂ (fun (r : Resource) u => u.same r.toValue) rs (vs.filter (!·.isNull)) := by
  obtain ⟨body, document, v, stdout, isBehind, isValue, equal⟩ :=
    exists_shownBody plain fits readsBack shown
  obtain ⟨texts, areTexts, isText⟩ := Outcome.bind_eq_ok_iff.mp printed
  rw [Outcome.mapM_eq_ok_iff] at areTexts
  obtain ⟨documents, us, areBehind, areValues, areSame, inhabited⟩ :=
    exists_resourceDocuments areTexts resourcesReadBack
  obtain ⟨documents', vs, areBehind', areValues', isRest⟩ :=
    Yaml.exists_behindBreak areBehind areValues inhabited
  refine ⟨v, vs, ?_, equal, isRest ▸ areSame⟩
  have title : HoldsNothing "# Computed Values\n" :=
    Yaml.holdsNothing_comment " Computed Values" (by simp [Yaml.isAllowed, Yaml.isBreak])
  have whole : (shownValues env values).stdout ++ text =
      joined "---\n" ("# Computed Values\n" :: body :: Yaml.behindBreak texts) := by
    obtain ⟨first, rest, isBehind⟩ := Yaml.behindBreak_eq_cons texts
    rw [stdout, ← Except.ok.inj isText, isBehind, joined, joined, ← isBehind,
      Yaml.joined_behindBreak]
    · simp [← String.toList_inj]
    · simp
    · simp
  have decoded : ∀ s : String, Yaml.documents (Bytes.ofString s) = Yaml.documentsOfText s.toList := by
    intro s
    rw [Yaml.documents, Bytes.ofString, Utf8.decode?_encode]
  rw [Value.ofStream, decoded, whole,
    Yaml.documentsOfText_behind title (.cons isBehind areBehind') (List.cons_ne_nil _ _)]
  exact Outcome.mapM_eq_ok_iff.mpr (.cons isValue areValues')

end Shown

section Runs
variable {m : Machine} {env : Environment} {arguments : List String} {request : InflateRequest}
  {w w' : World} {i : Inflation} {rs : Resources}

theorem run_of_printed {text : String}
    (accepted : requestOf env .nothing arguments = .ok (.inflate request))
    (asks : request.showValues) (noFiles : request.outputDirectory = none)
    (yaml : request.json = false) (inflated : Inflated m request w i w' rs)
    (canShow : Shows request i.parameters.values) (printed : rs.print = .ok text) :
    (run m env arguments w).1 = ⟨0, (shownValues env i.parameters.values).stdout ++ text⟩ := by
  rw [run_of_request accepted]
  simp only [runRequest, runInflate_of_shows env inflated canShow, deliver, noFiles, printResources,
    yaml, Bool.false_eq_true, if_false, printed, shownFor, asks, if_true]
  rfl

/-- What a successful command prints with the values shown is a stream of documents: first the
effective values, or null where there are none, and then, apart from null, the resources in order. -/
theorem shown_values_read_back
    (accepted : requestOf env .nothing arguments = .ok (.inflate request))
    (asks : request.showValues) (noFiles : request.outputDirectory = none)
    (yaml : request.json = false) (plain : Uncoloured env)
    (success : (run m env arguments w).1.code = 0) :
    ∃ i w' rs, Inflated m request w i w' rs ∧
      (FitsFrame i.parameters.values → i.parameters.values.inline.ReadsBack →
        (∀ r ∈ rs, r.toValue.ReadsBack) →
        ∃ v vs, Value.ofStream (Bytes.ofString (run m env arguments w).1.stdout) = .ok (v :: vs) ∧
          v.same (documentOf i.parameters.values.inline) ∧
          List.Forall₂ (fun (r : Resource) u => u.same r.toValue) rs (vs.filter (!·.isNull))) := by
  have succeeds := success
  rw [run_of_request accepted] at succeeds
  obtain ⟨w', rs, ⟨i, inflated, canShow⟩, delivers⟩ := (code_eq_zero_iff env).mp succeeds
  simp only [Delivers, noFiles, yaml, Bool.false_eq_true, if_false] at delivers
  obtain ⟨text, printed⟩ := delivers
  refine ⟨i, w', rs, inflated, fun fits readsBack resourcesReadBack => ?_⟩
  have shown := shownFor_of_shows env canShow
  rw [shownFor, if_pos asks] at shown
  rw [run_of_printed accepted asks noFiles yaml inflated canShow printed]
  exact framed_reads_back plain fits readsBack shown printed resourcesReadBack

end Runs

def showing : List String := inflating ++ ["--show-values"]

def askedToShow : InflateRequest := { asked with showValues := true }

theorem requestOf_showing : requestOf [] .nothing showing = .ok (.inflate askedToShow) := by
  decide +kernel

def valued (values : String) : World :=
  { furnished with
    files := furnished.files.put ["chart.yaml"] (.file (Bytes.ofString
      ("name: web\nvaluesMerge: replace\nvaluesInline:\n" ++ values)) false) }

def oneFeed : World := valued "  a: \"b\\nc\\n\"\n"

theorem shown_values_read_back_literal : ∃ i w' rs v vs,
    Inflated printingTwo askedToShow oneFeed i w' rs ∧ FitsFrame i.parameters.values ∧
    Value.ofStream (Bytes.ofString (run printingTwo [] showing oneFeed).1.stdout) = .ok (v :: vs) ∧
    v.same (documentOf i.parameters.values.inline) ∧
    List.Forall₂ (fun (r : Resource) u => u.same r.toValue) rs (vs.filter (!·.isNull)) := by
  have evaluated : (inflated? printingTwo askedToShow oneFeed).any (fun found =>
      decide (FitsFrame found.1) && decide found.1.inline.ReadsBack &&
        found.2.all (fun r => decide r.toValue.ReadsBack) &&
        found.1.inline.print.toOption.isSome && found.2.print.toOption.isSome) = true := by
    decide +kernel
  simp only [Option.any_eq_true, Bool.and_eq_true, decide_eq_true_eq, List.all_eq_true,
    Option.isSome_iff_exists, Outcome.toOption_eq_some_iff, Prod.exists] at evaluated
  obtain ⟨values, rs, isFound, ⟨⟨⟨fits, readsBack⟩, resourcesReadBack⟩, canShow⟩, text, printed⟩ :=
    evaluated
  obtain ⟨i, w', inflated, rfl⟩ := inflated?_eq_some_iff.mp isFound
  have exits := run_of_printed requestOf_showing rfl rfl rfl inflated (fun _ _ => canShow) printed
  obtain ⟨i', w'', rs', inflated', reads⟩ :=
    shown_values_read_back requestOf_showing rfl rfl rfl (.inl rfl) (congrArg Exit.code exits)
  have again := isFound.symm.trans (inflated?_eq_some_iff.mpr ⟨i', w'', inflated', rfl⟩)
  obtain ⟨sameValues, rfl⟩ := Prod.mk.inj (Option.some.inj again)
  rw [← sameValues] at reads
  obtain ⟨v, vs, isRead, equal, areSame⟩ := reads fits readsBack resourcesReadBack
  exact ⟨i, w', rs, v, vs, inflated, fits, isRead, equal, areSame⟩

def twoFeeds : World := valued "  a: \"b\\n\\n\"\n"

/-- They are shown with one, and read back as others. -/
theorem shown_values_cut : ∃ i w' rs v vs,
    Inflated printingTwo askedToShow twoFeeds i w' rs ∧ i.parameters.values.inline.ReadsBack ∧
    (run printingTwo [] showing twoFeeds).1 =
      ⟨0, "# Computed Values\n---\na: |+\n  b\n---\n\n" ++
        "apiVersion: v1\nkind: A\n---\napiVersion: v1\nkind: B\n"⟩ ∧
    Value.ofStream (Bytes.ofString (run printingTwo [] showing twoFeeds).1.stdout) = .ok (v :: vs) ∧
    v.same (documentOf i.parameters.values.inline) = false := by
  have evaluated : (inflated? printingTwo askedToShow twoFeeds).any (fun found =>
      decide found.1.inline.ReadsBack && found.1.inline.print.toOption.isSome &&
        found.2.print.toOption.any fun text =>
          decide ((shownValues [] found.1).stdout ++ text =
            "# Computed Values\n---\na: |+\n  b\n---\n\n" ++
              "apiVersion: v1\nkind: A\n---\napiVersion: v1\nkind: B\n") &&
          (Value.ofStream (Bytes.ofString
            ((shownValues [] found.1).stdout ++ text))).toOption.any fun vs =>
              vs.head?.any fun v => !v.same (documentOf found.1.inline)) = true := by
    decide +kernel
  simp only [Option.any_eq_true, Bool.and_eq_true, decide_eq_true_eq, Option.isSome_iff_exists,
    Outcome.toOption_eq_some_iff, Bool.not_eq_true', Prod.exists] at evaluated
  obtain ⟨values, rs, isFound, ⟨readsBack, canShow⟩, text, printed, stdout, documents, isRead, v,
    isFirst, differs⟩ := evaluated
  obtain ⟨vs, rfl⟩ := List.head?_eq_some_iff.mp isFirst
  obtain ⟨i, w', inflated, rfl⟩ := inflated?_eq_some_iff.mp isFound
  have exits : (run printingTwo [] showing twoFeeds).1 = _ :=
    run_of_printed requestOf_showing rfl rfl rfl inflated (fun _ _ => canShow) printed
  rw [exits]
  exact ⟨i, w', rs, v, vs, inflated, readsBack, by rw [stdout], isRead, differs⟩

end CommandLine

end ChartInflation
