import ChartInflation.Proofs.ResourceStream
import ChartInflation.Proofs.Yaml.Records
import ChartInflation.Settings

/-!
# Configurations are read as they are written

The text of a chart configuration is read as the configuration again, and so is the text of the
settings (`records_read_back`).  Each optional text stays apart from what it could be taken for: what
is unset is written as the word for null, and no text is written so.
-/

set_option autoImplicit false

namespace ChartInflation

open Yaml (Value Tag Token Document Node WrittenField nodeOf depthLimit)
open Yaml.Decoder (Returns returns_pure returns_bind)

/-! ## Tags that are read back -/

section Tags
open Yaml
variable {tag : Tag}

theorem print_taggedNull (tag : Tag) : (Value.tagged tag .null).print =
    .ok (String.ofList (Printer.tagText tag ++ ' ' :: "null\n".toList)) := rfl

theorem isSome_of_tokens {rest : List Char} (spaced : atSpacing rest) {ts : List Token}
    (isTokens : tokens ⟨0, 0, 0⟩ true (Printer.tagText tag ++ rest) = .ok ts) :
    (readTag? tag).isSome := by
  obtain ⟨text, isText⟩ := Printer.tagText_begins tag
  have start : Lexer.start ⟨0, 0, 0⟩ true (Printer.tagText tag ++ rest) =
      Lexer.block ⟨[], -1, []⟩ ⟨0, 0, 0⟩ none true ('!' :: (text ++ rest)) := by
    rw [isText]
    rfl
  rw [tokens, start, Lexer.run_succ] at isTokens
  simp only [Lexer.block_inFlow, Lexer.block_keyAllowed, Lexer.block_mark, Lexer.block_rest,
    skipSpacing_visible _ _ _ (show Yaml.isVisible '!' by decide)] at isTokens
  change (Lexer.token _ '!' (text ++ rest) >>= _) = _ at isTokens
  obtain ⟨s, isToken, -⟩ := Outcome.bind_eq_ok_iff.mp isTokens
  rw [Lexer.token_bang] at isToken
  obtain ⟨s', isSaved, isRead⟩ := Outcome.bind_eq_ok_iff.mp isToken
  cases isSaved
  obtain ⟨x, isProperty, -⟩ := Outcome.bind_eq_ok_iff.mp isRead
  change tagProperty false (Mark.plus ⟨1, 0, 1⟩ ⟨0, 0, 0⟩) (text ++ rest) = .ok x at isProperty
  rw [tagProperty_within spaced, Outcome.map_eq_ok_iff] at isProperty
  obtain ⟨y, isRead, -⟩ := isProperty
  rw [readTag?, isText, List.drop_one, List.tail_cons, isRead]
  rfl

theorem tokens_taggedNull (isRead : (readTag? tag).isSome) :
    tokens ⟨0, 0, 0⟩ true (Printer.tagText tag ++ ' ' :: "null\n".toList) =
      .ok (tagTokens (some tag) ++ [.scalar .plain "null"]) := by
  let b : Blocks := Blocks.add ⟨[], -1, []⟩ (tagTokens (some tag))
  have onward : Lexer.Onward (b.add [.scalar .plain "null"]) 0 []
      (tagTokens (some tag) ++ [.scalar .plain "null"]) :=
    Lexer.onward_end (by simp [b, Blocks.add, Blocks.closed, Lexer.unwind])
  have plain : Plain "null".toList := Printer.plain_word (.inl rfl)
  have gives : (Lexer.block ⟨[], -1, []⟩ ⟨0, 0, 0⟩ none true
      (Printer.tagText tag ++ (Printer.spaces 1 ++ ("null".toList ++ '\n' ::
        (Printer.spaces 0 ++ []))))).Gives (tagTokens (some tag) ++ [.scalar .plain "null"]) := by
    refine Lexer.gives_tag isRead rfl (by decide) (fun _ => Lexer.passed_none _) ?_
    rw [Lexer.gives_spaces_iff, Mark.through_spaces,
      Mark.through_of_line _ (Printer.tagText_goesOn tag)]
    refine Lexer.gives_inline (.plain plain) (.line .nothing) ?_ (by simp) ?_
    · simp only [Blocks.add_indent]
      omega
    · rw [Lexer.gives_feed_iff]
      refine onward _ (Lexer.saved ⟨[], -1, []⟩ ⟨0, 0, 0⟩ none true) rfl ?_
      exact (Lexer.passed_none ⟨0, 0, 0⟩).saved (by decide) (Nat.succ_pos _)
  exact Lexer.run_mono gives (Nat.succ_le_succ (tokenBound_le_length _))

theorem ne_tagged_of_styledValue {style : Style} {text : String} {v : Value}
    (read : styledValue style text = .ok v) (t : Tag) (u : Value) : v ≠ .tagged t u := by
  unfold styledValue plainValue at read
  rintro rfl
  repeat' split at read
  all_goals simp [Value.int] at read

theorem ne_tagged_of_standardValue {octets : Bytes} {text : String} {v : Value}
    (read : standardValue octets text = .ok v) (t : Tag) (u : Value) : v ≠ .tagged t u := by
  unfold standardValue at read
  rintro rfl
  repeat' split at read
  all_goals simp [Value.int] at read

/-- A scalar that is read as a value under a tag has that tag. -/
theorem localTag?_of_scalarValue {octets : Bytes} {style : Style} {text : String} {u : Value}
    (read : scalarValue (some octets) style text = .ok (.tagged tag u)) :
    localTag? (some octets) = some tag := by
  unfold scalarValue at read
  cases found : localTag? (some octets) with
  | some t =>
      rw [found] at read
      obtain ⟨v, -, isValue⟩ := Outcome.bind_eq_ok_iff.mp read
      obtain ⟨rfl, -⟩ := Value.tagged.inj (Except.ok.inj isValue)
      rfl
  | none =>
      simp only [found] at read
      split at read
      · exact absurd rfl (ne_tagged_of_styledValue read tag u)
      · exact absurd rfl (ne_tagged_of_standardValue read tag u)

theorem localTag?_of_ofDocument {octets : Bytes} {style : Style} {text : String} {w u : Value}
    (isValue : Value.ofDocument (.content (.scalar ⟨none, some octets⟩ style text)) = .ok w)
    (equal : w.same (.tagged tag u)) : localTag? (some octets) = some tag := by
  obtain ⟨pair, decoded, rfl⟩ := Outcome.map_eq_ok_iff.mp isValue
  change (liftM (scalarValue (some octets) style text) : Decoder Value) 0 = _ at decoded
  cases read : scalarValue (some octets) style text with
  | error f =>
      rw [read] at decoded
      cases decoded
  | ok v =>
      rw [read] at decoded
      obtain rfl : (v, 0) = pair := Except.ok.inj decoded
      simp only at equal
      cases v with
      | tagged t v =>
          obtain ⟨_, same, -⟩ := (Value.same_tagged_iff t v _).mp equal
          obtain ⟨rfl, -⟩ := Value.tagged.inj same
          exact localTag?_of_scalarValue read
      | _ => simp [Value.same] at equal

/-- A tag under which null is read back is readable. -/
theorem readable_of_readsBack (readsBack : (Value.tagged tag .null).ReadsBack) : tag.Readable := by
  obtain ⟨document, w, alone, isValue, equal⟩ :=
    Resources.readsAlone_of_readsBack (print_taggedNull tag) (by simp) readsBack
  obtain ⟨-, content, -, isContent, isRead⟩ := alone.exists_content
  rw [String.toList_ofList, readSection_stream] at isRead
  obtain ⟨ts, isTokens, isSection⟩ := Outcome.bind_eq_ok_iff.mp isRead
  have lexed := isSome_of_tokens rfl isTokens
  rw [tokens_taggedNull lexed] at isTokens
  clear isRead
  obtain ⟨⟨handle, suffix⟩, isRead⟩ := Option.isSome_iff_exists.mp lexed
  rw [← Except.ok.inj isTokens, tagTokens_of_readTag? isRead, sectionOf_eq_ok_iff] at isSection
  obtain rfl : content = [.tag handle suffix, .scalar .plain "null"] := isSection.2.1
  cases resolved : resolveTag standardHandles handle suffix with
  | error f =>
      simp [readContent, handlesOf, Node.ofTokens, parseNode, properties, resolved] at isContent
  | ok octets =>
      have isOctets : tagOctets? tag = some octets := by
        simp [tagOctets?, isRead, resolved, Except.toOption]
      simp [readContent, handlesOf, Node.ofTokens, parseNode, properties, resolved, Remaining.skip]
        at isContent
      subst isContent
      rw [Tag.Readable, isOctets]
      exact localTag?_of_ofDocument isValue equal

end Tags

/-! ## Fields -/

section Fields
open Yaml
variable {document : Document}

theorem returns_optional (s : Option String) :
    Returns (decodeOptionalText document (nodeOf none (ChartConfiguration.optional s))) s := by
  cases s with
  | none => exact returns_none
  | some s => exact returns_some s

theorem returns_paths (paths : List Path) :
    Returns (decodeTexts document (nodeOf none (.sequence (paths.map fun p => .string p.text))))
      (paths.map (·.text)) := by
  have texts : Returns (decodeTexts document (nodeOf none
      (.sequence ((paths.map (·.text)).map .string)))) (paths.map (·.text)) := returns_texts _
  rw [List.map_map] at texts
  exact texts

theorem optionalPath_of_text (p : Option Path) : (p.map (·.text)).map Path.mk = p := by
  cases p <;> rfl

theorem paths_of_texts (paths : List Path) : (paths.map (·.text)).map Path.mk = paths := by
  rw [List.map_map]
  exact List.map_id paths

/-- A field that is taken up as something else than what is read. -/
theorem returns_taken {α β : Type} {d : Decoder α} {a : α} {f : α → β} {b : β}
    (returns : Returns d a) (isTaken : f a = b) : Returns (d >>= fun x => pure (f x)) b :=
  isTaken ▸ returns_bind returns returns_pure

end Fields

namespace ChartConfiguration

def fields (c : ChartConfiguration) (inline : Value) : List (WrittenField ChartConfiguration) := [
  ⟨"name", .string c.name, fun r => { r with name := c.name }⟩,
  ⟨"version", optional c.version, fun r => { r with version := c.version }⟩,
  ⟨"repo", optional c.repo, fun r => { r with repo := c.repo }⟩,
  ⟨"releaseName", optional c.releaseName, fun r => { r with releaseName := c.releaseName }⟩,
  ⟨"namespace", optional c.namespaceName, fun r => { r with namespaceName := c.namespaceName }⟩,
  ⟨"nameTemplate", optional c.nameTemplate, fun r => { r with nameTemplate := c.nameTemplate }⟩,
  ⟨"chartHome", optionalPath c.chartHome, fun r => { r with chartHome := c.chartHome }⟩,
  ⟨"configHome", optionalPath c.configHome, fun r => { r with configHome := c.configHome }⟩,
  ⟨"valuesFile", optionalPath c.valuesFile, fun r => { r with valuesFile := c.valuesFile }⟩,
  ⟨"additionalValuesFiles", .sequence (c.additionalValuesFiles.map fun p => .string p.text),
    fun r => { r with additionalValuesFiles := c.additionalValuesFiles }⟩,
  ⟨"valuesInline", c.valuesInline, fun r => { r with valuesInline := inline }⟩,
  ⟨"valuesMerge", optional c.valuesMerge, fun r => { r with valuesMerge := c.valuesMerge }⟩,
  ⟨"includeCRDs", .bool c.includeCRDs, fun r => { r with includeCRDs := c.includeCRDs }⟩,
  ⟨"skipHooks", .bool c.skipHooks, fun r => { r with skipHooks := c.skipHooks }⟩,
  ⟨"skipTests", .bool c.skipTests, fun r => { r with skipTests := c.skipTests }⟩,
  ⟨"apiVersions", .sequence (c.apiVersions.map .string),
    fun r => { r with apiVersions := c.apiVersions }⟩,
  ⟨"kubeVersion", optional c.kubeVersion, fun r => { r with kubeVersion := c.kubeVersion }⟩,
  ⟨"debug", .bool c.debug, fun r => { r with debug := c.debug }⟩]

variable (c : ChartConfiguration) (inline : Value)

theorem toValue_eq_fields : c.toValue = .mapping ((c.fields inline).map (·.entry)) := rfl

theorem areRead_fields {document : Document}
    (isInline : Returns (Yaml.decodeInner document (nodeOf none c.valuesInline)) inline) :
    ∀ f ∈ c.fields inline, f.IsRead reader document := by
  simp only [fields, List.forall_mem_cons]
  exact ⟨⟨_, rfl, fun _ => returns_bind (Yaml.returns_text c.name) returns_pure⟩,
    ⟨_, rfl, fun _ => returns_bind (returns_optional c.version) returns_pure⟩,
    ⟨_, rfl, fun _ => returns_bind (returns_optional c.repo) returns_pure⟩,
    ⟨_, rfl, fun _ => returns_bind (returns_optional c.releaseName) returns_pure⟩,
    ⟨_, rfl, fun _ => returns_bind (returns_optional c.namespaceName) returns_pure⟩,
    ⟨_, rfl, fun _ => returns_bind (returns_optional c.nameTemplate) returns_pure⟩,
    ⟨_, rfl, fun _ => returns_taken (returns_optional _) (by rw [optionalPath_of_text])⟩,
    ⟨_, rfl, fun _ => returns_taken (returns_optional _) (by rw [optionalPath_of_text])⟩,
    ⟨_, rfl, fun _ => returns_taken (returns_optional _) (by rw [optionalPath_of_text])⟩,
    ⟨_, rfl, fun _ => returns_taken (returns_paths _) (by rw [paths_of_texts])⟩,
    ⟨_, rfl, fun _ => returns_bind isInline returns_pure⟩,
    ⟨_, rfl, fun _ => returns_bind (returns_optional c.valuesMerge) returns_pure⟩,
    ⟨_, rfl, fun _ => returns_bind (Yaml.returns_flag c.includeCRDs) returns_pure⟩,
    ⟨_, rfl, fun _ => returns_bind (Yaml.returns_flag c.skipHooks) returns_pure⟩,
    ⟨_, rfl, fun _ => returns_bind (Yaml.returns_flag c.skipTests) returns_pure⟩,
    ⟨_, rfl, fun _ => returns_bind (Yaml.returns_texts c.apiVersions) returns_pure⟩,
    ⟨_, rfl, fun _ => returns_bind (returns_optional c.kubeVersion) returns_pure⟩,
    ⟨_, rfl, fun _ => returns_bind (Yaml.returns_flag c.debug) returns_pure⟩,
    List.forall_mem_nil _⟩

theorem distinct_fields : ((c.fields inline).map (·.name)).Nodup := by
  change List.Nodup ["name", "version", "repo", "releaseName", "namespace", "nameTemplate",
    "chartHome", "configHome", "valuesFile", "additionalValuesFiles", "valuesInline", "valuesMerge",
    "includeCRDs", "skipHooks", "skipTests", "apiVersions", "kubeVersion", "debug"]
  decide

theorem find?_inline : ((c.fields inline).map (·.entry)).find?
    (fun f => (Value.string "valuesInline").same f.1) =
      some (.string "valuesInline", c.valuesInline) := rfl

end ChartConfiguration

/-! ## The trees of records -/

inductive Yaml.Value.Simple : Value → Prop
  | null : Simple .null
  | bool (b : Bool) : Simple (.bool b)
  | string (s : String) : Simple (.string s)
  | texts (texts : List String) : Simple (.sequence (texts.map .string))

section Simple
open Yaml

theorem simple_optional (s : Option String) : (ChartConfiguration.optional s).Simple := by
  cases s with
  | none => exact .null
  | some s => exact .string s

theorem simple_paths (paths : List Path) :
    (Value.sequence (paths.map fun p => .string p.text)).Simple := by
  have texts := Value.Simple.texts (paths.map (·.text))
  rw [List.map_map] at texts
  exact texts

variable {v : Value} (simple : v.Simple)
include simple

/-- What holds of all values but mappings and values under a tag holds in a simple one. -/
theorem Yaml.Value.Simple.everywhere {P : Value → Prop}
    (bare : ∀ w, (∀ tag u, w ≠ .tagged tag u) → (∀ es, w ≠ .mapping es) → P w) :
    v.Everywhere P := by
  cases simple with
  | null => exact .null (bare _ (by simp) (by simp))
  | bool b => exact .bool b (bare _ (by simp) (by simp))
  | string s => exact .string s (bare _ (by simp) (by simp))
  | texts texts =>
      refine .sequence (bare _ (by simp) (by simp)) fun w member => ?_
      obtain ⟨s, -, rfl⟩ := List.mem_map.mp member
      exact .string s (bare _ (by simp) (by simp))

theorem Yaml.Value.Simple.held (levels : Nat) : v.Held (levels + 1) := by
  cases simple with
  | null => exact .null
  | bool b => exact .bool b
  | string s => exact .string s
  | texts texts =>
      refine .sequence fun w member => ?_
      obtain ⟨s, -, rfl⟩ := List.mem_map.mp member
      exact .string s

theorem Yaml.Value.Simple.valid : v.Valid := by
  cases simple with
  | null => exact .null
  | bool b => exact .bool b
  | string s => exact .string s
  | texts texts =>
      refine .sequence fun w member => ?_
      obtain ⟨s, -, rfl⟩ := List.mem_map.mp member
      exact .string s

end Simple

theorem everywhere_record {α : Type} {P : Value → Prop} {fields : List (WrittenField α)}
    (here : P (.mapping (fields.map (·.entry)))) (names : ∀ s, P (.string s))
    (values : ∀ f ∈ fields, f.value.Everywhere P) :
    (Value.mapping (fields.map (·.entry))).Everywhere P := by
  rw [Value.everywhere_mapping_iff, List.forall_mem_map]
  exact ⟨here, fun f member => ⟨.string f.name (names f.name), values f member⟩⟩

namespace ChartConfiguration
variable {c : ChartConfiguration}

theorem simple_fields (inline : Value) :
    ∀ f ∈ c.fields inline, f.value = c.valuesInline ∨ f.value.Simple := by
  simp only [fields, List.forall_mem_cons]
  exact ⟨.inr (.string _), .inr (simple_optional _), .inr (simple_optional _),
    .inr (simple_optional _), .inr (simple_optional _), .inr (simple_optional _),
    .inr (simple_optional _), .inr (simple_optional _), .inr (simple_optional _),
    .inr (simple_paths _), .inl trivial, .inr (simple_optional _), .inr (.bool _), .inr (.bool _),
    .inr (.bool _), .inr (.texts _), .inr (simple_optional _), .inr (.bool _), List.forall_mem_nil _⟩

theorem readable_toValue (readable : c.valuesInline.Readable) : c.toValue.Readable := by
  rw [toValue_eq_fields c .null]
  refine everywhere_record (by simp) (by simp) fun f member => ?_
  rcases simple_fields .null f member with isInline | simple
  · exact isInline ▸ readable
  · exact simple.everywhere fun w bare _ tag u isTagged => absurd isTagged (bare tag u)

theorem held_toValue {levels : Nat} (held : c.valuesInline.Held (levels + 1)) :
    c.toValue.Held (levels + 2) := by
  have values : ∀ f ∈ c.fields .null, f.value.Held (levels + 1) := by
    intro f member
    rcases simple_fields .null f member with isInline | simple
    · exact isInline ▸ held
    · exact simple.held levels
  rw [toValue_eq_fields c .null]
  refine .mapping ?_ ?_
  · rw [List.forall_mem_map]
    exact fun f _ => .string f.name
  · rw [List.forall_mem_map]
    exact values

theorem valid_toValue (valid : c.valuesInline.Valid) : c.toValue.Valid := by
  have values : ∀ f ∈ c.fields .null, f.value.Valid := by
    intro f member
    rcases simple_fields .null f member with isInline | simple
    · exact isInline ▸ valid
    · exact simple.valid
  have names := List.pairwise_map.mp (c.distinct_fields .null)
  rw [toValue_eq_fields c .null]
  refine .mapping ?_ ?_ ?_
  · rw [List.pairwise_map]
    exact names.imp fun different => by simpa [WrittenField.entry, Value.same] using different
  · rw [List.forall_mem_map]
    exact fun f _ => .string f.name
  · rw [List.forall_mem_map]
    exact values

/-- The tree of a configuration is read back if its inline values are a readable tree that documents
can hold. -/
theorem readsBack_toValue (readable : c.valuesInline.Readable)
    (held : c.valuesInline.Held (depthLimit - 1)) (valid : c.valuesInline.Valid) :
    c.toValue.ReadsBack := by
  intro text printed
  have treeValid := valid_toValue valid
  exact ⟨c.toValue, Yaml.ofBytes_print (readable_toValue readable) (held_toValue held) treeValid
    printed, Value.same_refl treeValid⟩

/-- A configuration is read from its text, with what the node of its inline values is read as. -/
theorem ofBytes_print {text : String} (printed : c.print = .ok text)
    (readable : c.valuesInline.Readable) {inline : Value}
    (isInline : Returns (Yaml.decodeInner (.content (nodeOf none c.toValue))
      (nodeOf none c.valuesInline)) inline) :
    ofBytes (Bytes.ofString text) = .ok { c with valuesInline := inline } :=
  Yaml.recordOfBytes_print (c.fields inline) {} (readable_toValue readable) printed
    (areRead_fields c inline isInline) (distinct_fields c inline)

end ChartConfiguration

namespace Settings
variable (s : Settings)

def fields : List (WrittenField Settings) := [
  ⟨"enabled", .bool s.enabled, fun r => { r with enabled := s.enabled }⟩,
  ⟨"command", .string s.command, fun r => { r with command := s.command }⟩,
  ⟨"kubeVersion", .string s.kubeVersion, fun r => { r with kubeVersion := s.kubeVersion }⟩,
  ⟨"apiVersions", .sequence (s.apiVersions.map .string),
    fun r => { r with apiVersions := s.apiVersions }⟩,
  ⟨"debug", .bool s.debug, fun r => { r with debug := s.debug }⟩]

theorem areRead_fields (document : Document) : ∀ f ∈ s.fields, f.IsRead reader document := by
  simp only [fields, List.forall_mem_cons]
  exact ⟨⟨_, rfl, fun _ => returns_bind (Yaml.returns_flag s.enabled) returns_pure⟩,
    ⟨_, rfl, fun _ => returns_bind (Yaml.returns_text s.command) returns_pure⟩,
    ⟨_, rfl, fun _ => returns_bind (Yaml.returns_text s.kubeVersion) returns_pure⟩,
    ⟨_, rfl, fun _ => returns_bind (Yaml.returns_texts s.apiVersions) returns_pure⟩,
    ⟨_, rfl, fun _ => returns_bind (Yaml.returns_flag s.debug) returns_pure⟩,
    List.forall_mem_nil _⟩

theorem distinct_fields : (s.fields.map (·.name)).Nodup := by
  change List.Nodup ["enabled", "command", "kubeVersion", "apiVersions", "debug"]
  decide

theorem simple_fields : ∀ f ∈ s.fields, f.value.Simple := by
  simp only [fields, List.forall_mem_cons]
  exact ⟨.bool _, .string _, .string _, .texts _, .bool _, List.forall_mem_nil _⟩

theorem untagged_toValue : s.toValue.Untagged :=
  everywhere_record (by simp) (by simp) fun f member =>
    (s.simple_fields f member).everywhere fun _ bare _ => bare

theorem unambiguous_toValue : s.toValue.Unambiguous :=
  everywhere_record (by simp [fields]) (by simp) fun f member =>
    (s.simple_fields f member).everywhere fun _ _ noMapping _ _ isMapping =>
      absurd isMapping (noMapping _)

/-- Settings can be written, and are read as they are written. -/
theorem ofBytes_print : ∃ text, s.print = .ok text ∧ ofBytes (Bytes.ofString text) = .ok s := by
  obtain ⟨text, printed⟩ := (Value.exists_print_iff s.untagged_toValue).mpr s.unambiguous_toValue
  exact ⟨text, printed, Yaml.recordOfBytes_print s.fields {} s.untagged_toValue.readable printed
    (s.areRead_fields _) s.distinct_fields⟩

end Settings

/-! ## Configurations and settings -/

/-- What is relied on of the document format at the tags of a tree: null is read back under each. -/
def Yaml.Value.TagsReadBack (v : Value) : Prop :=
  v.Everywhere fun w => ∀ tag u, w = .tagged tag u → (Value.tagged tag .null).ReadsBack

theorem readable_of_tagsReadBack {v : Value} (readsBack : v.TagsReadBack) : v.Readable :=
  readsBack.imp fun _ inside tag u isTagged => readable_of_readsBack (inside tag u isTagged)

/-- The text of a configuration is read as the configuration, if the document format reads the tree
of the configuration back, and null under each tag of the inline values: in all fields it is the same
one, with inline values that are equal.  Where the inline values are a tree that documents can hold,
they are the same one, and only the tags are left to rely on.  The text of settings is read as the
settings. -/
theorem records_read_back :
    (∀ (c : ChartConfiguration) (text : String), c.print = .ok text →
      c.valuesInline.TagsReadBack →
      (c.toValue.ReadsBack → ∃ inline, ChartConfiguration.ofBytes (Bytes.ofString text) =
        .ok { c with valuesInline := inline } ∧ inline.same c.valuesInline) ∧
      (c.valuesInline.Held (depthLimit - 1) → c.valuesInline.Valid →
        ChartConfiguration.ofBytes (Bytes.ofString text) = .ok c)) ∧
    ∀ s : Settings, ∃ text, s.print = .ok text ∧ Settings.ofBytes (Bytes.ofString text) = .ok s := by
  refine ⟨fun c text printed tagsReadBack => ?_, Settings.ofBytes_print⟩
  have readable := readable_of_tagsReadBack tagsReadBack
  constructor
  · intro readsBack
    obtain ⟨w, isRead, equal⟩ := readsBack text printed
    rw [Value.ofBytes, Yaml.onlyDocument_print (c.readable_toValue readable) printed] at isRead
    obtain ⟨⟨v, n⟩, decoded, rfl⟩ := Outcome.map_eq_ok_iff.mp isRead
    obtain ⟨inline, isInline, same⟩ := Yaml.exists_same_value (c.find?_inline .null) decoded equal
    exact ⟨inline, c.ofBytes_print printed readable isInline, same⟩
  · intro held valid
    obtain ⟨lines, isText, -⟩ := Outcome.map_eq_ok_iff.mp printed
    have isWritten : Yaml.IsWritten none c.toValue := ⟨_, _, _, isText⟩
    have member := List.mem_of_find?_eq_some (c.find?_inline .null)
    exact c.ofBytes_print printed readable (Yaml.returns_nodeOf readable
      Yaml.Printer.frontReadable_none (isWritten.entries _ member).2 held valid)

/-- A configuration whose texts could be taken for something else, with a tag in its inline values. -/
def confusable : ChartConfiguration where
  name := "null"
  version := some "1.10"
  repo := some ""
  releaseName := some "~"
  apiVersions := ["1.0", "true"]
  valuesInline := .mapping [(.bool true, .tagged ⟨"secret"⟩ (.sequence [.string "1", .null]))]

theorem records_read_back_confusable : ∃ text, confusable.print = .ok text ∧
    confusable.valuesInline.TagsReadBack ∧ confusable.toValue.ReadsBack ∧
    (∃ inline, ChartConfiguration.ofBytes (Bytes.ofString text) =
      .ok { confusable with valuesInline := inline } ∧ inline.same confusable.valuesInline) ∧
    ChartConfiguration.ofBytes (Bytes.ofString text) = .ok confusable := by
  have succeeds : confusable.print.toOption.isSome := by decide +kernel
  have tagReadsBack : (Value.tagged ⟨"secret"⟩ .null).ReadsBack := by decide +kernel
  have tagsReadBack : confusable.valuesInline.TagsReadBack := by
    refine .mapping (by simp) (by simpa using .bool true (by simp)) ?_
    rw [List.forall_mem_singleton]
    refine .tagged (fun tag u isTagged => ?_) (.sequence (by simp) ?_)
    · obtain ⟨rfl, -⟩ := Value.tagged.inj isTagged
      exact tagReadsBack
    · simp only [List.forall_mem_cons]
      exact ⟨.string "1" (by simp), .null (by simp), List.forall_mem_nil _⟩
  have held : confusable.valuesInline.Held (depthLimit - 1) := by
    refine .mapping (by simpa using .bool true) ?_
    rw [List.forall_mem_singleton]
    exact .tagged _ (.sequence (by simpa using ⟨.string "1", .null⟩))
  have valid : confusable.valuesInline.Valid := by simp [confusable]
  have readsBack : confusable.toValue.ReadsBack :=
    ChartConfiguration.readsBack_toValue (readable_of_tagsReadBack tagsReadBack) held valid
  cases printed : confusable.print with
  | error f => simp [printed, Except.toOption] at succeeds
  | ok text =>
      obtain ⟨same, exactly⟩ := records_read_back.1 confusable text printed tagsReadBack
      exact ⟨text, rfl, tagsReadBack, readsBack, same readsBack, exactly held valid⟩

end ChartInflation
