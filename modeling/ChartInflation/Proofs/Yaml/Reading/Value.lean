import ChartInflation.Proofs.Yaml.Held
import ChartInflation.Proofs.Yaml.Reading.Node

/-!
# From the node of a tree to the tree

A document with the node of a tree is read as the tree, if the tree can be written and its tags are
readable (`ofDocument_nodeOf`): plain scalars mean what they were written for, and neither keys nor
levels of collections are in the way.
-/

set_option autoImplicit false

namespace ChartInflation.Yaml

namespace Decoder

/-- A reader gives something and follows no alias. -/
def Returns {α : Type} (d : Decoder α) (a : α) : Prop :=
  ∀ followed, d followed = .ok (a, followed)

variable {α β : Type} {a : α} {b : β}

theorem returns_pure : Returns (pure a) a := fun _ => rfl

theorem returns_lift {x : Except Fault α} (gives : x = .ok a) : Returns (liftM x : Decoder α) a := by
  intro followed
  rw [gives]
  rfl

theorem returns_bind {d : Decoder α} {f : α → Decoder β} (first : Returns d a)
    (rest : Returns (f a) b) : Returns (d >>= f) b := by
  intro followed
  change (d followed >>= fun pair => f pair.1 pair.2) = _
  rw [first, Outcome.ok_bind]
  exact rest followed

end Decoder

open Decoder Printer

/-! ## Scalars -/

theorem styledValue_string (s : String) : styledValue (styleOf s) s = .ok (.string s) := by
  have fits := fits_styleOf s
  generalize styleOf s = style at fits
  unfold styledValue
  split
  · rename_i plain
    rw [plain] at fits
    have isString := fits.2.1
    simp only [readsOtherwise, Bool.or_eq_false_iff, bne_eq_false_iff_eq] at isString
    rw [plainValue, isString.1]
  · rfl

/-! ## Trees that can be written -/

def Value.under (tag? : Option Tag) (v : Value) : Value :=
  match tag? with
  | none => v
  | some tag => .tagged tag v

def IsWritten (tag? : Option Tag) (v : Value) : Prop :=
  ∃ place column? text, node place column? tag? v = .ok text

theorem isWritten_items {column : Nat} {vs : List Value} {text : List Char}
    (written : items column vs = .ok text) : ∀ v ∈ vs, IsWritten none v := by
  induction vs generalizing text with
  | nil => exact List.forall_mem_nil _
  | cons v vs ih =>
      obtain ⟨first, more, isFirst, isMore, -⟩ := items_cons_eq_ok_iff.mp written
      exact List.forall_mem_cons.mpr ⟨⟨_, _, _, isFirst⟩, ih isMore⟩

theorem isWritten_entries {column : Nat} {alone : Bool} {es : Mapping} {text : List Char}
    (written : entries column alone es = .ok text) :
    ∀ e ∈ es, IsWritten none e.1 ∧ IsWritten none e.2 := by
  induction es generalizing text alone with
  | nil => exact List.forall_mem_nil _
  | cons e es ih =>
      obtain ⟨k, v⟩ := e
      obtain ⟨-, more, isMore, entry⟩ := entries_cons_eq_ok_iff.mp written
      refine List.forall_mem_cons.mpr ⟨?_, ih isMore⟩
      split at entry
      · obtain ⟨_, _, isKey, isValue, -⟩ := entry
        exact ⟨⟨_, _, _, isKey⟩, _, _, _, isValue⟩
      · obtain ⟨_, _, isKey, isValue, -⟩ := entry
        exact ⟨⟨_, _, _, isKey⟩, _, _, _, isValue⟩

theorem IsWritten.items {tag? : Option Tag} {vs : List Value}
    (written : IsWritten tag? (.sequence vs)) : ∀ v ∈ vs, IsWritten none v := by
  cases vs with
  | nil => exact List.forall_mem_nil _
  | cons v vs =>
      obtain ⟨place, column?, text, isText⟩ := written
      obtain ⟨_, isBody, -⟩ := node_sequence_eq_ok_iff.mp isText
      exact isWritten_items isBody

theorem IsWritten.entries {tag? : Option Tag} {es : Mapping}
    (written : IsWritten tag? (.mapping es)) : ∀ e ∈ es, IsWritten none e.1 ∧ IsWritten none e.2 := by
  cases es with
  | nil => exact List.forall_mem_nil _
  | cons e es =>
      obtain ⟨place, column?, text, isText⟩ := written
      obtain ⟨_, isBody, -⟩ := node_mapping_eq_ok_iff.mp isText
      exact isWritten_entries isBody

/-! ## Nodes -/

theorem localTag?_underTags {tag? : Option Tag} (readable : FrontReadable tag?) :
    localTag? (underTags tag?).tag = tag? := by
  cases tag? with
  | none => rfl
  | some tag => exact readable tag rfl

theorem underTag_underTags {tag? : Option Tag} (readable : FrontReadable tag?) (v : Value) :
    underTag (underTags tag?).tag v = v.under tag? := by
  rw [underTag, localTag?_underTags readable]
  cases tag? <;> rfl

theorem scalarValue_underTags {tag? : Option Tag} (readable : FrontReadable tag?) {style : Style}
    {text : String} {v : Value} (styled : styledValue style text = .ok v) :
    scalarValue (underTags tag?).tag style text = .ok (v.under tag?) := by
  unfold scalarValue
  rw [localTag?_underTags readable]
  cases tag? with
  | none => exact styled
  | some tag => simp [styled, Value.under]

section Returns
variable {document : Document}

theorem returns_items {inner : Node → Decoder Value} {vs : List Value}
    (returns : ∀ v ∈ vs, Returns (inner (nodeOf none v)) v) :
    Returns (decodeItems inner (itemNodes vs)) vs := by
  induction vs with
  | nil => exact returns_pure
  | cons v vs ih =>
      rw [List.forall_mem_cons] at returns
      exact returns_bind returns.1 (returns_bind (ih returns.2) returns_pure)

theorem returns_entries {inner : Node → Decoder Value} {read es : Mapping}
    (returns : ∀ e ∈ es, Returns (inner (nodeOf none e.1)) e.1 ∧ Returns (inner (nodeOf none e.2)) e.2)
    (distinct : (read ++ es).Pairwise fun e f => e.1.same f.1 = false) :
    Returns (decodeEntries inner read (entryNodes es)) (read ++ es) := by
  induction es generalizing read with
  | nil =>
      rw [List.append_nil]
      exact returns_pure
  | cons e es ih =>
      obtain ⟨k, v⟩ := e
      rw [List.forall_mem_cons] at returns
      have new : (Mapping.get? read k).isSome = false := by
        rw [Option.isSome_eq_false_iff, Option.isNone_iff_eq_none, Mapping.get?_eq_none_iff]
        intro e member
        exact (List.pairwise_append.mp distinct).2.2 e member (k, v) (List.mem_cons_self ..)
      rw [List.append_cons] at distinct ⊢
      refine returns_bind returns.1.1 ?_
      rw [if_neg (by simp [new])]
      exact returns_bind returns.1.2 (ih returns.2 distinct)

theorem returns_scalar {tag? : Option Tag} (readable : FrontReadable tag?) {style : Style}
    {text : String} {v : Value} (styled : styledValue style text = .ok v) (levels : Nat) :
    Returns (decodeNode document levels (.scalar (underTags tag?) style text)) (v.under tag?) := by
  have isValue := scalarValue_underTags readable styled
  cases levels with
  | zero => exact returns_bind returns_pure (returns_lift isValue)
  | succ levels => exact returns_bind returns_pure (returns_lift isValue)

theorem returns_nodeOf {v : Value} (treeReadable : v.Readable) :
    ∀ {tag? : Option Tag}, FrontReadable tag? → IsWritten tag? v → ∀ {levels : Nat},
      v.Held levels → v.Valid →
        Returns (decodeNode document levels (nodeOf tag? v)) (v.under tag?) := by
  unfold Value.Readable at treeReadable
  induction treeReadable with
  | null =>
      intro tag? readable _ levels _ _
      exact returns_scalar readable rfl levels
  | bool b =>
      intro tag? readable _ levels _ _
      cases b <;> exact returns_scalar readable rfl levels
  | number n =>
      intro tag? readable _ levels held _
      cases held with
      | number held =>
          have styled : styledValue .plain (String.ofList (numberText n)) = .ok (.number n) :=
            plainValue_numberText held
          exact returns_scalar readable styled levels
  | string s =>
      intro tag? readable _ levels _ _
      exact returns_scalar readable (styledValue_string s) levels
  | @tagged tag v here _ ih =>
      rintro tag? - ⟨place, column?, text, isText⟩ levels held valid
      obtain ⟨rfl, isText⟩ := node_tagged_eq_ok_iff.mp isText
      cases held with
      | tagged _ held =>
          cases valid with
          | tagged _ valid =>
              exact ih (frontReadable_some (here tag v rfl)) ⟨place, column?, text, isText⟩ held valid
  | sequence _ _ ih =>
      intro tag? readable written levels held valid
      cases held with
      | sequence held =>
          refine returns_bind returns_pure (returns_bind (returns_items fun v member => ?_) ?_)
          · exact ih v member frontReadable_none (written.items v member) (held v member)
              (valid.item member)
          · rw [underTag_underTags readable]
            exact returns_pure
  | mapping _ _ _ keysIh valuesIh =>
      intro tag? readable written levels held valid
      cases held with
      | mapping keys values =>
          refine returns_bind returns_pure (returns_bind (returns_entries (fun e member => ⟨?_, ?_⟩)
            valid.distinct) ?_)
          · exact keysIh e member frontReadable_none (written.entries e member).1 (keys e member)
              (valid.key member)
          · exact valuesIh e member frontReadable_none (written.entries e member).2
              (values e member) (valid.value member)
          · rw [underTag_underTags readable]
            exact returns_pure

end Returns

theorem ofDocument_nodeOf {v : Value} (readable : v.Readable) (written : IsWritten none v)
    (held : v.Held depthLimit) (valid : v.Valid) :
    Value.ofDocument (.content (nodeOf none v)) = .ok v := by
  change (·.1) <$> decodeNode (.content (nodeOf none v)) depthLimit (nodeOf none v) 0 = _
  rw [returns_nodeOf readable frontReadable_none written held valid]
  rfl

end ChartInflation.Yaml
