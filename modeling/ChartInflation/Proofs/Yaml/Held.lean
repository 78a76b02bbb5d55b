import ChartInflation.Proofs.Outcome
import ChartInflation.Proofs.Yaml.Decoding
import ChartInflation.Proofs.Yaml.Printer.NumberMeaning

/-!
# What documents hold

The reader takes collections up to a depth only, and only some numbers.  Each tree that is read
keeps to both (`ofBytes_held`).
-/

set_option autoImplicit false

namespace ChartInflation.Yaml

namespace Value

/-- A tree with at most `levels` collections inside of one another and with numbers that documents
can hold. -/
inductive Held : Nat → Value → Prop
  | null {levels : Nat} : Held levels .null
  | bool {levels : Nat} (b : Bool) : Held levels (.bool b)
  | number {levels : Nat} {n : Number} (held : n.Held) : Held levels (.number n)
  | string {levels : Nat} (s : String) : Held levels (.string s)
  | sequence {levels : Nat} {items : List Value} (inside : ∀ v ∈ items, Held levels v) :
      Held (levels + 1) (.sequence items)
  | mapping {levels : Nat} {entries : Mapping}
      (keys : ∀ e ∈ entries, Held levels e.1) (values : ∀ e ∈ entries, Held levels e.2) :
      Held (levels + 1) (.mapping entries)
  | tagged {levels : Nat} (tag : Tag) {v : Value} (inside : Held levels v) :
      Held levels (.tagged tag v)

end Value

/-! ## Scalars -/

theorem held_of_isFinite {x : Binary64} (finite : x.isFinite) : (Number.float x).Held := by
  intro nan
  simp only [Binary64.isFinite, Binary64.isNan, Bool.and_eq_true, beq_iff_eq, bne_iff_ne] at finite nan
  exact absurd nan.1 finite

theorem held_of_signedDecimal? {text : List Char} {x : Binary64}
    (means : Scalar.signedDecimal? text = some x) : (Number.float x).Held := by
  have chosen : ∃ y : Binary64, (if y.isFinite then some y else none) = some x := by
    unfold Scalar.signedDecimal? at means
    simp only at means
    split at means
    all_goals
      obtain ⟨y, -, chosen⟩ := Option.bind_eq_some_iff.mp means
      exact ⟨y, chosen⟩
  obtain ⟨y, chosen⟩ := chosen
  split at chosen
  · rename_i finite
    exact held_of_isFinite (Option.some.inj chosen ▸ finite)
  · cases chosen

theorem held_of_float? {text : List Char} {x : Binary64} (means : Scalar.float? text = some x) :
    (Number.float x).Held := by
  have infinite : (Number.float .infinity).Held ∧ (Number.float .negativeInfinity).Held := by
    refine ⟨fun nan => ?_, fun nan => ?_⟩ <;> cases nan
  unfold Scalar.float? at means
  split at means
  · cases means
  · split at means
    · exact Option.some.inj means ▸ infinite.1
    · exact held_of_signedDecimal? means
  · split at means
    · exact Option.some.inj means ▸ infinite.1
    split at means
    · exact Option.some.inj means ▸ fun _ => rfl
    split at means
    · split at means
      · exact Option.some.inj means ▸ infinite.2
      · exact held_of_signedDecimal? means
    · exact held_of_signedDecimal? means

theorem held_of_meaning {text : String} {x : Binary64} (means : Scalar.meaning text = .float x) :
    (Number.float x).Held := by
  unfold Scalar.meaning at means
  simp only at means
  split at means
  · cases means
  split at means
  · cases means
  split at means
  · cases means
  split at means
  · rename_i isFloat
    split at isFloat
    · cases isFloat
    · rw [← Meaning.float.inj means]
      exact held_of_float? isFloat
  · cases means

section Scalar
variable {levels : Nat} {text : String} {v : Value}

theorem plainValue_held (read : plainValue text = .ok v) : v.Held levels := by
  unfold plainValue at read
  split at read
  · exact Except.ok.inj read ▸ .null
  · exact Except.ok.inj read ▸ .bool _
  · split at read
    · rename_i range
      exact Except.ok.inj read ▸ .number range
    · cases read
  · rename_i x means
    exact Except.ok.inj read ▸ .number (held_of_meaning means)
  · exact Except.ok.inj read ▸ .string _

theorem styledValue_held {style : Style} (read : styledValue style text = .ok v) :
    v.Held levels := by
  unfold styledValue at read
  split at read
  · exact plainValue_held read
  · exact Except.ok.inj read ▸ .string _

theorem standardValue_held {tag : Bytes} (read : standardValue tag text = .ok v) :
    v.Held levels := by
  unfold standardValue at read
  split at read
  · split at read
    · exact Except.ok.inj read ▸ .bool _
    · cases read
  · split at read
    · split at read
      · rename_i range
        exact Except.ok.inj read ▸ .number range
      · cases read
    · cases read
  · split at read
    · rename_i x means
      exact Except.ok.inj read ▸ .number (held_of_float? means)
    · cases read
  · split at read
    · exact Except.ok.inj read ▸ .null
    · cases read
  · exact Except.ok.inj read ▸ .string _

theorem scalarValue_held {tag : Option Bytes} {style : Style}
    (read : scalarValue tag style text = .ok v) : v.Held levels := by
  unfold scalarValue at read
  split at read
  · obtain ⟨w, styled, isValue⟩ := Outcome.bind_eq_ok_iff.mp read
    exact Except.ok.inj isValue ▸ .tagged _ (styledValue_held styled)
  · split at read
    · exact styledValue_held read
    · exact standardValue_held read
  · exact styledValue_held read

theorem underTag_held {tag : Option Bytes} (held : v.Held levels) :
    (underTag tag v).Held levels := by
  unfold underTag
  split
  · exact .tagged _ held
  · exact held

end Scalar

/-! ## Collections -/

open Decoder

section Inner
variable {inner : Node → Decoder Value} {levels : Nat}
variable (innerHeld : ∀ node, Yields (Value.Held levels) (inner node))
include innerHeld

theorem decodeItems_held (nodes : List Node) :
    Yields (fun vs => ∀ v ∈ vs, v.Held levels) (decodeItems inner nodes) := by
  induction nodes with
  | nil => exact yields_pure (by simp)
  | cons node nodes ih =>
      refine yields_bind (innerHeld node) fun v held => yields_bind ih fun vs allHeld => ?_
      exact yields_pure (List.forall_mem_cons.mpr ⟨held, allHeld⟩)

theorem decodeEntries_held (nodes : List (Node × Node)) {read : Mapping}
    (readHeld : ∀ e ∈ read, e.1.Held levels ∧ e.2.Held levels) :
    Yields (fun es => ∀ e ∈ es, e.1.Held levels ∧ e.2.Held levels)
      (decodeEntries inner read nodes) := by
  induction nodes generalizing read with
  | nil => exact yields_pure readHeld
  | cons pair nodes ih =>
      obtain ⟨k, v⟩ := pair
      refine yields_bind (innerHeld k) fun key keyHeld => ?_
      by_cases found : (Mapping.get? read key).isSome
      · rw [if_pos found]
        exact yields_fail _
      · rw [if_neg found]
        refine yields_bind (innerHeld v) fun value valueHeld => ih ?_
        rw [List.forall_mem_append, List.forall_mem_singleton]
        exact ⟨readHeld, keyHeld, valueHeld⟩

end Inner

theorem decodeNode_held (document : Document) (levels : Nat) (node : Node) :
    Yields (Value.Held levels) (decodeNode document levels node) := by
  induction levels generalizing node with
  | zero =>
      refine yields_bind (yields_any _) fun meant _ => ?_
      cases meant with
      | scalar p style text => exact yields_lift fun v read => scalarValue_held read
      | _ => exact yields_fail _
  | succ levels ih =>
      refine yields_bind (yields_any _) fun meant _ => ?_
      cases meant with
      | scalar p style text => exact yields_lift fun v read => scalarValue_held read
      | sequence p nodes =>
          exact yields_bind (decodeItems_held ih nodes) fun vs held =>
            yields_pure (underTag_held (.sequence held))
      | mapping p nodes =>
          exact yields_bind (decodeEntries_held ih nodes (by simp)) fun es held =>
            yields_pure (underTag_held (.mapping (fun e member => (held e member).1)
              fun e member => (held e member).2))
      | _ => exact yields_fail _

/-! ## Documents -/

theorem ofDocument_held {document : Document} {v : Value}
    (read : Value.ofDocument document = .ok v) : v.Held depthLimit := by
  cases document with
  | void => exact Except.ok.inj read ▸ .null
  | content root =>
      obtain ⟨pair, decoded, rfl⟩ := Outcome.map_eq_ok_iff.mp read
      exact decodeNode_held _ _ _ 0 pair.1 pair.2 decoded

theorem ofBytes_held {bytes : Bytes} {v : Value} (read : Value.ofBytes bytes = .ok v) :
    v.Held depthLimit := by
  obtain ⟨document, -, decoded⟩ := Outcome.bind_eq_ok_iff.mp read
  exact ofDocument_held decoded

end ChartInflation.Yaml
