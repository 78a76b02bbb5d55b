import ChartInflation.Proofs.Yaml.Lookup
import ChartInflation.Yaml.Decoder

/-!
# Trees that are read

A document with a key that stands twice in one mapping is refused, so each tree that is read is
valid (`ofBytes_valid`).
-/

set_option autoImplicit false

namespace ChartInflation.Yaml

namespace Decoder

def Yields {α : Type} (P : α → Prop) (d : Decoder α) : Prop :=
  ∀ followed a followed', d followed = .ok (a, followed') → P a

variable {α β : Type} {P : α → Prop} {Q : β → Prop}

theorem yields_pure {a : α} (holds : P a) : Yields P (pure a) := by
  intro followed b followed' run
  have same : a = b := congrArg Prod.fst (Except.ok.inj run)
  exact same ▸ holds

theorem yields_fail (f : Fault) : Yields P (fail f) := by
  intro followed a followed' run
  cases run

theorem yields_lift {x : Except Fault α} (holds : ∀ a, x = .ok a → P a) :
    Yields P (liftM x : Decoder α) := by
  intro followed a followed' run
  cases x with
  | error f => cases run
  | ok b =>
      have same : b = a := congrArg Prod.fst (Except.ok.inj run)
      exact holds a (congrArg Except.ok same)

theorem yields_bind {d : Decoder α} {f : α → Decoder β} (first : Yields P d)
    (rest : ∀ a, P a → Yields Q (f a)) : Yields Q (d >>= f) := by
  intro followed b followed' run
  change (d followed >>= fun pair => f pair.1 pair.2) = .ok (b, followed') at run
  cases step : d followed with
  | error e =>
      rw [step] at run
      cases run
  | ok pair =>
      obtain ⟨a, middle⟩ := pair
      rw [step] at run
      exact rest a (first followed a middle step) middle b followed' run

theorem yields_any (d : Decoder α) : Yields (fun _ => True) d := fun _ _ _ _ => trivial

end Decoder

open Decoder

theorem plainValue_valid {text : String} {v : Value} (read : plainValue text = .ok v) :
    v.Valid := by
  unfold plainValue at read
  split at read <;> (try split at read) <;> simp at read <;> simp [← read, Value.int]

theorem styledValue_valid {style : Style} {text : String} {v : Value}
    (read : styledValue style text = .ok v) : v.Valid := by
  unfold styledValue at read
  split at read
  · exact plainValue_valid read
  · simp [← Except.ok.inj read]

theorem standardValue_valid {tag : Bytes} {text : String} {v : Value}
    (read : standardValue tag text = .ok v) : v.Valid := by
  unfold standardValue at read
  repeat' split at read
  all_goals simp at read
  all_goals simp [← read, Value.int]

theorem scalarValue_valid {tag : Option Bytes} {style : Style} {text : String} {v : Value}
    (read : scalarValue tag style text = .ok v) : v.Valid := by
  unfold scalarValue at read
  split at read
  · cases styled : styledValue style text with
    | error f =>
        rw [styled] at read
        cases read
    | ok w =>
        rw [styled] at read
        exact Except.ok.inj read ▸ .tagged _ (styledValue_valid styled)
  · split at read
    · exact styledValue_valid read
    · exact standardValue_valid read
  · exact styledValue_valid read

theorem underTag_valid {tag : Option Bytes} {v : Value} (valid : v.Valid) :
    (underTag tag v).Valid := by
  unfold underTag
  split
  · exact .tagged _ valid
  · exact valid

section Inner
variable {inner : Node → Decoder Value} (innerValid : ∀ node, Yields Value.Valid (inner node))
include innerValid

theorem decodeItems_valid (nodes : List Node) :
    Yields (fun vs => ∀ v ∈ vs, v.Valid) (decodeItems inner nodes) := by
  induction nodes with
  | nil => exact yields_pure (by simp)
  | cons node nodes ih =>
      refine yields_bind (innerValid node) fun v vValid => yields_bind ih fun vs vsValid => ?_
      exact yields_pure (List.forall_mem_cons.mpr ⟨vValid, vsValid⟩)

theorem decodeEntries_valid (nodes : List (Node × Node)) {read : Mapping}
    (readValid : (Value.mapping read).Valid) :
    Yields (fun es => (Value.mapping es).Valid) (decodeEntries inner read nodes) := by
  induction nodes generalizing read with
  | nil => exact yields_pure readValid
  | cons pair nodes ih =>
      obtain ⟨k, v⟩ := pair
      refine yields_bind (innerValid k) fun key keyValid => ?_
      cases found : Mapping.get? read key with
      | some old =>
          simp only [Option.isSome_some, if_true]
          exact yields_fail _
      | none =>
          simp only [Option.isSome_none, if_false, Bool.false_eq_true]
          exact yields_bind (innerValid v) fun value valueValid =>
            ih (Mapping.valid_append readValid keyValid valueValid found)

end Inner

theorem decodeWith_valid (document : Document) {inner : Option (Node → Decoder Value)}
    (innerValid : ∀ f ∈ inner, ∀ node, Yields Value.Valid (f node)) (node : Node) :
    Yields Value.Valid (decodeWith document inner node) := by
  refine yields_bind (yields_any _) fun meant _ => ?_
  cases inner with
  | none =>
      cases meant with
      | scalar p style text => exact yields_lift fun v read => scalarValue_valid read
      | _ => exact yields_fail _
  | some f =>
      have fValid := innerValid f rfl
      cases meant with
      | scalar p style text => exact yields_lift fun v read => scalarValue_valid read
      | sequence p nodes =>
          exact yields_bind (decodeItems_valid fValid nodes) fun vs vsValid =>
            yields_pure (underTag_valid (.sequence vsValid))
      | mapping p nodes =>
          have none : (Value.mapping []).Valid := by simp
          exact yields_bind (decodeEntries_valid fValid nodes none) fun es esValid =>
            yields_pure (underTag_valid esValid)
      | _ => exact yields_fail _

theorem decodeNode_valid (document : Document) (levels : Nat) (node : Node) :
    Yields Value.Valid (decodeNode document levels node) := by
  induction levels generalizing node with
  | zero => exact decodeWith_valid document (by simp) node
  | succ levels ih =>
      refine decodeWith_valid document (fun f isInner node => ?_) node
      rw [← Option.some.inj isInner]
      exact ih node

/-! ## Documents -/

theorem ofDocument_valid {document : Document} {v : Value}
    (read : Value.ofDocument document = .ok v) : v.Valid := by
  cases document with
  | void => simp [← Except.ok.inj read]
  | content root =>
      change (·.1) <$> decodeNode (.content root) depthLimit root 0 = .ok v at read
      cases decoded : decodeNode (.content root) depthLimit root 0 with
      | error f =>
          rw [decoded] at read
          cases read
      | ok pair =>
          rw [decoded] at read
          exact Except.ok.inj read ▸ decodeNode_valid _ _ _ 0 pair.1 pair.2 decoded

theorem ofBytes_valid {bytes : Bytes} {v : Value} (read : Value.ofBytes bytes = .ok v) :
    v.Valid := by
  unfold Value.ofBytes at read
  cases document : onlyDocument bytes with
  | error f =>
      rw [document] at read
      cases read
  | ok found =>
      rw [document] at read
      exact ofDocument_valid read

end ChartInflation.Yaml
