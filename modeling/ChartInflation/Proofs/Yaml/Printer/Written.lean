import ChartInflation.Proofs.Outcome
import ChartInflation.Yaml.Printer

/-!
# What is written, one construct at a time

The text of a tree that can be written, taken apart into the texts of what is inside of it.
-/

set_option autoImplicit false

namespace ChartInflation.Yaml.Printer

def sequenceColumn (place : Place) (column? : Option Nat) (compact : Bool) : Nat :=
  match column? with
  | some n => if place.inMapping && !compact then n else n + 2
  | none => 0

def isCompact (place : Place) (tag? : Option Tag) : Bool :=
  place.isCompact && tag?.isNone

section Written
variable {place : Place} {column? : Option Nat} {tag? : Option Tag} {column : Nat} {alone : Bool}
variable {text : List Char}

theorem node_tagged_eq_ok_iff {tag : Tag} {v : Value} :
    node place column? tag? (.tagged tag v) = .ok text ↔
      tag? = none ∧ node place column? (some tag) v = .ok text := by
  cases tag? <;> simp [node]

theorem node_sequence_eq_ok_iff {v : Value} {vs : List Value} :
    node place column? tag? (.sequence (v :: vs)) = .ok text ↔
      ∃ body, items (sequenceColumn place column? (isCompact place tag?)) (v :: vs) = .ok body ∧
        text = collection place (sequenceColumn place column? (isCompact place tag?)) tag?
          (isCompact place tag?) body := by
  rw [node.eq_def, Outcome.bind_eq_ok_iff]
  simp only [Outcome.pure_eq_ok, Except.ok.injEq, @eq_comm _ text]
  rfl

theorem node_mapping_eq_ok_iff {e : Value × Value} {es : List (Value × Value)} :
    node place column? tag? (.mapping (e :: es)) = .ok text ↔
      ∃ body, entries (deeper column?) (es.isEmpty && tag?.isNone) (e :: es) = .ok body ∧
        text = collection place (deeper column?) tag? (isCompact place tag?) body := by
  rw [node.eq_def, Outcome.bind_eq_ok_iff]
  simp only [Outcome.pure_eq_ok, Except.ok.injEq, @eq_comm _ text]
  rfl

theorem items_cons_eq_ok_iff {v : Value} {vs : List Value} :
    items column (v :: vs) = .ok text ↔ ∃ first more,
      node .item (some column) none v = .ok first ∧ items column vs = .ok more ∧
        text = spaces column ++ ('-' :: first ++ more) := by
  simp only [items, Outcome.bind_eq_ok_iff, Outcome.pure_eq_ok, Except.ok.injEq,
    @eq_comm _ _ text, List.append_assoc, exists_and_left]

theorem entries_cons_eq_ok_iff {k v : Value} {es : List (Value × Value)} :
    entries column alone ((k, v) :: es) = .ok text ↔
      (alone && isAmbiguousKey k) = false ∧ ∃ more, entries column false es = .ok more ∧
        if isSimpleKey k then ∃ key value, node .root (some column) none k = .ok key ∧
          node .value (some column) none v = .ok value ∧
            text = spaces column ++ (key.dropLast ++ ':' :: value ++ more)
        else ∃ key value, node .longKey (some column) none k = .ok key ∧
          node .longValue (some column) none v = .ok value ∧
            text = spaces column ++ ('?' :: key ++ (spaces column ++ ':' :: value) ++ more) := by
  rw [entries]
  cases ambiguous : alone && isAmbiguousKey k with
  | true => simp
  | false =>
      by_cases simple : isSimpleKey k
      · simp [simple, Outcome.bind_eq_ok_iff, @eq_comm _ _ text]
      · simp [simple, Outcome.bind_eq_ok_iff, @eq_comm _ _ text]

end Written

end ChartInflation.Yaml.Printer
