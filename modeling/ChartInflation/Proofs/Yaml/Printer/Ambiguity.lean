import ChartInflation.Proofs.Yaml.Printer.Written

/-!
# Which trees can be written

A tree without tags can be written unless the key of a mapping of one entry is itself a mapping of
one entry (`exists_print_iff`).
-/

set_option autoImplicit false

namespace ChartInflation.Yaml

namespace Value

inductive Everywhere (P : Value → Prop) : Value → Prop
  | null (here : P .null) : Everywhere P .null
  | bool (b : Bool) (here : P (.bool b)) : Everywhere P (.bool b)
  | number (n : Number) (here : P (.number n)) : Everywhere P (.number n)
  | string (s : String) (here : P (.string s)) : Everywhere P (.string s)
  | sequence {items : List Value} (here : P (.sequence items))
      (inside : ∀ v ∈ items, Everywhere P v) : Everywhere P (.sequence items)
  | mapping {entries : Mapping} (here : P (.mapping entries))
      (keys : ∀ e ∈ entries, Everywhere P e.1) (values : ∀ e ∈ entries, Everywhere P e.2) :
      Everywhere P (.mapping entries)
  | tagged {tag : Tag} {v : Value} (here : P (.tagged tag v)) (inside : Everywhere P v) :
      Everywhere P (.tagged tag v)

section Everywhere
variable {P : Value → Prop}

theorem everywhere_sequence_iff {items : List Value} : (Value.sequence items).Everywhere P ↔
    P (.sequence items) ∧ ∀ v ∈ items, v.Everywhere P := by
  constructor
  · rintro (_ | _)
    exact ⟨‹_›, ‹_›⟩
  · exact fun ⟨here, inside⟩ => .sequence here inside

theorem everywhere_mapping_iff {entries : Mapping} : (Value.mapping entries).Everywhere P ↔
    P (.mapping entries) ∧ ∀ e ∈ entries, e.1.Everywhere P ∧ e.2.Everywhere P := by
  constructor
  · rintro (_ | _)
    rename_i here keys values
    exact ⟨here, fun e member => ⟨keys e member, values e member⟩⟩
  · exact fun ⟨here, inside⟩ =>
      .mapping here (fun e member => (inside e member).1) (fun e member => (inside e member).2)

theorem Everywhere.imp {Q : Value → Prop} {v : Value} (everywhere : v.Everywhere P)
    (implies : ∀ w, P w → Q w) : v.Everywhere Q := by
  induction everywhere with
  | null here => exact .null (implies _ here)
  | bool b here => exact .bool b (implies _ here)
  | number n here => exact .number n (implies _ here)
  | string s here => exact .string s (implies _ here)
  | sequence here _ ih => exact .sequence (implies _ here) ih
  | mapping here _ _ keys values => exact .mapping (implies _ here) keys values
  | tagged here _ ih => exact .tagged (implies _ here) ih

end Everywhere

def Untagged (v : Value) : Prop :=
  v.Everywhere fun w => ∀ tag u, w ≠ .tagged tag u

/-- In no mapping of one entry is the key itself a mapping of one entry. -/
def Unambiguous (v : Value) : Prop :=
  v.Everywhere fun w => ∀ k u, w = .mapping [(k, u)] → Printer.isSingle k = false

end Value

namespace Printer

theorem isAmbiguousKey_of_untagged {k : Value} (untagged : k.Untagged) :
    isAmbiguousKey k = isSingle k := by
  cases untagged with
  | tagged here _ => exact absurd rfl (here _ _)
  | _ => rfl

theorem exists_items_iff {vs : List Value} {column : Nat}
    (inside : ∀ v ∈ vs, ∀ place column?,
      (∃ text, node place column? none v = .ok text) ↔ v.Unambiguous) :
    (∃ text, items column vs = .ok text) ↔ ∀ v ∈ vs, v.Unambiguous := by
  induction vs with
  | nil => simp [items]
  | cons v vs ih =>
      rw [List.forall_mem_cons] at inside ⊢
      rw [← inside.1 .item (some column), ← ih inside.2]
      simp only [items_cons_eq_ok_iff]
      constructor
      · rintro ⟨_, first, more, isFirst, isMore, -⟩
        exact ⟨⟨first, isFirst⟩, more, isMore⟩
      · rintro ⟨⟨first, isFirst⟩, more, isMore⟩
        exact ⟨_, first, more, isFirst, isMore, rfl⟩

theorem exists_entries_iff {es : Mapping} {column : Nat} (alone : Bool)
    (inside : ∀ e ∈ es, ∀ place column?,
      ((∃ text, node place column? none e.1 = .ok text) ↔ e.1.Unambiguous) ∧
      ((∃ text, node place column? none e.2 = .ok text) ↔ e.2.Unambiguous)) :
    (∃ text, entries column alone es = .ok text) ↔
      (alone → ∀ e ∈ es.head?, isAmbiguousKey e.1 = false) ∧
        ∀ e ∈ es, e.1.Unambiguous ∧ e.2.Unambiguous := by
  induction es generalizing alone with
  | nil => simp [entries]
  | cons e es ih =>
      obtain ⟨k, v⟩ := e
      rw [List.forall_mem_cons] at inside ⊢
      obtain ⟨first, later⟩ := inside
      have others := ih false later
      simp only [Bool.false_eq_true, false_implies, true_and] at others
      rw [← others]
      simp only [entries_cons_eq_ok_iff]
      have clear : (alone && isAmbiguousKey k) = false ↔
          (alone → ∀ e ∈ ((k, v) :: es).head?, isAmbiguousKey e.1 = false) := by
        cases alone <;> simp
      rw [← clear]
      by_cases simple : isSimpleKey k
      · rw [← (first .root (some column)).1, ← (first .value (some column)).2]
        simp only [simple, if_true]
        constructor
        · rintro ⟨_, isClear, more, isMore, key, value, isKey, isValue, -⟩
          exact ⟨isClear, ⟨⟨key, isKey⟩, value, isValue⟩, more, isMore⟩
        · rintro ⟨isClear, ⟨⟨key, isKey⟩, value, isValue⟩, more, isMore⟩
          exact ⟨_, isClear, more, isMore, key, value, isKey, isValue, rfl⟩
      · rw [← (first .longKey (some column)).1, ← (first .longValue (some column)).2]
        simp only [simple]
        constructor
        · rintro ⟨_, isClear, more, isMore, key, value, isKey, isValue, -⟩
          exact ⟨isClear, ⟨⟨key, isKey⟩, value, isValue⟩, more, isMore⟩
        · rintro ⟨isClear, ⟨⟨key, isKey⟩, value, isValue⟩, more, isMore⟩
          exact ⟨_, isClear, more, isMore, key, value, isKey, isValue, rfl⟩

theorem exists_sequence_iff {vs : List Value} (place : Place) (column? : Option Nat)
    (inside : ∀ v ∈ vs, ∀ place column?,
      (∃ text, node place column? none v = .ok text) ↔ v.Unambiguous) :
    (∃ text, node place column? none (.sequence vs) = .ok text) ↔ ∀ v ∈ vs, v.Unambiguous := by
  cases vs with
  | nil => exact ⟨fun _ => by simp, fun _ => ⟨_, rfl⟩⟩
  | cons v vs =>
      rw [← exists_items_iff inside]
      simp only [node_sequence_eq_ok_iff]
      exact ⟨fun ⟨_, body, isBody, _⟩ => ⟨body, isBody⟩,
        fun ⟨body, isBody⟩ => ⟨_, body, isBody, rfl⟩⟩

theorem exists_mapping_iff {es : Mapping} (place : Place) (column? : Option Nat)
    (keys : ∀ e ∈ es, e.1.Untagged)
    (inside : ∀ e ∈ es, ∀ place column?,
      ((∃ text, node place column? none e.1 = .ok text) ↔ e.1.Unambiguous) ∧
      ((∃ text, node place column? none e.2 = .ok text) ↔ e.2.Unambiguous)) :
    (∃ text, node place column? none (.mapping es) = .ok text) ↔
      (∀ k u, Value.mapping es = .mapping [(k, u)] → isSingle k = false) ∧
        ∀ e ∈ es, e.1.Unambiguous ∧ e.2.Unambiguous := by
  cases es with
  | nil => exact ⟨fun _ => ⟨by simp, by simp⟩, fun _ => ⟨_, rfl⟩⟩
  | cons e es =>
      -- only a key that stands alone is looked at
      have alone : ((es.isEmpty && (none : Option Tag).isNone) →
          ∀ e' ∈ (e :: es).head?, isAmbiguousKey e'.1 = false) ↔
          ∀ k u, Value.mapping (e :: es) = .mapping [(k, u)] → isSingle k = false := by
        obtain ⟨k, v⟩ := e
        have ambiguous := isAmbiguousKey_of_untagged (keys (k, v) (List.mem_cons_self ..))
        cases es <;> simp [ambiguous]
      rw [← alone, ← exists_entries_iff _ inside]
      simp only [node_mapping_eq_ok_iff]
      exact ⟨fun ⟨_, body, isBody, _⟩ => ⟨body, isBody⟩,
        fun ⟨body, isBody⟩ => ⟨_, body, isBody, rfl⟩⟩

theorem exists_node_iff {v : Value} (untagged : v.Untagged) (place : Place)
    (column? : Option Nat) : (∃ text, node place column? none v = .ok text) ↔ v.Unambiguous := by
  unfold Value.Untagged at untagged
  induction untagged generalizing place column? with
  | null => exact ⟨fun _ => .null (by simp), fun _ => ⟨_, rfl⟩⟩
  | bool b => exact ⟨fun _ => .bool b (by simp), fun _ => ⟨_, rfl⟩⟩
  | number n => exact ⟨fun _ => .number n (by simp), fun _ => ⟨_, rfl⟩⟩
  | string s => exact ⟨fun _ => .string s (by simp), fun _ => ⟨_, rfl⟩⟩
  | tagged here _ _ => exact absurd rfl (here _ _)
  | sequence _ _ ih =>
      rw [exists_sequence_iff place column? ih, Value.Unambiguous, Value.everywhere_sequence_iff]
      exact (and_iff_right (by simp)).symm
  | mapping _ keys _ keysIh valuesIh =>
      rw [exists_mapping_iff place column? keys fun e member place column? =>
          ⟨keysIh e member place column?, valuesIh e member place column?⟩,
        Value.Unambiguous, Value.everywhere_mapping_iff]
      rfl

end Printer

theorem Value.exists_print_iff {v : Value} (untagged : v.Untagged) :
    (∃ text, v.print = .ok text) ↔ v.Unambiguous := by
  rw [← Printer.exists_node_iff untagged .root none]
  simp only [Value.print, Outcome.map_eq_ok_iff]
  exact ⟨fun ⟨_, text, isText, _⟩ => ⟨text, isText⟩, fun ⟨text, isText⟩ => ⟨_, text, isText, rfl⟩⟩

end ChartInflation.Yaml
