import ChartInflation.Proofs.Yaml.Lookup

/-!
# Trees within trees

A tree is within another one if that has all its mappings under the same keys and all its sequences
item by item, with its other values unchanged.  The items of a sequence may be asked for at the
front of the other one, one by one and in order, or anywhere in it.
-/

set_option autoImplicit false

namespace ChartInflation.Yaml

inductive Placing where
  | inFront
  | anywhere
deriving DecidableEq, Repr

namespace Value

mutual

def IsWithin (placing : Placing) : Value → Value → Prop
  | .mapping es, .mapping fs => EntriesAreWithin placing es fs
  | .sequence xs, .sequence ys => ItemsAreWithin placing xs ys
  | v, w => v = w

def EntriesAreWithin (placing : Placing) : List (Value × Value) → Mapping → Prop
  | [], _ => True
  | (k, v) :: rest, fs =>
    (∃ w, Mapping.get? fs k = some w ∧ IsWithin placing v w) ∧ EntriesAreWithin placing rest fs

/-- Whether each item is within one of a sequence: the one in its place, or any. -/
def ItemsAreWithin (placing : Placing) : List Value → List Value → Prop
  | [], _ => True
  | x :: xs, ys =>
    match placing, ys with
    | .inFront, y :: ys => IsWithin .inFront x y ∧ ItemsAreWithin .inFront xs ys
    | .inFront, [] => False
    | .anywhere, ys => (∃ y ∈ ys, IsWithin .anywhere x y) ∧ ItemsAreWithin .anywhere xs ys

end

variable {placing : Placing}

@[simp] theorem isWithin_mappings_iff (es fs : Mapping) :
    IsWithin placing (.mapping es) (.mapping fs) ↔ EntriesAreWithin placing es fs :=
  Iff.rfl

@[simp] theorem isWithin_sequences_iff (xs ys : List Value) :
    IsWithin placing (.sequence xs) (.sequence ys) ↔ ItemsAreWithin placing xs ys :=
  Iff.rfl

@[simp] theorem isWithin_string_iff (s : String) (v : Value) :
    IsWithin placing (.string s) v ↔ v = .string s := by
  cases v <;> simp [IsWithin, @eq_comm _ s]

theorem entriesAreWithin_iff (es : List (Value × Value)) (fs : Mapping) :
    EntriesAreWithin placing es fs ↔
      ∀ e ∈ es, ∃ w, Mapping.get? fs e.1 = some w ∧ IsWithin placing e.2 w := by
  induction es with
  | nil => simp [EntriesAreWithin]
  | cons e es ih => simp [EntriesAreWithin, ih]

theorem itemsAreWithin_anywhere_iff (xs ys : List Value) :
    ItemsAreWithin .anywhere xs ys ↔ ∀ x ∈ xs, ∃ y ∈ ys, IsWithin .anywhere x y := by
  induction xs with
  | nil => simp [ItemsAreWithin]
  | cons x xs ih => simp [ItemsAreWithin, ih]

theorem isWithin_mapping {s : Value} {fs : Mapping} (within : IsWithin placing s (.mapping fs)) :
    ∃ es, s = .mapping es ∧ EntriesAreWithin placing es fs := by
  cases s with
  | mapping es => exact ⟨es, rfl, within⟩
  | _ => exact absurd within (by simp [IsWithin])

theorem isWithin_sequence {s : Value} {ys : List Value}
    (within : IsWithin placing s (.sequence ys)) :
    ∃ xs, s = .sequence xs ∧ ItemsAreWithin placing xs ys := by
  cases s with
  | sequence xs => exact ⟨xs, rfl, within⟩
  | _ => exact absurd within (by simp [IsWithin])

theorem itemsAreWithin_refl {xs : List Value} (within : ∀ x ∈ xs, IsWithin placing x x) :
    ItemsAreWithin placing xs xs := by
  cases placing with
  | anywhere =>
      exact (itemsAreWithin_anywhere_iff xs xs).mpr fun x member => ⟨x, member, within x member⟩
  | inFront =>
      induction xs with
      | nil => trivial
      | cons x xs ih =>
          exact ⟨within x (List.mem_cons_self ..), ih fun y member =>
            within y (List.mem_cons_of_mem _ member)⟩

theorem isWithin_refl {v : Value} (valid : v.Valid) : IsWithin placing v v := by
  induction valid with
  | sequence _ items => exact itemsAreWithin_refl items
  | mapping distinct keysValid valuesValid _ values =>
      refine (entriesAreWithin_iff _ _).mpr fun e member => ?_
      exact ⟨e.2, Mapping.get?_self (.mapping distinct keysValid valuesValid) member,
        values e member⟩
  | _ => rfl

end Value

end ChartInflation.Yaml
