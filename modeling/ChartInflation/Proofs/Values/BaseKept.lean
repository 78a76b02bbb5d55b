import ChartInflation.Proofs.Values.Entries
import ChartInflation.Proofs.Yaml.Within

/-!
# Values that only fill gaps

Where the values that are there win, merging adds to them and changes nothing
(`base_within_merged`).  One source list may update an item several times, so what is carried
through the recursion is not that a value is within its merge but that whatever is within the value
stays so (`within_merge_base`).
-/

set_option autoImplicit false

namespace ChartInflation.Values

open Yaml (Value Mapping Placing)
open Yaml.Value (IsWithin EntriesAreWithin ItemsAreWithin)

section OneStep
variable {key fresh : Value} {change : Value → Value}
  (keeps : ∀ s old, IsWithin .inFront s old → IsWithin .inFront s (change old))
include keeps

theorem entriesAreWithin_putEntry {es : List (Value × Value)} {ds : Mapping}
    (within : EntriesAreWithin .inFront es ds) :
    EntriesAreWithin .inFront es (putEntry key change fresh ds) := by
  refine (Value.entriesAreWithin_iff _ _).mpr fun e member => ?_
  obtain ⟨w, found, inside⟩ := (Value.entriesAreWithin_iff _ _).mp within e member
  rcases get?_putEntry_of_some key fresh change found with still | changed
  · exact ⟨w, still, inside⟩
  · exact ⟨change w, changed, keeps e.2 w inside⟩

theorem itemsAreWithin_putItem {name : String} {identity : Option Value} {xs ds : List Value}
    (within : ItemsAreWithin .inFront xs ds) :
    ItemsAreWithin .inFront xs (putItem name identity change fresh ds) := by
  induction ds generalizing xs with
  | nil =>
      cases xs with
      | nil => trivial
      | cons x xs => exact absurd within (by simp [ItemsAreWithin])
  | cons d ds ih =>
      cases xs with
      | nil => trivial
      | cons x xs =>
          obtain ⟨first, rest⟩ := within
          by_cases here : sameFound (d.field? name) identity
          · rw [putItem, if_pos here]
            exact ⟨keeps x d first, rest⟩
          · rw [putItem, if_neg here]
            exact ⟨first, ih rest⟩

end OneStep

/-- What is within the values that are there is within their merge with any others. -/
theorem within_merge_base (existing incoming : Value) :
    ∀ s, IsWithin .inFront s existing → IsWithin .inFront s (merge .base existing incoming) := by
  refine merge.induct .base
    (fun existing incoming => ∀ s, IsWithin .inFront s existing →
      IsWithin .inFront s (merge .base existing incoming))
    (fun key existing incoming => ∀ xs, ItemsAreWithin .inFront xs existing →
      ItemsAreWithin .inFront xs (mergeItems .base key existing incoming))
    (fun existing incoming => ∀ es, EntriesAreWithin .inFront es existing →
      EntriesAreWithin .inFront es (mergeEntries .base existing incoming))
    ?mappings ?keyed ?plain ?conflict ?noItem ?item ?noEntry ?entry existing incoming
  case mappings =>
    intro existing incoming entries s within
    obtain ⟨es, rfl, inside⟩ := Value.isWithin_mapping within
    rw [merge]
    exact entries es inside
  case keyed =>
    intro existing incoming key shared items s within
    obtain ⟨xs, rfl, inside⟩ := Value.isWithin_sequence within
    rw [merge, shared]
    exact items xs inside
  case plain =>
    intro existing incoming unshared s within
    rw [merge, unshared]
    exact within
  case conflict =>
    intro existing incoming noMappings noSequences s within
    rw [merge_eq_choose (fun es fs left right => noMappings es fs left right)
      (fun xs ys left right => noSequences xs ys left right)]
    exact within
  case noItem =>
    intro key existing xs within
    exact within
  case item =>
    intro key existing item rest change items xs within
    rw [mergeItems]
    exact items xs (itemsAreWithin_putItem (fun s old => change old s) within)
  case noEntry =>
    intro existing es within
    exact within
  case entry =>
    intro existing k v rest change entries es within
    rw [mergeEntries]
    exact entries es (entriesAreWithin_putEntry (fun s old => change old s) within)

/-- Where the base wins, all of it is still there, for whatever overlay. -/
theorem base_within_merged {base : Value} (valid : base.Valid) (notNull : base.isNull = false)
    (overlay : Value) : IsWithin .inFront base (merged base overlay .base) := by
  have isRoot : rootOf base = base := by simp [rootOf, notNull]
  rw [merged, isRoot]
  exact within_merge_base base (rootOf overlay) base (Value.isWithin_refl valid)

def ports (items : List (String × Int)) : Value :=
  .sequence (items.map fun item =>
    .mapping [(.string "name", .string item.1), (.string "port", .int item.2)])

/-- Both items of the base have the identity of those that come in. -/
theorem base_within_merged_repeated :
    (ports [("web", 80), ("web", 81)]).Valid ∧
    IsWithin .inFront (ports [("web", 80), ("web", 81)])
      (merged (ports [("web", 80), ("web", 81)]) (ports [("web", 90), ("web", 91)]) .base) := by
  have valid : (ports [("web", 80), ("web", 81)]).Valid := by
    simp [ports, Value.same, Value.int]
  exact ⟨valid, base_within_merged valid rfl _⟩

end ChartInflation.Values
