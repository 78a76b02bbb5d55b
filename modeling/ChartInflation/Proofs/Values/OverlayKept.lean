import ChartInflation.Proofs.Values.Separate
import ChartInflation.Proofs.Yaml.Within

/-!
# Overlays of which nothing is lost

Where the overlay wins, all of it is in the merge (`overlay_within_merged`), as long as no two items
of an overlay sequence that merges by key share an identity.  Two that do are taken for one item:
the second one is merged into the first and overwrites what that holds
(`overlay_not_within_merged`).
-/

set_option autoImplicit false

namespace ChartInflation

open Yaml (Value Mapping Placing)
open Yaml.Value (IsWithin EntriesAreWithin ItemsAreWithin)

namespace Values

theorem within_merge_overlay {v w : Value} (vValid : v.Valid) (wValid : w.Valid)
    (apart : separate v w) : IsWithin .anywhere w (merge .overlay v w) := by
  induction wValid generalizing v with
  | @mapping fs distinct keysValid valuesValid _ values =>
      have fsValid := Value.Valid.mapping distinct keysValid valuesValid
      by_cases isMapping : ∃ es, v = .mapping es
      · obtain ⟨es, rfl⟩ := isMapping
        rw [merge]
        refine (Value.entriesAreWithin_iff fs _).mpr fun f member => ?_
        rw [get?_mergeEntries .overlay (fun _ => vValid.key) fsValid (keysValid f member),
          Mapping.get?_self fsValid member]
        cases found : Mapping.get? es f.1 with
        | none => exact ⟨f.2, rfl, Value.isWithin_refl (valuesValid f member)⟩
        | some old =>
            have inside := (separateEntries_iff es fs).mp apart f member old found
            exact ⟨_, rfl, values f member (Mapping.get?_valid vValid found) inside⟩
      · rw [merge_eq_choose (fun es _ left _ => isMapping ⟨es, left⟩) (by simp)]
        exact Value.isWithin_refl fsValid
  | @sequence ys valid items =>
      have ysValid := Value.Valid.sequence valid
      by_cases isSequence : ∃ xs, v = .sequence xs
      · obtain ⟨xs, rfl⟩ := isSequence
        cases shared : sharedKey? xs ys with
        | none =>
            rw [merge, shared]
            exact Value.isWithin_refl ysValid
        | some key =>
            -- an item is found in the result by its identity, which it keeps
            obtain ⟨distinct, inside⟩ := separate_keyed shared apart
            have xsValid : ∀ x ∈ xs, x.Valid := fun _ member => vValid.item member
            rw [merge, shared]
            refine (Value.itemsAreWithin_anywhere_iff ys _).mpr fun y member => ?_
            have keeps : ∀ z ∈ ys, ∀ x, itemAt? key (z.field? key) xs = some x →
                sameFound ((merge .overlay x z).field? key) (z.field? key) := by
              intro z zMember x found
              exact merge_field?_same .overlay (itemAt?_valid xsValid x found) (valid z zMember)
                (inside z zMember x found) (itemAt?_identity found)
            have result := itemAt?_mergeItems .overlay xsValid valid distinct keeps
              (field?_valid (valid y member) key)
            rw [itemAt?_self valid distinct member] at result
            cases found : itemAt? key (y.field? key) xs with
            | none =>
                rw [found] at result
                exact ⟨y, List.mem_of_find?_eq_some result, Value.isWithin_refl (valid y member)⟩
            | some x =>
                rw [found] at result
                exact ⟨_, List.mem_of_find?_eq_some result,
                  items y member (itemAt?_valid xsValid x found) (inside y member x found)⟩
      · rw [merge_eq_choose (by simp) (fun xs _ left _ => isSequence ⟨xs, left⟩)]
        exact Value.isWithin_refl ysValid
  | _ =>
      rw [merge_eq_choose (by simp) (by simp)]
      rfl

/-- Where the overlay wins, all of it is in the merge, if no two items of an overlay sequence that
merges by key share an identity. -/
theorem overlay_within_merged {base overlay : Value} (baseValid : base.Valid)
    (overlayValid : overlay.Valid) (apart : separate (rootOf base) (rootOf overlay)) :
    IsWithin .anywhere (rootOf overlay) (merged base overlay .overlay) :=
  within_merge_overlay (rootOf_valid baseValid) (rootOf_valid overlayValid) apart

def volumeMounts (mounts : List (String × String)) : Value :=
  .mapping [(.string "volumeMounts", .sequence (mounts.map fun mount => .mapping
    [(.string "name", .string mount.1), (.string "mountPath", .string mount.2)]))]

theorem overlay_within_merged_mounts :
    (volumeMounts [("data", "/a"), ("logs", "/l")]).Valid ∧
    (volumeMounts [("data", "/b"), ("tmp", "/t")]).Valid ∧
    IsWithin .anywhere (rootOf (volumeMounts [("data", "/b"), ("tmp", "/t")]))
      (merged (volumeMounts [("data", "/a"), ("logs", "/l")])
        (volumeMounts [("data", "/b"), ("tmp", "/t")]) .overlay) := by
  have baseValid : (volumeMounts [("data", "/a"), ("logs", "/l")]).Valid := by
    simp [volumeMounts, Value.same]
  have overlayValid : (volumeMounts [("data", "/b"), ("tmp", "/t")]).Valid := by
    simp [volumeMounts, Value.same]
  exact ⟨baseValid, overlayValid, overlay_within_merged baseValid overlayValid (by rfl)⟩

/-- Two mounts of one volume are taken for one, and the first path is lost. -/
theorem overlay_not_within_merged :
    (volumeMounts [("data", "/a")]).Valid ∧
    (volumeMounts [("data", "/b"), ("data", "/c")]).Valid ∧
    ¬ IsWithin .anywhere (rootOf (volumeMounts [("data", "/b"), ("data", "/c")]))
      (merged (volumeMounts [("data", "/a")]) (volumeMounts [("data", "/b"), ("data", "/c")])
        .overlay) := by
  have result : merged (volumeMounts [("data", "/a")])
      (volumeMounts [("data", "/b"), ("data", "/c")]) .overlay = volumeMounts [("data", "/c")] := by
    rfl
  have isRoot : rootOf (volumeMounts [("data", "/b"), ("data", "/c")]) =
      volumeMounts [("data", "/b"), ("data", "/c")] := by
    rfl
  refine ⟨by simp [volumeMounts, Value.same], by simp [volumeMounts, Value.same], ?_⟩
  rw [result, isRoot]
  simp [volumeMounts, Value.entriesAreWithin_iff, Value.itemsAreWithin_anywhere_iff, Mapping.get?,
    Value.same]

end Values

end ChartInflation
