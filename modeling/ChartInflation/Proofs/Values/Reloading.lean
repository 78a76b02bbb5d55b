import ChartInflation.Proofs.Values.Items
import ChartInflation.Proofs.Yaml.Reading.WrittenTree

/-!
# Values that are written and read again

Whatever is read and merged stays a tree that documents can hold, so without tags it is the same
after it was written and read again (`reload_obtained`).  The one tree that cannot be written has a
mapping of one entry for the key of a mapping of one entry.
-/

set_option autoImplicit false

namespace ChartInflation.Values

open Yaml (Value Mapping depthLimit)

/-! ## Merges -/

theorem rootOf_held {levels : Nat} {v : Value} (held : v.Held (levels + 1)) :
    (rootOf v).Held (levels + 1) := by
  unfold rootOf
  split
  · exact .mapping (by simp) (by simp)
  · exact held

theorem choose_held {levels : Nat} (p : Precedence) {v w : Value} (vHeld : v.Held levels)
    (wHeld : w.Held levels) : (p.choose v w).Held levels := by
  cases p with
  | overlay => exact wHeld
  | base => exact vHeld

/-- A merge nests no deeper than the two trees do. -/
theorem merge_held (p : Precedence) (v w : Value) :
    ∀ levels, v.Held levels → w.Held levels → (merge p v w).Held levels := by
  -- along the merge's own recursion: two values, the items under a key, the entries
  refine merge.induct p
    (fun v w => ∀ levels, v.Held levels → w.Held levels → (merge p v w).Held levels)
    (fun key xs ys => ∀ levels, (∀ x ∈ xs, x.Held levels) → (∀ y ∈ ys, y.Held levels) →
      ∀ x ∈ mergeItems p key xs ys, x.Held levels)
    (fun es fs => ∀ levels, (∀ e ∈ es, e.1.Held levels ∧ e.2.Held levels) →
      (∀ f ∈ fs, f.1.Held levels ∧ f.2.Held levels) →
      ∀ e ∈ mergeEntries p es fs, e.1.Held levels ∧ e.2.Held levels)
    ?mappings ?keyed ?plain ?conflict ?noItem ?item ?noEntry ?entry v w
  case mappings =>
    intro es fs entries levels esHeld fsHeld
    rw [merge]
    cases esHeld with
    | mapping keys values =>
        cases fsHeld with
        | mapping keys' values' =>
            have held := entries _ (fun e member => ⟨keys e member, values e member⟩)
              fun f member => ⟨keys' f member, values' f member⟩
            exact .mapping (fun e member => (held e member).1) fun e member => (held e member).2
  case keyed =>
    intro xs ys key shared items levels xsHeld ysHeld
    rw [merge, shared]
    cases xsHeld with
    | sequence inside =>
        cases ysHeld with
        | sequence inside' => exact .sequence (items _ inside inside')
  case plain =>
    intro xs ys unshared levels xsHeld ysHeld
    rw [merge, unshared]
    exact choose_held p xsHeld ysHeld
  case conflict =>
    intro v w noMappings noSequences levels vHeld wHeld
    rw [merge_eq_choose (fun es fs left right => noMappings es fs left right)
      (fun xs ys left right => noSequences xs ys left right)]
    exact choose_held p vHeld wHeld
  case noItem =>
    intro key xs levels xsHeld _
    exact xsHeld
  case item =>
    intro key xs y rest change items levels xsHeld held
    rw [List.forall_mem_cons] at held
    rw [mergeItems]
    refine items levels (fun x member => ?_) held.2
    rcases mem_putItem member with ⟨old, oldMember, rfl | rfl⟩ | rfl
    · exact xsHeld x oldMember
    · exact change old levels (xsHeld old oldMember) held.1
    · exact held.1
  case noEntry =>
    intro es levels esHeld _
    exact esHeld
  case entry =>
    intro es k v rest change entries levels esHeld held
    rw [List.forall_mem_cons] at held
    rw [mergeEntries]
    refine entries levels (fun e member => ?_) held.2
    rcases mem_putEntry _ _ _ member with ⟨old, oldMember, same | changed⟩ | rfl
    · exact ⟨(esHeld _ oldMember).1, same ▸ (esHeld _ oldMember).2⟩
    · exact ⟨(esHeld _ oldMember).1, changed ▸ change old levels (esHeld _ oldMember).2 held.1.2⟩
    · exact held.1

/-! ## Trees that are obtained -/

/-- A tree that reading documents and merging what was read gives. -/
inductive Obtained : Value → Prop
  | read {bytes : Bytes} {v : Value} (isRead : Value.ofBytes bytes = .ok v) : Obtained v
  | merged (p : Precedence) {base overlay : Value} (ofBase : Obtained base)
      (ofOverlay : Obtained overlay) : Obtained (merged base overlay p)

theorem Obtained.valid {v : Value} (obtained : Obtained v) : v.Valid := by
  induction obtained with
  | read isRead => exact Yaml.ofBytes_valid isRead
  | merged p _ _ base overlay => exact merge_valid p (rootOf_valid base) (rootOf_valid overlay)

theorem Obtained.held {v : Value} (obtained : Obtained v) : v.Held depthLimit := by
  induction obtained with
  | read isRead => exact Yaml.ofBytes_held isRead
  | merged p _ _ base overlay => exact merge_held p _ _ _ (rootOf_held base) (rootOf_held overlay)

/-- Values without tags, however they were read and merged, can be written unless the key of a
mapping of one entry is itself a mapping of one entry, and are then read back as they were. -/
theorem reload_obtained {v : Value} (obtained : Obtained v) (untagged : v.Untagged) :
    ((∃ text, v.print = .ok text) ↔ v.Unambiguous) ∧
      ∀ text, v.print = .ok text → Value.ofBytes (Bytes.ofString text) = .ok v :=
  ⟨Value.exists_print_iff untagged,
    fun _ written => Yaml.ofBytes_print untagged.readable obtained.held obtained.valid written⟩

/-- What is read is known from a test that only one tree passes. -/
theorem ofBytes_eq_of_test {bytes : Bytes} {v : Value} (test : Value → Bool)
    (only : ∀ w, test w → w = v) (passes : (Value.ofBytes bytes).toOption.any test) :
    Value.ofBytes bytes = .ok v := by
  cases isRead : Value.ofBytes bytes with
  | error e => simp [isRead, Except.toOption] at passes
  | ok w => rw [only w (by simpa [isRead, Except.toOption] using passes)]

def portNames : Value :=
  .mapping [(.int 80, .string "true"), (.string "note", .string " on\n80")]

def isNotedPort (port : Int) (name note : String) : Value → Bool
  | .mapping [(.number (.int p), .string n), (.string key, .string t)] =>
    p == port && n == name && key == "note" && t == note
  | _ => false

theorem read_portNames : Value.ofBytes (Bytes.ofString "80: \"no\"\nnote: \" on\\n80\"\n") =
    .ok (.mapping [(.int 80, .string "no"), (.string "note", .string " on\n80")]) := by
  refine ofBytes_eq_of_test (isNotedPort 80 "no" " on\n80") (fun w passes => ?_) (by decide +kernel)
  unfold isNotedPort at passes
  split at passes
  · simp only [Bool.and_eq_true, beq_iff_eq] at passes
    obtain ⟨⟨⟨rfl, rfl⟩, rfl⟩, rfl⟩ := passes
    rfl
  · cases passes

def isNamedPort (port : Int) (name : String) : Value → Bool
  | .mapping [(.number (.int p), .string n)] => p == port && n == name
  | _ => false

theorem read_portName : Value.ofBytes (Bytes.ofString "80: 'true'\n") =
    .ok (.mapping [(.int 80, .string "true")]) := by
  refine ofBytes_eq_of_test (isNamedPort 80 "true") (fun w passes => ?_) (by decide +kernel)
  unfold isNamedPort at passes
  split at passes
  · simp only [Bool.and_eq_true, beq_iff_eq] at passes
    obtain ⟨rfl, rfl⟩ := passes
    rfl
  · cases passes

theorem reload_portNames : Obtained portNames ∧ portNames.Untagged ∧
    portNames.print = .ok "80: 'true'\nnote: |2-\n   on\n  80\n" ∧
    Value.ofBytes (Bytes.ofString "80: 'true'\nnote: |2-\n   on\n  80\n") = .ok portNames := by
  have obtained : Obtained portNames := .merged .overlay (.read read_portNames) (.read read_portName)
  have untagged : portNames.Untagged := by
    refine .mapping (by simp) ?_ ?_ <;>
      simp only [List.forall_mem_cons]
    · exact ⟨.number _ (by simp), .string _ (by simp), by simp⟩
    · exact ⟨.string _ (by simp), .string _ (by simp), by simp⟩
  have printed : portNames.print = .ok "80: 'true'\nnote: |2-\n   on\n  80\n" := by decide +kernel
  exact ⟨obtained, untagged, printed, (reload_obtained obtained untagged).2 _ printed⟩

def nestedKey : Value :=
  .mapping [(.mapping [(.string "a", .string "b")], .string "c")]

def isNestedKey : Value → Bool
  | .mapping [(.mapping [(.string a, .string b)], .string c)] => a == "a" && b == "b" && c == "c"
  | _ => false

theorem read_nestedKey : Value.ofBytes (Bytes.ofString "? {a: b}\n: c\n") = .ok nestedKey := by
  refine ofBytes_eq_of_test isNestedKey (fun w passes => ?_) (by decide +kernel)
  unfold isNestedKey at passes
  split at passes
  · simp only [Bool.and_eq_true, beq_iff_eq] at passes
    obtain ⟨⟨rfl, rfl⟩, rfl⟩ := passes
    rfl
  · cases passes

/-- The one entry of a mapping may not be written with such a key. -/
theorem reload_nestedKey : Obtained nestedKey ∧ nestedKey.Untagged ∧
    nestedKey.print = .error .ambiguousKey := by
  refine ⟨.read read_nestedKey, .mapping (by simp) ?_ ?_, rfl⟩ <;>
    simp only [List.forall_mem_singleton]
  · refine .mapping (by simp) ?_ ?_ <;> simp only [List.forall_mem_singleton]
    · exact .string _ (by simp)
    · exact .string _ (by simp)
  · exact .string _ (by simp)

end ChartInflation.Values
