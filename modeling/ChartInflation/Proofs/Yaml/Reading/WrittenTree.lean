import Mathlib.Data.List.TakeWhile
import ChartInflation.Proofs.Text.Utf8
import ChartInflation.Proofs.Yaml.Joining
import ChartInflation.Proofs.Yaml.Printer.Printable
import ChartInflation.Proofs.Yaml.Reading.Tree
import ChartInflation.Proofs.Yaml.Reading.Value

/-!
# Written trees are read back

The text of a tree is read as the tree, if the tree is one that documents can hold and its tags are
readable (`ofBytes_print`).
-/

set_option autoImplicit false

namespace ChartInflation.Yaml

open Printer

theorem noDirective_front {tag? : Option Tag} {ts : List Token} (inside : ts.all (!isDirective ·)) :
    (tagTokens tag? ++ ts).all (!isDirective ·) := by
  unfold tagTokens
  cases tag?.bind readTag? <;> exact inside

theorem noDirective_items {vs : List Value}
    (inside : ∀ v ∈ vs, ∀ place tag?, (nodeTokens place tag? v).all (!isDirective ·)) :
    (itemTokens vs).all (!isDirective ·) := by
  induction vs with
  | nil => rfl
  | cons v vs ih =>
      rw [List.forall_mem_cons] at inside
      rw [itemTokens, List.all_cons, List.all_append, inside.1, ih inside.2]
      rfl

theorem noDirective_entries {es : List (Value × Value)}
    (keys : ∀ e ∈ es, ∀ place tag?, (nodeTokens place tag? e.1).all (!isDirective ·))
    (values : ∀ e ∈ es, ∀ place tag?, (nodeTokens place tag? e.2).all (!isDirective ·)) :
    (entryTokens es).all (!isDirective ·) := by
  induction es with
  | nil => rfl
  | cons e es ih =>
      obtain ⟨k, v⟩ := e
      rw [List.forall_mem_cons] at keys values
      rw [entryTokens, List.all_cons, List.all_append, List.all_cons, List.all_append, keys.1,
        values.1, ih keys.2 values.2]
      rfl

theorem noDirective_nodeTokens {v : Value} (readable : v.Readable) (place : Printer.Place)
    (tag? : Option Tag) : (nodeTokens place tag? v).all (!isDirective ·) := by
  unfold Value.Readable at readable
  induction readable generalizing place tag? with
  | @tagged tag v _ _ ih => exact ih place (some tag)
  | @sequence vs _ _ ih =>
      cases vs with
      | nil => exact noDirective_front rfl
      | cons v vs =>
          rw [nodeTokens]
          refine noDirective_front ?_
          split
          · exact noDirective_items ih
          · rw [List.all_cons, List.all_append, noDirective_items ih]
            rfl
  | @mapping es _ _ _ keysIh valuesIh =>
      cases es with
      | nil => exact noDirective_front rfl
      | cons e es =>
          rw [nodeTokens]
          refine noDirective_front ?_
          rw [List.all_cons, List.all_append, noDirective_entries keysIh valuesIh]
          rfl
  | _ => exact noDirective_front rfl

theorem readSection_print {v : Value} (readable : v.Readable) {text : List Char}
    (written : node .root none none v = .ok text) :
    readSection .stream text = .ok ⟨.stream, nodeTokens .root none v, []⟩ := by
  have content := List.all_eq_true.mp (noDirective_nodeTokens readable .root none)
  rw [readSection_stream, tokens_of_node readable written, Outcome.ok_bind, sectionOf_eq_ok_iff]
  rw [List.takeWhile_eq_self_iff.mpr content, List.dropWhile_eq_nil_iff.mpr content]
  exact ⟨rfl, rfl, rfl⟩

theorem documentsOfText_print {v : Value} (readable : v.Readable) {text : String}
    (written : v.print = .ok text) :
    documentsOfText text.toList = .ok [.content (nodeOf none v)] := by
  have only := sections_joined text [] (by simpa using print_unmarked written)
  have allowed := print_allowed written
  obtain ⟨lines, isText, rfl⟩ := Outcome.map_eq_ok_iff.mp written
  rw [joined, List.map_nil, String.toList_ofList] at only
  rw [String.toList_ofList] at allowed ⊢
  have inhabited : nodeTokens .root none v ≠ [] := by
    obtain ⟨t, ts, isTokens, -⟩ := nodeTokens_begin v .root none
    simp [isTokens]
  have content : readContent [] (nodeTokens .root none v) = .ok (.content (nodeOf none v)) := by
    simp [readContent, handlesOf, inhabited, ofTokens_nodeTokens readable]
  rw [documentsOfText_eq_ok_iff]
  refine ⟨allowed, [⟨.stream, nodeTokens .root none v, []⟩], [.content (nodeOf none v)], ?_, ?_, rfl⟩
  · rw [only]
    exact .cons (readSection_print readable isText) .nil
  · exact (documentsOf_single_eq_ok_iff _ _).mpr ⟨inhabited, rfl, content⟩

/-- The text of a tree makes one document, the node of the tree. -/
theorem onlyDocument_print {v : Value} (readable : v.Readable) {text : String}
    (written : v.print = .ok text) :
    onlyDocument (Bytes.ofString text) = .ok (.content (nodeOf none v)) := by
  rw [onlyDocument, documents, Bytes.ofString, Utf8.decode?_encode]
  simp only
  rw [documentsOfText_print readable written]
  rfl

/-- A tree that documents can hold and of which all tags are readable is read back from its text. -/
theorem ofBytes_print {v : Value} (readable : v.Readable) (held : v.Held depthLimit)
    (valid : v.Valid) {text : String} (written : v.print = .ok text) :
    Value.ofBytes (Bytes.ofString text) = .ok v := by
  obtain ⟨lines, isText, -⟩ := Outcome.map_eq_ok_iff.mp written
  rw [Value.ofBytes, onlyDocument_print readable written]
  exact ofDocument_nodeOf readable ⟨_, _, _, isText⟩ held valid

end ChartInflation.Yaml
