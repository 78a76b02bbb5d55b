import ChartInflation.Proofs.Yaml.Reading.WrittenTree
import ChartInflation.Yaml.Record

/-!
# Records are read as they are written

A record is written as the mapping of all its fields.  If each field is read from the node of what
it is written as, the record is read from its text (`recordOfBytes_print`): no field is passed over,
and none is met twice.  Reading the node of a tree follows no alias (`steady_nodeOf`), so what one
field is read as does not depend on the fields before it.
-/

set_option autoImplicit false

namespace ChartInflation.Yaml

namespace Decoder

/-- A reader follows no alias: what it gives does not depend on how many were followed before. -/
def Steady {α : Type} (d : Decoder α) : Prop :=
  ∃ x : Except Fault α, ∀ followed, d followed = (·, followed) <$> x

variable {α β : Type}

theorem steady_of_returns {d : Decoder α} {a : α} (returns : Returns d a) : Steady d :=
  ⟨.ok a, returns⟩

theorem steady_lift (x : Except Fault α) : Steady (liftM x : Decoder α) :=
  ⟨x, fun _ => by cases x <;> rfl⟩

theorem steady_fail (f : Fault) : Steady (fail f : Decoder α) :=
  ⟨.error f, fun _ => rfl⟩

theorem steady_bind {d : Decoder α} {f : α → Decoder β} (first : Steady d)
    (rest : ∀ a, Steady (f a)) : Steady (d >>= f) := by
  obtain ⟨x, isFirst⟩ := first
  cases x with
  | error e =>
      refine ⟨.error e, fun followed => ?_⟩
      change (d followed >>= fun pair => f pair.1 pair.2) = _
      rw [isFirst]
      rfl
  | ok a =>
      obtain ⟨y, isRest⟩ := rest a
      refine ⟨y, fun followed => ?_⟩
      change (d followed >>= fun pair => f pair.1 pair.2) = _
      rw [isFirst]
      exact isRest followed

theorem Steady.returns {d : Decoder α} (steady : Steady d) {m n : Nat} {a : α}
    (read : d m = .ok (a, n)) : Returns d a := by
  obtain ⟨x, isRead⟩ := steady
  rw [isRead, Outcome.map_eq_ok_iff] at read
  obtain ⟨b, rfl, same⟩ := read
  obtain rfl := congrArg Prod.fst same
  exact isRead

theorem Returns.unique {d : Decoder α} {a b : α} (first : Returns d a) (second : Returns d b) :
    a = b :=
  congrArg Prod.fst (Except.ok.inj ((first 0).symm.trans (second 0)))

theorem bind_eq_ok_iff {d : Decoder α} {f : α → Decoder β} {m n : Nat} {b : β} :
    (d >>= f) m = .ok (b, n) ↔ ∃ a k, d m = .ok (a, k) ∧ f a k = .ok (b, n) := by
  change (d m >>= fun pair => f pair.1 pair.2) = _ ↔ _
  rw [Outcome.bind_eq_ok_iff, Prod.exists]

end Decoder

open Decoder Printer

/-! ## Nodes of trees -/

section Steady
variable {document : Document} {inner : Node → Decoder Value}

theorem steady_items {vs : List Value} (steady : ∀ v ∈ vs, Steady (inner (nodeOf none v))) :
    Steady (decodeItems inner (itemNodes vs)) := by
  induction vs with
  | nil => exact steady_of_returns returns_pure
  | cons v vs ih =>
      rw [List.forall_mem_cons] at steady
      exact steady_bind steady.1 fun _ => steady_bind (ih steady.2) fun _ =>
        steady_of_returns returns_pure

theorem steady_entries {es : Mapping}
    (steady : ∀ e ∈ es, Steady (inner (nodeOf none e.1)) ∧ Steady (inner (nodeOf none e.2)))
    (read : Mapping) : Steady (decodeEntries inner read (entryNodes es)) := by
  induction es generalizing read with
  | nil => exact steady_of_returns returns_pure
  | cons e es ih =>
      obtain ⟨k, v⟩ := e
      rw [List.forall_mem_cons] at steady
      refine steady_bind steady.1.1 fun key => ?_
      split
      · exact steady_fail _
      · exact steady_bind steady.1.2 fun value => ih steady.2 _

/-- The node of a tree is no alias, and what is inside of it are nodes of trees. -/
theorem nodeOf_cases (tag? : Option Tag) (v : Value) :
    (∃ p style text, nodeOf tag? v = .scalar p style text) ∨
      (∃ p vs, nodeOf tag? v = .sequence p (itemNodes vs)) ∨
        ∃ p es, nodeOf tag? v = .mapping p (entryNodes es) := by
  match v with
  | .tagged tag v => exact nodeOf_cases (some tag) v
  | .sequence vs => exact .inr (.inl ⟨_, _, rfl⟩)
  | .mapping es => exact .inr (.inr ⟨_, _, rfl⟩)
  | .null | .bool _ | .number _ | .string _ => exact .inl ⟨_, _, _, rfl⟩

theorem decodeNode_sequence (levels : Nat) (p : Properties) (nodes : List Node) :
    decodeNode document (levels + 1) (.sequence p nodes) = do
      let items ← decodeItems (decodeNode document levels) nodes
      return underTag p.tag (.sequence items) := rfl

theorem decodeNode_mapping (levels : Nat) (p : Properties) (nodes : List (Node × Node)) :
    decodeNode document (levels + 1) (.mapping p nodes) = do
      let entries ← decodeEntries (decodeNode document levels) [] nodes
      return underTag p.tag (.mapping entries) := rfl

theorem steady_nodeOf (levels : Nat) (tag? : Option Tag) (v : Value) :
    Steady (decodeNode document levels (nodeOf tag? v)) := by
  induction levels generalizing tag? v with
  | zero =>
      rcases nodeOf_cases tag? v with ⟨p, style, text, isNode⟩ | ⟨p, vs, isNode⟩ | ⟨p, es, isNode⟩
      · rw [isNode]
        exact steady_lift (scalarValue p.tag style text)
      · rw [isNode]
        exact steady_fail .depth
      · rw [isNode]
        exact steady_fail .depth
  | succ levels ih =>
      rcases nodeOf_cases tag? v with ⟨p, style, text, isNode⟩ | ⟨p, vs, isNode⟩ | ⟨p, es, isNode⟩
      · rw [isNode]
        exact steady_lift (scalarValue p.tag style text)
      · rw [isNode, decodeNode_sequence]
        exact steady_bind (steady_items fun v _ => ih none v) fun _ => steady_of_returns returns_pure
      · rw [isNode, decodeNode_mapping]
        exact steady_bind (steady_entries (fun e _ => ⟨ih none e.1, ih none e.2⟩) []) fun _ =>
          steady_of_returns returns_pure

/-- Of a mapping that is read, each entry is read, and is an entry of what the mapping is read as. -/
theorem exists_read_entry {es read found : Mapping}
    (steady : ∀ v, Steady (inner (nodeOf none v))) {m n : Nat}
    (isRead : decodeEntries inner read (entryNodes es) m = .ok (found, n)) :
    read <+: found ∧ ∀ e ∈ es, ∃ f ∈ found, Returns (inner (nodeOf none e.1)) f.1 ∧
      Returns (inner (nodeOf none e.2)) f.2 := by
  induction es generalizing read m with
  | nil =>
      obtain rfl : read = found := congrArg Prod.fst (Except.ok.inj isRead)
      exact ⟨List.prefix_refl _, List.forall_mem_nil _⟩
  | cons e es ih =>
      obtain ⟨k, v⟩ := e
      obtain ⟨key, _, isKey, isRest⟩ := Decoder.bind_eq_ok_iff.mp isRead
      split at isRest
      · cases isRest
      · obtain ⟨value, _, isValue, isRest⟩ := Decoder.bind_eq_ok_iff.mp isRest
        obtain ⟨front, others⟩ := ih isRest
        refine ⟨(List.prefix_append _ _).trans front, List.forall_mem_cons.mpr ⟨?_, others⟩⟩
        exact ⟨(key, value), front.subset (by simp), (steady k).returns isKey,
          (steady v).returns isValue⟩

end Steady

/-- If a mapping is read as an equal one, then one level inside so is the value of each string key:
the first one of that name counts. -/
theorem exists_same_value {es : Mapping} {name : String} {v w : Value} {levels : Nat}
    {document : Document}
    (isFirst : es.find? (fun f => (Value.string name).same f.1) = some (.string name, v))
    {m n : Nat}
    (isRead : decodeNode document (levels + 1) (nodeOf none (.mapping es)) m = .ok (w, n))
    (equal : w.same (.mapping es)) :
    ∃ u, Returns (decodeNode document levels (nodeOf none v)) u ∧ u.same v := by
  rw [nodeOf, decodeNode_mapping] at isRead
  obtain ⟨found, _, areEntries, isValue⟩ := Decoder.bind_eq_ok_iff.mp isRead
  obtain rfl : Value.mapping found = w := congrArg Prod.fst (Except.ok.inj isValue)
  obtain ⟨-, entries⟩ := exists_read_entry (steady_nodeOf levels none) areEntries
  obtain ⟨⟨key, u⟩, member, isKey, isValue⟩ := entries _ (List.mem_of_find?_eq_some isFirst)
  have isName : Returns (decodeNode document levels (nodeOf none (.string name))) (.string name) :=
    returns_scalar frontReadable_none (styledValue_string name) levels
  obtain rfl : key = .string name := isKey.unique isName
  obtain ⟨f, isFound, sameValue⟩ := ((Value.same_mappings_iff _ _).mp equal).2 _ member
  simp only at isFound sameValue
  rw [isFirst, Option.some.injEq] at isFound
  subst isFound
  exact ⟨u, isValue, sameValue⟩

/-! ## Fields -/

section Fields
variable {document : Document}

theorem returns_text (s : String) : Returns (decodeText document (nodeOf none (.string s))) s :=
  fun _ => rfl

theorem standsForNone_string (s : String) : standsForNone none (styleOf s) s = .ok false := by
  have fits := fits_styleOf s
  generalize styleOf s = style at fits
  unfold standsForNone
  split
  · rfl
  · rename_i plain
    obtain rfl := not_not.mp plain
    have isString := fits.2.1
    simp only [readsOtherwise, Bool.or_eq_false_iff, bne_eq_false_iff_eq] at isString
    have notNull : (s.toList.isEmpty || Scalar.isNullWord s) = false := by
      rw [← Bool.not_eq_true]
      intro null
      rw [Scalar.meaning, if_pos null] at isString
      cases isString.1
    have empty : s.isEmpty = s.toList.isEmpty := by
      rw [Bool.eq_iff_iff, String.isEmpty_iff, List.isEmpty_iff, String.toList_eq_nil_iff]
    rw [empty, notNull]

/-- A text that is there, though it is empty or a word for null. -/
theorem returns_some (s : String) :
    Returns (decodeOptionalText document (nodeOf none (.string s))) (some s) := by
  intro followed
  change (liftM (standsForNone none (styleOf s) s) >>= fun none? : Bool =>
    if none? then return none else return some s : Decoder (Option String)) followed = _
  rw [standsForNone_string]
  rfl

theorem returns_none : Returns (decodeOptionalText document (nodeOf none .null)) none :=
  fun _ => rfl

theorem returns_flag (b : Bool) : Returns (decodeFlag document (nodeOf none (.bool b))) b := by
  intro _
  cases b <;> rfl

theorem returns_texts (texts : List String) :
    Returns (decodeTexts document (nodeOf none (.sequence (texts.map .string)))) texts := by
  have items : Returns (decodeTextItems document (itemNodes (texts.map .string))) texts := by
    induction texts with
    | nil => exact returns_pure
    | cons s texts ih => exact returns_bind (returns_text s) (returns_bind ih returns_pure)
  exact items

end Fields

/-! ## Records -/

structure WrittenField (α : Type) where
  name : String
  value : Value
  put : α → α

namespace WrittenField
variable {α : Type}

def entry (f : WrittenField α) : Value × Value :=
  (.string f.name, f.value)

def IsRead (reader : FieldReader α) (document : Document) (f : WrittenField α) : Prop :=
  ∃ take, reader document f.name = some take ∧
    ∀ record, Returns (take record (nodeOf none f.value)) (f.put record)

end WrittenField

section Records
variable {α : Type} {reader : FieldReader α} {document : Document}

theorem returns_fields {fields : List (WrittenField α)} {seen : List String} {record : α}
    (areRead : ∀ f ∈ fields, f.IsRead reader document) (distinct : (fields.map (·.name)).Nodup)
    (new : ∀ f ∈ fields, f.name ∉ seen) :
    Returns (decodeFields reader document seen record (entryNodes (fields.map (·.entry))))
      (fields.foldl (fun r f => f.put r) record) := by
  induction fields generalizing seen record with
  | nil => exact returns_pure
  | cons f fields ih =>
      rw [List.forall_mem_cons] at areRead new
      rw [List.map_cons, List.nodup_cons] at distinct
      obtain ⟨take, isReader, isTaken⟩ := areRead.1
      refine returns_bind (returns_text f.name) ?_
      rw [isReader]
      simp only [List.contains_eq_mem, new.1]
      refine returns_bind (isTaken record) (ih areRead.2 distinct.2 fun g member => ?_)
      rw [List.mem_cons, not_or]
      refine ⟨fun same => distinct.1 ?_, new.2 g member⟩
      rw [← same]
      exact List.mem_map_of_mem member

/-- A record is read from the text of the mapping of its fields. -/
theorem recordOfBytes_print (fields : List (WrittenField α)) (record : α) {text : String}
    (readable : (Value.mapping (fields.map (·.entry))).Readable)
    (written : (Value.mapping (fields.map (·.entry))).print = .ok text)
    (areRead : ∀ f ∈ fields, f.IsRead reader
      (.content (nodeOf none (.mapping (fields.map (·.entry))))))
    (distinct : (fields.map (·.name)).Nodup) :
    recordOfBytes reader record (Bytes.ofString text) =
      .ok (fields.foldl (fun r f => f.put r) record) := by
  have fieldsRead := @returns_fields α reader _ fields [] record areRead distinct (by simp) 0
  rw [recordOfBytes, onlyDocument_print readable written, Outcome.ok_bind]
  change (·.1) <$> decodeFields reader _ [] record _ 0 = _
  rw [fieldsRead]
  rfl

end Records

end ChartInflation.Yaml
