import ChartInflation.Proofs.Yaml.Reading.Leaf

/-!
# The tokens of a written tree

The lexer gives the tokens of a tree from the text of the tree, if all its tags are readable
(`tokens_of_node`).  A node is read from where the mark in front of it ends up to the start of the
line behind it, and leaves the collections around it as they were.
-/

set_option autoImplicit false

namespace ChartInflation.Yaml.Printer

open Lexer

/-- Where the text of a node begins: at the start of the text, behind the mark of a collection in
column `n`, or behind the colon of a simple key in that column. -/
inductive Entry : Place → Option Nat → Blocks → Mark → Bool → Prop
  | root {b : Blocks} {mark : Mark} (outside : b.indent = -1) (atStart : mark.column = 0) :
      Entry .root none b mark true
  | compact {place : Place} {n : Nat} {b : Blocks} {mark : Mark} (isCompact : place.isCompact)
      (inside : b.indent = n) (column : mark.column = n + 1) : Entry place (some n) b mark true
  | value {n : Nat} {b : Blocks} {mark : Mark} (inside : b.indent = n) (behind : n < mark.column) :
      Entry .value (some n) b mark false

/-- The text of a tree under a tag is read as their tokens, whatever stands on the lines behind. -/
def Reads (tag? : Option Tag) (v : Value) : Prop :=
  ∀ {place : Place} {column? : Option Nat} {text : List Char},
    node place column? tag? v = .ok text →
  ∀ {b : Blocks} {mark : Mark} {keyAllowed : Bool}, Entry place column? b mark keyAllowed →
  ∀ {k : Nat} {rest : List Char}, Follows b.indent k rest →
  ∀ {ts : List Token}, Onward (b.add (nodeTokens place tag? v)) k rest ts →
    (block b mark none keyAllowed (text ++ (spaces k ++ rest))).Gives ts

section Entry
variable {place : Place} {column? : Option Nat} {b : Blocks} {mark : Mark} {keyAllowed : Bool}
variable (entry : Entry place column? b mark keyAllowed)
include entry

theorem Entry.least : -1 ≤ b.indent := by
  cases entry <;> omega

theorem Entry.inside : b.indent < mark.column := by
  cases entry <;> omega

theorem Entry.scalarColumn : scalarColumn column? = (max b.indent 0).toNat + 2 := by
  cases entry with
  | root outside _ => rw [outside]; rfl
  | compact _ inside _ => rw [inside]; simp [Printer.scalarColumn]
  | value inside _ => rw [inside]; simp [Printer.scalarColumn]

theorem Entry.sequenceColumn (tag? : Option Tag) :
    isFlat place tag? = true ∧ b.indent = sequenceColumn place column? (isCompact place tag?) ∨
      isFlat place tag? = false ∧
        b.indent < sequenceColumn place column? (isCompact place tag?) := by
  cases entry with
  | root outside _ =>
      rw [outside]
      exact .inr ⟨rfl, neg_one_lt_zero⟩
  | @compact place n _ _ _ inside _ =>
      simp only [Printer.sequenceColumn, isFlat, inside]
      split
      · exact .inl ⟨‹_›, rfl⟩
      · exact .inr ⟨Bool.not_eq_true _ ▸ ‹_›, by omega⟩
  | value inside _ => exact .inl ⟨rfl, inside⟩

variable {text rest : List Char} {ts : List Token}

/-- A node that goes on with the line stands behind a space, if not at the start. -/
theorem Entry.gives_gap (gives : ∀ m : Mark, b.indent < m.column →
    (block b m none keyAllowed text).Gives ts) :
    (block b mark none keyAllowed (place.gap ++ text)).Gives ts := by
  have inside := entry.inside
  have behindSpace : (block b mark none keyAllowed (spaces 1 ++ text)).Gives ts := by
    rw [gives_spaces_iff, Mark.through_spaces]
    exact gives _ (by simp only; omega)
  cases entry with
  | root _ _ => exact gives mark inside
  | @compact place _ _ _ isCompact _ _ => cases place <;> first | exact behindSpace | cases isCompact
  | value _ _ => exact behindSpace

theorem Entry.gives_leaf {us : List Token} (inline : Inline text us) {k : Nat}
    (follows : Follows b.indent k rest) (onward : Onward (b.add us) k rest ts) :
    (block b mark none keyAllowed (place.gap ++ (text ++ ['\n']) ++ (spaces k ++ rest))).Gives ts := by
  rw [List.append_assoc, List.append_assoc]
  exact entry.gives_gap fun m inside => gives_line inline follows inside (passed_none m) onward

/-- The first line of a block collection, which goes on with the line of the mark in front of it or
stands on a line of its own.  Behind a tag it always does. -/
theorem Entry.gives_collection {column : Nat} {tag? : Option Tag} (readable : FrontReadable tag?)
    (atRoot : column? = none → column = 0)
    (atMark : tag? = none → ∀ n, column? = some n → place.isCompact → column = n + 2)
    (gives : ∀ m candidate, m.column = column → Passed candidate m →
      (block (b.add (tagTokens tag?)) m candidate true (text ++ rest)).Gives ts) :
    (block b mark none keyAllowed
      (collection place column tag? (isCompact place tag?) (spaces column ++ text) ++ rest)).Gives
        ts := by
  cases tag? with
  | some tag =>
      rw [collection, List.append_assoc, List.append_assoc, List.cons_append]
      refine entry.gives_gap fun m inside => gives_tag (readable tag rfl).isSome rfl inside.le
        (fun _ => passed_none m) ?_
      have later : m.line < ((m.through (tagText tag)).newLine 1).line :=
        Nat.lt_succ_of_le (m.line_le_through (tagText tag))
      rw [gives_feed_iff, List.append_assoc, gives_spaces_iff, Mark.through_spaces]
      exact gives _ _ (by simp [Mark.newLine]) ((passed_none m).saved inside later)
  | none =>
    change ∀ m candidate, m.column = column → Passed candidate m →
      (block b m candidate true (text ++ rest)).Gives ts at gives
    cases entry with
    | root _ atStart =>
        rw [atRoot rfl] at gives ⊢
        exact gives mark none atStart (passed_none mark)
    | @compact _ n _ _ isCompact _ isColumn =>
        have isText : collection place column none (Printer.isCompact place none)
            (spaces column ++ text) = spaces 1 ++ text := by
          simp [collection, Printer.isCompact, isCompact, spaces]
        rw [isText, List.append_assoc, gives_spaces_iff, Mark.through_spaces]
        refine gives _ none ?_ (passed_none _)
        rw [atMark rfl n rfl isCompact]
        simp only
        omega
    | value _ _ =>
        change (block b mark none false ('\n' :: (spaces column ++ text ++ rest))).Gives ts
        rw [gives_feed_iff, List.append_assoc, gives_spaces_iff, Mark.through_spaces]
        exact gives _ none (by simp [Mark.newLine]) (passed_none _)

end Entry

/-- Behind a mark or a colon a node begins with a blank or a line break. -/
theorem atSpacing_node {place : Place} (marked : place ≠ .root) {column? : Option Nat}
    {tag? : Option Tag} (v : Value) {text : List Char}
    (written : node place column? tag? v = .ok text) (rest : List Char) :
    atSpacing (text ++ rest) := by
  have ofLine : ∀ more, atSpacing (line place tag? more ++ rest) := by
    intro more
    rw [line_eq]
    cases place <;> first | rfl | exact absurd rfl marked
  have ofCollection : ∀ column compact body,
      atSpacing (collection place column tag? compact body ++ rest) := by
    intro column compact body
    cases tag? with
    | some tag => cases place <;> first | rfl | exact absurd rfl marked
    | none =>
        cases compact with
        | true => rfl
        | false =>
            simp only [collection, if_neg marked]
            rfl
  cases v with
  | tagged tag v => exact atSpacing_node marked v (node_tagged_eq_ok_iff.mp written).2 rest
  | sequence vs =>
      cases vs with
      | nil => exact Except.ok.inj written ▸ ofLine _
      | cons v vs =>
          obtain ⟨body, -, rfl⟩ := node_sequence_eq_ok_iff.mp written
          exact ofCollection _ _ body
  | mapping es =>
      cases es with
      | nil => exact Except.ok.inj written ▸ ofLine _
      | cons e es =>
          obtain ⟨body, -, rfl⟩ := node_mapping_eq_ok_iff.mp written
          exact ofCollection _ _ body
  | null => exact Except.ok.inj written ▸ ofLine _
  | bool b => exact Except.ok.inj written ▸ ofLine _
  | number n => exact Except.ok.inj written ▸ ofLine _
  | string s => exact Except.ok.inj written ▸ ofLine _

/-! ## Sequences -/

def GoesOn (b : Blocks) (column : Nat) (text : List Char) (ts : List Token) : Prop :=
  ∃ k rest, text = spaces k ++ rest ∧ Follows column k rest ∧ Onward b k rest ts

section Sequence
variable {b : Blocks} {mark : Mark} {candidate : Option Candidate} {column : Nat}
variable {text rest : List Char} {ts : List Token}

theorem gives_item {v : Value} (reads : Reads none v)
    (written : node .item (some column) none v = .ok text) (le : b.indent ≤ column)
    (isColumn : mark.column = column) (passed : Passed candidate mark)
    (goesOn : GoesOn ((b.opened column .blockSequenceStart).add
      (.blockEntry :: nodeTokens .item none v)) column rest ts) :
    (block b mark candidate true ('-' :: (text ++ rest))).Gives ts := by
  obtain ⟨k, later, rfl, follows, onward⟩ := goesOn
  have spaced := atSpacing_node (by decide) v written (spaces k ++ later)
  subst isColumn
  refine gives_dash passed spaced le ?_
  have isIndent := Blocks.opened_indent b le .blockSequenceStart
  have entry : Entry .item (some mark.column)
      ((b.opened mark.column .blockSequenceStart).add [.blockEntry]) mark.next true :=
    .compact rfl isIndent rfl
  refine reads written entry (isIndent ▸ follows) ?_
  rw [Blocks.add_add]
  exact onward

theorem goesOn_items {vs : List Value} (reads : ∀ v ∈ vs, Reads none v)
    (written : items column vs = .ok text) (inside : b.indent = column)
    (goesOn : GoesOn (b.add (itemTokens vs)) column rest ts) : GoesOn b column (text ++ rest) ts := by
  induction vs generalizing b text with
  | nil => exact (Except.ok.inj written) ▸ goesOn
  | cons v vs ih =>
      rw [List.forall_mem_cons] at reads
      obtain ⟨first, more, isFirst, isMore, rfl⟩ := items_cons_eq_ok_iff.mp written
      refine ⟨column, '-' :: (first ++ (more ++ rest)), by simp, .line le_rfl (by decide), ?_⟩
      intro mark candidate atStart passed
      rw [gives_spaces_iff, Mark.through_spaces, atStart, Nat.zero_add]
      refine gives_item reads.1 isFirst inside.le rfl passed ?_
      rw [Blocks.opened_of_ge b inside.ge]
      refine ih reads.2 isMore inside ?_
      rw [Blocks.add_add]
      exact goesOn

theorem gives_items {v : Value} {vs : List Value} (reads : ∀ u ∈ v :: vs, Reads none u)
    (written : items column (v :: vs) = .ok text)
    (le : b.indent ≤ column)
    (goesOn : GoesOn ((b.opened column .blockSequenceStart).add (itemTokens (v :: vs))) column rest
      ts) :
    ∃ body, text = spaces column ++ body ∧ ∀ m candidate, m.column = column →
      Passed candidate m → (block b m candidate true (body ++ rest)).Gives ts := by
  obtain ⟨first, more, isFirst, isMore, rfl⟩ := items_cons_eq_ok_iff.mp written
  rw [List.forall_mem_cons] at reads
  refine ⟨_, rfl, fun m candidate isColumn passed => ?_⟩
  have inside := Blocks.opened_indent b le .blockSequenceStart
  rw [List.cons_append, List.cons_append, List.append_assoc]
  refine gives_item reads.1 isFirst le isColumn passed ?_
  refine goesOn_items reads.2 isMore inside ?_
  rw [Blocks.add_add]
  exact goesOn

end Sequence

/-! ## Mappings -/

def IsEntry (column : Nat) (k v : Value) (text : List Char) : Prop :=
  if isSimpleKey k then
    ∃ key value, node .root (some column) none k = .ok key ∧
      node .value (some column) none v = .ok value ∧ text = key.dropLast ++ ':' :: value
  else
    ∃ key value, node .longKey (some column) none k = .ok key ∧
      node .longValue (some column) none v = .ok value ∧
        text = '?' :: key ++ (spaces column ++ ':' :: value)

theorem exists_entry {column : Nat} {alone : Bool} {k v : Value} {es : List (Value × Value)}
    {text : List Char} (written : entries column alone ((k, v) :: es) = .ok text) :
    ∃ first more, IsEntry column k v first ∧ entries column false es = .ok more ∧
      text = spaces column ++ (first ++ more) := by
  obtain ⟨-, more, isMore, entry⟩ := entries_cons_eq_ok_iff.mp written
  unfold IsEntry
  split at entry
  · rename_i simple
    obtain ⟨key, value, isKey, isValue, rfl⟩ := entry
    exact ⟨_, more, by rw [if_pos simple]; exact ⟨key, value, isKey, isValue, rfl⟩, isMore, rfl⟩
  · rename_i long
    obtain ⟨key, value, isKey, isValue, rfl⟩ := entry
    exact ⟨_, more, by rw [if_neg long]; exact ⟨key, value, isKey, isValue, rfl⟩, isMore, rfl⟩

theorem IsEntry.begins {column : Nat} {k v : Value} (readable : k.Readable) {text : List Char}
    (entry : IsEntry column k v text) : ∃ c rest, text = c :: rest ∧ isVisible c := by
  unfold IsEntry at entry
  split at entry
  · obtain ⟨key, value, isKey, -, rfl⟩ := entry
    obtain ⟨written, inline, rfl, -⟩ := inline_key readable ‹_› isKey
    obtain ⟨c, rest, rfl, visible⟩ := inline.begins
    exact ⟨c, _, by rw [List.dropLast_concat]; rfl, visible⟩
  · obtain ⟨key, value, -, -, rfl⟩ := entry
    exact ⟨'?', _, rfl, by decide⟩

section Mapping
variable {b : Blocks} {mark : Mark} {candidate : Option Candidate} {column : Nat}
variable {text rest : List Char} {ts : List Token}

theorem gives_simpleEntry {k v : Value} {key value : List Char} (readsValue : Reads none v)
    (readable : k.Readable) (simple : isSimpleKey k)
    (isKey : node .root (some column) none k = .ok key)
    (isValue : node .value (some column) none v = .ok value)
    (le : b.indent ≤ column) (isColumn : mark.column = column) (passed : Passed candidate mark)
    (goesOn : GoesOn ((b.opened column .blockMappingStart).add
      (.key :: (nodeTokens .root none k ++ .value :: nodeTokens .value none v))) column rest ts) :
    (block b mark candidate true (key.dropLast ++ ':' :: value ++ rest)).Gives ts := by
  obtain ⟨n, later, rfl, follows, onward⟩ := goesOn
  subst isColumn
  have inside := Blocks.opened_indent b le .blockMappingStart
  obtain ⟨line, inline, rfl, oneLine, short⟩ := inline_key readable simple isKey
  have spaced := atSpacing_node (by decide) v isValue (spaces n ++ later)
  rw [List.dropLast_concat, List.append_assoc, List.cons_append]
  refine gives_key inline oneLine short spaced le passed fun behind further => ?_
  have asValue : Entry .value (some mark.column) ((b.opened mark.column .blockMappingStart).add
      (.key :: nodeTokens .root none k ++ [.value])) behind false := .value inside further
  refine readsValue isValue asValue (inside ▸ follows) ?_
  rw [Blocks.add_add]
  simpa using onward

theorem gives_longEntry {k v : Value} {key value : List Char} (readsKey : Reads none k)
    (readsValue : Reads none v)
    (isKey : node .longKey (some column) none k = .ok key)
    (isValue : node .longValue (some column) none v = .ok value)
    (le : b.indent ≤ column) (isColumn : mark.column = column) (passed : Passed candidate mark)
    (goesOn : GoesOn ((b.opened column .blockMappingStart).add
      (.key :: (nodeTokens .longKey none k ++ .value :: nodeTokens .longValue none v)))
        column rest ts) :
    (block b mark candidate true
      ('?' :: key ++ (spaces column ++ ':' :: value) ++ rest)).Gives ts := by
  obtain ⟨n, later, rfl, follows, onward⟩ := goesOn
  subst isColumn
  have inside := Blocks.opened_indent b le .blockMappingStart
  have spaced := atSpacing_node (by decide) v isValue (spaces n ++ later)
  have asKey : Entry .longKey (some mark.column)
      ((b.opened mark.column .blockMappingStart).add [.key]) mark.next true :=
    .compact rfl inside rfl
  have text : '?' :: key ++ (spaces mark.column ++ ':' :: value) ++ (spaces n ++ later) =
      '?' :: (key ++ (spaces mark.column ++ ':' :: (value ++ (spaces n ++ later)))) := by simp
  rw [text]
  refine gives_question passed (atSpacing_node (by decide) k isKey _) le ?_
  refine readsKey isKey asKey (.line inside.ge (by decide)) ?_
  intro m c atStart passed
  -- the colon stands on a line of its own, below the question mark
  rw [gives_spaces_iff, Mark.through_spaces, atStart, Nat.zero_add]
  refine gives_colon passed spaced inside ?_
  have asValue : Entry .longValue (some mark.column)
      ((((b.opened mark.column .blockMappingStart).add [.key]).add
        (nodeTokens .longKey none k)).add [.value])
      (Mark.next ⟨m.index + mark.column, m.line, mark.column⟩) true :=
    .compact rfl inside rfl
  refine readsValue isValue asValue (inside ▸ follows) ?_
  rw [Blocks.add_add, Blocks.add_add, Blocks.add_add]
  simpa using onward

theorem gives_entry {k v : Value} (readsKey : Reads none k) (readsValue : Reads none v)
    (readable : k.Readable) (written : IsEntry column k v text)
    (le : b.indent ≤ column) (isColumn : mark.column = column) (passed : Passed candidate mark)
    (goesOn : GoesOn ((b.opened column .blockMappingStart).add
      (.key :: (nodeTokens (keyPlace k) none k ++ .value :: nodeTokens (valuePlace k) none v)))
        column rest ts) :
    (block b mark candidate true (text ++ rest)).Gives ts := by
  unfold IsEntry at written
  unfold keyPlace valuePlace at goesOn
  split at written
  · rename_i simple
    rw [if_pos simple, if_pos simple] at goesOn
    obtain ⟨key, value, isKey, isValue, rfl⟩ := written
    exact gives_simpleEntry readsValue readable simple isKey isValue le isColumn passed goesOn
  · rename_i long
    rw [if_neg long, if_neg long] at goesOn
    obtain ⟨key, value, isKey, isValue, rfl⟩ := written
    exact gives_longEntry readsKey readsValue isKey isValue le isColumn passed goesOn

theorem goesOn_entries {es : List (Value × Value)}
    (reads : ∀ e ∈ es, Reads none e.1 ∧ Reads none e.2) (readable : ∀ e ∈ es, e.1.Readable)
    {alone : Bool}
    (written : entries column alone es = .ok text) (inside : b.indent = column)
    (goesOn : GoesOn (b.add (entryTokens es)) column rest ts) :
    GoesOn b column (text ++ rest) ts := by
  induction es generalizing b text alone with
  | nil => exact (Except.ok.inj written) ▸ goesOn
  | cons e es ih =>
      obtain ⟨k, v⟩ := e
      rw [List.forall_mem_cons] at reads readable
      obtain ⟨first, more, isFirst, isMore, rfl⟩ := exists_entry written
      obtain ⟨c, tail, begins, visible⟩ := isFirst.begins readable.1
      refine ⟨column, first ++ (more ++ rest), by simp, ?_, ?_⟩
      · rw [begins]
        exact .line le_rfl visible
      intro mark candidate atStart passed
      rw [gives_spaces_iff, Mark.through_spaces, atStart, Nat.zero_add]
      refine gives_entry reads.1.1 reads.1.2 readable.1 isFirst inside.le rfl passed ?_
      rw [Blocks.opened_of_ge b inside.ge]
      refine ih reads.2 readable.2 isMore inside ?_
      rw [Blocks.add_add]
      simpa [entryTokens] using goesOn

theorem gives_entries {e : Value × Value} {es : List (Value × Value)}
    (reads : ∀ f ∈ e :: es, Reads none f.1 ∧ Reads none f.2)
    (readable : ∀ f ∈ e :: es, f.1.Readable) {alone : Bool}
    (written : entries column alone (e :: es) = .ok text) (le : b.indent ≤ column)
    (goesOn : GoesOn ((b.opened column .blockMappingStart).add (entryTokens (e :: es))) column rest
      ts) :
    ∃ body, text = spaces column ++ body ∧ ∀ m candidate, m.column = column →
      Passed candidate m → (block b m candidate true (body ++ rest)).Gives ts := by
  obtain ⟨k, v⟩ := e
  obtain ⟨first, more, isFirst, isMore, rfl⟩ := exists_entry written
  rw [List.forall_mem_cons] at reads readable
  refine ⟨_, rfl, fun m candidate isColumn passed => ?_⟩
  have inside := Blocks.opened_indent b le .blockMappingStart
  rw [List.append_assoc]
  refine gives_entry reads.1.1 reads.1.2 readable.1 isFirst le isColumn passed ?_
  refine goesOn_entries reads.2 readable.2 isMore inside ?_
  rw [Blocks.add_add]
  simpa [entryTokens] using goesOn

end Mapping

/-! ## Trees -/

/-- A block collection ends in front of a line of a collection around it. -/
theorem goesOn_block {b : Blocks} {column k : Nat} {rest : List Char} {t : Token} {us ts : List Token}
    (follows : Follows b.indent k rest) (inside : b.indent < column) (least : -1 ≤ b.indent)
    (onward : Onward (b.add (t :: (us ++ [.blockEnd]))) k rest ts) :
    GoesOn ((b.opened column t).add us) column (spaces k ++ rest) ts := by
  refine ⟨k, rest, rfl, follows.mono inside.le, ?_⟩
  have opened : (b.opened column t).add us =
      ⟨us.reverse ++ t :: b.tokens, column, b.indent :: b.indents⟩ := by
    rw [Blocks.opened, if_neg inside.not_ge, Blocks.add]
  rw [opened]
  refine onward_closed follows inside least ?_
  simpa [Blocks.add] using onward

section Reads
variable {tag? : Option Tag} (readable : FrontReadable tag?)
include readable

theorem reads_sequence {v : Value} {vs : List Value} (reads : ∀ u ∈ v :: vs, Reads none u) :
    Reads tag? (.sequence (v :: vs)) := by
  intro place column? text written b mark keyAllowed entry k rest follows ts onward
  obtain ⟨_, isBody, rfl⟩ := node_sequence_eq_ok_iff.mp written
  generalize isColumn : sequenceColumn place column? (isCompact place tag?) = column at isBody ⊢
  have goesOn : b.indent ≤ column ∧ GoesOn
      (((b.add (tagTokens tag?)).opened column .blockSequenceStart).add (itemTokens (v :: vs))) column
        (spaces k ++ rest) ts := by
    rw [nodeTokens, ← Blocks.add_add] at onward
    rcases isColumn ▸ entry.sequenceColumn tag? with ⟨flat, inside⟩ | ⟨indented, inside⟩
    · rw [if_pos flat] at onward
      rw [Blocks.opened_of_ge (b.add (tagTokens tag?)) inside.ge]
      exact ⟨inside.le, k, rest, rfl, inside ▸ follows, onward⟩
    · rw [if_neg (by simp [indented])] at onward
      exact ⟨inside.le, goesOn_block follows inside entry.least onward⟩
  obtain ⟨body, rfl, gives⟩ := gives_items (b := b.add (tagTokens tag?)) reads isBody goesOn.1 goesOn.2
  refine entry.gives_collection readable ?_ ?_ gives
  · rintro rfl
    exact isColumn.symm
  · rintro rfl n rfl compact
    rw [← isColumn]
    simp [sequenceColumn, isCompact, compact]

theorem reads_mapping {e : Value × Value} {es : List (Value × Value)}
    (reads : ∀ f ∈ e :: es, Reads none f.1 ∧ Reads none f.2)
    (keys : ∀ f ∈ e :: es, f.1.Readable) : Reads tag? (.mapping (e :: es)) := by
  intro place column? text written b mark keyAllowed entry k rest follows ts onward
  obtain ⟨_, isBody, rfl⟩ := node_mapping_eq_ok_iff.mp written
  have inside : b.indent < deeper column? := by
    cases entry <;> simp only [deeper] <;> omega
  rw [nodeTokens, ← Blocks.add_add] at onward
  obtain ⟨body, rfl, gives⟩ := gives_entries (b := b.add (tagTokens tag?)) reads keys isBody inside.le
    (goesOn_block follows inside entry.least onward)
  refine entry.gives_collection readable ?_ ?_ gives
  · rintro rfl
    rfl
  · rintro - n rfl -
    rfl

theorem reads_leaf {v : Value} {text : List Char} {us : List Token} (inline : Inline text us)
    (isLine : ∀ place column?, node place column? tag? v = .ok (line place tag? (text ++ ['\n'])))
    (isTokens : ∀ place, nodeTokens place tag? v = tagTokens tag? ++ us) : Reads tag? v := by
  intro place column? written isWritten b mark keyAllowed entry k rest follows ts onward
  rw [isTokens] at onward
  rw [← Except.ok.inj ((isLine _ _).symm.trans isWritten), line_eq, ← List.append_assoc (tagFront tag?)]
  exact entry.gives_leaf (inline_underTag readable inline) follows onward

/-- A literal block goes on with the line of its tag. -/
theorem reads_literal {s : String} (literal : styleOf s = .literal) : Reads tag? (.string s) := by
  intro place column? text written b mark keyAllowed entry k rest follows ts onward
  have fits := fits_styleOf s
  rw [literal] at fits
  have printable : ∀ c ∈ s.toList, isPrintable c := by
    have noEscapes := fits.2
    simp only [fitsLiteral, needsEscapes, Bool.and_eq_true, Bool.not_eq_true',
      Bool.or_eq_false_iff] at noEscapes
    simpa using noEscapes.1.1
  have isLine : stringLine (scalarColumn column?) s = '|' :: (literalHeader s.toList ++
      '\n' :: literalBody ((max b.indent 0).toNat + 2) true s.toList) := by
    rw [stringLine, literal, entry.scalarColumn]
    rfl
  have body : ∀ (m : Mark) candidate keyAllowed, b.indent < m.column → Harmless candidate →
      (block (b.add (tagTokens tag?)) m candidate keyAllowed
        (stringLine (scalarColumn column?) s ++ (spaces k ++ rest))).Gives ts := by
    intro m candidate keyAllowed inside harmless
    have onward' : Onward ((b.add (tagTokens tag?)).add [.scalar .literal (String.ofList s.toList)])
        k rest ts := by
      rw [String.ofList_toList, ← literal, Blocks.add_add]
      exact onward
    have given := @gives_literal (b.add (tagTokens tag?)) m candidate keyAllowed rest s.toList ts
      entry.least (List.ne_nil_of_mem fits.1) printable k follows inside.le harmless onward'
    rw [isLine]
    simpa using given
  rw [← Except.ok.inj written, line_eq, List.append_assoc, List.append_assoc]
  refine entry.gives_gap fun m inside => ?_
  cases tag? with
  | none => exact body m none keyAllowed inside (passed_none m).harmless
  | some tag =>
      rw [tagFront, List.append_assoc]
      refine gives_tag (readable tag rfl).isSome rfl inside.le (fun _ => passed_none m) ?_
      refine gives_spaces_iff (n := 1).mpr (body _ _ false ?_ ?_)
      · rw [Mark.through_spaces, m.through_of_line (tagText_goesOn tag)]
        simp only
        omega
      · have spent : Passed (saved b m none keyAllowed) (m.newLine 1) :=
          (passed_none m).saved inside (Nat.lt_succ_self m.line)
        exact spent.harmless

theorem reads_string (s : String) : Reads tag? (.string s) := by
  intro place column? text written b mark keyAllowed entry k rest follows ts onward
  by_cases literal : styleOf s = .literal
  · exact reads_literal readable literal written entry follows onward
  · obtain ⟨line, inline, isLine, -⟩ := inline_string literal (scalarColumn column?)
    rw [← Except.ok.inj written, line_eq, isLine, ← List.append_assoc (tagFront tag?)]
    exact entry.gives_leaf (inline_underTag readable inline) follows onward

end Reads

theorem reads_of_readable {v : Value} (treeReadable : v.Readable) :
    ∀ {tag?}, FrontReadable tag? → Reads tag? v := by
  unfold Value.Readable at treeReadable
  induction treeReadable with
  | null =>
      intro tag? readable
      exact reads_leaf readable (.plain (plain_word (.inl rfl))) (fun _ _ => rfl) fun _ => rfl
  | bool b =>
      intro tag? readable
      cases b with
      | true =>
          exact reads_leaf readable (.plain (plain_word (.inr (.inl rfl)))) (fun _ _ => rfl)
            fun _ => rfl
      | false =>
          exact reads_leaf readable (.plain (plain_word (.inr (.inr rfl)))) (fun _ _ => rfl)
            fun _ => rfl
  | number n =>
      intro tag? readable
      exact reads_leaf readable (.plain (plain_numberText n)) (fun _ _ => rfl) fun _ => rfl
  | string s => exact fun readable => reads_string readable s
  | @tagged tag v here _ ih =>
      intro tag? _ place column? text written
      obtain ⟨rfl, written⟩ := node_tagged_eq_ok_iff.mp written
      exact ih (frontReadable_some (here tag v rfl)) written
  | @sequence vs _ _ reads =>
      intro tag? readable
      cases vs with
      | nil => exact reads_leaf readable .sequence (fun _ _ => rfl) fun _ => rfl
      | cons v vs => exact reads_sequence readable fun u member => reads u member frontReadable_none
  | @mapping es _ keys _ readsKeys readsValues =>
      intro tag? readable
      cases es with
      | nil => exact reads_leaf readable .mapping (fun _ _ => rfl) fun _ => rfl
      | cons e es =>
          exact reads_mapping readable (fun f member =>
            ⟨readsKeys f member frontReadable_none, readsValues f member frontReadable_none⟩) keys

theorem tokens_of_node {v : Value} (readable : v.Readable) {text : List Char}
    (written : node .root none none v = .ok text) :
    tokens ⟨0, 0, 0⟩ true text = .ok (nodeTokens .root none v) := by
  have entry : Entry .root none ⟨[], -1, []⟩ ⟨0, 0, 0⟩ true := .root rfl rfl
  have onward : Onward (Blocks.add ⟨[], -1, []⟩ (nodeTokens .root none v)) 0 []
      (nodeTokens .root none v) :=
    onward_end (by simp [Blocks.add, Blocks.closed, unwind])
  have gives := reads_of_readable readable frontReadable_none written entry .nothing onward
  rw [show spaces 0 ++ [] = [] from rfl, List.append_nil] at gives
  exact run_mono gives (Nat.succ_le_succ (tokenBound_le_length text))

end ChartInflation.Yaml.Printer
