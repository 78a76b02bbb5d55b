import ChartInflation.Proofs.Yaml.Printer.Unmarked

/-!
# What characters are written

The text of a tree holds printable characters only, which a document may hold (`print_allowed`).
-/

set_option autoImplicit false

namespace ChartInflation.Yaml.Printer

def Printable (text : List Char) : Prop :=
  ∀ c ∈ text, isPrintable c

instance (text : List Char) : Decidable (Printable text) :=
  decidable_of_iff (text.all isPrintable) List.all_eq_true

section Printable
variable {text more : List Char}

theorem printable_nil : Printable [] :=
  List.forall_mem_nil _

theorem printable_append : Printable (text ++ more) ↔ Printable text ∧ Printable more :=
  List.forall_mem_append

theorem printable_cons {c : Char} : Printable (c :: text) ↔ isPrintable c ∧ Printable text :=
  List.forall_mem_cons

theorem printable_spaces (n : Nat) : Printable (spaces n) := by
  intro c member
  rw [List.eq_of_mem_replicate member]
  decide

theorem printable_of_fits (fits : needsEscapes text = false) : Printable text := by
  have printable := (Bool.or_eq_false_iff.mp fits).1
  simpa [Printable] using printable

theorem isAllowed_of_isPrintable {c : Char} (printable : isPrintable c) : isAllowed c := by
  rw [isPrintable_iff] at printable
  rw [isAllowed_iff]
  omega

/-! ## Scalars -/

theorem printable_hexDigits (width n : Nat) : Printable (hexDigits width n) := by
  induction width generalizing n with
  | zero => exact printable_nil
  | succ width ih =>
      have digit : ∀ m < 16,
          isPrintable (if m < 10 then Char.ofNat (48 + m) else Char.ofNat (55 + m)) := by
        decide
      rw [hexDigits, printable_append, printable_cons]
      exact ⟨ih _, digit _ (Nat.mod_lt n (by decide)), printable_nil⟩

theorem printable_escape (c : Char) : Printable (escape c) := by
  have choose : ∀ {p : Prop} [Decidable p] {a b : List Char}, Printable a → Printable b →
      Printable (if p then a else b) := by
    intro p _ a b yes no
    split
    · exact yes
    · exact no
  have digits : ∀ {mark : List Char} (width : Nat), Printable mark →
      Printable (mark ++ hexDigits width c.toNat) :=
    fun width isMark => printable_append.mpr ⟨isMark, printable_hexDigits width _⟩
  unfold escape
  iterate 14 refine choose (by decide) ?_
  refine choose (digits 2 ?_) (choose (digits 4 ?_) (digits 8 ?_))
  all_goals decide

theorem printable_doubleQuoted (text : List Char) : Printable (doubleQuoted text) := by
  have body : ∀ text : List Char, Printable (text.flatMap fun c =>
      if !isPrintable c || isBreak c || c == '"' || c == '\\' then escape c else [c]) := by
    intro text c member
    obtain ⟨d, -, isWritten⟩ := List.mem_flatMap.mp member
    split at isWritten
    · exact printable_escape d c isWritten
    · rename_i plain
      rw [List.mem_singleton.mp isWritten]
      simp only [Bool.or_eq_true, not_or, Bool.not_eq_true', Bool.not_eq_false] at plain
      exact plain.1.1.1
  rw [doubleQuoted, printable_append, printable_cons, printable_cons]
  exact ⟨⟨by decide, body text⟩, by decide, printable_nil⟩

theorem printable_indentation (lineStart : Bool) (indent : Nat) :
    Printable (if lineStart then spaces indent else []) := by
  split
  · exact printable_spaces indent
  · exact printable_nil

theorem printable_singleQuotedBody (indent : Nat) (lineStart : Bool) (printable : Printable text) :
    Printable (singleQuotedBody indent lineStart text) := by
  induction text generalizing lineStart with
  | nil => exact printable_indentation lineStart indent
  | cons c text ih =>
      rw [printable_cons] at printable
      rw [singleQuotedBody]
      split
      · exact printable_cons.mpr ⟨printable.1, ih true printable.2⟩
      · refine printable_append.mpr ⟨printable_append.mpr ⟨printable_indentation _ _, ?_⟩,
          ih false printable.2⟩
        split
        · decide
        · exact printable_cons.mpr ⟨printable.1, printable_nil⟩

theorem printable_literalBody (indent : Nat) (lineStart : Bool) (printable : Printable text) :
    Printable (literalBody indent lineStart text) := by
  induction text generalizing lineStart with
  | nil =>
      unfold literalBody
      split <;> decide
  | cons c text ih =>
      rw [printable_cons] at printable
      rw [literalBody]
      split
      · exact printable_cons.mpr ⟨printable.1, ih true printable.2⟩
      · exact printable_append.mpr ⟨printable_indentation _ _,
          printable_cons.mpr ⟨printable.1, ih false printable.2⟩⟩

theorem printable_literalHeader (text : List Char) : Printable (literalHeader text) := by
  have chomping : ∀ c : Char, Printable (if isBreak c then ['+'] else ['-']) := by
    intro c
    split <;> decide
  unfold literalHeader
  refine printable_append.mpr ⟨?_, ?_⟩
  · split <;> decide
  · split
    · decide
    · exact chomping _
    · split
      · decide
      · split <;> decide

theorem printable_stringLine (indent : Nat) (s : String) : Printable (stringLine indent s) := by
  have fits := fits_styleOf s
  have feed : Printable ['\n'] := by decide
  unfold stringLine
  generalize styleOf s = style at fits ⊢
  cases style with
  | plain =>
      have printable := fits.2.2
      simp only [fitsPlain, Bool.and_eq_true, Bool.not_eq_true'] at printable
      exact printable_append.mpr ⟨printable_of_fits printable.1.1.1.1.1.1, feed⟩
  | singleQuoted =>
      have printable := fits.2
      simp only [fitsSingleQuotes, Bool.and_eq_true, Bool.not_eq_true'] at printable
      exact printable_append.mpr ⟨printable_cons.mpr ⟨by decide,
        printable_singleQuotedBody indent false (printable_of_fits printable.1)⟩, by decide⟩
  | literal =>
      have printable := fits.2
      simp only [fitsLiteral, Bool.and_eq_true, Bool.not_eq_true'] at printable
      exact printable_append.mpr ⟨printable_cons.mpr ⟨by decide, printable_literalHeader _⟩,
        printable_cons.mpr ⟨by decide,
          printable_literalBody indent true (printable_of_fits printable.1)⟩⟩
  | _ => exact printable_append.mpr ⟨printable_doubleQuoted _, feed⟩

theorem printable_numberText (n : Number) : Printable (numberText n) := by
  intro c member
  have isNumber := isNumeric_numberText n c member
  rw [isPrintable_iff]
  simp [isNumberCharacter, isAsciiDigit_iff, char_eq_iff] at isNumber
  omega

/-! ## Trees -/

theorem printable_gap (place : Place) : Printable place.gap := by
  cases place <;> decide

theorem printable_tagText (tag : Tag) : Printable (tagText tag) := by
  intro c member
  have inTag := tagText_inTag tag c member
  rw [isPrintable_iff]
  unfold InTag at inTag
  omega

theorem printable_line (place : Place) (tag? : Option Tag) (printable : Printable text) :
    Printable (line place tag? text) := by
  cases tag? with
  | none => exact printable_append.mpr ⟨printable_gap place, printable⟩
  | some tag =>
      exact printable_append.mpr ⟨printable_append.mpr ⟨printable_gap place, printable_tagText tag⟩,
        printable_cons.mpr ⟨by decide, printable⟩⟩

theorem printable_collection (place : Place) (column : Nat) (tag? : Option Tag) (compact : Bool)
    (printable : Printable text) : Printable (collection place column tag? compact text) := by
  cases tag? with
  | some tag =>
      exact printable_append.mpr ⟨printable_append.mpr ⟨printable_gap place, printable_tagText tag⟩,
        printable_cons.mpr ⟨by decide, printable⟩⟩
  | none =>
      simp only [collection]
      split
      · exact printable_cons.mpr
          ⟨by decide, fun c member => printable c (List.mem_of_mem_drop member)⟩
      split
      · exact printable
      · exact printable_cons.mpr ⟨by decide, printable⟩

end Printable

mutual

theorem printable_node (place : Place) (column? : Option Nat) (tag? : Option Tag) (v : Value)
    {text : List Char} (written : node place column? tag? v = .ok text) : Printable text := by
  match v with
  | .tagged tag v =>
      obtain ⟨rfl, written⟩ := node_tagged_eq_ok_iff.mp written
      exact printable_node place column? (some tag) v written
  | .sequence (v :: vs) =>
      obtain ⟨body, isBody, rfl⟩ := node_sequence_eq_ok_iff.mp written
      exact printable_collection place _ tag? _ (printable_items _ (v :: vs) isBody)
  | .mapping (e :: es) =>
      obtain ⟨body, isBody, rfl⟩ := node_mapping_eq_ok_iff.mp written
      exact printable_collection place _ tag? _ (printable_entries _ _ (e :: es) isBody)
  | .sequence [] | .mapping [] | .null =>
      rw [← Except.ok.inj written]
      exact printable_line place tag? (by decide)
  | .bool b =>
      rw [← Except.ok.inj written]
      cases b <;> exact printable_line place tag? (by decide)
  | .number n =>
      rw [← Except.ok.inj written]
      exact printable_line place tag? (printable_append.mpr ⟨printable_numberText n, by decide⟩)
  | .string s =>
      rw [← Except.ok.inj written]
      exact printable_line place tag? (printable_stringLine _ s)

theorem printable_items (column : Nat) (vs : List Value) {text : List Char}
    (written : items column vs = .ok text) : Printable text := by
  match vs with
  | [] => exact Except.ok.inj written ▸ printable_nil
  | v :: vs =>
      obtain ⟨first, more, isFirst, isMore, rfl⟩ := items_cons_eq_ok_iff.mp written
      exact printable_append.mpr ⟨printable_spaces column, printable_append.mpr ⟨printable_cons.mpr
        ⟨by decide, printable_node _ _ _ v isFirst⟩, printable_items column vs isMore⟩⟩

theorem printable_entries (column : Nat) (alone : Bool) (es : List (Value × Value))
    {text : List Char} (written : entries column alone es = .ok text) : Printable text := by
  match es with
  | [] => exact Except.ok.inj written ▸ printable_nil
  | (k, v) :: es =>
      obtain ⟨-, more, isMore, entry⟩ := entries_cons_eq_ok_iff.mp written
      have others := printable_entries column false es isMore
      split at entry
      · obtain ⟨key, value, isKey, isValue, rfl⟩ := entry
        refine printable_append.mpr ⟨printable_spaces column, printable_append.mpr
          ⟨printable_append.mpr ⟨?_, printable_cons.mpr ⟨by decide, ?_⟩⟩, others⟩⟩
        · exact fun c member => printable_node _ _ _ k isKey c (List.dropLast_subset _ member)
        · exact printable_node _ _ _ v isValue
      · obtain ⟨key, value, isKey, isValue, rfl⟩ := entry
        exact printable_append.mpr ⟨printable_spaces column, printable_append.mpr
          ⟨printable_append.mpr
            ⟨printable_cons.mpr ⟨by decide, printable_node _ _ _ k isKey⟩,
              printable_append.mpr ⟨printable_spaces column,
                printable_cons.mpr ⟨by decide, printable_node _ _ _ v isValue⟩⟩⟩, others⟩⟩

end

theorem print_allowed {v : Value} {text : String} (written : v.print = .ok text) :
    text.toList.all isAllowed := by
  obtain ⟨lines, isText, rfl⟩ := Outcome.map_eq_ok_iff.mp written
  rw [String.toList_ofList, List.all_eq_true]
  exact fun c member => isAllowed_of_isPrintable (printable_node _ _ _ v isText c member)

end ChartInflation.Yaml.Printer
