import ChartInflation.Text.Utf8

/-!
# Reading what was encoded

The octets of a text are read as that text (`decode?_encode`).  An octet of ASCII is a character of
its own wherever it stands, so octets are well-formed exactly if what is on both sides of it is
(`decode?_append_ascii`).
-/

set_option autoImplicit false

namespace ChartInflation.Utf8

/-! ## Octets as numbers -/

theorem ofNat_lt_iff {n : Nat} (octet : n < 256) (b : UInt8) : UInt8.ofNat n < b ↔ n < b.toNat := by
  rw [UInt8.lt_iff_toNat_lt, UInt8.toNat_ofNat_of_lt' octet]

theorem le_ofNat_iff {n : Nat} (octet : n < 256) (b : UInt8) : b ≤ UInt8.ofNat n ↔ b.toNat ≤ n := by
  rw [UInt8.le_iff_toNat_le, UInt8.toNat_ofNat_of_lt' octet]

theorem ofNat_le_iff {n : Nat} (octet : n < 256) (b : UInt8) : UInt8.ofNat n ≤ b ↔ n ≤ b.toNat := by
  rw [UInt8.le_iff_toNat_le, UInt8.toNat_ofNat_of_lt' octet]

theorem ofNat_eq_iff {n : Nat} (octet : n < 256) (b : UInt8) : UInt8.ofNat n = b ↔ n = b.toNat := by
  rw [← UInt8.toNat_inj, UInt8.toNat_ofNat_of_lt' octet]

theorem first_ofNat {n : Nat} (octet : n < 256) : first (UInt8.ofNat n) =
    if n < 0x80 then ([some (Char.ofNat n)], none)
    else if n < 0xC2 then ([none], none)
    else if n < 0xE0 then ([], some ⟨0, 0x80, 0xBF, n - 0xC0⟩)
    else if n = 0xE0 then ([], some ⟨1, 0xA0, 0xBF, 0⟩)
    else if n = 0xED then ([], some ⟨1, 0x80, 0x9F, 0xD⟩)
    else if n < 0xF0 then ([], some ⟨1, 0x80, 0xBF, n - 0xE0⟩)
    else if n = 0xF0 then ([], some ⟨2, 0x90, 0xBF, 0⟩)
    else if n < 0xF4 then ([], some ⟨2, 0x80, 0xBF, n - 0xF0⟩)
    else if n = 0xF4 then ([], some ⟨2, 0x80, 0x8F, 4⟩)
    else ([none], none) := by
  simp only [first, ofNat_lt_iff octet, ofNat_eq_iff octet, UInt8.toNat_ofNat_of_lt' octet]
  rfl

theorem first_of_two {n : Nat} (low : 0xC2 ≤ n) (high : n < 0xE0) :
    first (UInt8.ofNat n) = ([], some ⟨0, 0x80, 0xBF, n - 0xC0⟩) := by
  rw [first_ofNat (by omega), if_neg (by omega), if_neg (by omega), if_pos high]

theorem first_of_three {n : Nat} (low : 0xE0 ≤ n) (high : n < 0xF0) :
    first (UInt8.ofNat n) = ([], some ⟨1, if n = 0xE0 then 0xA0 else 0x80,
      if n = 0xED then 0x9F else 0xBF, n - 0xE0⟩) := by
  rw [first_ofNat (by omega), if_neg (by omega), if_neg (by omega), if_neg (by omega)]
  by_cases lowest : n = 0xE0
  · simp [lowest]
  by_cases surrogate : n = 0xED
  · simp [surrogate]
  · simp [lowest, surrogate, high]

theorem first_of_four {n : Nat} (low : 0xF0 ≤ n) (high : n ≤ 0xF4) :
    first (UInt8.ofNat n) = ([], some ⟨2, if n = 0xF0 then 0x90 else 0x80,
      if n = 0xF4 then 0x8F else 0xBF, n - 0xF0⟩) := by
  rw [first_ofNat (by omega), if_neg (by omega), if_neg (by omega), if_neg (by omega),
    if_neg (by omega), if_neg (by omega), if_neg (by omega)]
  by_cases lowest : n = 0xF0
  · simp [lowest]
  by_cases highest : n = 0xF4
  · simp [highest]
  · rw [if_neg lowest, if_pos (by omega), if_neg lowest, if_neg highest]

/-! ## Characters -/

theorem parts_last (p : Pending) {n : Nat} (rest : Bytes) (octet : n < 256)
    (low : p.low.toNat ≤ n) (high : n ≤ p.high.toNat) (last : p.after = 0) :
    parts (some p) (UInt8.ofNat n :: rest) =
      some (Char.ofNat (p.bits * 64 + (n - 0x80))) :: parts none rest := by
  have inRange : p.low ≤ UInt8.ofNat n ∧ UInt8.ofNat n ≤ p.high :=
    ⟨(le_ofNat_iff octet p.low).mpr low, (ofNat_le_iff octet p.high).mpr high⟩
  simp [parts, step, if_pos inRange, last, UInt8.toNat_ofNat_of_lt' octet]

theorem parts_more (p : Pending) {n m : Nat} (rest : Bytes) (octet : n < 256)
    (low : p.low.toNat ≤ n) (high : n ≤ p.high.toNat) (more : p.after = m + 1) :
    parts (some p) (UInt8.ofNat n :: rest) =
      parts (some ⟨m, 0x80, 0xBF, p.bits * 64 + (n - 0x80)⟩) rest := by
  have inRange : p.low ≤ UInt8.ofNat n ∧ UInt8.ofNat n ≤ p.high :=
    ⟨(le_ofNat_iff octet p.low).mpr low, (ofNat_le_iff octet p.high).mpr high⟩
  simp [parts, step, if_pos inRange, more, UInt8.toNat_ofNat_of_lt' octet]

theorem parts_none_cons (b : UInt8) (rest : Bytes) :
    parts none (b :: rest) = (first b).1 ++ parts (first b).2 rest := by
  rfl

section Octets
variable (v : Nat) (rest : Bytes)

/-- The last octet of a character holds its last six bits. -/
theorem parts_tail (bits : Nat) :
    parts (some ⟨0, 0x80, 0xBF, bits⟩) (UInt8.ofNat (v % 64 + 128) :: rest) =
      some (Char.ofNat (bits * 64 + v % 64)) :: parts none rest := by
  rw [parts_last ⟨0, 0x80, 0xBF, bits⟩ rest (by omega) (show 128 ≤ v % 64 + 128 by omega)
    (show v % 64 + 128 ≤ 191 by omega) rfl, Nat.add_sub_cancel]

theorem parts_inner (after bits : Nat) :
    parts (some ⟨after + 1, 0x80, 0xBF, bits⟩) (UInt8.ofNat (v % 64 + 128) :: rest) =
      parts (some ⟨after, 0x80, 0xBF, bits * 64 + v % 64⟩) rest := by
  rw [parts_more ⟨after + 1, 0x80, 0xBF, bits⟩ rest (by omega) (show 128 ≤ v % 64 + 128 by omega)
    (show v % 64 + 128 ≤ 191 by omega) rfl, Nat.add_sub_cancel]

variable {v}

theorem parts_two (least : 127 < v) (most : v ≤ 2047) :
    parts none (UInt8.ofNat (v / 64 % 32 + 192) :: UInt8.ofNat (v % 64 + 128) :: rest) =
      some (Char.ofNat v) :: parts none rest := by
  have whole : (v / 64 % 32 + 192 - 0xC0) * 64 + v % 64 = v := by omega
  rw [parts_none_cons, first_of_two (by omega) (by omega)]
  simp only [List.nil_append]
  rw [parts_tail, whole]

/-- The second of three octets is neither one of a shorter character nor one of a surrogate. -/
theorem parts_three (least : 2047 < v) (most : v ≤ 65535) (valid : v < 0xD800 ∨ 0xDFFF < v) :
    parts none (UInt8.ofNat (v / 4096 % 16 + 224) :: UInt8.ofNat (v / 64 % 64 + 128) ::
      UInt8.ofNat (v % 64 + 128) :: rest) = some (Char.ofNat v) :: parts none rest := by
  have low : (if v / 4096 % 16 + 224 = 0xE0 then 0xA0 else 0x80 : UInt8).toNat ≤
      v / 64 % 64 + 128 := by
    split
    · simp; omega
    · simp
  have high : v / 64 % 64 + 128 ≤
      (if v / 4096 % 16 + 224 = 0xED then 0x9F else 0xBF : UInt8).toNat := by
    split
    · simp; omega
    · simp; omega
  have whole : ((v / 4096 % 16 + 224 - 0xE0) * 64 + (v / 64 % 64 + 128 - 0x80)) * 64 + v % 64 =
      v := by omega
  rw [parts_none_cons, first_of_three (by omega) (by omega)]
  simp only [List.nil_append]
  generalize (if v / 4096 % 16 + 224 = 0xE0 then 0xA0 else 0x80 : UInt8) = lowest at low ⊢
  generalize (if v / 4096 % 16 + 224 = 0xED then 0x9F else 0xBF : UInt8) = highest at high ⊢
  rw [parts_more ⟨1, lowest, highest, _⟩ _ (by omega) low high rfl, parts_tail, whole]

/-- The second of four octets is neither one of a shorter character nor one of none. -/
theorem parts_four (least : 65535 < v) (most : v < 0x110000) :
    parts none (UInt8.ofNat (v / 262144 % 8 + 240) :: UInt8.ofNat (v / 4096 % 64 + 128) ::
      UInt8.ofNat (v / 64 % 64 + 128) :: UInt8.ofNat (v % 64 + 128) :: rest) =
        some (Char.ofNat v) :: parts none rest := by
  have low : (if v / 262144 % 8 + 240 = 0xF0 then 0x90 else 0x80 : UInt8).toNat ≤
      v / 4096 % 64 + 128 := by
    split
    · simp; omega
    · simp
  have high : v / 4096 % 64 + 128 ≤
      (if v / 262144 % 8 + 240 = 0xF4 then 0x8F else 0xBF : UInt8).toNat := by
    split
    · simp; omega
    · simp; omega
  have whole : (((v / 262144 % 8 + 240 - 0xF0) * 64 + (v / 4096 % 64 + 128 - 0x80)) * 64 +
      v / 64 % 64) * 64 + v % 64 = v := by omega
  rw [parts_none_cons, first_of_four (by omega) (by omega)]
  simp only [List.nil_append]
  generalize (if v / 262144 % 8 + 240 = 0xF0 then 0x90 else 0x80 : UInt8) = lowest at low ⊢
  generalize (if v / 262144 % 8 + 240 = 0xF4 then 0x8F else 0xBF : UInt8) = highest at high ⊢
  rw [parts_more ⟨2, lowest, highest, _⟩ _ (by omega) low high rfl, parts_inner, parts_tail, whole]

end Octets

theorem parts_encodeChar (c : Char) (rest : Bytes) :
    parts none (String.utf8EncodeChar c ++ rest) = some c :: parts none rest := by
  have isCode : Char.ofNat c.val.toNat = c := Char.ofNat_toNat c
  have valid : c.val.toNat < 0xD800 ∨ 0xDFFF < c.val.toNat ∧ c.val.toNat < 0x110000 := c.valid
  unfold String.utf8EncodeChar
  simp only
  generalize c.val.toNat = v at isCode valid ⊢
  by_cases one : v ≤ 127
  · rw [if_pos one, List.singleton_append, parts_none_cons, first_ofNat (by omega),
      if_pos (by omega), isCode]
    rfl
  rw [if_neg one]
  by_cases two : v ≤ 2047
  · rw [if_pos two]
    exact isCode ▸ parts_two rest (by omega) two
  rw [if_neg two]
  by_cases three : v ≤ 65535
  · rw [if_pos three]
    exact isCode ▸ parts_three rest (by omega) three (by omega)
  · rw [if_neg three]
    exact isCode ▸ parts_four rest (by omega) (by omega)

theorem parts_encode (text : List Char) (rest : Bytes) :
    parts none (encode text ++ rest) = text.map some ++ parts none rest := by
  induction text with
  | nil => rfl
  | cons c text ih =>
      have octets : encode (c :: text) = String.utf8EncodeChar c ++ encode text := rfl
      rw [octets, List.append_assoc, parts_encodeChar, ih]
      rfl

theorem decode?_encode (text : List Char) : decode? (encode text) = some text := by
  have parted := parts_encode text []
  have nothing : parts none [] = [] := rfl
  rw [List.append_nil, nothing, List.append_nil] at parted
  rw [decode?, parted]
  have all : ∀ text : List Char, (text.map some).mapM id = some text := by
    intro text
    induction text with
    | nil => rfl
    | cons c text ih => simp [ih]
  exact all text

/-! ## Octets of ASCII -/

theorem low_of_first {b : UInt8} {p : Pending} (begun : (first b).2 = some p) : 0x80 ≤ p.low := by
  unfold first at begun
  repeat' split at begun
  all_goals simp only [Option.some.injEq, reduceCtorEq] at begun
  all_goals
    rw [← begun]
    dsimp only
    decide

theorem low_of_step {pending : Option Pending} {b : UInt8} {p : Pending}
    (begun : (step pending b).2 = some p) : 0x80 ≤ p.low := by
  cases pending with
  | none => exact low_of_first begun
  | some q =>
      by_cases goesOn : q.low ≤ b ∧ b ≤ q.high
      · cases after : q.after with
        | zero => simp [step, goesOn, after] at begun
        | succ n =>
            simp only [step, goesOn, and_self, if_true, after, Option.some.injEq] at begun
            rw [← begun]
            dsimp only
            decide
      · simp only [step, goesOn, if_false] at begun
        exact low_of_first begun

/-- An octet of ASCII ends what was begun and begins nothing. -/
theorem parts_append_ascii {pending : Option Pending} (low : ∀ p, pending = some p → 0x80 ≤ p.low)
    (front : Bytes) {b : UInt8} (ascii : b < 0x80) (back : Bytes) :
    parts pending (front ++ b :: back) = parts pending front ++ parts none (b :: back) := by
  induction front generalizing pending with
  | nil =>
      cases pending with
      | none => rfl
      | some p =>
          have isLow : ¬ (p.low ≤ b ∧ b ≤ p.high) := by
            rintro ⟨reached, _⟩
            exact absurd (low p rfl) (UInt8.not_le.mpr (UInt8.lt_of_le_of_lt reached ascii))
          have ended : step (some p) b = (none :: (first b).1, (first b).2) := if_neg isLow
          have begins : parts (some p) (b :: back) =
              (step (some p) b).1 ++ parts (step (some p) b).2 back := rfl
          rw [List.nil_append, begins, ended, parts_none_cons]
          rfl
  | cons c front ih =>
      rw [List.cons_append, parts, parts, ih fun p begun => low_of_step begun, List.append_assoc]

theorem parts_ascii {b : UInt8} (ascii : b < 0x80) (back : Bytes) :
    parts none (b :: back) = some (Char.ofNat b.toNat) :: parts none back := by
  have alone : first b = ([some (Char.ofNat b.toNat)], none) := if_pos ascii
  rw [parts_none_cons, alone]
  rfl

theorem decode?_cons_ascii {b : UInt8} (ascii : b < 0x80) (back : Bytes) :
    decode? (b :: back) = (decode? back).map (Char.ofNat b.toNat :: ·) := by
  rw [decode?, decode?, parts_ascii ascii, List.mapM_cons]
  cases (parts none back).mapM id <;> rfl

theorem decode?_append_ascii (front : Bytes) {b : UInt8} (ascii : b < 0x80) (back : Bytes) :
    (decode? (front ++ b :: back)).isSome ↔ (decode? front).isSome ∧ (decode? back).isSome := by
  have apart := @parts_append_ascii none (by simp) front b ascii back
  rw [decode?, apart, parts_ascii ascii, List.mapM_append, List.mapM_cons, decode?, decode?]
  cases (parts none front).mapM id <;> cases (parts none back).mapM id <;> simp

theorem encodeChar_ascii {b : UInt8} (ascii : b < 0x80) :
    String.utf8EncodeChar (Char.ofNat b.toNat) = [b] := by
  have small : b.toNat < 0x80 := UInt8.lt_iff_toNat_lt.mp ascii
  have isCode : (Char.ofNat b.toNat).val.toNat = b.toNat := by
    rw [Char.ofNat, dif_pos (Or.inl (by omega))]
    rfl
  unfold String.utf8EncodeChar
  simp only [isCode]
  rw [if_pos (by omega)]
  simp

theorem encode_eq_nil_iff (text : List Char) : encode text = [] ↔ text = [] := by
  constructor
  · intro nothing
    have decoded := decode?_encode text
    rw [nothing] at decoded
    exact (Option.some.inj decoded).symm
  · rintro rfl
    rfl

theorem encode_eq_cons_iff {b : UInt8} (ascii : b < 0x80) (text : List Char) (back : Bytes) :
    encode text = b :: back ↔ ∃ rest, text = Char.ofNat b.toNat :: rest ∧ encode rest = back := by
  have encoded (rest : List Char) :
      encode (Char.ofNat b.toNat :: rest) = b :: encode rest := by
    rw [encode, List.flatMap_cons, encodeChar_ascii ascii]
    rfl
  constructor
  · intro octets
    have decoded := decode?_encode text
    rw [octets, decode?_cons_ascii ascii, Option.map_eq_some_iff] at decoded
    obtain ⟨rest, _, rfl⟩ := decoded
    rw [encoded] at octets
    exact ⟨rest, rfl, (List.cons.inj octets).2⟩
  · rintro ⟨rest, rfl, rfl⟩
    exact encoded rest

end ChartInflation.Utf8
