import ChartInflation.Proofs.CommandLine.OutputFiles
import ChartInflation.Proofs.CommandLine.ShownValues
import ChartInflation.Proofs.Text.Utf8

/-!
# The order of output files

Whoever applies a directory takes its files by their names, octet by octet.  The number in front of
a name has at least three digits, so the names of up to a thousand resources stand in the order of
the resources.  Beyond that a longer number stands before a shorter one unless the digits that it
begins with are those of a number as great (`files_in_order`).
-/

set_option autoImplicit false

namespace ChartInflation.CommandLine

/-! ## Digits -/

section Digits
variable {i j width : Nat}

def numberWidth (n : Nat) : Nat :=
  max 3 (Nat.toDigits 10 n).length

def lastDigits : Nat → Nat → List Char
  | 0, _ => []
  | width + 1, n => lastDigits width (n / 10) ++ [(n % 10).digitChar]

theorem lastDigits_zero (width : Nat) : lastDigits width 0 = List.replicate width '0' := by
  induction width with
  | zero => rfl
  | succ width ih =>
      rw [lastDigits, Nat.zero_div, ih, List.replicate_succ']
      rfl

theorem lastDigits_add (more width n : Nat) : lastDigits (more + width) n =
    lastDigits more (n / 10 ^ width) ++ lastDigits width n := by
  induction width generalizing n with
  | zero => simp [lastDigits]
  | succ width ih =>
      have quotient : n / 10 / 10 ^ width = n / 10 ^ (width + 1) := by
        rw [Nat.div_div_eq_div_mul, Nat.pow_succ']
      rw [← Nat.add_assoc, lastDigits, ih, quotient, lastDigits, List.append_assoc]

theorem toDigits_eq (n : Nat) : Nat.toDigits 10 n = lastDigits (Nat.toDigits 10 n).length n := by
  induction n using Nat.strong_induction_on with
  | _ n ih =>
      by_cases small : n < 10
      · rw [Nat.toDigits_of_lt_base small, List.length_singleton, lastDigits, lastDigits,
          Nat.mod_eq_of_lt small, List.nil_append]
      · have more : Nat.toDigits 10 n = Nat.toDigits 10 (n / 10) ++ [(n % 10).digitChar] :=
          Nat.toDigits_of_base_le (by decide) (Nat.le_of_not_lt small)
        have less : n / 10 < n := by omega
        rw [more, List.length_append, List.length_singleton, lastDigits, ← ih _ less]

theorem lt_pow_numberWidth (n : Nat) : n < 10 ^ numberWidth n := by
  have digits : (Nat.toDigits 10 n).length ≤ numberWidth n := Nat.le_max_right ..
  exact (Nat.length_toDigits_le_iff (by decide) (by simp [numberWidth])).mp digits

theorem paddedNumber_eq (n : Nat) : (paddedNumber n).toList = lastDigits (numberWidth n) n := by
  have digits := toDigits_eq n
  have fits : n < 10 ^ (Nat.toDigits 10 n).length :=
    (Nat.length_toDigits_le_iff (by decide) Nat.length_toDigits_pos).mp (Nat.le_refl _)
  have width : numberWidth n =
      3 - (Nat.toDigits 10 n).length + (Nat.toDigits 10 n).length := by
    rw [numberWidth]
    omega
  rw [width, lastDigits_add, Nat.div_eq_of_lt fits, lastDigits_zero, ← digits, paddedNumber,
    String.toList_ofList]

theorem numberWidth_mono (less : i ≤ j) : numberWidth i ≤ numberWidth j := by
  have fits : i < 10 ^ numberWidth j := Nat.lt_of_le_of_lt less (lt_pow_numberWidth j)
  have digits := (Nat.length_toDigits_le_iff (by decide) (by simp [numberWidth])).mpr fits
  exact max_le (Nat.le_max_left ..) digits

theorem numberWidth_of_lt (small : i < 1000) : numberWidth i = 3 := by
  have digits : (Nat.toDigits 10 i).length ≤ 3 :=
    (Nat.length_toDigits_le_iff (by decide) (by decide)).mpr small
  exact max_eq_left digits

end Digits

/-! ## Octets -/

section Octets
variable {i j : Nat}

theorem encode_append (front back : List Char) :
    Utf8.encode (front ++ back) = Utf8.encode front ++ Utf8.encode back :=
  List.flatMap_append

theorem encode_digit {d : Nat} (digit : d < 10) :
    Utf8.encode [d.digitChar] = [UInt8.ofNat (48 + d)] := by
  revert d
  decide

theorem octet_lt {c d : Nat} (less : c < d) (digit : d < 10) :
    UInt8.ofNat (48 + c) < UInt8.ofNat (48 + d) := by
  have octet : 48 + c < 256 := by omega
  have octet' : 48 + d < 256 := by omega
  rw [Utf8.ofNat_lt_iff octet, UInt8.toNat_ofNat_of_lt' octet']
  omega

/-- Of two numbers with as many digits the smaller one stands first, whatever follows them. -/
theorem lastDigits_lt {width : Nat} (less : i < j) (fits : j < 10 ^ width) (x y : Bytes) :
    Utf8.encode (lastDigits width i) ++ x < Utf8.encode (lastDigits width j) ++ y := by
  induction width generalizing i j x y with
  | zero => omega
  | succ width ih =>
      have last (n : Nat) : n % 10 < 10 := Nat.mod_lt n (by decide)
      simp only [lastDigits, encode_append, encode_digit (last i), encode_digit (last j),
        List.append_assoc]
      rcases Nat.lt_or_ge (i / 10) (j / 10) with lower | notLower
      · refine ih lower ?_ _ _
        rw [Nat.div_lt_iff_lt_mul (by decide), ← Nat.pow_succ]
        exact fits
      · have same : i / 10 = j / 10 := by omega
        have lower : i % 10 < j % 10 := by omega
        rw [same]
        exact List.append_left_lt (List.cons_lt_cons_iff.mpr (.inl (octet_lt lower (last j))))

theorem encode_lastDigits_succ (width n : Nat) : ∃ d rest, d < 10 ∧
    Utf8.encode (lastDigits (width + 1) n) = UInt8.ofNat (48 + d) :: rest := by
  refine ⟨n / 10 ^ width % 10, Utf8.encode (lastDigits width n), Nat.mod_lt _ (by decide), ?_⟩
  rw [Nat.add_comm, lastDigits_add, encode_append, lastDigits, lastDigits, List.nil_append,
    encode_digit (Nat.mod_lt _ (by decide))]
  rfl

theorem dash_lt_octet {d : Nat} (digit : d < 10) : (45 : UInt8) < UInt8.ofNat (48 + d) := by
  revert d
  decide

/-- The octets of a file name: the digits of the number, a dash, and more. -/
theorem octets_fileName (i : Nat) (r : Resource) : ∃ rest,
    Bytes.ofString (fileName i r) = Utf8.encode (lastDigits (numberWidth i) i) ++ 45 :: rest := by
  obtain ⟨rest, text, _⟩ := fileName_text i r
  refine ⟨Utf8.encode rest, ?_⟩
  rw [Bytes.ofString, text, encode_append, paddedNumber_eq]
  rfl

/-- The number that is written with the first digits of another one, as many as its own. -/
def leadingNumber (i j : Nat) : Nat :=
  j / 10 ^ (numberWidth j - numberWidth i)

theorem encode_leading (less : i < j) : ∃ more,
    Utf8.encode (lastDigits (numberWidth j) j) =
      Utf8.encode (lastDigits (numberWidth i) (leadingNumber i j)) ++
        Utf8.encode (lastDigits more j) ∧
    leadingNumber i j < 10 ^ numberWidth i ∧ (leadingNumber i j = i → more ≠ 0) := by
  have grows := numberWidth_mono (Nat.le_of_lt less)
  have width : numberWidth i + (numberWidth j - numberWidth i) = numberWidth j := by omega
  refine ⟨numberWidth j - numberWidth i, ?_, ?_, fun same isZero => ?_⟩
  · rw [← encode_append, leadingNumber, ← lastDigits_add, width]
  · rw [leadingNumber, Nat.div_lt_iff_lt_mul (Nat.pow_pos (by decide)), ← Nat.pow_add, width]
    exact lt_pow_numberWidth j
  · rw [leadingNumber, isZero, Nat.pow_zero, Nat.div_one] at same
    omega

/-- A name stands in front of one with a greater number if the first digits of that one are those of
a number as great. -/
theorem octets_lt (less : i < j) (leads : i ≤ leadingNumber i j) (r s : Resource) :
    Bytes.ofString (fileName i r) < Bytes.ofString (fileName j s) := by
  obtain ⟨x, name⟩ := octets_fileName i r
  obtain ⟨y, name'⟩ := octets_fileName j s
  obtain ⟨more, digits, fits, longer⟩ := encode_leading less
  rw [name, name', digits, List.append_assoc]
  rcases Nat.lt_or_ge i (leadingNumber i j) with lower | notLower
  · exact lastDigits_lt lower fits _ _
  · have same : leadingNumber i j = i := by omega
    -- the shorter number ends where the longer one goes on, and a dash stands before all digits
    cases more with
    | zero => exact absurd rfl (longer same)
    | succ more =>
        obtain ⟨d, rest, digit, goesOn⟩ := encode_lastDigits_succ more j
        rw [same, goesOn]
        exact List.append_left_lt (List.cons_lt_cons_iff.mpr (.inl (dash_lt_octet digit)))

theorem octets_gt (less : i < j) (lags : leadingNumber i j < i) (r s : Resource) :
    Bytes.ofString (fileName j s) < Bytes.ofString (fileName i r) := by
  obtain ⟨x, name⟩ := octets_fileName i r
  obtain ⟨y, name'⟩ := octets_fileName j s
  obtain ⟨more, digits, _⟩ := encode_leading less
  rw [name, name', digits, List.append_assoc]
  exact lastDigits_lt lags (lt_pow_numberWidth i) _ _

theorem octets_lt_iff (less : i < j) (r s : Resource) :
    Bytes.ofString (fileName i r) < Bytes.ofString (fileName j s) ↔ i ≤ leadingNumber i j := by
  refine ⟨fun before => ?_, fun leads => octets_lt less leads r s⟩
  by_contra lags
  exact List.lt_asymm before (octets_gt less (Nat.lt_of_not_le lags) r s)

theorem leadingNumber_of_lt (less : i < j) (small : j < 1000) : leadingNumber i j = j := by
  rw [leadingNumber, numberWidth_of_lt small, numberWidth_of_lt (Nat.lt_trans less small)]
  simp

end Octets

/-! ## Whole directories -/

section Listing
variable {rs : Resources}

def fileNames (rs : Resources) : List String :=
  rs.mapIdx fileName

def notBehind (a b : String) : Bool :=
  decide (Bytes.ofString a ≤ Bytes.ofString b)

/-- Names as they are listed: in the order of their octets. -/
def listed (names : List String) : List String :=
  names.mergeSort notBehind

theorem notBehind_trans (a b c : String) (first : notBehind a b) (second : notBehind b c) :
    notBehind a c := by
  rw [notBehind, decide_eq_true_eq] at *
  exact List.le_trans first second

theorem notBehind_total (a b : String) : notBehind a b || notBehind b a := by
  rw [Bool.or_eq_true, notBehind, notBehind, decide_eq_true_eq, decide_eq_true_eq]
  exact List.le_total _ _

theorem listed_pairwise (names : List String) : (listed names).Pairwise (notBehind · ·) :=
  List.pairwise_mergeSort notBehind_trans notBehind_total names

theorem listed_eq_iff (names : List String) :
    listed names = names ↔ names.Pairwise (notBehind · ·) :=
  ⟨fun same => same ▸ listed_pairwise names, List.mergeSort_of_pairwise⟩

theorem fileNames_pairwise_iff : (fileNames rs).Pairwise (notBehind · ·) ↔ rs.length ≤ 1000 := by
  rw [List.pairwise_iff_getElem]
  simp only [fileNames, List.length_mapIdx, List.getElem_mapIdx, notBehind, decide_eq_true_eq]
  constructor
  · intro ordered
    by_contra many
    have isThere : 1000 < rs.length := Nat.lt_of_not_le many
    have before := ordered 999 1000 (Nat.lt_of_succ_lt isThere) isThere (by decide)
    have lags : leadingNumber 999 1000 < 999 := by decide
    exact List.not_lt.mpr before (octets_gt (by decide) lags _ _)
  · intro few i j _ isThere less
    have leads : i ≤ leadingNumber i j := by
      rw [leadingNumber_of_lt less (Nat.lt_of_lt_of_le isThere few)]
      exact Nat.le_of_lt less
    exact List.le_of_lt (octets_lt less leads _ _)

theorem map_read_fileNames {here : Location} {directory : Path} {texts : List String}
    {fs : FileSystem} (own : OwnFiles here directory rs texts fs)
    (prints : List.Forall₂ (fun (r : Resource) text => r.print = .ok text) rs texts)
    (straight : ∀ j k r s, j ≠ k → rs[j]? = some r → rs[k]? = some s →
      ¬ Crossed fs here (fileOf directory k s) (fileOf directory j r)) :
    (fileNames rs).map (fun name => fs.read here (directory.joinName name)) =
      texts.map fun text => .ok (Bytes.ofString text) := by
  have count : rs.length = texts.length := prints.length_eq
  refine List.ext_getElem (by simp [fileNames, count]) fun k inNames inTexts => ?_
  rw [List.length_map] at inTexts
  have bound : k < rs.length := count ▸ inTexts
  have isThere : rs[k]? = some rs[k] := List.getElem?_eq_getElem bound
  obtain ⟨_, _, alone⟩ := own k _ _ isThere (List.getElem?_eq_getElem inTexts)
  obtain ⟨isRead, _⟩ := alone fun j s other isOther => straight j k s _ other isOther isThere
  simp only [fileNames, List.getElem_map, List.getElem_mapIdx]
  exact isRead

/-- The names of two resources stand in their order exactly if the later number begins with the
digits of one that is no smaller than the earlier number, and a listing has all names in the order of
the resources exactly if there are at most a thousand.  As many files, read as they are listed, are
what was rendered, if no link crosses them. -/
theorem files_in_order (rs : Resources) :
    (∀ i j r s, rs[i]? = some r → rs[j]? = some s → i < j →
      (Bytes.ofString (fileName i r) < Bytes.ofString (fileName j s) ↔
        i ≤ j / 10 ^ (numberWidth j - numberWidth i))) ∧
    (listed (fileNames rs) = fileNames rs ↔ rs.length ≤ 1000) ∧
    ∀ (m : Machine) (env : Environment) (arguments : List String) (request : InflateRequest)
      (directory : Path) (w w' : World) (i : Inflation),
      requestOf env .nothing arguments = .ok (.inflate request) →
      request.outputDirectory = some directory →
      Inflated m request w i w' rs →
      (run m env arguments w).1.code = 0 →
      ∃ texts, List.Forall₂ (fun (r : Resource) text => r.print = .ok text) rs texts ∧
        let files := (run m env arguments w).2.files
        ((∀ j k r s, j ≠ k → rs[j]? = some r → rs[k]? = some s →
            ¬ Crossed files m.directory (fileOf directory k s) (fileOf directory j r)) →
          rs.length ≤ 1000 →
          (listed (fileNames rs)).map (fun name =>
              files.read m.directory (directory.joinName name)) =
            texts.map fun text => .ok (Bytes.ofString text)) := by
  have inOrder : listed (fileNames rs) = fileNames rs ↔ rs.length ≤ 1000 :=
    (listed_eq_iff (fileNames rs)).trans fileNames_pairwise_iff
  refine ⟨fun _ _ r s _ _ less => octets_lt_iff less r s, inOrder, ?_⟩
  intro m env arguments request directory w w' i accepted asks inflated success
  obtain ⟨i', w'', rs', texts, inflated', _, prints, own⟩ := ownFiles_of_success accepted asks success
  have isFound := inflated?_eq_some_iff.mpr ⟨i, w', inflated, rfl⟩
  have again := isFound.symm.trans (inflated?_eq_some_iff.mpr ⟨i', w'', inflated', rfl⟩)
  obtain ⟨_, rfl⟩ := Prod.mk.inj (Option.some.inj again)
  refine ⟨texts, prints, fun straight few => ?_⟩
  rw [inOrder.mpr few]
  exact map_read_fileNames own prints straight

end Listing

theorem files_in_order_furnished :
    ∃ rs texts, List.Forall₂ (fun (r : Resource) text => r.print = .ok text) rs texts ∧
      rs.length = 2 ∧
      (∀ r s, rs[0]? = some r → rs[1]? = some s →
        Bytes.ofString (fileName 0 r) < Bytes.ofString (fileName 1 s)) ∧
      (listed (fileNames rs)).map (fun name =>
          (run printingTwo [] filing furnished).2.files.read [] (Path.joinName ⟨"out"⟩ name)) =
        texts.map fun text => .ok (Bytes.ofString text) := by
  obtain ⟨success, linkless, two⟩ := printingTwo_filing
  simp only [Option.any_eq_true, decide_eq_true_eq, Prod.exists] at two
  obtain ⟨values, rs, isFound, count⟩ := two
  obtain ⟨i, w', inflated, _⟩ := inflated?_eq_some_iff.mp isFound
  obtain ⟨pairs, _, files⟩ := files_in_order rs
  obtain ⟨texts, prints, reads⟩ := files printingTwo [] filing _ _ furnished w' i requestOf_filing
    rfl inflated success
  refine ⟨rs, texts, prints, count, fun r s first second => ?_, reads (fun _ _ _ _ _ _ _ => ?_) ?_⟩
  · exact (pairs 0 1 r s first second (by decide)).mpr (by decide)
  · exact not_crossed_of_linkless linkless
  · omega

def unnamed : Resource :=
  ⟨[(.string "apiVersion", .string "v1"), (.string "kind", .string "A")], by decide⟩

/-- The thousand and first name stands in front of the one before it. -/
theorem files_out_of_order :
    999 < 1000 ∧
    ¬ Bytes.ofString (fileName 999 unnamed) < Bytes.ofString (fileName 1000 unnamed) ∧
    listed (fileNames (List.replicate 1001 unnamed)) ≠
      fileNames (List.replicate 1001 unnamed) := by
  refine ⟨by decide, by decide +kernel, fun same => ?_⟩
  have few := fileNames_pairwise_iff.mp ((listed_eq_iff _).mp same)
  rw [List.length_replicate] at few
  exact absurd few (by decide)

end ChartInflation.CommandLine
