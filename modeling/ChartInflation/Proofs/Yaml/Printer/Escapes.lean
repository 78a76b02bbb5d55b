import ChartInflation.Proofs.Yaml.Character
import ChartInflation.Yaml.Printer
import ChartInflation.Yaml.Token.Flow
import Mathlib.Algebra.Group.Nat.Defs

/-!
# Escapes

The escape of a character is a backslash and one letter, or a backslash, a letter and the
hexadecimal digits of its code point, as many as the letter asks for (`escape_escapes`).
-/

set_option autoImplicit false

namespace ChartInflation.Yaml.Printer

theorem hexDigits_goOn (width n : Nat) : ∀ c ∈ hexDigits width n, isBreak c = false := by
  induction width generalizing n with
  | zero => exact List.forall_mem_nil _
  | succ width ih =>
      have digit : ∀ m < 16, isBreak (if m < 10 then Char.ofNat (48 + m) else Char.ofNat (55 + m)) =
          false := by decide
      rw [hexDigits, List.forall_mem_append, List.forall_mem_singleton]
      exact ⟨ih _, digit _ (Nat.mod_lt n (by decide))⟩

inductive Escapes (c : Char) : List Char → Prop where
  | letter {d : Char} (means : simpleEscape? d = some c) : Escapes c ['\\', d]
  | digits {d : Char} {width : Nat} (asks : escapeLength? d = some width)
      (fits : c.toNat < 16 ^ width) : Escapes c ('\\' :: d :: hexDigits width c.toNat)

theorem escape_escapes (c : Char) : Escapes c (escape c) := by
  have choose : ∀ {p : Prop} [Decidable p] {a b : List Char},
      (p → Escapes c a) → (¬ p → Escapes c b) → Escapes c (if p then a else b) := by
    intro p _ a b yes no
    split
    · exact yes ‹_›
    · exact no ‹_›
  unfold escape
  iterate 14
    refine choose (fun same => ?_) fun _ => ?_
    · subst same
      exact .letter rfl
  refine choose (fun small => ?_) fun _ => ?_
  · exact .digits rfl (Nat.lt_succ_of_le small)
  refine choose (fun small => ?_) fun _ => ?_
  · exact .digits rfl (Nat.lt_succ_of_le small)
  · exact .digits rfl c.val.toNat_lt

theorem isBreak_of_simpleEscape? {c d : Char} (means : simpleEscape? d = some c) :
    isBreak d = false := by
  rw [← Bool.not_eq_true]
  intro atBreak
  simp [isBreak] at atBreak
  rcases atBreak with (((rfl | rfl) | rfl) | rfl) | rfl <;> cases means

theorem isBreak_of_escapeLength? {d : Char} {width : Nat} (asks : escapeLength? d = some width) :
    isBreak d = false := by
  rw [← Bool.not_eq_true]
  intro atBreak
  simp [isBreak] at atBreak
  rcases atBreak with (((rfl | rfl) | rfl) | rfl) | rfl <;> cases asks

theorem Escapes.goesOn {c : Char} {text : List Char} (escapes : Escapes c text) :
    ∀ d ∈ text, isBreak d = false := by
  cases escapes with
  | letter means =>
      simp only [List.forall_mem_cons]
      exact ⟨by decide, isBreak_of_simpleEscape? means, by simp⟩
  | digits asks fits =>
      simp only [List.forall_mem_cons]
      exact ⟨by decide, isBreak_of_escapeLength? asks, hexDigits_goOn _ _⟩

end ChartInflation.Yaml.Printer
