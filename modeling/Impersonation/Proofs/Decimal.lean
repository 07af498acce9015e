import Impersonation.Proofs.Lexing
import Impersonation.Proofs.Text
import Mathlib.Data.List.Basic
import Mathlib.Data.List.Induction

namespace Impersonation.Json

variable {n d : Nat} {ds : Bytes} {b : UInt8}

def decimal (n : Nat) : Bytes :=
  Bytes.ofString (toString n)

theorem decimal_of_lt (h : d < 10) : decimal d = [UInt8.ofNat (0x30 + d)] := by
  have digits : ∀ d < 10, decimal d = [UInt8.ofNat (0x30 + d)] := by decide
  exact digits d h

theorem decimal_snoc (positive : 0 < n) (h : d < 10) :
    decimal (10 * n + d) = decimal n ++ decimal d := by
  have digits := Nat.toDigits_append_toDigits (b := 10) (by decide) positive h
  simp only [decimal, Nat.toString_eq_ofList_toDigits, Bytes.ofString_eq, String.toList_ofList]
  rw [← digits, List.flatMap_append]

theorem decimal_step (h : 10 ≤ n) :
    decimal n = decimal (n / 10) ++ [UInt8.ofNat (0x30 + n % 10)] := by
  have last : n % 10 < 10 := Nat.mod_lt n (by decide)
  rw [← decimal_of_lt last, ← decimal_snoc (by omega) last, Nat.div_add_mod]

theorem digitsValue_snoc : digitsValue (ds ++ [b]) = digitsValue ds * 10 + (b.toNat - 0x30) := by
  rw [digitsValue, digitsValue, List.foldl_append]
  rfl

theorem digitsValue_decimal (n : Nat) : digitsValue (decimal n) = n := by
  induction n using Nat.strongRecOn with
  | ind n ih =>
    have digit {d : Nat} (h : d < 10) : (UInt8.ofNat (0x30 + d)).toNat - 0x30 = d := by
      rw [UInt8.toNat_ofNat']
      omega
    rcases Nat.lt_or_ge n 10 with small | large
    · rw [decimal_of_lt small]
      exact (Nat.zero_add _).trans (digit small)
    · rw [decimal_step large, digitsValue_snoc, ih (n / 10) (by omega),
        digit (Nat.mod_lt n (by decide))]
      omega

theorem isDigits_decimal (n : Nat) : IsDigits (decimal n) := by
  have digit : ∀ d < 10, isDigit (UInt8.ofNat (0x30 + d)) = true := by decide
  induction n using Nat.strongRecOn with
  | ind n ih =>
    rcases Nat.lt_or_ge n 10 with small | large
    · rw [decimal_of_lt small]
      refine ⟨List.cons_ne_nil _ _, fun b mem => ?_⟩
      rw [List.mem_singleton.mp mem]
      exact digit n small
    · obtain ⟨some_digit, all⟩ := ih (n / 10) (by omega)
      rw [decimal_step large]
      refine ⟨List.append_ne_nil_of_left_ne_nil some_digit _, fun b mem => ?_⟩
      rcases List.mem_append.mp mem with before | last
      · exact all b before
      · rw [List.mem_singleton.mp last]
        exact digit (n % 10) (Nat.mod_lt n (by decide))

theorem head?_decimal (positive : 0 < n) : (decimal n).head? ≠ some 0x30 := by
  induction n using Nat.strongRecOn with
  | ind n ih =>
    rcases Nat.lt_or_ge n 10 with small | large
    · have no_zero : ∀ d < 10, 0 < d → (decimal d).head? ≠ some 0x30 := by decide
      exact no_zero n small positive
    · have first := ih (n / 10) (by omega) (by omega)
      rw [decimal_step large, List.head?_append_of_ne_nil _ (isDigits_decimal _).1]
      exact first

theorem ofNat_digit (h : isDigit b = true) :
    b.toNat - 0x30 < 10 ∧ UInt8.ofNat (0x30 + (b.toNat - 0x30)) = b := by
  simp only [isDigit, Bool.and_eq_true, decide_eq_true_eq, UInt8.le_iff_toNat_le,
    UInt8.reduceToNat] at h
  refine ⟨by omega, ?_⟩
  rw [Nat.add_sub_cancel' h.1, UInt8.ofNat_toNat]

/-- Digits without a leading zero are those of their value. -/
theorem eq_decimal (h : IsDigits ds) (zero : ds.head? = some 0x30 → ds.length = 1) :
    ds = decimal (digitsValue ds) := by
  induction ds using List.reverseRecOn with
  | nil => exact absurd rfl h.1
  | append_singleton ds b ih =>
    obtain ⟨small, digit⟩ := ofNat_digit (h.2 b (by simp))
    by_cases single : ds = []
    · subst single
      have value : digitsValue ([] ++ [b]) = b.toNat - 0x30 :=
        digitsValue_snoc.trans (by simp [digitsValue])
      rw [value, decimal_of_lt small, digit, List.nil_append]
    · have no_zero : ds.head? ≠ some 0x30 := by
        intro first
        have one := zero (by rw [List.head?_append_of_ne_nil _ single, first])
        rw [List.length_append, List.length_singleton] at one
        exact single (List.length_eq_zero_iff.mp (by omega))
      have before := ih ⟨single, fun b mem => h.2 b (List.mem_append_left _ mem)⟩
        (fun first => absurd first no_zero)
      have positive : 0 < digitsValue ds := by
        rcases Nat.eq_zero_or_pos (digitsValue ds) with none | some
        · rw [none] at before
          rw [before] at no_zero
          exact absurd (by decide) no_zero
        · exact some
      rw [digitsValue_snoc, Nat.mul_comm, decimal_snoc positive small, ← before,
        decimal_of_lt small, digit]

end Impersonation.Json
