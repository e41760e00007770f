import SmtpClient.MxLookup
import Mathlib.Data.List.TakeWhile

/-!
Decimal numbers as printf writes them. They are digits without a sign, and
strtol reads the number back.
-/
namespace SmtpClient.Decimals

open MailTypes Regexp MxLookup

/-- The formats %d and %u, for numbers that are not negative. -/
def decimal (n : ℕ) : Bytes := bytes (toString n)

theorem decimal_eq (n : ℕ) :
    decimal n = (Nat.toDigits 10 n).map fun c => UInt8.ofNat c.toNat := by
  unfold decimal bytes
  rw [Nat.toString_eq_ofList_toDigits, String.toList_ofList]

theorem decimal_ne_nil (n : ℕ) : decimal n ≠ [] := by
  rw [decimal_eq]
  intro hnil
  exact Nat.toDigits_ne_nil (List.map_eq_nil_iff.mp hnil)

theorem digit_bounds (n : ℕ) (c : Char) (hc : c ∈ Nat.toDigits 10 n) :
    48 ≤ c.toNat ∧ c.toNat ≤ 57 :=
  Char.isDigit_iff_toNat.mp (Nat.isDigit_of_mem_toDigits (by decide) (by decide) hc)

theorem isDigit_decimal (n : ℕ) (x : UInt8) (hx : x ∈ decimal n) : isDigit x = true := by
  rw [decimal_eq] at hx
  obtain ⟨c, hc, rfl⟩ := List.mem_map.mp hx
  have hbounds := digit_bounds n c hc
  refine decide_eq_true ?_
  simp only [UInt8.le_iff_toNat_le, UInt8.reduceToNat, UInt8.toNat_ofNat']
  omega

theorem isSpace_of_isDigit (x : UInt8) (hx : isDigit x = true) : isSpace x = false := by
  have hx := of_decide_eq_true hx
  refine decide_eq_false ?_
  simp only [UInt8.le_iff_toNat_le, ← UInt8.toNat_inj, UInt8.reduceToNat] at hx ⊢
  omega

/-- A byte that is no digit does not stand in a number. -/
theorem not_mem_decimal (n : ℕ) (x : UInt8) (hx : isDigit x = false) : x ∉ decimal n := by
  intro hmem
  rw [isDigit_decimal n x hmem] at hx
  cases hx

/-- The value that strtol adds up is the one of the digits. -/
theorem foldl_digits (l : List Char) (hl : ∀ c ∈ l, 48 ≤ c.toNat ∧ c.toNat ≤ 57) (init : ℕ) :
    (l.map fun c => UInt8.ofNat c.toNat).foldl (fun n x => 10 * n + (x.toNat - 48 : ℤ)) (init : ℤ) =
      Nat.ofDigitChars 10 l init := by
  induction l generalizing init with
  | nil => rfl
  | cons c l ih =>
    obtain ⟨hlow, hhigh⟩ := hl c List.mem_cons_self
    have hrest : ∀ d ∈ l, 48 ≤ d.toNat ∧ d.toNat ≤ 57 := by
      intro d hd
      exact hl d (List.mem_cons_of_mem c hd)
    have hbyte : (UInt8.ofNat c.toNat).toNat = c.toNat := by
      rw [UInt8.toNat_ofNat']
      omega
    have hdigit : (10 * (init : ℤ) + (((UInt8.ofNat c.toNat).toNat : ℤ) - 48)) =
        ((10 * init + (c.toNat - 48) : ℕ) : ℤ) := by
      rw [hbyte]
      omega
    rw [List.map_cons, List.foldl_cons, hdigit, ih hrest, Nat.ofDigitChars_cons]
    rfl

/-- A number in the range of long is read back. -/
theorem strtol_decimal (n : ℕ) (hn : n ≤ 9223372036854775807) : strtol (decimal n) = n := by
  have hdigits := isDigit_decimal n
  have hvalue : ((decimal n).takeWhile isDigit).foldl
      (fun m x => 10 * m + (x.toNat - 48 : ℤ)) 0 = (n : ℤ) := by
    rw [List.takeWhile_eq_self_iff.mpr hdigits, decimal_eq]
    have hfold := foldl_digits (Nat.toDigits 10 n) (digit_bounds n) 0
    rw [Nat.ofDigitChars_ten_toDigits] at hfold
    exact hfold
  obtain ⟨x, l, hx⟩ := List.exists_cons_of_ne_nil (decimal_ne_nil n)
  have hfirst : isDigit x = true := hdigits x (by rw [hx]; exact List.mem_cons_self)
  have hdrop : (decimal n).dropWhile isSpace = decimal n := by
    rw [hx, List.dropWhile_cons, isSpace_of_isDigit x hfirst]
    rfl
  have hsign : ∀ t, decimal n ≠ 45 :: t ∧ decimal n ≠ 43 :: t := by
    intro t
    rw [hx]
    constructor
    · rintro ⟨rfl, -⟩
      exact absurd hfirst (by decide)
    · rintro ⟨rfl, -⟩
      exact absurd hfirst (by decide)
  unfold strtol
  rw [hdrop]
  simp only
  split
  · rename_i t heq
    exact absurd heq (hsign t).1
  · rename_i t heq
    exact absurd heq (hsign t).2
  · rw [hvalue]
    simp only [Bool.false_eq_true, if_false]
    omega

end SmtpClient.Decimals
