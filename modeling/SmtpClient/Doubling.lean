import Mathlib.Order.Monotone.Basic
import Mathlib.Data.Int.Notation

/-!
Arrays that double when a piece does not fit. A piece is no longer than the first
size, so that one doubling is enough, and more than half of a doubled array is in
use. The use therefore equals the size exactly when it equals one of the sizes
that doubling can reach.
-/
namespace SmtpClient.Doubling

/-- The sizes that doubling reaches from the first one. -/
def capacity (base : ℕ) : ℕ → ℕ
  | 0 => base
  | k + 1 => capacity base k * 2

/-- The size after a piece of n elements was put behind the used ones. -/
def grow (used size n : ℕ) : ℕ := if used + n > size then size * 2 else size

theorem base_le_capacity (base k : ℕ) : base ≤ capacity base k := by
  induction k with
  | zero => exact Nat.le_refl base
  | succ k ih =>
    change base ≤ capacity base k * 2
    omega

theorem capacity_strictMono (base : ℕ) (hbase : 0 < base) : StrictMono (capacity base) := by
  apply strictMono_nat_of_lt_succ
  intro k
  have hle := base_le_capacity base k
  change capacity base k < capacity base k * 2
  omega

/-- The used part fits, and it would not have fitted before the last doubling. -/
structure Tight (base used size : ℕ) : Prop where
  reached : ∃ k, size = capacity base k
  used_le : used ≤ size
  doubled : size = base ∨ size < 2 * used

theorem tight_start (base : ℕ) : Tight base 0 base where
  reached := ⟨0, rfl⟩
  used_le := Nat.zero_le base
  doubled := Or.inl rfl

theorem Tight.base_le (base used size : ℕ) (h : Tight base used size) : base ≤ size := by
  obtain ⟨k, hk⟩ := h.reached
  rw [hk]
  exact base_le_capacity base k

/-- One piece keeps the array tight. -/
theorem Tight.grow (base used size n : ℕ) (h : Tight base used size) (hn : n ≤ base) :
    Tight base (used + n) (grow used size n) := by
  have hused := h.used_le
  have hbase := h.base_le
  unfold Doubling.grow
  by_cases hfull : used + n > size
  · rw [if_pos hfull]
    obtain ⟨k, hk⟩ := h.reached
    refine ⟨⟨k + 1, ?_⟩, by omega, by omega⟩
    change size * 2 = capacity base k * 2
    rw [hk]
  · rw [if_neg hfull]
    have hdoubled := h.doubled
    exact ⟨h.reached, by omega, by omega⟩

/-- A tight array is full exactly when the use is one of the sizes. -/
theorem Tight.full_iff (base used size : ℕ) (hbase : 0 < base) (h : Tight base used size) :
    used = size ↔ ∃ k, used = capacity base k := by
  obtain ⟨j, hj⟩ := h.reached
  constructor
  · intro hfull
    exact ⟨j, hfull.trans hj⟩
  · rintro ⟨k, hk⟩
    have hmono := capacity_strictMono base hbase
    have hkj : k ≤ j := by
      apply hmono.le_iff_le.mp
      have hle := h.used_le
      omega
    have hlow := base_le_capacity base k
    have hused := h.used_le
    -- a smaller size would leave the array at most half full
    by_cases hlt : k < j
    · have hnext : capacity base (k + 1) ≤ capacity base j := hmono.monotone hlt
      have hdouble : capacity base (k + 1) = capacity base k * 2 := rfl
      rcases h.doubled with hfirst | hhalf
      · omega
      · omega
    · have hjk : k = j := by omega
      rw [hk, hj, hjk]

end SmtpClient.Doubling
