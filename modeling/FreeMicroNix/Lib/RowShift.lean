/-
  A grid whose rows all move up by one.

  The cells of `h` rows of `w` cells, and what lies behind them, are a function of the row-major
  index.  `shiftRows` takes every row from the one below it AT ONCE; the last row comes from the
  row behind the grid, which stays.  So after any number of shifts a row shows the row that many
  further on, but none further than the one behind the grid (`shiftRows_iterate`).
-/
import Mathlib.Logic.Function.Iterate
import Mathlib.Tactic.Common

namespace RowShift

variable {α : Type*}

/-- Every cell of the grid receives the cell one row further on; nothing else changes. -/
def shiftRows (h w : Nat) (f : Nat → α) : Nat → α :=
  fun j => if j < h * w then f (j + w) else f j

/-- A cell of the grid lies within it. -/
theorem cell_lt {h w y x : Nat} (hy : y < h) (hx : x < w) : y * w + x < h * w := by
  have hrow : (y + 1) * w ≤ h * w := Nat.mul_le_mul_right w hy
  rw [Nat.succ_mul] at hrow
  omega

/-- A cell of the row behind the grid does not. -/
theorem behind_ge (h w x : Nat) : ¬ h * w + x < h * w := Nat.not_lt.mpr (Nat.le_add_right _ x)

theorem shiftRows_cell {h w y x : Nat} (hy : y < h) (hx : x < w) (f : Nat → α) :
    shiftRows h w f (y * w + x) = f ((y + 1) * w + x) := by
  have hnext : y * w + x + w = (y + 1) * w + x := by
    rw [Nat.succ_mul]
    omega
  rw [shiftRows, if_pos (cell_lt hy hx), hnext]

theorem shiftRows_behind {h w j : Nat} (hj : ¬ j < h * w) (f : Nat → α) :
    shiftRows h w f j = f j := if_neg hj

/-- Behind the grid nothing ever changes. -/
theorem shiftRows_iterate_behind {h w j : Nat} (hj : ¬ j < h * w) (f : Nat → α) (k : Nat) :
    (shiftRows h w)^[k] f j = f j := by
  induction k with
  | zero => rfl
  | succ k ih => rw [Function.iterate_succ_apply', shiftRows_behind hj, ih]

/-- **The `k`-fold shift.**  The induction is on `k`, for all rows at once: the last shift takes a
    row from the one below it, which is a row of the grid or the one behind it. -/
theorem shiftRows_iterate {h w x : Nat} (hx : x < w) (f : Nat → α) (k : Nat) :
    ∀ y < h, (shiftRows h w)^[k] f (y * w + x) = f (min (y + k) h * w + x) := by
  induction k with
  | zero =>
    intro y hy
    rw [Nat.add_zero, Nat.min_eq_left (Nat.le_of_lt hy)]
    rfl
  | succ k ih =>
    intro y hy
    rw [Function.iterate_succ_apply', shiftRows_cell hy hx]
    rcases Nat.lt_or_eq_of_le (show y + 1 ≤ h from hy) with hbelow | hlast
    · rw [ih (y + 1) hbelow, Nat.add_right_comm y 1 k, Nat.add_assoc]
    · -- the row below is the one behind the grid
      have hmost : h ≤ y + (k + 1) := by omega
      rw [hlast, shiftRows_iterate_behind (behind_ge h w x), Nat.min_eq_right hmost]

end RowShift
