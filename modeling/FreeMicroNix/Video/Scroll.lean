/-
  Any number of scrolls.

  `Terminal_Scroll` copies overlapping rows within the buffer it reads, one cell after the other.
  By `terminalScroll_eq` no cell is overwritten before it is read, so one call is the shift of all
  rows at once (`terminalScroll_refines`); `k` calls are `k` shifts, and the library's closed form
  of these says which row of the old screen each row shows.
-/
import FreeMicroNix.Lib.RowShift
import FreeMicroNix.Video.Putch

namespace FreeMicroNix

open RowShift

/-- **The loops refine the simultaneous shift**, of the cells as an unbounded memory. -/
theorem terminalScroll_refines (t : Terminal) :
    (terminalScroll t).cells = shiftRows vgaHeight vgaWidth t.cells := by
  rw [terminalScroll_eq]
  rfl

/-- Calls in a row are shifts in a row. -/
theorem terminalScroll_iterate_refines (k : Nat) (t : Terminal) :
    (terminalScroll^[k] t).cells = (shiftRows vgaHeight vgaWidth)^[k] t.cells := by
  induction k with
  | zero => rfl
  | succ k ih =>
    rw [Function.iterate_succ_apply', terminalScroll_refines, ih, Function.iterate_succ_apply']

/-- **`k` scrolls.**  Row `y` of the screen shows row `y + k` of the old memory, or row 25, behind
    the screen, once that is reached; nothing behind the screen changes. -/
theorem terminalScroll_iterate (t : Terminal) (k : Nat) :
    (∀ y x, y < vgaHeight → x < vgaWidth →
      (terminalScroll^[k] t).cells (y * vgaWidth + x)
        = t.cells (min (y + k) vgaHeight * vgaWidth + x)) ∧
    ∀ j, vgaHeight * vgaWidth ≤ j → (terminalScroll^[k] t).cells j = t.cells j := by
  rw [terminalScroll_iterate_refines]
  constructor
  · intro y x hy hx
    exact shiftRows_iterate hx t.cells k y hy
  · intro j hj
    exact shiftRows_iterate_behind (Nat.not_lt.mpr hj) t.cells k

end FreeMicroNix
