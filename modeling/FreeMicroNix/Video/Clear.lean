/-
  `Terminal_Clear` as the blank screen it is meant to leave.

  The loop makes 2000 calls of `Terminal_Putch(' ')`, one for each cell, but a row takes 81 of them:
  80 are stored, and the one that finds column 80 only moves to the next row.  After `k` calls the
  cursor is therefore at row `k / 81`, column `k % 81`, and the cells blanked are those before it
  (`Spaced`).  2000 calls end in row 24, column 56: the last 24 cells of the screen keep what they
  held.
-/
import FreeMicroNix.Video.Layout

namespace FreeMicroNix

open CountedLoop Sequence

/-- A space in the current color. -/
def blank (t : Terminal) : Uint16 := t.terminalColor ++ ch ' '

/-! ## The loop -/

/-- What `k` spaces from the corner of `t` have come to. -/
structure Spaced (t : Terminal) (k : Nat) (s : Terminal) : Prop where
  cursor : AtCursor s (k / 81, k % 81)
  color : s.terminalColor = t.terminalColor
  cells : s.cells = fun i => if i < k / 81 * vgaWidth + k % 81 then blank t else t.cells i

/-- The cursor of a text of spaces. -/
theorem textCursor_space (k : Nat) :
    textCursor (k / 81, k % 81) (ch ' ') = ((k + 1) / 81, (k + 1) % 81) := by
  have hadv : Advances (k / 81, k % 81) (ch ' ') ↔ k % 81 = 80 :=
    or_iff_right (by decide)
  rw [textCursor]
  by_cases hfull : k % 81 = 80
  · rw [if_pos (hadv.mpr hfull)]
    exact congrArg₂ Prod.mk (by omega) (by omega)
  · rw [if_neg (mt hadv.mp hfull)]
    exact congrArg₂ Prod.mk (by omega) (by omega)

/-- One more space, as long as the row is on the screen. -/
theorem Spaced.putch {t s : Terminal} {k : Nat} (h : Spaced t k s) (hk : k < 81 * vgaHeight) :
    Spaced t (k + 1) (terminalPutch s (ch ' ')) := by
  have hplain : Plain (ch ' ') := by decide
  have hcursor := h.cursor.putch hplain
  rw [textCursor_space] at hcursor
  by_cases hfull : k % 81 = 80
  · -- the call that moves to the next row stores nothing
    have hcount : k / 81 * vgaWidth + k % 81 = (k + 1) / 81 * vgaWidth + (k + 1) % 81 := by
      unfold vgaWidth
      omega
    refine ⟨hcursor, ?_, ?_⟩
    · rw [h.cursor.putch_advance (Or.inr hfull)]
      exact h.color
    · rw [h.cursor.putch_advance (Or.inr hfull), ← hcount]
      exact h.cells
  · -- any other one stores its space behind the cells blanked so far
    have hadv : ¬ Advances (k / 81, k % 81) (ch ' ') := fun hor => hor.elim (by decide) hfull
    have hrow : s.terminalRow.toNat = k / 81 := by
      rw [h.cursor.row_toNat]
      exact Nat.mod_eq_of_lt (by unfold vgaHeight at hk; omega)
    have hcol : s.terminalColumn.toNat = k % 81 := h.cursor.column_toNat
    have hscreen : s.terminalRow.toNat < vgaHeight := by
      rw [hrow]
      unfold vgaHeight at hk ⊢
      omega
    have hindex : (cursorIndex s).toNat = k / 81 * vgaWidth + k % 81 := by
      rw [cursorIndex_toNat hscreen, hrow, hcol]
      rw [hcol]
      unfold vgaWidth
      omega
    have hcount : (k + 1) / 81 * vgaWidth + (k + 1) % 81 = k / 81 * vgaWidth + k % 81 + 1 := by
      unfold vgaWidth
      omega
    rw [h.cursor.putch_glyph hplain hadv] at hcursor ⊢
    refine ⟨hcursor, ?_, ?_⟩
    · rw [putchGlyph_color]
      exact h.color
    · rw [putchGlyph_onScreen s _ hscreen, hindex, hcount, h.color,
        cellOf_printable (by decide) t.terminalColor, h.cells]
      exact update_prefix t.cells (fun _ => blank t) _

/-- The two loops are one loop of 2000 calls. -/
theorem terminalClear_loop (t : Terminal) :
    terminalClear t =
      { forLoop (vgaHeight * vgaWidth) (fun _ t => terminalPutch t (ch ' '))
          { t with terminalRow := 0, terminalColumn := 0 } with
        terminalRow := 0, terminalColumn := 0 } := by
  rw [← forLoop_grid]
  rfl

/-- 2000 calls end 24 cells before the end of the screen; then the cursor goes to the corner. -/
theorem Spaced.corner {t s : Terminal} (h : Spaced t (vgaHeight * vgaWidth) s) :
    ({ s with terminalRow := 0, terminalColumn := 0 } : Terminal).cells
      = fun i => if i < 1976 then blank t else t.cells i := by
  have hcount : vgaHeight * vgaWidth / 81 * vgaWidth + vgaHeight * vgaWidth % 81 = 1976 := by decide
  have hcells := h.cells
  rw [hcount] at hcells
  exact hcells

/-- **What `Terminal_Clear` leaves**: the cursor in the corner, and the cells before 1976 blank. -/
theorem terminalClear_eq (t : Terminal) :
    (terminalClear t).terminalRow = 0 ∧ (terminalClear t).terminalColumn = 0 ∧
      (terminalClear t).cells = fun i => if i < 1976 then blank t else t.cells i := by
  have hstart : Spaced t 0 { t with terminalRow := 0, terminalColumn := 0 } :=
    ⟨⟨rfl, rfl, Nat.zero_le _⟩, rfl, rfl⟩
  have hloop : Spaced t (vgaHeight * vgaWidth)
      (forLoop (vgaHeight * vgaWidth) (fun _ t => terminalPutch t (ch ' '))
        { t with terminalRow := 0, terminalColumn := 0 }) :=
    forLoop_invariant hstart fun i s hi h => h.putch (by unfold vgaHeight vgaWidth at *; omega)
  rw [terminalClear_loop]
  exact ⟨rfl, rfl, hloop.corner⟩

/-! ## The blank screen -/

/-- `t'` is `t` cleared: the cursor in the corner, the whole screen blank, nothing else changed,
    and the same screen as after `Initialize_Terminal` if that uses the color too. -/
structure Cleared (t t' : Terminal) : Prop where
  row : t'.terminalRow = 0
  column : t'.terminalColumn = 0
  screen : ∀ i < vgaHeight * vgaWidth, t'.cells i = blank t
  outside : ∀ i, vgaHeight * vgaWidth ≤ i → t'.cells i = t.cells i
  initial : t.terminalColor = initColor →
    ∀ i < vgaHeight * vgaWidth, t'.cells i = (initializeTerminal t).cells i

/-- **When `Terminal_Clear` clears the screen**: its last 24 cells are blank already. -/
theorem clear_cleared_iff (t : Terminal) :
    Cleared t (terminalClear t) ↔
      ∀ i, 1976 ≤ i → i < vgaHeight * vgaWidth → t.cells i = blank t := by
  obtain ⟨hrow, hcolumn, hcells⟩ := terminalClear_eq t
  constructor
  · intro hcleared i hlow hhigh
    have hcell := hcleared.screen i hhigh
    rw [hcells] at hcell
    exact (if_neg (Nat.not_lt.mpr hlow)).symm.trans hcell
  · intro hcorner
    have hscreen : ∀ i < vgaHeight * vgaWidth, (terminalClear t).cells i = blank t := by
      intro i hi
      rw [hcells]
      by_cases hlow : i < 1976
      · exact if_pos hlow
      · exact (if_neg hlow).trans (hcorner i (Nat.le_of_not_lt hlow) hi)
    refine ⟨hrow, hcolumn, hscreen, fun i hi => ?_, fun hcolor i hi => ?_⟩
    · rw [hcells]
      exact if_neg (by unfold vgaHeight vgaWidth at hi; omega)
    · rw [hscreen i hi, initializeTerminal_eq, blank, hcolor]
      show _ = if i < _ then _ else _
      rw [if_pos hi, cellOf_printable (by decide) initColor]

/-- A screen full of `x`, in light grey on black. -/
def fullScreen : Terminal where
  terminalRow := 24
  terminalColumn := 80
  terminalColor := initColor
  terminalBuffer := vgaMemory
  cells := fun _ => initColor ++ ch 'x'
  log := []

/-- The last cell still shows it. -/
theorem clear_not_cleared_fullScreen : ¬ Cleared fullScreen (terminalClear fullScreen) := by
  intro hcleared
  have hcell := hcleared.screen 1999 (by decide)
  rw [(terminalClear_eq fullScreen).2.2] at hcell
  exact absurd hcell (by decide)

end FreeMicroNix
