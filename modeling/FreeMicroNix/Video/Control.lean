/-
  Moving the cursor back: the control characters, and `Terminal_Backspace`.

  The branches of `Terminal_Putch` for a tab, a backspace and a carriage return do not return: the
  character is stored like any other, and the column moves on past it.  So from every state on the
  screen each of the three ends one column right of where the character means to go
  (`return_column`, `tab_column_after`, `backspace_column`), and none of their laws ever holds.

  `Terminal_Backspace` itself decrements, prints a space through `Terminal_Putch`, and decrements
  again.  Within a row that blanks the cell to the left and moves there (`Undone.backspace`), so
  that as many calls as characters were printed take a text back.
-/
import FreeMicroNix.Video.Clear
import FreeMicroNix.Video.Column
import FreeMicroNix.Video.Cursor
import Mathlib.Logic.Function.Iterate

namespace FreeMicroNix

open CountedLoop

/-! ## The laws of the control characters -/

/-- A carriage return: to the start of the row, drawing nothing. -/
structure ReturnLaw (t t' : Terminal) : Prop where
  row : t'.terminalRow = t.terminalRow
  column : t'.terminalColumn = 0
  cells : t'.cells = t.cells

/-- The next multiple of 8 columns. -/
def nextStop (column : Nat) : Nat := (column / 8 + 1) * 8

/-- A tab: to the next multiple of 8 columns, or to the start of the next row where that is
    column 80, drawing nothing. -/
structure TabLaw (t t' : Terminal) : Prop where
  within : nextStop t.terminalColumn.toNat ≠ vgaWidth → t'.terminalRow = t.terminalRow ∧
    t'.terminalColumn.toNat = nextStop t.terminalColumn.toNat
  wrap : nextStop t.terminalColumn.toNat = vgaWidth → t'.terminalRow = t.terminalRow + 1 ∧
    t'.terminalColumn = 0
  cells : t'.cells = t.cells

/-- A backspace: one column to the left, away from column 0, blanking the cell there and no
    other. -/
structure BackspaceLaw (t t' : Terminal) : Prop where
  row : t'.terminalRow = t.terminalRow
  column : t'.terminalColumn.toNat = t.terminalColumn.toNat - 1
  blanked : 0 < t.terminalColumn.toNat →
    t'.cells (t.terminalRow.toNat * vgaWidth + (t.terminalColumn.toNat - 1)) = blank t
  others : ∀ i, i ≠ t.terminalRow.toNat * vgaWidth + (t.terminalColumn.toNat - 1) →
    t'.cells i = t.cells i

/-! ## Where the control characters end -/

section Control

variable {t : Terminal}

/-- Below column 80 the wrap test fails. -/
theorem column_ne_width (hcol : t.terminalColumn.toNat < vgaWidth) :
    t.terminalColumn ≠ BitVec.ofNat 32 vgaWidth := by
  intro h
  rw [h] at hcol
  exact absurd hcol (by decide)

theorem return_column (hcol : t.terminalColumn.toNat < vgaWidth) :
    (terminalPutch t (ch '\r')).terminalColumn.toNat = t.terminalColumn.toNat + 1 := by
  rw [putch_return t (column_ne_width hcol), putchGlyph_column]
  show (t.terminalColumn + 1).toNat = _
  unfold vgaWidth at hcol
  bv_omega

theorem tab_column_after (hcol : t.terminalColumn.toNat < vgaWidth) :
    (terminalPutch t (ch '\t')).terminalColumn.toNat = nextStop t.terminalColumn.toNat + 1 := by
  have hround := tab_column t.terminalColumn.toNat hcol
  rw [BitVec.ofNat_toNat, BitVec.setWidth_eq] at hround
  rw [putch_tab t (column_ne_width hcol), putchGlyph_column]
  show ((t.terminalColumn + 8 &&& ~~~(8 - 1)) + 1).toNat = _
  rw [hround, nextStop]
  unfold vgaWidth at hcol
  bv_omega

/-- In a row, `Terminal_Backspace` stores its space one column to the left. -/
theorem backspace_left (hpos : 0 < t.terminalColumn.toNat)
    (hle : t.terminalColumn.toNat ≤ vgaWidth) :
    terminalBackspace t = (putchGlyph t.decrementColumn (ch ' ')).decrementColumn := by
  have hspace : Ordinary (ch ' ') := Printable.ordinary (by decide)
  have hleft : t.decrementColumn.terminalColumn.toNat < vgaWidth := by
    rw [Terminal.decrementColumn_column]
    unfold vgaWidth at hle ⊢
    bv_omega
  have hcol : 0 < t.terminalColumn := hpos
  rw [backspace_pos t hcol, putch_ordinary _ _ hspace (column_ne_width hleft)]

theorem backspace_column (hcol : t.terminalColumn.toNat < vgaWidth) :
    (terminalPutch t (ch '\x08')).terminalColumn.toNat = t.terminalColumn.toNat - 1 + 1 := by
  rw [putch_backspace t (column_ne_width hcol), putchGlyph_column]
  rcases Nat.eq_zero_or_pos t.terminalColumn.toNat with hzero | hpos
  · have hcorner : t.terminalColumn = 0 := BitVec.eq_of_toNat_eq hzero
    rw [backspace_zero t hcorner, hcorner]
    rfl
  · rw [backspace_left hpos (Nat.le_of_lt hcol), Terminal.decrementColumn_column, putchGlyph_column,
      Terminal.decrementColumn_column]
    unfold vgaWidth at hcol
    bv_omega

/-- **The control characters**: from no state on the screen does any of the three do what it
    means. -/
theorem control_laws_fail (t : Terminal) (hcol : t.terminalColumn.toNat < vgaWidth) :
    ¬ ReturnLaw t (terminalPutch t (ch '\r')) ∧ ¬ TabLaw t (terminalPutch t (ch '\t')) ∧
      ¬ BackspaceLaw t (terminalPutch t (ch '\x08')) := by
  refine ⟨fun h => ?_, fun h => ?_, fun h => ?_⟩
  · have hcolumn := return_column hcol
    rw [h.column] at hcolumn
    exact absurd hcolumn (by simp)
  · have hcolumn := tab_column_after hcol
    by_cases hstop : nextStop t.terminalColumn.toNat = vgaWidth
    · rw [(h.wrap hstop).2] at hcolumn
      exact absurd hcolumn (by simp)
    · have hlaw := (h.within hstop).2
      omega
  · have hcolumn := backspace_column hcol
    have hlaw := h.column
    omega

end Control

theorem control_laws_fail_column_five :
    ¬ ReturnLaw { coldTerminal with terminalColumn := 5 }
        (terminalPutch { coldTerminal with terminalColumn := 5 } (ch '\r')) ∧
      ¬ TabLaw { coldTerminal with terminalColumn := 5 }
        (terminalPutch { coldTerminal with terminalColumn := 5 } (ch '\t')) ∧
      ¬ BackspaceLaw { coldTerminal with terminalColumn := 5 }
        (terminalPutch { coldTerminal with terminalColumn := 5 } (ch '\x08')) :=
  control_laws_fail { coldTerminal with terminalColumn := 5 } (by decide)

/-- A carriage return in column 5 of row 3 leads to column 6 of row 0. -/
theorem return_law_fails_row_three :
    ¬ ReturnLaw { coldTerminal with terminalRow := 3, terminalColumn := 5 }
        (terminalPutch { coldTerminal with terminalRow := 3, terminalColumn := 5 } (ch '\r')) := by
  intro h
  have hrow := h.row
  rw [putch_return _ (by decide), putchGlyph_row] at hrow
  exact absurd hrow (by decide)

/-! ## Backspacing undoes printing -/

/-- From `t` on, `n` cells of its row have been written: the column is `k` past that of `t`, and
    the cells from `m` on are blank. -/
structure Undone (t : Terminal) (n k m : Nat) (t' : Terminal) : Prop where
  row : t'.terminalRow = t.terminalRow
  column : t'.terminalColumn.toNat = t.terminalColumn.toNat + k
  color : t'.terminalColor = t.terminalColor
  blanked : ∀ i, m ≤ i → i < n → t'.cells ((cursorIndex t).toNat + i) = blank t
  others : ∀ i, i < (cursorIndex t).toNat ∨ (cursorIndex t).toNat + n ≤ i → t'.cells i = t.cells i

section Undo

variable {t t' : Terminal} {n k m : Nat}

/-- The index of the cell under the cursor, which is `k` cells past that of `t`. -/
theorem Undone.cursorIndex (h : Undone t n k m t') (hrow : t.terminalRow.toNat < vgaHeight)
    (hcol : t.terminalColumn.toNat + k < vgaWidth) :
    (FreeMicroNix.cursorIndex t').toNat = (FreeMicroNix.cursorIndex t).toNat + k := by
  have hrow' : t'.terminalRow.toNat < vgaHeight := by
    rw [h.row]
    exact hrow
  have hcol' : t'.terminalColumn.toNat < vgaWidth := by
    rw [h.column]
    exact hcol
  rw [cursorIndex_toNat hrow' hcol', cursorIndex_toNat hrow (by omega), h.row, h.column,
    Nat.add_assoc]

/-- One more character of the text. -/
theorem Undone.putch (h : Undone t n k n t') (hrow : t.terminalRow.toNat < vgaHeight)
    (hcol : t.terminalColumn.toNat + n ≤ vgaWidth) (hk : k < n) {c : CChar} (hc : Printable c) :
    Undone t n (k + 1) n (terminalPutch t' c) := by
  have hindex := h.cursorIndex hrow (by omega)
  have hin : t'.terminalColumn.toNat < vgaWidth := by
    rw [h.column]
    omega
  have hscreen : t'.terminalRow.toNat < vgaHeight := by
    rw [h.row]
    exact hrow
  rw [putch_ordinary _ _ hc.ordinary (column_ne_width hin)]
  refine ⟨?_, ?_, ?_, fun i hm hn => absurd hn (Nat.not_lt.mpr hm), fun i hi => ?_⟩
  · rw [putchGlyph_row, h.row]
  · rw [putchGlyph_column, ← Nat.add_assoc, ← h.column]
    unfold vgaWidth at hin
    bv_omega
  · rw [putchGlyph_color, h.color]
  · rw [putchGlyph_onScreen _ _ hscreen, hindex]
    show Function.update t'.cells _ _ i = t.cells i
    rw [Function.update_of_ne (by omega)]
    exact h.others i hi

/-- **One backspace**: the cell to the left is blank, and the cursor on it. -/
theorem Undone.backspace (h : Undone t n (k + 1) (k + 1) t')
    (hrow : t.terminalRow.toNat < vgaHeight) (hcol : t.terminalColumn.toNat + n ≤ vgaWidth)
    (hk : k < n) : Undone t n k k (terminalBackspace t') := by
  have hleft : t'.decrementColumn.terminalColumn.toNat = t.terminalColumn.toNat + k := by
    have hcolumn := h.column
    unfold vgaWidth at hcol
    rw [Terminal.decrementColumn_column]
    bv_omega
  -- the first decrement moves to the cell, the space moves past it, the second one moves back
  have hdec : Undone t n k (k + 1) t'.decrementColumn :=
    ⟨h.row, hleft, h.color, h.blanked, h.others⟩
  have hindex := hdec.cursorIndex hrow (by omega)
  have hscreen : t'.decrementColumn.terminalRow.toNat < vgaHeight := by
    rw [hdec.row]
    exact hrow
  have hspace : cellOf (ch ' ') t'.decrementColumn.terminalColor = blank t := by
    rw [cellOf_printable (by decide), hdec.color]
    rfl
  have hcolumn := h.column
  rw [backspace_left (by omega) (by omega)]
  have hcells : (putchGlyph t'.decrementColumn (ch ' ')).decrementColumn.cells
      = Function.update t'.cells ((FreeMicroNix.cursorIndex t).toNat + k) (blank t) := by
    rw [putchGlyph_onScreen _ _ hscreen, hindex, hspace]
    rfl
  refine ⟨?_, ?_, ?_, fun i hm hn => ?_, fun i hi => ?_⟩
  · exact (putchGlyph_row t'.decrementColumn (ch ' ')).trans hdec.row
  · rw [Terminal.decrementColumn_column, putchGlyph_column, BitVec.add_sub_cancel]
    exact hleft
  · exact (putchGlyph_color t'.decrementColumn (ch ' ')).trans hdec.color
  · rw [hcells]
    by_cases heq : i = k
    · rw [heq, Function.update_self]
    · rw [Function.update_of_ne (by omega)]
      exact h.blanked i (by omega) hn
  · rw [hcells, Function.update_of_ne (by omega)]
    exact h.others i hi

/-- A text, character by character. -/
theorem Undone.putchs (hrow : t.terminalRow.toNat < vgaHeight)
    (hcol : t.terminalColumn.toNat + n ≤ vgaWidth) {s : CString} (hs : ∀ c ∈ s, Printable c)
    (h : Undone t n k n t') (hlen : k + s.length ≤ n) :
    Undone t n (k + s.length) n (s.foldl terminalPutch t') := by
  induction s generalizing k t' with
  | nil => exact h
  | cons c s ih =>
    rw [List.length_cons] at hlen
    have hc := h.putch hrow hcol (by omega) (hs c List.mem_cons_self)
    have hrest := ih (fun d hd => hs d (List.mem_cons_of_mem c hd)) hc (by omega)
    have hsum : k + 1 + s.length = k + (c :: s).length := by
      rw [List.length_cons]
      omega
    rw [← hsum]
    exact hrest

/-- As many backspaces. -/
theorem Undone.backspaces (hrow : t.terminalRow.toNat < vgaHeight)
    (hcol : t.terminalColumn.toNat + n ≤ vgaWidth) (h : Undone t n k k t') (hk : k ≤ n) :
    Undone t n 0 0 (terminalBackspace^[k] t') := by
  induction k generalizing t' with
  | zero => exact h
  | succ k ih => exact ih (h.backspace hrow hcol hk) (Nat.le_of_succ_le hk)

/-- **Backspacing undoes printing**: after a text that fits into its row and as many backspaces,
    the cursor is back where it was, the cells of the text are blank, and nothing else has
    changed. -/
theorem backspaces_undo_print (t : Terminal) (s : CString)
    (hrow : t.terminalRow.toNat < vgaHeight) (hs : ∀ c ∈ s, Printable c)
    (hcol : t.terminalColumn.toNat + s.length ≤ vgaWidth) :
    let t' := terminalBackspace^[s.length] (terminalPrint t s)
    let first := t.terminalRow.toNat * vgaWidth + t.terminalColumn.toNat
    t'.terminalRow = t.terminalRow ∧ t'.terminalColumn = t.terminalColumn ∧
      t'.terminalColor = t.terminalColor ∧
      (∀ i < s.length, t'.cells (first + i) = blank t) ∧
      ∀ i, i < first ∨ first + s.length ≤ i → t'.cells i = t.cells i := by
  -- as many cells as the text has: first it writes them, then the backspaces blank them
  have hstart : Undone t s.length 0 s.length t :=
    ⟨rfl, rfl, rfl, fun i hm hn => absurd hn (Nat.not_lt.mpr hm), fun _ _ => rfl⟩
  have hputs := hstart.putchs hrow hcol hs (Nat.le_of_eq (Nat.zero_add _))
  rw [Nat.zero_add] at hputs
  have hprinted : Undone t s.length s.length s.length (terminalPrint t s) := by
    have hall : s.takeWhile (· ≠ 0) = s :=
      takeWhile_whole fun c hc => (hs c hc).plain.ne_zero
    rw [terminalPrint_eq, hall]
    exact ⟨hputs.row, hputs.column, hputs.color, hputs.blanked, hputs.others⟩
  have hundone := hprinted.backspaces hrow hcol (Nat.le_refl _)
  have hindex : (cursorIndex t).toNat
      = t.terminalRow.toNat * vgaWidth + t.terminalColumn.toNat := by
    simp only [cursorIndex, BitVec.toNat_add, BitVec.toNat_mul, BitVec.toNat_ofNat, vgaWidth,
      vgaHeight] at *
    omega
  have hblanked := hundone.blanked
  have hothers := hundone.others
  rw [hindex] at hblanked hothers
  exact ⟨hundone.row, BitVec.eq_of_toNat_eq hundone.column, hundone.color,
    fun i hi => hblanked i (Nat.zero_le i) hi, hothers⟩

end Undo

/-- The last two columns of a row. -/
theorem backspaces_undo_print_at_the_edge :
    let t := { coldTerminal with terminalRow := 24, terminalColumn := 78 }
    let t' := terminalBackspace^[2] (terminalPrint t (str "ab"))
    t'.terminalRow = 24 ∧ t'.terminalColumn = 78 ∧ t'.terminalColor = 0 ∧
      (∀ i < 2, t'.cells (1998 + i) = blank t) ∧
      ∀ i, i < 1998 ∨ 2000 ≤ i → t'.cells i = t.cells i :=
  backspaces_undo_print { coldTerminal with terminalRow := 24, terminalColumn := 78 } (str "ab")
    (by decide) (by decide) (by decide)

end FreeMicroNix
