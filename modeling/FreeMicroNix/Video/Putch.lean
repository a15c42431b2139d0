/-
  One character at a time: what each operation of `Video.Vga` does to the terminal state.

  Every later module reasons from the equations of this file and does not unfold the model
  again: the closed form of a scroll, the closed form of a stored glyph with the row on the screen
  or past it, and the case equations of `Terminal_Putch` and `Terminal_Backspace`.
-/
import FreeMicroNix.Lib.Sequence
import FreeMicroNix.Video.Vga

namespace FreeMicroNix

open CountedLoop Sequence

/-! ## The fields each step leaves alone -/

namespace Terminal

variable (t : Terminal)

@[simp] theorem decrementColumn_column :
    t.decrementColumn.terminalColumn = t.terminalColumn - 1 := rfl
@[simp] theorem decrementColumn_log :
    t.decrementColumn.log = t.log ++ [.decrement t.terminalColumn] := rfl

end Terminal

section UpdateCursor

variable (t : Terminal)

@[simp] theorem updateCursor_cells : (terminalUpdateCursor t).cells = t.cells := rfl

/-- The cursor update only writes ports. -/
theorem updateCursor_log : ∃ outs : List Access,
    (terminalUpdateCursor t).log = t.log ++ outs ∧
      ∀ a ∈ outs, ∃ port value, a = .out port value := by
  refine ⟨_, by simp only [terminalUpdateCursor, terminalOutb, Terminal.record,
    List.append_assoc]; rfl, ?_⟩
  intro a ha
  simp only [List.cons_append, List.nil_append, List.mem_cons, List.not_mem_nil, or_false] at ha
  rcases ha with rfl | rfl | rfl | rfl <;> exact ⟨_, _, rfl⟩

end UpdateCursor

/-! ## Scrolling -/

/-- The accesses of the first `n` passes of a scroll. -/
def scrollLog (n : Nat) : List Access :=
  (List.range n).flatMap fun i => [.scrollLoad (i + vgaWidth), .scrollStore i]

/-- The two nested loops are one loop over the 2000 cells of the screen. -/
theorem terminalScroll_eq_loop (t : Terminal) :
    terminalScroll t = forLoop (vgaHeight * vgaWidth) scrollCell t :=
  forLoop_grid vgaHeight vgaWidth scrollCell t

/-- **The closed form of a scroll.**  Every cell of the screen receives the cell one row further
    on — row 24 that of the row past the screen — and nothing else changes.  The induction is on
    the cells already copied: the cell a pass loads lies ahead of all cells stored so far. -/
theorem terminalScroll_eq (t : Terminal) :
    terminalScroll t =
      { t with
        cells := fun j => if j < vgaHeight * vgaWidth then t.cells (j + vgaWidth) else t.cells j
        log := t.log ++ scrollLog (vgaHeight * vgaWidth) } := by
  rw [terminalScroll_eq_loop]
  refine forLoop_invariant (I := fun n s => s =
      { t with
        cells := fun j => if j < n then t.cells (j + vgaWidth) else t.cells j
        log := t.log ++ scrollLog n }) ?_ ?_
  · simp [scrollLog]
  · rintro i s - rfl
    have hcells := update_prefix t.cells (fun j => t.cells (j + vgaWidth)) i
    have hahead : ¬ i + vgaWidth < i := by omega
    simp only [scrollCell, Terminal.record, if_neg hahead, hcells, scrollLog, List.range_succ,
      List.flatMap_append, List.flatMap_cons, List.flatMap_nil, List.append_assoc,
      List.cons_append, List.nil_append]

/-! ## A stored glyph -/

section Glyph

variable (t : Terminal) (c : CChar)

/-- The index `Terminal_Putat` computes for the cursor. -/
def cursorIndex : Uint32 := t.terminalRow * BitVec.ofNat 32 vgaWidth + t.terminalColumn

/-- On the screen the index is the row-major one: nothing wraps. -/
theorem cursorIndex_toNat {t : Terminal} (hrow : t.terminalRow.toNat < vgaHeight)
    (hcol : t.terminalColumn.toNat < vgaWidth) :
    (cursorIndex t).toNat = t.terminalRow.toNat * vgaWidth + t.terminalColumn.toNat := by
  simp only [cursorIndex, BitVec.toNat_add, BitVec.toNat_mul, BitVec.toNat_ofNat, vgaWidth,
    vgaHeight] at *
  omega

/-- The store of character `c` at the cursor. -/
def glyphStore : Access :=
  .store t.terminalColumn t.terminalRow (cursorIndex t) c (cellOf c t.terminalColor)

/-- With the row on the screen a glyph is one store and one step to the right. -/
theorem putchGlyph_onScreen (h : t.terminalRow.toNat < vgaHeight) :
    putchGlyph t c =
      { t with
        cells := Function.update t.cells (cursorIndex t).toNat (cellOf c t.terminalColor)
        log := t.log ++ [glyphStore t c]
        terminalColumn := t.terminalColumn + 1 } := by
  have hrow : ¬ BitVec.ofNat 32 vgaHeight ≤ t.terminalRow := Nat.not_le.mpr h
  simp only [putchGlyph, if_neg hrow]
  rfl

/-- With the row past the screen the whole screen scrolls first — and the row stays. -/
theorem putchGlyph_offScreen (h : vgaHeight ≤ t.terminalRow.toNat) :
    putchGlyph t c =
      { t with
        cells := Function.update
          (fun j => if j < vgaHeight * vgaWidth then t.cells (j + vgaWidth) else t.cells j)
          (cursorIndex t).toNat (cellOf c t.terminalColor)
        log := t.log ++ scrollLog (vgaHeight * vgaWidth) ++ [glyphStore t c]
        terminalColumn := t.terminalColumn + 1 } := by
  have hrow : BitVec.ofNat 32 vgaHeight ≤ t.terminalRow := h
  simp only [putchGlyph, if_pos hrow, terminalScroll_eq]
  rfl

@[simp] theorem putchGlyph_row : (putchGlyph t c).terminalRow = t.terminalRow := by
  rcases Nat.lt_or_ge t.terminalRow.toNat vgaHeight with h | h
  · rw [putchGlyph_onScreen t c h]
  · rw [putchGlyph_offScreen t c h]

@[simp] theorem putchGlyph_column : (putchGlyph t c).terminalColumn = t.terminalColumn + 1 := by
  rcases Nat.lt_or_ge t.terminalRow.toNat vgaHeight with h | h
  · rw [putchGlyph_onScreen t c h]
  · rw [putchGlyph_offScreen t c h]

@[simp] theorem putchGlyph_color : (putchGlyph t c).terminalColor = t.terminalColor := by
  rcases Nat.lt_or_ge t.terminalRow.toNat vgaHeight with h | h
  · rw [putchGlyph_onScreen t c h]
  · rw [putchGlyph_offScreen t c h]

/-- Whatever the row, a glyph appends scroll accesses or nothing, then its store. -/
theorem putchGlyph_log : ∃ scrolled : List Access,
    (putchGlyph t c).log = t.log ++ scrolled ++ [glyphStore t c] ∧
      (scrolled = [] ∨ scrolled = scrollLog (vgaHeight * vgaWidth)) := by
  rcases Nat.lt_or_ge t.terminalRow.toNat vgaHeight with h | h
  · exact ⟨[], by rw [putchGlyph_onScreen t c h, List.append_nil], Or.inl rfl⟩
  · exact ⟨_, by rw [putchGlyph_offScreen t c h], Or.inr rfl⟩

/-- What holds of the accesses of a scroll holds after a glyph if it holds of the store too. -/
theorem putchGlyph_forall_log_iff {P : Access → Prop} (hload : ∀ i, P (.scrollLoad i))
    (hstore : ∀ i, P (.scrollStore i)) :
    (∀ a ∈ (putchGlyph t c).log, P a) ↔ (∀ a ∈ t.log, P a) ∧ P (glyphStore t c) := by
  obtain ⟨scrolled, hlog, hscrolled⟩ := putchGlyph_log t c
  have hscroll : ∀ a ∈ scrolled, P a := by
    intro a ha
    rcases hscrolled with h | h
    · exact absurd (h ▸ ha) List.not_mem_nil
    · obtain ⟨i, -, ha⟩ := List.mem_flatMap.mp (h ▸ ha)
      rcases List.mem_pair.mp ha with rfl | rfl
      · exact hload _
      · exact hstore i
  rw [hlog, List.forall_mem_append, List.forall_mem_append, List.forall_mem_singleton]
  exact and_congr_left fun _ => and_iff_left hscroll

end Glyph

/-! ## The cases of `Terminal_Putch` -/

section Cases

variable (t : Terminal) (c : CChar)

/-- The first branch: a newline, or ANY character in column 80, only moves to the next row. -/
theorem putch_advance (h : c = ch '\n' ∨ t.terminalColumn = BitVec.ofNat 32 vgaWidth) :
    terminalPutch t c = { t with terminalColumn := 0, terminalRow := t.terminalRow + 1 } := by
  rw [terminalPutch, if_pos h]

theorem putch_tab (h : t.terminalColumn ≠ BitVec.ofNat 32 vgaWidth) :
    terminalPutch t (ch '\t') =
      putchGlyph { t with terminalColumn := (t.terminalColumn + 8) &&& ~~~(8 - 1) } (ch '\t') := by
  have hnot : ¬ (ch '\t' = ch '\n' ∨ t.terminalColumn = BitVec.ofNat 32 vgaWidth) :=
    fun hor => hor.elim (by decide) h
  rw [terminalPutch, if_neg hnot, if_pos rfl]

theorem putch_backspace (h : t.terminalColumn ≠ BitVec.ofNat 32 vgaWidth) :
    terminalPutch t (ch '\x08') = putchGlyph (terminalBackspace t) (ch '\x08') := by
  have hnot : ¬ (ch '\x08' = ch '\n' ∨ t.terminalColumn = BitVec.ofNat 32 vgaWidth) :=
    fun hor => hor.elim (by decide) h
  rw [terminalPutch, if_neg hnot, if_neg (by decide), if_pos rfl]

theorem putch_return (h : t.terminalColumn ≠ BitVec.ofNat 32 vgaWidth) :
    terminalPutch t (ch '\r') = putchGlyph { t with terminalRow := 0 } (ch '\r') := by
  have hnot : ¬ (ch '\r' = ch '\n' ∨ t.terminalColumn = BitVec.ofNat 32 vgaWidth) :=
    fun hor => hor.elim (by decide) h
  rw [terminalPutch, if_neg hnot, if_neg (by decide), if_neg (by decide), if_pos rfl]

/-- The characters the code gives no meaning of their own. -/
def Ordinary (c : CChar) : Prop := c ≠ ch '\n' ∧ c ≠ ch '\t' ∧ c ≠ ch '\x08' ∧ c ≠ ch '\r'

theorem putch_ordinary (hc : Ordinary c) (h : t.terminalColumn ≠ BitVec.ofNat 32 vgaWidth) :
    terminalPutch t c = putchGlyph t c := by
  obtain ⟨hnl, htab, hbs, hcr⟩ := hc
  rw [terminalPutch, if_neg (fun hor => hor.elim hnl h), if_neg htab, if_neg hbs, if_neg hcr]

end Cases

theorem Printable.ordinary {c : CChar} (h : Printable c) : Ordinary c :=
  ⟨h.ne (by decide), h.ne (by decide), h.ne (by decide), h.ne (by decide)⟩

/-- Every character is a newline, a tab, a backspace, a carriage return or ordinary. -/
theorem char_cases (c : CChar) :
    c = ch '\n' ∨ c = ch '\t' ∨ c = ch '\x08' ∨ c = ch '\r' ∨ Ordinary c := by
  unfold Ordinary
  by_cases hnl : c = ch '\n' <;> by_cases htab : c = ch '\t' <;> by_cases hbs : c = ch '\x08' <;>
    by_cases hcr : c = ch '\r' <;> simp [*]

/-! ## `Terminal_Backspace` -/

/-- In column 0 nothing happens. -/
theorem backspace_zero (t : Terminal) (h : t.terminalColumn = 0) : terminalBackspace t = t := by
  rw [terminalBackspace, if_neg (by rw [h]; decide)]

/-- Elsewhere: one decrement, a space through `Terminal_Putch`, a second decrement. -/
theorem backspace_pos (t : Terminal) (h : 0 < t.terminalColumn) :
    terminalBackspace t = (terminalPutch t.decrementColumn (ch ' ')).decrementColumn := by
  rw [terminalBackspace, if_pos h]

/-! ## Strings and initialization -/

/-- `Terminal_Print` puts the characters before the terminator, then updates the cursor. -/
theorem terminalPrint_eq (t : Terminal) (s : CString) :
    terminalPrint t s = terminalUpdateCursor ((s.takeWhile (· ≠ 0)).foldl terminalPutch t) := by
  have hloop : forLoop (strlen s) (fun i t => terminalPutch t (s.getD i 0)) t
      = (s.take (strlen s)).foldl terminalPutch t := by
    rw [← forLoop_getD terminalPutch 0 (s.take (strlen s)) t, List.length_take,
      Nat.min_eq_left (strlen_le_length s)]
    refine forLoop_congr (fun i t hi => ?_) t
    rw [List.getD_eq_getElem?_getD, List.getD_eq_getElem?_getD, List.getElem?_take_of_lt hi]
  rw [← take_strlen, ← hloop]
  rfl

/-- The background is black: the attribute byte is the foreground alone. -/
theorem setColor_color (t : Terminal) (color : VgaColor) :
    (terminalSetColor t color).terminalColor = color.value := by
  show color.value ||| VgaColor.black.value <<< 4 = color.value
  cases color <;> decide

/-- The index of a cell is recovered from its row and column. -/
theorem index_ofNat (i : Nat) :
    BitVec.ofNat 32 (i / vgaWidth) * BitVec.ofNat 32 vgaWidth + BitVec.ofNat 32 (i % vgaWidth)
      = BitVec.ofNat 32 i := by
  rw [← BitVec.ofNat_mul, ← BitVec.ofNat_add, Nat.div_add_mod']

/-- The store `Initialize_Terminal` makes at cell `i`. -/
def initStore (i : Nat) : Access :=
  .store (BitVec.ofNat 32 (i % vgaWidth)) (BitVec.ofNat 32 (i / vgaWidth)) (BitVec.ofNat 32 i)
    (ch ' ') (cellOf (ch ' ') VgaColor.lightGrey.value)

/-- The attribute byte `Initialize_Terminal` selects: light grey on black. -/
def initColor : Uint8 := VgaColor.lightGrey.value

/-- The state with the first `n` cells of the screen blanked in row-major order. -/
def blanked (t : Terminal) (n : Nat) : Terminal where
  terminalRow := 0
  terminalColumn := 0
  terminalColor := initColor
  terminalBuffer := vgaMemory
  cells := fun i => if i < n then cellOf (ch ' ') initColor else t.cells i
  log := t.log ++ (List.range n).map initStore

/-- **The state `Initialize_Terminal` leaves**: an empty screen in light grey on black, the
    cursor in the corner, and 2000 stores in row-major order. -/
theorem initializeTerminal_eq (t : Terminal) :
    initializeTerminal t = blanked t (vgaHeight * vgaWidth) := by
  -- the two loops are one loop over the cells, in row-major order
  have hgrid : ∀ s : Terminal,
      forLoop vgaHeight (fun y => forLoop vgaWidth fun x t =>
        terminalPutat t (BitVec.ofNat 32 x) (BitVec.ofNat 32 y) (ch ' ')) s
      = forLoop (vgaHeight * vgaWidth) (fun i t =>
        terminalPutat t (BitVec.ofNat 32 (i % vgaWidth)) (BitVec.ofNat 32 (i / vgaWidth)) (ch ' '))
        s := by
    intro s
    rw [← forLoop_grid]
    refine forLoop_congr (fun y s _ => forLoop_congr (fun x s hx => ?_) s) s
    have hcol : (y * vgaWidth + x) % vgaWidth = x := Nat.mul_add_mod_of_lt hx
    have hrow : (y * vgaWidth + x) / vgaWidth = y := by
      rw [Nat.mul_comm, Nat.mul_add_div (by decide), Nat.div_eq_of_lt hx, Nat.add_zero]
    rw [hcol, hrow]
  rw [initializeTerminal, hgrid]
  refine forLoop_invariant (I := fun n s => s = blanked t n) ?_ ?_
  · simp only [setColor_color, blanked, List.range_zero, List.map_nil, List.append_nil,
      Nat.not_lt_zero, if_false]
    rfl
  · rintro i s hi rfl
    have hindex : (BitVec.ofNat 32 i).toNat = i :=
      Nat.mod_eq_of_lt (Nat.lt_trans hi (by decide))
    have hcells := update_prefix t.cells (fun _ => cellOf (ch ' ') initColor) i
    simp only [terminalPutat, blanked, Terminal.record, index_ofNat, hindex, hcells,
      List.range_succ, List.map_append, List.map_cons, List.map_nil, List.append_assoc]
    rfl

end FreeMicroNix
