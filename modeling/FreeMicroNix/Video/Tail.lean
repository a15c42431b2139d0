/-
  Printing more lines than the screen has rows.

  Up to 25 lines the code keeps line `k` in row `k` and all is well.  From the 26th line on
  `terminal_row` stays past the screen: it is `Terminal_Putch`, not the newline, that scrolls, once
  for EVERY glyph, and the row scrolled in from below is the memory past the screen — where the
  glyphs of the 26th line, and of no other, are stored.

  So the rows of the screen are a window of 26 rows (the last one off the screen) sliding down an
  endless `tape` by one row per glyph: first the 25 lines of the full screen, then, row by row, the
  stages of the 26th line being written over the memory past the screen.  `OnTape.glyph` is one
  glyph, `OnTape.putchs` a run of them, `cells_tail` the screen at the end.

  The window shows the last 25 lines when nothing ever had to scroll, and otherwise only if they
  cannot be told from what the tape happens to hold there (`tail_shown_iff`).
-/
import FreeMicroNix.Video.Layout

namespace FreeMicroNix

open CountedLoop Run

/-! ## Lines and their placements -/

/-- The lines as one string, a newline between consecutive ones. -/
def textOf (lines : List CString) : CString := [ch '\n'].intercalate lines

/-- A line of at most 80 printable characters. -/
def ShortLine (line : CString) : Prop := line.length ≤ vgaWidth ∧ ∀ c ∈ line, Printable c

instance (line : CString) : Decidable (ShortLine line) := inferInstanceAs (Decidable (_ ∧ _))

/-- A line in row `row`, from column `col` on. -/
def placeLine (row : Nat) : Nat → CString → List Placement
  | _, [] => []
  | col, c :: line => ⟨row, col, c⟩ :: placeLine row (col + 1) line

/-- Each line in a row of its own, the first in row `row`. -/
def placeLines : Nat → List CString → List Placement
  | _, [] => []
  | row, line :: lines => placeLine row 0 line ++ placeLines (row + 1) lines

theorem getElem?_placeLine (row : Nat) (chars : CString) :
    ∀ col i, (placeLine row col chars)[i]? = chars[i]?.map (Placement.mk row (col + i)) := by
  induction chars with
  | nil => intro col i; rfl
  | cons c chars ih =>
    intro col i
    cases i with
    | zero => rfl
    | succ i =>
      show (placeLine row (col + 1) chars)[i]? = chars[i]?.map (Placement.mk row (col + (i + 1)))
      rw [ih, Nat.add_right_comm, Nat.add_assoc]

theorem length_placeLine (row : Nat) (line : CString) :
    ∀ col, (placeLine row col line).length = line.length := by
  induction line with
  | nil => intro col; rfl
  | cons c line ih => intro col; rw [placeLine, List.length_cons, List.length_cons, ih]

theorem length_placeLines (lines : List CString) :
    ∀ row, (placeLines row lines).length = lines.flatten.length := by
  induction lines with
  | nil => intro row; rfl
  | cons line lines ih =>
    intro row
    rw [placeLines, List.length_append, length_placeLine, ih, List.flatten_cons,
      List.length_append]

/-- A placement is a character of a line, in the row of that line. -/
theorem mem_placeLines (q : Placement) (lines : List CString) :
    ∀ row, q ∈ placeLines row lines ↔
      ∃ k chars, lines[k]? = some chars ∧ q.row = row + k ∧ chars[q.col]? = some q.ch := by
  induction lines with
  | nil => intro row; simp [placeLines]
  | cons chars lines ih =>
    intro row
    have hline : q ∈ placeLine row 0 chars ↔ q.row = row ∧ chars[q.col]? = some q.ch := by
      rw [List.mem_iff_getElem?]
      simp only [getElem?_placeLine, Option.map_eq_some_iff, Nat.zero_add]
      constructor
      · rintro ⟨i, c, hc, rfl⟩
        exact ⟨rfl, hc⟩
      · rintro ⟨rfl, hc⟩
        exact ⟨q.col, q.ch, hc, rfl⟩
    rw [placeLines, List.mem_append, hline, ih]
    constructor
    · rintro (⟨hrow, hc⟩ | ⟨k, l, hl, hrow, hc⟩)
      · exact ⟨0, chars, rfl, hrow, hc⟩
      · exact ⟨k + 1, l, hl, by omega, hc⟩
    · rintro ⟨k, l, hl, hrow, hc⟩
      cases k with
      | zero =>
        obtain rfl : chars = l := Option.some.inj hl
        exact Or.inl ⟨hrow, hc⟩
      | succ k => exact Or.inr ⟨k, l, hl, by omega, hc⟩

/-! ## The code draws every line in its row -/

/-- Across a short line the cursor walks to its end. -/
theorem drawn_line (row : Nat) (line : CString) : ∀ (col : Nat) (rest : CString),
    (∀ c ∈ line, Printable c) → col + line.length ≤ vgaWidth →
      drawn (row, col) (line ++ rest)
          = placeLine row col line ++ drawn (row, col + line.length) rest ∧
        line.foldl textCursor (row, col) = (row, col + line.length) := by
  induction line with
  | nil => intro col rest _ _; exact ⟨rfl, rfl⟩
  | cons c line ih =>
    intro col rest hprint hlen
    rw [List.length_cons] at hlen ⊢
    have hnl : c ≠ ch '\n' := (hprint c List.mem_cons_self).ne (by decide)
    have hadv : ¬ Advances (row, col) c := not_or.mpr ⟨hnl, by show col ≠ vgaWidth; omega⟩
    have hcursor : textCursor (row, col) c = (row, col + 1) := by rw [textCursor, if_neg hadv]
    obtain ⟨hdrawn, hfold⟩ := ih (col + 1) rest
      (fun d hd => hprint d (List.mem_cons_of_mem c hd)) (by omega)
    have hsum : col + 1 + line.length = col + (line.length + 1) := by omega
    constructor
    · rw [List.cons_append, drawn, if_neg hadv, hcursor, hdrawn, hsum]
      rfl
    · rw [List.foldl_cons, hcursor, hfold, hsum]

/-- The newline after it opens the next row. -/
theorem drawn_line_newline {line : CString} (hline : ShortLine line) (row : Nat) (rest : CString) :
    drawn (row, 0) (line ++ ch '\n' :: rest)
        = placeLine row 0 line ++ drawn (row + 1, 0) rest ∧
      (line ++ [ch '\n']).foldl textCursor (row, 0) = (row + 1, 0) := by
  obtain ⟨hlen, hprint⟩ := hline
  obtain ⟨hdrawn, hend⟩ := drawn_line row line 0 (ch '\n' :: rest) hprint (by omega)
  have hadv : Advances (row, 0 + line.length) (ch '\n') := Or.inl rfl
  have hcursor : textCursor (row, 0 + line.length) (ch '\n') = (row + 1, 0) := by
    rw [textCursor, if_pos hadv]
  constructor
  · rw [hdrawn, drawn, if_pos hadv, hcursor]
  · rw [List.foldl_append, hend, List.foldl_cons, hcursor, List.foldl_nil]

/-- Lines that are all followed by a newline leave the cursor at the start of the next row. -/
theorem drawn_lines (lines : List CString) : ∀ (row : Nat) (rest : CString),
    (∀ line ∈ lines, ShortLine line) →
      drawn (row, 0) (lines.flatMap (· ++ [ch '\n']) ++ rest)
          = placeLines row lines ++ drawn (row + lines.length, 0) rest ∧
        (lines.flatMap (· ++ [ch '\n'])).foldl textCursor (row, 0) = (row + lines.length, 0) := by
  induction lines with
  | nil => intro row rest _; exact ⟨rfl, rfl⟩
  | cons line lines ih =>
    intro row rest hshort
    obtain ⟨hline, hend⟩ := drawn_line_newline (hshort line List.mem_cons_self) row
      (lines.flatMap (· ++ [ch '\n']) ++ rest)
    obtain ⟨hdrawn, hfold⟩ := ih (row + 1) rest
      fun l hl => hshort l (List.mem_cons_of_mem line hl)
    have hsum : row + 1 + lines.length = row + (line :: lines).length := by
      rw [List.length_cons]
      omega
    constructor
    · rw [List.flatMap_cons, List.append_assoc, List.append_assoc, List.singleton_append, hline,
        hdrawn, hsum, placeLines, List.append_assoc]
    · rw [List.flatMap_cons, List.foldl_append, hend, hfold, hsum]

theorem textOf_cons (line : CString) {lines : List CString} (hlines : lines ≠ []) :
    textOf (line :: lines) = line ++ ch '\n' :: textOf lines := by
  unfold textOf
  rw [List.intercalate_cons_of_ne_nil hlines, List.append_assoc, List.singleton_append]

/-- The lines before the last few are the ones a newline follows. -/
theorem textOf_append (lines : List CString) {rest : List CString} (hrest : rest ≠ []) :
    textOf (lines ++ rest) = lines.flatMap (· ++ [ch '\n']) ++ textOf rest := by
  induction lines with
  | nil => rfl
  | cons line lines ih =>
    have hne : lines ++ rest ≠ [] := by simp [hrest]
    rw [List.cons_append, textOf_cons line hne, ih, List.flatMap_cons, List.append_assoc,
      List.append_assoc, List.singleton_append]

/-- **The code's layout of short lines**: each in its row. -/
theorem drawn_textOf (lines : List CString) : ∀ row, (∀ line ∈ lines, ShortLine line) →
    drawn (row, 0) (textOf lines) = placeLines row lines := by
  induction lines with
  | nil => intro row _; rfl
  | cons line lines ih =>
    intro row hshort
    have hline := hshort line List.mem_cons_self
    cases lines with
    | nil =>
      have hdrawn := (drawn_line row line 0 [] hline.2 (by have := hline.1; omega)).1
      rw [List.append_nil] at hdrawn
      rw [textOf, List.intercalate_singleton]
      exact hdrawn
    | cons next lines =>
      rw [textOf_cons line (List.cons_ne_nil _ _), (drawn_line_newline hline row _).1,
        ih (row + 1) fun l hl => hshort l (List.mem_cons_of_mem line hl)]
      rfl

theorem plain_textOf (lines : List CString) (hshort : ∀ line ∈ lines, ShortLine line) :
    ∀ c ∈ textOf lines, Plain c := by
  induction lines with
  | nil => intro c hc; exact absurd hc List.not_mem_nil
  | cons line lines ih =>
    have hline := (hshort line List.mem_cons_self).2
    have htail := ih fun l hl => hshort l (List.mem_cons_of_mem line hl)
    by_cases hlines : lines = []
    · subst hlines
      intro c hc
      have hc : c ∈ line := by simpa [textOf] using hc
      exact (hline c hc).plain
    · rw [textOf_cons line hlines]
      intro c hc
      rcases List.mem_append.mp hc with hc | hc
      · exact (hline c hc).plain
      · rcases List.mem_cons.mp hc with rfl | hc
        · exact Or.inr rfl
        · exact htail c hc

/-! ## The first 25 lines -/

/-- The cell of column `x` of a row that shows `line`: its character, or blank past its end. -/
def shown (line : CString) (x : Nat) : Uint16 := initColor ++ line.getD x (ch ' ')

/-- While the rows last, every line is in its row and what lies past the screen is untouched. -/
theorem cells_lines {t : Terminal} {text : CString} {lines : List CString}
    (hdrawn : drawn (0, 0) text = placeLines 0 lines) (hplain : ∀ c ∈ text, Plain c)
    (hshort : ∀ chars ∈ lines, ShortLine chars) (hlen : lines.length ≤ vgaHeight) :
    (∀ k < vgaHeight, ∀ x < vgaWidth,
      (text.foldl terminalPutch (blanked t (vgaHeight * vgaWidth))).cells (k * vgaWidth + x)
        = shown (lines.getD k []) x) ∧
    ∀ i, vgaHeight * vgaWidth ≤ i →
      (text.foldl terminalPutch (blanked t (vgaHeight * vgaWidth))).cells i = t.cells i := by
  -- a placement lies in one of the rows, below column 80
  have hmem : ∀ q ∈ drawn (0, 0) text, q.row < vgaHeight ∧ q.col < vgaWidth ∧
      ∃ chars, lines[q.row]? = some chars ∧ chars[q.col]? = some q.ch := by
    intro q hq
    rw [hdrawn, mem_placeLines] at hq
    obtain ⟨k, chars, hline, hrow, hc⟩ := hq
    obtain rfl : q.row = k := by omega
    obtain ⟨hk, -⟩ := List.getElem?_eq_some_iff.mp hline
    obtain ⟨hx, -⟩ := List.getElem?_eq_some_iff.mp hc
    have hwidth := (hshort chars (List.mem_of_getElem? hline)).1
    exact ⟨by omega, by omega, chars, hline, hc⟩
  obtain ⟨hplaced, hframe⟩ := cells_putchs text _ _ (atCursor_blanked t (vgaHeight * vgaWidth))
    hplain fun q hq => (hmem q hq).1
  constructor
  · intro k hk x hx
    by_cases hcell : ∃ chars c, lines[k]? = some chars ∧ chars[x]? = some c
    · obtain ⟨chars, c, hline, hc⟩ := hcell
      have hq : (⟨k, x, c⟩ : Placement) ∈ drawn (0, 0) text := by
        rw [hdrawn, mem_placeLines]
        exact ⟨k, chars, hline, (Nat.zero_add k).symm, hc⟩
      have hvalue := hplaced _ hq
      rw [shown, List.getD_eq_getElem?_getD, List.getD_eq_getElem?_getD, hline,
        Option.getD_some, hc]
      exact hvalue
    · have hblank : (lines.getD k []).getD x (ch ' ') = ch ' ' := by
        rw [List.getD_eq_getElem?_getD, List.getD_eq_getElem?_getD]
        cases hline : lines[k]? with
        | none => rfl
        | some chars =>
          cases hc : chars[x]? with
          | none => rw [Option.getD_some, hc]; rfl
          | some c => exact absurd ⟨chars, c, hline, hc⟩ hcell
      have hfree : ∀ q ∈ drawn (0, 0) text, k * vgaWidth + x ≠ q.index := by
        intro q hq heq
        obtain ⟨-, hcol, chars, hline, hc⟩ := hmem q hq
        simp only [Placement.index, vgaWidth] at heq hcol hx
        obtain rfl : k = q.row := by omega
        obtain rfl : x = q.col := by omega
        exact hcell ⟨chars, q.ch, hline, hc⟩
      have hlt : k * vgaWidth + x < vgaHeight * vgaWidth := by
        simp only [vgaWidth, vgaHeight] at hk hx ⊢
        omega
      rw [hframe _ hfree, shown, hblank, ← cellOf_printable (by decide)]
      exact if_pos hlt
  · intro i hi
    have hpast : ∀ q ∈ drawn (0, 0) text, i ≠ q.index := by
      intro q hq
      obtain ⟨hrow, hcol, -⟩ := hmem q hq
      simp only [Placement.index, vgaWidth, vgaHeight] at hi hrow hcol ⊢
      omega
    rw [hframe i hpast]
    exact if_neg (Nat.not_lt.mpr hi)

/-! ## The window on the tape -/

/-- The 26 rows from the top of the screen on are rows `g`, `g + 1`, …, `g + 25` of the tape. -/
def OnTape (tape : Nat → Nat → Uint16) (g : Nat) (t : Terminal) : Prop :=
  ∀ k ≤ vgaHeight, ∀ x < vgaWidth, t.cells (k * vgaWidth + x) = tape (g + k) x

/-- **One glyph below the last row slides the window by one.**  The row that enters is the row
    past the screen once more, with the glyph written into it if it is the glyph's own. -/
theorem OnTape.glyph {tape : Nat → Nat → Uint16} {g : Nat} {t : Terminal} {p : Nat × Nat}
    {c : CChar} (h : OnTape tape g t) (hat : AtCursor t p) (hrow : vgaHeight ≤ p.1)
    (hcol : p.2 < vgaWidth) (hbound : (p.1 + 1) * vgaWidth ≤ 2 ^ 32)
    (hnext : ∀ x < vgaWidth, tape (g + 1 + vgaHeight) x =
      if p.1 = vgaHeight ∧ p.2 = x then cellOf c t.terminalColor else tape (g + vgaHeight) x) :
    OnTape tape (g + 1) (putchGlyph t c) := by
  simp only [vgaWidth, vgaHeight] at hrow hcol hbound hnext
  have hrow' : t.terminalRow.toNat = p.1 := by
    rw [hat.row_toNat]
    omega
  have hindex : (cursorIndex t).toNat = p.1 * 80 + p.2 := by
    rw [cursorIndex, BitVec.toNat_add, BitVec.toNat_mul, hrow', hat.column_toNat]
    simp only [BitVec.toNat_ofNat, vgaWidth]
    omega
  have hcells : (putchGlyph t c).cells = Function.update
      (fun j => if j < 2000 then t.cells (j + 80) else t.cells j)
      (p.1 * 80 + p.2) (cellOf c t.terminalColor) := by
    rw [putchGlyph_offScreen t c (by rw [hrow']; exact hrow), hindex]
    rfl
  intro k hk x hx
  simp only [vgaWidth, vgaHeight] at hk hx
  show (putchGlyph t c).cells (k * 80 + x) = tape (g + 1 + k) x
  rw [hcells]
  by_cases hlast : k = 25
  · subst hlast
    rw [hnext x hx]
    by_cases hself : p.1 = 25 ∧ p.2 = x
    · rw [if_pos hself, hself.1, hself.2, Function.update_self]
    · have hbelow : ¬ 25 * 80 + x < 2000 := by omega
      rw [if_neg hself, ← h 25 (Nat.le_refl _) x hx, Function.update_of_ne (by omega),
        if_neg hbelow]
  · have habove : k * 80 + x < 2000 := by omega
    have hnextRow : k * 80 + x + 80 = (k + 1) * 80 + x := by omega
    have hslide : g + (k + 1) = g + 1 + k := by omega
    rw [Function.update_of_ne (by omega), if_pos habove, hnextRow, ← hslide]
    exact h (k + 1) (by simp only [vgaHeight]; omega) x hx

/-- A run of plain characters below the last row: the tape must continue with the row past the
    screen as the run's placements leave it, one stage after another. -/
theorem OnTape.putchs {tape : Nat → Nat → Uint16} (text : CString) :
    ∀ (g : Nat) (t : Terminal) (p : Nat × Nat), OnTape tape g t → AtCursor t p → vgaHeight ≤ p.1 →
      (∀ c ∈ text, Plain c) → (∀ q ∈ drawn p text, (q.row + 1) * vgaWidth ≤ 2 ^ 32) →
      (∀ i q, (drawn p text)[i]? = some q → ∀ x < vgaWidth, tape (g + i + 1 + vgaHeight) x =
        if q.row = vgaHeight ∧ q.col = x then q.value t.terminalColor
        else tape (g + i + vgaHeight) x) →
      OnTape tape (g + (drawn p text).length) (text.foldl terminalPutch t) := by
  induction text with
  | nil => intro g t p h _ _ _ _ _; exact h
  | cons c text ih =>
    intro g t p h hat hrow hplain hbound hstages
    have hc := hplain c List.mem_cons_self
    have hrest := fun d hd => hplain d (List.mem_cons_of_mem c hd)
    have hat' := hat.putch hc
    rw [List.foldl_cons]
    by_cases hadv : Advances p c
    · rw [drawn, if_pos hadv] at hbound hstages ⊢
      rw [textCursor, if_pos hadv] at hat' hbound hstages ⊢
      rw [hat.putch_advance hadv] at hat' ⊢
      exact ih g _ _ h hat' (Nat.le_succ_of_le hrow) hrest hbound hstages
    · have hlt : p.2 < vgaWidth := Nat.lt_of_le_of_ne hat.2.2 fun heq => hadv (Or.inr heq)
      rw [drawn, if_neg hadv] at hbound hstages ⊢
      rw [textCursor, if_neg hadv] at hat' hbound hstages ⊢
      rw [hat.putch_glyph hc hadv] at hat' ⊢
      have hroom : (p.1 + 1) * vgaWidth ≤ 2 ^ 32 := hbound ⟨p.1, p.2, c⟩ List.mem_cons_self
      have hglyph : OnTape tape (g + 1) (putchGlyph t c) := by
        refine h.glyph hat hrow hlt hroom fun x hx => ?_
        rw [cellOf_printable (hc.printable hadv)]
        exact hstages 0 ⟨p.1, p.2, c⟩ rfl x hx
      have htail := ih (g + 1) _ _ hglyph hat' hrow hrest
        (fun q hq => hbound q (List.mem_cons_of_mem _ hq)) (fun i q hq x hx => by
          rw [putchGlyph_color, Nat.add_right_comm g 1 i]
          exact hstages (i + 1) q hq x hx)
      rw [List.length_cons, Nat.add_comm (drawn _ _).length 1, ← Nat.add_assoc]
      exact htail

/-! ## The screen at the end -/

/-- The characters of the lines past the 25th: each of them scrolls once. -/
def overflowGlyphs (lines : List CString) : Nat := (lines.drop vgaHeight).flatten.length

/-- The tape of a list of lines: the full screen, then the 26th line being written, character by
    character, over what lies past the screen. -/
def tape (lines : List CString) (past : Nat → Uint16) (v x : Nat) : Uint16 :=
  if v < vgaHeight then shown (lines.getD v []) x
  else if x < min (v - vgaHeight) (lines.getD vgaHeight []).length then
    shown (lines.getD vgaHeight []) x
  else past x

/-- The placements past the 25th line write the tape. -/
theorem tape_stages {lines : List CString} {line : CString} {more : List CString}
    (hrest : lines.drop vgaHeight = line :: more) (past : Nat → Uint16) (i : Nat) (q : Placement)
    (hq : (placeLines vgaHeight (line :: more))[i]? = some q) (x : Nat) :
    tape lines past (i + 1 + vgaHeight) x =
      if q.row = vgaHeight ∧ q.col = x then q.value initColor
      else tape lines past (i + vgaHeight) x := by
  have hline : lines.getD vgaHeight [] = line := by
    rw [List.getD_eq_getElem?_getD, ← Nat.add_zero vgaHeight, ← List.getElem?_drop, hrest]
    rfl
  have hstage : ∀ j, tape lines past (j + vgaHeight) x =
      if x < min j line.length then shown line x else past x := by
    intro j
    rw [tape, if_neg (by omega), hline, Nat.add_sub_cancel]
  rw [hstage, hstage]
  rw [placeLines] at hq
  rcases Nat.lt_or_ge i line.length with hi | hi
  · -- a character of the 26th line itself
    rw [List.getElem?_append_left (by rw [length_placeLine]; exact hi), getElem?_placeLine,
      List.getElem?_eq_getElem hi, Nat.zero_add] at hq
    obtain rfl := Option.some.inj hq
    by_cases hx : i = x
    · subst hx
      rw [if_pos (show i < min (i + 1) line.length by omega), if_pos ⟨rfl, rfl⟩, shown,
        List.getD_eq_getElem?_getD, List.getElem?_eq_getElem hi]
      rfl
    · have hother : ¬ (vgaHeight = vgaHeight ∧ i = x) := fun h => hx h.2
      have hsame : x < min (i + 1) line.length ↔ x < min i line.length := by omega
      rw [if_neg hother]
      simp only [hsame]
  · -- a character of a later line, in a row further down
    have hrow : ¬ (q.row = vgaHeight ∧ q.col = x) := by
      rw [List.getElem?_append_right (by rw [length_placeLine]; exact hi)] at hq
      obtain ⟨k, -, -, hrow, -⟩ := (mem_placeLines q more _).mp (List.mem_of_getElem? hq)
      intro h
      omega
    have hsame : x < min (i + 1) line.length ↔ x < min i line.length := by omega
    rw [if_neg hrow]
    simp only [hsame]

/-- **The screen after more than 25 lines**: the window has slid by one row for every glyph past
    the 25th line. -/
theorem cells_tail (t : Terminal) {lines : List CString} (hshort : ∀ line ∈ lines, ShortLine line)
    (hmany : vgaHeight < lines.length) (hsize : lines.length * vgaWidth ≤ 2 ^ 32) :
    ∀ k < vgaHeight, ∀ x < vgaWidth,
      (terminalPrint (initializeTerminal t) (textOf lines)).cells (k * vgaWidth + x)
        = tape lines (fun x => t.cells (vgaHeight * vgaWidth + x))
            (overflowGlyphs lines + k) x := by
  obtain ⟨line, more, hrest⟩ : ∃ line more, lines.drop vgaHeight = line :: more :=
    List.exists_cons_of_ne_nil fun h => by
      have := List.drop_eq_nil_iff.mp h
      omega
  have hfirst : ∀ l ∈ lines.take vgaHeight, ShortLine l := fun l hl =>
    hshort l (List.mem_of_mem_take hl)
  have hlast : ∀ l ∈ line :: more, ShortLine l := fun l hl =>
    hshort l (List.mem_of_mem_drop (hrest ▸ hl))
  have htake : (lines.take vgaHeight).length = vgaHeight := by
    rw [List.length_take]
    omega
  -- the text splits where the 26th line starts
  have hsplit : textOf lines
      = (lines.take vgaHeight).flatMap (· ++ [ch '\n']) ++ textOf (line :: more) := by
    rw [← textOf_append _ (List.cons_ne_nil line more), ← hrest, List.take_append_drop]
  have hplain := plain_textOf lines hshort
  rw [hsplit, List.forall_mem_append] at hplain
  obtain ⟨hdrawn, hcursor⟩ := drawn_lines (lines.take vgaHeight) 0 [] hfirst
  rw [List.append_nil, htake, Nat.zero_add] at hdrawn
  rw [htake, Nat.zero_add] at hcursor
  obtain ⟨hscreen, hpast⟩ := cells_lines (t := t) (hdrawn.trans (List.append_nil _)) hplain.1 hfirst
    (Nat.le_of_eq htake)
  have hat := (atCursor_blanked t (vgaHeight * vgaWidth)).putchs hplain.1
  rw [hcursor] at hat
  have hcolor := (atCursor_blanked t (vgaHeight * vgaWidth)).putchs_color hplain.1
  -- the first 25 lines leave the window at the top of the tape
  have hstart : OnTape (tape lines fun x => t.cells (vgaHeight * vgaWidth + x)) 0
      (((lines.take vgaHeight).flatMap (· ++ [ch '\n'])).foldl terminalPutch
        (blanked t (vgaHeight * vgaWidth))) := by
    intro k hk x hx
    rw [Nat.zero_add, tape]
    rcases Nat.lt_or_eq_of_le hk with hk | rfl
    · rw [hscreen k hk x hx, if_pos hk, List.getD_eq_getElem?_getD, List.getElem?_take_of_lt hk,
        List.getD_eq_getElem?_getD]
    · rw [if_neg (Nat.lt_irrefl _), Nat.sub_self, Nat.zero_min, if_neg (Nat.not_lt_zero x)]
      exact hpast _ (Nat.le_add_right _ _)
  have hdrawn' := drawn_textOf (line :: more) vgaHeight hlast
  have hslid := hstart.putchs (textOf (line :: more)) 0 _ _ hat (Nat.le_refl _) hplain.2 ?_ ?_
  · rw [hdrawn', length_placeLines, Nat.zero_add, ← List.foldl_append, ← hsplit, ← hrest] at hslid
    intro k hk x hx
    rw [initializeTerminal_eq, terminalPrint_eq, takeWhile_plain (plain_textOf lines hshort),
      updateCursor_cells]
    exact hslid k (Nat.le_of_lt hk) x hx
  · intro q hq
    rw [hdrawn', ← hrest] at hq
    obtain ⟨k, l, hl, hrow, -⟩ := (mem_placeLines q _ _).mp hq
    obtain ⟨hk, -⟩ := List.getElem?_eq_some_iff.mp hl
    rw [List.length_drop] at hk
    exact Nat.le_trans (Nat.mul_le_mul_right vgaWidth (by omega)) hsize
  · intro i q hq x _
    rw [hdrawn'] at hq
    rw [hcolor, Nat.zero_add]
    exact tape_stages hrest _ i q hq x

/-! ## Which texts end well -/

/-- The screen holds the last `min n 25` lines, each in its row from column 0 on, and is blank
    everywhere else. -/
def ShowsTail (lines : List CString) (t : Terminal) : Prop :=
  ∀ k < vgaHeight, ∀ x < vgaWidth, t.cells (k * vgaWidth + x)
    = shown ((lines.drop (lines.length - vgaHeight)).getD k []) x

/-- No character past the 25th line, and only spaces before: a blank screen, never scrolled. -/
def AllBlank (lines : List CString) : Prop :=
  overflowGlyphs lines = 0 ∧ ∀ line ∈ lines, ∀ c ∈ line, c = ch ' '

/-- The 26th line fills its row, so many glyphs follow that the screen holds nothing but copies of
    it, and the last 25 lines all look like it. -/
def AllAlike (lines : List CString) : Prop :=
  (lines.getD vgaHeight []).length = vgaWidth ∧ vgaHeight + vgaWidth ≤ overflowGlyphs lines ∧
    ∀ line ∈ lines.drop (lines.length - vgaHeight), ∀ x < vgaWidth,
      line.getD x (ch ' ') = (lines.getD vgaHeight []).getD x (ch ' ')

instance (lines : List CString) : Decidable (AllBlank lines) :=
  inferInstanceAs (Decidable (_ ∧ _))

instance (lines : List CString) : Decidable (AllAlike lines) :=
  inferInstanceAs (Decidable (_ ∧ _ ∧ _))

theorem shown_inj {line line' : CString} {x : Nat} :
    shown line x = shown line' x ↔ line.getD x (ch ' ') = line'.getD x (ch ' ') :=
  BitVec.append_right_inj initColor

/-- A line of the list, or the empty line past its end. -/
theorem getD_line (lines : List CString) (v : Nat) :
    lines.getD v [] ∈ lines ∨ lines.getD v [] = [] := by
  rw [List.getD_eq_getElem?_getD]
  cases hline : lines[v]? with
  | none => exact Or.inr rfl
  | some line => exact Or.inl (List.mem_of_getElem? hline)

theorem getD_drop (lines : List CString) (d k : Nat) :
    (lines.drop d).getD k [] = lines.getD (d + k) [] := by
  rw [List.getD_eq_getElem?_getD, List.getElem?_drop, ← List.getD_eq_getElem?_getD]

/-- What shows a stage of the 26th line for EVERY memory past the screen shows a part of it that
    is written already. -/
theorem written_of_tape {lines : List CString} {v x : Nat} {cell : Uint16} (hv : vgaHeight ≤ v)
    (h : ∀ past, tape lines past v x = cell) :
    x < min (v - vgaHeight) (lines.getD vgaHeight []).length := by
  apply Classical.byContradiction
  intro hunwritten
  have hpast := h fun _ => cell + 1
  rw [tape, if_neg (Nat.not_lt.mpr hv), if_neg hunwritten] at hpast
  have hne : cell + 1 ≠ cell := by bv_omega
  exact hne hpast

/-- Without a glyph past the 25th line every line beyond is empty. -/
theorem getD_past_of_overflow {lines : List CString} (h : overflowGlyphs lines = 0) {v : Nat}
    (hv : vgaHeight ≤ v) : lines.getD v [] = [] := by
  have hempty := List.flatten_eq_nil_iff.mp (List.eq_nil_of_length_eq_zero h)
  obtain ⟨k, rfl⟩ := Nat.exists_eq_add_of_le hv
  rw [← getD_drop]
  exact (getD_line _ k).elim (hempty _) id

/-- **Unscrolled and right means blank.**  Each row equals the row `d` further on, so from the
    empty lines at the end blankness climbs row by row to the top. -/
theorem blank_of_shift {lines : List CString} {d : Nat} (hd : 0 < d)
    (hempty : ∀ v, vgaHeight ≤ v → lines.getD v [] = [])
    (hshift : ∀ k < vgaHeight, ∀ x < vgaWidth,
      shown (lines.getD k []) x = shown (lines.getD (d + k) []) x) :
    ∀ m v, vgaHeight ≤ v + m → ∀ x < vgaWidth, (lines.getD v []).getD x (ch ' ') = ch ' ' := by
  intro m
  induction m with
  | zero =>
    intro v hv x _
    rw [hempty v (by omega)]
    rfl
  | succ m ih =>
    intro v hv x hx
    rcases Nat.lt_or_ge v vgaHeight with hlt | hge
    · rw [shown_inj.mp (hshift v hlt x hx)]
      exact ih (d + v) (by omega) x hx
    · rw [hempty v hge]
      rfl

/-- The tape shows the last 25 lines, whatever lies past the screen. -/
def TapeShows (lines : List CString) : Prop :=
  ∀ past, ∀ k < vgaHeight, ∀ x < vgaWidth, tape lines past (overflowGlyphs lines + k) x
    = shown ((lines.drop (lines.length - vgaHeight)).getD k []) x

/-- A tape that never moved shows the tail only of blank lines. -/
theorem TapeShows.allBlank {lines : List CString} (h : TapeShows lines)
    (hshort : ∀ line ∈ lines, ShortLine line) (hmany : vgaHeight < lines.length)
    (hzero : overflowGlyphs lines = 0) : AllBlank lines := by
  refine ⟨hzero, fun line hline c hc => ?_⟩
  have hshift : ∀ k < vgaHeight, ∀ x < vgaWidth, shown (lines.getD k []) x
      = shown (lines.getD (lines.length - vgaHeight + k) []) x := by
    intro k hk x hx
    have hk' := h (fun _ => 0) k hk x hx
    rw [hzero, Nat.zero_add, tape, if_pos hk, getD_drop] at hk'
    exact hk'
  obtain ⟨v, hv⟩ := List.mem_iff_getElem?.mp hline
  obtain ⟨x, hx⟩ := List.mem_iff_getElem?.mp hc
  have hwidth : x < vgaWidth := by
    obtain ⟨hlt, -⟩ := List.getElem?_eq_some_iff.mp hx
    have := (hshort line hline).1
    omega
  have hblank := blank_of_shift (by omega) (fun v => getD_past_of_overflow hzero) hshift
    vgaHeight v (by omega) x hwidth
  rw [List.getD_eq_getElem?_getD, List.getD_eq_getElem?_getD, hv, Option.getD_some,
    hx] at hblank
  exact hblank

/-- A tape that moved shows the tail only of 25 lines alike. -/
theorem TapeShows.allAlike {lines : List CString} (h : TapeShows lines)
    (hshort : ∀ line ∈ lines, ShortLine line) (hpos : 0 < overflowGlyphs lines) :
    AllAlike lines := by
  have hwritten : ∀ k < vgaHeight, vgaHeight ≤ overflowGlyphs lines + k →
      vgaWidth - 1 < min (overflowGlyphs lines + k - vgaHeight)
        (lines.getD vgaHeight []).length :=
    fun k hk hv => written_of_tape hv fun past => h past k hk (vgaWidth - 1) (by decide)
  have hlen : (lines.getD vgaHeight []).length ≤ vgaWidth :=
    (getD_line lines vgaHeight).elim (fun hmem => (hshort _ hmem).1)
      (fun hnil => by rw [hnil]; exact Nat.zero_le _)
  -- else the topmost row that lies past the first 25 on the tape would be written to its end
  have hmany' : vgaHeight ≤ overflowGlyphs lines := by
    apply Classical.byContradiction
    intro hfew
    have hzero := hwritten (vgaHeight - overflowGlyphs lines) (by omega) (by omega)
    omega
  have htop := hwritten 0 (by decide) (by omega)
  simp only [vgaWidth, vgaHeight] at htop hlen hmany'
  refine ⟨by simp only [vgaWidth, vgaHeight]; omega, by simp only [vgaWidth, vgaHeight]; omega,
    fun line hline x hx => ?_⟩
  obtain ⟨k, hk⟩ := List.mem_iff_getElem?.mp hline
  have hk' : k < vgaHeight := by
    obtain ⟨hlt, -⟩ := List.getElem?_eq_some_iff.mp hk
    rw [List.length_drop] at hlt
    omega
  have hrow := h (fun _ => 0) k hk' x hx
  simp only [vgaWidth, vgaHeight] at hk' hx
  rw [tape, if_neg (by simp only [vgaHeight]; omega),
    if_pos (by simp only [vgaHeight]; omega), shown_inj,
    List.getD_eq_getElem?_getD (l := List.drop _ _), hk] at hrow
  exact hrow.symm

theorem AllBlank.tapeShows {lines : List CString} (h : AllBlank lines) : TapeShows lines := by
  obtain ⟨hzero, hblank⟩ := h
  have hspace : ∀ v x, (lines.getD v []).getD x (ch ' ') = ch ' ' := by
    intro v x
    rcases getD_line lines v with hmem | hnil
    · rw [List.getD_eq_getElem?_getD]
      cases hc : (lines.getD v [])[x]? with
      | none => rfl
      | some c => exact hblank _ hmem c (List.mem_of_getElem? hc)
    · rw [hnil]
      rfl
  intro past k hk x hx
  rw [hzero, Nat.zero_add, tape, if_pos hk, getD_drop, shown_inj, hspace, hspace]

theorem AllAlike.tapeShows {lines : List CString} (h : AllAlike lines)
    (hmany : vgaHeight < lines.length) : TapeShows lines := by
  obtain ⟨hlen, hmany', halike⟩ := h
  intro past k hk x hx
  have hmem : (lines.drop (lines.length - vgaHeight)).getD k [] ∈
      lines.drop (lines.length - vgaHeight) := by
    have hlt : k < (lines.drop (lines.length - vgaHeight)).length := by
      rw [List.length_drop]
      omega
    rw [List.getD_eq_getElem?_getD, List.getElem?_eq_getElem hlt]
    exact List.getElem_mem hlt
  rw [tape, if_neg (by omega), if_pos (by rw [hlen]; omega), shown_inj]
  exact (halike _ hmem x hx).symm

/-- **The tape shows the tail** exactly in the two cases. -/
theorem tapeShows_iff {lines : List CString} (hshort : ∀ line ∈ lines, ShortLine line)
    (hmany : vgaHeight < lines.length) : TapeShows lines ↔ AllBlank lines ∨ AllAlike lines := by
  constructor
  · intro h
    rcases Nat.eq_zero_or_pos (overflowGlyphs lines) with hzero | hpos
    · exact Or.inl (h.allBlank hshort hmany hzero)
    · exact Or.inr (h.allAlike hshort hpos)
  · rintro (h | h)
    · exact h.tapeShows
    · exact h.tapeShows hmany

/-! ## Printing lines on the empty screen -/

theorem showsTail_short (t : Terminal) {lines : List CString}
    (hshort : ∀ line ∈ lines, ShortLine line) (hfew : lines.length ≤ vgaHeight) :
    ShowsTail lines (terminalPrint (initializeTerminal t) (textOf lines)) := by
  have hplain := plain_textOf lines hshort
  obtain ⟨hscreen, -⟩ := cells_lines (t := t) (drawn_textOf lines 0 hshort) hplain hshort hfew
  intro k hk x hx
  rw [initializeTerminal_eq, terminalPrint_eq, takeWhile_plain hplain, updateCursor_cells,
    Nat.sub_eq_zero_of_le hfew]
  exact hscreen k hk x hx

/-- **Scrolling, exactly.**  Lines of at most 80 printable characters, printed on the freshly
    initialized screen, leave the last 25 of them on it — whatever the memory past the screen
    held — if and only if there are at most 25 of them, or the screen is blank throughout, or the
    last 25 cannot be told from the 26th.

    The bound is where `terminal_row * VGA_WIDTH` begins to wrap: past 53687091 lines, in a string
    that does not fit the 4 MiB the kernel maps. -/
theorem tail_shown_iff (lines : List CString) (hshort : ∀ line ∈ lines, ShortLine line)
    (hsize : lines.length * vgaWidth ≤ 2 ^ 32) :
    (∀ t, ShowsTail lines (terminalPrint (initializeTerminal t) (textOf lines))) ↔
      lines.length ≤ vgaHeight ∨ AllBlank lines ∨ AllAlike lines := by
  rcases Nat.lt_or_ge vgaHeight lines.length with hmany | hfew
  · rw [or_iff_right (Nat.not_le.mpr hmany), ← tapeShows_iff hshort hmany]
    constructor
    · intro h past k hk x hx
      -- a terminal with `past` in the row past the screen
      have hshows :=
        h { coldTerminal with cells := fun i => past (i - vgaHeight * vgaWidth) } k hk x hx
      rw [cells_tail _ hshort hmany hsize k hk x hx] at hshows
      simpa only [Nat.add_sub_cancel_left] using hshows
    · intro h t k hk x hx
      rw [cells_tail t hshort hmany hsize k hk x hx]
      exact h _ k hk x hx
  · exact iff_of_true (fun t => showsTail_short t hshort hfew) (Or.inl hfew)

theorem tail_shown_two_lines :
    ShowsTail [str "Hello", str "World"]
      (terminalPrint (initializeTerminal coldTerminal) (textOf [str "Hello", str "World"])) :=
  (tail_shown_iff [str "Hello", str "World"] (by decide) (by decide)).mpr (by decide) coldTerminal

/-- Twenty-five empty lines and a letter. -/
def lateLetter : List CString := List.replicate 25 [] ++ [str "a"]

/-- The letter scrolls the screen once and lands below it: row 24 shows the memory past the
    screen. -/
theorem tail_not_shown_lateLetter :
    (∀ line ∈ lateLetter, ShortLine line) ∧
      ¬ ShowsTail lateLetter
        (terminalPrint (initializeTerminal coldTerminal) (textOf lateLetter)) := by
  have hshort : ∀ line ∈ lateLetter, ShortLine line := by decide
  refine ⟨hshort, fun h => ?_⟩
  have hrow := h 24 (by decide) 0 (by decide)
  rw [cells_tail coldTerminal hshort (by decide) (by decide) 24 (by decide) 0 (by decide)] at hrow
  exact absurd hrow (by decide)

end FreeMicroNix
