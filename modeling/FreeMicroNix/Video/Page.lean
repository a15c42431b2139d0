/-
  A screen of full lines, each in the attribute it was printed in.

  `Page` is the abstract screen: rows of text, and the attribute in force.  `Page.after` says what a
  text of short lines, each with its newline, adds to it; the terminal does the same, for as long as
  the rows last (`Shows.putchs`).  The attribute goes with the row and not with the blanks behind it:
  those are the ones `Initialize_Terminal` wrote.
-/
import FreeMicroNix.Video.Formats
import FreeMicroNix.Video.Tail

namespace FreeMicroNix

/-! ## The abstract screen -/

/-- A line and its attribute. -/
structure Row where
  color : Uint8
  text : CString
  deriving DecidableEq

/-- The cell of column `x` in a row. -/
def Row.cell (r : Row) (x : Nat) : Uint16 :=
  match r.text[x]? with
  | some c => r.color ++ c
  | none => initColor ++ ch ' '

/-- A screen of full lines, and the attribute of the next one. -/
structure Page where
  rows : List Row
  color : Uint8
  deriving DecidableEq

namespace Page

/-- The screen after `Initialize_Terminal`. -/
def empty : Page := ⟨[], initColor⟩

/-- One more line. -/
def println (p : Page) (line : CString) : Page := { p with rows := p.rows ++ [⟨p.color, line⟩] }

/-- Some more lines. -/
def printlns (p : Page) (lines : List CString) : Page := lines.foldl println p

end Page

/-- The terminal shows a page, and stands below its last line. -/
structure Shows (p : Page) (t : Terminal) : Prop where
  cursor : AtCursor t (p.rows.length, 0)
  color : t.terminalColor = p.color
  cells : ∀ k < vgaHeight, ∀ x < vgaWidth,
    t.cells (k * vgaWidth + x) = (p.rows.getD k ⟨initColor, []⟩).cell x

/-! ## Lines of a text -/

/-- The lines of a text, each up to its newline; what stands behind the last newline is left out. -/
def fullLines : CString → List CString
  | [] => []
  | c :: text =>
      if c = ch '\n' then [] :: fullLines text
      else
        match fullLines text with
        | [] => []
        | line :: lines => (c :: line) :: lines

/-- The lines with their newlines. -/
def joined (lines : List CString) : CString := lines.flatMap (· ++ [ch '\n'])

theorem fullLines_line {line : CString} (hline : ch '\n' ∉ line) (text : CString) :
    fullLines (line ++ ch '\n' :: text) = line :: fullLines text := by
  induction line with
  | nil => rfl
  | cons c line ih =>
    have hc : c ≠ ch '\n' := fun heq => hline (heq ▸ List.mem_cons_self)
    rw [List.cons_append, fullLines, if_neg hc, ih fun hmem => hline (List.mem_cons_of_mem c hmem)]

/-- Joined lines are the lines of their text. -/
theorem fullLines_joined {lines : List CString} (h : ∀ line ∈ lines, ch '\n' ∉ line) :
    fullLines (joined lines) = lines := by
  induction lines with
  | nil => rfl
  | cons line lines ih =>
    rw [joined, List.flatMap_cons, List.append_assoc, List.singleton_append,
      fullLines_line (h line List.mem_cons_self)]
    exact congrArg (line :: ·) (ih fun line' hmem => h line' (List.mem_cons_of_mem line hmem))

/-- A literal of at most 80 printable characters, none of them a percent sign. -/
def LineLiteral (s : String) : Bool :=
  decide (s.toList.length ≤ vgaWidth) &&
    s.toList.all fun c => decide (32 ≤ c.toNat ∧ c.toNat ≤ 126 ∧ c ≠ '%')

theorem LineLiteral.chars {s : String} (h : LineLiteral s = true) :
    ∀ c ∈ str s, Printable c ∧ c ≠ ch '%' := by
  have hchar : ∀ n < 127, 32 ≤ n → Printable (BitVec.ofNat 8 n) ∧
      (BitVec.ofNat 8 n = ch '%' → n = '%'.toNat) := by decide
  intro c hc
  obtain ⟨d, hd, rfl⟩ := List.mem_map.mp hc
  obtain ⟨hlow, hhigh, hpercent⟩ :=
    of_decide_eq_true (List.all_eq_true.mp (Bool.and_eq_true_iff.mp h).2 d hd)
  obtain ⟨hprint, hcode⟩ := hchar d.toNat (Nat.lt_succ_of_le hhigh) hlow
  exact ⟨hprint, fun heq => hpercent (Char.toNat_inj.mp (hcode heq))⟩

theorem LineLiteral.short {s : String} (h : LineLiteral s = true) : ShortLine (str s) := by
  refine ⟨?_, fun c hc => (LineLiteral.chars h c hc).1⟩
  rw [str, List.length_map]
  exact of_decide_eq_true (Bool.and_eq_true_iff.mp h).1

theorem ShortLine.newline {line : CString} (h : ShortLine line) : ch '\n' ∉ line :=
  fun hmem => (h.2 _ hmem).ne (by decide) rfl

theorem LineLiteral.verbatim {s : String} (h : LineLiteral s = true) : Verbatim (str s) :=
  fun c hc => ⟨(LineLiteral.chars h c hc).1.plain.ne_zero, (LineLiteral.chars h c hc).2⟩

/-- Lines without percent signs, with their newlines. -/
theorem verbatim_joined {lines : List CString} (h : ∀ line ∈ lines, Verbatim line) :
    Verbatim (joined lines) := by
  intro c hc
  obtain ⟨line, hline, hc⟩ := List.mem_flatMap.mp hc
  rcases List.mem_append.mp hc with hc | hc
  · exact h line hline c hc
  · rw [List.mem_singleton.mp hc]
    decide

/-! ## The terminal shows it -/

namespace Shows

variable {p : Page} {t t' : Terminal}

theorem equalButPorts (h : Shows p t) (hequal : EqualButPorts t' t) : Shows p t' := by
  refine ⟨?_, hequal.color.trans h.color, ?_⟩
  · obtain ⟨hrow, hcolumn, hwidth⟩ := h.cursor
    exact ⟨hequal.row.trans hrow, hequal.column.trans hcolumn, hwidth⟩
  · rw [hequal.cells]
    exact h.cells

/-- An initialized terminal. -/
theorem empty (t : Terminal) : Shows .empty (initializeTerminal t) := by
  rw [initializeTerminal_eq]
  refine ⟨atCursor_blanked t _, rfl, fun k hk x hx => ?_⟩
  have hlt : k * vgaWidth + x < vgaHeight * vgaWidth := by
    simp only [vgaWidth, vgaHeight] at hk hx ⊢
    omega
  exact (if_pos hlt).trans (cellOf_printable (by decide) _)

theorem setColor (h : Shows p t) (color : VgaColor) :
    Shows { p with color := color.value } (terminalSetColor t color) :=
  ⟨h.cursor, setColor_color t color, h.cells⟩

/-- **One line**, and its newline. -/
theorem println (h : Shows p t) {chars : CString} (hline : ShortLine chars)
    (hroom : p.rows.length < vgaHeight) :
    Shows (p.println chars) ((chars ++ [ch '\n']).foldl terminalPutch t) := by
  have hplain : ∀ c ∈ chars ++ [ch '\n'], Plain c := by
    intro c hc
    rcases List.mem_append.mp hc with hc | hc
    · exact (hline.2 c hc).plain
    · exact Or.inr (List.mem_singleton.mp hc)
  obtain ⟨hdrawn, hcursor⟩ := drawn_line_newline hline p.rows.length []
  rw [drawn, List.append_nil] at hdrawn
  have hplaced : ∀ q : Placement, q ∈ drawn (p.rows.length, 0) (chars ++ [ch '\n']) ↔
      q.row = p.rows.length ∧ chars[q.col]? = some q.ch := by
    intro q
    rw [hdrawn, List.mem_iff_getElem?]
    simp only [getElem?_placeLine, Nat.zero_add]
    constructor
    · rintro ⟨x, hx⟩
      obtain ⟨c, hc, rfl⟩ := Option.map_eq_some_iff.mp hx
      exact ⟨rfl, hc⟩
    · rintro ⟨hrow, hc⟩
      exact ⟨q.col, by rw [hc, ← hrow]; rfl⟩
  obtain ⟨hdone, hframe⟩ := cells_putchs (chars ++ [ch '\n']) t _ h.cursor hplain
    fun q hq => (((hplaced q).mp hq).1).symm ▸ hroom
  have hlength : (p.println chars).rows.length = p.rows.length + 1 := List.length_append
  refine ⟨?_, (h.cursor.putchs_color hplain).trans h.color, fun k hk x hx => ?_⟩
  · rw [hlength]
    have hat := h.cursor.putchs hplain
    rwa [hcursor] at hat
  · -- the row just printed, or one that is as before
    by_cases hrow : k = p.rows.length
    · have hnew : (p.println chars).rows.getD k ⟨initColor, []⟩ = ⟨p.color, chars⟩ := by
        rw [hrow, Page.println, List.getD_eq_getElem?_getD, List.getElem?_concat_length]
        rfl
      rw [hnew, Row.cell]
      cases hc : chars[x]? with
      | some c =>
        have hvalue := hdone ⟨k, x, c⟩ ((hplaced _).mpr ⟨hrow, hc⟩)
        rw [h.color] at hvalue
        exact hvalue
      | none =>
        have hfree : ∀ q ∈ drawn (p.rows.length, 0) (chars ++ [ch '\n']),
            k * vgaWidth + x ≠ q.index := by
          intro q hq heq
          obtain ⟨hqrow, hqch⟩ := (hplaced q).mp hq
          have hqcol : q.col < chars.length := (List.getElem?_eq_some_iff.mp hqch).1
          have hwidth := hline.1
          have hcol : x = q.col := by
            simp only [Placement.index, vgaWidth] at heq hx hwidth
            omega
          rw [hcol, hqch] at hc
          cases hc
        rw [hframe _ hfree, h.cells k hk x hx, List.getD_eq_getElem?_getD,
          List.getElem?_eq_none (Nat.le_of_eq hrow.symm)]
        rfl
    · have hsame : (p.println chars).rows.getD k ⟨initColor, []⟩
          = p.rows.getD k ⟨initColor, []⟩ := by
        rw [Page.println, List.getD_eq_getElem?_getD, List.getD_eq_getElem?_getD]
        rcases Nat.lt_or_gt_of_ne hrow with hlt | hgt
        · rw [List.getElem?_append_left hlt]
        · rw [List.getElem?_eq_none (Nat.le_of_lt hgt), List.getElem?_eq_none (by
            rw [List.length_append]
            exact hgt)]
      have hfree : ∀ q ∈ drawn (p.rows.length, 0) (chars ++ [ch '\n']),
          k * vgaWidth + x ≠ q.index := by
        intro q hq heq
        obtain ⟨hqrow, hqch⟩ := (hplaced q).mp hq
        have hqcol : q.col < chars.length := (List.getElem?_eq_some_iff.mp hqch).1
        have hwidth := hline.1
        simp only [Placement.index, vgaWidth] at heq hx hwidth
        omega
      rw [hsame, hframe _ hfree]
      exact h.cells k hk x hx

/-- **Some lines**, while the rows last. -/
theorem putchs (h : Shows p t) {lines : List CString} (hshort : ∀ line ∈ lines, ShortLine line)
    (hroom : p.rows.length + lines.length ≤ vgaHeight) :
    Shows (p.printlns lines) ((joined lines).foldl terminalPutch t) := by
  induction lines generalizing p t with
  | nil => exact h
  | cons line lines ih =>
    rw [List.length_cons] at hroom
    have hfirst := h.println (hshort line List.mem_cons_self) (by omega)
    have hlength : (p.println line).rows.length = p.rows.length + 1 := List.length_append
    have hrest := ih hfirst (fun line' hmem => hshort line' (List.mem_cons_of_mem line hmem))
      (by omega)
    rw [joined, List.flatMap_cons, List.foldl_append]
    exact hrest

end Shows

end FreeMicroNix
