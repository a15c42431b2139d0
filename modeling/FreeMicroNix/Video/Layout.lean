/-
  Where the characters of a text go.

  Two layouts of the same text on rows of 80 columns.  `layout` is the reference: a character
  takes the next free cell, and the one that arrives when the row is full starts the next row.
  `drawn` is the code's: the character that arrives when the row is full is CONSUMED by the wrap —
  the first branch of `Terminal_Putch` returns before anything is stored.

  The terminal stores `drawn` placement by placement, whatever the text (`stores_putchs`), and the
  two layouts agree precisely when no character arrives at a full row (`drawn_eq_layout_iff`),
  which is when no line is longer than 80 characters (`guarded_wrap_iff`).  `print_laidOut_iff`
  puts the three together.

  `drawn` advances through the cells in increasing order (`drawn_increasing`); that no placement
  is overwritten later rests on this alone.
-/
import FreeMicroNix.Video.Text

namespace FreeMicroNix

open CountedLoop Run

/-! ## Cells of printable characters -/

/-- A printable character and its attribute are the two bytes of the cell. -/
theorem cellOf_printable {c : CChar} (hc : Printable c) (color : Uint8) :
    cellOf c color = color ++ c := by
  have hmsb : c.msb = false := by
    have hle : c.toNat ≤ 126 := hc.2
    rw [BitVec.msb_eq_decide]
    simp only [decide_eq_false_iff_not]
    omega
  unfold cellOf
  rw [BitVec.signExtend_eq_setWidth_of_msb_false hmsb]
  apply BitVec.eq_of_getLsbD_eq
  intro i hi
  show _ = (color ++ c : BitVec (8 + 8)).getLsbD i
  rw [BitVec.getLsbD_append]
  rcases Nat.lt_or_ge i 8 with hlow | hhigh
  · simp [hi, hlow]
  · have hnone : c.getLsbD i = false := BitVec.getLsbD_of_ge c i hhigh
    have hnot : ¬ i < 8 := by omega
    simp [hi, hnot, hnone]

/-! ## Placements -/

/-- A character at a row and a column. -/
structure Placement where
  row : Nat
  col : Nat
  ch : CChar
  deriving DecidableEq, Repr

namespace Placement

/-- The cell of a placement, row-major. -/
def index (q : Placement) : Nat := q.row * vgaWidth + q.col

/-- What the cell holds: the attribute above the character. -/
def value (color : Uint8) (q : Placement) : Uint16 := color ++ q.ch

/-- The store that draws a placement. -/
def store (color : Uint8) (q : Placement) : Access :=
  .store (BitVec.ofNat 32 q.col) (BitVec.ofNat 32 q.row) (BitVec.ofNat 32 q.index) q.ch
    (q.value color)

end Placement

/-- **The reference layout** of a text from row `p.1`, column `p.2` on. -/
def layout : Nat × Nat → CString → List Placement
  | _, [] => []
  | (row, col), c :: text =>
      if c = ch '\n' then layout (row + 1, 0) text
      else if col = vgaWidth then ⟨row + 1, 0, c⟩ :: layout (row + 1, 1) text
      else ⟨row, col, c⟩ :: layout (row, col + 1) text

/-- **The code's layout**: a character that advances is not drawn. -/
def drawn : Nat × Nat → CString → List Placement
  | _, [] => []
  | p, c :: text =>
      if Advances p c then drawn (textCursor p c) text
      else ⟨p.1, p.2, c⟩ :: drawn (textCursor p c) text

/-! ## The two layouts agree on short lines -/

/-- A character that is not lost: a newline, or one that finds room in the row. -/
def Room (p : Nat × Nat) (c : CChar) : Prop := c = ch '\n' ∨ p.2 < vgaWidth

instance (p : Nat × Nat) (c : CChar) : Decidable (Room p c) :=
  inferInstanceAs (Decidable (_ ∨ _))

theorem length_layout (text : CString) :
    ∀ p, (layout p text).length = (text.filter (· ≠ ch '\n')).length := by
  induction text with
  | nil => intro p; rfl
  | cons c text ih =>
    rintro ⟨row, col⟩
    by_cases hnl : c = ch '\n'
    · simp [layout, hnl, ih]
    · unfold layout
      rw [if_neg hnl, List.filter_cons_of_pos (by simpa using hnl)]
      split <;> simp [ih]

/-- The code never draws more than the text holds. -/
theorem length_drawn_le (text : CString) :
    ∀ p, (drawn p text).length ≤ (text.filter (· ≠ ch '\n')).length := by
  induction text with
  | nil => intro p; exact Nat.le_refl 0
  | cons c text ih =>
    intro p
    have htail := ih (textCursor p c)
    by_cases hnl : c = ch '\n'
    · have hadv : Advances p c := Or.inl hnl
      rw [drawn, if_pos hadv, List.filter_cons_of_neg (by simpa using hnl)]
      exact htail
    · rw [List.filter_cons_of_pos (by simpa using hnl), List.length_cons]
      unfold drawn
      split
      · omega
      · rw [List.length_cons]
        omega

/-- With room for every character the two layouts are one. -/
theorem drawn_eq_layout (text : CString) :
    ∀ p, Guarded textCursor Room p text → drawn p text = layout p text := by
  induction text with
  | nil => intro p _; rfl
  | cons c text ih =>
    rintro ⟨row, col⟩ ⟨hroom, hrest⟩
    have htail := ih _ hrest
    by_cases hnl : c = ch '\n'
    · have hadv : Advances (row, col) c := Or.inl hnl
      rw [drawn, if_pos hadv, htail, layout, if_pos hnl, textCursor, if_pos hadv]
    · have hcol : col ≠ vgaWidth := Nat.ne_of_lt (hroom.resolve_left hnl)
      have hadv : ¬ Advances (row, col) c := not_or.mpr ⟨hnl, hcol⟩
      rw [drawn, if_neg hadv, htail, layout, if_neg hnl, if_neg hcol, textCursor, if_neg hadv]

/-- One character without room leaves the code's layout short for good. -/
theorem guarded_of_length_drawn (text : CString) :
    ∀ p, p.2 ≤ vgaWidth → (drawn p text).length = (text.filter (· ≠ ch '\n')).length →
      Guarded textCursor Room p text := by
  induction text with
  | nil => intro p _ _; trivial
  | cons c text ih =>
    intro p hp hlen
    by_cases hnl : c = ch '\n'
    · have hadv : Advances p c := Or.inl hnl
      rw [drawn, if_pos hadv, List.filter_cons_of_neg (by simpa using hnl)] at hlen
      refine ⟨Or.inl hnl, ih _ ?_ hlen⟩
      rw [textCursor, if_pos hadv]
      exact Nat.zero_le _
    · rw [List.filter_cons_of_pos (by simpa using hnl), List.length_cons] at hlen
      by_cases hcol : p.2 = vgaWidth
      · -- the character is lost, and the rest cannot make up for it
        have hadv : Advances p c := Or.inr hcol
        have hbound := length_drawn_le text (textCursor p c)
        rw [drawn, if_pos hadv] at hlen
        omega
      · have hadv : ¬ Advances p c := not_or.mpr ⟨hnl, hcol⟩
        have hlt : p.2 < vgaWidth := Nat.lt_of_le_of_ne hp hcol
        rw [drawn, if_neg hadv, List.length_cons] at hlen
        refine ⟨Or.inr hlt, ih _ ?_ (by omega)⟩
        rw [textCursor, if_neg hadv]
        exact hlt

theorem drawn_eq_layout_iff {p : Nat × Nat} (hp : p.2 ≤ vgaWidth) (text : CString) :
    drawn p text = layout p text ↔ Guarded textCursor Room p text := by
  constructor
  · intro heq
    apply guarded_of_length_drawn text p hp
    rw [heq, length_layout]
  · exact drawn_eq_layout text p

/-- Room for every character is a bound on the lines: the first of them starts in column `col`. -/
theorem guarded_room_iff (text : CString) :
    ∀ (row col : Nat) (line : CString) (lines : List CString), col ≤ vgaWidth →
      text.splitOn (ch '\n') = line :: lines →
      (Guarded textCursor Room (row, col) text ↔
        col + line.length ≤ vgaWidth ∧ ∀ l ∈ lines, l.length ≤ vgaWidth) := by
  induction text with
  | nil =>
    intro row col line lines hcol hsplit
    simp only [List.splitOn_nil, List.cons.injEq] at hsplit
    obtain ⟨rfl, rfl⟩ := hsplit
    simpa using hcol
  | cons c text ih =>
    intro row col line lines hcol hsplit
    rw [List.splitOn_cons_eq_if_modifyHead] at hsplit
    obtain ⟨line', lines', htail⟩ :=
      List.exists_cons_of_ne_nil (List.splitOn_ne_nil (ch '\n') text)
    rw [htail] at hsplit
    rw [guarded_cons]
    by_cases hnl : c = ch '\n'
    · have hadv : Advances (row, col) c := Or.inl hnl
      rw [if_pos (by simpa using hnl)] at hsplit
      obtain ⟨rfl, rfl⟩ := List.cons.inj hsplit
      rw [textCursor, if_pos hadv, ih (row + 1) 0 line' lines' (Nat.zero_le _) htail,
        List.forall_mem_cons]
      simp [Room, hnl, hcol]
    · rw [if_neg (by simpa using hnl)] at hsplit
      obtain ⟨rfl, rfl⟩ := List.cons.inj hsplit
      rw [List.length_cons]
      by_cases hfull : col = vgaWidth
      · have hlost : ¬ Room (row, col) c := not_or.mpr ⟨hnl, by simp [hfull]⟩
        constructor
        · intro h
          exact absurd h.1 hlost
        · intro h
          omega
      · have hadv : ¬ Advances (row, col) c := not_or.mpr ⟨hnl, hfull⟩
        have hlt : col < vgaWidth := Nat.lt_of_le_of_ne hcol hfull
        rw [textCursor, if_neg hadv, ih row (col + 1) line' lines' hlt htail,
          Nat.add_right_comm, Nat.add_assoc]
        exact and_iff_right (Or.inr hlt)

/-- From the corner: every line fits a row. -/
theorem guarded_wrap_iff (text : CString) :
    Guarded textCursor Room (0, 0) text ↔
      ∀ line ∈ text.splitOn (ch '\n'), line.length ≤ vgaWidth := by
  obtain ⟨line, lines, hsplit⟩ :=
    List.exists_cons_of_ne_nil (List.splitOn_ne_nil (ch '\n') text)
  rw [guarded_room_iff text 0 0 line lines (Nat.zero_le _) hsplit, hsplit, List.forall_mem_cons,
    Nat.zero_add]

/-! ## What the terminal stores -/

/-- A character store. -/
def Access.isStore : Access → Bool
  | .store .. => true
  | _ => false

/-- The characters stored so far. -/
def Terminal.stores (t : Terminal) : List Access := t.log.filter Access.isStore

theorem scrollLog_stores (n : Nat) : (scrollLog n).filter Access.isStore = [] := by
  refine List.filter_eq_nil_iff.mpr fun a ha => ?_
  obtain ⟨i, -, ha⟩ := List.mem_flatMap.mp ha
  rcases List.mem_pair.mp ha with rfl | rfl <;> exact Bool.false_ne_true

/-- A glyph is one character store, scroll or no scroll. -/
theorem putchGlyph_stores (t : Terminal) (c : CChar) :
    (putchGlyph t c).stores = t.stores ++ [glyphStore t c] := by
  obtain ⟨scrolled, hlog, hscrolled⟩ := putchGlyph_log t c
  have hnone : scrolled.filter Access.isStore = [] := by
    rcases hscrolled with h | h
    · rw [h, List.filter_nil]
    · rw [h, scrollLog_stores]
  unfold Terminal.stores
  rw [hlog, List.filter_append, List.filter_append, hnone, List.append_nil]
  rfl

/-- At the cursor `p` that store draws the placement at `p`. -/
theorem AtCursor.glyphStore {t : Terminal} {p : Nat × Nat} (h : AtCursor t p) {c : CChar}
    (hc : Printable c) :
    glyphStore t c = Placement.store t.terminalColor ⟨p.1, p.2, c⟩ := by
  have hindex : cursorIndex t = BitVec.ofNat 32 (p.1 * vgaWidth + p.2) := by
    rw [cursorIndex, h.1, h.2.1, ← BitVec.ofNat_mul, ← BitVec.ofNat_add]
  unfold FreeMicroNix.glyphStore
  rw [hindex, h.1, h.2.1, cellOf_printable hc]
  rfl

/-- A plain character that does not advance is printable. -/
theorem Plain.printable {p : Nat × Nat} {c : CChar} (hc : Plain c) (hadv : ¬ Advances p c) :
    Printable c := hc.resolve_right fun hnl => hadv (Or.inl hnl)

/-- **The terminal draws `drawn`**, placement by placement, in the order of the text. -/
theorem stores_putchs (text : CString) : ∀ (t : Terminal) (p : Nat × Nat), AtCursor t p →
    (∀ c ∈ text, Plain c) →
      (text.foldl terminalPutch t).stores
        = t.stores ++ (drawn p text).map (Placement.store t.terminalColor) := by
  induction text with
  | nil =>
    intro t p _ _
    exact (List.append_nil _).symm
  | cons c text ih =>
    intro t p h hplain
    have hc := hplain c List.mem_cons_self
    have htail := ih _ _ (h.putch hc) fun d hd => hplain d (List.mem_cons_of_mem c hd)
    rw [List.foldl_cons, htail, drawn]
    by_cases hadv : Advances p c
    · rw [h.putch_advance hadv, if_pos hadv]
      rfl
    · rw [h.putch_glyph hc hadv, if_neg hadv, putchGlyph_stores, putchGlyph_color,
        h.glyphStore (hc.printable hadv), List.append_assoc]
      rfl

/-! ## What the cells hold -/

/-- The code's layout runs through the cells in increasing order, from the cursor on. -/
theorem drawn_increasing (text : CString) : ∀ p : Nat × Nat, p.2 ≤ vgaWidth →
    ∀ q ∈ drawn p text, p.1 * vgaWidth + p.2 ≤ q.index := by
  induction text with
  | nil =>
    intro p _ q hq
    exact absurd hq List.not_mem_nil
  | cons c text ih =>
    intro p hp q hq
    rw [drawn] at hq
    by_cases hadv : Advances p c
    · have htail := ih (textCursor p c)
      rw [if_pos hadv] at hq
      rw [textCursor, if_pos hadv] at htail hq
      have hle := htail (Nat.zero_le _) q hq
      simp only [vgaWidth] at hle hp ⊢
      omega
    · have htail := ih (textCursor p c)
      rw [if_neg hadv] at hq
      rw [textCursor, if_neg hadv] at htail hq
      have hne : p.2 ≠ vgaWidth := fun heq => hadv (Or.inr heq)
      rcases List.mem_cons.mp hq with rfl | hq
      · exact Nat.le_refl _
      · have hle := htail (Nat.lt_of_le_of_ne hp hne) q hq
        dsimp only at hle
        omega

/-- **The cells of a text that stays on the screen.**  Every placement drawn is found in its cell,
    and all other cells are as before. -/
theorem cells_putchs (text : CString) : ∀ (t : Terminal) (p : Nat × Nat), AtCursor t p →
    (∀ c ∈ text, Plain c) → (∀ q ∈ drawn p text, q.row < vgaHeight) →
      (∀ q ∈ drawn p text, (text.foldl terminalPutch t).cells q.index = q.value t.terminalColor) ∧
      ∀ i, (∀ q ∈ drawn p text, i ≠ q.index) →
        (text.foldl terminalPutch t).cells i = t.cells i := by
  induction text with
  | nil =>
    intro t p _ _ _
    exact ⟨fun q hq => absurd hq List.not_mem_nil, fun _ _ => rfl⟩
  | cons c text ih =>
    intro t p h hplain hrows
    have hc := hplain c List.mem_cons_self
    obtain ⟨hdrawn, hframe⟩ := ih _ _ (h.putch hc)
      (fun d hd => hplain d (List.mem_cons_of_mem c hd))
      (fun q hq => hrows q (by rw [drawn]; split <;> simp [hq]))
    rw [List.foldl_cons]
    by_cases hadv : Advances p c
    · rw [drawn, if_pos hadv]
      rw [h.putch_advance hadv] at hdrawn hframe ⊢
      exact ⟨hdrawn, hframe⟩
    · have hne : p.2 ≠ vgaWidth := fun heq => hadv (Or.inr heq)
      have hlt : p.2 < vgaWidth := Nat.lt_of_le_of_ne h.2.2 hne
      rw [drawn, if_neg hadv] at hrows ⊢
      have hrow : p.1 < vgaHeight := hrows _ List.mem_cons_self
      have hrow' : t.terminalRow.toNat = p.1 := by
        rw [h.row_toNat]
        exact Nat.mod_eq_of_lt (Nat.lt_trans hrow (by decide))
      have hindex : (cursorIndex t).toNat = p.1 * vgaWidth + p.2 := by
        rw [cursorIndex_toNat (by rw [hrow']; exact hrow) (by rw [h.column_toNat]; exact hlt),
          hrow', h.column_toNat]
      -- later placements lie past the one drawn now
      have hlater : ∀ q ∈ drawn (textCursor p c) text, p.1 * vgaWidth + p.2 < q.index := by
        intro q hq
        have hinc := drawn_increasing text (textCursor p c)
        rw [textCursor, if_neg hadv] at hinc hq
        exact hinc hlt q hq
      rw [h.putch_glyph hc hadv, putchGlyph_onScreen t c (by rw [hrow']; exact hrow), hindex]
        at hdrawn hframe ⊢
      constructor
      · intro q hq
        rcases List.mem_cons.mp hq with rfl | hq
        · show (text.foldl terminalPutch _).cells (p.1 * vgaWidth + p.2) = _
          rw [hframe _ fun q hq => Nat.ne_of_lt (hlater q hq)]
          exact (Function.update_self ..).trans (cellOf_printable (hc.printable hadv) _)
        · exact hdrawn q hq
      · intro i hi
        rw [hframe i fun q hq => hi q (List.mem_cons_of_mem _ hq)]
        exact Function.update_of_ne (hi _ List.mem_cons_self) ..

/-! ## Printing a text that fits the screen -/

/-- **What printing `text` on an empty screen should leave**: one store for every placement of
    the reference layout, in its order; the placements in their cells; every other cell of the
    screen blank. -/
structure LaidOut (color : Uint8) (text : CString) (t : Terminal) : Prop where
  stores : t.stores = (layout (0, 0) text).map (Placement.store color)
  placed : ∀ q ∈ layout (0, 0) text, t.cells q.index = q.value color
  blank : ∀ i < vgaWidth * vgaHeight, (∀ q ∈ layout (0, 0) text, i ≠ q.index) →
    t.cells i = initColor ++ ch ' '

theorem EqualButPorts.stores {t t' : Terminal} (h : EqualButPorts t t') : t.stores = t'.stores := by
  have hfilter : ∀ t : Terminal, t.stores = t.touched.filter Access.isStore := by
    intro t
    rw [Terminal.stores, Terminal.touched, List.filter_filter]
    congr 1
    funext a
    cases a <;> rfl
  rw [hfilter, hfilter, h.touched]

theorem EqualButPorts.laidOut_iff {t t' : Terminal} (h : EqualButPorts t t') (color : Uint8)
    (text : CString) : LaidOut color text t ↔ LaidOut color text t' := by
  constructor
  · rintro ⟨hstores, hplaced, hblank⟩
    exact ⟨h.stores ▸ hstores, h.cells ▸ hplaced, h.cells ▸ hblank⟩
  · rintro ⟨hstores, hplaced, hblank⟩
    exact ⟨h.stores.symm ▸ hstores, h.cells.symm ▸ hplaced, h.cells.symm ▸ hblank⟩

/-- Plain text has no terminator inside. -/
theorem takeWhile_plain {text : CString} (hplain : ∀ c ∈ text, Plain c) :
    text.takeWhile (· ≠ 0) = text :=
  takeWhile_whole fun c hc => (hplain c hc).ne_zero

theorem print_laidOut_guarded (t : Terminal) (text : CString) (hplain : ∀ c ∈ text, Plain c)
    (hfits : ∀ q ∈ layout (0, 0) text, q.row < vgaHeight) :
    LaidOut initColor text (terminalPrint (initializeTerminal t).unobserved text) ↔
      Guarded textCursor Room (0, 0) text := by
  have hat : AtCursor (blanked t (vgaHeight * vgaWidth)).unobserved (0, 0) :=
    atCursor_blanked t (vgaHeight * vgaWidth)
  have hstores := stores_putchs text _ _ hat hplain
  rw [initializeTerminal_eq, terminalPrint_eq, takeWhile_plain hplain,
    (updateCursor_equalButPorts _).laidOut_iff]
  constructor
  · intro h
    have hlen := congrArg List.length (hstores.symm.trans h.stores)
    simp only [Terminal.stores, Terminal.unobserved, List.filter_nil, List.nil_append,
      List.length_map, length_layout] at hlen
    exact guarded_of_length_drawn text _ (Nat.zero_le _) hlen
  · intro hroom
    have hsame := drawn_eq_layout text _ hroom
    obtain ⟨hplaced, hframe⟩ := cells_putchs text _ _ hat hplain (by rw [hsame]; exact hfits)
    rw [hsame] at hstores hplaced hframe
    refine ⟨hstores, hplaced, fun i hi hfree => ?_⟩
    rw [hframe i hfree, ← cellOf_printable (by decide)]
    exact if_pos (by simp only [vgaWidth, vgaHeight] at hi ⊢; omega)

theorem initializeTerminal_color (t : Terminal) :
    (initializeTerminal t).terminalColor = initColor := by
  rw [initializeTerminal_eq]
  rfl

/-- **Wrapping, exactly.**  For every plain text whose layout needs at most 25 rows, printing it
    on the freshly initialized screen lays it out if and only if no line of it is longer than 80
    characters. -/
theorem print_laidOut_iff (t : Terminal) (text : CString) (hplain : ∀ c ∈ text, Plain c)
    (hfits : ∀ q ∈ layout (0, 0) text, q.row < vgaHeight) :
    LaidOut (initializeTerminal t).terminalColor text
        (terminalPrint (initializeTerminal t).unobserved text) ↔
      ∀ line ∈ text.splitOn (ch '\n'), line.length ≤ vgaWidth := by
  rw [initializeTerminal_color, print_laidOut_guarded t text hplain hfits, guarded_wrap_iff]

theorem print_laidOut_greeting :
    LaidOut (initializeTerminal coldTerminal).terminalColor (str "Hello\nWorld")
      (terminalPrint (initializeTerminal coldTerminal).unobserved (str "Hello\nWorld")) :=
  (print_laidOut_iff coldTerminal (str "Hello\nWorld") (by decide) (by decide)).mpr
    ((guarded_wrap_iff _).mp (by decide))

/-- A line of 81 characters. -/
def longLine : CString := List.replicate 81 (ch 'a')

/-- Its layout needs two rows, and its last character is not stored. -/
theorem print_not_laidOut_longLine :
    (∀ c ∈ longLine, Plain c) ∧ (∀ q ∈ layout (0, 0) longLine, q.row < vgaHeight) ∧
      ¬ LaidOut (initializeTerminal coldTerminal).terminalColor longLine
        (terminalPrint (initializeTerminal coldTerminal).unobserved longLine) := by
  have hplain : ∀ c ∈ longLine, Plain c := by decide
  have hfits : ∀ q ∈ layout (0, 0) longLine, q.row < vgaHeight := by decide
  refine ⟨hplain, hfits, fun h => ?_⟩
  rw [initializeTerminal_color] at h
  have hroom := (print_laidOut_guarded coldTerminal longLine hplain hfits).mp h
  exact absurd ((guarded_wrap_iff longLine).mp hroom longLine) (by
    rw [List.splitOn_eq_singleton (by decide)]
    decide)

end FreeMicroNix
