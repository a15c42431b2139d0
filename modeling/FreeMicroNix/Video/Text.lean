/-
  Plain text on the terminal: the cursor as a function of the text printed so far.

  Over the alphabet of printable characters and newlines the code's cursor is a pure function of
  the output: `textCursor` counts the rows advanced and the columns filled, without wrapping and
  without a screen.  `AtCursor t p` ties a terminal to such a position — the row only modulo
  `2 ^ 32`, as the code's counter is a `uint32_t` — and `putch_plain` is the one step lemma: a
  plain character either advances to the next row or is stored as a glyph, and in both cases the
  tie survives.

  The last section is the calls a client makes, each as the text it sends to `Terminal_Putch`.
-/
import FreeMicroNix.Lib.Run
import FreeMicroNix.Video.Putch

namespace FreeMicroNix

open CountedLoop Run

/-! ## The cursor of a text -/

/-- The characters that only move to the next row: a newline, and whatever arrives when the row
    already holds 80 characters. -/
def Advances (p : Nat × Nat) (c : CChar) : Prop := c = ch '\n' ∨ p.2 = vgaWidth

instance (p : Nat × Nat) (c : CChar) : Decidable (Advances p c) :=
  inferInstanceAs (Decidable (_ ∨ _))

/-- Rows advanced and columns filled after one more plain character. -/
def textCursor (p : Nat × Nat) (c : CChar) : Nat × Nat :=
  if Advances p c then (p.1 + 1, 0) else (p.1, p.2 + 1)

/-- The terminal stands at row `p.1` (modulo `2 ^ 32`) and column `p.2`. -/
def AtCursor (t : Terminal) (p : Nat × Nat) : Prop :=
  t.terminalRow = BitVec.ofNat 32 p.1 ∧ t.terminalColumn = BitVec.ofNat 32 p.2 ∧ p.2 ≤ vgaWidth

section Step

variable {t : Terminal} {p : Nat × Nat} {c : CChar}

theorem AtCursor.row_toNat (h : AtCursor t p) : t.terminalRow.toNat = p.1 % 2 ^ 32 := by
  rw [h.1, BitVec.toNat_ofNat]

theorem AtCursor.column_toNat (h : AtCursor t p) : t.terminalColumn.toNat = p.2 := by
  rw [h.2.1, BitVec.toNat_ofNat]
  exact Nat.mod_eq_of_lt (Nat.lt_of_le_of_lt h.2.2 (by decide))

theorem AtCursor.column_eq_width_iff (h : AtCursor t p) :
    t.terminalColumn = BitVec.ofNat 32 vgaWidth ↔ p.2 = vgaWidth := by
  constructor
  · intro heq
    rw [← h.column_toNat, heq]
    rfl
  · intro heq
    rw [h.2.1, heq]

/-- A character that advances. -/
theorem AtCursor.putch_advance (h : AtCursor t p) (hadv : Advances p c) :
    terminalPutch t c = { t with terminalColumn := 0, terminalRow := t.terminalRow + 1 } :=
  FreeMicroNix.putch_advance t c (hadv.imp_right h.column_eq_width_iff.mpr)

/-- A printable character that does not is stored. -/
theorem AtCursor.putch_glyph (h : AtCursor t p) (hc : Plain c) (hadv : ¬ Advances p c) :
    terminalPutch t c = putchGlyph t c := by
  have hcol : t.terminalColumn ≠ BitVec.ofNat 32 vgaWidth :=
    fun heq => hadv (Or.inr (h.column_eq_width_iff.mp heq))
  rcases hc with hc | hc
  · exact putch_ordinary t c hc.ordinary hcol
  · exact absurd (Or.inl hc) hadv

/-- A plain character keeps the terminal at the cursor of its text. -/
theorem AtCursor.putch (h : AtCursor t p) (hc : Plain c) :
    AtCursor (terminalPutch t c) (textCursor p c) := by
  obtain ⟨hrow, hcol, hle⟩ := h
  by_cases hadv : Advances p c
  · rw [AtCursor.putch_advance ⟨hrow, hcol, hle⟩ hadv, textCursor, if_pos hadv]
    refine ⟨?_, rfl, Nat.zero_le _⟩
    show t.terminalRow + 1 = BitVec.ofNat 32 (p.1 + 1)
    rw [hrow, BitVec.ofNat_add]
    rfl
  · rw [AtCursor.putch_glyph ⟨hrow, hcol, hle⟩ hc hadv, textCursor, if_neg hadv]
    have hlt : p.2 ≠ vgaWidth := fun heq => hadv (Or.inr heq)
    refine ⟨by rw [putchGlyph_row, hrow], ?_, Nat.lt_of_le_of_ne hle hlt⟩
    rw [putchGlyph_column, hcol, BitVec.ofNat_add]
    rfl

/-- A whole text does. -/
theorem AtCursor.putchs {text : CString} (h : AtCursor t p) (hplain : ∀ c ∈ text, Plain c) :
    AtCursor (text.foldl terminalPutch t) (text.foldl textCursor p) :=
  foldl_related (C := fun _ _ => True) (fun _ _ _ hc h _ => h.putch hc) t p text hplain h
    ((guarded_iff_split _ _ p text).mpr fun _ _ _ _ => trivial)

/-- No plain character changes the attribute. -/
theorem AtCursor.putchs_color {text : CString} (h : AtCursor t p) (hplain : ∀ c ∈ text, Plain c) :
    (text.foldl terminalPutch t).terminalColor = t.terminalColor := by
  induction text generalizing t p with
  | nil => rfl
  | cons c text ih =>
    have hc := hplain c List.mem_cons_self
    rw [List.foldl_cons, ih (h.putch hc) fun d hd => hplain d (List.mem_cons_of_mem c hd)]
    by_cases hadv : Advances p c
    · rw [h.putch_advance hadv]
    · rw [h.putch_glyph hc hadv, putchGlyph_color]

end Step

/-- The terminal after initialization stands in the corner. -/
theorem atCursor_blanked (t : Terminal) (n : Nat) : AtCursor (blanked t n) (0, 0) :=
  ⟨rfl, rfl, Nat.zero_le _⟩

/-! ## Accesses only accumulate -/

/-- A port write, as opposed to an access to a cell or to the column. -/
def Access.isPort : Access → Bool
  | .out _ _ => true
  | _ => false

/-- The accesses of `t` are the first of those of `t'`. -/
def LogExtends (t t' : Terminal) : Prop := t.log <+: t'.log

/-- From `t` to `t'` accesses are added, and none of them writes a port. -/
def Quiet (t t' : Terminal) : Prop :=
  ∃ added, t'.log = t.log ++ added ∧ ∀ a ∈ added, a.isPort = false

namespace Quiet

variable {t t' t'' : Terminal}

theorem of_log_eq (h : t'.log = t.log) : Quiet t t' :=
  ⟨[], by rw [h, List.append_nil], fun _ ha => absurd ha List.not_mem_nil⟩

theorem trans (h : Quiet t t') (h' : Quiet t' t'') : Quiet t t'' := by
  obtain ⟨added, hlog, hadded⟩ := h
  obtain ⟨added', hlog', hadded'⟩ := h'
  refine ⟨added ++ added', by rw [hlog', hlog, List.append_assoc], fun a ha => ?_⟩
  rcases List.mem_append.mp ha with ha | ha
  · exact hadded a ha
  · exact hadded' a ha

theorem logExtends (h : Quiet t t') : LogExtends t t' := by
  obtain ⟨added, hlog, -⟩ := h
  exact ⟨added, hlog.symm⟩

end Quiet

theorem decrementColumn_quiet (t : Terminal) : Quiet t t.decrementColumn :=
  ⟨_, rfl, by simp [Access.isPort]⟩

theorem putchGlyph_quiet (t : Terminal) (c : CChar) : Quiet t (putchGlyph t c) := by
  obtain ⟨scrolled, hlog, hscrolled⟩ := putchGlyph_log t c
  refine ⟨scrolled ++ [glyphStore t c], by rw [hlog, List.append_assoc], fun a ha => ?_⟩
  rcases List.mem_append.mp ha with ha | ha
  · rcases hscrolled with h | h
    · exact absurd (h ▸ ha) List.not_mem_nil
    · obtain ⟨i, -, ha⟩ := List.mem_flatMap.mp (h ▸ ha)
      rcases List.mem_pair.mp ha with rfl | rfl <;> rfl
  · rw [List.mem_singleton.mp ha]
    rfl

/-- An ordinary character in any column. -/
theorem putch_ordinary_quiet (t : Terminal) {c : CChar} (hc : Ordinary c) :
    Quiet t (terminalPutch t c) := by
  by_cases hcol : t.terminalColumn = BitVec.ofNat 32 vgaWidth
  · rw [putch_advance t c (Or.inr hcol)]
    exact .of_log_eq rfl
  · rw [putch_ordinary t c hc hcol]
    exact putchGlyph_quiet t c

theorem backspace_quiet (t : Terminal) : Quiet t (terminalBackspace t) := by
  by_cases h : t.terminalColumn = 0
  · rw [backspace_zero t h]
    exact .of_log_eq rfl
  · rw [backspace_pos t (by bv_omega)]
    -- the space in between is printed through `Terminal_Putch`
    have hspace : Ordinary (ch ' ') := Printable.ordinary (by decide)
    exact ((decrementColumn_quiet t).trans (putch_ordinary_quiet _ hspace)).trans
      (decrementColumn_quiet _)

theorem putch_quiet (t : Terminal) (c : CChar) : Quiet t (terminalPutch t c) := by
  by_cases hadv : c = ch '\n' ∨ t.terminalColumn = BitVec.ofNat 32 vgaWidth
  · rw [putch_advance t c hadv]
    exact .of_log_eq rfl
  · obtain ⟨hnl, hcol⟩ := not_or.mp hadv
    rcases char_cases c with rfl | rfl | rfl | rfl | hc
    · exact absurd rfl hnl
    · have hstored := putchGlyph_quiet
        { t with terminalColumn := (t.terminalColumn + 8) &&& ~~~(8 - 1) } (ch '\t')
      rw [putch_tab t hcol]
      exact hstored
    · rw [putch_backspace t hcol]
      exact (backspace_quiet t).trans (putchGlyph_quiet _ _)
    · have hstored := putchGlyph_quiet { t with terminalRow := 0 } (ch '\r')
      rw [putch_return t hcol]
      exact hstored
    · exact putch_ordinary_quiet t hc

theorem putchGlyph_extends (t : Terminal) (c : CChar) : LogExtends t (putchGlyph t c) :=
  (putchGlyph_quiet t c).logExtends

theorem backspace_extends (t : Terminal) : LogExtends t (terminalBackspace t) :=
  (backspace_quiet t).logExtends

theorem putch_extends (t : Terminal) (c : CChar) : LogExtends t (terminalPutch t c) :=
  (putch_quiet t c).logExtends

/-! ## Terminals that differ by port writes -/

/-- The accesses to cells and to the column so far. -/
def Terminal.touched (t : Terminal) : List Access := t.log.filter fun a => !a.isPort

/-- What holds of port writes may be checked on the rest. -/
theorem Terminal.forall_log_iff (t : Terminal) {P : Access → Prop}
    (hport : ∀ a : Access, a.isPort = true → P a) : (∀ a ∈ t.log, P a) ↔ ∀ a ∈ t.touched, P a := by
  constructor
  · intro h a ha
    exact h a (List.mem_of_mem_filter ha)
  · intro h a ha
    cases hp : a.isPort with
    | true => exact hport a hp
    | false => exact h a (List.mem_filter.mpr ⟨ha, by rw [hp]; rfl⟩)

/-- Equal terminals, up to the ports written. -/
structure EqualButPorts (t t' : Terminal) : Prop where
  row : t.terminalRow = t'.terminalRow
  column : t.terminalColumn = t'.terminalColumn
  color : t.terminalColor = t'.terminalColor
  cells : t.cells = t'.cells
  touched : t.touched = t'.touched

theorem EqualButPorts.refl (t : Terminal) : EqualButPorts t t := ⟨rfl, rfl, rfl, rfl, rfl⟩

theorem updateCursor_equalButPorts (t : Terminal) : EqualButPorts (terminalUpdateCursor t) t := by
  refine ⟨rfl, rfl, rfl, rfl, ?_⟩
  obtain ⟨outs, hlog, houts⟩ := updateCursor_log t
  have hnone : outs.filter (fun a => !a.isPort) = [] := by
    refine List.filter_eq_nil_iff.mpr fun a ha => ?_
    obtain ⟨port, value, rfl⟩ := houts a ha
    simp [Access.isPort]
  rw [Terminal.touched, hlog, List.filter_append, hnone, List.append_nil]
  rfl

/-! ## The calls of a client -/

/-- What a client calls after `Initialize_Terminal` to print.  `kprintfS` is
    `kprintf("%s", …)` with the words `arg` on the stack. -/
inductive OutputCall where
  | putch (c : CChar)
  | print (s : CString)
  | println (s : CString)
  | newline
  | kprintfS (strAt : Uint32 → CString) (arg : Nat → Uint32)

namespace OutputCall

/-- One call on the terminal. -/
def run (t : Terminal) : OutputCall → Terminal
  | putch c => terminalPutch t c
  | print s => terminalPrint t s
  | println s => terminalPrintln t s
  | newline => terminalNewline t
  | kprintfS strAt arg => kprintf t strAt (FreeMicroNix.str "%s") arg

/-- The characters a call sends to `Terminal_Putch`. -/
def text : OutputCall → CString
  | putch c => [c]
  | print s => s.takeWhile (· ≠ 0)
  | println s => s.takeWhile (· ≠ 0) ++ [ch '\n']
  | newline => [ch '\n']
  | kprintfS strAt arg =>
      (if arg 0 = 0 then FreeMicroNix.str "(null)" else strAt (arg 0)).takeWhile (· ≠ 0)

end OutputCall

/-- `kprintf("%s", p)` prints the string and updates the cursor once more. -/
theorem kprintf_s (t : Terminal) (strAt : Uint32 → CString) (arg : Nat → Uint32) :
    kprintf t strAt (str "%s") arg =
      terminalUpdateCursor (terminalPrint t (if arg 0 = 0 then str "(null)" else strAt (arg 0))) :=
  rfl

/-- A call is its text, character by character, up to port writes. -/
theorem OutputCall.run_eq_text (call : OutputCall) (t : Terminal) :
    EqualButPorts (call.run t) (call.text.foldl terminalPutch t) := by
  cases call with
  | putch c => exact .refl _
  | newline => exact .refl _
  | print s =>
    simp only [run, text, terminalPrint_eq]
    exact updateCursor_equalButPorts _
  | println s =>
    -- the newline after the cursor update moves the same row and column
    have hnewline := fun t => putch_advance t (ch '\n') (Or.inl rfl)
    simp only [run, text, terminalPrintln, terminalPrint_eq, List.foldl_append, List.foldl_cons,
      List.foldl_nil, hnewline]
    obtain ⟨hrow, -, hcolor, hcells, htouched⟩ :=
      updateCursor_equalButPorts ((s.takeWhile (· ≠ 0)).foldl terminalPutch t)
    exact ⟨by rw [hrow], rfl, hcolor, hcells, htouched⟩
  | kprintfS strAt arg =>
    simp only [run, text, kprintf_s, terminalPrint_eq]
    generalize (List.takeWhile _ _).foldl terminalPutch t = t'
    obtain ⟨hrow, hcol, hcolor, hcells, htouched⟩ :=
      updateCursor_equalButPorts (terminalUpdateCursor t')
    exact ⟨hrow, hcol, hcolor, hcells,
      htouched.trans (updateCursor_equalButPorts t').touched⟩

end FreeMicroNix
