/-
  Which cells the terminal touches.

  `Terminal_Scroll` copies 25 rows, not 24, and `Terminal_Putch` leaves `terminal_row` where it is
  after scrolling.  So the first glyph that arrives below the last row reads the row past the
  screen and is itself stored there, as is everything after it: the terminal stays inside its
  2000 cells exactly as long as no glyph arrives with 25 or more rows already advanced.

  `run_inScreen_iff` is that statement for every sequence of output calls.  The guard is read in
  the cursor of the TEXT (`Video.Text`), not in the terminal.
-/
import FreeMicroNix.Video.Text

namespace FreeMicroNix

open CountedLoop Run

/-! ## The accesses allowed -/

/-- The access stays on the screen: characters go to a row below `VGA_HEIGHT` and a cell below
    `VGA_WIDTH * VGA_HEIGHT`, scrolling loads and stores only such cells. -/
def Access.InScreen : Access → Prop
  | .store _ y index _ _ => y.toNat < vgaHeight ∧ index.toNat < vgaWidth * vgaHeight
  | .scrollLoad index => index < vgaWidth * vgaHeight
  | .scrollStore index => index < vgaWidth * vgaHeight
  | .decrement _ => True
  | .out _ _ => True

/-- Every access so far stayed on the screen. -/
def InScreen (t : Terminal) : Prop := ∀ a ∈ t.log, a.InScreen

theorem LogExtends.inScreen {t t' : Terminal} (h : LogExtends t t') (hsafe : InScreen t') :
    InScreen t := fun a ha => hsafe a (h.subset ha)

/-- Port writes do not count. -/
theorem EqualButPorts.inScreen_iff {t t' : Terminal} (h : EqualButPorts t t') :
    InScreen t ↔ InScreen t' := by
  have hport : ∀ a : Access, a.isPort = true → a.InScreen := by
    intro a ha
    cases a <;> first | exact absurd ha (by decide) | trivial
  rw [InScreen, InScreen, t.forall_log_iff hport, t'.forall_log_iff hport, h.touched]

/-- Initialization touches each cell of the screen once and no other. -/
theorem blanked_inScreen {t : Terminal} (hlog : t.log = []) :
    InScreen (blanked t (vgaHeight * vgaWidth)) := by
  intro a ha
  have ha : a ∈ (List.range (vgaHeight * vgaWidth)).map initStore := by
    simpa only [blanked, hlog, List.nil_append] using ha
  obtain ⟨i, hi, rfl⟩ := List.mem_map.mp ha
  have hi : i < 2000 := List.mem_range.mp hi
  have hindex : (BitVec.ofNat 32 i).toNat = i := by
    rw [BitVec.toNat_ofNat]
    omega
  have hrow : (BitVec.ofNat 32 (i / vgaWidth)).toNat < vgaHeight := by
    simp only [BitVec.toNat_ofNat, vgaWidth, vgaHeight]
    omega
  exact ⟨hrow, by rw [hindex]; exact hi⟩

/-! ## One character -/

/-- A glyph may be drawn: fewer than 25 rows advanced, modulo `2 ^ 32`. -/
def RowOnScreen (p : Nat × Nat) (c : CChar) : Prop :=
  Advances p c ∨ p.1 % 2 ^ 32 < vgaHeight

instance (p : Nat × Nat) (c : CChar) : Decidable (RowOnScreen p c) :=
  inferInstanceAs (Decidable (_ ∨ _))

/-- With the row on the screen a glyph is stored on the screen. -/
theorem glyphStore_inScreen {t : Terminal} (c : CChar) (hrow : t.terminalRow.toNat < vgaHeight)
    (hcol : t.terminalColumn.toNat < vgaWidth) : (glyphStore t c).InScreen := by
  refine ⟨hrow, ?_⟩
  rw [cursorIndex_toNat hrow hcol]
  simp only [vgaWidth, vgaHeight] at hrow hcol ⊢
  omega

/-- **The step.**  A plain character keeps the accesses on the screen exactly when it advances or
    meets a row on the screen. -/
theorem putch_inScreen_iff {t : Terminal} {p : Nat × Nat} {c : CChar} (hc : Plain c)
    (h : AtCursor t p) : InScreen (terminalPutch t c) ↔ InScreen t ∧ RowOnScreen p c := by
  by_cases hadv : Advances p c
  · rw [h.putch_advance hadv]
    exact ⟨fun hsafe => ⟨hsafe, Or.inl hadv⟩, fun hsafe => hsafe.1⟩
  · have hcol : t.terminalColumn.toNat < vgaWidth := by
      rw [h.column_toNat]
      exact Nat.lt_of_le_of_ne h.2.2 fun heq => hadv (Or.inr heq)
    rw [h.putch_glyph hc hadv]
    constructor
    · intro hsafe
      refine ⟨(putchGlyph_extends t c).inScreen hsafe, Or.inr ?_⟩
      -- the glyph's own store tells its row
      obtain ⟨scrolled, hlog, -⟩ := putchGlyph_log t c
      have hstore := hsafe (glyphStore t c) (by rw [hlog]; simp)
      rw [← h.row_toNat]
      exact hstore.1
    · rintro ⟨hsafe, hrow⟩
      have hrow : t.terminalRow.toNat < vgaHeight := by
        rw [h.row_toNat]
        exact hrow.resolve_left hadv
      rw [putchGlyph_onScreen t c hrow]
      intro a ha
      rcases List.mem_append.mp ha with ha | ha
      · exact hsafe a ha
      · rw [List.mem_singleton.mp ha]
        exact glyphStore_inScreen c hrow hcol

/-! ## Every sequence of output calls -/

/-- A text that fits the screen: every glyph meets a row on it. -/
def FitsScreen (text : CString) : Prop := Guarded textCursor RowOnScreen (0, 0) text

instance (text : CString) : Decidable (FitsScreen text) :=
  inferInstanceAs (Decidable (Guarded _ _ _ _))

/-- **Exactness over calls.**  However the output is cut into calls, the accesses stay on the
    screen exactly when its text fits. -/
theorem run_inScreen_iff (t : Terminal) (calls : List OutputCall)
    (hplain : ∀ call ∈ calls, ∀ c ∈ call.text, Plain c) :
    InScreen (calls.foldl OutputCall.run (initializeTerminal t.unobserved)) ↔
      FitsScreen (calls.flatMap OutputCall.text) := by
  have htext := foldl_iff_guarded (f := terminalPutch) (R := AtCursor) (A := Plain)
    (Q := InScreen) (fun t p c hc h _ => h.putch hc) (fun t p c hc h => putch_inScreen_iff hc h)
    (fun t c => (putch_extends t c).inScreen)
  have hcalls := foldl_iff_guarded (f := OutputCall.run) (R := AtCursor) (Q := InScreen)
    (A := fun call => ∀ c ∈ call.text, Plain c)
    (g := fun p call => call.text.foldl textCursor p)
    (C := fun p call => Guarded textCursor RowOnScreen p call.text) ?_ ?_ ?_
    (initializeTerminal t.unobserved) (0, 0) calls hplain
  · rw [FitsScreen, guarded_flatMap, hcalls]
    · rw [initializeTerminal_eq]
      exact and_iff_right (blanked_inScreen rfl)
    · rw [initializeTerminal_eq]
      exact atCursor_blanked _ _
  · -- a call leaves the cursor of its text
    intro t p call hcall h _
    obtain ⟨hrow, hcol, hle⟩ := h.putchs hcall
    have hrun := call.run_eq_text t
    exact ⟨hrun.row.trans hrow, hrun.column.trans hcol, hle⟩
  · intro t p call hcall h
    rw [(call.run_eq_text t).inScreen_iff]
    exact htext t p call.text hcall h
  · intro t call hsafe
    exact foldl_past (fun t c => (putch_extends t c).inScreen) t call.text
      ((call.run_eq_text t).inScreen_iff.mp hsafe)

/-- **Memory safety of the terminal, exactly.**  From any state, after `Initialize_Terminal` and
    any sequence of output calls over plain text, every character stored and every cell scrolled
    was on the screen if and only if no printable character arrived with 25 or more rows already
    advanced (the rows counted modulo `2 ^ 32`, as `terminal_row` is). -/
theorem terminal_memory_safe_iff (t : Terminal) (calls : List OutputCall)
    (hplain : ∀ call ∈ calls, ∀ c ∈ call.text, Plain c) :
    (∀ a ∈ (calls.foldl OutputCall.run (initializeTerminal t.unobserved)).log, a.InScreen) ↔
      FitsScreen (calls.flatMap OutputCall.text) :=
  run_inScreen_iff t calls hplain

theorem terminal_memory_safe_hello :
    FitsScreen (str "Hello\n") ∧
      ∀ a ∈ ([OutputCall.println (str "Hello")].foldl OutputCall.run
        (initializeTerminal coldTerminal.unobserved)).log, a.InScreen :=
  ⟨by decide,
    (terminal_memory_safe_iff coldTerminal [.println (str "Hello")] (by decide)).mpr (by decide)⟩

/-- Twenty-five newlines and a letter. -/
def rowOverflow : List OutputCall := List.replicate 25 .newline ++ [.putch (ch 'a')]

/-- The scroll before the letter loads cells past the screen and the letter is stored there. -/
theorem terminal_memory_unsafe_on_row_25 :
    (∀ call ∈ rowOverflow, ∀ c ∈ call.text, Plain c) ∧
      ¬ ∀ a ∈ (rowOverflow.foldl OutputCall.run (initializeTerminal coldTerminal.unobserved)).log,
        a.InScreen := by
  have hplain : ∀ call ∈ rowOverflow, ∀ c ∈ call.text, Plain c := by decide
  refine ⟨hplain, fun hsafe => ?_⟩
  exact absurd ((run_inScreen_iff coldTerminal _ hplain).mp hsafe) (by decide)

end FreeMicroNix
