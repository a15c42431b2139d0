/-
  The column register.

  The wrap test of `Terminal_Putch` is an equality with 80, so the column has to be kept at or
  below 80 by everything else.  A tab rounds the column up and then, its branch not returning, is
  stored like a letter: from columns 72 to 79 it is stored in column 80 and leaves column 81.
  From there the test never fires again, and a backspace at 81 prints its space into the wrap
  branch and decrements a column of 0.

  No other operation leaves the 81 columns 0..80, so the invariant holds in every reachable state
  exactly when no tab arrives in columns 72..79 (`column_invariant_iff`).  The column is tracked
  by `columnAfter`, a pure function of the characters and backspaces sent.
-/
import FreeMicroNix.Video.Text

namespace FreeMicroNix

open CountedLoop Run

/-! ## The column as a function of what is sent -/

/-- What moves the column: a character through `Terminal_Putch`, a call of
    `Terminal_Backspace`. -/
inductive ColumnEvent where
  | char (c : CChar)
  | backspace

/-- The column after one more event.  A backspace CHARACTER moves left and is then stored, so it
    ends where it started (and moves right from column 0). -/
def columnAfter (k : Nat) : ColumnEvent → Nat
  | .backspace => k - 1
  | .char c =>
      if c = ch '\n' ∨ k = vgaWidth then 0
      else if c = ch '\t' then (k + 8) / 8 * 8 + 1
      else if c = ch '\x08' then k - 1 + 1
      else k + 1

/-- A tab may be printed: not in columns 72..79. -/
def TabRoom (k : Nat) : ColumnEvent → Prop
  | .backspace => True
  | .char c => c = ch '\t' → k < 72 ∨ k = vgaWidth

instance (k : Nat) : (e : ColumnEvent) → Decidable (TabRoom k e)
  | .backspace => inferInstanceAs (Decidable True)
  | .char c => inferInstanceAs (Decidable (c = ch '\t' → _))

/-- One event on the terminal. -/
def columnStep (t : Terminal) : ColumnEvent → Terminal
  | .char c => terminalPutch t c
  | .backspace => terminalBackspace t

/-- The column register holds `k`, at most 80. -/
def AtColumn (t : Terminal) (k : Nat) : Prop :=
  t.terminalColumn = BitVec.ofNat 32 k ∧ k ≤ vgaWidth

theorem AtColumn.toNat {t : Terminal} {k : Nat} (h : AtColumn t k) :
    t.terminalColumn.toNat = k := by
  rw [h.1, BitVec.toNat_ofNat]
  exact Nat.mod_eq_of_lt (Nat.lt_of_le_of_lt h.2 (by decide))

theorem AtColumn.eq_width_iff {t : Terminal} {k : Nat} (h : AtColumn t k) :
    t.terminalColumn = BitVec.ofNat 32 vgaWidth ↔ k = vgaWidth := by
  constructor
  · intro heq
    rw [← h.toNat, heq]
    rfl
  · intro heq
    rw [h.1, heq]

/-! ## The accesses allowed -/

/-- Characters go to a column below `VGA_WIDTH`, and no column of 0 is decremented. -/
def Access.InColumns : Access → Prop
  | .store x _ _ _ _ => x.toNat < vgaWidth
  | .decrement column => column ≠ 0
  | .scrollLoad _ => True
  | .scrollStore _ => True
  | .out _ _ => True

/-- Every access so far stayed in the columns. -/
def InColumns (t : Terminal) : Prop := ∀ a ∈ t.log, a.InColumns

theorem LogExtends.inColumns {t t' : Terminal} (h : LogExtends t t') (hsafe : InColumns t') :
    InColumns t := fun a ha => hsafe a (h.subset ha)

theorem decrementColumn_inColumns_iff (t : Terminal) :
    InColumns t.decrementColumn ↔ InColumns t ∧ t.terminalColumn ≠ 0 := by
  simp only [InColumns, Terminal.decrementColumn_log, List.forall_mem_append,
    List.forall_mem_singleton]
  rfl

/-- Initialization stores in every column of the screen and in no other. -/
theorem blanked_inColumns {t : Terminal} (hlog : t.log = []) :
    InColumns (blanked t (vgaHeight * vgaWidth)) := by
  intro a ha
  have ha : a ∈ (List.range (vgaHeight * vgaWidth)).map initStore := by
    simpa only [blanked, hlog, List.nil_append] using ha
  obtain ⟨i, -, rfl⟩ := List.mem_map.mp ha
  show (BitVec.ofNat 32 (i % vgaWidth)).toNat < vgaWidth
  simp only [BitVec.toNat_ofNat, vgaWidth]
  omega

/-- A scroll touches no column of its own: a glyph is right exactly when its column is. -/
theorem putchGlyph_inColumns_iff (t : Terminal) (c : CChar) :
    InColumns (putchGlyph t c) ↔ InColumns t ∧ t.terminalColumn.toNat < vgaWidth :=
  putchGlyph_forall_log_iff t c (fun _ => trivial) fun _ => trivial

/-! ## One event -/

/-- Rounding up to the next multiple of 8, in the 80 columns. -/
theorem tab_column : ∀ k < vgaWidth,
    (BitVec.ofNat 32 k + 8) &&& ~~~(8 - 1) = BitVec.ofNat 32 ((k + 8) / 8 * 8) := by
  decide

/-- `Terminal_Backspace` away from column 0: its space is stored one column to the left. -/
theorem AtColumn.backspace {t : Terminal} {k : Nat} (h : AtColumn t (k + 1)) :
    AtColumn (terminalBackspace t) k ∧
      (InColumns (terminalBackspace t) ↔ InColumns t) := by
  have hle : k + 1 ≤ 80 := h.2
  have hcol : t.terminalColumn = BitVec.ofNat 32 k + 1 := by
    rw [h.1, BitVec.ofNat_add]
    rfl
  have hleft : t.decrementColumn.terminalColumn = BitVec.ofNat 32 k := by
    rw [Terminal.decrementColumn_column, hcol, BitVec.add_sub_cancel]
  have hlt : (BitVec.ofNat 32 k).toNat < vgaWidth := by
    simp only [BitVec.toNat_ofNat, vgaWidth]
    omega
  have hnot : t.decrementColumn.terminalColumn ≠ BitVec.ofNat 32 vgaWidth := by
    rw [hleft]
    intro heq
    rw [heq] at hlt
    exact absurd hlt (by decide)
  have hpos : t.terminalColumn ≠ 0 := by
    rw [hcol]
    simp only [vgaWidth] at hlt
    bv_omega
  have hspace : Ordinary (ch ' ') := Printable.ordinary (by decide)
  rw [backspace_pos t (by bv_omega), putch_ordinary _ _ hspace hnot]
  refine ⟨⟨?_, Nat.le_of_succ_le h.2⟩, ?_⟩
  · rw [Terminal.decrementColumn_column, putchGlyph_column, hleft, BitVec.add_sub_cancel]
  · rw [decrementColumn_inColumns_iff, putchGlyph_inColumns_iff, decrementColumn_inColumns_iff,
      putchGlyph_column, hleft]
    refine ⟨fun h => h.1.1.1, fun h => ⟨⟨⟨h, hpos⟩, hlt⟩, ?_⟩⟩
    rw [← hcol]
    exact hpos

/-- A glyph in columns 0..79. -/
theorem AtColumn.glyph {t : Terminal} {k : Nat} (h : AtColumn t k) (hlt : k < vgaWidth)
    (c : CChar) :
    AtColumn (putchGlyph t c) (k + 1) ∧ (InColumns (putchGlyph t c) ↔ InColumns t) := by
  refine ⟨⟨?_, hlt⟩, ?_⟩
  · rw [putchGlyph_column, h.1, BitVec.ofNat_add]
    rfl
  · rw [putchGlyph_inColumns_iff, h.toNat]
    exact and_iff_left hlt

/-- The tab, stored at the column rounded up — which is 80 from column 72 on. -/
theorem AtColumn.tab {t : Terminal} {k : Nat} (h : AtColumn t k) (hlt : k < vgaWidth) :
    (InColumns (terminalPutch t (ch '\t')) ↔ InColumns t ∧ TabRoom k (.char (ch '\t'))) ∧
      (TabRoom k (.char (ch '\t')) →
        AtColumn (terminalPutch t (ch '\t')) ((k + 8) / 8 * 8 + 1)) := by
  have hcol : t.terminalColumn ≠ BitVec.ofNat 32 vgaWidth := fun heq =>
    Nat.ne_of_lt hlt (h.eq_width_iff.mp heq)
  have hroom : TabRoom k (.char (ch '\t')) ↔ (k + 8) / 8 * 8 < vgaWidth := by
    simp only [TabRoom, vgaWidth] at hlt ⊢
    constructor
    · intro h
      have := h trivial
      omega
    · intro h _
      omega
  have hround : AtColumn { t with terminalColumn := (t.terminalColumn + 8) &&& ~~~(8 - 1) }
      ((k + 8) / 8 * 8) := by
    refine ⟨?_, by simp only [vgaWidth] at hlt ⊢; omega⟩
    rw [← tab_column k hlt, h.1]
  have hsafe := putchGlyph_inColumns_iff
    { t with terminalColumn := (t.terminalColumn + 8) &&& ~~~(8 - 1) } (ch '\t')
  rw [hround.toNat, ← hroom] at hsafe
  rw [putch_tab t hcol]
  exact ⟨hsafe, fun hfits => (hround.glyph (hroom.mp hfits) _).1⟩

/-- **The step.**  From columns 0..80 an event keeps the accesses in the columns exactly when it
    is not a tab in columns 72..79, and then the register follows `columnAfter`. -/
theorem columnStep_spec {t : Terminal} {k : Nat} (h : AtColumn t k) (e : ColumnEvent) :
    (InColumns (columnStep t e) ↔ InColumns t ∧ TabRoom k e) ∧
      (TabRoom k e → AtColumn (columnStep t e) (columnAfter k e)) := by
  cases e with
  | backspace =>
    cases k with
    | zero =>
      have hsame : columnStep t .backspace = t := backspace_zero t h.1
      rw [hsame]
      exact ⟨⟨fun h => ⟨h, trivial⟩, fun h => h.1⟩, fun _ => h⟩
    | succ k => exact ⟨h.backspace.2.trans (and_iff_left trivial).symm, fun _ => h.backspace.1⟩
  | char c =>
    by_cases hadv : c = ch '\n' ∨ k = vgaWidth
    · have hstep : columnStep t (.char c) = _ :=
        putch_advance t c (hadv.imp_right h.eq_width_iff.mpr)
      have hroom : TabRoom k (.char c) :=
        fun htab => Or.inr (hadv.resolve_left (by rw [htab]; decide))
      rw [hstep, columnAfter, if_pos hadv]
      exact ⟨⟨fun h => ⟨h, hroom⟩, fun h => h.1⟩, fun _ => ⟨rfl, Nat.zero_le _⟩⟩
    · obtain ⟨hnl, hne⟩ := not_or.mp hadv
      have hlt : k < vgaWidth := Nat.lt_of_le_of_ne h.2 hne
      have hcol : t.terminalColumn ≠ BitVec.ofNat 32 vgaWidth := fun heq =>
        hne (h.eq_width_iff.mp heq)
      simp only [columnAfter, if_neg hadv]
      rcases char_cases c with rfl | rfl | rfl | rfl | hc
      · exact absurd rfl hnl
      · exact h.tab hlt
      · -- the backspace character: one column left, where it is then stored
        have hroom : TabRoom k (.char (ch '\x08')) := fun htab => absurd htab (by decide)
        have hstep : columnStep t (.char (ch '\x08')) = _ := putch_backspace t hcol
        rw [hstep, if_neg (by decide), if_pos rfl]
        cases k with
        | zero =>
          obtain ⟨hat, hsafe⟩ := h.glyph hlt (ch '\x08')
          rw [backspace_zero t h.1]
          exact ⟨hsafe.trans (and_iff_left hroom).symm, fun _ => hat⟩
        | succ k =>
          obtain ⟨hat, hsafe⟩ := h.backspace
          obtain ⟨hat', hsafe'⟩ := hat.glyph (Nat.lt_of_succ_lt hlt) (ch '\x08')
          exact ⟨(hsafe'.trans hsafe).trans (and_iff_left hroom).symm, fun _ => hat'⟩
      · have hroom : TabRoom k (.char (ch '\r')) := fun htab => absurd htab (by decide)
        have hstep : columnStep t (.char (ch '\r')) = _ := putch_return t hcol
        have htop : AtColumn { t with terminalRow := 0 } k := h
        obtain ⟨hat, hsafe⟩ := htop.glyph hlt (ch '\r')
        rw [hstep, if_neg (by decide), if_neg (by decide)]
        exact ⟨hsafe.trans (and_iff_left hroom).symm, fun _ => hat⟩
      · have hroom : TabRoom k (.char c) := fun htab => absurd htab hc.2.1
        have hstep : columnStep t (.char c) = _ := putch_ordinary t c hc hcol
        obtain ⟨hat, hsafe⟩ := h.glyph hlt c
        rw [hstep, if_neg hc.2.1, if_neg hc.2.2.1]
        exact ⟨hsafe.trans (and_iff_left hroom).symm, fun _ => hat⟩

/-! ## Every sequence of calls -/

/-- What a client calls after `Initialize_Terminal`: output, backspacing, a change of color. -/
inductive TerminalCall where
  | output (call : OutputCall)
  | backspace
  | setColor (color : VgaColor)

namespace TerminalCall

/-- One call on the terminal. -/
def run (t : Terminal) : TerminalCall → Terminal
  | output call => call.run t
  | backspace => terminalBackspace t
  | setColor color => terminalSetColor t color

/-- The column events of a call. -/
def events : TerminalCall → List ColumnEvent
  | output call => call.text.map .char
  | backspace => [.backspace]
  | setColor _ => []

end TerminalCall

theorem EqualButPorts.inColumns_iff {t t' : Terminal} (h : EqualButPorts t t') :
    InColumns t ↔ InColumns t' := by
  have hport : ∀ a : Access, a.isPort = true → a.InColumns := by
    intro a ha
    cases a <;> first | exact absurd ha (by decide) | trivial
  rw [InColumns, InColumns, t.forall_log_iff hport, t'.forall_log_iff hport, h.touched]

/-- A call moves the column, and touches the columns, as its events do. -/
theorem TerminalCall.run_eq_events (call : TerminalCall) (t : Terminal) :
    (call.run t).terminalColumn = (call.events.foldl columnStep t).terminalColumn ∧
      (InColumns (call.run t) ↔ InColumns (call.events.foldl columnStep t)) := by
  cases call with
  | backspace => exact ⟨rfl, Iff.rfl⟩
  | setColor color => exact ⟨rfl, Iff.rfl⟩
  | output call =>
    have hrun := call.run_eq_text t
    have hevents : (call.text.map ColumnEvent.char).foldl columnStep t
        = call.text.foldl terminalPutch t := by
      rw [List.foldl_map]
      rfl
    rw [events, hevents]
    exact ⟨hrun.column, hrun.inColumns_iff⟩

theorem columnStep_inColumns (t : Terminal) (e : ColumnEvent) (h : InColumns (columnStep t e)) :
    InColumns t := by
  cases e with
  | char c => exact (putch_extends t c).inColumns h
  | backspace => exact (backspace_extends t).inColumns h

/-- The events of a run, from columns 0..80: safe exactly when every tab has room, and the
    register then follows. -/
theorem columnSteps_spec {t : Terminal} {k : Nat} (h : AtColumn t k) (events : List ColumnEvent) :
    (InColumns (events.foldl columnStep t) ↔
        InColumns t ∧ Guarded columnAfter TabRoom k events) ∧
      (Guarded columnAfter TabRoom k events →
        AtColumn (events.foldl columnStep t) (events.foldl columnAfter k)) := by
  constructor
  · exact foldl_iff_guarded (R := AtColumn) (A := fun _ => True)
      (fun t k e _ h hroom => (columnStep_spec h e).2 hroom)
      (fun t k e _ h => (columnStep_spec h e).1) columnStep_inColumns t k events
      (fun _ _ => trivial) h
  · exact foldl_related (R := AtColumn) (A := fun _ => True)
      (fun t k e _ h hroom => (columnStep_spec h e).2 hroom) t k events (fun _ _ => trivial) h

/-- The same for calls: their events make the guard. -/
theorem columnCalls_spec {t : Terminal} {k : Nat} (h : AtColumn t k) (calls : List TerminalCall) :
    (InColumns (calls.foldl TerminalCall.run t) ↔
        InColumns t ∧ Guarded columnAfter TabRoom k (calls.flatMap TerminalCall.events)) ∧
      (Guarded columnAfter TabRoom k (calls.flatMap TerminalCall.events) →
        (calls.foldl TerminalCall.run t).terminalColumn.toNat ≤ vgaWidth) := by
  have hrel : ∀ (t : Terminal) (k : Nat) (call : TerminalCall), True → AtColumn t k →
      Guarded columnAfter TabRoom k call.events →
      AtColumn (call.run t) (call.events.foldl columnAfter k) := by
    intro t k call _ h hguard
    obtain ⟨hcol, hle⟩ := (columnSteps_spec h call.events).2 hguard
    exact ⟨(call.run_eq_events t).1.trans hcol, hle⟩
  rw [guarded_flatMap]
  constructor
  · refine foldl_iff_guarded hrel ?_ ?_ t k calls (fun _ _ => trivial) h
    · intro t k call _ h
      rw [(call.run_eq_events t).2]
      exact (columnSteps_spec h call.events).1
    · intro t call hsafe
      exact foldl_past columnStep_inColumns t call.events ((call.run_eq_events t).2.mp hsafe)
  · intro hguard
    have hat := foldl_related hrel t k calls (fun _ _ => trivial) h hguard
    rw [hat.toNat]
    exact hat.2

theorem atColumn_initialized (t : Terminal) : AtColumn (initializeTerminal t) 0 := by
  rw [initializeTerminal_eq]
  exact ⟨rfl, Nat.zero_le _⟩

/-- **The column invariant, exactly.**  From any state, after `Initialize_Terminal`, the column
    stays at most 80, every character is stored in a column below 80 and no column of 0 is
    decremented — in every state a sequence of calls reaches — if and only if no tab is printed
    with 72 to 79 columns filled. -/
theorem column_invariant_iff (t : Terminal) (calls : List TerminalCall) :
    (∀ pre post, calls = pre ++ post →
        (pre.foldl TerminalCall.run (initializeTerminal t.unobserved)).terminalColumn.toNat
          ≤ vgaWidth ∧
        ∀ a ∈ (pre.foldl TerminalCall.run (initializeTerminal t.unobserved)).log, a.InColumns) ↔
      Guarded columnAfter TabRoom 0 (calls.flatMap TerminalCall.events) := by
  have hstart := atColumn_initialized t.unobserved
  have hinit : InColumns (initializeTerminal t.unobserved) := by
    rw [initializeTerminal_eq]
    exact blanked_inColumns rfl
  constructor
  · intro h
    exact ((columnCalls_spec hstart calls).1.mp (h calls [] (List.append_nil _).symm).2).2
  · rintro hguard pre post rfl
    rw [List.flatMap_append, guarded_append] at hguard
    obtain ⟨hsafe, hcolumn⟩ := columnCalls_spec hstart pre
    exact ⟨hcolumn hguard.1, hsafe.mpr ⟨hinit, hguard.1⟩⟩

/-- Ten tabs: the tenth arrives with 73 columns filled. -/
def tabOverflow : List TerminalCall := List.replicate 10 (.output (.putch (ch '\t')))

/-- The tenth tab is stored in column 80. -/
theorem column_invariant_fails_on_tabs :
    ¬ ∀ pre post, tabOverflow = pre ++ post →
        (pre.foldl TerminalCall.run
          (initializeTerminal coldTerminal.unobserved)).terminalColumn.toNat ≤ vgaWidth ∧
        ∀ a ∈ (pre.foldl TerminalCall.run (initializeTerminal coldTerminal.unobserved)).log,
          a.InColumns := by
  intro h
  have hstart := atColumn_initialized coldTerminal.unobserved
  have hguard := ((columnCalls_spec hstart tabOverflow).1.mp
    (h tabOverflow [] (List.append_nil _).symm).2).2
  exact absurd hguard (by decide)

end FreeMicroNix
