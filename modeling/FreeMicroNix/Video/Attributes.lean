/-
  The attribute a character is stored with.

  `Terminal_Putat` assembles a cell by OR-ing the promoted character with the shifted color.  Plain
  `char` is signed: a byte from 0x80 on is promoted with 24 ones above it, and the eight that fall
  on the attribute hide the color (`cellOf_eq`).  So a store carries its character and its color
  exactly if the byte is below 0x80, or the color is all ones anyway.

  A run of calls stores a byte from 0x80 on unless it arrives in column 80, where `Terminal_Putch`
  swallows it.  Where that is depends on the text alone, and the color in force is that of the last
  `Terminal_Set_Color`, so whether all stores are right is a condition on the calls
  (`attributes_iff`).
-/
import FreeMicroNix.Video.Column
import FreeMicroNix.Video.Cursor

namespace FreeMicroNix

open Run

/-! ## The cell -/

/-- **The cell of any byte**: the sign of the character is OR-ed into the attribute. -/
theorem cellOf_eq (c : CChar) (color : Uint8) :
    cellOf c color = (color ||| if c.msb then BitVec.allOnes 8 else 0) ++ c := by
  unfold cellOf
  apply BitVec.eq_of_getLsbD_eq
  intro i hi
  show _ = ((color ||| if c.msb then BitVec.allOnes 8 else 0) ++ c : BitVec (8 + 8)).getLsbD i
  rw [BitVec.getLsbD_append, BitVec.getLsbD_setWidth, BitVec.getLsbD_or, BitVec.getLsbD_signExtend]
  have hwide : i < 32 := by omega
  -- the low byte is the character, the high byte the color and eight copies of the sign
  rcases Nat.lt_or_ge i 8 with hlow | hhigh
  · simp [hi, hlow, hwide]
  · have hbyte : i - 8 < 8 := by omega
    have hnot : ¬ i < 8 := by omega
    rw [if_neg hnot, if_neg hnot, BitVec.getLsbD_or]
    cases hmsb : c.msb with
    | true =>
      rw [if_pos rfl, BitVec.getLsbD_allOnes]
      simp [hi, hwide, hbyte]
    | false => simp [hi, hwide, hnot]

/-- The color and the character are the two bytes of the cell: for a byte below 0x80, or under a
    color of all ones. -/
theorem cellOf_eq_append_iff (c : CChar) (color : Uint8) :
    cellOf c color = color ++ c ↔ c.msb = false ∨ color = 0xFF#8 := by
  have hinj : (color ||| if c.msb then BitVec.allOnes 8 else 0) ++ c = color ++ c ↔
      (color ||| if c.msb then BitVec.allOnes 8 else 0) = color := BitVec.append_left_inj c
  rw [cellOf_eq]
  refine hinj.trans ?_
  cases hmsb : c.msb with
  | false => simp
  | true =>
    rw [if_pos rfl, BitVec.or_allOnes]
    exact ⟨fun h => Or.inr h.symm, fun h => (h.resolve_left (by simp)).symm⟩

/-! ## The stores of a character -/

/-- A store carries its character below this color. -/
def Access.Carries (color : Uint8) : Access → Prop
  | .store _ _ _ c value => value = color ++ c
  | _ => True

/-- So do all stores so far. -/
def Carries (color : Uint8) (t : Terminal) : Prop := ∀ a ∈ t.log, a.Carries color

/-- A character that is not stored with another attribute: a byte below 0x80, any byte in column
    80, any byte under the color of all ones. -/
def Spared (color : Uint8) (p : Position) (c : CChar) : Prop :=
  c.msb = false ∨ p.column = BitVec.ofNat 32 vgaWidth ∨ color = 0xFF#8

instance (color : Uint8) (p : Position) (c : CChar) : Decidable (Spared color p c) :=
  inferInstanceAs (Decidable (_ ∨ _))

section Characters

variable (t : Terminal) (c : CChar)

theorem putchGlyph_carries_iff :
    Carries t.terminalColor (putchGlyph t c) ↔
      Carries t.terminalColor t ∧ (c.msb = false ∨ t.terminalColor = 0xFF#8) := by
  rw [← cellOf_eq_append_iff]
  exact putchGlyph_forall_log_iff t c (fun _ => trivial) fun _ => trivial

theorem decrementColumn_carries_iff (color : Uint8) :
    Carries color t.decrementColumn ↔ Carries color t := by
  simp only [Carries, Terminal.decrementColumn_log, List.forall_mem_append,
    List.forall_mem_singleton]
  exact and_iff_left trivial

theorem putch_ordinary_color (hc : Ordinary c) :
    (terminalPutch t c).terminalColor = t.terminalColor := by
  by_cases hcol : t.terminalColumn = BitVec.ofNat 32 vgaWidth
  · rw [putch_advance t c (Or.inr hcol)]
  · rw [putch_ordinary t c hc hcol, putchGlyph_color]

theorem backspace_color : (terminalBackspace t).terminalColor = t.terminalColor := by
  by_cases hcol : t.terminalColumn = 0
  · rw [backspace_zero t hcol]
  · have hspace : Ordinary (ch ' ') := Printable.ordinary (by decide)
    rw [backspace_pos t (by bv_omega)]
    exact putch_ordinary_color t.decrementColumn (ch ' ') hspace

/-- No character changes the color: only `Terminal_Set_Color` does. -/
theorem putch_color : (terminalPutch t c).terminalColor = t.terminalColor := by
  by_cases hadv : c = ch '\n' ∨ t.terminalColumn = BitVec.ofNat 32 vgaWidth
  · rw [putch_advance t c hadv]
  · obtain ⟨hnl, hcol⟩ := not_or.mp hadv
    rcases char_cases c with rfl | rfl | rfl | rfl | hc
    · exact absurd rfl hnl
    · rw [putch_tab t hcol, putchGlyph_color]
    · rw [putch_backspace t hcol, putchGlyph_color, backspace_color]
    · rw [putch_return t hcol, putchGlyph_color]
    · exact putch_ordinary_color t c hc

theorem putch_ordinary_carries_iff (hc : Ordinary c) :
    Carries t.terminalColor (terminalPutch t c) ↔
      Carries t.terminalColor t ∧ Spared t.terminalColor t.position c := by
  by_cases hcol : t.terminalColumn = BitVec.ofNat 32 vgaWidth
  · rw [putch_advance t c (Or.inr hcol)]
    exact (and_iff_left (Or.inr (Or.inl hcol))).symm
  · rw [putch_ordinary t c hc hcol, putchGlyph_carries_iff]
    exact and_congr_right' (or_congr_right (or_iff_right hcol).symm)

/-- The space `Terminal_Backspace` prints is below 0x80. -/
theorem backspace_carries_iff :
    Carries t.terminalColor (terminalBackspace t) ↔ Carries t.terminalColor t := by
  by_cases hcol : t.terminalColumn = 0
  · rw [backspace_zero t hcol]
  · have hspace : Ordinary (ch ' ') := Printable.ordinary (by decide)
    have hstored := putch_ordinary_carries_iff t.decrementColumn (ch ' ') hspace
    rw [backspace_pos t (by bv_omega), decrementColumn_carries_iff]
    refine hstored.trans ((and_iff_left (Or.inl (by decide))).trans ?_)
    exact decrementColumn_carries_iff t t.terminalColor

/-- **One character**: its stores carry the color exactly if it is spared. -/
theorem putch_carries_iff :
    Carries t.terminalColor (terminalPutch t c) ↔
      Carries t.terminalColor t ∧ Spared t.terminalColor t.position c := by
  by_cases hadv : c = ch '\n' ∨ t.terminalColumn = BitVec.ofNat 32 vgaWidth
  · have hspared : Spared t.terminalColor t.position c := by
      rcases hadv with rfl | hcol
      · exact Or.inl (by decide)
      · exact Or.inr (Or.inl hcol)
    rw [putch_advance t c hadv]
    exact (and_iff_left hspared).symm
  · obtain ⟨hnl, hcol⟩ := not_or.mp hadv
    -- the control characters are below 0x80
    have hcontrol : ∀ t' : Terminal, t'.terminalColor = t.terminalColor → c.msb = false →
        (Carries t.terminalColor t' ↔ Carries t.terminalColor t) →
        (Carries t.terminalColor (putchGlyph t' c) ↔
          Carries t.terminalColor t ∧ Spared t.terminalColor t.position c) := by
      intro t' hcolor hmsb hsame
      rw [← hcolor, putchGlyph_carries_iff, hcolor, hsame]
      exact and_congr_right' (iff_of_true (Or.inl hmsb) (Or.inl hmsb))
    rcases char_cases c with rfl | rfl | rfl | rfl | hc
    · exact absurd rfl hnl
    · rw [putch_tab t hcol]
      exact hcontrol _ rfl (by decide) Iff.rfl
    · rw [putch_backspace t hcol]
      exact hcontrol _ (backspace_color t) (by decide) (backspace_carries_iff t)
    · rw [putch_return t hcol]
      exact hcontrol _ rfl (by decide) Iff.rfl
    · exact putch_ordinary_carries_iff t c hc

end Characters

theorem LogExtends.carries {t t' : Terminal} {color : Uint8} (h : LogExtends t t')
    (hcarries : Carries color t') : Carries color t := fun a ha => hcarries a (h.subset ha)

/-- **A text**: every character is spared where it arrives. -/
theorem putchs_carries_iff (t : Terminal) (text : CString) :
    Carries t.terminalColor (text.foldl terminalPutch t) ↔
      Carries t.terminalColor t ∧
        Guarded Position.putch (Spared t.terminalColor) t.position text := by
  refine foldl_iff_guarded (A := fun _ => True)
    (R := fun s p => s.position = p ∧ s.terminalColor = t.terminalColor) ?_ ?_ ?_ t t.position text
    (fun _ _ => trivial) ⟨rfl, rfl⟩
  · rintro s p c - ⟨rfl, hcolor⟩ -
    exact ⟨position_putch s c, (putch_color s c).trans hcolor⟩
  · rintro s p c - ⟨rfl, hcolor⟩
    rw [← hcolor]
    exact putch_carries_iff s c
  · exact fun s c h => (putch_extends s c).carries h

theorem putchs_color (t : Terminal) (text : CString) :
    (text.foldl terminalPutch t).terminalColor = t.terminalColor := by
  induction text generalizing t with
  | nil => rfl
  | cons c text ih => rw [List.foldl_cons, ih, putch_color]

/-! ## Every sequence of calls -/

/-- The text position and the color after one more call. -/
def attributeStep (s : Position × Uint8) : TerminalCall → Position × Uint8
  | .output call => (s.1.puts call.text, s.2)
  | .backspace => (s.1.backspace, s.2)
  | .setColor color => (s.1, color.value)

/-- A call stores no character with another attribute: the characters it prints are spared, from
    the position and under the color it is made in. -/
def SparedCall (s : Position × Uint8) : TerminalCall → Prop
  | .output call => Guarded Position.putch (Spared s.2) s.1 call.text
  | .backspace => True
  | .setColor _ => True

instance (s : Position × Uint8) : (call : TerminalCall) → Decidable (SparedCall s call)
  | .output call => inferInstanceAs (Decidable (Guarded Position.putch (Spared s.2) s.1 call.text))
  | .backspace => inferInstanceAs (Decidable True)
  | .setColor _ => inferInstanceAs (Decidable True)

theorem EqualButPorts.carries_iff {t t' : Terminal} (h : EqualButPorts t t') (color : Uint8) :
    Carries color t ↔ Carries color t' := by
  have hport : ∀ a : Access, a.isPort = true → a.Carries color := by
    intro a ha
    cases a <;> first | exact absurd ha (by decide) | trivial
  rw [Carries, Carries, t.forall_log_iff hport, t'.forall_log_iff hport, h.touched]

theorem call_attributeStep (t : Terminal) (call : TerminalCall) :
    ((call.run t).position, (call.run t).terminalColor)
      = attributeStep (t.position, t.terminalColor) call := by
  cases call with
  | backspace => exact congrArg₂ Prod.mk (position_backspace t) (backspace_color t)
  | setColor color => exact congrArg₂ Prod.mk rfl (setColor_color t color)
  | output call =>
    have hrun := call.run_eq_text t
    have hposition : (call.run t).position = (call.text.foldl terminalPutch t).position :=
      congrArg₂ Position.mk hrun.row hrun.column
    exact congrArg₂ Prod.mk (hposition.trans (position_putchs t call.text))
      (hrun.color.trans (putchs_color t call.text))

/-- **One call**: its stores carry the color it began with exactly if its characters are spared. -/
theorem call_carries_iff (t : Terminal) (call : TerminalCall) :
    Carries t.terminalColor (call.run t.unobserved) ↔
      SparedCall (t.position, t.terminalColor) call := by
  have hnone : Carries t.terminalColor t.unobserved := fun a ha => absurd ha List.not_mem_nil
  cases call with
  | backspace => exact iff_of_true ((backspace_carries_iff t.unobserved).mpr hnone) trivial
  | setColor color => exact iff_of_true hnone trivial
  | output call =>
    have hrun := call.run_eq_text t.unobserved
    exact (hrun.carries_iff t.terminalColor).trans
      ((putchs_carries_iff t.unobserved call.text).trans (and_iff_right hnone))

/-- **Attribute integrity, exactly.**  From any state, every store of every call carries its
    character and the color in force, if and only if each call finds its characters spared: a byte
    from 0x80 on is printed only in column 80, where it is swallowed, or under a color of 0xFF.
    The color in force is the one the call began with, since no character changes it
    (`putch_color`). -/
theorem attributes_iff (t : Terminal) (calls : List TerminalCall) :
    (∀ pre call post, calls = pre ++ call :: post →
        Carries (pre.foldl TerminalCall.run t).terminalColor
          (call.run (pre.foldl TerminalCall.run t).unobserved)) ↔
      Guarded attributeStep SparedCall (t.position, t.terminalColor) calls := by
  rw [← guarded_iff_split TerminalCall.run
    fun t call => Carries t.terminalColor (call.run t.unobserved)]
  simp only [call_carries_iff]
  exact guarded_map (fun t : Terminal => (t.position, t.terminalColor)) call_attributeStep t calls

/-- The letter é in the first cell of the screen: the color is lost. -/
theorem attributes_lost_e_acute :
    ¬ ∀ pre call post,
        [TerminalCall.setColor .green, .output (.print [0xE9#8])] = pre ++ call :: post →
        Carries (pre.foldl TerminalCall.run (initializeTerminal coldTerminal)).terminalColor
          (call.run (pre.foldl TerminalCall.run (initializeTerminal coldTerminal)).unobserved) := by
  intro h
  have hcall := h [.setColor .green] (.output (.print [0xE9#8])) [] rfl
  rw [call_carries_iff, initializeTerminal_eq] at hcall
  exact absurd hcall (by decide)

end FreeMicroNix
