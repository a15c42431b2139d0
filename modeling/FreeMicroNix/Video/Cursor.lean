/-
  The hardware cursor.

  The CRT controller shows its cursor where its registers 0x0E and 0x0F say, and those change only
  when `Terminal_Update_Cursor` sends them.  `Crtc` is the controller as the ports 0x3D4 and 0x3D5
  see it, and a terminal's log says what it has received.

  The text position is a pure function of what is printed (`Position.putch`), from any column, and
  `Cursor` pairs it with the location last sent: every call of the terminal is a step of that small
  machine (`cursorOf_run`).  `Terminal_Print` and `kprintf` send the location when they have
  printed, but `Terminal_Newline`, `Terminal_Backspace` and `Terminal_Clear` never do, the newline
  of `Terminal_Println` comes after it was sent, and `kprintf` returns early on a format that ends
  in a percent sign.  `cursor_follows_iff` says when that is not seen.
-/
import FreeMicroNix.Video.Text
import Mathlib.Data.List.Induction

namespace FreeMicroNix

open CountedLoop Run

/-! ## The CRT controller -/

/-- The controller: the register selected, and the registers. -/
structure Crtc where
  index : Uint8
  registers : Uint8 → Uint8

namespace Crtc

/-- A port write: 0x3D4 selects a register, 0x3D5 writes it. -/
def out (crtc : Crtc) (port : Uint16) (value : Uint8) : Crtc :=
  if port = 0x3D4#16 then { crtc with index := value }
  else if port = 0x3D5#16 then
    { crtc with registers := Function.update crtc.registers crtc.index value }
  else crtc

/-- An access of the terminal, as the controller sees it. -/
def observe (crtc : Crtc) : Access → Crtc
  | .out port value => crtc.out port value
  | _ => crtc

/-- The controller after the accesses of a log. -/
def after (crtc : Crtc) (log : List Access) : Crtc := log.foldl observe crtc

/-- The cursor location the controller holds. -/
def cursorLocation (crtc : Crtc) : Uint16 := word (crtc.registers 0x0E) (crtc.registers 0x0F)

theorem observe_not_port (crtc : Crtc) {a : Access} (h : a.isPort = false) :
    crtc.observe a = crtc := by
  cases a with
  | out port value => exact absurd h nofun
  | _ => rfl

/-- Accesses that write no port do not reach it. -/
theorem after_quiet (crtc : Crtc) {t t' : Terminal} (h : Quiet t t') :
    crtc.after t'.log = crtc.after t.log := by
  obtain ⟨added, hlog, hadded⟩ := h
  rw [after, after, hlog, List.foldl_append]
  generalize t.log.foldl observe crtc = crtc'
  clear hlog
  induction added with
  | nil => rfl
  | cons a added ih =>
    rw [List.foldl_cons, observe_not_port crtc' (hadded a List.mem_cons_self)]
    exact ih fun b hb => hadded b (List.mem_cons_of_mem a hb)

end Crtc

/-! ## The text position -/

/-- A row and a column of the text. -/
structure Position where
  row : Uint32
  column : Uint32
  deriving DecidableEq

namespace Position

/-- The location of a position: `terminal_row * 80 + terminal_column`, of which 16 bits are sent. -/
def location (p : Position) : Uint16 := (p.row * 80 + p.column).setWidth 16

/-- Where a character without a meaning of its own leads. -/
def advance (p : Position) : Position :=
  if p.column = BitVec.ofNat 32 vgaWidth then ⟨p.row + 1, 0⟩ else ⟨p.row, p.column + 1⟩

/-- Where `Terminal_Backspace` leads: left, over a space printed there, and left again. -/
def backspace (p : Position) : Position :=
  if p.column = 0 then p
  else
    let q := advance ⟨p.row, p.column - 1⟩
    ⟨q.row, q.column - 1⟩

/-- Where `Terminal_Putch` leads. -/
def putch (p : Position) (c : CChar) : Position :=
  if c = ch '\n' ∨ p.column = BitVec.ofNat 32 vgaWidth then ⟨p.row + 1, 0⟩
  else if c = ch '\t' then ⟨p.row, ((p.column + 8) &&& ~~~(8 - 1)) + 1⟩
  else if c = ch '\x08' then ⟨p.backspace.row, p.backspace.column + 1⟩
  else if c = ch '\r' then ⟨0, p.column + 1⟩
  else ⟨p.row, p.column + 1⟩

/-- Where a text leads, character by character. -/
def puts (p : Position) (text : CString) : Position := text.foldl putch p

theorem puts_append (p : Position) (text text' : CString) :
    p.puts (text ++ text') = (p.puts text).puts text' := List.foldl_append

theorem puts_singleton (p : Position) (c : CChar) : p.puts [c] = p.putch c := rfl

/-- The location is the row-major one, modulo `2 ^ 16`. -/
theorem location_toNat (p : Position) :
    p.location.toNat = (p.row.toNat * 80 + p.column.toNat) % 2 ^ 16 := by
  have hlow : ∀ n : Nat, n % 2 ^ 32 % 2 ^ 16 = n % 2 ^ 16 := fun n => by omega
  have hwidth : (80 : Uint32).toNat = 80 := rfl
  simp only [location, BitVec.toNat_setWidth, BitVec.toNat_add, BitVec.toNat_mul, hwidth,
    Nat.mod_add_mod]
  rw [hlow]

end Position

/-- The position of a terminal. -/
def Terminal.position (t : Terminal) : Position := ⟨t.terminalRow, t.terminalColumn⟩

/-! ## The position of what is printed -/

theorem position_ordinary (t : Terminal) {c : CChar} (hc : Ordinary c) :
    (terminalPutch t c).position = t.position.advance := by
  unfold Position.advance
  by_cases hcol : t.terminalColumn = BitVec.ofNat 32 vgaWidth
  · rw [putch_advance t c (Or.inr hcol), if_pos (show t.position.column = _ from hcol)]
    rfl
  · rw [putch_ordinary t c hc hcol, if_neg (show t.position.column ≠ _ from hcol)]
    simp only [Terminal.position, putchGlyph_row, putchGlyph_column]

theorem position_backspace (t : Terminal) :
    (terminalBackspace t).position = t.position.backspace := by
  unfold Position.backspace
  by_cases hcol : t.terminalColumn = 0
  · rw [backspace_zero t hcol, if_pos (show t.position.column = 0 from hcol)]
  · have hspace : Ordinary (ch ' ') := Printable.ordinary (by decide)
    have hadvance := position_ordinary t.decrementColumn hspace
    rw [backspace_pos t (by bv_omega), if_neg (show t.position.column ≠ 0 from hcol)]
    rw [show t.decrementColumn.position = ⟨t.position.row, t.position.column - 1⟩ from rfl]
      at hadvance
    rw [← hadvance]
    rfl

/-- The position follows the characters, whatever the column. -/
theorem position_putch (t : Terminal) (c : CChar) :
    (terminalPutch t c).position = t.position.putch c := by
  unfold Position.putch
  by_cases hadv : c = ch '\n' ∨ t.terminalColumn = BitVec.ofNat 32 vgaWidth
  · rw [putch_advance t c hadv, if_pos (show c = ch '\n' ∨ t.position.column = _ from hadv)]
    rfl
  · obtain ⟨hnl, hcol⟩ := not_or.mp hadv
    rw [if_neg (show ¬ (c = ch '\n' ∨ t.position.column = _) from hadv)]
    rcases char_cases c with rfl | rfl | rfl | rfl | hc
    · exact absurd rfl hnl
    · rw [putch_tab t hcol, if_pos rfl]
      simp only [Terminal.position, putchGlyph_row, putchGlyph_column]
    · rw [putch_backspace t hcol, if_neg (by decide), if_pos rfl, ← position_backspace]
      simp only [Terminal.position, putchGlyph_row, putchGlyph_column]
    · rw [putch_return t hcol, if_neg (by decide), if_neg (by decide), if_pos rfl]
      simp only [Terminal.position, putchGlyph_row, putchGlyph_column]
    · rw [putch_ordinary t c hc hcol, if_neg hc.2.1, if_neg hc.2.2.1, if_neg hc.2.2.2]
      simp only [Terminal.position, putchGlyph_row, putchGlyph_column]

theorem position_putchs (t : Terminal) (text : CString) :
    (text.foldl terminalPutch t).position = t.position.puts text :=
  (List.foldl_hom Terminal.position fun t c => (position_putch t c).symm).symm

/-- The two bytes `Terminal_Update_Cursor` masks out are those of the 16-bit location. -/
theorem location_bytes (x : Uint32) :
    (x &&& 0xFF).setWidth 8 = (x.setWidth 16).extractLsb' 0 8 ∧
      ((x >>> 8) &&& 0xFF).setWidth 8 = (x.setWidth 16).extractLsb' 8 8 := by
  constructor
  · rw [extractLsb'_setWidth x 0 8 (by decide)]
    exact masked_low x 8 (by decide)
  · rw [extractLsb'_setWidth x 8 8 (by decide)]
    exact masked_field x 8 8 (by decide)

/-- `Terminal_Update_Cursor` sends the 16 bits of the location, the low byte first. -/
theorem updateCursor_location (crtc : Crtc) (t : Terminal) :
    (crtc.after (terminalUpdateCursor t).log).cursorLocation = t.position.location := by
  obtain ⟨hlow, hhigh⟩ := location_bytes (t.terminalRow * 80 + t.terminalColumn)
  have hlog : (terminalUpdateCursor t).log = t.log ++
      [.out 0x3D4#16 0x0F#8, .out 0x3D5#16 (t.position.location.extractLsb' 0 8),
        .out 0x3D4#16 0x0E#8, .out 0x3D5#16 (t.position.location.extractLsb' 8 8)] := by
    rw [Position.location, Terminal.position, ← hlow, ← hhigh]
    simp only [terminalUpdateCursor, terminalOutb, Terminal.record, List.append_assoc]
    rfl
  rw [Crtc.after, hlog, List.foldl_append]
  exact word_bytes t.position.location

/-- `Terminal_Print`: the characters up to the terminator move the position, which is sent. -/
theorem print_position (t : Terminal) (s : CString) :
    (terminalPrint t s).position = t.position.puts (s.takeWhile (· ≠ 0)) := by
  rw [terminalPrint_eq, ← position_putchs]
  rfl

theorem print_location (crtc : Crtc) (t : Terminal) (s : CString) :
    (crtc.after (terminalPrint t s).log).cursorLocation
      = (t.position.puts (s.takeWhile (· ≠ 0))).location := by
  rw [terminalPrint_eq, updateCursor_location, position_putchs]

/-! ## What `kprintf` has sent when it returns -/

/-- The text of a format and its words, cut where `kprintf` sent the cursor location last before
    it returns: behind the last number or string.  The first part is missing where there is
    none. -/
structure Parts where
  sent : Option CString
  silent : CString

namespace Parts

/-- A character put. -/
def put (parts : Parts) (c : CChar) : Parts := { parts with silent := parts.silent ++ [c] }

/-- A string printed. -/
def print (parts : Parts) (s : CString) : Parts :=
  ⟨some (parts.sent.getD [] ++ parts.silent ++ s.takeWhile (· ≠ 0)), []⟩

/-- The whole text. -/
def text (parts : Parts) : CString := parts.sent.getD [] ++ parts.silent

/-- The location held after the text, when it was `held` before it and the text began at `p`. -/
def held (parts : Parts) (p : Position) (held : Uint16) : Uint16 :=
  match parts.sent with
  | none => held
  | some text => (p.puts text).location

end Parts

/-- The parts of a format, with `n` words taken and `parts` already put. -/
def kprintfParts (strAt : Uint32 → CString) (arg : Nat → Uint32) :
    Parts → Nat → CString → Parts
  | parts, _, [] => parts
  | parts, _, [c] => if c = 0 ∨ c = ch '%' then parts else parts.put c
  | parts, n, c :: d :: format =>
      if c = 0 then parts
      else if c ≠ ch '%' then kprintfParts strAt arg (parts.put c) n (d :: format)
      else if d = ch 'd' ∨ d = ch 'u' ∨ d = ch 'x' then
        kprintfParts strAt arg (parts.print (itoaString (arg n) d.toInt)) (n + 1) format
      else if d = ch 's' then
        let p := if arg n = 0 then str "(null)" else strAt (arg n)
        kprintfParts strAt arg (parts.print p) (n + 1) format
      else if d = 0 then parts
      else kprintfParts strAt arg (parts.put ((arg n).setWidth 8)) (n + 1) format

/-- The format ends in a percent sign that begins no conversion. -/
def dangling : CString → Bool
  | [] => false
  | [c] => c = ch '%'
  | c :: d :: format =>
      if c = 0 then false
      else if c ≠ ch '%' then dangling (d :: format)
      else if d = 0 then true
      else dangling format

/-- A terminal that has put `parts`, begun at position `p` with `held` in the controller. -/
structure HasPut (crtc : Crtc) (p : Position) (held : Uint16) (t : Terminal) (parts : Parts) :
    Prop where
  position : t.position = p.puts parts.text
  location : (crtc.after t.log).cursorLocation = parts.held p held

namespace HasPut

variable {crtc : Crtc} {p : Position} {held : Uint16} {t : Terminal} {parts : Parts}

theorem put (h : HasPut crtc p held t parts) (c : CChar) :
    HasPut crtc p held (terminalPutch t c) (parts.put c) := by
  constructor
  · rw [position_putch, h.position, ← Position.puts_singleton, ← Position.puts_append,
      Parts.text, Parts.text, Parts.put, List.append_assoc]
  · rw [crtc.after_quiet (putch_quiet t c), h.location]
    rfl

theorem print (h : HasPut crtc p held t parts) (s : CString) :
    HasPut crtc p held (terminalPrint t s) (parts.print s) := by
  constructor
  · rw [print_position, h.position, ← Position.puts_append]
    simp only [Parts.text, Parts.print, Option.getD_some, List.append_nil, List.append_assoc]
  · rw [print_location, h.position, ← Position.puts_append]
    simp only [Parts.held, Parts.print, Parts.text, List.append_assoc]

/-- Updating the cursor sends where the text has led. -/
theorem update (h : HasPut crtc p held t parts) :
    (terminalUpdateCursor t).position = p.puts parts.text ∧
      (crtc.after (terminalUpdateCursor t).log).cursorLocation = (p.puts parts.text).location := by
  refine ⟨h.position, ?_⟩
  rw [updateCursor_location, h.position]

end HasPut

/-- **The directive loop**: it puts the parts of its format, and sends the final location unless
    the format is dangling. -/
theorem kprintfLoop_hasPut (strAt : Uint32 → CString) (arg : Nat → Uint32) {crtc : Crtc}
    {p : Position} {held : Uint16} (format : CString) :
    ∀ {t : Terminal} {parts : Parts} (n : Nat), HasPut crtc p held t parts →
      let end_ := (kprintfLoop strAt arg t n format).1
      let put := kprintfParts strAt arg parts n format
      end_.position = p.puts put.text ∧
        (crtc.after end_.log).cursorLocation
          = if dangling format then put.held p held else (p.puts put.text).location := by
  induction format using List.twoStepInduction with
  | nil => intro t parts n h; exact h.update
  | singleton c =>
    intro t parts n h
    by_cases hc : c = 0
    · subst hc
      exact h.update
    · by_cases hpercent : c = ch '%'
      · subst hpercent
        exact ⟨h.position, h.location⟩
      · simp only [kprintfLoop, kprintfParts, dangling, if_neg hc, if_pos hpercent,
          if_neg (not_or.mpr ⟨hc, hpercent⟩), decide_eq_true_eq, if_neg hpercent]
        exact (h.put c).update
  | cons_cons c d format ih ih' =>
    intro t parts n h
    simp only [kprintfLoop, kprintfParts, dangling]
    by_cases hc : c = 0
    · simp only [if_pos hc]
      exact h.update
    · by_cases hpercent : c = ch '%'
      · simp only [if_neg hc, if_neg (not_not_intro hpercent)]
        by_cases hnumber : d = ch 'd' ∨ d = ch 'u' ∨ d = ch 'x'
        · have hd : d ≠ 0 := by rintro rfl; exact absurd hnumber (by decide)
          simp only [if_pos hnumber, if_neg hd]
          exact ih (n + 1) (h.print _)
        · by_cases hs : d = ch 's'
          · have hd : d ≠ 0 := by rw [hs]; decide
            simp only [if_neg hnumber, if_pos hs, if_neg hd]
            exact ih (n + 1) (h.print _)
          · by_cases hd : d = 0
            · simp only [if_neg hnumber, if_neg hs, if_pos hd]
              exact ⟨h.position, h.location⟩
            · simp only [if_neg hnumber, if_neg hs, if_neg hd]
              exact ih (n + 1) (h.put _)
      · simp only [if_neg hc, if_pos hpercent]
        exact ih' d n (h.put c)

/-! ## The calls -/

/-- The calls that move the text position. -/
inductive CursorCall where
  | print (s : CString)
  | println (s : CString)
  | newline
  | backspace
  | clear
  | kprintf (strAt : Uint32 → CString) (format : CString) (arg : Nat → Uint32)

/-- One call on the terminal. -/
def CursorCall.run (t : Terminal) : CursorCall → Terminal
  | print s => terminalPrint t s
  | println s => terminalPrintln t s
  | newline => terminalNewline t
  | backspace => terminalBackspace t
  | clear => terminalClear t
  | kprintf strAt format arg => FreeMicroNix.kprintf t strAt format arg

/-- The text position and the location the controller holds. -/
structure Cursor where
  position : Position
  held : Uint16

namespace Cursor

/-- The cursor of a terminal, with a controller that was `crtc` before its first access. -/
def ofTerminal (crtc : Crtc) (t : Terminal) : Cursor :=
  ⟨t.position, (crtc.after t.log).cursorLocation⟩

/-- The parts a `kprintf` call begins with. -/
def noParts : Parts := ⟨none, []⟩

/-- One call on the cursor. -/
def step (cursor : Cursor) : CursorCall → Cursor
  | .print s =>
      let p := cursor.position.puts (s.takeWhile (· ≠ 0))
      ⟨p, p.location⟩
  | .println s =>
      let p := cursor.position.puts (s.takeWhile (· ≠ 0))
      ⟨⟨p.row + 1, 0⟩, p.location⟩
  | .newline => ⟨⟨cursor.position.row + 1, 0⟩, cursor.held⟩
  | .backspace => ⟨cursor.position.backspace, cursor.held⟩
  | .clear => ⟨⟨0, 0⟩, cursor.held⟩
  | .kprintf strAt format arg =>
      let put := kprintfParts strAt arg noParts 0 format
      let p := cursor.position.puts put.text
      ⟨p, if dangling format then put.held cursor.position cursor.held else p.location⟩

/-- The controller holds the location of the text position. -/
def Follows (cursor : Cursor) : Prop := cursor.held = cursor.position.location

end Cursor

/-- `Terminal_Clear` prints its spaces and goes to the corner. -/
theorem clear_quiet (t : Terminal) : Quiet t (terminalClear t) := by
  have hspaces : ∀ s, Quiet t s →
      Quiet t (forLoop vgaHeight
        (fun _ => forLoop vgaWidth fun _ t => terminalPutch t (ch ' ')) s) := fun s hs =>
    forLoop_invariant (I := fun _ s => Quiet t s) hs fun _ s _ h =>
      forLoop_invariant (I := fun _ s => Quiet t s) h fun _ s _ h => h.trans (putch_quiet s _)
  have hcorner : ∀ s, Quiet t s → Quiet t { s with terminalRow := 0, terminalColumn := 0 } :=
    fun s hs => hs.trans (.of_log_eq rfl)
  exact hcorner _ (hspaces _ (hcorner t (.of_log_eq rfl)))

theorem newline_position (t : Terminal) :
    (terminalPutch t (ch '\n')).position = ⟨t.position.row + 1, 0⟩ := by
  rw [putch_advance t (ch '\n') (Or.inl rfl)]
  rfl

/-- **The step.**  Every call of the terminal is a call of the cursor. -/
theorem cursorOf_run (crtc : Crtc) (t : Terminal) (call : CursorCall) :
    Cursor.ofTerminal crtc (call.run t) = (Cursor.ofTerminal crtc t).step call := by
  cases call with
  | print s => exact congrArg₂ Cursor.mk (print_position t s) (print_location crtc t s)
  | println s =>
    have hquiet := crtc.after_quiet (putch_quiet (terminalPrint t s) (ch '\n'))
    refine congrArg₂ Cursor.mk ?_ ?_
    · show (terminalPutch (terminalPrint t s) (ch '\n')).position = _
      rw [newline_position, print_position]
      rfl
    · show (crtc.after (terminalPutch (terminalPrint t s) (ch '\n')).log).cursorLocation = _
      rw [hquiet, print_location]
      rfl
  | newline =>
    have hquiet := crtc.after_quiet (putch_quiet t (ch '\n'))
    exact congrArg₂ Cursor.mk (newline_position t) (congrArg Crtc.cursorLocation hquiet)
  | backspace =>
    have hquiet := crtc.after_quiet (backspace_quiet t)
    exact congrArg₂ Cursor.mk (position_backspace t) (congrArg Crtc.cursorLocation hquiet)
  | clear =>
    have hquiet := crtc.after_quiet (clear_quiet t)
    exact congrArg₂ Cursor.mk rfl (congrArg Crtc.cursorLocation hquiet)
  | kprintf strAt format arg =>
    have hstart : HasPut crtc t.position (crtc.after t.log).cursorLocation t Cursor.noParts :=
      ⟨rfl, rfl⟩
    obtain ⟨hposition, hlocation⟩ := kprintfLoop_hasPut strAt arg format 0 hstart
    exact congrArg₂ Cursor.mk hposition hlocation

/-! ## When the cursor follows -/

/-- What a call needs for the controller to hold the location it leads to.  A call that sends no
    location needs the one held to be right already; `Terminal_Println` needs its text to end in
    column 80, where the newline leaves the location as it is; a dangling format needs the
    characters behind its last number or string to lead back to the location sent there. -/
def Settled (cursor : Cursor) : CursorCall → Prop
  | .print _ => True
  | .println s => (cursor.position.puts (s.takeWhile (· ≠ 0))).column.setWidth 16 = 80#16
  | .newline => cursor.held = Position.location ⟨cursor.position.row + 1, 0⟩
  | .backspace => cursor.held = cursor.position.backspace.location
  | .clear => cursor.held = 0
  | .kprintf strAt format arg =>
      let put := kprintfParts strAt arg Cursor.noParts 0 format
      dangling format →
        put.held cursor.position cursor.held = (cursor.position.puts put.text).location

instance (cursor : Cursor) : (call : CursorCall) → Decidable (Settled cursor call)
  | .print _ => inferInstanceAs (Decidable True)
  | .println _ => inferInstanceAs (Decidable (_ = _))
  | .newline => inferInstanceAs (Decidable (_ = _))
  | .backspace => inferInstanceAs (Decidable (_ = _))
  | .clear => inferInstanceAs (Decidable (_ = _))
  | .kprintf _ _ _ => inferInstanceAs (Decidable (_ → _))

/-- A newline keeps the location precisely in column 80. -/
theorem location_newline_iff (p : Position) :
    p.location = Position.location ⟨p.row + 1, 0⟩ ↔ p.column.setWidth 16 = 80#16 := by
  have hnext : Position.location ⟨p.row + 1, 0⟩ = (p.row * 80).setWidth 16 + 80#16 := by
    simp only [Position.location]
    bv_omega
  have hhere : p.location = (p.row * 80).setWidth 16 + p.column.setWidth 16 := by
    simp only [Position.location]
    bv_omega
  rw [hnext, hhere]
  bv_omega

/-- One call leaves the controller at the text position precisely when it is settled. -/
theorem follows_step_iff (cursor : Cursor) (call : CursorCall) :
    (cursor.step call).Follows ↔ Settled cursor call := by
  cases call with
  | print s => exact iff_of_true rfl trivial
  | println s => exact location_newline_iff _
  | newline => exact Iff.rfl
  | backspace => exact Iff.rfl
  | clear => exact Iff.rfl
  | kprintf strAt format arg =>
    simp only [Cursor.Follows, Cursor.step, Settled]
    cases dangling format with
    | false => simp
    | true => simp

/-- The same on the terminal, in the numbers of its row and column. -/
theorem location_run_iff (crtc : Crtc) (t : Terminal) (call : CursorCall) :
    (crtc.after (call.run t).log).cursorLocation.toNat
        = ((call.run t).terminalRow.toNat * 80 + (call.run t).terminalColumn.toNat) % 2 ^ 16 ↔
      Settled (Cursor.ofTerminal crtc t) call := by
  rw [← follows_step_iff, ← cursorOf_run, Cursor.Follows, ← BitVec.toNat_inj,
    Position.location_toNat]
  exact Iff.rfl

/-- `Initialize_Terminal` goes to the corner and does not touch the controller. -/
theorem ofTerminal_initialized (crtc : Crtc) (t : Terminal) :
    Cursor.ofTerminal crtc (initializeTerminal t.unobserved) = ⟨⟨0, 0⟩, crtc.cursorLocation⟩ := by
  have hquiet : Quiet t.unobserved (blanked t.unobserved (vgaHeight * vgaWidth)) := by
    refine ⟨_, rfl, fun a ha => ?_⟩
    obtain ⟨i, -, rfl⟩ := List.mem_map.mp ha
    rfl
  rw [initializeTerminal_eq]
  exact congrArg₂ Cursor.mk rfl (congrArg Crtc.cursorLocation (crtc.after_quiet hquiet))

/-- **The hardware cursor, exactly.**  From any terminal and any state of the CRT controller, after
    `Initialize_Terminal`, the controller holds the location of the text position after every call
    of a sequence if and only if every call is settled where it is made. -/
theorem cursor_follows_iff (t : Terminal) (crtc : Crtc) (calls : List CursorCall) :
    (∀ pre call post, calls = pre ++ call :: post →
        let t' := call.run (pre.foldl CursorCall.run (initializeTerminal t.unobserved))
        (crtc.after t'.log).cursorLocation.toNat
          = (t'.terminalRow.toNat * 80 + t'.terminalColumn.toNat) % 2 ^ 16) ↔
      Guarded Cursor.step Settled ⟨⟨0, 0⟩, crtc.cursorLocation⟩ calls := by
  rw [← ofTerminal_initialized crtc t, ← guarded_map _ (cursorOf_run crtc), guarded_iff_split]
  refine forall_congr' fun pre => forall_congr' fun call => forall_congr' fun post =>
    imp_congr Iff.rfl ?_
  exact location_run_iff crtc _ call

/-- `Terminal_Println("a")` leaves the location of column 1 in row 0. -/
theorem cursor_left_behind_by_println :
    ¬ ∀ pre call post, [CursorCall.println (str "a")] = pre ++ call :: post →
        let t' := call.run (pre.foldl CursorCall.run (initializeTerminal coldTerminal.unobserved))
        ((⟨0, fun _ => 0⟩ : Crtc).after t'.log).cursorLocation.toNat
          = (t'.terminalRow.toNat * 80 + t'.terminalColumn.toNat) % 2 ^ 16 := by
  intro h
  have hsettled := (location_run_iff _ _ _).mp (h [] (.println (str "a")) [] rfl)
  rw [List.foldl_nil, ofTerminal_initialized] at hsettled
  exact absurd hsettled (by decide)

end FreeMicroNix
