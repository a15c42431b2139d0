/-
  `kernel/x86/video/vga.c`: the text terminal and `kprintf`.

  The state is the four globals of the file, the memory `terminal_buffer` points to (cell by
  cell, and not cut off at the screen: what lies past cell 1999 is the memory after it), and a
  `log` of the accesses made, in order.  The log is what the safety and ordering statements are
  about; no function reads it.

  `Terminal_Putch` and `Terminal_Backspace` call each other, as in the source: a backspace
  character backspaces, and backspacing prints a space.
-/
import FreeMicroNix.Lib.CountedLoop
import FreeMicroNix.Libc.Itoa

namespace FreeMicroNix

open CountedLoop

/-! ## The screen and the state -/

/-- `VGA_WIDTH` -/
abbrev vgaWidth : Nat := 80

/-- `VGA_HEIGHT` -/
abbrev vgaHeight : Nat := 25

/-- `VGA_MEMORY` -/
def vgaMemory : Uint32 := 0xB8000#32

/-- `enum vga_color` -/
inductive VgaColor where
  | black | blue | green | cyan | red | magenta | brown | lightGrey
  | darkGrey | lightBlue | lightGreen | lightCyan | lightRed | lightMagenta | lightBrown | white
  deriving DecidableEq, Repr

/-- The enumerators count from `COLOR_BLACK = 0` to `COLOR_WHITE = 15`. -/
def VgaColor.value (color : VgaColor) : Uint8 := BitVec.ofNat 8 color.ctorIdx

/-- One observable access of the terminal code. -/
inductive Access where
  /-- `Terminal_Putat(x, y, c)` stores `value` at cell `index`. -/
  | store (x y index : Uint32) (c : CChar) (value : Uint16)
  /-- `Terminal_Scroll` loads cell `index`. -/
  | scrollLoad (index : Nat)
  /-- `Terminal_Scroll` stores to cell `index`. -/
  | scrollStore (index : Nat)
  /-- `terminal_column--` in a column equal to `column`. -/
  | decrement (column : Uint32)
  /-- A port write. -/
  | out (port : Uint16) (value : Uint8)
  deriving DecidableEq

/-- The globals of the terminal, the memory behind `terminal_buffer`, and the accesses so far. -/
structure Terminal where
  terminalRow : Uint32
  terminalColumn : Uint32
  terminalColor : Uint8
  terminalBuffer : Uint32
  cells : Nat → Uint16
  log : List Access

namespace Terminal

/-- The same terminal with one more access in its log. -/
def record (t : Terminal) (a : Access) : Terminal := { t with log := t.log ++ [a] }

/-- The same terminal with its accesses counted from here on. -/
def unobserved (t : Terminal) : Terminal := { t with log := [] }

/-- `terminal_column--` -/
def decrementColumn (t : Terminal) : Terminal :=
  { t with terminalColumn := t.terminalColumn - 1 }.record (.decrement t.terminalColumn)

end Terminal

/-- The terminal before initialization: zeroed globals, and zeroed memory. -/
def coldTerminal : Terminal where
  terminalRow := 0
  terminalColumn := 0
  terminalColor := 0
  terminalBuffer := 0
  cells := fun _ => 0
  log := []

/-! ## Cells -/

/-- The 16 bits a character is stored as: `c | color16 << 8`, with `c` promoted to `int`. -/
def cellOf (c : CChar) (color : Uint8) : Uint16 :=
  (c.signExtend 32 ||| (color.setWidth 32 <<< 8)).setWidth 16

/-- `Terminal_Putat` -/
def terminalPutat (t : Terminal) (x y : Uint32) (c : CChar) : Terminal :=
  let index := y * BitVec.ofNat 32 vgaWidth + x
  let value := cellOf c t.terminalColor
  { t with cells := Function.update t.cells index.toNat value }.record (.store x y index c value)

/-- `Terminal_Set_Color` -/
def terminalSetColor (t : Terminal) (color : VgaColor) : Terminal :=
  { t with terminalColor := color.value ||| VgaColor.black.value <<< 4 }

/-- One pass of the scroll loops: cell `i` receives the cell one row further on. -/
def scrollCell (i : Nat) (t : Terminal) : Terminal :=
  let loaded := t.record (.scrollLoad (i + vgaWidth))
  { loaded with cells := Function.update t.cells i (t.cells (i + vgaWidth)) }.record
    (.scrollStore i)

/-- `Terminal_Scroll`: the indices `y * VGA_WIDTH + x` and `(y + 1) * VGA_WIDTH + x` stay far
    below `2 ^ 32`, so the loops run over natural numbers. -/
def terminalScroll (t : Terminal) : Terminal :=
  forLoop vgaHeight (fun y => forLoop vgaWidth fun x => scrollCell (y * vgaWidth + x)) t

/-- `Initialize_Terminal` -/
def initializeTerminal (t : Terminal) : Terminal :=
  let t := { t with terminalRow := 0, terminalColumn := 0 }
  let t := terminalSetColor t .lightGrey
  let t := { t with terminalBuffer := vgaMemory }
  forLoop vgaHeight
    (fun y => forLoop vgaWidth fun x t =>
      terminalPutat t (BitVec.ofNat 32 x) (BitVec.ofNat 32 y) (ch ' ')) t

/-! ## Characters -/

/-- `Terminal_Putch` past its character tests (vga.c:107-113): scroll when the row is off the
    screen, store, and move on. -/
def putchGlyph (t : Terminal) (c : CChar) : Terminal :=
  let t := if BitVec.ofNat 32 vgaHeight ≤ t.terminalRow then terminalScroll t else t
  let t := terminalPutat t t.terminalColumn t.terminalRow c
  { t with terminalColumn := t.terminalColumn + 1 }

mutual

/-- `Terminal_Putch` -/
def terminalPutch (t : Terminal) (c : CChar) : Terminal :=
  if c = ch '\n' ∨ t.terminalColumn = BitVec.ofNat 32 vgaWidth then
    { t with terminalColumn := 0, terminalRow := t.terminalRow + 1 }
  else if c = ch '\t' then
    -- the branch does not return: the tab itself is stored at the rounded column
    putchGlyph { t with terminalColumn := (t.terminalColumn + 8) &&& ~~~(8 - 1) } c
  else if c = ch '\x08' then
    putchGlyph (terminalBackspace t) c
  else if c = ch '\r' then
    -- the row, not the column
    putchGlyph { t with terminalRow := 0 } c
  else putchGlyph t c
termination_by if c = ch '\x08' then 2 else 0
decreasing_by all_goals simp_all

/-- `Terminal_Backspace` -/
def terminalBackspace (t : Terminal) : Terminal :=
  if 0 < t.terminalColumn then
    let t := t.decrementColumn
    let t := terminalPutch t (ch ' ')
    t.decrementColumn
  else t
termination_by 1
decreasing_by rw [if_neg (by decide)]; exact Nat.zero_lt_one

end

/-- `Terminal_Newline` -/
def terminalNewline (t : Terminal) : Terminal := terminalPutch t (ch '\n')

/-! ## Strings -/

/-- `outb(port, value)` as the terminal uses it. -/
def terminalOutb (t : Terminal) (port : Uint16) (value : Uint8) : Terminal :=
  t.record (.out port value)

/-- `Terminal_Update_Cursor` -/
def terminalUpdateCursor (t : Terminal) : Terminal :=
  let cursorLocation := t.terminalRow * 80 + t.terminalColumn
  let t := terminalOutb t 0x3D4#16 0x0F#8
  let t := terminalOutb t 0x3D5#16 ((cursorLocation &&& 0xFF).setWidth 8)
  let t := terminalOutb t 0x3D4#16 0x0E#8
  terminalOutb t 0x3D5#16 (((cursorLocation >>> 8) &&& 0xFF).setWidth 8)

/-- `Terminal_Print` -/
def terminalPrint (t : Terminal) (s : CString) : Terminal :=
  let len := strlen s
  terminalUpdateCursor (forLoop len (fun i t => terminalPutch t (s.getD i 0)) t)

/-- `Terminal_Println` -/
def terminalPrintln (t : Terminal) (s : CString) : Terminal :=
  terminalPutch (terminalPrint t s) (ch '\n')

/-- `Terminal_Print_Int`, up to the object it formats into: the string `itoa` writes. -/
def terminalPrintInt (t : Terminal) (i : Uint32) : Terminal := terminalPrint t (itoaString i 16)

/-- `Terminal_Clear` -/
def terminalClear (t : Terminal) : Terminal :=
  let t := { t with terminalRow := 0, terminalColumn := 0 }
  let t := forLoop vgaHeight (fun _ => forLoop vgaWidth fun _ t => terminalPutch t (ch ' ')) t
  { t with terminalRow := 0, terminalColumn := 0 }

/-! ## `kprintf` -/

/-- The directive loop of `kprintf`.  `arg` is the stack from the first variadic word on, `n` the
    number of words `arg` has been advanced by, and `strAt` the string at an address.  The result
    carries the final `n`. -/
def kprintfLoop (strAt : Uint32 → CString) (arg : Nat → Uint32) :
    Terminal → Nat → CString → Terminal × Nat
  | t, n, [] => (terminalUpdateCursor t, n)
  | t, n, [c] =>
      if c = 0 then (terminalUpdateCursor t, n)
      else if c ≠ ch '%' then (terminalUpdateCursor (terminalPutch t c), n)
      else (t, n) -- `case 0: return`, before the cursor is updated
  | t, n, c :: d :: format =>
      if c = 0 then (terminalUpdateCursor t, n)
      else if c ≠ ch '%' then kprintfLoop strAt arg (terminalPutch t c) n (d :: format)
      else if d = ch 'd' ∨ d = ch 'u' ∨ d = ch 'x' then
        kprintfLoop strAt arg (terminalPrint t (itoaString (arg n) d.toInt)) (n + 1) format
      else if d = ch 's' then
        let p := if arg n = 0 then str "(null)" else strAt (arg n)
        kprintfLoop strAt arg (terminalPrint t p) (n + 1) format
      else if d = 0 then (t, n)
      else kprintfLoop strAt arg (terminalPutch t ((arg n).setWidth 8)) (n + 1) format

/-- `kprintf` -/
def kprintf (t : Terminal) (strAt : Uint32 → CString) (format : CString) (arg : Nat → Uint32) :
    Terminal :=
  (kprintfLoop strAt arg t 0 format).1

end FreeMicroNix
