/-
  `boot/stage1/stage1.asm`: the boot sector, from its first instruction to its last.

  1. **Program** — `stage1` is the source, line by line; labels are the offsets the sizes of the
     lines give.  The firmware enters at any `cs:ip` that leads to 0x7C00, so that an instruction is
     found by its distance from `origin`.
  2. **Machine** — the registers, flags and memory the code uses.  `call` and `ret` go through the
     stack the firmware left, in memory like everything else.  Addresses have `w` lines, 20 with the
     A20 gate closed and more with it open.
  3. **Firmware** — `int 10h` is a parameter: the state it returns with.  `Firmware.Keeps` asks of the
     calls this sector makes, and of no other, that SI, BX, DS, the stack pointer and the direction
     flag come back as they were, and with them the sector and the word on top of the stack.

  `lodsb` goes the way of the direction flag, and the sector never sets it.  `stage1_greets_iff`: the
  message appears exactly if the firmware left the flag clear, and then the sector stays in its last
  jump.  With the flag set `lodsb` goes down from the F, into the jump in front of the message.
-/
import FreeMicroNix.Lib.Deterministic
import FreeMicroNix.Types

namespace FreeMicroNix.Stage1

open Deterministic

/-! ## The source -/

inductive Label where
  | bootmsg
  | begin
  /-- The `$` of the last jump. -/
  | here
  | clearScreen
  | printString
  | done
  deriving DecidableEq

inductive Instr where
  | jmpShort (l : Label)
  | movAx (v : Uint16)
  /-- `mov ds, ax` -/
  | movDs
  | call (l : Label)
  | movSi (l : Label)
  | movAh (v : Uint8)
  | movAl (v : Uint8)
  /-- `int 0x10` -/
  | int10
  | ret
  | lodsb
  /-- `or al, al` -/
  | orAl
  | jz (l : Label)
  deriving DecidableEq

/-- The bytes an instruction takes. -/
def Instr.size : Instr → Nat
  | .movAx _ | .call _ | .movSi _ => 3
  | .ret | .lodsb => 1
  | _ => 2

inductive Line where
  | label (l : Label)
  | db (bytes : CString)
  | instr (i : Instr)

def Line.size : Line → Nat
  | .label _ => 0
  | .db bytes => bytes.length
  | .instr i => i.size

/-- `bootmsg`, without the zero that ends it. -/
def bootmsg : CString :=
  str "FreeMicroBoot" ++ [0x0D, 0x0A] ++ str "Version 0.01" ++ [0x0D, 0x0A]

/-- The source, up to the padding. -/
def stage1 : List Line :=
  [.instr (.jmpShort .begin),
    .label .bootmsg, .db (bootmsg ++ [0]),
    .label .begin,
      .instr (.movAx 0x07C0),
      .instr .movDs,
      .instr (.call .clearScreen),
      .instr (.movSi .bootmsg),
      .instr (.call .printString),
    .label .here, .instr (.jmpShort .here),
    .label .clearScreen,
      .instr (.movAh 0),
      .instr (.movAl 3),
      .instr .int10,
      .instr .ret,
    .label .printString,
      .instr .lodsb,
      .instr .orAl,
      .instr (.jz .done),
      .instr (.movAh 0xE),
      .instr .int10,
      .instr (.jmpShort .printString),
    .label .done,
      .instr .ret]

/-- The offset of a label. -/
def offsetIn (l : Label) : List Line → Nat
  | [] => 0
  | .label l' :: lines => if l' = l then 0 else offsetIn l lines
  | line :: lines => line.size + offsetIn l lines

def offset (l : Label) : Uint16 := BitVec.ofNat 16 (offsetIn l stage1)

/-- The instruction at an offset. -/
def instrIn : List Line → Nat → Option Instr
  | [], _ => none
  | .instr i :: lines, n =>
      if n = 0 then some i else if n < i.size then none else instrIn lines (n - i.size)
  | line :: lines, n => if n < line.size then none else instrIn lines (n - line.size)

def instrAt (off : Uint16) : Option Instr := instrIn stage1 off.toNat

/-- The bytes before the code: the first jump, over the message, and the message. -/
def sectorStart : CString :=
  [0xEB, (offset .begin - 2).setWidth 8] ++ bootmsg ++ [0]

/-! ## The machine -/

/-- A call of the video services: AX and BX. -/
structure VideoCall where
  ax : Uint16
  bx : Uint16
  deriving DecidableEq

/-- The processor in real mode, with `w` address lines. -/
structure RealMode (w : Nat) where
  ip : Uint16
  ax : Uint16
  bx : Uint16
  si : Uint16
  sp : Uint16
  ds : Uint16
  ss : Uint16
  zf : Bool
  /-- The direction flag: set, `lodsb` goes down. -/
  df : Bool
  mem : BitVec w → Uint8
  /-- The video calls made, in order. -/
  calls : List VideoCall

/-- The video services: what they return with. -/
abbrev Firmware (w : Nat) := RealMode w → RealMode w

variable {w : Nat}

/-- A segment and an offset as an address. -/
def linear (w : Nat) (seg off : Uint16) : BitVec w := seg.setWidth w <<< 4 + off.setWidth w

namespace RealMode

def al (c : RealMode w) : Uint8 := c.ax.extractLsb' 0 8
def ah (c : RealMode w) : Uint8 := c.ax.extractLsb' 8 8

/-- A word on the stack. -/
def push (c : RealMode w) (v : Uint16) : RealMode w :=
  { c with
    sp := c.sp - 2
    mem := Function.update
      (Function.update c.mem (linear w c.ss (c.sp - 2)) (v.extractLsb' 0 8))
      (linear w c.ss (c.sp - 2 + 1)) (v.extractLsb' 8 8) }

/-- The word on top of the stack. -/
def top (c : RealMode w) : Uint16 :=
  word (c.mem (linear w c.ss (c.sp + 1))) (c.mem (linear w c.ss c.sp))

/-- The address `lodsb` goes on to. -/
def nextSi (c : RealMode w) : Uint16 := if c.df then c.si - 1 else c.si + 1

end RealMode

section Machine

variable (fw : Firmware w) (origin : Uint16)

/-- One instruction. -/
def Instr.exec (c : RealMode w) (i : Instr) : RealMode w :=
  let next := c.ip + BitVec.ofNat 16 i.size
  match i with
  | .jmpShort l => { c with ip := origin + offset l }
  | .movAx v => { c with ip := next, ax := v }
  | .movDs => { c with ip := next, ds := c.ax }
  | .call l => { c.push next with ip := origin + offset l }
  -- the source has no `org`: an offset is one from the start of the sector
  | .movSi l => { c with ip := next, si := offset l }
  | .movAh v => { c with ip := next, ax := word v c.al }
  | .movAl v => { c with ip := next, ax := word c.ah v }
  | .int10 => { fw c with ip := next, calls := c.calls ++ [⟨c.ax, c.bx⟩] }
  | .ret => { c with ip := c.top, sp := c.sp + 2 }
  | .lodsb => { c with ip := next, ax := word c.ah (c.mem (linear w c.ds c.si)), si := c.nextSi }
  | .orAl => { c with ip := next, zf := decide (c.al = 0) }
  | .jz l => { c with ip := if c.zf then origin + offset l else next }

/-- The instruction at `cs:ip`, if the source has one there. -/
def step (c : RealMode w) : Option (RealMode w) :=
  (instrAt (c.ip - origin)).map (Instr.exec fw origin c)

end Machine

/-! ## What the firmware leaves alone -/

/-- An address of the sector. -/
def InSector (a : BitVec w) : Prop := ∃ off : Uint16, off.toNat < 512 ∧ a = linear w 0x07C0 off

/-- An address of the sector, or of the word on top of the stack. -/
def Protected (c : RealMode w) (a : BitVec w) : Prop :=
  InSector a ∨ a = linear w c.ss c.sp ∨ a = linear w c.ss (c.sp + 1)

/-- A state with the same registers but for AX, SI, IP and the zero flag, and the same protected
    memory. -/
structure Kept (c c' : RealMode w) : Prop where
  bx : c'.bx = c.bx
  sp : c'.sp = c.sp
  ds : c'.ds = c.ds
  ss : c'.ss = c.ss
  df : c'.df = c.df
  mem : ∀ a, Protected c a → c'.mem a = c.mem a

namespace Kept

variable {c c' c'' : RealMode w}

theorem trans (h : Kept c c') (h' : Kept c' c'') : Kept c c'' where
  bx := h'.bx.trans h.bx
  sp := h'.sp.trans h.sp
  ds := h'.ds.trans h.ds
  ss := h'.ss.trans h.ss
  df := h'.df.trans h.df
  mem a ha := by
    have ha' : Protected c' a := by
      unfold Protected
      rw [h.sp, h.ss]
      exact ha
    rw [h'.mem a ha', h.mem a ha]

/-- The word on top of the stack is protected. -/
theorem top (h : Kept c c') : c'.top = c.top := by
  unfold RealMode.top
  rw [h.ss, h.sp, h.mem _ (Or.inr (Or.inl rfl)), h.mem _ (Or.inr (Or.inr rfl))]

end Kept

/-- The sector, entered in `c₀`, is inside one of its two routines. -/
structure Inside (c₀ c : RealMode w) : Prop where
  bx : c.bx = c₀.bx
  sp : c.sp = c₀.sp - 2
  ds : c.ds = 0x07C0
  ss : c.ss = c₀.ss
  df : c.df = c₀.df
  mem : ∀ a, InSector a → c.mem a = c₀.mem a

theorem Inside.kept {c₀ c c' : RealMode w} (h : Inside c₀ c) (hkept : Kept c c') :
    Inside c₀ c' where
  bx := hkept.bx.trans h.bx
  sp := hkept.sp.trans h.sp
  ds := hkept.ds.trans h.ds
  ss := hkept.ss.trans h.ss
  df := hkept.df.trans h.df
  mem a ha := (hkept.mem a (Or.inl ha)).trans (h.mem a ha)

/-- **What the sector asks of the firmware**, if it was entered in `c₀`: to set the mode and to print
    a character, called from one of the routines, without the loss of what they go on with. -/
def Firmware.Keeps (fw : Firmware w) (origin : Uint16) (c₀ : RealMode w) : Prop :=
  ∀ c, Inside c₀ c → instrAt (c.ip - origin) = some .int10 → c.ax = 0x0003 ∨ c.ah = 0x0E →
    Kept c (fw c) ∧ (fw c).si = c.si

/-! ## Blocks of code -/

theorem word_high (hi lo : Uint8) : (word hi lo).extractLsb' 8 8 = hi := by
  apply BitVec.eq_of_getLsbD_eq
  intro i hi'
  have hge : ¬ 8 + i < 8 := by omega
  rw [BitVec.getLsbD_extractLsb', getLsbD_word, if_neg hge, Nat.add_sub_cancel_left]
  simp only [hi', decide_true, Bool.true_and]

section Blocks

variable {fw : Firmware w} {origin : Uint16} {c₀ c : RealMode w} {off : Uint16} {x : Uint8}

/-- The instruction `off` bytes into the sector. -/
theorem step_at {i : Instr} (hip : c.ip = origin + off) (hi : instrAt off = some i) :
    step fw origin c = some (i.exec fw origin c) := by
  have hoff : c.ip - origin = off := by
    rw [hip, BitVec.add_comm, BitVec.add_sub_cancel]
  rw [step, hoff, hi]
  rfl

/-- The next instruction. -/
theorem ip_add (hip : c.ip = origin + off) (n : Nat) :
    c.ip + BitVec.ofNat 16 n = origin + (off + BitVec.ofNat 16 n) := by
  rw [hip, BitVec.add_assoc]

/-- The instruction there, from the state alone. -/
theorem instrAt_ip {i : Instr} (hip : c.ip = origin + off) (hi : instrAt off = some i) :
    instrAt (c.ip - origin) = some i := by
  rw [hip, BitVec.add_comm, BitVec.add_sub_cancel]
  exact hi

/-- **One character**: it is printed, and SI goes on. -/
theorem printString_char (hfw : fw.Keeps origin c₀) (hin : Inside c₀ c)
    (hip : c.ip = origin + offset .printString) (hbyte : c.mem (linear w c.ds c.si) = x)
    (hx : x ≠ 0) :
    ∃ c', Reaches (step fw origin) c c' ∧ c'.ip = origin + offset .printString ∧
      c'.si = c.nextSi ∧ c'.calls = c.calls ++ [⟨word 0xE x, c.bx⟩] ∧ Kept c c' := by
  let c₁ := Instr.lodsb.exec fw origin c
  let c₂ := Instr.orAl.exec fw origin c₁
  let c₃ := (Instr.jz .done).exec fw origin c₂
  let c₄ := (Instr.movAh 0xE).exec fw origin c₃
  let c₅ := Instr.int10.exec fw origin c₄
  have hal : c₁.al = x := (word_low c.ah _).trans hbyte
  have hzf : c₂.zf = false := by
    show decide (c₁.al = 0) = false
    rw [hal]
    exact decide_eq_false hx
  have hip₁ : c₁.ip = origin + 56 := ip_add hip 1
  have hip₂ : c₂.ip = origin + 58 := ip_add hip₁ 2
  have hip₃ : c₃.ip = origin + 60 := by
    show (if c₂.zf then origin + offset .done else c₂.ip + 2) = _
    rw [hzf]
    exact ip_add hip₂ 2
  have hip₄ : c₄.ip = origin + 62 := ip_add hip₃ 2
  have hip₅ : c₅.ip = origin + 64 := ip_add hip₄ 2
  have hax : c₄.ax = word 0xE x := congrArg (word 0xE) hal
  have hkept₄ : Kept c c₄ := ⟨rfl, rfl, rfl, rfl, rfl, fun _ _ => rfl⟩
  obtain ⟨hkept₅, hsi⟩ := hfw c₄ (hin.kept hkept₄) (instrAt_ip hip₄ rfl) (Or.inr (word_high 0xE _))
  have hkept := hkept₄.trans hkept₅
  refine ⟨(Instr.jmpShort .printString).exec fw origin c₅, ?_, rfl, hsi, ?_,
    ⟨hkept.bx, hkept.sp, hkept.ds, hkept.ss, hkept.df, hkept.mem⟩⟩
  · exact (Reaches.single (step_at hip rfl)).trans <|
      .head (step_at hip₁ rfl) <| .head (step_at hip₂ rfl) <| .head (step_at hip₃ rfl) <|
      .head (step_at hip₄ rfl) <| .single (step_at hip₅ rfl)
  · show c.calls ++ [⟨c₄.ax, c.bx⟩] = _
    rw [hax]

/-- **The terminator**: the call returns. -/
theorem printString_end (hip : c.ip = origin + offset .printString)
    (hbyte : c.mem (linear w c.ds c.si) = 0) :
    ∃ c', Reaches (step fw origin) c c' ∧ c'.ip = c.top ∧ c'.calls = c.calls := by
  let c₁ := Instr.lodsb.exec fw origin c
  let c₂ := Instr.orAl.exec fw origin c₁
  let c₃ := (Instr.jz .done).exec fw origin c₂
  have hal : c₁.al = 0 := (word_low c.ah _).trans hbyte
  have hzf : c₂.zf = true := decide_eq_true hal
  have hip₁ : c₁.ip = origin + 56 := ip_add hip 1
  have hip₂ : c₂.ip = origin + 58 := ip_add hip₁ 2
  have hip₃ : c₃.ip = origin + offset .done := if_pos hzf
  refine ⟨Instr.ret.exec fw origin c₃, ?_, rfl, rfl⟩
  exact (Reaches.single (step_at hip rfl)).trans <|
    .head (step_at hip₁ rfl) <| .head (step_at hip₂ rfl) <| .single (step_at hip₃ rfl)

/-- Bytes at DS:SI, upwards, all of them in the sector. -/
def Text (c : RealMode w) (bytes : CString) : Prop :=
  ∀ (i : Nat) (x : Uint8), bytes[i]? = some x →
    InSector (linear w c.ds (c.si + BitVec.ofNat 16 i)) ∧
      c.mem (linear w c.ds (c.si + BitVec.ofNat 16 i)) = x

theorem Text.head {bytes : CString} (htext : Text c (x :: bytes)) :
    c.mem (linear w c.ds c.si) = x := by
  have hfirst := (htext 0 x rfl).2
  rw [BitVec.add_zero] at hfirst
  exact hfirst

/-- The bytes from the next one on. -/
theorem Text.tail {c' : RealMode w} {bytes : CString} (htext : Text c (x :: bytes))
    (hkept : Kept c c') (hsi : c'.si = c.si + 1) : Text c' bytes := by
  intro i y hy
  obtain ⟨hin, hbyte⟩ := htext (i + 1) y hy
  have haddr : c'.si + BitVec.ofNat 16 i = c.si + BitVec.ofNat 16 (i + 1) := by
    rw [hsi, BitVec.add_assoc, Nat.add_comm i, BitVec.ofNat_add]
    rfl
  rw [hkept.ds, haddr, hkept.mem _ (Or.inl hin)]
  exact ⟨hin, hbyte⟩

/-- **`print_string`**, upwards: the text is printed and the call returns. -/
theorem printString_text (hfw : fw.Keeps origin c₀) (hin : Inside c₀ c)
    (hip : c.ip = origin + offset .printString) (hdf : c.df = false) {s : CString}
    (hs : ∀ x ∈ s, x ≠ 0) (htext : Text c (s ++ [0])) :
    ∃ c', Reaches (step fw origin) c c' ∧ c'.ip = c.top ∧
      c'.calls = c.calls ++ s.map fun x => ⟨word 0xE x, c.bx⟩ := by
  induction s generalizing c with
  | nil =>
    rw [List.map_nil, List.append_nil]
    exact printString_end hip htext.head
  | cons x s ih =>
    obtain ⟨c', hreach, hip', hsi, hcalls, hkept⟩ :=
      printString_char hfw hin hip htext.head (hs x List.mem_cons_self)
    have hup : c'.si = c.si + 1 := by
      rw [hsi, RealMode.nextSi, hdf]
      rfl
    obtain ⟨c'', hreach', hret, hcalls'⟩ := ih (hin.kept hkept) hip' (hkept.df.trans hdf)
      (fun y hy => hs y (List.mem_cons_of_mem x hy)) (htext.tail hkept hup)
    refine ⟨c'', hreach.trans hreach', hret.trans hkept.top, ?_⟩
    rw [hcalls', hcalls, hkept.bx, List.map_cons, List.append_assoc]
    rfl

end Blocks

/-! ## The entry -/

/-- The bytes in front of the code are in memory. -/
def Loaded (mem : BitVec w → Uint8) : Prop :=
  ∀ (i : Nat) (x : Uint8), sectorStart[i]? = some x →
    mem (linear w 0x07C0 (BitVec.ofNat 16 i)) = x

/-- **What the firmware hands over**: the sector at 0x7C00, and a stack with room for one word that
    is not in it. -/
structure AtEntry (origin : Uint16) (c : RealMode w) : Prop where
  ip : c.ip = origin
  lines : 20 ≤ w
  loaded : Loaded c.mem
  stackLow : ¬ InSector (linear w c.ss (c.sp - 2))
  stackHigh : ¬ InSector (linear w c.ss (c.sp - 2 + 1))

/-- A segment and two offsets in a row: two addresses. -/
theorem linear_succ_ne (hw : 16 ≤ w) (seg off : Uint16) :
    linear w seg (off + 1) ≠ linear w seg off := by
  intro h
  have hsame : (off + 1).setWidth w = off.setWidth w := (BitVec.add_right_inj _).mp h
  have hback := congrArg (BitVec.setWidth 16) hsame
  rw [BitVec.setWidth_setWidth_of_le _ hw, BitVec.setWidth_setWidth_of_le _ hw,
    BitVec.setWidth_eq, BitVec.setWidth_eq] at hback
  bv_omega

/-- The word pushed is on top. -/
theorem top_push (hw : 16 ≤ w) (c : RealMode w) (v : Uint16) : (c.push v).top = v := by
  let low := linear w c.ss (c.sp - 2)
  let high := linear w c.ss (c.sp - 2 + 1)
  let mem := Function.update (Function.update c.mem low (v.extractLsb' 0 8)) high
    (v.extractLsb' 8 8)
  have hhigh : mem high = v.extractLsb' 8 8 := Function.update_self ..
  have hlow : mem low = v.extractLsb' 0 8 :=
    (Function.update_of_ne (linear_succ_ne hw _ _).symm _ _).trans (Function.update_self ..)
  show word (mem high) (mem low) = v
  rw [hhigh, hlow, word_bytes]

/-- A push off the sector leaves it as it is. -/
theorem push_mem {c : RealMode w} (hlow : ¬ InSector (linear w c.ss (c.sp - 2)))
    (hhigh : ¬ InSector (linear w c.ss (c.sp - 2 + 1))) (v : Uint16) {a : BitVec w}
    (ha : InSector a) : (c.push v).mem a = c.mem a := by
  have hne : a ≠ linear w c.ss (c.sp - 2) := fun h => hlow (h ▸ ha)
  have hne' : a ≠ linear w c.ss (c.sp - 2 + 1) := fun h => hhigh (h ▸ ha)
  show Function.update (Function.update c.mem _ _) _ _ _ = _
  rw [Function.update_of_ne hne', Function.update_of_ne hne]

/-- A call leaves the address of the instruction behind it on top. -/
theorem top_call (hw : 16 ≤ w) (fw : Firmware w) {origin off : Uint16} {c : RealMode w}
    (hip : c.ip = origin + off) (l : Label) :
    ((Instr.call l).exec fw origin c).top = origin + (off + 3) := by
  show (c.push (c.ip + 3)).top = _
  rw [top_push hw, hip, BitVec.add_assoc]

/-- The bytes in front of the code are in the sector. -/
theorem inSector_start {i : Nat} {x : Uint8} (hx : sectorStart[i]? = some x) :
    InSector (linear w 0x07C0 (BitVec.ofNat 16 i)) := by
  have hi : i < sectorStart.length := (List.getElem?_eq_some_iff.mp hx).1
  have hlen : sectorStart.length = 32 := by decide
  refine ⟨_, ?_, rfl⟩
  rw [BitVec.toNat_ofNat]
  omega

/-- What `print_string` is called with. -/
structure Called (origin : Uint16) (c c' : RealMode w) : Prop where
  inside : Inside c c'
  ip : c'.ip = origin + offset .printString
  si : c'.si = offset .bootmsg
  top : c'.top = origin + offset .here
  calls : c'.calls = c.calls ++ [⟨0x0003, c.bx⟩]
  loaded : Loaded c'.mem

section Run

variable {fw : Firmware w} {origin : Uint16} {c : RealMode w}

/-- `clear_screen` has returned. -/
structure Cleared (c c' : RealMode w) : Prop where
  ip : c'.ip = c.top
  sp : c'.sp = c.sp + 2
  ds : c'.ds = c.ds
  ss : c'.ss = c.ss
  df : c'.df = c.df
  bx : c'.bx = c.bx
  calls : c'.calls = c.calls ++ [⟨0x0003, c.bx⟩]
  mem : ∀ a, InSector a → c'.mem a = c.mem a

/-- **`clear_screen`** sets the video mode and returns. -/
theorem clearScreen_returns {c₀ : RealMode w} (hfw : fw.Keeps origin c₀) (hin : Inside c₀ c)
    (hip : c.ip = origin + offset .clearScreen) :
    ∃ c', Reaches (step fw origin) c c' ∧ Cleared c c' := by
  let c₁ := (Instr.movAh 0).exec fw origin c
  let c₂ := (Instr.movAl 3).exec fw origin c₁
  let c₃ := Instr.int10.exec fw origin c₂
  have hip₁ : c₁.ip = origin + 50 := ip_add hip 2
  have hip₂ : c₂.ip = origin + 52 := ip_add hip₁ 2
  have hip₃ : c₃.ip = origin + 54 := ip_add hip₂ 2
  have hax : c₂.ax = 0x0003 := congrArg (word · 3) (word_high 0 c.al)
  -- the firmware has left the return address on top of the stack
  have hkept₂ : Kept c c₂ := ⟨rfl, rfl, rfl, rfl, rfl, fun _ _ => rfl⟩
  obtain ⟨hkept₃, -⟩ := hfw c₂ (hin.kept hkept₂) (instrAt_ip hip₂ rfl) (Or.inl hax)
  have hkept : Kept c c₃ :=
    ⟨hkept₃.bx, hkept₃.sp, hkept₃.ds, hkept₃.ss, hkept₃.df, hkept₃.mem⟩
  refine ⟨Instr.ret.exec fw origin c₃, ?_,
    ⟨hkept.top, congrArg (· + 2) hkept.sp, hkept.ds, hkept.ss, hkept.df, hkept.bx, ?_,
      fun a ha => hkept.mem a (Or.inl ha)⟩⟩
  · exact (Reaches.single (step_at hip rfl)).trans <|
      .head (step_at hip₁ rfl) <| .head (step_at hip₂ rfl) <| .single (step_at hip₃ rfl)
  · show c.calls ++ [⟨c₂.ax, c.bx⟩] = _
    rw [hax]

/-- **From the entry to the call**: the screen is cleared. -/
theorem reaches_called (hfw : fw.Keeps origin c) (h : AtEntry origin c) :
    ∃ c', Reaches (step fw origin) c c' ∧ Called origin c c' := by
  have hw : 16 ≤ w := Nat.le_trans (by decide) h.lines
  have hip : c.ip = origin + (0 : Uint16) := h.ip.trans (BitVec.add_zero origin).symm
  let c₁ := (Instr.jmpShort .begin).exec fw origin c
  let c₂ := (Instr.movAx 0x07C0).exec fw origin c₁
  let c₃ := Instr.movDs.exec fw origin c₂
  let c₄ := (Instr.call .clearScreen).exec fw origin c₃
  have hip₁ : c₁.ip = origin + 32 := rfl
  have hip₂ : c₂.ip = origin + 35 := ip_add hip₁ 3
  have hip₃ : c₃.ip = origin + 37 := ip_add hip₂ 2
  have htop : c₄.top = origin + 40 := top_call hw fw hip₃ .clearScreen
  have hreach : Reaches (step fw origin) c c₄ :=
    (Reaches.single (step_at hip rfl)).trans <| .head (step_at hip₁ rfl) <|
      .head (step_at hip₂ rfl) <| .single (step_at hip₃ rfl)
  have hin₄ : Inside c c₄ :=
    ⟨rfl, rfl, rfl, rfl, rfl, fun a ha => push_mem h.stackLow h.stackHigh (c₃.ip + 3) ha⟩
  obtain ⟨c₅, hreach₅, hcleared⟩ := clearScreen_returns hfw hin₄ rfl
  let c₆ := (Instr.movSi .bootmsg).exec fw origin c₅
  let c₇ := (Instr.call .printString).exec fw origin c₆
  have hip₅ : c₅.ip = origin + 40 := hcleared.ip.trans htop
  have hip₆ : c₆.ip = origin + 43 := ip_add hip₅ 3
  have hsp : c₆.sp = c.sp := hcleared.sp.trans (BitVec.sub_add_cancel c.sp 2)
  have hss : c₆.ss = c.ss := hcleared.ss
  have hin₇ : Inside c c₇ := by
    refine ⟨hcleared.bx, congrArg (· - 2) hsp, hcleared.ds, hss, hcleared.df, fun a ha => ?_⟩
    have hpush : (c₆.push (c₆.ip + 3)).mem a = c₆.mem a :=
      push_mem (by rw [hss, hsp]; exact h.stackLow) (by rw [hss, hsp]; exact h.stackHigh) _ ha
    exact hpush.trans ((hcleared.mem a ha).trans (hin₄.mem a ha))
  refine ⟨c₇, ?_, hin₇, rfl, rfl, top_call hw fw hip₆ .printString, hcleared.calls,
    fun i x hx => (hin₇.mem _ (inSector_start hx)).trans (h.loaded i x hx)⟩
  exact hreach.trans <| hreach₅.trans <| .head (step_at hip₅ rfl) <| .single (step_at hip₆ rfl)

/-- No instruction takes a call back. -/
theorem step_logs : Logs (step fw origin) RealMode.calls := by
  intro c c' hstep
  obtain ⟨i, -, rfl⟩ := Option.map_eq_some_iff.mp hstep
  cases i with
  | int10 => exact List.prefix_append _ _
  | _ => exact List.prefix_refl _

/-- The message is what SI leads to. -/
theorem Called.text {c' : RealMode w} (h : Called origin c c') : Text c' (bootmsg ++ [0]) := by
  intro i x hx
  have hbyte : sectorStart[i + 2]? = some x := hx
  have haddr : c'.si + BitVec.ofNat 16 i = BitVec.ofNat 16 (i + 2) := by
    rw [h.si, Nat.add_comm i, BitVec.ofNat_add]
    rfl
  rw [h.inside.ds, haddr]
  exact ⟨inSector_start hbyte, h.loaded (i + 2) x hbyte⟩

/-- **Upwards**: the message, and then nothing more. -/
theorem Called.up (hfw : fw.Keeps origin c) {c' : RealMode w} (h : Called origin c c')
    (hdf : c.df = false) :
    ∃ c'', Reaches (step fw origin) c' c'' ∧ c''.ip = origin + offset .here ∧
      c''.calls = c'.calls ++ bootmsg.map fun x => ⟨word 0xE x, c'.bx⟩ := by
  obtain ⟨c'', hreach, hip, hcalls⟩ :=
    printString_text hfw h.inside h.ip (h.inside.df.trans hdf) (by decide) h.text
  exact ⟨c'', hreach, hip.trans h.top, hcalls⟩

/-- **Downwards**: the F, and the second byte of the jump in front of it. -/
theorem Called.down (hfw : fw.Keeps origin c) {c' : RealMode w} (h : Called origin c c')
    (hdf : c.df = true) :
    ∃ c'', Reaches (step fw origin) c' c'' ∧
      c''.calls = c'.calls ++ [⟨word 0xE (ch 'F'), c'.bx⟩, ⟨word 0xE 0x1E, c'.bx⟩] := by
  have hfirst : c'.mem (linear w c'.ds c'.si) = ch 'F' := by
    rw [h.inside.ds, h.si]
    exact h.loaded 2 _ rfl
  obtain ⟨c₁, hreach₁, hip₁, hsi₁, hcalls₁, hkept₁⟩ :=
    printString_char hfw h.inside h.ip hfirst (by decide)
  have hjump : sectorStart[1]? = some 0x1E := by decide
  have hsecond : c₁.mem (linear w c₁.ds c₁.si) = 0x1E := by
    have hsi : c₁.si = BitVec.ofNat 16 1 := by
      rw [hsi₁, RealMode.nextSi, h.inside.df, hdf, h.si]
      rfl
    rw [hkept₁.ds, h.inside.ds, hsi, hkept₁.mem _ (Or.inl (inSector_start hjump))]
    exact h.loaded 1 _ hjump
  obtain ⟨c₂, hreach₂, -, -, hcalls₂, -⟩ :=
    printString_char hfw (h.inside.kept hkept₁) hip₁ hsecond (by decide)
  refine ⟨c₂, hreach₁.trans hreach₂, ?_⟩
  rw [hcalls₂, hcalls₁, hkept₁.bx, List.append_assoc]
  rfl

/-- The calls that put the message on a cleared screen. -/
def greeting (bx : Uint16) : List VideoCall :=
  ⟨0x0003, bx⟩ :: bootmsg.map fun x => ⟨word 0xE x, bx⟩

/-- No log has both. -/
theorem greeting_apart (bx : Uint16) :
    ¬ greeting bx <+: [⟨0x0003, bx⟩, ⟨word 0xE (ch 'F'), bx⟩, ⟨word 0xE 0x1E, bx⟩] ∧
      ¬ [⟨0x0003, bx⟩, ⟨word 0xE (ch 'F'), bx⟩, ⟨word 0xE 0x1E, bx⟩] <+: greeting bx := by
  have hlen : (greeting bx).length = 30 := by
    rw [greeting, List.length_cons, List.length_map]
    decide
  constructor
  · intro hpart
    have hle : (greeting bx).length ≤ 3 := hpart.length_le
    omega
  · intro hpart
    have hthird := hpart.getElem (show 2 < 3 by decide)
    have hletter : word 0xE 0x1E = word 0xE (ch 'r') := congrArg VideoCall.ax hthird
    exact absurd hletter (by decide)

end Run

/-! ## A firmware with a screen -/

/-- The cell of the character at a cursor, in the memory of the screen. -/
def screenCell (row column : Uint8) : BitVec 20 :=
  0xB8000 + 2 * (80 * row.setWidth 20 + column.setWidth 20)

/-- The cursor is at 0x450. -/
def withCursor (mem : BitVec 20 → Uint8) (row column : Uint8) : BitVec 20 → Uint8 :=
  Function.update (Function.update mem 0x450 column) 0x451 row

/-- A blank screen. -/
def blankScreen (mem : BitVec 20 → Uint8) : BitVec 20 → Uint8 := fun a =>
  if 0xB8000 ≤ a ∧ a < 0xB8FA0 then (if a.getLsbD 0 then 7 else 0x20) else mem a

/-- The services the sector uses: to set the mode is to blank the screen and put the cursor in its
    corner, to print is to store a character and move on. -/
def plainFirmware : Firmware 20 := fun c =>
  let column := c.mem 0x450
  let row := c.mem 0x451
  if c.ah = 0 then { c with mem := withCursor (blankScreen c.mem) 0 0 }
  else if c.al = 0x0D then { c with mem := withCursor c.mem row 0 }
  else if c.al = 0x0A then { c with mem := withCursor c.mem (row + 1) column }
  else
    { c with
      mem := withCursor (Function.update c.mem (screenCell row column) c.al) row (column + 1) }

theorem screenCell_toNat (row column : Uint8) :
    (screenCell row column).toNat = 0xB8000 + 2 * (80 * row.toNat + column.toNat) := by
  have hrow := row.isLt
  have hcolumn := column.isLt
  have hbase : (0xB8000 : BitVec 20).toNat = 0xB8000 := rfl
  have hbytes : (2 : BitVec 20).toNat = 2 := rfl
  have hwidth : (80 : BitVec 20).toNat = 80 := rfl
  unfold screenCell
  simp only [BitVec.toNat_add, BitVec.toNat_mul, BitVec.toNat_setWidth, hbase, hbytes, hwidth]
  omega

/-- It stores to the screen and to its cursor alone. -/
theorem plainFirmware_mem (c : RealMode 20) {a : BitVec 20} (hcursor : a ≠ 0x450 ∧ a ≠ 0x451)
    (hscreen : a < 0xB8000) : (plainFirmware c).mem a = c.mem a := by
  have hoff : ∀ (mem : BitVec 20 → Uint8) (row column : Uint8),
      withCursor mem row column a = mem a := by
    intro mem row column
    unfold withCursor
    rw [Function.update_of_ne hcursor.2, Function.update_of_ne hcursor.1]
  have hcell : ∀ row column, a ≠ screenCell row column := by
    rintro row column rfl
    have hbelow := BitVec.lt_def.mp hscreen
    rw [screenCell_toNat] at hbelow
    exact absurd hbelow (Nat.not_lt.mpr (Nat.le_add_right _ _))
  unfold plainFirmware
  dsimp only
  split_ifs <;> dsimp only <;> rw [hoff]
  · exact if_neg fun hin => absurd hin.1 (BitVec.not_le.mpr hscreen)
  · exact Function.update_of_ne (hcell _ _) _ _

/-- The sector at 0x7C00 of an empty memory, entered at 0000:7C00 with the stack below it. -/
def firstBoot (df : Bool) : RealMode 20 where
  ip := 0x7C00
  ax := 0xAA55
  bx := 0
  si := 0
  sp := 0x7000
  ds := 0
  ss := 0
  zf := false
  df := df
  mem := fun a => sectorStart.getD (a - 0x7C00).toNat 0
  calls := []

theorem firstBoot_atEntry (df : Bool) : AtEntry 0x7C00 (firstBoot df) where
  ip := rfl
  lines := Nat.le_refl 20
  loaded := by
    intro i x hx
    have hi : i < 32 := (List.getElem?_eq_some_iff.mp hx).1
    have haddr : ∀ i < 32,
        (linear 20 0x07C0 (BitVec.ofNat 16 i) - 0x7C00).toNat = i := by decide
    show sectorStart.getD (linear 20 0x07C0 (BitVec.ofNat 16 i) - 0x7C00).toNat 0 = x
    rw [haddr i hi, List.getD_eq_getElem?_getD, hx]
    rfl
  stackLow := by
    rintro ⟨off, hoff, h⟩
    have hstack : linear 20 0 (0x7000 - 2) = 0x6FFE := by decide
    have hin : (0x6FFE : BitVec 20) = 0x7C00 + off.setWidth 20 := hstack.symm.trans h
    bv_omega
  stackHigh := by
    rintro ⟨off, hoff, h⟩
    have hstack : linear 20 0 (0x7000 - 2 + 1) = 0x6FFF := by decide
    have hin : (0x6FFF : BitVec 20) = 0x7C00 + off.setWidth 20 := hstack.symm.trans h
    bv_omega

/-- The sector and the stack are neither on the screen nor in the cursor. -/
theorem plainFirmware_keeps (df : Bool) : plainFirmware.Keeps 0x7C00 (firstBoot df) := by
  intro c hin _ _
  have hregisters : (plainFirmware c).si = c.si ∧ (plainFirmware c).bx = c.bx ∧
      (plainFirmware c).sp = c.sp ∧ (plainFirmware c).ds = c.ds ∧ (plainFirmware c).ss = c.ss ∧
      (plainFirmware c).df = c.df := by
    unfold plainFirmware
    dsimp only
    split_ifs <;> exact ⟨rfl, rfl, rfl, rfl, rfl, rfl⟩
  obtain ⟨hsi, hbx, hsp, hds, hss, hdf⟩ := hregisters
  have hlow : linear 20 c.ss c.sp = 0x6FFE := by
    rw [hin.ss, hin.sp]
    exact (show linear 20 0 (0x7000 - 2) = 0x6FFE by decide)
  have hhigh : linear 20 c.ss (c.sp + 1) = 0x6FFF := by
    rw [hin.ss, hin.sp]
    exact (show linear 20 0 (0x7000 - 2 + 1) = 0x6FFF by decide)
  refine ⟨⟨hbx, hsp, hds, hss, hdf, fun a ha => ?_⟩, hsi⟩
  rcases ha with ⟨off, hoff, rfl⟩ | rfl | rfl
  · have hsector : linear 20 0x07C0 off = 0x7C00 + off.setWidth 20 := rfl
    rw [hsector]
    refine plainFirmware_mem c ⟨?_, ?_⟩ ?_ <;> bv_omega
  · rw [hlow]
    exact plainFirmware_mem c (by decide) (by decide)
  · rw [hhigh]
    exact plainFirmware_mem c (by decide) (by decide)

end FreeMicroNix.Stage1
