/-
  The processor under an interrupt of this kernel: its registers and memory, the delivery through
  an interrupt gate, and the instructions of `interrupt_handler.asm`.

  A push of a selector writes sixteen bits, and what the upper half of the word then holds differs
  between processors (`Platform.upper`).  An instruction that would fault has no successor state.
  Instructions run one after the other, so `eip` is only followed where it is loaded: by the
  delivery, the call and `iret`.  The arithmetic flags of `add esp` are not followed; `iret` loads
  them all.
-/
import FreeMicroNix.Lib.WordStack
import FreeMicroNix.Isa.Stubs

namespace FreeMicroNix

open WordStack

/-! ## State -/

/-- The registers but the stack pointer. -/
@[ext] structure Registers where
  eax : Uint32
  ecx : Uint32
  edx : Uint32
  ebx : Uint32
  ebp : Uint32
  esi : Uint32
  edi : Uint32
  cs : Uint16
  ds : Uint16
  es : Uint16
  fs : Uint16
  gs : Uint16
  ss : Uint16
  eip : Uint32
  eflags : Uint32

structure Cpu extends Registers where
  esp : Uint32
  mem : Memory

/-- What the interrupted code does not decide. -/
structure Platform where
  /-- The descriptor tables: a data segment that may be loaded at a privilege level, a code
      segment, a stack segment. -/
  dataOk : Uint16 → BitVec 2 → Bool
  codeOk : Uint16 → Bool
  stackOk : Uint16 → BitVec 2 → Bool
  /-- The upper half a push of a selector leaves, from the one that was there. -/
  upper : Uint16 → Uint16
  /-- The stack of ring 0, from the task state segment. -/
  esp0 : Uint32
  ss0 : Uint16
  /-- The addresses of the stubs, of `Interrupt_Handler`, and of the instruction after the call. -/
  addr : Label → Uint32
  handlerAddr : Uint32
  returnAddr : Uint32

/-- The data segment registers of the stub. -/
inductive SegReg where
  | ds
  | es
  | fs
  | gs

/-- The selector in a stack word. -/
def selector (w : Uint32) : Uint16 := w.setWidth 16

/-- The privilege level a selector asks for. -/
def rpl (sel : Uint16) : BitVec 2 := sel.extractLsb' 0 2

/-- `KERNEL_DS`, as the stub loads it. -/
def stubDs : Uint16 := 0x10

/-- The flags an interrupt gate clears: VM, RF, NT, IF and TF. -/
def gateFlags : Uint32 := 0x00034300

/-- The flags of the register: the others read as zero, but bit 1 as one. -/
def loadFlags (w : Uint32) : Uint32 := w &&& 0x003F7FD5 ||| 2

namespace Cpu

/-- The current privilege level. -/
def ring (c : Cpu) : BitVec 2 := rpl c.cs

def seg (c : Cpu) : SegReg → Uint16
  | .ds => c.ds
  | .es => c.es
  | .fs => c.fs
  | .gs => c.gs

def setSeg (c : Cpu) (sel : Uint16) : SegReg → Cpu
  | .ds => { c with ds := sel }
  | .es => { c with es := sel }
  | .fs => { c with fs := sel }
  | .gs => { c with gs := sel }

/-- A load of a data segment register. -/
def loadSeg (plat : Platform) (c : Cpu) (r : SegReg) (sel : Uint16) : Option Cpu :=
  if plat.dataOk sel c.ring then some (c.setSeg sel r) else none

/-- The word `k` words up the stack. -/
def slot (c : Cpu) (k : Nat) : Uint32 := wordAt c.mem c.esp k

def push (c : Cpu) (v : Uint32) : Cpu :=
  { c with esp := c.esp - 4, mem := write32 c.mem (c.esp - 4) v }

def pushAll (c : Cpu) (vs : List Uint32) : Cpu := vs.foldl push c

/-- The word a push of a selector leaves. -/
def selectorWord (plat : Platform) (c : Cpu) (sel : Uint16) : Uint32 :=
  dword (plat.upper ((read32 c.mem (c.esp - 4)).extractLsb' 16 16)) sel

def pushSelector (plat : Platform) (c : Cpu) (sel : Uint16) : Cpu :=
  c.push (c.selectorWord plat sel)

/-- The stack an interrupt uses: that of ring 0, the interrupted one saved on it first. -/
def switchStack (plat : Platform) (c : Cpu) : Cpu :=
  if c.ring = 0 then c
  else ({ c with esp := plat.esp0, ss := plat.ss0 }.pushSelector plat c.ss).push c.esp

/-- A hardware interrupt through an interrupt gate of the kernel, to `offset`. -/
def deliver (plat : Platform) (c : Cpu) (offset : Uint32) : Cpu :=
  { (((c.switchStack plat).push c.eflags).pushSelector plat c.cs).push c.eip with
    cs := 0x08
    eip := offset
    eflags := c.eflags &&& ~~~gateFlags }

/-- A data segment register after a return to a less privileged level. -/
def keptSeg (plat : Platform) (level : BitVec 2) (sel : Uint16) : Uint16 :=
  if plat.dataOk sel level then sel else 0

/-- `iret`.  The returns to another task and to virtual-8086 mode are not followed. -/
def iret (plat : Platform) (c : Cpu) : Option Cpu :=
  let cs := selector (c.slot 1)
  if c.eflags.getLsbD 14 ∨ (c.slot 2).getLsbD 17 then none
  else if plat.codeOk cs = false ∨ rpl cs < c.ring then none
  else
    let c' := { c with eip := c.slot 0, cs := cs, eflags := loadFlags (c.slot 2) }
    if rpl cs = c.ring then some { c' with esp := c.esp + 12 }
    else if plat.stackOk (selector (c.slot 4)) (rpl cs) = false then none
    else some { c' with
      esp := c.slot 3
      ss := selector (c.slot 4)
      ds := keptSeg plat (rpl cs) c.ds
      es := keptSeg plat (rpl cs) c.es
      fs := keptSeg plat (rpl cs) c.fs
      gs := keptSeg plat (rpl cs) c.gs }

end Cpu

/-! ## Instructions -/

inductive Instr where
  | cli
  /-- `push byte`, sign-extended -/
  | push (v : Uint32)
  | pushad
  | pushSeg (r : SegReg)
  /-- `mov ax, v` -/
  | movAx (v : Uint16)
  /-- `mov r, ax` -/
  | movSeg (r : SegReg)
  /-- `mov eax, esp` -/
  | movEaxEsp
  | pushEax
  /-- `mov eax, Interrupt_Handler` -/
  | movEaxHandler
  /-- `call eax`, up to the first instruction of the callee -/
  | callEax
  | popEax
  | popSeg (r : SegReg)
  | popad
  | addEsp (v : Uint32)
  | iret

/-- One instruction. -/
def Instr.exec (plat : Platform) (c : Cpu) : Instr → Option Cpu
  | cli => some { c with eflags := c.eflags &&& ~~~0x200 }
  | push v => some (c.push v)
  | pushad => some (c.pushAll [c.eax, c.ecx, c.edx, c.ebx, c.esp, c.ebp, c.esi, c.edi])
  | pushSeg r => some (c.pushSelector plat (c.seg r))
  | movAx v => some { c with eax := dword (c.eax.extractLsb' 16 16) v }
  | movSeg r => c.loadSeg plat r (c.eax.setWidth 16)
  | movEaxEsp => some { c with eax := c.esp }
  | pushEax => some (c.push c.eax)
  | movEaxHandler => some { c with eax := plat.handlerAddr }
  | callEax => some { c.push plat.returnAddr with eip := c.eax }
  | popEax => some { c with eax := c.slot 0, esp := c.esp + 4 }
  | popSeg r => { c with esp := c.esp + 4 }.loadSeg plat r (selector (c.slot 0))
  | popad => some { c with
      edi := c.slot 0
      esi := c.slot 1
      ebp := c.slot 2
      ebx := c.slot 4
      edx := c.slot 5
      ecx := c.slot 6
      eax := c.slot 7
      esp := c.esp + 32 }
  | addEsp v => some { c with esp := c.esp + v }
  | iret => c.iret plat

/-- Instructions in a row. -/
def Cpu.run (plat : Platform) (c : Cpu) (code : List Instr) : Option Cpu :=
  code.foldlM (Instr.exec plat) c

namespace Cpu

@[simp] theorem run_nil (plat : Platform) (c : Cpu) : c.run plat [] = some c := rfl

/-- One instruction after another. -/
theorem run_cons_of {plat : Platform} {c c' : Cpu} {i : Instr} (h : i.exec plat c = some c')
    (code : List Instr) : c.run plat (i :: code) = c'.run plat code := by
  unfold run
  rw [List.foldlM_cons, h]
  rfl

theorem run_append (plat : Platform) (c : Cpu) (code code' : List Instr) :
    c.run plat (code ++ code') = (c.run plat code).bind fun c' => c'.run plat code' :=
  List.foldlM_append

/-- One block after another. -/
theorem run_append_of {plat : Platform} {c c' : Cpu} {code : List Instr}
    (h : c.run plat code = some c') (code' : List Instr) :
    c.run plat (code ++ code') = c'.run plat code' := by
  rw [run_append, h]
  rfl

/-! ## Pushes -/

theorem pushAll_append (c : Cpu) (vs vs' : List Uint32) :
    c.pushAll (vs ++ vs') = (c.pushAll vs).pushAll vs' := List.foldl_append

/-- **Pushes touch no register but the stack pointer**, which goes down four bytes for each. -/
theorem pushAll_registers (c : Cpu) (vs : List Uint32) :
    (c.pushAll vs).toRegisters = c.toRegisters ∧
      (c.pushAll vs).esp = c.esp - BitVec.ofNat 32 (4 * vs.length) := by
  induction vs generalizing c with
  | nil => exact ⟨rfl, (BitVec.sub_zero c.esp).symm⟩
  | cons v vs ih =>
    obtain ⟨hregs, hesp⟩ := ih (c.push v)
    refine ⟨hregs, hesp.trans ?_⟩
    show c.esp - 4 - BitVec.ofNat 32 (4 * vs.length) = _
    rw [List.length_cons, Nat.mul_succ, BitVec.ofNat_add]
    bv_omega

/-- **What pushes leave on the stack**: the last first, over what was there. -/
theorem pushAll_holds {c : Cpu} {old : List Uint32} (h : Holds c.mem c.esp old) (vs : List Uint32)
    (hlen : 4 * (vs.length + old.length) ≤ 2 ^ 32) :
    Holds (c.pushAll vs).mem (c.pushAll vs).esp (vs.reverse ++ old) := by
  induction vs generalizing c old with
  | nil => exact h
  | cons v vs ih =>
    rw [List.length_cons] at hlen
    have hpush : Holds (c.push v).mem (c.push v).esp (v :: old) := h.push v (by omega)
    rw [List.reverse_cons, List.append_assoc]
    apply ih hpush
    rw [List.length_cons]
    omega

/-- A selector is the lower half of its word. -/
theorem selector_dword (upper sel : Uint16) : selector (dword upper sel) = sel := by
  apply BitVec.eq_of_getLsbD_eq
  intro i hi
  unfold selector
  rw [BitVec.getLsbD_setWidth, getLsbD_dword, if_pos hi]
  simp [hi]

/-- A push of a selector is the push of some word that has it in its lower half. -/
theorem pushSelector_eq (plat : Platform) (c : Cpu) (sel : Uint16) :
    ∃ w, selector w = sel ∧ c.pushSelector plat sel = c.push w :=
  ⟨c.selectorWord plat sel, selector_dword _ sel, rfl⟩

/-! ## Data segment registers -/

/-- A data segment register the tables allow is loaded. -/
theorem loadSeg_of_ok {plat : Platform} {c : Cpu} {sel : Uint16} (r : SegReg)
    (h : plat.dataOk sel c.ring = true) : c.loadSeg plat r sel = some (c.setSeg sel r) :=
  if_pos h

end Cpu

end FreeMicroNix
