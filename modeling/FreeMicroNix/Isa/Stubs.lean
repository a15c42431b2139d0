/-
  `interrupt_handler.asm`, lines 72-151: the three macro families of entry stubs and their
  instances.

  A stub is named by the label its macro defines, and characterised by what it pushes before it
  jumps to the common part (`Isa.ContextSwitch`): the vector on top, and under it a zero in place
  of the error code unless the processor has pushed one.  `isr` and `isr_error` define labels of
  one family and push their parameter; `irq` defines another and pushes its parameter plus 32.
-/
import FreeMicroNix.Types

namespace FreeMicroNix

/-- The label of a stub: `isr%1` or `irq%1`. -/
inductive Label where
  | isr (n : Uint8)
  | irq (n : Uint8)
  deriving DecidableEq, Repr

/-- An instance of one of the macros. -/
inductive Stub where
  | isr (n : Uint8)
  | isrError (n : Uint8)
  | irq (n : Uint8)
  deriving DecidableEq, Repr

namespace Stub

/-- The label the macro defines. -/
def label : Stub → Label
  | isr n => .isr n
  | isrError n => .isr n
  | irq n => .irq n

/-- `push byte`: the assembler's byte, sign-extended by the processor. -/
def pushByte (b : Uint8) : Uint32 := b.signExtend 32

/-- The double words pushed, first push first. -/
def pushes : Stub → List Uint32
  | isr n => [pushByte 0, pushByte n]
  | isrError n => [pushByte n]
  | irq n => [pushByte 0, pushByte (n + 32)]

/-- `int_no` of the context: the last push. -/
def intNo (s : Stub) : Option Uint32 := s.pushes.getLast?

end Stub

/-- `Interrupt_Exception_Set` -/
def interruptExceptionSet : List Stub :=
  [.isr 0, .isr 1, .isr 2, .isr 3, .isr 4, .isr 5, .isr 6, .isr 7, .isrError 8, .isr 9,
    .isrError 10, .isrError 11, .isrError 12, .isrError 13, .isrError 14, .isr 15, .isr 16,
    .isrError 17, .isr 18, .isr 19, .isr 20, .isr 21, .isr 22, .isr 23, .isr 24, .isr 25, .isr 26,
    .isr 27, .isr 28, .isr 29, .isrError 30, .isr 31, .isr 120, .isr 121]

/-- `Interrupt_IRQ_Set` -/
def interruptIrqSet : List Stub :=
  [.irq 0, .irq 1, .irq 2, .irq 3, .irq 4, .irq 5, .irq 6, .irq 7, .irq 8, .irq 9, .irq 10,
    .irq 11, .irq 12, .irq 13, .irq 14, .irq 15]

/-- Every stub of the file. -/
def stubs : List Stub := interruptExceptionSet ++ interruptIrqSet

end FreeMicroNix
