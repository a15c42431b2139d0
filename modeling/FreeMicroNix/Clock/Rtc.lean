/-
  The CMOS chip behind ports 0x70 and 0x71, and the functions of `kernel/x86/rtc.c` that use it.

  A write to port 0x70 selects a register with its low seven bits, and its high bit is the latch
  that disables the non-maskable interrupt; a read of port 0x71 returns the register selected.
  `RTC_Get_Register`, the flag, `RTC_Handler` and `Initialize_RTC` are here as one step each;
  `RTC_Update`, which an interrupt can cut between any two port accesses, is in `Clock.Update`.
-/
import FreeMicroNix.Isa.Interrupt

namespace FreeMicroNix

/-! ## The chip -/

/-- The chip: the last byte written to port 0x70, and the registers. -/
structure Cmos where
  address : Uint8
  contents : BitVec 7 → Uint8

namespace Cmos

/-- The register selected. -/
def selected (c : Cmos) : BitVec 7 := c.address.setWidth 7

/-- The non-maskable interrupt is disabled. -/
def latch (c : Cmos) : Bool := c.address.getLsbD 7

/-- `outb(0x70, value)` -/
def outAddress (c : Cmos) (value : Uint8) : Cmos := { c with address := value }

/-- `inb(0x70)` -/
def inAddress (c : Cmos) : Uint8 := c.address

/-- `inb(0x71)` -/
def inData (c : Cmos) : Uint8 := c.contents c.selected

/-- `outb(0x71, value)` -/
def outData (c : Cmos) (value : Uint8) : Cmos :=
  { c with contents := Function.update c.contents c.selected value }

@[simp] theorem outAddress_selected (c : Cmos) (value : Uint8) :
    (c.outAddress value).selected = value.setWidth 7 := rfl

@[simp] theorem outAddress_latch (c : Cmos) (value : Uint8) :
    (c.outAddress value).latch = value.getLsbD 7 := rfl

@[simp] theorem outData_latch (c : Cmos) (value : Uint8) : (c.outData value).latch = c.latch := rfl

end Cmos

/-! ## Reading a register -/

/-- `RTC_Get_Update_In_Progress_Flag` -/
def rtcGetUpdateInProgressFlag (c : Cmos) : Uint8 × Cmos :=
  let c := c.outAddress 0x0A
  (c.inData &&& 0x80, c)

/-- `RTC_Get_Register` -/
def rtcGetRegister (c : Cmos) (reg : Uint32) : Uint8 × Cmos :=
  let c := c.outAddress (reg.setWidth 8)
  (c.inData, c)

/-! ## The driver's state -/

/-- `rtc_time_t` -/
structure RtcTime where
  second : Uint8
  minute : Uint8
  hour : Uint8
  day : Uint8
  month : Uint8
  year : Uint32
  deriving DecidableEq

/-- `sizeof(rtc_time_t)` -/
def sizeofRtcTime : Uint32 := 12

/-- The globals of the file, and the structures in memory by their address. -/
structure Rtc where
  rtcTicks : Uint32
  rtcCurrent : Uint32
  times : Uint32 → RtcTime

/-- `RTC_Handler`: the value of register C is thrown away. -/
def rtcHandler (r : Rtc) (c : Cmos) : Rtc × Cmos :=
  ({ r with rtcTicks := r.rtcTicks + 1 }, c.outAddress 0x0C)

/-- `Get_RTC_Ticks` -/
def getRtcTicks (r : Rtc) : Uint32 := r.rtcTicks

/-- `RTC_Get_Current_Time` -/
def rtcGetCurrentTime (r : Rtc) : Uint32 := r.rtcCurrent

/-- `Initialize_RTC`, with `RTC_Handler` linked at `handler`: the interrupts are off between its
    port accesses. -/
def initializeRtc (table : Uint32 → Uint32) (handler : Uint32) (c : Cmos) (t : Terminal) :
    (Uint32 → Uint32) × Cmos × Terminal :=
  let table := installInterruptHandler table irq8 handler
  let c := c.outAddress 0x8B
  let prev := c.inData
  let c := c.outAddress 0x8B
  let c := c.outData (prev ||| 0x40)
  (table, c, kprintf t (fun _ => []) (str "Real Time Clock Initialized\n") fun _ => 0)

end FreeMicroNix
