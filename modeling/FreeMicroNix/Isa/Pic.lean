/-
  `kernel/x86/isa/8259.c`: the two cascaded interrupt controllers, and the functions that drive
  them.

  A `Chip` is the part of an 8259 a processor can observe through its two ports: the mask, the
  in-service and the request register, which of the latter two a read of the command port
  returns, the vector base, the priority order, and the initialization words still expected.
  `outb` and `inb` are the two instructions, on the four ports of the pair; `log` is the port
  writes made, in order, which no function reads.

  The functions below them are those of `8259.c`, with the operands of every `outb` in the order
  the source has them: `Enable_8259_PIC` and `Disable_8259_PIC` pass the MASK where the port
  belongs and the port where the mask belongs.
-/
import FreeMicroNix.Video.Vga

namespace FreeMicroNix

/-! ## The device -/

/-- The initialization command words that follow the first on the data port. -/
inductive Icw where
  | icw2 | icw3 | icw4
  deriving DecidableEq, Repr

/-- One 8259. -/
structure Chip where
  /-- Interrupt mask register: a set bit keeps the line off. -/
  imr : Uint8
  /-- In-service register: the lines acknowledged and not yet ended. -/
  isr : Uint8
  /-- Interrupt request register. -/
  irr : Uint8
  /-- A read of the command port returns the in-service register. -/
  readIsr : Bool
  /-- The vector of line 0. -/
  vectorBase : Uint8
  /-- The line of lowest priority; the priorities rotate from the line after it. -/
  bottom : Fin 8
  awaiting : List Icw
  deriving DecidableEq

namespace Chip

/-- The bit of a line. -/
def bit (n : Fin 8) : Uint8 := 1#8 <<< n.val

/-- The lines from the highest priority to the lowest. -/
def priorities (c : Chip) : List (Fin 8) := (List.finRange 8).map fun i => c.bottom + 1 + i

/-- The in-service line of highest priority. -/
def highestInService (c : Chip) : Option (Fin 8) := c.priorities.find? fun n => c.isr.getLsbD n

/-- The processor acknowledges line `n`. -/
def acknowledge (c : Chip) (n : Fin 8) : Chip := { c with isr := c.isr ||| bit n }

/-- Line `n` is ended. -/
def endLine (c : Chip) (n : Fin 8) : Chip := { c with isr := c.isr &&& ~~~bit n }

/-- The operation command word 2: end of interrupt and priorities.  The commands for the
    automatic mode, which the kernel leaves off, change nothing. -/
def ocw2 (c : Chip) (value : Uint8) : Chip :=
  let line : Fin 8 := (value.extractLsb' 0 3).toFin
  match (value >>> 5).toNat with
  | 1 => (c.highestInService.map c.endLine).getD c
  | 3 => c.endLine line
  | 5 => (c.highestInService.map fun n => { c.endLine n with bottom := n }).getD c
  | 6 => { c with bottom := line }
  | 7 => { c.endLine line with bottom := line }
  | _ => c

/-- A write to the command port: ICW1 with bit 4, OCW3 with bit 3, OCW2 otherwise. -/
def command (c : Chip) (value : Uint8) : Chip :=
  if value.getLsbD 4 then
    { c with
      imr := 0
      readIsr := false
      bottom := 7
      awaiting := .icw2 :: (if value.getLsbD 1 then [] else [.icw3]) ++
        if value.getLsbD 0 then [.icw4] else [] }
  else if value.getLsbD 3 then
    if value.getLsbD 1 then { c with readIsr := value.getLsbD 0 } else c
  else c.ocw2 value

/-- A write to the data port: the initialization word expected, else the mask. -/
def data (c : Chip) (value : Uint8) : Chip :=
  match c.awaiting with
  | [] => { c with imr := value }
  | .icw2 :: rest => { c with vectorBase := value &&& 0xF8, awaiting := rest }
  | _ :: rest => { c with awaiting := rest }

/-- A read of the command port. -/
def status (c : Chip) : Uint8 := if c.readIsr then c.isr else c.irr

/-- No initialization word is expected: the data port is the mask register. -/
def Operational (c : Chip) : Prop := c.awaiting = []

end Chip

/-- The cascaded pair, and the port writes so far. -/
structure Pic where
  master : Chip
  slave : Chip
  log : List (Uint16 × Uint8)

/-- The port writes counted from here on. -/
def Pic.unobserved (p : Pic) : Pic := { p with log := [] }

def Pic.Operational (p : Pic) : Prop := p.master.Operational ∧ p.slave.Operational

/-! ## The ports -/

/-- `PIC_MASTER_COMMAND`, and `PIC_MASTER` -/
def picMasterCommand : Uint16 := 0x20#16
/-- `PIC_MASTER_DATA` -/
def picMasterData : Uint16 := 0x21#16
/-- `PIC_SLAVE_COMMAND`, and `PIC_SLAVE` -/
def picSlaveCommand : Uint16 := 0xA0#16
/-- `PIC_SLAVE_DATA` -/
def picSlaveData : Uint16 := 0xA1#16
/-- `PIC_CMD_ENDINTR` -/
def picCmdEndintr : Uint8 := 0x20#8
/-- `PIC_READ_IRR` -/
def picReadIrrCommand : Uint8 := 0x0A#8
/-- `PIC_READ_ISR` -/
def picReadIsrCommand : Uint8 := 0x0B#8
/-- `PIC_ACK_SPECIFIC` -/
def picAckSpecific : Uint8 := 0x60#8

/-- `outb`: the port comes first. -/
def outb (p : Pic) (port : Uint16) (value : Uint8) : Pic :=
  let p := { p with log := p.log ++ [(port, value)] }
  if port = picMasterCommand then { p with master := p.master.command value }
  else if port = picMasterData then { p with master := p.master.data value }
  else if port = picSlaveCommand then { p with slave := p.slave.command value }
  else if port = picSlaveData then { p with slave := p.slave.data value }
  else p

/-- `inb`; no other port of this file is read. -/
def inb (p : Pic) (port : Uint16) : Uint8 :=
  if port = picMasterCommand then p.master.status
  else if port = picMasterData then p.master.imr
  else if port = picSlaveCommand then p.slave.status
  else if port = picSlaveData then p.slave.imr
  else 0xFF#8

/-- `io_wait` -/
def ioWait (p : Pic) : Pic := outb p 0x80#16 0

/-! ## The functions of the file -/

/-- `1 << irq`, as far as the assignment to a `uint8_t` keeps it. -/
def lineBit (irq : Uint8) : Uint8 := ((1#32) <<< irq.toNat).setWidth 8

/-- `Initialize_8259_PIC` -/
def initialize8259Pic (p : Pic) (t : Terminal) (masterBase slaveBase : Uint32) : Pic × Terminal :=
  let masterMask := inb p picMasterData
  let slaveMask := inb p picSlaveData
  let icw1 : Uint8 := 0x10#8 + 0x01#8
  let p := ioWait (outb p picMasterCommand icw1)
  let p := ioWait (outb p picSlaveCommand icw1)
  let p := ioWait (outb p picMasterData (masterBase.setWidth 8))
  let p := ioWait (outb p picSlaveData (slaveBase.setWidth 8))
  let p := ioWait (outb p picMasterData 0x04#8)
  let p := ioWait (outb p picSlaveData 0x02#8)
  let p := ioWait (outb p picMasterData 0x01#8)
  let p := ioWait (outb p picSlaveData 0x01#8)
  let p := outb p picMasterData masterMask
  let p := outb p picSlaveData slaveMask
  -- no directive: no argument word is read
  (p, kprintf t (fun _ => []) (str "8259 PIC Successfully Initilialized\n") fun _ => 0)

/-- `Enable_8259_PIC`: the operands of `outb` are swapped, as in the source. -/
def enable8259Pic (p : Pic) (irq : Uint8) : Pic :=
  if irq < 8 then
    let mask := inb p picMasterData &&& ~~~lineBit irq
    outb p (mask.setWidth 16) (picMasterData.setWidth 8)
  else
    let mask := inb p picSlaveData &&& ~~~lineBit (irq - 8)
    enable8259Pic (outb p (mask.setWidth 16) (picSlaveData.setWidth 8)) 2
termination_by if irq < 8 then 0 else 1
decreasing_by
  rename_i hirq
  rw [if_pos (show (2 : Uint8) < 8 by decide), if_neg hirq]
  exact Nat.zero_lt_one

/-- `Disable_8259_PIC`, with the same swap. -/
def disable8259Pic (p : Pic) (irq : Uint8) : Pic :=
  if irq < 8 then
    let mask := inb p picMasterData ||| lineBit irq
    outb p (mask.setWidth 16) (picMasterData.setWidth 8)
  else
    let mask := inb p picSlaveData ||| lineBit (irq - 8)
    outb p (mask.setWidth 16) (picSlaveData.setWidth 8)

/-- `Acknowledge_8259_PIC`, with the same swap. -/
def acknowledge8259Pic (p : Pic) (irq : Uint8) : Pic :=
  if 8 ≤ irq then
    let p := outb p ((picAckSpecific + (irq - 8)).setWidth 16) (picSlaveCommand.setWidth 8)
    outb p ((picAckSpecific + 2).setWidth 16) (picMasterCommand.setWidth 8)
  else outb p ((picAckSpecific + irq).setWidth 16) (picMasterCommand.setWidth 8)

/-- `PIC_EOI_Master` -/
def picEoiMaster (p : Pic) : Pic := outb p picMasterCommand picCmdEndintr

/-- `PIC_EOI_Slave` -/
def picEoiSlave (p : Pic) : Pic := outb p picSlaveCommand picCmdEndintr

/-- Both status bytes, the slave's above the master's. -/
def picStatus (p : Pic) : Uint16 :=
  (inb p picMasterCommand).setWidth 16 <<< 0 ||| (inb p picSlaveCommand).setWidth 16 <<< 8

/-- `PIC_Read_IRR` -/
def picReadIrr (p : Pic) : Pic × Uint16 :=
  let p := outb p picMasterCommand picReadIrrCommand
  let p := outb p picSlaveCommand picReadIrrCommand
  (p, picStatus p)

/-- `PIC_Read_ISR` -/
def picReadIsr (p : Pic) : Pic × Uint16 :=
  let p := outb p picMasterCommand picReadIsrCommand
  let p := outb p picSlaveCommand picReadIsrCommand
  (p, picStatus p)

/-! ## What they do to the pair -/

section Ports

variable (p : Pic) (value : Uint8)

theorem outb_masterCommand : outb p picMasterCommand value =
    { p with
      master := p.master.command value, log := p.log ++ [(picMasterCommand, value)] } := rfl

theorem outb_masterData : outb p picMasterData value =
    { p with master := p.master.data value, log := p.log ++ [(picMasterData, value)] } := rfl

theorem outb_slaveCommand : outb p picSlaveCommand value =
    { p with slave := p.slave.command value, log := p.log ++ [(picSlaveCommand, value)] } := rfl

theorem outb_slaveData : outb p picSlaveData value =
    { p with slave := p.slave.data value, log := p.log ++ [(picSlaveData, value)] } := rfl

@[simp] theorem inb_masterData : inb p picMasterData = p.master.imr := rfl
@[simp] theorem inb_slaveData : inb p picSlaveData = p.slave.imr := rfl

/-- A port write is logged, whatever else it does. -/
@[simp] theorem outb_log (port : Uint16) : (outb p port value).log = p.log ++ [(port, value)] := by
  unfold outb
  split_ifs <;> rfl

/-- Both in-service registers in one word, and nothing else changes. -/
theorem picReadIsr_eq : picReadIsr p =
    ({ p with
        master := { p.master with readIsr := true }
        slave := { p.slave with readIsr := true }
        log := p.log ++ [(picMasterCommand, picReadIsrCommand)] ++
          [(picSlaveCommand, picReadIsrCommand)] },
      word p.slave.isr p.master.isr) := by
  have hword : ∀ hi lo : Uint8, lo.setWidth 16 <<< 0 ||| hi.setWidth 16 <<< 8 = word hi lo := by
    intro hi lo
    apply BitVec.eq_of_getLsbD_eq
    intro i hlt
    rw [getLsbD_word]
    rcases Nat.lt_or_ge i 8 with hlow | hhigh
    · simp [hlt, hlow]
    · have hnone : lo.getLsbD i = false := BitVec.getLsbD_of_ge lo i hhigh
      have hnot : ¬ i < 8 := by omega
      simp [hlt, hnot, hnone]
  exact congrArg (Prod.mk _) (hword p.slave.isr p.master.isr)

/-- With no line in service, or one, the unspecific end of interrupt ends all there is. -/
theorem Chip.endOfInterrupt_single (c : Chip) (n : Fin 8) (h : c.isr = 0 ∨ c.isr = Chip.bit n) :
    c.command picCmdEndintr = { c with isr := 0 } := by
  obtain ⟨imr, isr, irr, readIsr, vectorBase, bottom, awaiting⟩ := c
  have hstep : ∀ c : Chip, c.command picCmdEndintr = (c.highestInService.map c.endLine).getD c :=
    fun _ => rfl
  rw [hstep]
  rcases h with h | h <;> (dsimp only at h; subst h)
  · have hnone :
        (Chip.mk imr 0 irr readIsr vectorBase bottom awaiting).highestInService = none := by
      simp [Chip.highestInService]
    rw [hnone]
    rfl
  · have hsome : ∀ bottom n : Fin 8, ((List.finRange 8).map fun i => bottom + 1 + i).find?
        (fun m : Fin 8 => (Chip.bit n).getLsbD m.val) = some n := by decide
    have hhighest :
        (Chip.mk imr (Chip.bit n) irr readIsr vectorBase bottom awaiting).highestInService
          = some n := hsome bottom n
    have hclear : ∀ n : Fin 8, Chip.bit n &&& ~~~Chip.bit n = 0 := by decide
    rw [hhighest]
    show Chip.mk imr (Chip.bit n &&& ~~~Chip.bit n) irr readIsr vectorBase bottom awaiting = _
    rw [hclear]

end Ports

/-- **`Initialize_8259_PIC` remaps the pair**: whatever state the chips were left in, the vectors
    then start at the two bases, both chips are operational, and the masks and the in-service
    registers are as before. -/
theorem initialize8259Pic_spec (p : Pic) (t : Terminal) (masterBase slaveBase : Uint32) :
    let q := (initialize8259Pic p t masterBase slaveBase).1
    q.Operational ∧
      q.master.vectorBase = masterBase.setWidth 8 &&& 0xF8 ∧
      q.slave.vectorBase = slaveBase.setWidth 8 &&& 0xF8 ∧
      q.master.imr = p.master.imr ∧ q.slave.imr = p.slave.imr ∧
      q.master.isr = p.master.isr ∧ q.slave.isr = p.slave.isr :=
  ⟨⟨rfl, rfl⟩, rfl, rfl, rfl, rfl, rfl, rfl⟩

end FreeMicroNix
