/-
  Masking and unmasking lines.

  `Enable_8259_PIC` and `Disable_8259_PIC` compute the right mask and then write it to the wrong
  place: the operands of `outb` are swapped, so the byte 0x21 or 0xA1 — the number of the data
  port — goes out on the port whose number is the MASK.  The mask register changes only if the new
  mask happens to be the number of a data port.

  `intended` is what a call should do to the two masks, and `LuckyOperands` says, in the masks
  before the call, when the swapped write does just that.  `masks_follow_reference_iff` is the
  exact statement for runs: the masks follow the calls, and no other port is written, as long as
  every call is lucky.
-/
import FreeMicroNix.Lib.LastWrite
import FreeMicroNix.Lib.Run
import FreeMicroNix.Isa.Interrupt

namespace FreeMicroNix

open LastWrite Run

/-! ## Two masks, sixteen lines -/

/-- The masks, master first, with the bit of one line cleared. -/
def clearLine (masks : Uint8 × Uint8) (line : Nat) : Uint8 × Uint8 :=
  if line < 8 then (masks.1 &&& ~~~lineBit (BitVec.ofNat 8 line), masks.2)
  else (masks.1, masks.2 &&& ~~~lineBit (BitVec.ofNat 8 (line - 8)))

/-- The masks with the bit of one line set. -/
def setLine (masks : Uint8 × Uint8) (line : Nat) : Uint8 × Uint8 :=
  if line < 8 then (masks.1 ||| lineBit (BitVec.ofNat 8 line), masks.2)
  else (masks.1, masks.2 ||| lineBit (BitVec.ofNat 8 (line - 8)))

/-- The mask bit of a line, the slave's lines after the master's. -/
def maskBit (masks : Uint8 × Uint8) (line : Nat) : Bool := (word masks.2 masks.1).getLsbD line

theorem maskBit_master (masks : Uint8 × Uint8) {line : Nat} (h : line < 8) :
    maskBit masks line = masks.1.getLsbD line := by
  rw [maskBit, getLsbD_word, if_pos h]

theorem maskBit_slave (masks : Uint8 × Uint8) {line : Nat} (h : 8 ≤ line) :
    maskBit masks line = masks.2.getLsbD (line - 8) := by
  rw [maskBit, getLsbD_word, if_neg (Nat.not_lt.mpr h)]

/-- Masks are equal when all their bits are. -/
theorem masks_ext {a b : Uint8 × Uint8} (h : ∀ line < 16, maskBit a line = maskBit b line) :
    a = b := by
  apply Prod.ext
  · apply BitVec.eq_of_getLsbD_eq
    intro i hi
    rw [← maskBit_master a hi, ← maskBit_master b hi]
    exact h i (by omega)
  · apply BitVec.eq_of_getLsbD_eq
    intro i hi
    have hbit := h (i + 8) (by omega)
    rw [maskBit_slave a (by omega), maskBit_slave b (by omega), Nat.add_sub_cancel] at hbit
    exact hbit

theorem lineBit_getLsbD : ∀ n < 8, ∀ line < 8,
    (lineBit (BitVec.ofNat 8 n)).getLsbD line = decide (line = n) := by
  decide

/-- A change of the mask byte that holds a line, if it leaves `bit` at the line and keeps the
    other seven, does the same to the pair of masks. -/
theorem maskBit_change {f : Uint8 → Uint8 → Uint8} {bit : Bool}
    (hf : ∀ (mask : Uint8) (n line : Nat), n < 8 → line < 8 →
      (f mask (lineBit (BitVec.ofNat 8 n))).getLsbD line
        = if line = n then bit else mask.getLsbD line)
    (masks : Uint8 × Uint8) {n line : Nat} (hn : n < 16) (hline : line < 16) :
    maskBit (if n < 8 then (f masks.1 (lineBit (BitVec.ofNat 8 n)), masks.2)
        else (masks.1, f masks.2 (lineBit (BitVec.ofNat 8 (n - 8))))) line
      = if line = n then bit else maskBit masks line := by
  rcases Nat.lt_or_ge n 8 with hlow | hhigh
  · rw [if_pos hlow]
    rcases Nat.lt_or_ge line 8 with hl | hl
    · rw [maskBit_master _ hl, maskBit_master _ hl, hf _ _ _ hlow hl]
    · rw [maskBit_slave _ hl, maskBit_slave _ hl, if_neg (by omega)]
  · rw [if_neg (Nat.not_lt.mpr hhigh)]
    rcases Nat.lt_or_ge line 8 with hl | hl
    · rw [maskBit_master _ hl, maskBit_master _ hl, if_neg (by omega)]
    · rw [maskBit_slave _ hl, maskBit_slave _ hl, hf _ _ _ (by omega) (by omega)]
      exact if_congr (by omega) rfl rfl

/-- Clearing a line clears its bit and no other. -/
theorem maskBit_clearLine (masks : Uint8 × Uint8) {n line : Nat} (hn : n < 16) (hline : line < 16) :
    maskBit (clearLine masks n) line = if line = n then false else maskBit masks line := by
  refine maskBit_change (f := fun mask bit => mask &&& ~~~bit) ?_ masks hn hline
  intro mask n line hn hline
  rw [BitVec.getLsbD_and, BitVec.getLsbD_not, lineBit_getLsbD n hn line hline]
  by_cases heq : line = n <;> simp [heq, hline, hn]

/-- Setting a line sets its bit and no other. -/
theorem maskBit_setLine (masks : Uint8 × Uint8) {n line : Nat} (hn : n < 16) (hline : line < 16) :
    maskBit (setLine masks n) line = if line = n then true else maskBit masks line := by
  refine maskBit_change (f := fun mask bit => mask ||| bit) ?_ masks hn hline
  intro mask n line hn hline
  rw [BitVec.getLsbD_or, lineBit_getLsbD n hn line hline]
  by_cases heq : line = n <;> simp [heq]

/-! ## The calls and what they should do -/

/-- `Enable_Interrupt(irq)` or `Disable_Interrupt(irq)`. -/
inductive MaskCall where
  | enable (irq : Uint32)
  | disable (irq : Uint32)

namespace MaskCall

/-- The vector a call is about. -/
def irq : MaskCall → Uint32
  | enable irq => irq
  | disable irq => irq

/-- The vectors of the sixteen lines. -/
def InRange (call : MaskCall) : Prop := 32 ≤ call.irq ∧ call.irq < 48

instance (call : MaskCall) : Decidable call.InRange := inferInstanceAs (Decidable (_ ∧ _))

/-- One call on the controllers. -/
def run (p : Pic) : MaskCall → Pic
  | enable irq => enableInterrupt p irq
  | disable irq => disableInterrupt p irq

/-- **The reference**: the bit a call leaves in the mask of a line, if it affects the line.
    Enabling a line of the slave enables the cascade line too. -/
def sets : MaskCall → Nat → Option Bool
  | enable irq, line =>
      if line + 32 = irq.toNat ∨ (40 ≤ irq.toNat ∧ line = 2) then some false else none
  | disable irq, line => if line + 32 = irq.toNat then some true else none

/-- The masks a call should leave, master first. -/
def intended (masks : Uint8 × Uint8) : MaskCall → Uint8 × Uint8
  | enable irq =>
      let line := irq.toNat - 32
      clearLine (if line < 8 then masks else clearLine masks 2) line
  | disable irq => setLine masks (irq.toNat - 32)

/-- The swapped write is harmless.  A new mask of 0x21 is written to port 0x21 as it should; a new
    mask equal to the OTHER data port sends the byte to the other chip, whose mask must be that
    byte already, while the mask meant to change must be right as it is. -/
def LuckyOperands (masks : Uint8 × Uint8) : MaskCall → Prop
  | enable irq =>
      let new := (enable irq).intended masks
      if irq.toNat < 40 then new.1 = 0x21 ∨ (masks = (0xA1, 0x21) ∧ new.1 = 0xA1)
      else new = (0x21, 0xA1) ∨ new = (0xA1, 0x21)
  | disable irq =>
      let new := (disable irq).intended masks
      if irq.toNat < 40 then new.1 = 0x21 ∨ (masks = (0xA1, 0x21) ∧ new.1 = 0xA1)
      else new.2 = 0xA1 ∨ (masks = (0xA1, 0x21) ∧ new.2 = 0x21)

instance (masks : Uint8 × Uint8) : (call : MaskCall) → Decidable (LuckyOperands masks call)
  | enable irq => by unfold LuckyOperands; dsimp only; infer_instance
  | disable irq => by unfold LuckyOperands; dsimp only; infer_instance

end MaskCall

/-- **One call of the reference, bit by bit.** -/
theorem maskBit_intended (masks : Uint8 × Uint8) {call : MaskCall} (hrange : call.InRange)
    {line : Nat} (hline : line < 16) :
    maskBit (call.intended masks) line = (call.sets line).getD (maskBit masks line) := by
  have hlo : 32 ≤ call.irq.toNat := hrange.1
  have hhi : call.irq.toNat < 48 := hrange.2
  cases call with
  | disable irq =>
    simp only [MaskCall.irq] at hlo hhi
    show maskBit (setLine masks (irq.toNat - 32)) line
      = (if line + 32 = irq.toNat then some true else none).getD (maskBit masks line)
    rw [maskBit_setLine masks (by omega) hline]
    by_cases heq : line + 32 = irq.toNat
    · rw [if_pos (by omega), if_pos heq, Option.getD_some]
    · rw [if_neg (by omega), if_neg heq, Option.getD_none]
  | enable irq =>
    simp only [MaskCall.irq] at hlo hhi
    show maskBit (clearLine (if irq.toNat - 32 < 8 then masks else clearLine masks 2)
        (irq.toNat - 32)) line
      = (if line + 32 = irq.toNat ∨ (40 ≤ irq.toNat ∧ line = 2) then some false else none).getD
          (maskBit masks line)
    rw [maskBit_clearLine _ (by omega) hline]
    by_cases heq : line + 32 = irq.toNat
    · rw [if_pos (by omega), if_pos (Or.inl heq), Option.getD_some]
    · rw [if_neg (by omega)]
      by_cases hmaster : irq.toNat - 32 < 8
      · rw [if_pos hmaster, if_neg (by omega), Option.getD_none]
      · rw [if_neg hmaster, maskBit_clearLine masks (by decide) hline]
        by_cases hcascade : line = 2
        · rw [if_pos hcascade, if_pos (by omega), Option.getD_some]
        · rw [if_neg hcascade, if_neg (by omega), Option.getD_none]

/-- **The reference over a run**: the last call that affects a line decides its bit. -/
theorem maskBit_foldl_intended (masks : Uint8 × Uint8) (calls : List MaskCall)
    (hrange : ∀ call ∈ calls, call.InRange) {line : Nat} (hline : line < 16) :
    maskBit (calls.foldl MaskCall.intended masks) line
      = (lastWrite MaskCall.sets calls line).getD (maskBit masks line) :=
  read_foldl maskBit MaskCall.sets (A := MaskCall.InRange)
    (fun masks _ hrange => maskBit_intended masks hrange hline) masks calls hrange

/-! ## The swapped write -/

/-- The masks of the pair, master first. -/
def Pic.masks (p : Pic) : Uint8 × Uint8 := (p.master.imr, p.slave.imr)

/-- Only the data ports have been written. -/
def DataPortsOnly (p : Pic) : Prop := ∀ w ∈ p.log, w.1 = picMasterData ∨ w.1 = picSlaveData

theorem outb_dataPortsOnly_iff (p : Pic) (port : Uint16) (value : Uint8) :
    DataPortsOnly (outb p port value) ↔
      DataPortsOnly p ∧ (port = picMasterData ∨ port = picSlaveData) := by
  unfold DataPortsOnly
  rw [outb_log, List.forall_mem_append, List.forall_mem_singleton]

/-- A mask as a port is a data port precisely when it has that number. -/
theorem mask_eq_port (mask : Uint8) :
    (mask.setWidth 16 = picMasterData ↔ mask = 0x21) ∧
      (mask.setWidth 16 = picSlaveData ↔ mask = 0xA1) := by
  have hnat : (mask.setWidth 16).toNat = mask.toNat := by
    rw [BitVec.toNat_setWidth]
    omega
  rw [BitVec.toNat_eq, BitVec.toNat_eq, BitVec.toNat_eq, BitVec.toNat_eq, hnat]
  exact ⟨Iff.rfl, Iff.rfl⟩

/-- No write without bit 4 starts an initialization. -/
theorem outb_operational {p : Pic} (hp : p.Operational) (port : Uint16) {value : Uint8}
    (hvalue : value.getLsbD 4 = false) : (outb p port value).Operational := by
  obtain ⟨hmaster, hslave⟩ := hp
  unfold Chip.Operational at hmaster hslave
  have hcommand : ∀ c : Chip, c.awaiting = [] → (c.command value).awaiting = [] := by
    intro c hc
    unfold Chip.command Chip.ocw2
    rw [hvalue, if_neg Bool.false_ne_true]
    cases c.highestInService <;> (repeat' split) <;> exact hc
  have hdata : ∀ c : Chip, c.awaiting = [] → (c.data value).awaiting = [] := by
    intro c hc
    unfold Chip.data
    rw [hc]
  unfold outb
  dsimp only
  repeat' split
  · exact ⟨hcommand _ hmaster, hslave⟩
  · exact ⟨hdata _ hmaster, hslave⟩
  · exact ⟨hmaster, hcommand _ hslave⟩
  · exact ⟨hmaster, hdata _ hslave⟩
  · exact ⟨hmaster, hslave⟩

/-- **The swapped write of one mask.**  The byte becomes the mask of the chip whose data port the
    mask names, if it names one. -/
theorem swapped_outb {p : Pic} (hp : p.Operational) (mask byte : Uint8) :
    (DataPortsOnly (outb p (mask.setWidth 16) byte) ↔
      DataPortsOnly p ∧ (mask = 0x21 ∨ mask = 0xA1)) ∧
    (mask = 0x21 → (outb p (mask.setWidth 16) byte).masks = (byte, p.slave.imr)) ∧
    (mask = 0xA1 → (outb p (mask.setWidth 16) byte).masks = (p.master.imr, byte)) := by
  obtain ⟨hmaster, hslave⟩ := hp
  unfold Chip.Operational at hmaster hslave
  refine ⟨?_, ?_, ?_⟩
  · rw [outb_dataPortsOnly_iff, (mask_eq_port mask).1, (mask_eq_port mask).2]
  · intro h
    rw [(mask_eq_port mask).1.mpr h, outb_masterData]
    simp only [Pic.masks, Chip.data, hmaster]
  · intro h
    rw [(mask_eq_port mask).2.mpr h, outb_slaveData]
    simp only [Pic.masks, Chip.data, hslave]

/-- The state a call should reach: the intended masks, and no other port written. -/
structure Reached (masks : Uint8 × Uint8) (p : Pic) : Prop where
  masks_eq : p.masks = masks
  ports : DataPortsOnly p

/-- A swapped write of the master's mask. -/
theorem reached_master_iff {p : Pic} (hp : p.Operational) {masks : Uint8 × Uint8}
    (h : Reached masks p) (new : Uint8) :
    Reached (new, masks.2) (outb p (new.setWidth 16) 0x21) ↔
      new = 0x21 ∨ (masks = (0xA1, 0x21) ∧ new = 0xA1) := by
  obtain ⟨rfl, hports⟩ := h
  obtain ⟨hdata, hsame, hother⟩ := swapped_outb hp new 0x21
  constructor
  · rintro ⟨hmasks, hports'⟩
    rcases (hdata.mp hports').2 with hnew | hnew
    · exact Or.inl hnew
    · right
      rw [hother hnew, hnew] at hmasks
      obtain ⟨hm, hs⟩ := Prod.mk.inj hmasks
      exact ⟨Prod.ext hm hs.symm, hnew⟩
  · rintro (hnew | ⟨hmasks, hnew⟩)
    · exact ⟨by rw [hsame hnew, hnew]; rfl, hdata.mpr ⟨hports, Or.inl hnew⟩⟩
    · obtain ⟨hm, hs⟩ := Prod.mk.inj hmasks
      refine ⟨?_, hdata.mpr ⟨hports, Or.inr hnew⟩⟩
      rw [hother hnew, hnew, hm]
      exact congrArg _ hs.symm

/-- A swapped write of the slave's mask. -/
theorem reached_slave_iff {p : Pic} (hp : p.Operational) {masks : Uint8 × Uint8}
    (h : Reached masks p) (new : Uint8) :
    Reached (masks.1, new) (outb p (new.setWidth 16) 0xA1) ↔
      new = 0xA1 ∨ (masks = (0xA1, 0x21) ∧ new = 0x21) := by
  obtain ⟨rfl, hports⟩ := h
  obtain ⟨hdata, hother, hsame⟩ := swapped_outb hp new 0xA1
  constructor
  · rintro ⟨hmasks, hports'⟩
    rcases (hdata.mp hports').2 with hnew | hnew
    · right
      rw [hother hnew, hnew] at hmasks
      obtain ⟨hm, hs⟩ := Prod.mk.inj hmasks
      exact ⟨Prod.ext hm.symm hs, hnew⟩
    · exact Or.inl hnew
  · rintro (hnew | ⟨hmasks, hnew⟩)
    · exact ⟨by rw [hsame hnew, hnew]; rfl, hdata.mpr ⟨hports, Or.inr hnew⟩⟩
    · obtain ⟨hm, hs⟩ := Prod.mk.inj hmasks
      refine ⟨?_, hdata.mpr ⟨hports, Or.inl hnew⟩⟩
      rw [hother hnew, hnew, hs]
      exact congrArg (fun m => (m, _)) hm.symm

/-- Enabling a line of the slave: two swapped writes, the second at the master's mask as the first
    has left it. -/
theorem reached_cascade_iff {p : Pic} (hp : p.Operational) {masks : Uint8 × Uint8}
    (h : Reached masks p) (new : Uint8) :
    let q := outb p (new.setWidth 16) 0xA1
    let target := (masks.1 &&& ~~~lineBit 2, new)
    Reached target (outb q ((q.master.imr &&& ~~~lineBit 2).setWidth 16) 0x21) ↔
      target = (0x21, 0xA1) ∨ target = (0xA1, 0x21) := by
  intro q target
  obtain ⟨rfl, hports⟩ := h
  have hq : q.Operational := outb_operational hp _ (by decide)
  obtain ⟨hdata, hother, hsame⟩ := swapped_outb hp new 0xA1
  obtain ⟨hdata', hsame', hother'⟩ := swapped_outb hq (q.master.imr &&& ~~~lineBit 2) 0x21
  -- the master's mask at the second write, in the two cases of the first
  have hcascade : ((0xA1 : Uint8) &&& ~~~lineBit 2) = 0xA1 := by decide
  have hmisdirected : new = 0x21 → q.master.imr &&& ~~~lineBit 2 = 0xA1 := fun hnew => by
    rw [show q.master.imr = 0xA1 from congrArg Prod.fst (hother hnew), hcascade]
  have hstraight : new = 0xA1 → q.master.imr &&& ~~~lineBit 2 = target.1 := fun hnew => by
    rw [show q.master.imr = p.master.imr from congrArg Prod.fst (hsame hnew)]
    rfl
  constructor
  · rintro ⟨hmasks, hports'⟩
    obtain ⟨hports', hsecond⟩ := hdata'.mp hports'
    rcases (hdata.mp hports').2 with hnew | hnew
    · right
      rw [← hmasks, hother' (hmisdirected hnew)]
      exact congrArg (fun m => (m, _)) (congrArg Prod.fst (hother hnew))
    · left
      rcases hsecond with hm | hm
      · exact Prod.ext ((hstraight hnew).symm.trans hm) hnew
      · -- the second write has gone to the slave, whose mask it spoils
        rw [hother' hm] at hmasks
        have hs : (0x21 : Uint8) = new := congrArg Prod.snd hmasks
        rw [hnew] at hs
        exact absurd hs (by decide)
  · rintro (htarget | htarget)
    · obtain ⟨hm, hnew⟩ := Prod.mk.inj htarget
      have hlast : q.master.imr &&& ~~~lineBit 2 = 0x21 := (hstraight hnew).trans hm
      refine ⟨?_, hdata'.mpr ⟨hdata.mpr ⟨hports, Or.inr hnew⟩, Or.inl hlast⟩⟩
      rw [hsame' hlast, htarget]
      exact congrArg _ (congrArg Prod.snd (hsame hnew))
    · obtain ⟨-, hnew⟩ := Prod.mk.inj htarget
      have hlast := hmisdirected hnew
      refine ⟨?_, hdata'.mpr ⟨hdata.mpr ⟨hports, Or.inl hnew⟩, Or.inr hlast⟩⟩
      rw [hother' hlast, htarget]
      exact congrArg (fun m => (m, _)) (congrArg Prod.fst (hother hnew))

/-! ## One call -/

/-- The line number the vector is narrowed to. -/
theorem line_of_inRange {irq : Uint32} (h : 32 ≤ irq ∧ irq < 48) :
    ¬ irq < 32 ∧ (irq - 32).setWidth 8 = BitVec.ofNat 8 (irq.toNat - 32) ∧
      (BitVec.ofNat 8 (irq.toNat - 32) < 8 ↔ irq.toNat - 32 < 8) ∧
      (8 ≤ irq.toNat - 32 →
        BitVec.ofNat 8 (irq.toNat - 32) - 8 = BitVec.ofNat 8 (irq.toNat - 32 - 8)) := by
  have hlo : 32 ≤ irq.toNat := h.1
  have hhi : irq.toNat < 48 := h.2
  refine ⟨BitVec.not_lt.mpr h.1, ?_, ?_, ?_⟩
  · apply BitVec.eq_of_toNat_eq
    rw [BitVec.toNat_setWidth, BitVec.toNat_ofNat, BitVec.toNat_sub_of_le h.1]
    rfl
  · rw [BitVec.lt_def, BitVec.toNat_ofNat, Nat.mod_eq_of_lt (by omega)]
    rfl
  · intro h8
    apply BitVec.eq_of_toNat_eq
    have hle : (8 : Uint8) ≤ BitVec.ofNat 8 (irq.toNat - 32) := by
      rw [BitVec.le_def, BitVec.toNat_ofNat, Nat.mod_eq_of_lt (by omega)]
      exact h8
    rw [BitVec.toNat_sub_of_le hle, BitVec.toNat_ofNat, BitVec.toNat_ofNat]
    show (irq.toNat - 32) % 2 ^ 8 - 8 = (irq.toNat - 32 - 8) % 2 ^ 8
    omega

/-- **The step.**  A call in the range does what it should precisely when its operands are
    lucky. -/
theorem reached_run_iff {p : Pic} (hp : p.Operational) {masks : Uint8 × Uint8}
    (h : Reached masks p) {call : MaskCall} (hrange : call.InRange) :
    Reached (call.intended masks) (call.run p) ↔ call.LuckyOperands masks := by
  have hm : p.master.imr = masks.1 := congrArg Prod.fst h.masks_eq
  have hs : p.slave.imr = masks.2 := congrArg Prod.snd h.masks_eq
  cases call with
  | enable irq =>
    have hrange : 32 ≤ irq ∧ irq < 48 := hrange
    obtain ⟨hnot, hbyte, hlt, hsub⟩ := line_of_inRange hrange
    have hlo : 32 ≤ irq.toNat := hrange.1
    have hrun : (MaskCall.enable irq).run p
        = enable8259Pic p (BitVec.ofNat 8 (irq.toNat - 32)) := by
      show enableInterrupt p irq = _
      rw [enableInterrupt, if_neg hnot, hbyte]
    show _ ↔ (if irq.toNat < 40 then _ else _)
    by_cases hlow : irq.toNat - 32 < 8
    · have hnew : (MaskCall.enable irq).intended masks
          = (masks.1 &&& ~~~lineBit (BitVec.ofNat 8 (irq.toNat - 32)), masks.2) := by
        show clearLine (if irq.toNat - 32 < 8 then masks else clearLine masks 2) _ = _
        rw [if_pos hlow, clearLine, if_pos hlow]
      rw [hrun, hnew, if_pos (by omega), enable8259Pic, if_pos (hlt.mpr hlow), inb_masterData, hm]
      exact reached_master_iff hp h _
    · have hnew : (MaskCall.enable irq).intended masks = (masks.1 &&& ~~~lineBit 2,
          masks.2 &&& ~~~lineBit (BitVec.ofNat 8 (irq.toNat - 32 - 8))) := by
        show clearLine (if irq.toNat - 32 < 8 then masks else clearLine masks 2) _ = _
        rw [if_neg hlow, clearLine, if_neg hlow]
        rfl
      rw [hrun, hnew, if_neg (by omega), enable8259Pic, if_neg (mt hlt.mp hlow), inb_slaveData, hs,
        hsub (Nat.not_lt.mp hlow), enable8259Pic, if_pos (by decide)]
      exact reached_cascade_iff hp h _
  | disable irq =>
    have hrange : 32 ≤ irq ∧ irq < 48 := hrange
    obtain ⟨hnot, hbyte, hlt, hsub⟩ := line_of_inRange hrange
    have hlo : 32 ≤ irq.toNat := hrange.1
    have hrun : (MaskCall.disable irq).run p
        = disable8259Pic p (BitVec.ofNat 8 (irq.toNat - 32)) := by
      show disableInterrupt p irq = _
      rw [disableInterrupt, if_neg hnot, hbyte]
    show _ ↔ (if irq.toNat < 40 then _ else _)
    by_cases hlow : irq.toNat - 32 < 8
    · have hnew : (MaskCall.disable irq).intended masks
          = (masks.1 ||| lineBit (BitVec.ofNat 8 (irq.toNat - 32)), masks.2) := by
        show setLine masks _ = _
        rw [setLine, if_pos hlow]
      rw [hrun, hnew, if_pos (by omega), disable8259Pic, if_pos (hlt.mpr hlow), inb_masterData, hm]
      exact reached_master_iff hp h _
    · have hnew : (MaskCall.disable irq).intended masks
          = (masks.1, masks.2 ||| lineBit (BitVec.ofNat 8 (irq.toNat - 32 - 8))) := by
        show setLine masks _ = _
        rw [setLine, if_neg hlow]
      rw [hrun, hnew, if_neg (by omega), disable8259Pic, if_neg (mt hlt.mp hlow), inb_slaveData, hs,
        hsub (Nat.not_lt.mp hlow)]
      exact reached_slave_iff hp h _

/-- No call leaves the operational state, whatever its operands. -/
theorem run_operational {p : Pic} (hp : p.Operational) (call : MaskCall) :
    (call.run p).Operational := by
  cases call with
  | enable irq =>
    show (enableInterrupt p irq).Operational
    unfold enableInterrupt
    split
    · exact hp
    · rw [enable8259Pic]
      split
      · exact outb_operational hp _ (by decide)
      · rw [enable8259Pic, if_pos (by decide)]
        exact outb_operational (outb_operational hp _ (by decide)) _ (by decide)
  | disable irq =>
    show (disableInterrupt p irq).Operational
    unfold disableInterrupt disable8259Pic
    split
    · exact hp
    · dsimp only
      split <;> exact outb_operational hp _ (by decide)

/-! ## Every run -/

/-- The code and the reference side by side. -/
def maskStep (s : Pic × (Uint8 × Uint8)) (call : MaskCall) : Pic × (Uint8 × Uint8) :=
  (call.run s.1, call.intended s.2)

theorem foldl_maskStep (calls : List MaskCall) : ∀ s : Pic × (Uint8 × Uint8),
    calls.foldl maskStep s = (calls.foldl MaskCall.run s.1, calls.foldl MaskCall.intended s.2) := by
  induction calls with
  | nil => intro s; rfl
  | cons call calls ih => intro s; rw [List.foldl_cons, ih]; rfl

/-- The state is right after every initial segment of the calls precisely when every call is
    lucky in the masks it meets. -/
theorem reached_always_iff {p : Pic} (hp : p.Operational) (calls : List MaskCall)
    (hrange : ∀ call ∈ calls, call.InRange) :
    (∀ pre post, calls = pre ++ post →
        Reached (pre.foldl MaskCall.intended p.masks) (pre.foldl MaskCall.run p.unobserved)) ↔
      Guarded MaskCall.intended MaskCall.LuckyOperands p.masks calls := by
  have hstart : Reached p.masks p.unobserved := ⟨rfl, fun w hw => absurd hw List.not_mem_nil⟩
  have halways : Always maskStep (fun s => s.1.Operational ∧ Reached s.2 s.1)
        (p.unobserved, p.masks) calls ↔
      Guarded maskStep (fun s call => call.LuckyOperands s.2) (p.unobserved, p.masks) calls := by
    refine always_iff_guarded (A := MaskCall.InRange) (fun s call hrange h => ?_) _ calls hrange
      ⟨hp, hstart⟩
    rw [← reached_run_iff h.1 h.2 hrange]
    exact and_iff_right (run_operational h.1 call)
  have hoperational : ∀ pre : List MaskCall, (pre.foldl MaskCall.run p.unobserved).Operational :=
    fun pre => List.foldlRecOn pre MaskCall.run hp fun _ h call _ => run_operational h call
  rw [always_iff_split] at halways
  simp only [foldl_maskStep, hoperational, true_and] at halways
  rw [halways]
  exact guarded_map Prod.snd (fun _ _ => rfl) _ _

/-- What a run should reach, line by line. -/
theorem reached_iff_lines (p q : Pic) (calls : List MaskCall)
    (hrange : ∀ call ∈ calls, call.InRange) :
    Reached (calls.foldl MaskCall.intended p.masks) q ↔
      (∀ line < 16, maskBit q.masks line
        = (lastWrite MaskCall.sets calls line).getD (maskBit p.masks line)) ∧
      DataPortsOnly q := by
  constructor
  · rintro ⟨hmasks, hports⟩
    refine ⟨fun line hline => ?_, hports⟩
    rw [hmasks, maskBit_foldl_intended p.masks calls hrange hline]
  · rintro ⟨hlines, hports⟩
    refine ⟨masks_ext fun line hline => ?_, hports⟩
    rw [hlines line hline, maskBit_foldl_intended p.masks calls hrange hline]

/-- **Masking, exactly.**  From any operational pair, the masks equal the reference after every
    initial segment of the calls — each line as the last call affecting it left it, the others
    as they were — and no port but the two data ports is written, if and only if every call is
    made in masks that make its swapped write harmless. -/
theorem masks_follow_reference_iff (p : Pic) (hp : p.Operational) (calls : List MaskCall)
    (hrange : ∀ call ∈ calls, call.InRange) :
    (∀ pre post, calls = pre ++ post →
        (∀ line < 16, maskBit (pre.foldl MaskCall.run p.unobserved).masks line
          = (lastWrite MaskCall.sets pre line).getD (maskBit p.masks line)) ∧
        ∀ w ∈ (pre.foldl MaskCall.run p.unobserved).log,
          w.1 = picMasterData ∨ w.1 = picSlaveData) ↔
      Guarded MaskCall.intended MaskCall.LuckyOperands p.masks calls := by
  rw [← reached_always_iff hp calls hrange]
  refine forall_congr' fun pre => forall_congr' fun post => forall_congr' fun hsplit => ?_
  have hpre : ∀ call ∈ pre, call.InRange := fun call hcall =>
    hrange call (hsplit ▸ List.mem_append_left post hcall)
  exact (reached_iff_lines p _ pre hpre).symm

/-- Two chips with every line masked, none in service. -/
def maskedPic : Pic where
  master := ⟨0xFF, 0, 0, false, 0x20, 7, []⟩
  slave := ⟨0xFF, 0, 0, false, 0x28, 7, []⟩
  log := []

/-- Clearing line 1 of a mask of 0x23 gives 0x21, which is its own port. -/
theorem masks_follow_reference_lucky :
    (∀ line < 16, maskBit ([MaskCall.enable 33].foldl MaskCall.run
        { maskedPic with master.imr := 0x23 }.unobserved).masks line
      = (lastWrite MaskCall.sets [.enable 33] line).getD
          (maskBit { maskedPic with master.imr := 0x23 }.masks line)) ∧
    ∀ w ∈ ([MaskCall.enable 33].foldl MaskCall.run
        { maskedPic with master.imr := 0x23 }.unobserved).log,
      w.1 = picMasterData ∨ w.1 = picSlaveData :=
  (masks_follow_reference_iff { maskedPic with master.imr := 0x23 } ⟨rfl, rfl⟩ [.enable 33]
    (by decide)).mpr (by decide) [.enable 33] [] rfl

/-- **The final masks.**  A run of lucky calls leaves each line as the last call affecting it left it,
    the others as they were, and has written no port but the two data ports. -/
theorem final_masks_of_lucky {p : Pic} (hp : p.Operational) {calls : List MaskCall}
    (hrange : ∀ call ∈ calls, call.InRange)
    (hlucky : Guarded MaskCall.intended MaskCall.LuckyOperands p.masks calls) :
    (∀ line < 16, maskBit (calls.foldl MaskCall.run p.unobserved).masks line
      = (lastWrite MaskCall.sets calls line).getD (maskBit p.masks line)) ∧
    ∀ w ∈ (calls.foldl MaskCall.run p.unobserved).log,
      w.1 = picMasterData ∨ w.1 = picSlaveData := by
  have hreached := (reached_always_iff hp calls hrange).mpr hlucky calls []
    (List.append_nil calls).symm
  exact (reached_iff_lines p _ calls hrange).mp hreached

/-- Unmasking line 1 of fully masked chips writes the new mask's port, 0xFD, and no mask. -/
theorem masks_not_followed_enable_33 :
    maskedPic.Operational ∧ (∀ call ∈ [MaskCall.enable 33], call.InRange) ∧
      ¬ ((∀ line < 16, maskBit ([MaskCall.enable 33].foldl MaskCall.run maskedPic.unobserved).masks
            line
          = (lastWrite MaskCall.sets [.enable 33] line).getD (maskBit maskedPic.masks line)) ∧
        ∀ w ∈ ([MaskCall.enable 33].foldl MaskCall.run maskedPic.unobserved).log,
          w.1 = picMasterData ∨ w.1 = picSlaveData) := by
  refine ⟨⟨rfl, rfl⟩, by decide, fun h => ?_⟩
  have hreached := (reached_iff_lines maskedPic _ [.enable 33] (by decide)).mpr h
  have hstart : Reached maskedPic.masks maskedPic.unobserved :=
    ⟨rfl, fun w hw => absurd hw List.not_mem_nil⟩
  have hop : maskedPic.unobserved.Operational := ⟨rfl, rfl⟩
  have hrange : (MaskCall.enable 33).InRange := by decide
  have hlucky : (MaskCall.enable 33).LuckyOperands maskedPic.masks :=
    (reached_run_iff hop hstart hrange).mp hreached
  exact absurd hlucky (by decide)

end FreeMicroNix
