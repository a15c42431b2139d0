/-
  The end of every interrupt.

  A `Delivery` is what the pair of controllers can hand to the processor: a line of the master, a
  line of the slave (which holds the master's cascade line too), or one of the two spurious
  vectors.  `raise` is its effect on the in-service registers, `vector` the vector, computed from
  the bases the chips were given.  `serve` is one interrupt from start to finish; interrupts stay
  off until `iret`, so a history is a list of them.

  `Served` is what one interrupt owes: nothing left in service, one end of interrupt for each chip
  that held a line and none for the other, and the handler of the slot called exactly when the
  interrupt was real.  It holds of every interrupt of every history, as long as no handler that is
  called moves the `int_no` of its context across the vector where the slave's lines begin
  (`every_interrupt_served`): `IRQ_Handler` looks at `int_no` once more after the handler.
-/
import FreeMicroNix.Lib.Run
import FreeMicroNix.Isa.Dispatch

namespace FreeMicroNix

open Run

variable {σ : Type}

/-! ## Deliveries -/

/-- An interrupt the pair delivers. -/
inductive Delivery where
  | master (line : Fin 8)
  | slave (line : Fin 8)
  | spuriousMaster
  | spuriousSlave
  deriving DecidableEq

namespace Delivery

/-- The in-service bits it sets: a line of the slave comes through line 2 of the master. -/
def raise (p : Pic) : Delivery → Pic
  | master line => { p with master := p.master.acknowledge line }
  | slave line =>
      { p with master := p.master.acknowledge 2, slave := p.slave.acknowledge line }
  | spuriousMaster => p
  | spuriousSlave => { p with master := p.master.acknowledge 2 }

/-- The vector: the base of the chip plus the line, which is 7 for a spurious interrupt. -/
def vector (p : Pic) : Delivery → Uint32
  | master line => (p.master.vectorBase + BitVec.ofNat 8 line).setWidth 32
  | slave line => (p.slave.vectorBase + BitVec.ofNat 8 line).setWidth 32
  | spuriousMaster => (p.master.vectorBase + 7).setWidth 32
  | spuriousSlave => (p.slave.vectorBase + 7).setWidth 32

def Spurious : Delivery → Prop
  | master _ => False
  | slave _ => False
  | spuriousMaster => True
  | spuriousSlave => True

instance : (d : Delivery) → Decidable d.Spurious
  | master _ => inferInstanceAs (Decidable False)
  | slave _ => inferInstanceAs (Decidable False)
  | spuriousMaster => inferInstanceAs (Decidable True)
  | spuriousSlave => inferInstanceAs (Decidable True)

end Delivery

/-- A delivery, and the interrupted state the context is filled from. -/
abbrev Arrival := Delivery × InterruptContext

/-- The context the stub of the vector builds. -/
def Arrival.context (a : Arrival) (p : Pic) : InterruptContext :=
  { a.2 with intNo := a.1.vector p }

/-- One interrupt from delivery to `iret`. -/
def serve (image : Image σ) (m : Machine σ) (a : Arrival) : Machine σ :=
  (interruptHandler image { m with pic := a.1.raise m.pic } (Arrival.context a m.pic)).1

/-! ## What an interrupt owes -/

/-- Nothing in service. -/
def Idle (p : Pic) : Prop := p.master.isr = 0 ∧ p.slave.isr = 0

/-- The vectors of the pair are 32..47. -/
def Remapped (p : Pic) : Prop := p.master.vectorBase = 0x20 ∧ p.slave.vectorBase = 0x28

/-- The ends of interrupt among the writes, by command port. -/
def eois (port : Uint16) (log : List (Uint16 × Uint8)) : Nat :=
  log.countP fun w => w.1 = port && isEoi w.2

/-- The installer makes the vectors 32..47, and a pair that was idle stays so. -/
theorem installer_ready (m : Machine σ) (addr : Label → Uint32) (hidle : Idle m.pic) :
    Idle (interruptHandlerInstaller m addr).pic ∧
      Remapped (interruptHandlerInstaller m addr).pic := by
  obtain ⟨-, hmaster, hslave, -, -, hmasterIsr, hslaveIsr⟩ :=
    initialize8259Pic_spec m.pic m.software.terminal 0x20 0x28
  exact ⟨⟨hmasterIsr.trans hidle.1, hslaveIsr.trans hidle.2⟩, hmaster, hslave⟩

/-- **What one interrupt owes**, from the machine before it to the machine after. -/
structure Served (a : Arrival) (m m' : Machine σ) : Prop where
  idle : Idle m'.pic
  eois : ∃ sent, m'.pic.log = m.pic.log ++ sent ∧
    eois picMasterCommand sent = (if (a.1.raise m.pic).master.isr = 0 then 0 else 1) ∧
    eois picSlaveCommand sent = (if (a.1.raise m.pic).slave.isr = 0 then 0 else 1)
  handler : m'.calls = m.calls ++
    if a.1.Spurious ∨ m.software.interruptRoutines (a.1.vector m.pic) = 0 then []
    else [(m.software.interruptRoutines (a.1.vector m.pic), Arrival.context a m.pic)]

/-- The handler this interrupt calls, if it calls one, leaves `int_no` in the context it is passed on
    its side of `IRQ8`. -/
def Image.KeepsSide (image : Image σ) (m : Machine σ) (a : Arrival) : Prop :=
  ¬ a.1.Spurious → m.software.interruptRoutines (a.1.vector m.pic) ≠ 0 →
    (irq8 ≤ (image.handlerAt (m.software.interruptRoutines (a.1.vector m.pic))
        (Arrival.context a m.pic) m.software).1.intNo ↔ irq8 ≤ a.1.vector m.pic)

/-! ## The acknowledgement -/

theorem eois_append (port : Uint16) (log log' : List (Uint16 × Uint8)) :
    eois port (log ++ log') = eois port log + eois port log' := List.countP_append

/-- Status reads end nothing. -/
theorem eois_reads (port : Uint16) {reads : List (Uint16 × Uint8)}
    (h : ∀ w ∈ reads, isEoi w.2 = false) : eois port reads = 0 := by
  apply List.countP_eq_zero.mpr
  intro w hw
  simp [h w hw]

/-- The controllers after a dispatch: the master is acknowledged, and before it the slave if the
    vector is one of its lines. -/
theorem dispatch_pic (image : Image σ) (m : Machine σ) (ctx : InterruptContext) (handler : Uint32)
    (hside : handler ≠ 0 →
      (irq8 ≤ (image.handlerAt handler ctx m.software).1.intNo ↔ irq8 ≤ ctx.intNo)) :
    (dispatch image m ctx handler).1.pic =
      picEoiMaster (if irq8 ≤ ctx.intNo then picEoiSlave m.pic else m.pic) := by
  unfold dispatch
  by_cases h : handler = 0
  · subst h
    rfl
  · rw [if_pos h]
    show picEoiMaster (if irq8 ≤ (image.handlerAt handler ctx m.software).1.intNo then _ else _) = _
    simp only [hside h]
    rfl

/-- What is in service after the master is acknowledged, with at most one line held. -/
theorem picEoiMaster_eq (p : Pic) (n : Fin 8) (h : p.master.isr = 0 ∨ p.master.isr = Chip.bit n) :
    picEoiMaster p = { p with
      master := { p.master with isr := 0 }
      log := p.log ++ [(picMasterCommand, picCmdEndintr)] } := by
  rw [picEoiMaster, outb_masterCommand, p.master.endOfInterrupt_single n h]

theorem picEoiSlave_eq (p : Pic) (n : Fin 8) (h : p.slave.isr = 0 ∨ p.slave.isr = Chip.bit n) :
    picEoiSlave p = { p with
      slave := { p.slave with isr := 0 }
      log := p.log ++ [(picSlaveCommand, picCmdEndintr)] } := by
  rw [picEoiSlave, outb_slaveCommand, p.slave.endOfInterrupt_single n h]

/-- The state an interrupt leaves, and what it has sent: `ends` of the master and of the slave. -/
structure Acknowledged (p q : Pic) (masterEnds slaveEnds : Nat) : Prop where
  idle : Idle q
  masterBase : q.master.vectorBase = p.master.vectorBase
  slaveBase : q.slave.vectorBase = p.slave.vectorBase
  sent : ∃ sent, q.log = p.log ++ sent ∧ eois picMasterCommand sent = masterEnds ∧
    eois picSlaveCommand sent = slaveEnds

/-- Status reads alone. -/
theorem StatusRead.acknowledged {p q : Pic} (h : StatusRead p q) (hidle : Idle p) :
    Acknowledged p q 0 0 := by
  obtain ⟨reads, hlog, hreads⟩ := h.log
  refine ⟨⟨h.masterIsr.trans hidle.1, h.slaveIsr.trans hidle.2⟩, h.masterBase, h.slaveBase, reads,
    hlog, eois_reads _ hreads, eois_reads _ hreads⟩

/-- Status reads and the master's end of interrupt, the master alone holding a line. -/
theorem StatusRead.acknowledged_master {p q : Pic} (h : StatusRead p q) (n : Fin 8)
    (hmaster : p.master.isr = Chip.bit n) (hslave : p.slave.isr = 0) :
    Acknowledged p (picEoiMaster q) 1 0 := by
  obtain ⟨reads, hlog, hreads⟩ := h.log
  rw [picEoiMaster_eq q n (Or.inr (h.masterIsr.trans hmaster))]
  refine ⟨⟨rfl, h.slaveIsr.trans hslave⟩, h.masterBase, h.slaveBase,
    reads ++ [(picMasterCommand, picCmdEndintr)], ?_, ?_, ?_⟩
  · show q.log ++ _ = _
    rw [hlog, List.append_assoc]
  · rw [eois_append, eois_reads _ hreads]
    decide
  · rw [eois_append, eois_reads _ hreads]
    decide

/-- Status reads and both ends of interrupt, each chip holding a line. -/
theorem StatusRead.acknowledged_both {p q : Pic} (h : StatusRead p q) (n k : Fin 8)
    (hmaster : p.master.isr = Chip.bit n) (hslave : p.slave.isr = Chip.bit k) :
    Acknowledged p (picEoiMaster (picEoiSlave q)) 1 1 := by
  obtain ⟨reads, hlog, hreads⟩ := h.log
  rw [picEoiMaster_eq (picEoiSlave q) n (Or.inr (h.masterIsr.trans hmaster)),
    picEoiSlave_eq q k (Or.inr (h.slaveIsr.trans hslave))]
  refine ⟨⟨rfl, rfl⟩, h.masterBase, h.slaveBase,
    reads ++ [(picSlaveCommand, picCmdEndintr), (picMasterCommand, picCmdEndintr)], ?_, ?_, ?_⟩
  · show q.log ++ _ ++ _ = _
    rw [hlog, List.append_assoc, List.append_assoc]
    rfl
  · rw [eois_append, eois_reads _ hreads]
    decide
  · rw [eois_append, eois_reads _ hreads]
    decide

/-! ## One interrupt -/

theorem Chip.bit_ne_zero : ∀ n : Fin 8, Chip.bit n ≠ 0 := by decide

/-- The vectors of the master's lines. -/
theorem master_vector {p : Pic} (hp : Remapped p) (line : Fin 8) :
    32 ≤ (Delivery.master line).vector p ∧ (Delivery.master line).vector p < irq8 ∧
      ((Delivery.master line).vector p = irq7 → line = 7) := by
  have hall : ∀ line : Fin 8, 32 ≤ ((0x20 : Uint8) + BitVec.ofNat 8 line).setWidth 32 ∧
      ((0x20 : Uint8) + BitVec.ofNat 8 line).setWidth 32 < irq8 ∧
      (((0x20 : Uint8) + BitVec.ofNat 8 line).setWidth 32 = irq7 → line = 7) := by decide
  unfold Delivery.vector
  rw [hp.1]
  exact hall line

/-- The vectors of the slave's lines. -/
theorem slave_vector {p : Pic} (hp : Remapped p) (line : Fin 8) :
    irq8 ≤ (Delivery.slave line).vector p ∧ (Delivery.slave line).vector p < 48 ∧
      ((Delivery.slave line).vector p = irq15 → line = 7) := by
  have hall : ∀ line : Fin 8, irq8 ≤ ((0x28 : Uint8) + BitVec.ofNat 8 line).setWidth 32 ∧
      ((0x28 : Uint8) + BitVec.ofNat 8 line).setWidth 32 < 48 ∧
      (((0x28 : Uint8) + BitVec.ofNat 8 line).setWidth 32 = irq15 → line = 7) := by decide
  unfold Delivery.vector
  rw [hp.2]
  exact hall line

/-- From an idle pair the acknowledged line is the only one in service. -/
theorem acknowledge_isr {c : Chip} (hidle : c.isr = 0) (n : Fin 8) :
    (c.acknowledge n).isr = Chip.bit n := by
  show c.isr ||| Chip.bit n = Chip.bit n
  rw [hidle]
  exact BitVec.zero_or

/-- A delivery of the pair goes to `IRQ_Handler`. -/
theorem serve_irq (image : Image σ) (m : Machine σ) (a : Arrival)
    (h32 : 32 ≤ a.1.vector m.pic) (h48 : a.1.vector m.pic < 48) :
    serve image m a =
      (irqHandler image { m with pic := a.1.raise m.pic } (Arrival.context a m.pic)).1 :=
  congrArg Prod.fst (interruptHandler_irq image _ _ h32 h48)

/-- A real interrupt: one dispatch, whose acknowledgement is the given one. -/
theorem serve_real (image : Image σ) (m : Machine σ) (a : Arrival) (hkeeps : image.KeepsSide m a)
    (hspurious : ¬ a.1.Spurious) (hreal : RealInterrupt (a.1.raise m.pic) (a.1.vector m.pic))
    (h32 : 32 ≤ a.1.vector m.pic) (h48 : a.1.vector m.pic < 48) :
    ∃ pic, StatusRead (a.1.raise m.pic) pic ∧
      (serve image m a).pic =
        picEoiMaster (if irq8 ≤ a.1.vector m.pic then picEoiSlave pic else pic) ∧
      (serve image m a).calls = m.calls ++
        if m.software.interruptRoutines (a.1.vector m.pic) = 0 then []
        else [(m.software.interruptRoutines (a.1.vector m.pic), Arrival.context a m.pic)] := by
  obtain ⟨pic, hread, hdispatch⟩ := irqHandler_real image
    { m with pic := a.1.raise m.pic } (Arrival.context a m.pic) hreal
  refine ⟨pic, hread, ?_, ?_⟩
  · rw [serve_irq image m a h32 h48, hdispatch]
    exact dispatch_pic image _ _ _ (hkeeps hspurious)
  · rw [serve_irq image m a h32 h48, hdispatch, dispatch_calls]
    rfl

/-- An acknowledgement of what the delivery put in service, with the right handler calls, is all
    that is owed. -/
theorem Acknowledged.served {a : Arrival} {m m' : Machine σ} {masterEnds slaveEnds : Nat}
    (hack : Acknowledged (a.1.raise m.pic) m'.pic masterEnds slaveEnds) (hremap : Remapped m.pic)
    (hmaster : (if (a.1.raise m.pic).master.isr = 0 then 0 else 1) = masterEnds)
    (hslave : (if (a.1.raise m.pic).slave.isr = 0 then 0 else 1) = slaveEnds)
    (hcalls : m'.calls = m.calls ++
      if a.1.Spurious ∨ m.software.interruptRoutines (a.1.vector m.pic) = 0 then []
      else [(m.software.interruptRoutines (a.1.vector m.pic), Arrival.context a m.pic)]) :
    Served a m m' ∧ Remapped m'.pic := by
  have hraise : (a.1.raise m.pic).log = m.pic.log ∧
      (a.1.raise m.pic).master.vectorBase = m.pic.master.vectorBase ∧
      (a.1.raise m.pic).slave.vectorBase = m.pic.slave.vectorBase := by
    cases a.1 <;> exact ⟨rfl, rfl, rfl⟩
  obtain ⟨hlog, hbase, hbase'⟩ := hraise
  obtain ⟨sent, hsent, hm, hs⟩ := hack.sent
  refine ⟨⟨hack.idle, ⟨sent, by rw [hsent, hlog], hm.trans hmaster.symm, hs.trans hslave.symm⟩,
    hcalls⟩, ?_, ?_⟩
  · rw [hack.masterBase, hbase, hremap.1]
  · rw [hack.slaveBase, hbase', hremap.2]

section Deliveries

variable (image : Image σ) {m : Machine σ} (interrupted : InterruptContext)

/-- A line of the master. -/
theorem serve_master (hidle : Idle m.pic) (hremap : Remapped m.pic) (line : Fin 8)
    (hkeeps : image.KeepsSide m (.master line, interrupted)) :
    Served (.master line, interrupted) m (serve image m (.master line, interrupted)) ∧
      Remapped (serve image m (.master line, interrupted)).pic := by
  obtain ⟨hmaster, hslave⟩ := hidle
  obtain ⟨h32, h40, h39⟩ := master_vector hremap line
  have hisr := acknowledge_isr hmaster line
  have h48 : (Delivery.master line).vector m.pic < 48 := BitVec.lt_trans h40 (by decide)
  have hreal : RealInterrupt ((Delivery.master line).raise m.pic)
      ((Delivery.master line).vector m.pic) := by
    refine ⟨fun h7 => ?_, fun h15 => absurd h40 (by rw [h15]; decide)⟩
    rw [h39 h7] at hisr ⊢
    exact (congrArg (fun isr => BitVec.getLsbD isr 7) hisr).trans rfl
  obtain ⟨pic, hread, hpic, hcalls⟩ :=
    serve_real image m (.master line, interrupted) hkeeps id hreal h32 h48
  rw [if_neg (BitVec.not_le.mpr h40)] at hpic
  have hack := hread.acknowledged_master line hisr hslave
  rw [← hpic] at hack
  refine hack.served hremap (if_neg fun h0 => Chip.bit_ne_zero line (hisr.symm.trans h0))
    (if_pos hslave) ?_
  rw [hcalls]
  simp only [Delivery.Spurious, false_or]

/-- A line of the slave, which holds the cascade line of the master as well. -/
theorem serve_slave (hidle : Idle m.pic) (hremap : Remapped m.pic) (line : Fin 8)
    (hkeeps : image.KeepsSide m (.slave line, interrupted)) :
    Served (.slave line, interrupted) m (serve image m (.slave line, interrupted)) ∧
      Remapped (serve image m (.slave line, interrupted)).pic := by
  obtain ⟨hmaster, hslave⟩ := hidle
  obtain ⟨h40, h48, h47⟩ := slave_vector hremap line
  have hisr := acknowledge_isr hmaster 2
  have hisr' := acknowledge_isr hslave line
  have h32 : 32 ≤ (Delivery.slave line).vector m.pic := BitVec.le_trans (by decide) h40
  have hreal : RealInterrupt ((Delivery.slave line).raise m.pic)
      ((Delivery.slave line).vector m.pic) := by
    refine ⟨fun h7 => absurd h40 (by rw [h7]; decide), fun h15 => ?_⟩
    rw [h47 h15] at hisr' ⊢
    exact (congrArg (fun isr => BitVec.getLsbD isr 7) hisr').trans rfl
  obtain ⟨pic, hread, hpic, hcalls⟩ :=
    serve_real image m (.slave line, interrupted) hkeeps id hreal h32 h48
  rw [if_pos h40] at hpic
  have hack := hread.acknowledged_both 2 line hisr hisr'
  rw [← hpic] at hack
  refine hack.served hremap (if_neg fun h0 => Chip.bit_ne_zero 2 (hisr.symm.trans h0))
    (if_neg fun h0 => Chip.bit_ne_zero line (hisr'.symm.trans h0)) ?_
  rw [hcalls]
  simp only [Delivery.Spurious, false_or]

/-- A spurious interrupt of the master: nothing is acknowledged. -/
theorem serve_spuriousMaster (hidle : Idle m.pic) (hremap : Remapped m.pic) :
    Served (.spuriousMaster, interrupted) m (serve image m (.spuriousMaster, interrupted)) ∧
      Remapped (serve image m (.spuriousMaster, interrupted)).pic := by
  obtain ⟨hmaster, hslave⟩ := hidle
  have hspurious : Delivery.spuriousMaster.Spurious := trivial
  have hvector : Delivery.spuriousMaster.vector m.pic = irq7 := by
    unfold Delivery.vector
    rw [hremap.1]
    rfl
  obtain ⟨pic, hread, hrun⟩ := irqHandler_spuriousMaster image m
    (Arrival.context (.spuriousMaster, interrupted) m.pic) hvector (by rw [hmaster]; rfl)
  have hserve : serve image m (.spuriousMaster, interrupted) = { m with pic := pic } :=
    (serve_irq image m (.spuriousMaster, interrupted) (by rw [hvector]; decide)
      (by rw [hvector]; decide)).trans (congrArg Prod.fst hrun)
  rw [hserve]
  have hack : Acknowledged (Delivery.spuriousMaster.raise m.pic) pic 0 0 :=
    hread.acknowledged ⟨hmaster, hslave⟩
  apply Acknowledged.served (a := (.spuriousMaster, interrupted)) hack hremap (if_pos hmaster)
    (if_pos hslave)
  rw [if_pos (Or.inl hspurious), List.append_nil]

/-- A spurious interrupt of the slave: the master alone is acknowledged, for its cascade line. -/
theorem serve_spuriousSlave (hidle : Idle m.pic) (hremap : Remapped m.pic) :
    Served (.spuriousSlave, interrupted) m (serve image m (.spuriousSlave, interrupted)) ∧
      Remapped (serve image m (.spuriousSlave, interrupted)).pic := by
  obtain ⟨hmaster, hslave⟩ := hidle
  have hspurious : Delivery.spuriousSlave.Spurious := trivial
  have hvector : Delivery.spuriousSlave.vector m.pic = irq15 := by
    unfold Delivery.vector
    rw [hremap.2]
    rfl
  have hisr := acknowledge_isr hmaster 2
  obtain ⟨pic, hread, hrun⟩ := irqHandler_spuriousSlave image
    { m with pic := Delivery.spuriousSlave.raise m.pic }
    (Arrival.context (.spuriousSlave, interrupted) m.pic) hvector
    (by show m.pic.slave.isr.getLsbD 7 = false; rw [hslave]; rfl)
  have hserve : serve image m (.spuriousSlave, interrupted)
      = { m with pic := picEoiMaster pic } :=
    (serve_irq image m (.spuriousSlave, interrupted) (by rw [hvector]; decide)
      (by rw [hvector]; decide)).trans (congrArg Prod.fst hrun)
  rw [hserve]
  have hack : Acknowledged (Delivery.spuriousSlave.raise m.pic) (picEoiMaster pic) 1 0 :=
    hread.acknowledged_master 2 hisr hslave
  apply Acknowledged.served (a := (.spuriousSlave, interrupted)) hack hremap
    (if_neg fun h0 => Chip.bit_ne_zero 2 (hisr.symm.trans h0)) (if_pos hslave)
  rw [if_pos (Or.inl hspurious), List.append_nil]

end Deliveries

/-- **The step.**  On an idle, remapped pair a delivery is served if its handler keeps the side, and
    the pair stays remapped. -/
theorem serve_spec (image : Image σ) {m : Machine σ} (hidle : Idle m.pic) (hremap : Remapped m.pic)
    (a : Arrival) (hkeeps : image.KeepsSide m a) :
    Served a m (serve image m a) ∧ Remapped (serve image m a).pic := by
  obtain ⟨d, interrupted⟩ := a
  cases d with
  | master line => exact serve_master image interrupted hidle hremap line hkeeps
  | slave line => exact serve_slave image interrupted hidle hremap line hkeeps
  | spuriousMaster => exact serve_spuriousMaster image interrupted hidle hremap
  | spuriousSlave => exact serve_spuriousSlave image interrupted hidle hremap

/-! ## Every history -/

/-- Along a history the pair is idle and remapped before every delivery. -/
theorem history_served (image : Image σ) (m : Machine σ) (hidle : Idle m.pic)
    (hremap : Remapped m.pic) (arrivals : List Arrival)
    (hkeeps : Guarded (serve image) image.KeepsSide m arrivals) :
    Guarded (serve image) (fun m a => Served a m (serve image m a)) m arrivals := by
  induction arrivals generalizing m with
  | nil => trivial
  | cons a arrivals ih =>
    obtain ⟨hfirst, hrest⟩ := hkeeps
    obtain ⟨hserved, hremap'⟩ := serve_spec image hidle hremap a hfirst
    exact ⟨hserved, ih _ hserved.idle hremap' hrest⟩

/-- **The end-of-interrupt discipline.**  Starting idle, with the vectors 32..47, every interrupt
    of every history is served — the in-service registers are empty again, each chip that held a
    line has had exactly one end of interrupt and the other none, and the slot's handler was called
    exactly when the interrupt was real — for every handler table, if each handler the history calls
    leaves `int_no` on its side of 40 in the context it is passed. -/
theorem every_interrupt_served (image : Image σ) (m : Machine σ) (hidle : Idle m.pic)
    (hremap : Remapped m.pic) (arrivals : List Arrival)
    (hkeeps : ∀ pre a post, arrivals = pre ++ a :: post →
      image.KeepsSide (pre.foldl (serve image) m) a) :
    ∀ pre a post, arrivals = pre ++ a :: post →
      Served a (pre.foldl (serve image) m) (serve image (pre.foldl (serve image) m) a) := by
  have hguarded := (guarded_iff_split _ _ m arrivals).mpr hkeeps
  exact (guarded_iff_split _ _ m arrivals).mp (history_served image m hidle hremap arrivals hguarded)

/-- The keyboard and a spurious interrupt of each chip. -/
def threeArrivals : List Arrival :=
  [(.master 1, zeroContext 0), (.spuriousMaster, zeroContext 0), (.spuriousSlave, zeroContext 0)]

/-- The machine with a handler for the clock. -/
def clockMachine : Machine Unit := idleMachine.withHistory [.install 40 ⟨0x1000, by decide⟩]

/-- After them, the clock. -/
theorem every_interrupt_served_quiet :
    Served (.slave 0, zeroContext 0) (threeArrivals.foldl (serve quietImage) clockMachine)
      (serve quietImage (threeArrivals.foldl (serve quietImage) clockMachine)
        (.slave 0, zeroContext 0)) :=
  every_interrupt_served quietImage clockMachine ⟨rfl, rfl⟩ ⟨rfl, rfl⟩
    (threeArrivals ++ [(.slave 0, zeroContext 0)]) (fun _ _ _ _ _ _ => Iff.rfl) threeArrivals _ []
    rfl

/-- A handler that resets the context's `int_no` to that of the timer. -/
def renumberingImage : Image Unit where
  handlerAt := fun _ ctx software => ({ ctx with intNo := 32 }, software)
  stray := fun _ => 0

/-- Line 0 of the slave, its slot holding that handler: only the master is acknowledged. -/
theorem interrupt_not_served_renumbering :
    Idle clockMachine.pic ∧ Remapped clockMachine.pic ∧
      ¬ Served (.slave 0, zeroContext 0) clockMachine
        (serve renumberingImage clockMachine (.slave 0, zeroContext 0)) := by
  refine ⟨⟨rfl, rfl⟩, ⟨rfl, rfl⟩, fun h => ?_⟩
  exact absurd h.idle.2 (by decide)

end FreeMicroNix
