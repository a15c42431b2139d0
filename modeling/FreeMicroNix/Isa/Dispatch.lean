/-
  Which handler an interrupt reaches.

  The table has a slot for every vector, and the installer accepts every index; but
  `Interrupt_Handler` passes on only the vectors of the sixteen interrupt lines.  A handler
  installed at 48 or above — the two system calls are at 120 and 121 — is never called, although
  their gates are in place.

  `irqHandler_real` is the one fact about `IRQ_Handler` that later modules use: outside the two
  spurious cases it is `dispatch`, after nothing but status reads (`StatusRead`).
  `dispatch_reaches_installed_iff` says exactly which vectors reach the handler last installed.
-/
import FreeMicroNix.Lib.LastWrite
import FreeMicroNix.Isa.Interrupt

namespace FreeMicroNix

open LastWrite

variable {σ : Type}

/-! ## Status reads -/

/-- A write that ends an interrupt: an OCW2 with the EOI bit. -/
def isEoi (value : Uint8) : Bool := value &&& 0x38 = 0x20

/-- `q` is `p` after reads of the status registers: what is in service and the vector bases are
    as before, and no interrupt has been ended. -/
structure StatusRead (p q : Pic) : Prop where
  masterIsr : q.master.isr = p.master.isr
  slaveIsr : q.slave.isr = p.slave.isr
  masterBase : q.master.vectorBase = p.master.vectorBase
  slaveBase : q.slave.vectorBase = p.slave.vectorBase
  log : ∃ reads, q.log = p.log ++ reads ∧ ∀ w ∈ reads, isEoi w.2 = false

theorem StatusRead.refl (p : Pic) : StatusRead p p :=
  ⟨rfl, rfl, rfl, rfl, [], (List.append_nil _).symm, fun _ hw => absurd hw List.not_mem_nil⟩

theorem picReadIsr_statusRead (p : Pic) : StatusRead p (picReadIsr p).1 := by
  rw [picReadIsr_eq]
  refine ⟨rfl, rfl, rfl, rfl, [(picMasterCommand, picReadIsrCommand),
    (picSlaveCommand, picReadIsrCommand)], List.append_assoc _ _ _, ?_⟩
  intro w hw
  rcases List.mem_pair.mp hw with rfl | rfl <;> rfl

/-- Testing bit `k` with a mask. -/
theorem and_bit_eq_zero_iff (w : Uint16) {k : Nat} (hk : k < 16) :
    w &&& 1#16 <<< k = 0 ↔ w.getLsbD k = false := by
  have hbit : ∀ k < 16, ∀ i < 16, (1#16 <<< k).getLsbD i = decide (i = k) := by decide
  constructor
  · intro h
    have hk' := congrArg (fun w => BitVec.getLsbD w k) h
    simpa [BitVec.getLsbD_and, hbit k hk k hk] using hk'
  · intro h
    apply BitVec.eq_of_getLsbD_eq
    intro i hi
    rw [BitVec.getLsbD_and, hbit k hk i hi]
    by_cases heq : i = k
    · simp [heq, h]
    · simp [heq]

/-- The tests of `IRQ_Handler`: line 7 of the master, line 7 of the slave. -/
theorem isr_test (p : Pic) :
    ((picReadIsr p).2 &&& 1#16 <<< 7 = 0 ↔ p.master.isr.getLsbD 7 = false) ∧
      ((picReadIsr p).2 &&& 1#16 <<< 15 = 0 ↔ p.slave.isr.getLsbD 7 = false) := by
  rw [picReadIsr_eq, and_bit_eq_zero_iff _ (by decide), and_bit_eq_zero_iff _ (by decide),
    getLsbD_word, getLsbD_word]
  exact ⟨Iff.rfl, Iff.rfl⟩

/-! ## The cases of `IRQ_Handler` -/

section Cases

variable (image : Image σ) (m : Machine σ) (ctx : InterruptContext)

/-- The context is that of a real interrupt: vectors 39 and 47 only with their line in service. -/
def RealInterrupt (p : Pic) (intNo : Uint32) : Prop :=
  (intNo = irq7 → p.master.isr.getLsbD 7 = true) ∧ (intNo = irq15 → p.slave.isr.getLsbD 7 = true)

instance (p : Pic) (intNo : Uint32) : Decidable (RealInterrupt p intNo) :=
  inferInstanceAs (Decidable (_ ∧ _))

/-- **A real interrupt is dispatched**, whatever vector it has. -/
theorem irqHandler_real (hreal : RealInterrupt m.pic ctx.intNo) :
    ∃ pic, StatusRead m.pic pic ∧ irqHandler image m ctx =
      dispatch image { m with pic := pic } ctx (m.software.interruptRoutines ctx.intNo) := by
  obtain ⟨h7, h15⟩ := hreal
  unfold irqHandler
  by_cases hirq7 : ctx.intNo = irq7
  · refine ⟨_, picReadIsr_statusRead m.pic, ?_⟩
    have htest : ¬ ((picReadIsr m.pic).2 &&& 1#16 <<< 7 = 0) := by
      rw [(isr_test m.pic).1, h7 hirq7]
      decide
    rw [if_pos hirq7]
    exact if_neg htest
  · rw [if_neg hirq7]
    by_cases hirq15 : ctx.intNo = irq15
    · refine ⟨_, picReadIsr_statusRead m.pic, ?_⟩
      have htest : ¬ ((picReadIsr m.pic).2 &&& 1#16 <<< 15 = 0) := by
        rw [(isr_test m.pic).2, h15 hirq15]
        decide
      rw [if_pos hirq15]
      exact if_neg htest
    · rw [if_neg hirq15]
      exact ⟨m.pic, StatusRead.refl m.pic, rfl⟩

/-- A spurious interrupt of the master is not acknowledged at all. -/
theorem irqHandler_spuriousMaster (hirq : ctx.intNo = irq7)
    (hbit : m.pic.master.isr.getLsbD 7 = false) :
    ∃ pic, StatusRead m.pic pic ∧ irqHandler image m ctx = ({ m with pic := pic }, ctx) := by
  refine ⟨_, picReadIsr_statusRead m.pic, ?_⟩
  unfold irqHandler
  rw [if_pos hirq]
  exact if_pos ((isr_test m.pic).1.mpr hbit)

/-- A spurious interrupt of the slave is acknowledged to the master. -/
theorem irqHandler_spuriousSlave (hirq : ctx.intNo = irq15)
    (hbit : m.pic.slave.isr.getLsbD 7 = false) :
    ∃ pic, StatusRead m.pic pic ∧
      irqHandler image m ctx = ({ m with pic := picEoiMaster pic }, ctx) := by
  refine ⟨_, picReadIsr_statusRead m.pic, ?_⟩
  unfold irqHandler
  rw [hirq, if_neg (by decide), if_pos rfl]
  exact if_pos ((isr_test m.pic).2.mpr hbit)

/-- The handler calls of a dispatch: the slot's handler once, with the context, or none. -/
theorem dispatch_calls (handler : Uint32) :
    (dispatch image m ctx handler).1.calls =
      m.calls ++ if handler = 0 then [] else [(handler, ctx)] := by
  unfold dispatch
  by_cases h : handler = 0
  · subst h
    exact (List.append_nil _).symm
  · rw [if_neg h, if_pos h]
    rfl

/-- The three ranges of `Interrupt_Handler`. -/
theorem interruptHandler_irq (h32 : 32 ≤ ctx.intNo) (h48 : ctx.intNo < 48) :
    interruptHandler image m ctx = irqHandler image m ctx := by
  rw [interruptHandler, if_neg (BitVec.not_lt.mpr h32), if_pos ⟨h32, h48⟩]

theorem interruptHandler_above (h48 : 48 ≤ ctx.intNo) :
    interruptHandler image m ctx = (m, ctx) := by
  have h32 : ¬ ctx.intNo < 32 := by
    rw [BitVec.not_lt]
    exact BitVec.le_trans (by decide) h48
  rw [interruptHandler, if_neg h32, if_neg fun h => BitVec.not_lt.mpr h48 h.2]

end Cases

/-! ## The handler table over its history -/

/-- The address of a function: not null. -/
structure HandlerPtr where
  addr : Uint32
  ne_null : addr ≠ 0

/-- A call that changes the table. -/
inductive TableCall where
  | install (index : Uint32) (handler : HandlerPtr)
  | uninstall (index : Uint32)

namespace TableCall

/-- One call on the table. -/
def run (table : Uint32 → Uint32) : TableCall → Uint32 → Uint32
  | install index handler => installInterruptHandler table index handler.addr
  | uninstall index => uninstallInterruptHandler table index

/-- The slot a call is about. -/
def index : TableCall → Uint32
  | install index _ => index
  | uninstall index => index

/-- The handler it leaves there. -/
def leaves : TableCall → Option HandlerPtr
  | install _ handler => some handler
  | uninstall _ => none

/-- What a call writes to a slot. -/
def writes (call : TableCall) (slot : Uint32) : Option (Option HandlerPtr) :=
  if slot = call.index then some call.leaves else none

end TableCall

/-- `Install_Syscall_Handler` is two installations. -/
theorem installSyscallHandler_eq (table : Uint32 → Uint32) (stu stk : HandlerPtr) :
    installSyscallHandler table stu.addr stk.addr
      = [TableCall.install 120 stu, .install 121 stk].foldl TableCall.run table := rfl

/-- The handler installed last at `slot` and not uninstalled since. -/
def installed (history : List TableCall) (slot : Uint32) : Option HandlerPtr :=
  (lastWrite TableCall.writes history slot).getD none

/-- The word a slot holds. -/
def slotWord : Option HandlerPtr → Uint32
  | none => 0
  | some handler => handler.addr

/-- **The table is its history**: every slot holds the handler installed there last. -/
theorem table_eq_installed (history : List TableCall) (slot : Uint32) :
    history.foldl TableCall.run interruptRoutinesInit slot = slotWord (installed history slot) := by
  have hstep : ∀ (table : Uint32 → Uint32) (call : TableCall), True →
      call.run table slot = ((call.writes slot).map slotWord).getD (table slot) := by
    intro table call _
    have hcall : call.run table = Function.update table call.index (slotWord call.leaves) := by
      cases call <;> rfl
    rw [hcall, TableCall.writes]
    by_cases h : slot = call.index
    · rw [h, Function.update_self, if_pos rfl]
      rfl
    · rw [Function.update_of_ne h, if_neg h]
      rfl
  have hrun := read_foldl (fun table slot => table slot)
    (fun call slot => (TableCall.writes call slot).map slotWord) (A := fun _ => True)
    hstep interruptRoutinesInit history fun _ _ => trivial
  rw [hrun, lastWrite_map]
  unfold installed
  cases lastWrite TableCall.writes history slot <;> rfl

/-! ## Every history and every vector -/

/-- A machine whose table has the given history. -/
def Machine.withHistory (m : Machine σ) (history : List TableCall) : Machine σ :=
  { m with software := { m.software with
      interruptRoutines := history.foldl TableCall.run interruptRoutinesInit } }

/-- The calls an interrupt should make: the installed handler once, with that context. -/
def expectedCalls (history : List TableCall) (ctx : InterruptContext) :
    List (Uint32 × InterruptContext) :=
  ((installed history ctx.intNo).map fun handler => (handler.addr, ctx)).toList

/-- The slot's word decides between calling and not calling. -/
theorem expectedCalls_eq (history : List TableCall) (ctx : InterruptContext) :
    expectedCalls history ctx =
      if slotWord (installed history ctx.intNo) = 0 then []
      else [(slotWord (installed history ctx.intNo), ctx)] := by
  unfold expectedCalls
  cases installed history ctx.intNo with
  | none => rfl
  | some handler => exact (if_neg handler.ne_null).symm

/-- **Dispatch, exactly.**  For every history of the table and every context from vector 32 on
    that is not a spurious 39 or 47, `Interrupt_Handler` makes the expected calls if and only if
    the vector is below 48 or its slot is empty. -/
theorem dispatch_reaches_installed_iff (image : Image σ) (m : Machine σ)
    (history : List TableCall) (ctx : InterruptContext) (h32 : 32 ≤ ctx.intNo)
    (hreal : RealInterrupt m.pic ctx.intNo) :
    (interruptHandler image (m.withHistory history) ctx).1.calls
        = m.calls ++ expectedCalls history ctx ↔
      ctx.intNo < 48 ∨ installed history ctx.intNo = none := by
  have hslot : (m.withHistory history).software.interruptRoutines ctx.intNo
      = slotWord (installed history ctx.intNo) := table_eq_installed history ctx.intNo
  by_cases h48 : ctx.intNo < 48
  · obtain ⟨pic, -, hdispatch⟩ := irqHandler_real image (m.withHistory history) ctx hreal
    rw [interruptHandler_irq image _ ctx h32 h48, hdispatch, dispatch_calls, hslot,
      ← expectedCalls_eq]
    exact iff_of_true rfl (Or.inl h48)
  · rw [interruptHandler_above image _ ctx (BitVec.not_lt.mp h48), or_iff_right h48]
    show m.calls = m.calls ++ expectedCalls history ctx ↔ _
    rw [List.self_eq_append_right]
    unfold expectedCalls
    rw [Option.toList_eq_nil_iff, Option.map_eq_none_iff]

/-! ## Two machines -/

/-- The pair after the remapping, nothing masked and nothing in service. -/
def idlePic : Pic where
  master := ⟨0, 0, 0, false, 0x20, 7, []⟩
  slave := ⟨0, 0, 0, false, 0x28, 7, []⟩
  log := []

/-- An idle machine with an empty handler table. -/
def idleMachine : Machine Unit where
  pic := idlePic
  software :=
    { interruptRoutines := interruptRoutinesInit
      idt := { address := 0, entries := fun _ => .zero, idtp := ⟨0, 0⟩, idtr := ⟨0, 0⟩ }
      terminal := coldTerminal
      rest := () }
  calls := []
  halted := false

/-- The context of a vector, all other fields zero. -/
def zeroContext (intNo : Uint32) : InterruptContext :=
  ⟨0, 0, 0, 0, 0, 0, 0, 0, 0, 0, 0, 0, intNo, 0, 0, 0, 0, 0, 0⟩

/-- Handlers that leave context and memory alone. -/
def quietImage : Image Unit where
  handlerAt := fun _ ctx software => (ctx, software)
  stray := fun _ => 0

/-- The keyboard's line. -/
theorem dispatch_reaches_installed_keyboard :
    (interruptHandler quietImage (idleMachine.withHistory [.install 33 ⟨0x1000, by decide⟩])
        (zeroContext 33)).1.calls
      = idleMachine.calls ++ expectedCalls [.install 33 ⟨0x1000, by decide⟩] (zeroContext 33) :=
  (dispatch_reaches_installed_iff quietImage idleMachine [.install 33 ⟨0x1000, by decide⟩]
    (zeroContext 33) (by decide) (by decide)).mpr (Or.inl (by decide))

/-- The handler `Install_Syscall_Handler` puts at 120 is not called by vector 120. -/
theorem dispatch_misses_installed_120 :
    RealInterrupt idleMachine.pic (zeroContext 120).intNo ∧
      (interruptHandler quietImage (idleMachine.withHistory [.install 120 ⟨0x1000, by decide⟩])
          (zeroContext 120)).1.calls
        ≠ idleMachine.calls ++
            expectedCalls [.install 120 ⟨0x1000, by decide⟩] (zeroContext 120) := by
  refine ⟨by decide, ?_⟩
  rw [interruptHandler_above quietImage _ _ (by decide)]
  decide

end FreeMicroNix
