/-
  What `kmain` has set up when it lets interrupts in, and what an interrupt does to it.

  1. `Ready` — the controllers deliver the vectors 32..47, the gate and the descriptor of each lead to
     the stub that pushes it, the handler table holds the timer's handler alone, and the timer runs.
  2. `ready_installations` — the installations of `kmain` leave that, whatever the firmware left.
  3. `Ready.served` — one interrupt: acknowledged as it must be, counted if it is the timer's, and
     nothing else.
  4. `Ready.take_eq` — its way back: the stub's pops go through if `fs` and `gs` can be loaded.
  5. `exec_still` — what interrupts change (`Kernel.still` is the rest) no command looks at.
-/
import FreeMicroNix.Kernel.Commands

namespace FreeMicroNix

open Interleaving LastWrite

/-! ## The way to `Interrupt_Handler` -/

/-- A stub is found at its address. -/
theorem KernelImage.stubAt_stub (i : KernelImage) {s : Stub} (hs : s ∈ stubs) :
    i.stubAt (i.stub s.label) = some s := by
  unfold KernelImage.stubAt
  cases hfind : stubs.find? fun s' => i.stub s'.label = i.stub s.label with
  | none => exact absurd (List.find?_eq_none.mp hfind s hs) (by simp)
  | some s' =>
    have hsame : i.stub s'.label = i.stub s.label := by simpa using List.find?_some hfind
    rw [i.stub_inj s' (List.mem_of_find?_eq_some hfind) s hs hsame]

/-- Every vector of the controllers has a row in the installer. -/
theorem last_of_line : ∀ n < 16, (InstallerRow.last (BitVec.ofNat 8 (32 + n))).isSome := by decide

/-- The kernel's code segment. -/
theorem Installed.kernelCode {g : Gdt} (h : Installed g.unaccessed) :
    g.descriptor 0x08 = some ⟨0, 0xFFFFF, 0x9B, 0xC⟩ := by
  rw [← descriptor_unaccessed_kernel g (by decide), h.descriptor (by decide)]
  rfl

/-- **The way in.**  With the table and the gates installed, a vector with a row leads to the stub
    that pushes it; 121 has the stub of 120. -/
theorem stubOf_row (i : KernelImage) {k : Kernel} {m : Machine Pit}
    (hidt : k.machine.software.idt = (installInterrupts m i.stub).software.idt)
    (hgdt : Installed k.gdt.unaccessed) {v : Uint8} (hnot : v ≠ 121)
    (hrow : (InstallerRow.last v).isSome) :
    ∃ s, k.stubOf i v = some s ∧ s.intNo = some (v.setWidth 32) := by
  obtain ⟨row, hlast⟩ := Option.isSome_iff_exists.mp hrow
  obtain ⟨hsel, hflags, s, hs, hintNo, hlabel⟩ := InstallerRow.last_fits hnot hlast
  obtain ⟨hpresent, hsystem, htype, -⟩ := flags_8E
  have hgate : k.machine.software.idt.gate v = some (row.gate i.stub) := by
    rw [hidt, gate_installInterrupts, hlast]
    rfl
  have hentrance : k.entrance v = some (row.gate i.stub) := by
    have hcode : k.gdt.descriptor (row.gate i.stub).selector
        = some ⟨0, 0xFFFFF, 0x9B, 0xC⟩ := by
      rw [InstallerRow.gate, hsel]
      exact hgdt.kernelCode
    unfold Kernel.entrance
    rw [hgate]
    show (k.gdt.descriptor (row.gate i.stub).selector >>= _) = _
    rw [hcode]
    refine if_pos ⟨?_, ?_, ?_, ?_, by decide, by decide, by decide⟩
    · rw [InstallerRow.gate, hflags]
      exact hpresent
    · rw [InstallerRow.gate, hflags]
      exact hsystem
    · rw [InstallerRow.gate, hflags]
      exact htype
    · rw [InstallerRow.gate, hsel]
      show slotOf 0x08 ≠ 0
      decide
  refine ⟨s, ?_, hintNo⟩
  unfold Kernel.stubOf
  rw [hentrance]
  show i.stubAt (i.stub row.stub) = some s
  rw [← hlabel, i.stubAt_stub hs]

/-- So do the vectors of the controllers. -/
theorem stubOf_installed (i : KernelImage) {k : Kernel} {m : Machine Pit}
    (hidt : k.machine.software.idt = (installInterrupts m i.stub).software.idt)
    (hgdt : Installed k.gdt.unaccessed) {v : Uint8} (h32 : 32 ≤ v) (h48 : v < 48) :
    ∃ s, k.stubOf i v = some s ∧ s.intNo = some (v.setWidth 32) := by
  have hv : v = BitVec.ofNat 8 (32 + (v.toNat - 32)) := by
    have h32' : 32 ≤ v.toNat := BitVec.le_def.mp h32
    rw [Nat.add_sub_cancel' h32', BitVec.ofNat_toNat, BitVec.setWidth_eq]
  have hline : v.toNat - 32 < 16 := by
    have h48' : v.toNat < 48 := BitVec.lt_def.mp h48
    omega
  have hrow := last_of_line _ hline
  rw [← hv] at hrow
  have hnot : v ≠ 121 := by
    rintro rfl
    exact absurd h48 (by decide)
  exact stubOf_row i hidt hgdt hnot hrow

/-! ## What `kmain` has set up -/

/-- **Ready for interrupts**: the processor runs, the controllers are idle and deliver the vectors
    32..47, each of which leads to its stub; the timer's handler is the only one there is; the
    descriptor table (but for the accessed bits of the user's segments) and the task register are
    loaded, and so is the timer, at a thousand hertz. -/
structure Ready (i : KernelImage) (k : Kernel) : Prop where
  running : k.Running ∧ k.machine.halted = false
  idle : Idle k.machine.pic
  remapped : Remapped k.machine.pic
  stubs : ∀ v : Uint8, 32 ≤ v → v < 48 → ∃ s, k.stubOf i v = some s ∧ s.intNo = some (v.setWidth 32)
  handlers : k.machine.software.interruptRoutines
    = Function.update interruptRoutinesInit irq0 i.timerHandler.addr
  gdt : Installed k.gdt.unaccessed
  timer : (k.board.channel 0).Loaded 1193

/-- The command writes nothing of it. -/
def Command.inert (c : Command) : Bool :=
  !c.writesPic && !c.writesIdt && !c.writesHandlers && !c.writesGdt && !c.writesChannel0

/-- Nothing of it has changed. -/
structure Kept (k k' : Kernel) : Prop where
  halted : k'.machine.halted = k.machine.halted
  pic : k'.machine.pic = k.machine.pic
  idt : k'.machine.software.idt = k.machine.software.idt
  handlers : k'.machine.software.interruptRoutines = k.machine.software.interruptRoutines
  gdt : k'.gdt = k.gdt
  channel0 : k'.board.channel 0 = k.board.channel 0

theorem exec_kept (i : KernelImage) (k : Kernel) {c : Command} (h : c.inert = true) :
    Kept k (c.exec i k) := by
  have hframed := exec_framed i k c
  simp only [Command.inert, Bool.and_eq_true, Bool.not_eq_true'] at h
  obtain ⟨⟨⟨⟨hpic, hidt⟩, hhandlers⟩, hgdt⟩, hchannel0⟩ := h
  exact ⟨hframed.halted, hframed.pic hpic, hframed.idt hidt,
    hframed.handlers hhandlers, hframed.gdt hgdt, hframed.channel0 hchannel0⟩

/-- A stretch of such commands. -/
theorem execAll_kept (i : KernelImage) (k : Kernel) {cs : List Command}
    (h : ∀ c ∈ cs, c.inert = true) : Kept k (execAll i k cs) := by
  induction cs generalizing k with
  | nil => exact ⟨rfl, rfl, rfl, rfl, rfl, rfl⟩
  | cons c cs ih =>
    have hfirst := exec_kept i k (h c List.mem_cons_self)
    have hrest := ih (c.exec i k) fun c hc => h c (List.mem_cons_of_mem _ hc)
    exact ⟨hrest.halted.trans hfirst.halted, hrest.pic.trans hfirst.pic, hrest.idt.trans hfirst.idt,
      hrest.handlers.trans hfirst.handlers, hrest.gdt.trans hfirst.gdt,
      hrest.channel0.trans hfirst.channel0⟩

/-- A kernel that is ready stays so, as long as it runs. -/
theorem Ready.kept {i : KernelImage} {k k' : Kernel} (h : Ready i k) (hkept : Kept k k')
    (hrun : k'.Running) : Ready i k' := by
  refine ⟨⟨hrun, ?_⟩, ?_, ?_, ?_, ?_, ?_, ?_⟩
  · rw [hkept.halted]
    exact h.running.2
  · rw [hkept.pic]
    exact h.idle
  · rw [hkept.pic]
    exact h.remapped
  · intro v h32 h48
    unfold Kernel.stubOf Kernel.entrance
    rw [hkept.idt, hkept.gdt]
    exact h.stubs v h32 h48
  · rw [hkept.handlers]
    exact h.handlers
  · rw [hkept.gdt]
    exact h.gdt
  · rw [hkept.channel0]
    exact h.timer

/-- The controllers' masks. -/
structure SameMasks (p q : Pic) : Prop where
  master : q.master.imr = p.master.imr
  slave : q.slave.imr = p.slave.imr

section Installations

variable (i : KernelImage) {k : Kernel}

/-- `Initialize_PIT_8254`: the rate and the handler. -/
theorem exec_pit8254 (hrun : (Command.exec i (.installInterruptHandler irq0 i.timerHandler.addr)
      (Command.exec i (.pit8254Phase 1000) k)).Running) :
    ∃ board, pit8254Phase k.board 1000 = some board ∧
      Command.exec i (.installInterruptHandler irq0 i.timerHandler.addr)
        (Command.exec i (.pit8254Phase 1000) k) =
      { k with
        board := board
        machine := { k.machine with software := { k.machine.software with
          interruptRoutines := Function.update k.machine.software.interruptRoutines irq0
            i.timerHandler.addr } } } := by
  obtain ⟨hrun₁, hsecond⟩ := exec_eq_run i hrun
  obtain ⟨-, hfirst⟩ := exec_eq_run i hrun₁
  obtain ⟨board, hphase, -⟩ := pit8254Phase_loaded k.board (show 19 ≤ (1000 : Uint32).toNat by decide)
  refine ⟨board, hphase, ?_⟩
  rw [hsecond, hfirst, Command.run, Command.run, hphase]
  rfl

/-- `Initialize_GDT` -/
theorem exec_initializeGdt (hrun : (Command.exec i .initializeGdt k).Running) :
    ∃ gdt t, Installed gdt ∧
      Command.exec i .initializeGdt k = { k with gdt := gdt }.onTerminal fun _ => t := by
  obtain ⟨gdt, t, -, hinstalled, hgdt⟩ := run_initializeGdt i k
  exact ⟨gdt, t, hinstalled, (exec_eq_run i hrun).2.trans hgdt⟩

/-- `Install_IDT` and `Interrupt_Handler_Installer` -/
theorem exec_installInterrupts
    (hrun : (Command.exec i .interruptHandlerInstaller (Command.exec i .installIdt k)).Running) :
    Command.exec i .interruptHandlerInstaller (Command.exec i .installIdt k)
      = { k with machine := installInterrupts k.machine i.stub } := by
  obtain ⟨hrun₁, hsecond⟩ := exec_eq_run i hrun
  rw [hsecond, (exec_eq_run i hrun₁).2]
  rfl

/-- What the two change. -/
theorem installInterrupts_eq (m : Machine Pit) (addr : Label → Uint32) : ∃ idt t,
    installInterrupts m addr = { m with
      pic := (initialize8259Pic m.pic (installIdt m.software.idt m.software.terminal).2 0x20 0x28).1
      software := { m.software with idt := idt, terminal := t } } := ⟨_, _, rfl⟩

/-- The controllers after the two, and what else they leave alone. -/
theorem installInterrupts_frame (m : Machine Pit) (addr : Label → Uint32) (hidle : Idle m.pic) :
    Idle (installInterrupts m addr).pic ∧ Remapped (installInterrupts m addr).pic ∧
      SameMasks m.pic (installInterrupts m addr).pic ∧
      (installInterrupts m addr).software.interruptRoutines = m.software.interruptRoutines ∧
      (installInterrupts m addr).halted = m.halted := by
  obtain ⟨idt, t, hrun⟩ := installInterrupts_eq m addr
  have hspec :=
    initialize8259Pic_spec m.pic (installIdt m.software.idt m.software.terminal).2 0x20 0x28
  rw [hrun]
  generalize initialize8259Pic m.pic _ 0x20 0x28 = result at hspec
  obtain ⟨-, hmaster, hslave, himr, himr', hisr, hisr'⟩ := hspec
  exact ⟨⟨hisr.trans hidle.1, hisr'.trans hidle.2⟩, ⟨hmaster, hslave⟩, ⟨himr, himr'⟩, rfl, rfl⟩

/-- The installations of `kmain`, with the prints before, between and behind them. -/
def installations (first second third : List Command) : List Command :=
  first ++ .pit8254Phase 1000 :: .installInterruptHandler irq0 i.timerHandler.addr ::
    (second ++ .initializeGdt :: .installIdt :: .interruptHandlerInstaller :: third)

/-- **What the installations leave**, if they go through: a kernel that is ready, and the firmware's
    masks. -/
theorem ready_installations (hboot : k.Loaded) {first second third : List Command}
    (hfirst : ∀ c ∈ first, c.inert = true) (hsecond : ∀ c ∈ second, c.inert = true)
    (hthird : ∀ c ∈ third, c.inert = true)
    (hrun : (execAll i k (installations i first second third)).Running) :
    Ready i (execAll i k (installations i first second third)) ∧
      SameMasks k.machine.pic (execAll i k (installations i first second third)).machine.pic := by
  have hkept₁ := execAll_kept i k hfirst
  obtain ⟨k₁, hk₁⟩ : ∃ k₁, execAll i k first = k₁ := ⟨_, rfl⟩
  rw [hk₁] at hkept₁
  obtain ⟨k₂, hk₂⟩ : ∃ k₂, Command.exec i (.installInterruptHandler irq0 i.timerHandler.addr)
    (Command.exec i (.pit8254Phase 1000) k₁) = k₂ := ⟨_, rfl⟩
  have hkept₃ := execAll_kept i k₂ hsecond
  obtain ⟨k₃, hk₃⟩ : ∃ k₃, execAll i k₂ second = k₃ := ⟨_, rfl⟩
  rw [hk₃] at hkept₃
  obtain ⟨k₄, hk₄⟩ : ∃ k₄, Command.exec i .initializeGdt k₃ = k₄ := ⟨_, rfl⟩
  obtain ⟨k₅, hk₅⟩ : ∃ k₅, Command.exec i .interruptHandlerInstaller
    (Command.exec i .installIdt k₄) = k₅ := ⟨_, rfl⟩
  have hall : execAll i k (installations i first second third) = execAll i k₅ third := by
    rw [installations, execAll_append, hk₁]
    show execAll i (Command.exec i _ (Command.exec i _ k₁)) (second ++ _) = _
    rw [hk₂, execAll_append, hk₃]
    show execAll i (Command.exec i _ (Command.exec i _ (Command.exec i _ k₃))) third = _
    rw [hk₄, hk₅]
  -- what runs at the end has run all along
  rw [hall] at hrun ⊢
  have hrun₅ := running_of_execAll i k₅ hrun
  rw [← hk₅] at hrun₅
  have htables := exec_installInterrupts i hrun₅
  have hrun₄ := (exec_eq_run i (exec_eq_run i hrun₅).1).1
  rw [← hk₄] at hrun₄
  obtain ⟨gdt, t, hinstalled, hgdt⟩ := exec_initializeGdt i hrun₄
  have hrun₃ := (exec_eq_run i hrun₄).1
  rw [← hk₃] at hrun₃
  have hrun₂ := running_of_execAll i k₂ hrun₃
  rw [← hk₂] at hrun₂
  obtain ⟨board, hphase, hpit⟩ := exec_pit8254 i hrun₂
  rw [hk₂] at hpit
  rw [hk₄] at hgdt
  rw [hk₅] at htables hrun₅
  have hpic : k₄.machine.pic = k.machine.pic := by
    rw [hgdt]
    show k₃.machine.pic = _
    rw [hkept₃.pic, hpit]
    exact hkept₁.pic
  obtain ⟨hidle, hremapped, hmasks, hhandlers, hhalted⟩ :=
    installInterrupts_frame k₄.machine i.stub (by rw [hpic]; exact hboot.idle)
  obtain ⟨m, hm⟩ : ∃ m, installInterrupts k₄.machine i.stub = m := ⟨_, rfl⟩
  rw [hm] at htables hidle hremapped hmasks hhandlers hhalted
  have hgdt₄ : k₄.gdt = gdt := by
    rw [hgdt]
    rfl
  have hready : Ready i k₅ := by
    rw [htables] at hrun₅ ⊢
    refine ⟨⟨hrun₅, hhalted.trans ?_⟩, hidle, hremapped,
      fun v h32 h48 => stubOf_installed i (congrArg (·.software.idt) hm.symm) ?_ h32 h48,
      hhandlers.trans ?_, ?_, ?_⟩
    · rw [hgdt]
      show k₃.machine.halted = false
      rw [hkept₃.halted, hpit]
      exact hkept₁.halted.trans hboot.running.2
    · exact (hgdt₄ ▸ hinstalled).unaccessed
    · rw [hgdt]
      show k₃.machine.software.interruptRoutines = _
      rw [hkept₃.handlers, hpit]
      show Function.update k₁.machine.software.interruptRoutines _ _ = _
      rw [hkept₁.handlers, hboot.interruptRoutines]
    · exact (hgdt₄ ▸ hinstalled).unaccessed
    · obtain ⟨board', hphase', hloaded⟩ :=
        pit8254Phase_loaded k₁.board (show 19 ≤ (1000 : Uint32).toNat by decide)
      obtain rfl := Option.some.inj (hphase.symm.trans hphase')
      show (k₄.board.channel 0).Loaded 1193
      rw [hgdt]
      show (k₃.board.channel 0).Loaded 1193
      rw [hkept₃.channel0, hpit]
      exact hloaded
  have hkept₅ := execAll_kept i k₅ hthird
  refine ⟨hready.kept hkept₅ hrun, ?_⟩
  rw [hkept₅.pic, htables, ← hpic]
  exact hmasks

end Installations

/-! ## One interrupt -/

/-- The controllers without what an interrupt changes for the time it is served, the status register
    selected, and the port writes. -/
def Pic.quiet (p : Pic) : Pic where
  master := { p.master with isr := 0, readIsr := false }
  slave := { p.slave with isr := 0, readIsr := false }
  log := []

theorem Chip.command_endOfInterrupt (c : Chip) :
    { c.command picCmdEndintr with isr := 0 } = { c with isr := 0 } := by
  have hstep : c.command picCmdEndintr = (c.highestInService.map c.endLine).getD c := rfl
  rw [hstep]
  cases c.highestInService <;> rfl

theorem quiet_picEoiMaster (p : Pic) : (picEoiMaster p).quiet = p.quiet := by
  have hchip := congrArg (fun c : Chip => { c with readIsr := false })
    p.master.command_endOfInterrupt
  rw [picEoiMaster, outb_masterCommand]
  exact congrArg (fun c => Pic.mk c p.quiet.slave []) hchip

theorem quiet_picEoiSlave (p : Pic) : (picEoiSlave p).quiet = p.quiet := by
  have hchip := congrArg (fun c : Chip => { c with readIsr := false })
    p.slave.command_endOfInterrupt
  rw [picEoiSlave, outb_slaveCommand]
  exact congrArg (fun c => Pic.mk p.quiet.master c []) hchip

theorem quiet_picReadIsr (p : Pic) : (picReadIsr p).1.quiet = p.quiet := by
  rw [picReadIsr_eq]
  rfl

theorem quiet_raise (p : Pic) (d : Delivery) : (d.raise p).quiet = p.quiet := by cases d <;> rfl

/-- `IRQ_Handler` dispatches, or returns early; before that it has read a status. -/
theorem irqHandler_cases {σ : Type} (image : Image σ) (m : Machine σ) (ctx : InterruptContext) :
    ∃ pic : Pic, pic.quiet = m.pic.quiet ∧
      (irqHandler image m ctx = ({ m with pic := pic }, ctx) ∨
        irqHandler image m ctx =
          dispatch image { m with pic := pic } ctx (m.software.interruptRoutines ctx.intNo)) := by
  have hread := quiet_picReadIsr m.pic
  unfold irqHandler
  by_cases h7 : ctx.intNo = irq7
  · by_cases hbit : (picReadIsr m.pic).2 &&& 1#16 <<< 7 = 0
    · refine ⟨(picReadIsr m.pic).1, hread, Or.inl ?_⟩
      rw [if_pos h7]
      exact if_pos hbit
    · refine ⟨(picReadIsr m.pic).1, hread, Or.inr ?_⟩
      rw [if_pos h7]
      exact if_neg hbit
  · rw [if_neg h7]
    by_cases h15 : ctx.intNo = irq15
    · by_cases hbit : (picReadIsr m.pic).2 &&& 1#16 <<< 15 = 0
      · refine ⟨picEoiMaster (picReadIsr m.pic).1, (quiet_picEoiMaster _).trans hread, Or.inl ?_⟩
        rw [if_pos h15]
        exact if_pos hbit
      · refine ⟨(picReadIsr m.pic).1, hread, Or.inr ?_⟩
        rw [if_pos h15]
        exact if_neg hbit
    · rw [if_neg h15]
      exact ⟨m.pic, rfl, Or.inr rfl⟩

/-- What a dispatch through a slot of the timer's table does: it runs the timer's handler, or
    nothing. -/
theorem dispatch_timer (i : KernelImage) (m : Machine Pit) (ctx : InterruptContext)
    {handler : Uint32} (hhandler : handler = 0 ∨ handler = i.timerHandler.addr) :
    let m' := (dispatch i.image m ctx handler).1
    m'.pic.quiet = m.pic.quiet ∧ m'.halted = m.halted ∧
      m'.software = { m.software with
        rest := if handler = 0 then m.software.rest else pit8254Handler m.software.rest } := by
  have hpic : ∀ ctx' : InterruptContext,
      (picEoiMaster (if irq8 ≤ ctx'.intNo then picEoiSlave m.pic else m.pic)).quiet
        = m.pic.quiet := by
    intro ctx'
    rw [quiet_picEoiMaster]
    split
    · exact quiet_picEoiSlave m.pic
    · rfl
  unfold dispatch
  rcases hhandler with rfl | rfl
  · rw [if_neg (not_not_intro rfl), if_pos rfl]
    exact ⟨hpic ctx, rfl, rfl⟩
  · rw [if_pos i.timerHandler.ne_null, if_neg i.timerHandler.ne_null]
    have hcall : callHandler i.image m ctx i.timerHandler.addr =
        ({ m with
            software := { m.software with rest := pit8254Handler m.software.rest }
            calls := m.calls ++ [(i.timerHandler.addr, ctx)] }, ctx) := by
      unfold callHandler KernelImage.image
      dsimp only
      rw [if_pos rfl]
    rw [hcall]
    exact ⟨hpic ctx, rfl, rfl⟩

/-- The vectors of the pair. -/
theorem vector_range {p : Pic} (hp : Remapped p) (d : Delivery) :
    32 ≤ d.vector p ∧ d.vector p < 48 := by
  cases d with
  | master line =>
    obtain ⟨h32, h40, -⟩ := master_vector hp line
    exact ⟨h32, BitVec.lt_trans h40 (by decide)⟩
  | slave line =>
    obtain ⟨h40, h48, -⟩ := slave_vector hp line
    exact ⟨BitVec.le_trans (by decide) h40, h48⟩
  | spuriousMaster =>
    show 32 ≤ (p.master.vectorBase + 7).setWidth 32 ∧ (p.master.vectorBase + 7).setWidth 32 < 48
    rw [hp.1]
    decide
  | spuriousSlave =>
    show 32 ≤ (p.slave.vectorBase + 7).setWidth 32 ∧ (p.slave.vectorBase + 7).setWidth 32 < 48
    rw [hp.2]
    decide

/-- The timer's vector is that of line 0 of the master. -/
theorem vector_eq_irq0_iff {p : Pic} (hp : Remapped p) (d : Delivery) :
    d.vector p = irq0 ↔ d = .master 0 := by
  have hmaster : ∀ line : Fin 8,
      ((0x20 : Uint8) + BitVec.ofNat 8 line).setWidth 32 = irq0 ↔ line = 0 := by decide
  have hslave : ∀ line : Fin 8,
      ((0x28 : Uint8) + BitVec.ofNat 8 line).setWidth 32 ≠ irq0 := by decide
  unfold Delivery.vector
  rw [hp.1, hp.2]
  cases d with
  | master line =>
    rw [Delivery.master.injEq]
    exact hmaster line
  | slave line => exact iff_of_false (hslave line) nofun
  | spuriousMaster => exact iff_of_false (by decide) nofun
  | spuriousSlave => exact iff_of_false (by decide) nofun

/-- A vector is a byte. -/
theorem vector_byte (p : Pic) (d : Delivery) :
    ((d.vector p).setWidth 8).setWidth 32 = d.vector p := by
  have hbyte : ∀ b : Uint8, ((b.setWidth 32).setWidth 8).setWidth 32 = b.setWidth 32 := by
    intro b
    have hlow : (b.setWidth 32).setWidth 8 = b.setWidth 8 :=
      BitVec.setWidth_setWidth_of_le b (by decide)
    rw [hlow, BitVec.setWidth_eq]
  cases d <;> exact hbyte _

section Ready

variable {i : KernelImage} {k : Kernel}

/-- The slot of a vector in the table of a ready kernel. -/
theorem Ready.slot (h : Ready i k) (d : Delivery) :
    k.machine.software.interruptRoutines (d.vector k.machine.pic)
      = if d = .master 0 then i.timerHandler.addr else 0 := by
  rw [h.handlers]
  by_cases hd : d = .master 0
  · rw [if_pos hd, (vector_eq_irq0_iff h.remapped d).mpr hd]
    exact Function.update_self _ _ _
  · rw [if_neg hd]
    exact Function.update_of_ne (mt (vector_eq_irq0_iff h.remapped d).mp hd) _ _

/-- **One interrupt of a ready kernel**: it is served; the timer's counts, any other does nothing;
    and everything else is as before. -/
theorem Ready.served (h : Ready i k) (a : Arrival) :
    let m := FreeMicroNix.serve i.image k.machine a
    Served a k.machine m ∧ m.pic.quiet = k.machine.pic.quiet ∧ m.halted = k.machine.halted ∧
      m.software = { k.machine.software with
        rest := if a.1 = .master 0 then pit8254Handler k.machine.software.rest
          else k.machine.software.rest } ∧
      m.calls = k.machine.calls ++
        if a.1 = .master 0 then [(i.timerHandler.addr, Arrival.context a k.machine.pic)]
        else [] := by
  obtain ⟨h32, h48⟩ := vector_range h.remapped a.1
  have hslot := h.slot a.1
  have hserve := serve_irq i.image k.machine a h32 h48
  -- the timer's handler leaves the context alone
  have hkeeps : i.image.KeepsSide k.machine a := by
    intro _ hnonnull
    rw [hslot] at hnonnull ⊢
    by_cases hd : a.1 = .master 0
    · rw [if_pos hd]
      unfold KernelImage.image
      dsimp only
      rw [if_pos rfl]
      exact Iff.rfl
    · exact absurd (if_neg hd) hnonnull
  obtain ⟨hserved, -⟩ := serve_spec i.image h.idle h.remapped a hkeeps
  have hcalls : (FreeMicroNix.serve i.image k.machine a).calls = k.machine.calls ++
      if a.1 = .master 0 then [(i.timerHandler.addr, Arrival.context a k.machine.pic)]
      else [] := by
    rw [hserved.handler, hslot]
    by_cases hd : a.1 = .master 0
    · have hreal : ¬ (a.1.Spurious ∨ i.timerHandler.addr = 0) := by
        rw [hd]
        exact not_or.mpr ⟨id, i.timerHandler.ne_null⟩
      rw [if_pos hd, if_neg hreal, if_pos hd]
    · rw [if_neg hd, if_pos (Or.inr rfl), if_neg hd]
  have hhandler : k.machine.software.interruptRoutines (a.1.vector k.machine.pic) = 0 ∨
      k.machine.software.interruptRoutines (a.1.vector k.machine.pic) = i.timerHandler.addr := by
    rw [hslot]
    by_cases hd : a.1 = .master 0
    · exact Or.inr (if_pos hd)
    · exact Or.inl (if_neg hd)
  rw [hserve] at hserved hcalls ⊢
  obtain ⟨pic, hquiet, hearly | hdispatch⟩ := irqHandler_cases i.image
    { k.machine with pic := a.1.raise k.machine.pic } (Arrival.context a k.machine.pic)
  · -- an early return calls no handler, so this is not the timer
    rw [hearly] at hserved hcalls ⊢
    have hother : a.1 ≠ .master 0 := by
      intro hd
      rw [if_pos hd] at hcalls
      have hlength := congrArg List.length hcalls
      rw [List.length_append] at hlength
      exact absurd hlength (Nat.ne_of_lt (Nat.lt_succ_self _))
    refine ⟨hserved, hquiet.trans (quiet_raise _ _), rfl, ?_, hcalls⟩
    rw [if_neg hother]
  · rw [hdispatch] at hserved hcalls ⊢
    obtain ⟨hpic, hhalted, hsoftware⟩ := dispatch_timer i { k.machine with pic := pic }
      (Arrival.context a k.machine.pic) hhandler
    refine ⟨hserved, hpic.trans (hquiet.trans (quiet_raise _ _)), hhalted, hsoftware.trans ?_,
      hcalls⟩
    rw [hslot]
    by_cases hd : a.1 = .master 0
    · rw [if_pos hd, if_neg i.timerHandler.ne_null, if_pos hd]
    · rw [if_neg hd, if_pos rfl, if_neg hd]

/-- **The context of an interrupt** of a ready kernel is left alone: it reaches no handler but the
    timer's. -/
theorem Ready.context_kept (h : Ready i k) (d : Delivery) {ctx : InterruptContext}
    (hint : ctx.intNo = d.vector k.machine.pic) :
    (interruptHandler i.image { k.machine with pic := d.raise k.machine.pic } ctx).2 = ctx := by
  obtain ⟨h32, h48⟩ := vector_range h.remapped d
  rw [← hint] at h32 h48
  rw [interruptHandler_irq i.image _ _ h32 h48]
  obtain ⟨pic, -, hearly | hdispatch⟩ := irqHandler_cases i.image
    { k.machine with pic := d.raise k.machine.pic } ctx
  · rw [hearly]
  · rw [hdispatch]
    show (dispatch i.image _ ctx (k.machine.software.interruptRoutines ctx.intNo)).2 = ctx
    rw [hint, h.slot d]
    unfold dispatch
    by_cases hd : d = .master 0
    · rw [if_pos hd, if_pos i.timerHandler.ne_null]
      unfold callHandler KernelImage.image
      dsimp only
      rw [if_pos rfl]
    · rw [if_neg hd, if_neg (not_not_intro rfl)]

/-- The stub a delivery reaches pushes its vector. -/
theorem Ready.stub (h : Ready i k) (d : Delivery) :
    ∃ s, k.stubOf i ((d.vector k.machine.pic).setWidth 8) = some s ∧
      s.intNo = some (d.vector k.machine.pic) := by
  obtain ⟨h32, h48⟩ := vector_range h.remapped d
  have hbyte := vector_byte k.machine.pic d
  have h32' : 32 ≤ (d.vector k.machine.pic).setWidth 8 := by
    rw [← hbyte] at h32
    apply BitVec.le_def.mpr
    have hle := BitVec.le_def.mp h32
    rwa [BitVec.toNat_setWidth_of_le (by decide)] at hle
  have h48' : (d.vector k.machine.pic).setWidth 8 < 48 := by
    rw [← hbyte] at h48
    apply BitVec.lt_def.mpr
    have hlt := BitVec.lt_def.mp h48
    rwa [BitVec.toNat_setWidth_of_le (by decide)] at hlt
  obtain ⟨s, hs, hintNo⟩ := h.stubs _ h32' h48'
  rw [hbyte] at hintNo
  exact ⟨s, hs, hintNo⟩

end Ready

/-! ## The way back -/

/-- The kernel behind an interrupt that comes back: what it has served, and the accessed bits of the
    descriptors the stub has loaded. -/
def Kernel.resumed (k : Kernel) (m : Machine Pit) : Kernel :=
  { k with machine := m, gdt := (k.gdt.loadSegment k.gs).loadSegment k.fs }

section Return

variable {i : KernelImage} {k : Kernel}

theorem Ready.dataOk_iff (h : Ready i k) (sel : Uint16) :
    k.gdt.dataOk sel 0 = true ↔ sel ∈ loadable := by
  rw [← dataOk_unaccessed]
  exact h.gdt.dataOk_iff sel

/-- The accessed bits the stub sets do not count. -/
theorem Ready.resumed_unaccessed (h : Ready i k) (hloads : k.Loads) (m : Machine Pit) :
    (k.resumed m).gdt.unaccessed = k.gdt.unaccessed := by
  have hgs := h.gdt.loadSegment_unaccessed hloads.2
  have hinstalled : Installed (k.gdt.loadSegment k.gs).unaccessed := by
    rw [hgs]
    exact h.gdt
  exact (hinstalled.loadSegment_unaccessed hloads.1).trans hgs

/-- What is pushed as a selector is popped as it. -/
theorem selector_setWidth (sel : Uint16) : selector (sel.setWidth 32) = sel := by
  rw [selector, BitVec.setWidth_setWidth_of_le _ (by decide), BitVec.setWidth_eq]

/-- **The end of the stub**: it comes back, or one of its pops faults. -/
theorem Ready.leave_eq (h : Ready i k) {m : Machine Pit} (hhalted : m.halted = false)
    {ctx : InterruptContext} (hgs : selector ctx.gs = k.gs) (hfs : selector ctx.fs = k.fs) :
    (k.Loads → ({ k with machine := m } : Kernel).leave ctx = k.resumed m) ∧
      (¬ k.Loads → ¬ (({ k with machine := m } : Kernel).leave ctx).Running) := by
  have hfaulted : ∀ k : Kernel,
      ¬ ({ k with interruptFlag := false, faulted := some 13 } : Kernel).Running :=
    fun _ hrun => absurd hrun.2 nofun
  unfold Kernel.leave
  dsimp only
  rw [hhalted, if_neg Bool.false_ne_true, hgs, hfs]
  by_cases hgsOk : k.gs ∈ loadable
  · have hload := h.gdt.loadSegment_unaccessed hgsOk
    have hsecond : (k.gdt.loadSegment k.gs).dataOk k.fs 0 = true ↔ k.fs ∈ loadable := by
      rw [← dataOk_unaccessed, hload]
      exact h.gdt.dataOk_iff k.fs
    rw [if_pos ((h.dataOk_iff k.gs).mpr hgsOk)]
    by_cases hfsOk : k.fs ∈ loadable
    · rw [if_pos (hsecond.mpr hfsOk)]
      exact ⟨fun _ => rfl, fun hnot => absurd ⟨hfsOk, hgsOk⟩ hnot⟩
    · rw [if_neg (mt hsecond.mp hfsOk)]
      exact ⟨fun hloads => absurd hloads.1 hfsOk, fun _ => hfaulted _⟩
  · rw [if_neg (mt (h.dataOk_iff k.gs).mp hgsOk)]
    exact ⟨fun hloads => absurd hloads.2 hgsOk, fun _ => hfaulted _⟩

/-- **An interrupt of a ready kernel**, from the controllers to the return. -/
theorem Ready.take_leave (h : Ready i k) (a : Arrival) : ∃ ctx,
    selector ctx.gs = k.gs ∧ selector ctx.fs = k.fs ∧
      k.take i a = if k.Accepts a.1 then
        some (({ k with machine := FreeMicroNix.serve i.image k.machine (k.saved a) } : Kernel).leave
          ctx)
      else none := by
  obtain ⟨s, hs, hintNo⟩ := h.stub a.1
  refine ⟨Arrival.context (k.saved a) k.machine.pic, selector_setWidth k.gs,
    selector_setWidth k.fs, ?_⟩
  unfold Kernel.take
  rw [hs]
  by_cases haccepts : k.Accepts a.1
  · rw [if_pos haccepts, if_pos haccepts]
    dsimp only
    rw [hintNo]
    have hkept := h.context_kept a.1 (show (Arrival.context (k.saved a) k.machine.pic).intNo
      = a.1.vector k.machine.pic from rfl)
    exact congrArg (fun ctx => some (({ k with
      machine := FreeMicroNix.serve i.image k.machine (k.saved a) } : Kernel).leave ctx)) hkept
  · rw [if_neg haccepts, if_neg haccepts]

/-- It comes back, if the stub can pop what `fs` and `gs` hold. -/
theorem Ready.take_eq (h : Ready i k) (hloads : k.Loads) (a : Arrival) : k.take i a =
    if k.Accepts a.1 then
      some (k.resumed (FreeMicroNix.serve i.image k.machine (k.saved a)))
    else none := by
  obtain ⟨-, -, hhalted, -⟩ := h.served (k.saved a)
  obtain ⟨ctx, hgs, hfs, htake⟩ := h.take_leave a
  rw [htake, (h.leave_eq (hhalted.trans h.running.2) hgs hfs).1 hloads]

theorem Ready.take {a : Arrival} {k' : Kernel} (h : Ready i k) (hloads : k.Loads)
    (htake : k.take i a = some k') : k.Accepts a.1 ∧
      k' = k.resumed (FreeMicroNix.serve i.image k.machine (k.saved a)) := by
  rw [h.take_eq hloads] at htake
  by_cases haccepts : k.Accepts a.1
  · rw [if_pos haccepts] at htake
    exact ⟨haccepts, (Option.some.inj htake).symm⟩
  · rw [if_neg haccepts] at htake
    exact absurd htake nofun

/-- It does not, if it cannot. -/
theorem Ready.take_stops {a : Arrival} {k' : Kernel} (h : Ready i k) (hloads : ¬ k.Loads)
    (htake : k.take i a = some k') : ¬ k'.Running := by
  obtain ⟨-, -, hhalted, -⟩ := h.served (k.saved a)
  obtain ⟨ctx, hgs, hfs, heq⟩ := h.take_leave a
  rw [heq] at htake
  by_cases haccepts : k.Accepts a.1
  · rw [if_pos haccepts] at htake
    rw [← Option.some.inj htake]
    exact (h.leave_eq (hhalted.trans h.running.2) hgs hfs).2 hloads
  · rw [if_neg haccepts] at htake
    exact absurd htake nofun

end Return

/-! ## Every run -/

/-- A chip without the status register selected. -/
def Chip.unread (c : Chip) : Chip := { c with readIsr := false }

/-- The controllers without the status registers selected and the port writes. -/
def Pic.unread (p : Pic) : Pic := ⟨p.master.unread, p.slave.unread, []⟩

/-- **What interrupts leave alone**: the kernel without the port writes, the status registers
    selected, the tick counters, the handler calls and the accessed bits of the user's segments. -/
def Kernel.still (k : Kernel) : Kernel :=
  { k with
    gdt := k.gdt.unaccessed
    machine := { k.machine with
      pic := k.machine.pic.unread
      software := { k.machine.software with rest := pitBoot }
      calls := [] } }

theorem Chip.ocw2_unread (c : Chip) (value : Uint8) :
    (c.unread.ocw2 value).unread = (c.ocw2 value).unread := by
  have hhighest : c.unread.highestInService = c.highestInService := rfl
  unfold Chip.ocw2
  rw [hhighest]
  dsimp only
  split <;> first | rfl | (cases c.highestInService <;> rfl)

theorem Chip.command_unread (c : Chip) (value : Uint8) :
    (c.unread.command value).unread = (c.command value).unread := by
  unfold Chip.command
  by_cases hicw1 : value.getLsbD 4 = true
  · rw [if_pos hicw1, if_pos hicw1]
    rfl
  · rw [if_neg hicw1, if_neg hicw1]
    by_cases hocw3 : value.getLsbD 3 = true
    · rw [if_pos hocw3, if_pos hocw3]
      split <;> rfl
    · rw [if_neg hocw3, if_neg hocw3]
      exact c.ocw2_unread value

theorem Chip.data_unread (c : Chip) (value : Uint8) :
    (c.unread.data value).unread = (c.data value).unread := by
  have hawaiting : c.unread.awaiting = c.awaiting := rfl
  unfold Chip.data
  rw [hawaiting]
  split <;> rfl

/-- No port write looks at which status register is selected. -/
theorem outb_unread {p q : Pic} (h : p.unread = q.unread) (port : Uint16) (value : Uint8) :
    (outb p port value).unread = (outb q port value).unread := by
  have hboth : ∀ p : Pic, (outb p.unread port value).unread = (outb p port value).unread := by
    intro p
    unfold outb
    split_ifs
    · exact congrArg (fun c => Pic.mk c p.slave.unread []) (p.master.command_unread value)
    · exact congrArg (fun c => Pic.mk c p.slave.unread []) (p.master.data_unread value)
    · exact congrArg (fun c => Pic.mk p.master.unread c []) (p.slave.command_unread value)
    · exact congrArg (fun c => Pic.mk p.master.unread c []) (p.slave.data_unread value)
    · rfl
  rw [← hboth p, h, hboth q]

theorem initialize8259Pic_unread (p : Pic) (t : Terminal) (masterBase slaveBase : Uint32) :
    (initialize8259Pic p.unread t masterBase slaveBase).1.unread
      = (initialize8259Pic p t masterBase slaveBase).1.unread := by
  have hmaster : inb p.unread picMasterData = inb p picMasterData := rfl
  have hslave : inb p.unread picSlaveData = inb p picSlaveData := rfl
  unfold initialize8259Pic ioWait
  dsimp only
  rw [hmaster, hslave]
  repeat refine outb_unread ?_ _ _
  rfl

/-- Two kernels that differ in their tables at most, and there by accessed bits. -/
theorem still_of_gdt {k k' : Kernel}
    (hrest : ({ k.still with gdt := k.gdt } : Kernel) = { k'.still with gdt := k.gdt })
    (hgdt : k.gdt.unaccessed = k'.gdt.unaccessed) : k.still = k'.still := by
  have hsame := congrArg (fun v : Kernel => { v with gdt := k.gdt.unaccessed }) hrest
  refine hsame.trans ?_
  rw [hgdt]
  rfl

theorem onTerminal_still (k : Kernel) (f : Terminal → Terminal) :
    (k.onTerminal f).still = (k.still.onTerminal f).still :=
  still_of_gdt rfl (unaccessed_unaccessed k.gdt).symm

theorem run_still (i : KernelImage) (c : Command) (k : Kernel) :
    (c.run i k).still = (c.run i k.still).still := by
  have hgdt := (unaccessed_unaccessed k.gdt).symm
  cases c with
  | initializeGdt =>
    obtain ⟨gdt, t, hrun, -, hexec⟩ := run_initializeGdt i k
    obtain ⟨gdt', t', hrun', -, hexec'⟩ := run_initializeGdt i k.still
    have hsame := (initializeGdt_unaccessed k.gdt k.machine.software.terminal).symm.trans hrun'
    obtain ⟨rfl, rfl⟩ := Prod.mk.inj (Option.some.inj (hrun.symm.trans hsame))
    rw [hexec, hexec']
    rfl
  | interruptHandlerInstaller =>
    have hpic := initialize8259Pic_unread k.machine.pic k.machine.software.terminal 0x20 0x28
    obtain ⟨f, hrun⟩ := run_interruptHandlerInstaller i
    rw [hrun, hrun]
    refine still_of_gdt ?_ hgdt
    exact congrArg (fun pic => { k with machine := { k.still.machine with
      pic := pic
      software := { k.still.machine.software with
        idt := (f k.machine.software.idt k.machine.software.terminal).1
        terminal := (f k.machine.software.idt k.machine.software.terminal).2 } } }) hpic.symm
  | pit8254Phase hz =>
    have hboard : k.still.board = k.board := rfl
    rw [Command.run, Command.run, hboard]
    split <;> exact still_of_gdt rfl hgdt
  | initializeTerminal => exact onTerminal_still k _
  | _ => exact still_of_gdt rfl hgdt

/-- **No command looks at what interrupts change.** -/
theorem exec_still (i : KernelImage) (c : Command) (k : Kernel) :
    (c.exec i k).still = (c.exec i k.still).still := by
  have hgdt := (unaccessed_unaccessed k.gdt).symm
  unfold Command.exec
  by_cases hrun : k.Running
  · have hrun' : k.still.Running := hrun
    have hdirectory : k.still.directory = k.directory := rfl
    rw [if_pos hrun, if_pos hrun', hdirectory]
    split
    · exact run_still i c k
    · cases c <;> exact still_of_gdt rfl hgdt
  · have hrun' : ¬ k.still.Running := hrun
    rw [if_neg hrun, if_neg hrun']
    exact still_of_gdt rfl hgdt

/-- The commands one after the other, as far as no interrupt changes what they leave. -/
theorem foldl_still (i : KernelImage) (k : Kernel) (cs : List Command) :
    cs.foldl (fun v c => (c.exec i v).still) k.still = (execAll i k cs).still := by
  induction cs generalizing k with
  | nil => rfl
  | cons c cs ih =>
    show cs.foldl _ (c.exec i k.still).still = (execAll i (c.exec i k) cs).still
    rw [← exec_still, ih]

/-- The controllers of an idle pair, but for the part that no interrupt leaves alone. -/
theorem unread_of_quiet {p q : Pic} (hquiet : q.quiet = p.quiet) (hp : Idle p) (hq : Idle q) :
    q.unread = p.unread := by
  have hchips : ∀ p : Pic, Idle p → p.unread = p.quiet := by
    rintro ⟨⟨_, _, _, _, _, _, _⟩, ⟨_, _, _, _, _, _, _⟩, _⟩ ⟨rfl, rfl⟩
    rfl
  rw [hchips p hp, hchips q hq, hquiet]

section Runs

variable {i : KernelImage} {k : Kernel}

/-- The accessed bits do not decide where an interrupt goes. -/
theorem stubOf_still (v : Uint8) : k.still.stubOf i v = k.stubOf i v := by
  have hentrance : k.still.entrance v = k.entrance v := by
    unfold Kernel.entrance
    show (k.machine.software.idt.gate v).bind _ = (k.machine.software.idt.gate v).bind _
    refine congrArg _ (funext fun g => ?_)
    show (k.gdt.unaccessed.descriptor g.selector).bind _ = (k.gdt.descriptor g.selector).bind _
    rw [descriptor_unaccessed]
    cases k.gdt.descriptor g.selector with
    | none => rfl
    | some d =>
      rw [Option.map_some, Option.bind_some, Option.bind_some]
      by_cases huser : userSlot (slotOf g.selector) = true
      · rw [if_pos huser]
        simp only [Descriptor.unaccessed_present, Descriptor.unaccessed_isCode,
          Descriptor.unaccessed_dpl]
      · rw [if_neg huser]
  unfold Kernel.stubOf
  rw [hentrance]

/-- A ready kernel is so in all that interrupts leave alone. -/
theorem ready_iff_still : Ready i k ↔ Ready i k.still := by
  have hgdt := unaccessed_unaccessed k.gdt
  constructor
  · rintro ⟨hrunning, hidle, hremapped, hstubs, hhandlers, hinstalled, htimer⟩
    refine ⟨hrunning, hidle, hremapped, fun v => ?_, hhandlers, ?_, htimer⟩
    · rw [stubOf_still]
      exact hstubs v
    · rw [← hgdt] at hinstalled
      exact hinstalled
  · rintro ⟨hrunning, hidle, hremapped, hstubs, hhandlers, hinstalled, htimer⟩
    refine ⟨hrunning, hidle, hremapped, fun v => ?_, hhandlers, ?_, htimer⟩
    · rw [← stubOf_still]
      exact hstubs v
    · rw [← hgdt]
      exact hinstalled

/-- An interrupt of a ready kernel changes nothing else. -/
theorem Ready.still_take {a : Arrival} {k' : Kernel} (h : Ready i k) (hloads : k.Loads)
    (htake : k.take i a = some k') : k'.still = k.still := by
  obtain ⟨-, rfl⟩ := h.take hloads htake
  obtain ⟨hserved, hquiet, hhalted, hsoftware, -⟩ := h.served (k.saved a)
  refine still_of_gdt ?_ (h.resumed_unaccessed hloads _)
  unfold Kernel.still Kernel.resumed
  dsimp only
  rw [hsoftware, hhalted, unread_of_quiet hquiet h.idle hserved.idle]

end Runs

end FreeMicroNix
