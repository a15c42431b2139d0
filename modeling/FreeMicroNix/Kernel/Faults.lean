/-
  A processor exception in the middle of `kmain`.

  Exceptions are not masked by the flag: one may strike at any point of a run.  What comes of it is
  decided by how far `kmain` is with its tables.

  1. `Faults` — what the processor does with an exception: it enters the stub if the gate leads
     there, whose handler prints; if it cannot pass the gate it raises another exception for that, in
     the end the double fault, and without a way in for that one it shuts down.
  2. `kmain_behind_lidt` — where `kmain` is once it has written to the interrupt table, and the two
     tables there (`idt_lidt`, `tables_installer`).
  3. `kmain_faults` — behind the installer every exception is reported, once, and the kernel stands
     still with all but its screen as it was; between `lidt` and the installer there are 256 zeroed
     gates, and every exception shuts the processor down.
-/
import FreeMicroNix.Kernel.Boot
import FreeMicroNix.Isa.ExceptionDump

namespace FreeMicroNix

open Interleaving

/-! ## Exceptions -/

/-- What the failed delivery of an exception may raise: the double fault, or the faults of a gate,
    its segment, the stack and the page. -/
def faultsOfDelivery : List Uint8 := [8, 10, 11, 12, 13, 14]

/-- **An exception**: what the processor makes of the vector `v`, with `ctx` for what the stub
    saves.  An interrupt gate clears the flag; and nothing is said of a handler that finds the screen
    it prints to not mapped. -/
inductive Faults (i : KernelImage) (k : Kernel) : Uint8 → InterruptContext → Kernel → Prop
  | entered {v : Uint8} {ctx : InterruptContext} {s : Stub} (hstub : k.stubOf i v = some s)
      (hscreen : (translate k.directory vgaMemory).isSome = true) :
      Faults i k v ctx { k with
        interruptFlag := false
        machine := (interruptHandler i.image k.machine { ctx with intNo := s.intNo.getD 0 }).1 }
  | again {v w : Uint8} {ctx ctx' : InterruptContext} {k' : Kernel} (hclosed : k.entrance v = none)
      (hv : v ≠ 8) (hw : w ∈ faultsOfDelivery) (hfault : Faults i k w ctx' k') : Faults i k v ctx k'
  | tripled {ctx : InterruptContext} (hclosed : k.entrance 8 = none) :
      Faults i k 8 ctx { k with shutdown := true }

section Faults

variable {i : KernelImage} {k k' : Kernel} {v : Uint8} {ctx : InterruptContext}

/-- Through a gate that leads to a stub there is one way. -/
theorem Faults.entered_iff {s : Stub} (hstub : k.stubOf i v = some s)
    (hscreen : (translate k.directory vgaMemory).isSome = true) : Faults i k v ctx k' ↔
    k' = { k with
      interruptFlag := false
      machine := (interruptHandler i.image k.machine { ctx with intNo := s.intNo.getD 0 }).1 } := by
  have hopen : k.entrance v ≠ none := by
    intro hclosed
    unfold Kernel.stubOf at hstub
    rw [hclosed] at hstub
    cases hstub
  constructor
  · intro h
    cases h with
    | entered hstub' =>
      obtain rfl := Option.some.inj (hstub.symm.trans hstub')
      rfl
    | again hclosed => exact absurd hclosed hopen
    | tripled hclosed => exact absurd hclosed hopen
  · rintro rfl
    exact .entered hstub hscreen

/-- Where no gate can be passed, the processor shuts down. -/
theorem Faults.shutdown_iff (hclosed : ∀ v, k.entrance v = none) :
    Faults i k v ctx k' ↔ k' = { k with shutdown := true } := by
  constructor
  · intro h
    induction h with
    | @entered v _ s hstub =>
      unfold Kernel.stubOf at hstub
      rw [hclosed v] at hstub
      cases hstub
    | again _ _ _ _ ih => exact ih
    | tripled _ => rfl
  · rintro rfl
    have hlast : Faults i k 8 ctx { k with shutdown := true } := .tripled (hclosed 8)
    by_cases hv : v = 8
    · rw [hv]
      exact hlast
    · exact .again (hclosed v) hv List.mem_cons_self hlast

end Faults

/-- **A fault that is reported**: the registers and the panic are on the screen, the processor
    stands still with interrupts off, and everything else is as it was. -/
structure Panicked (i : KernelImage) (k : Kernel) (ctx : InterruptContext) (k' : Kernel) :
    Prop where
  screen : EqualButPorts k'.machine.software.terminal
    ((dumpText i.image.stray ctx ++ str "\nKernel Panic!\n").foldl terminalPutch
      (terminalSetColor k.machine.software.terminal .lightRed))
  standing : k'.machine.halted = true ∧ k'.Running
  deaf : ∀ a, k'.take i a = none
  kept : k' = { k with
    interruptFlag := false
    machine := { k.machine with
      halted := true
      software := { k.machine.software with terminal := k'.machine.software.terminal } } }

/-- `Exception_Handler` never returns, and writes to the screen alone. -/
theorem exceptionHandler_eq {σ : Type} (image : Image σ) (m : Machine σ) {ctx : InterruptContext}
    (hint : ctx.intNo < 32) : exceptionHandler image m ctx = { m with
      halted := true
      software := { m.software with
        terminal := (exceptionHandler image m ctx).software.terminal } } := by
  unfold exceptionHandler
  rw [if_pos hint]
  rfl

/-- A vector is a number below 32 also as a word. -/
theorem setWidth_exception {v : Uint8} (hv : v < 32) : v.setWidth 32 < (32 : Uint32) := by
  have hbound : v.toNat < 32 := BitVec.lt_def.mp hv
  apply BitVec.lt_def.mpr
  rw [BitVec.toNat_setWidth_of_le (by decide)]
  exact hbound

/-- Every exception has a row in the installer. -/
theorem last_of_exception : ∀ n < 32, (InstallerRow.last (BitVec.ofNat 8 n)).isSome := by decide

/-- **One exception**, with the tables installed. -/
theorem panicked_of_installed (i : KernelImage) {k : Kernel} {m : Machine Pit}
    (hidt : k.machine.software.idt = (installInterrupts m i.stub).software.idt)
    (hgdt : Installed k.gdt.unaccessed) (hrun : k.Running)
    (hscreen : (translate k.directory vgaMemory).isSome = true) {v : Uint8} (hv : v < 32)
    (ctx : InterruptContext) :
    ∃ k', (∀ k'', Faults i k v ctx k'' ↔ k'' = k') ∧
      Panicked i k { ctx with intNo := v.setWidth 32 } k' := by
  have hnot : v ≠ 121 := by
    rintro rfl
    exact absurd hv (by decide)
  have hrow := last_of_exception v.toNat (BitVec.lt_def.mp hv)
  rw [BitVec.ofNat_toNat, BitVec.setWidth_eq] at hrow
  rcases stubOf_row i hidt hgdt hnot hrow with ⟨s, hstub, hintNo⟩
  refine ⟨_, fun k'' => Faults.entered_iff hstub hscreen, ?_⟩
  rw [hintNo]
  show Panicked i k { ctx with intNo := v.setWidth 32 } { k with
    interruptFlag := false
    machine := (interruptHandler i.image k.machine { ctx with intNo := v.setWidth 32 }).1 }
  have hint : ({ ctx with intNo := v.setWidth 32 } : InterruptContext).intNo < 32 :=
    setWidth_exception hv
  have hhandler : (interruptHandler i.image k.machine { ctx with intNo := v.setWidth 32 }).1
      = exceptionHandler i.image k.machine { ctx with intNo := v.setWidth 32 } := by
    unfold interruptHandler
    rw [if_pos hint]
  rw [hhandler]
  have heq := exceptionHandler_eq i.image k.machine hint
  refine ⟨exceptionHandler_prints i.image k.machine hint, ⟨?_, hrun⟩, fun a => ?_, ?_⟩
  · rw [heq]
  · exact if_neg fun haccepts => Bool.false_ne_true haccepts.1
  · exact congrArg (fun m => ({ k with interruptFlag := false, machine := m } : Kernel)) heq

/-! ## The tables behind `lidt` -/

/-- After `Install_IDT` no gate can be passed. -/
theorem entrance_zeroed {k : Kernel} {d : Idt} {t : Terminal}
    (hidt : k.machine.software.idt = (installIdt d t).1) (v : Uint8) : k.entrance v = none := by
  have hgate : k.machine.software.idt.gate v = some (decodeGate IdtEntry.zero.bytes) := by
    rw [hidt]
    refine if_pos ⟨rfl, ?_⟩
    show 8 * v.toNat + 7 ≤ (BitVec.ofNat 16 (8 * numInterrupts - 1)).toNat
    have hlimit : (BitVec.ofNat 16 (8 * numInterrupts - 1)).toNat = 2047 := by decide
    have hv : v.toNat < 256 := v.isLt
    omega
  unfold Kernel.entrance
  rw [hgate]
  show (k.gdt.descriptor _ >>= _) = none
  cases k.gdt.descriptor (decodeGate IdtEntry.zero.bytes).selector with
  | none => rfl
  | some g => simp [zero_not_present]

section Program

variable (i : KernelImage) (mbi : MultibootInfo)

/-- `kmain` before the tables. -/
def beforeTables : List (Stmt Command Uint64) :=
  Kernel.banner ++ Kernel.initializePit8254 i

/-- `kmain` behind the tables. -/
def behindTables : List (Stmt Command Uint64) :=
  Kernel.report mbi ++ .act .enableInterrupts :: Kernel.demonstration

theorem kmain_eq_tables {magic : Uint32} (hmagic : magic = multibootBootloaderMagic) :
    Kernel.kmain i magic mbi = beforeTables i ++ .act .initializeGdt :: .act .installIdt ::
      .act .interruptHandlerInstaller :: behindTables mbi :=
  (if_neg (not_not_intro hmagic)).trans rfl

theorem idt_beforeTables {c : Command} (hc : c ∈ commands (beforeTables i)) :
    c.writesIdt = false := by
  have hall : (commands (beforeTables i)).all (fun c => !c.writesIdt) = true := rfl
  simpa using List.all_eq_true.mp hall c hc

theorem idt_rejected {c : Command} (hc : c ∈ commands Kernel.rejected) : c.writesIdt = false := by
  have hall : (commands Kernel.rejected).all (fun c => !c.writesIdt) = true := rfl
  simpa using List.all_eq_true.mp hall c hc

theorem inert_behindTables : (commands (behindTables mbi)).all Command.inert = true := rfl

/-- **Where `kmain` is, once it has written to the interrupt table**: behind `lidt`, or behind the
    installer, from where on the tables stay as they are. -/
theorem kmain_behind_lidt {magic : Uint32} {pre rest : List (Stmt Command Uint64)}
    (hsplit : Kernel.kmain i magic mbi = pre ++ rest) {c : Command} (hc : .act c ∈ pre)
    (hwrites : c.writesIdt = true) :
    pre = beforeTables i ++ [.act .initializeGdt, .act .installIdt] ∨
      ∃ post, pre = beforeTables i ++ .act .initializeGdt :: .act .installIdt ::
          .act .interruptHandlerInstaller :: post ∧
        ∀ c ∈ commands post, c.inert = true := by
  have hbefore : .act c ∉ beforeTables i := by
    intro h
    exact Bool.false_ne_true ((idt_beforeTables i (mem_commands.mpr h)).symm.trans hwrites)
  by_cases hmagic : magic = multibootBootloaderMagic
  · rw [kmain_eq_tables i mbi hmagic] at hsplit
    rcases List.append_eq_append_iff.mp hsplit with ⟨post, rfl, htables⟩ | ⟨post, hmore, -⟩
    · rcases post with - | ⟨first, - | ⟨second, post⟩⟩
      · rw [List.append_nil] at hc
        exact absurd hc hbefore
      · obtain ⟨rfl, -⟩ := List.cons.inj htables
        rcases List.mem_append.mp hc with hc | hc
        · exact absurd hc hbefore
        · obtain rfl : c = .initializeGdt := Stmt.act.inj (List.mem_singleton.mp hc)
          exact absurd hwrites Bool.false_ne_true
      · obtain ⟨hfirst, hrest⟩ := List.cons.inj htables
        obtain ⟨hsecond, hinstaller⟩ := List.cons.inj hrest
        subst hfirst hsecond
        cases post with
        | nil => exact Or.inl rfl
        | cons third post =>
          obtain ⟨rfl, hbehind⟩ := List.cons.inj hinstaller
          refine Or.inr ⟨post, rfl, fun c hc => ?_⟩
          exact List.all_eq_true.mp (inert_behindTables mbi) c
            ((commands_split hbehind).subset hc)
    · rw [hmore] at hbefore
      exact absurd (List.mem_append_left _ hc) hbefore
  · have hmem : .act c ∈ Kernel.kmain i magic mbi := by
      rw [hsplit]
      exact List.mem_append_left _ hc
    rw [Kernel.kmain, if_pos hmagic] at hmem
    exact absurd ((idt_rejected (mem_commands.mpr hmem)).symm.trans hwrites) Bool.false_ne_true

end Program

section Tables

variable (i : KernelImage) {k : Kernel}

/-- The tables just behind `lidt`. -/
theorem idt_lidt (hrun : (execAll i k [.initializeGdt, .installIdt]).Running) :
    ∃ d t, (execAll i k [.initializeGdt, .installIdt]).machine.software.idt
      = (installIdt d t).1 := by
  obtain ⟨-, hidt⟩ := exec_eq_run i (k := Command.exec i .initializeGdt k) (c := .installIdt) hrun
  refine ⟨(Command.exec i .initializeGdt k).machine.software.idt,
    (Command.exec i .initializeGdt k).machine.software.terminal, ?_⟩
  show (Command.exec i .installIdt (Command.exec i .initializeGdt k)).machine.software.idt = _
  rw [hidt]
  rfl

/-- The tables behind the installer. -/
theorem tables_installer {cs : List Command} (hcs : ∀ c ∈ cs, c.inert = true)
    (hrun : (execAll i k
      (.initializeGdt :: .installIdt :: .interruptHandlerInstaller :: cs)).Running) :
    Installed (execAll i k
        (.initializeGdt :: .installIdt :: .interruptHandlerInstaller :: cs)).gdt ∧
      ∃ m : Machine Pit, (execAll i k
          (.initializeGdt :: .installIdt :: .interruptHandlerInstaller :: cs)).machine.software.idt
        = (installInterrupts m i.stub).software.idt := by
  have hall : execAll i k (.initializeGdt :: .installIdt :: .interruptHandlerInstaller :: cs)
      = execAll i (Command.exec i .interruptHandlerInstaller
        (Command.exec i .installIdt (Command.exec i .initializeGdt k))) cs := rfl
  rw [hall] at hrun ⊢
  have hrun₃ := running_of_execAll i _ hrun
  obtain ⟨hrun₂, -⟩ := exec_eq_run i hrun₃
  obtain ⟨gdt, t, hinstalled, hgdt⟩ := exec_initializeGdt i (exec_eq_run i hrun₂).1
  have htables := exec_installInterrupts i hrun₃
  rw [htables, hgdt]
  have hkept := execAll_kept i { { k with gdt := gdt }.onTerminal fun _ => t with
    machine := installInterrupts ({ k with gdt := gdt }.onTerminal fun _ => t).machine i.stub } hcs
  refine ⟨?_, _, hkept.idt⟩
  rw [hkept.gdt]
  exact hinstalled

end Tables

/-! ## Every run -/

/-- **What an exception comes to**, behind the installer and between `lidt` and the installer. -/
structure FaultsHandled (i : KernelImage) (magic : Uint32) (mbi : MultibootInfo)
    (t : Thread Kernel Command Uint64 Uint64) (v : Uint8) (ctx : InterruptContext) : Prop where
  reported : ∀ pre, Kernel.kmain i magic mbi = pre ++ t.rest →
    .act .interruptHandlerInstaller ∈ pre →
    ∃ k', (∀ k'', Faults i t.state v ctx k'' ↔ k'' = k') ∧
      Panicked i t.state { ctx with intNo := v.setWidth 32 } k'
  shutdown : ∀ pre, Kernel.kmain i magic mbi = pre ++ t.rest →
    .act .installIdt ∈ pre → .act .interruptHandlerInstaller ∉ pre →
    ∀ k', Faults i t.state v ctx k' ↔ k' = { t.state with shutdown := true }

end FreeMicroNix
