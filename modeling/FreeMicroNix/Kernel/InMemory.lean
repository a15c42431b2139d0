/-
  The kernel's interrupts through the bytes of its tables.

  `kmain` fills the descriptor tables by three of its statements.  Run beside it, the same statements
  write the bytes of `Gdt.TablesInMemory`, and so does each interrupt: the segment registers its stub
  loads mark their descriptors as accessed.  So at every moment of every run the bytes are those of
  the tables the kernel model keeps (`kmain_in_memory`), and an interrupt that is taken finds its
  stub by what the processor fetches from memory.
-/
import FreeMicroNix.Gdt.TablesInMemory
import FreeMicroNix.Kernel.Boot

namespace FreeMicroNix

open Interleaving InMemory

/-! ## The statements that fill the tables -/

/-- The calls of `Interrupt_Handler_Installer`. -/
def installerCalls (i : KernelImage) (rows : List InstallerRow) : List SetupCall :=
  rows.map fun row => .descriptor (.createIdtEntry ⟨row.num, i.stub row.stub, row.sel, row.flags⟩)

/-- The calls a command makes of the functions that fill the tables. -/
def Command.tableCalls (i : KernelImage) : Command → List SetupCall
  | initializeGdt => [.initializeGdt]
  | installIdt => [.installIdt]
  | interruptHandlerInstaller => installerCalls i installerRows
  | _ => []

def Kernel.tables (k : Kernel) : Tables := ⟨k.gdt, k.machine.software.idt⟩

/-- The gate of a vector as `Kernel.entrance` has it, out of the bytes. -/
def InMemory.TableMemory.entrance (m : TableMemory) (v : Uint8) : Option Gate := do
  let g ← m.fetchGate v
  let d ← m.fetchDescriptor g.selector
  if g.present ∧ g.system = false ∧ g.type = 0xE ∧ slotOf g.selector ≠ 0 ∧ d.present ∧ d.isCode ∧
      d.dpl = 0 then some g else none

/-- The stub an interrupt reaches through them. -/
def InMemory.TableMemory.stubOf (i : KernelImage) (m : TableMemory) (v : Uint8) : Option Stub := do
  let g ← m.entrance v
  i.stubAt g.offset

section Calls

variable (i : KernelImage)

theorem foldlM_one {s s' : Tables × Terminal} {call : SetupCall} (hrun : call.run s = some s') :
    [call].foldlM SetupCall.run s = some s' := by
  rw [List.foldlM_cons, hrun]
  rfl

theorem run_gates (rows : List InstallerRow) (s : Tables) (t : Terminal) :
    (installerCalls i rows).foldlM SetupCall.run (s, t)
      = some ({ s with idt := rows.foldl (InstallerRow.write i.stub) s.idt }, t) := by
  induction rows generalizing s with
  | nil => rfl
  | cons row rows ih => exact ih { s with idt := row.write i.stub s.idt }

theorem installer_tables (k : Kernel) : (Command.run i k .interruptHandlerInstaller).tables =
    { k.tables with idt := installerRows.foldl (InstallerRow.write i.stub) k.tables.idt } := rfl

/-- The other commands write to neither table. -/
theorem tables_of_framed (k : Kernel) {c : Command} (hgdt : c.writesGdt = false)
    (hidt : c.writesIdt = false) : (c.exec i k).tables = k.tables := by
  unfold Kernel.tables
  rw [(exec_framed i k c).gdt hgdt, (exec_framed i k c).idt hidt]

/-- **One command** is its calls on the tables. -/
theorem exec_tables {k : Kernel} {c : Command} (hrun : (c.exec i k).Running) (t : Terminal) :
    ∃ t', (c.tableCalls i).foldlM SetupCall.run (k.tables, t)
      = some ((c.exec i k).tables, t') := by
  have hexec := (exec_eq_run i hrun).2
  cases c with
  | initializeGdt =>
    obtain ⟨gdt, t₁, hrun₁, -, hkernel⟩ := run_initializeGdt i k
    rw [initializeGdt_table] at hrun₁
    rcases Option.map_eq_some_iff.mp hrun₁ with ⟨g, hltr, hpair⟩
    obtain rfl : g = gdt := (Prod.mk.inj hpair).1
    have hloads := initializeGdt_table k.gdt t
    rw [hltr] at hloads
    have hcall : SetupCall.run (k.tables, t) .initializeGdt
        = some ({ k.tables with gdt := g }, gdtLines t) := PartialMemory.bind_of_eq_some hloads _
    have htables : (Command.run i k .initializeGdt).tables = { k.tables with gdt := g } := by
      rw [hkernel]
      rfl
    rw [hexec, htables]
    exact ⟨_, foldlM_one hcall⟩
  | installIdt =>
    rw [hexec]
    exact ⟨_, rfl⟩
  | interruptHandlerInstaller =>
    rw [hexec, installer_tables]
    exact ⟨t, run_gates i installerRows k.tables t⟩
  | _ => exact ⟨t, congrArg (fun s => some (s, t)) (tables_of_framed i k rfl rfl).symm⟩

end Calls

/-! ## An interrupt, through the bytes -/

section Entrance

variable {i : KernelImage} {p : Placement} {m : TableMemory} {k : Kernel}

/-- **Where the tables lead, the bytes lead.** -/
theorem InMemory.Represents.stubOf (hrep : Represents p m k.tables)
    (hgdt : Installed k.gdt.unaccessed) {v : Uint8} {s : Stub} (hstub : k.stubOf i v = some s) :
    m.stubOf i v = some s := by
  obtain ⟨g, hentrance, hoffset⟩ := Option.bind_eq_some_iff.mp hstub
  obtain ⟨g', hgate, hrest⟩ := Option.bind_eq_some_iff.mp hentrance
  obtain ⟨d, hdescriptor, hpasses⟩ := Option.bind_eq_some_iff.mp hrest
  have hidtr : k.machine.software.idt.idtr.base = k.machine.software.idt.address := by
    by_contra hother
    have hnone : k.machine.software.idt.gate v = none := if_neg fun hin => hother hin.1
    rw [hnone] at hgate
    cases hgate
  have hgdtr : k.gdt.gdtr.base = k.gdt.address := congrArg GdtPtr.base hgdt.gdtr
  have hti : g'.selector.getLsbD 2 = false := by
    by_contra hother
    have hnone : k.gdt.descriptor g'.selector = none := if_neg fun hin => hother hin.2.1
    rw [hnone] at hdescriptor
    cases hdescriptor
  have hslot : (slotOf g'.selector).toNat < gdtSize := by
    have hsome := descriptor_unaccessed k.gdt g'.selector
    rw [hgdt.descriptor hti, hdescriptor] at hsome
    exact (List.getElem?_eq_some_iff.mp hsome).1
  have hfetchGate : m.fetchGate v = some g' := (hrep.fetchGate hidtr v).trans hgate
  have hfetchDescriptor : m.fetchDescriptor g'.selector = some d :=
    (hrep.fetchDescriptor hslot hgdtr).trans hdescriptor
  refine Option.bind_eq_some_iff.mpr ⟨g, ?_, hoffset⟩
  exact Option.bind_eq_some_iff.mpr
    ⟨g', hfetchGate, Option.bind_eq_some_iff.mpr ⟨d, hfetchDescriptor, hpasses⟩⟩

end Entrance

/-! ## Every run -/

/-- An access to the tables in memory: a call of the kernel's, or a segment register that a stub
    loads. -/
inductive TableAccess where
  | call (c : SetupCall)
  | load (sel : Uint16)

namespace TableAccess

def runInMemory (p : Placement) (m : TableMemory × Terminal) :
    TableAccess → Option (TableMemory × Terminal)
  | call c => c.runInMemory p m
  | load sel => (m.1.loadSegment sel).map fun table => (table, m.2)

/-- The calls among some accesses. -/
def calls (accesses : List TableAccess) : List SetupCall :=
  accesses.filterMap fun
    | call c => some c
    | load _ => none

theorem calls_map_call (cs : List SetupCall) : calls (cs.map call) = cs := by
  rw [calls, List.filterMap_map]
  exact List.filterMap_some

theorem calls_append (accesses accesses' : List TableAccess) :
    calls (accesses ++ accesses') = calls accesses ++ calls accesses' := List.filterMap_append

end TableAccess

/-- **The tables of a run, in memory**: the calls made so far, and between them loads of `fs` and `gs`,
    have gone through on memory; the bytes are those of the tables, and nothing outside the five
    objects has changed. -/
structure FollowedBy (i : KernelImage) (p : Placement) (k₀ : Kernel) (m₀ : TableMemory)
    (t₀ : Terminal) (pre : List (Stmt Command Uint64)) (accesses : List TableAccess) (k : Kernel)
    (m : TableMemory) : Prop where
  calls : TableAccess.calls accesses = (commands pre).flatMap (Command.tableCalls i)
  loads : ∀ sel, .load sel ∈ accesses → sel = k₀.fs ∨ sel = k₀.gs
  goes : ∃ t, accesses.foldlM (TableAccess.runInMemory p) (m₀, t₀) = some (m, t)
  written : TablesWritten p m₀ m k.tables

section Steps

variable {i : KernelImage} {p : Placement} {k₀ k : Kernel} {m₀ m : TableMemory} {t₀ : Terminal}
  {pre : List (Stmt Command Uint64)} {accesses : List TableAccess}

/-- A command: its calls. -/
theorem FollowedBy.exec (h : FollowedBy i p k₀ m₀ t₀ pre accesses k m) {c : Command}
    (hrun : (c.exec i k).Running) : ∃ accesses' m',
      FollowedBy i p k₀ m₀ t₀ (pre ++ [.act c]) accesses' (c.exec i k) m' := by
  obtain ⟨t, hgoes⟩ := h.goes
  obtain ⟨t', hcalls⟩ := exec_tables i hrun t
  obtain ⟨s', m', t'', hrun', hmemory, hwritten⟩ :=
    runs_represent h.written.represents t (c.tableCalls i)
  obtain ⟨rfl, rfl⟩ := Prod.mk.inj (Option.some.inj (hcalls.symm.trans hrun'))
  refine ⟨accesses ++ (c.tableCalls i).map .call, m', ?_, fun sel hsel => ?_, ⟨t', ?_⟩,
    hwritten.represents, fun a ha => ?_⟩
  · rw [TableAccess.calls_append, TableAccess.calls_map_call, h.calls, commands_append,
      List.flatMap_append]
    exact congrArg _ (List.append_nil _).symm
  · rcases List.mem_append.mp hsel with hold | hnew
    · exact h.loads sel hold
    · obtain ⟨_, -, hcall⟩ := List.mem_map.mp hnew
      cases hcall
  · rw [List.foldlM_append, hgoes]
    exact List.foldlM_map.trans hmemory
  · rw [hwritten.outside a ha, h.written.outside a ha]

/-- A segment register, loaded through the table of a ready kernel. -/
theorem InMemory.Represents.pop {s : Tables} (hrep : Represents p m s)
    (hgdt : Installed s.gdt.unaccessed) {sel : Uint16} (hsel : sel ∈ loadable) :
    ∃ m', m.loadSegment sel = some m' ∧
      TablesWritten p m m' { s with gdt := s.gdt.loadSegment sel } := by
  have hall : loadable.all (fun sel => (slotOf sel).toNat < gdtSize) = true := by decide
  have hslot := of_decide_eq_true (List.all_eq_true.mp hall sel hsel)
  obtain ⟨m', hload, hrep', houtside⟩ := hrep.loadSegment hslot
    (congrArg GdtPtr.base hgdt.gdtr) (by
      intro hnull hnone
      have hok := (hgdt.dataOk_iff sel).mpr hsel
      rw [dataOk_unaccessed, Gdt.dataOk, hnull, hnone] at hok
      exact Bool.false_ne_true hok)
  exact ⟨m', hload, hrep', houtside⟩

/-- An interrupt: the loads of its stub. -/
theorem FollowedBy.take (h : FollowedBy i p k₀ m₀ t₀ pre accesses k m) {a : Arrival} {k' : Kernel}
    (hsound : k.Sound i) (hfs : k.fs = k₀.fs) (hgs : k.gs = k₀.gs) (htake : k.take i a = some k') :
    ∃ accesses' m', FollowedBy i p k₀ m₀ t₀ pre accesses' k' m' := by
  obtain ⟨hready, -, rfl⟩ := hsound.take htake
  obtain ⟨-, -, -, hsoftware, -⟩ := hready.served (k.saved a)
  obtain ⟨t, hgoes⟩ := h.goes
  obtain ⟨m₁, hload₁, hwritten₁⟩ := h.written.represents.pop hready.gdt hsound.1.2
  have hgdt₁ : Installed (k.gdt.loadSegment k.gs).unaccessed := by
    rw [hready.gdt.loadSegment_unaccessed hsound.1.2]
    exact hready.gdt
  obtain ⟨m₂, hload₂, hwritten₂⟩ := hwritten₁.represents.pop hgdt₁ hsound.1.1
  have htables : (k.resumed (serve i.image k.machine (k.saved a))).tables
      = { k.tables with gdt := (k.gdt.loadSegment k.gs).loadSegment k.fs } := by
    unfold Kernel.tables Kernel.resumed
    dsimp only
    rw [hsoftware]
  refine ⟨accesses ++ [.load k.gs, .load k.fs], m₂, ?_, fun sel hsel => ?_, ⟨t, ?_⟩, ?_,
    fun a ha => ?_⟩
  · rw [TableAccess.calls_append, h.calls]
    exact List.append_nil _
  · rcases List.mem_append.mp hsel with hold | hnew
    · exact h.loads sel hold
    · simp only [List.mem_cons, TableAccess.load.injEq, List.not_mem_nil, or_false] at hnew
      rcases hnew with rfl | rfl
      · exact Or.inr hgs
      · exact Or.inl hfs
  · rw [List.foldlM_append, hgoes]
    show (Option.map _ (m.loadSegment k.gs)).bind _ = _
    rw [hload₁]
    show (Option.map _ (m₁.loadSegment k.fs)).bind _ = _
    rw [hload₂]
    rfl
  · rw [htables]
    exact hwritten₂.represents
  · rw [hwritten₂.outside a ha, hwritten₁.outside a ha, h.written.outside a ha]

end Steps

/-- A boot with the table of gates in the kernel's data. -/
def linkedBoot : Kernel :=
  let k := coldKernel 0xB8
  { k with machine :=
    { k.machine with software := { k.machine.software with idt := linkedTables.idt } } }

theorem linkedBoot_atBoot : linkedBoot.AtBoot coldInfo where
  toLoaded := ⟨rfl, ⟨⟨rfl, rfl⟩, rfl⟩, ⟨rfl, rfl⟩, rfl, rfl, rfl, rfl⟩
  low := (coldKernel_atBoot 0xB8).low
  loads := (coldKernel_atBoot 0xB8).loads
  information := (coldKernel_atBoot 0xB8).information
  fits := (coldKernel_atBoot 0xB8).fits

theorem linkedBoot_represents : Represents linkedPlacement linkedMemory linkedBoot.tables :=
  linked_represents

end FreeMicroNix
