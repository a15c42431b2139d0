/-
  Every vector through the table.

  `Install_IDT` zeroes the 256 entries and `Interrupt_Handler_Installer` writes fifty of them.
  What the processor then reads at a vector is the gate of the last row that wrote the entry
  (`gate_installInterrupts`), whatever the addresses of the stubs and whatever was in the table
  before, so that the rest is a look at fifty rows.

  The row of vector 121 is wrong twice: it names the stub of vector 120, and its flag byte is 0xBE
  where the comment above it spells 0xEE.  The processor reads a descriptor with the S bit set and
  DPL 1.
-/
import FreeMicroNix.Lib.LastWrite
import FreeMicroNix.Isa.Dispatch

namespace FreeMicroNix

open LastWrite

variable {σ : Type}

/-! ## What a vector needs -/

/-- No two stubs push the same vector. -/
theorem stub_of_intNo : ∀ s ∈ stubs, ∀ s' ∈ stubs, s.intNo = s'.intNo → s = s' := by decide

/-- **The gate a vector may have**: none, or an interrupt gate to the stub that pushes the vector,
    which user mode may raise exactly when the vector is 121. -/
def GateOk (addr : Label → Uint32) (v : Uint8) (g : Gate) : Prop :=
  g.present = false ∨
    g.present = true ∧ g.system = false ∧ g.type = 0xE ∧ g.selector = 0x08 ∧
      (∃ s ∈ stubs, s.intNo = some (v.setWidth 32) ∧ g.offset = addr s.label) ∧
      g.dpl = if v = 121 then 3 else 0

/-- `Install_IDT` and, after it, `Interrupt_Handler_Installer`. -/
def installInterrupts (m : Machine σ) (addr : Label → Uint32) : Machine σ :=
  let (idt, t) := installIdt m.software.idt m.software.terminal
  interruptHandlerInstaller
    { m with software := { m.software with idt := idt, terminal := t } } addr

/-! ## The rows -/

namespace InstallerRow

/-- The gate of a row. -/
def gate (addr : Label → Uint32) (row : InstallerRow) : Gate where
  offset := addr row.stub
  selector := row.sel
  present := row.flags.getLsbD 7
  dpl := row.flags.extractLsb' 5 2
  system := row.flags.getLsbD 4
  type := row.flags.extractLsb' 0 4

/-- A row as a step on the table. -/
def write (addr : Label → Uint32) (i : Idt) (row : InstallerRow) : Idt :=
  createIdtEntry i row.num (addr row.stub) row.sel row.flags

/-- The row that wrote the entry of `v` last. -/
def last (v : Uint8) : Option InstallerRow :=
  lastWrite (fun row v => if v = row.num then some row else none) installerRows v

/-- A row fit for vector `v`. -/
def Fits (v : Uint8) (row : InstallerRow) : Prop :=
  row.sel = 0x08 ∧ row.flags = 0x8E ∧
    ∃ s ∈ stubs, s.intNo = some (v.setWidth 32) ∧ s.label = row.stub

instance (v : Uint8) (row : InstallerRow) : Decidable (Fits v row) :=
  inferInstanceAs (Decidable (_ ∧ _ ∧ _))

/-- **The fifty rows.**  Every row but that of 121 fits its vector. -/
theorem rows_fit : ∀ row ∈ installerRows, row.num ≠ 121 → Fits row.num row := by decide

theorem last_fits {v : Uint8} (hv : v ≠ 121) {row : InstallerRow} (h : last v = some row) :
    Fits v row := by
  obtain ⟨row', hrow, hwrites⟩ := of_lastWrite _ h
  obtain ⟨rfl, rfl⟩ : v = row'.num ∧ row' = row := by simpa using hwrites
  exact rows_fit row' hrow hv

theorem last_121 : last 121 = some ⟨121, .isr 120, 0x08, 0xBE⟩ := rfl

end InstallerRow

/-! ## The table after the installation -/

/-- One row writes its own entry and no other. -/
theorem write_entries (addr : Label → Uint32) (v : Uint8) (i : Idt) (row : InstallerRow) :
    decodeGate ((row.write addr i).entries v).bytes
      = ((if v = row.num then some row else none).map (InstallerRow.gate addr)).getD
          (decodeGate (i.entries v).bytes) := by
  by_cases h : v = row.num
  · rw [h, if_pos rfl]
    exact decode_createIdtEntry i row.num (addr row.stub) row.sel row.flags
  · rw [if_neg h]
    show decodeGate (IdtEntry.bytes (Function.update i.entries row.num _ v)) = _
    rw [Function.update_of_ne h]
    rfl

/-- A row leaves the register and the table's place alone. -/
theorem rows_register (addr : Label → Uint32) (rows : List InstallerRow) (i : Idt) :
    (rows.foldl (InstallerRow.write addr) i).idtr = i.idtr ∧
      (rows.foldl (InstallerRow.write addr) i).address = i.address := by
  induction rows generalizing i with
  | nil => exact ⟨rfl, rfl⟩
  | cons row rows ih => exact ih (row.write addr i)

/-- A zeroed entry decodes to a gate that is not present. -/
theorem zero_not_present : (decodeGate IdtEntry.zero.bytes).present = false := by decide

/-- **The gate of every vector** is that of its last row, or the zeroed one. -/
theorem gate_installInterrupts (m : Machine σ) (addr : Label → Uint32) (v : Uint8) :
    (installInterrupts m addr).software.idt.gate v
      = some (((InstallerRow.last v).map (InstallerRow.gate addr)).getD
          (decodeGate IdtEntry.zero.bytes)) := by
  let start := (installIdt m.software.idt m.software.terminal).1
  have hidt : (installInterrupts m addr).software.idt
      = installerRows.foldl (InstallerRow.write addr) start := rfl
  obtain ⟨hidtr, haddress⟩ := rows_register addr installerRows start
  have hrun := read_foldl
    (fun (i : Idt) v => decodeGate (i.entries v).bytes)
    (fun row v => (if v = row.num then some row else none).map (InstallerRow.gate addr))
    (A := fun _ => True) (i := v) (fun i row _ => write_entries addr v i row)
    start installerRows fun _ _ => trivial
  rw [hidt, Idt.gate, hidtr, haddress, if_pos, hrun, lastWrite_map]
  · rfl
  · refine ⟨rfl, ?_⟩
    show 8 * v.toNat + 7 ≤ (BitVec.ofNat 16 (8 * numInterrupts - 1)).toNat
    have hlimit : (BitVec.ofNat 16 (8 * numInterrupts - 1)).toNat = 2047 := by decide
    have hv : v.toNat < 256 := v.isLt
    omega

/-- 0x8E: a present 32-bit interrupt gate for the kernel. -/
theorem flags_8E : (0x8E#8).getLsbD 7 = true ∧ (0x8E#8).getLsbD 4 = false ∧
    (0x8E#8).extractLsb' 0 4 = 0xE ∧ (0x8E#8).extractLsb' 5 2 = 0 := by decide

/-- 0xBE: present, and a code segment to the processor. -/
theorem flags_BE : (0xBE#8).getLsbD 7 = true ∧ (0xBE#8).getLsbD 4 = true := by decide

/-- A row that fits makes a gate that is right, for any vector but the one user mode may raise. -/
theorem InstallerRow.Fits.gateOk {v : Uint8} {row : InstallerRow} (h : row.Fits v) (hv : v ≠ 121)
    (addr : Label → Uint32) : GateOk addr v (row.gate addr) := by
  obtain ⟨hsel, hflags, s, hs, hintNo, hlabel⟩ := h
  obtain ⟨hpresent, hsystem, htype, hdpl⟩ := flags_8E
  unfold InstallerRow.gate
  rw [hflags]
  refine Or.inr ⟨hpresent, hsystem, htype, hsel, ⟨s, hs, hintNo, ?_⟩, ?_⟩
  · show addr row.stub = addr s.label
    rw [hlabel]
  · rw [if_neg hv]
    exact hdpl

/-- The row of vector 121 makes no right gate at all. -/
theorem row_121_not_ok (addr addr' : Label → Uint32) (v : Uint8) :
    ¬ GateOk addr' v (InstallerRow.gate addr ⟨121, .isr 120, 0x08, 0xBE⟩) := by
  obtain ⟨hpresent, hsystem⟩ := flags_BE
  rintro (habsent | ⟨-, hgate, -⟩)
  · exact Bool.noConfusion (habsent.symm.trans hpresent)
  · exact Bool.noConfusion (hgate.symm.trans hsystem)

/-- **Vector integrity, exactly.**  For all stub addresses, whatever the table held, the processor
    reads a right gate at every vector but 121. -/
theorem gate_ok_iff (m : Machine σ) (addr : Label → Uint32) (v : Uint8) :
    (∃ g, (installInterrupts m addr).software.idt.gate v = some g ∧ GateOk addr v g) ↔
      v ≠ 121 := by
  rw [gate_installInterrupts]
  constructor
  · rintro ⟨g, hg, hok⟩ rfl
    rw [InstallerRow.last_121] at hg
    obtain rfl := Option.some.inj hg
    exact row_121_not_ok addr addr 121 hok
  · intro hv
    refine ⟨_, rfl, ?_⟩
    cases hlast : InstallerRow.last v with
    | none => exact Or.inl zero_not_present
    | some row => exact (InstallerRow.last_fits hv hlast).gateOk hv addr

/-- The stubs sixteen bytes apart, the exceptions first. -/
def evenlySpaced : Label → Uint32
  | .isr n => 0xC0100000 + 16 * n.setWidth 32
  | .irq n => 0xC0101000 + 16 * n.setWidth 32

/-- At vector 121 the processor reads a descriptor that is present and not a gate. -/
theorem gate_121_not_ok :
    ¬ ∃ g, (installInterrupts idleMachine evenlySpaced).software.idt.gate 121 = some g ∧
      GateOk evenlySpaced 121 g := by
  rintro ⟨g, hg, hok⟩
  rw [gate_installInterrupts, InstallerRow.last_121] at hg
  obtain rfl := Option.some.inj hg
  exact row_121_not_ok evenlySpaced evenlySpaced 121 hok

end FreeMicroNix
