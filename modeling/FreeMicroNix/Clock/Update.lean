/-
  `RTC_Update` of `kernel/x86/rtc.c`, one port access at a time.

  The function reads registers by selecting them through port 0x70 and reading port 0x71.
  `RTC_Handler` selects register C in between whenever it runs, and `RTC_Update` does not turn the
  interrupts off as `Initialize_RTC` does; so a run is any list of port accesses of the function,
  of runs of the handler, and of changes the chip makes to its registers.  `rtc_reads_iff`: a read
  returns the register it was made for unless the handler has run since the selection and register
  C differs from it.

  Not every local variable is assigned before it is used: `last_day` never is, and `century` only
  where the chip has a century register.
-/
import FreeMicroNix.Clock.Rtc
import Mathlib.Data.List.Induction

namespace FreeMicroNix

/-! ## The function, access by access -/

/-- The two passes over the registers: before the loop, and in it. -/
inductive ClockPass where
  | first
  | again
  deriving DecidableEq

/-- A call of `RTC_Get_Update_In_Progress_Flag`, of `RTC_Get_Register` for one of the six registers
    of the time, or for register B. -/
inductive RtcRead where
  | flag (pass : ClockPass)
  | time (pass : ClockPass) (field : Fin 6)
  | registerB
  deriving DecidableEq

/-- Where `RTC_Update` stands. -/
inductive UpdatePc where
  /-- About to write port 0x70. -/
  | select (call : RtcRead)
  /-- About to read port 0x71. -/
  | read (call : RtcRead)
  | done
  deriving DecidableEq

/-- The registers of second, minute, hour, day, month and year. -/
def timeRegister : Fin 6 → Uint8
  | 0 => 0x00
  | 1 => 0x02
  | 2 => 0x04
  | 3 => 0x07
  | 4 => 0x08
  | 5 => 0x09

/-- The register a call is made for. -/
def RtcRead.reg : RtcRead → Uint8
  | flag _ => 0x0A
  | time _ field => timeRegister field
  | registerB => 0x0B

/-- What a call returns of the byte it reads. -/
def RtcRead.result : RtcRead → Uint8 → Uint8
  | flag _, value => value &&& 0x80
  | time _ _, value => value
  | registerB, value => value

/-- The call, uninterrupted. -/
def RtcRead.get : RtcRead → Cmos → Uint8 × Cmos
  | flag _, c => rtcGetUpdateInProgressFlag c
  | time _ field, c => rtcGetRegister c ((timeRegister field).setWidth 32)
  | registerB, c => rtcGetRegister c 0x0B

/-- The local variables of `RTC_Update`. -/
structure RtcLocals where
  century : Uint8
  lastSecond : Uint8
  lastMinute : Uint8
  lastHour : Uint8
  lastDay : Uint8
  lastMonth : Uint8
  lastYear : Uint8
  lastCentury : Uint8
  registerB : Uint8

/-- A call of `RTC_Update`, the chip and the globals. -/
structure RtcUpdate where
  pc : UpdatePc
  locals : RtcLocals
  rtc : Rtc
  cmos : Cmos

/-- `RTC_Update`, up to its first port access. -/
def rtcUpdate (locals : RtcLocals) (rtc : Rtc) (cmos : Cmos) : RtcUpdate where
  pc := .select (.flag .first)
  locals := locals
  rtc := rtc
  cmos := cmos

namespace Rtc

/-- `*rtc_current` -/
def current (r : Rtc) : RtcTime := r.times r.rtcCurrent

/-- An assignment to fields of `*rtc_current`. -/
def setCurrent (r : Rtc) (time : RtcTime) : Rtc :=
  { r with times := Function.update r.times r.rtcCurrent time }

end Rtc

/-- The field a register is read into. -/
def RtcTime.set (time : RtcTime) (field : Fin 6) (value : Uint8) : RtcTime :=
  match field with
  | 0 => { time with second := value }
  | 1 => { time with minute := value }
  | 2 => { time with hour := value }
  | 3 => { time with day := value }
  | 4 => { time with month := value }
  | 5 => { time with year := value.setWidth 32 }

/-- The head of the loop: what is remembered of the pass before, the day left out. -/
def RtcLocals.remember (l : RtcLocals) (time : RtcTime) : RtcLocals :=
  { l with
    lastSecond := time.second
    lastMinute := time.minute
    lastHour := time.hour
    lastMonth := time.month
    lastYear := time.year.setWidth 8
    lastCentury := l.century }

/-- The loop condition. -/
def RtcLocals.differs (l : RtcLocals) (time : RtcTime) : Bool :=
  l.lastSecond ≠ time.second ∨ l.lastMinute ≠ time.minute ∨ l.lastHour ≠ time.hour ∨
    l.lastDay ≠ time.day ∨ l.lastMonth ≠ time.month ∨ l.lastYear.setWidth 32 ≠ time.year ∨
    l.lastCentury ≠ l.century

/-- The binary value of a binary-coded byte. -/
def fromBcd (value : Uint8) : Uint8 := (value &&& 0x0F) + value / 16 * 10

/-- From binary-coded decimal; the hour keeps its PM bit. -/
def RtcTime.fromBcd (time : RtcTime) : RtcTime where
  second := FreeMicroNix.fromBcd time.second
  minute := FreeMicroNix.fromBcd time.minute
  hour := (time.hour &&& 0x0F) + (time.hour &&& 0x70) / 16 * 10 ||| time.hour &&& 0x80
  day := (time.day &&& 0x0F) + (time.day &&& 0x70) / 16 * 10
  month := FreeMicroNix.fromBcd time.month
  year := (time.year &&& 0x0F) + time.year / 16 * 10

/-- From a 12-hour clock. -/
def RtcTime.from12Hour (time : RtcTime) (registerB : Uint8) : RtcTime :=
  if registerB &&& 0x02 = 0 ∧ time.hour &&& 0x80 ≠ 0 then
    { time with hour := ((time.hour &&& 0x7F) + 12) % 24 }
  else time

/-- `CURRENT_YEAR` -/
def currentYear : Uint32 := 2016

/-- `RTC_Update` behind its last read: the format of the fields, the 12-hour correction — written
    twice in the source — and the century, which the source adds to the POINTER. -/
def rtcFinish (r : Rtc) (registerB : Uint8) : Rtc :=
  let r := if registerB &&& 0x04 = 0 then r.setCurrent r.current.fromBcd else r
  let r := r.setCurrent (r.current.from12Hour registerB)
  let r := r.setCurrent (r.current.from12Hour registerB)
  let r := { r with rtcCurrent := r.rtcCurrent + currentYear / 100 * 100 * sizeofRtcTime }
  if r.current.year < currentYear then
    r.setCurrent { r.current with year := r.current.year + 100 }
  else r

namespace RtcUpdate

/-- A call has returned. -/
def deliver (u : RtcUpdate) (value : Uint8) : RtcRead → RtcUpdate
  | .flag pass =>
      if value ≠ 0 then { u with pc := .select (.flag pass) }
      else { u with pc := .select (.time pass 0) }
  | .time pass field =>
      let time := u.rtc.current.set field value
      let u := { u with rtc := u.rtc.setCurrent time }
      if h : field.val < 5 then { u with pc := .select (.time pass ⟨field.val + 1, by omega⟩) }
      else if pass = .first ∨ u.locals.differs time then
        -- round the loop: `while (RTC_Get_Update_In_Progress_Flag());` comes first
        { u with locals := u.locals.remember time, pc := .select (.flag .again) }
      else { u with pc := .select .registerB }
  | .registerB =>
      { u with
        locals := { u.locals with registerB := value }
        rtc := rtcFinish u.rtc value
        pc := .done }

/-- The next port access. -/
def proceed (u : RtcUpdate) : RtcUpdate :=
  match u.pc with
  | .select call => { u with cmos := u.cmos.outAddress call.reg, pc := .read call }
  | .read call => u.deliver (call.result u.cmos.inData) call
  | .done => u

/-- A call that has returned is followed by a selection, or by the end. -/
theorem deliver_pc (u : RtcUpdate) (value : Uint8) (call call' : RtcRead) :
    (u.deliver value call).pc ≠ .read call' := by
  cases call with
  | flag pass =>
    unfold deliver
    split_ifs <;> exact nofun
  | time pass field =>
    unfold deliver
    dsimp only
    split_ifs <;> exact nofun
  | registerB => exact nofun

/-- Two port accesses in a row are a call. -/
theorem proceed_proceed {u : RtcUpdate} {call : RtcRead} (h : u.pc = .select call) :
    u.proceed.proceed =
      ({ u with cmos := (call.get u.cmos).2, pc := .read call } : RtcUpdate).deliver
        (call.get u.cmos).1 call := by
  have hget : call.get u.cmos
      = (call.result (u.cmos.outAddress call.reg).inData, u.cmos.outAddress call.reg) := by
    cases call with
    | flag pass => rfl
    | time pass field =>
      have hreg : ∀ field, ((timeRegister field).setWidth 32).setWidth 8 = timeRegister field := by
        decide
      rw [RtcRead.get, rtcGetRegister, hreg]
      rfl
    | registerB => rfl
  have hselect : u.proceed = { u with cmos := u.cmos.outAddress call.reg, pc := .read call } := by
    rw [proceed, h]
  rw [hselect, hget]
  rfl

end RtcUpdate

/-! ## Interleavings -/

/-- What happens next. -/
inductive RtcEvent where
  /-- A port access of `RTC_Update`. -/
  | proceed
  /-- A run of `RTC_Handler`. -/
  | handler
  /-- The chip changes its registers. -/
  | change (contents : BitVec 7 → Uint8)

/-- One event. -/
def RtcUpdate.step (u : RtcUpdate) : RtcEvent → RtcUpdate
  | .proceed => u.proceed
  | .handler =>
      let (rtc, cmos) := rtcHandler u.rtc u.cmos
      { u with rtc := rtc, cmos := cmos }
  | .change contents => { u with cmos := { u.cmos with contents := contents } }

/-- The handler has run since the last port access of `RTC_Update`. -/
def interrupted : List RtcEvent → Bool :=
  List.foldl (fun before e =>
    match e with
    | .proceed => false
    | .handler => true
    | .change _ => before) false

/-- The register selected while a call is under way: its own, or register C once the handler has
    run. -/
def Selection (u : RtcUpdate) (handled : Bool) : Prop :=
  ∀ call, u.pc = .read call →
    u.cmos.selected = if handled then 0x0C else call.reg.setWidth 7

/-- **The step**: the selection is known after every event. -/
theorem Selection.step {u : RtcUpdate} {handled : Bool} (h : Selection u handled) (e : RtcEvent) :
    Selection (u.step e) (match e with
      | .proceed => false
      | .handler => true
      | .change _ => handled) := by
  cases e with
  | proceed =>
    intro call hpc
    change (RtcUpdate.proceed u).pc = .read call at hpc
    show (RtcUpdate.proceed u).cmos.selected = call.reg.setWidth 7
    unfold RtcUpdate.proceed at hpc ⊢
    cases hu : u.pc with
    | select call' =>
      rw [hu] at hpc
      obtain rfl := UpdatePc.read.inj hpc
      exact u.cmos.outAddress_selected call'.reg
    | read call' =>
      rw [hu] at hpc
      exact absurd hpc (u.deliver_pc _ call' call)
    | done =>
      rw [hu] at hpc
      exact absurd (hu.symm.trans hpc) nofun
  | handler => exact fun call hpc => u.cmos.outAddress_selected 0x0C
  | change contents => exact h

theorem selection_run (locals : RtcLocals) (rtc : Rtc) (cmos : Cmos) (events : List RtcEvent) :
    Selection (events.foldl RtcUpdate.step (rtcUpdate locals rtc cmos)) (interrupted events) := by
  induction events using List.reverseRecOn with
  | nil => exact fun call hpc => absurd hpc nofun
  | append_singleton events e ih =>
    rw [List.foldl_append, interrupted, List.foldl_append]
    exact ih.step e

/-- **Reads under interrupts, exactly.**  In every interleaving of the port accesses of
    `RTC_Update` with runs of `RTC_Handler`, and with a clock that goes on, every call returns the
    register it was made for if and only if, whenever the handler has run since a call selected its
    register, register C holds what the call would return. -/
theorem rtc_reads_iff (locals : RtcLocals) (rtc : Rtc) (cmos : Cmos) (events : List RtcEvent) :
    (∀ pre post call, events = pre ++ .proceed :: post →
        let u := pre.foldl RtcUpdate.step (rtcUpdate locals rtc cmos)
        u.pc = .read call →
        call.result u.cmos.inData = call.result (u.cmos.contents (call.reg.setWidth 7))) ↔
      ∀ pre post call, events = pre ++ .proceed :: post →
        let u := pre.foldl RtcUpdate.step (rtcUpdate locals rtc cmos)
        u.pc = .read call → interrupted pre →
        call.result (u.cmos.contents 0x0C)
          = call.result (u.cmos.contents (call.reg.setWidth 7)) := by
  refine forall_congr' fun pre => forall_congr' fun post => forall_congr' fun call =>
    forall_congr' fun _ => forall_congr' fun hpc => ?_
  have hselected := selection_run locals rtc cmos pre call hpc
  rw [Cmos.inData, hselected]
  cases interrupted pre with
  | false => simp
  | true => simp

/-- A clock at 30 seconds, with an interrupt pending in register C. -/
def tickingCmos : Cmos where
  address := 0
  contents := fun reg => if reg = 0x00 then 0x30 else if reg = 0x0C then 0xC0 else 0

/-- No variable assigned yet, and no structure written. -/
def coldUpdate : RtcUpdate :=
  rtcUpdate ⟨0, 0, 0, 0, 0, 0, 0, 0, 0⟩ ⟨0, 0, fun _ => ⟨0, 0, 0, 0, 0, 0⟩⟩ tickingCmos

/-- The handler between the selection of the seconds and their reading. -/
theorem rtc_reads_register_c :
    ¬ ∀ pre post call,
        [RtcEvent.proceed, .proceed, .proceed, .handler, .proceed] = pre ++ .proceed :: post →
        let u := pre.foldl RtcUpdate.step coldUpdate
        u.pc = .read call →
        call.result u.cmos.inData = call.result (u.cmos.contents (call.reg.setWidth 7)) := by
  intro hreads
  have hseconds := hreads [.proceed, .proceed, .proceed, .handler] [] (.time .first 0) rfl rfl
  exact absurd hseconds (by decide)

end FreeMicroNix
