/-
  `RTC_Update` behind its loop: from the registers to a date.

  The registers hold a date in one of four formats, which register B names: binary or binary-coded
  decimal, 24 hours or 12 with a PM bit.  `encoded b t` is what a pass reads of the date `t`, and
  `decoded b t` what the function makes of it, field by field.  The two steps undo the format but
  for midnight and noon of a 12-hour clock, which come out as 12 and 0 (`finished_encoded`).

  The century is then added to the POINTER to the structure, where the branch for a chip with a
  century register adds it to the year: the structure that was read into is left behind with its
  two-digit year, and the pointer goes 2000 structures further.

  A run is any list of port accesses of the function, of interrupts, and of changes of the chip that
  keep the date.  `Displaced` follows the pointer through all of them, and `Decoding` the fields
  that have been read, where no interrupt comes between a selection and its read.
-/
import FreeMicroNix.Clock.Reread
import Mathlib.Data.Fintype.Basic
import Mathlib.Tactic.FinCases

namespace FreeMicroNix

/-! ## Dates -/

/-- The days of a month, from 2000 to 2099. -/
def daysIn (year month : Nat) : Nat :=
  if month = 2 then if year % 4 = 0 then 29 else 28
  else if month = 4 ∨ month = 6 ∨ month = 9 ∨ month = 11 then 30
  else 31

/-- A date and time of the century the driver is for. -/
structure CivilTime where
  second : Nat
  minute : Nat
  hour : Nat
  day : Nat
  month : Nat
  year : Nat
  second_lt : second < 60
  minute_lt : minute < 60
  hour_lt : hour < 24
  day_mem : 1 ≤ day ∧ day ≤ daysIn year month
  month_mem : 1 ≤ month ∧ month ≤ 12
  year_mem : 2000 ≤ year ∧ year < 2100

/-- The structure that holds it. -/
def CivilTime.toRtcTime (t : CivilTime) : RtcTime where
  second := BitVec.ofNat 8 t.second
  minute := BitVec.ofNat 8 t.minute
  hour := BitVec.ofNat 8 t.hour
  day := BitVec.ofNat 8 t.day
  month := BitVec.ofNat 8 t.month
  year := BitVec.ofNat 32 t.year

theorem CivilTime.day_lt (t : CivilTime) : t.day < 32 := by
  have hday := t.day_mem.2
  have hmonth : daysIn t.year t.month ≤ 31 := by
    unfold daysIn
    split_ifs <;> omega
  omega

/-! ## The formats -/

/-- A number in the format of register B: binary-coded decimal if bit 2 is clear. -/
def encode (b : Uint8) (n : Nat) : Uint8 :=
  if b &&& 0x04 = 0 then BitVec.ofNat 8 (n / 10 * 16 + n % 10) else BitVec.ofNat 8 n

/-- The hour: if bit 1 is clear, 1 to 12 with the PM bit. -/
def encodeHour (b : Uint8) (hour : Nat) : Uint8 :=
  if b &&& 0x02 = 0 then
    encode b ((hour + 11) % 12 + 1) ||| (if 12 ≤ hour then 0x80 else 0)
  else encode b hour

/-- What a pass reads of a date. -/
def encoded (b : Uint8) (t : CivilTime) : RtcTime where
  second := encode b t.second
  minute := encode b t.minute
  hour := encodeHour b t.hour
  day := encode b t.day
  month := encode b t.month
  year := (encode b (t.year % 100)).setWidth 32

/-- The registers hold a date, in the format that register B names. -/
structure Encodes (b : Uint8) (t : CivilTime) (contents : BitVec 7 → Uint8) : Prop where
  time : RtcTime.ofRegisters contents = encoded b t
  registerB : contents 0x0B = b

/-- The hour that is decoded: midnight and noon of a 12-hour clock are exchanged. -/
def decodedHour (b : Uint8) (hour : Nat) : Nat :=
  if b &&& 0x02 = 0 ∧ hour % 12 = 0 then (hour + 12) % 24 else hour

/-- What is left in the structure that was read into. -/
def decoded (b : Uint8) (t : CivilTime) : RtcTime :=
  { t.toRtcTime with
    hour := BitVec.ofNat 8 (decodedHour b t.hour)
    year := BitVec.ofNat 32 (t.year % 100) }

/-! ## The conversions -/

/-- The two in-place conversions, the second of them made twice. -/
def RtcTime.finished (time : RtcTime) (b : Uint8) : RtcTime :=
  ((if b &&& 0x04 = 0 then time.fromBcd else time).from12Hour b).from12Hour b

theorem fromBcd_encode : ∀ n < 100, fromBcd (BitVec.ofNat 8 (n / 10 * 16 + n % 10))
    = BitVec.ofNat 8 n := by decide

/-- The day is masked to two digits below 80, and the year is decoded in 32 bits. -/
theorem day_encode : ∀ n < 80,
    ((BitVec.ofNat 8 (n / 10 * 16 + n % 10) &&& 0x0F)
      + (BitVec.ofNat 8 (n / 10 * 16 + n % 10) &&& 0x70) / 16 * 10 : Uint8)
      = BitVec.ofNat 8 n := by decide

theorem year_encode : ∀ n < 100,
    (((BitVec.ofNat 8 (n / 10 * 16 + n % 10)).setWidth 32 &&& 0x0F)
      + (BitVec.ofNat 8 (n / 10 * 16 + n % 10)).setWidth 32 / 16 * 10 : Uint32)
      = BitVec.ofNat 32 n := by decide

/-- The hour on its own. -/
def hourFrom12 (b hour : Uint8) : Uint8 :=
  if b &&& 0x02 = 0 ∧ hour &&& 0x80 ≠ 0 then ((hour &&& 0x7F) + 12) % 24 else hour

theorem from12Hour_eq (time : RtcTime) (b : Uint8) :
    time.from12Hour b = { time with hour := hourFrom12 b time.hour } := by
  unfold RtcTime.from12Hour hourFrom12
  split_ifs <;> rfl

/-- The hour out of binary-coded decimal, its PM bit kept. -/
def hourFromBcd (hour : Uint8) : Uint8 :=
  (hour &&& 0x0F) + (hour &&& 0x70) / 16 * 10 ||| hour &&& 0x80

/-- A 12-hour clock, in both formats. -/
theorem hourFromBcd_twelve : ∀ hour < 24,
    hourFromBcd (BitVec.ofNat 8 (((hour + 11) % 12 + 1) / 10 * 16 + ((hour + 11) % 12 + 1) % 10)
        ||| (if 12 ≤ hour then 0x80 else 0))
      = BitVec.ofNat 8 ((hour + 11) % 12 + 1) ||| (if 12 ≤ hour then 0x80 else 0) := by decide

/-- Hours with the PM bit are converted once, the second conversion finding it gone. -/
theorem hourFrom12_twelve {b : Uint8} (hb : b &&& 0x02 = 0) {hour : Nat} (hhour : hour < 24) :
    hourFrom12 b (hourFrom12 b
        (BitVec.ofNat 8 ((hour + 11) % 12 + 1) ||| (if 12 ≤ hour then 0x80 else 0)))
      = BitVec.ofNat 8 (decodedHour b hour) := by
  simp only [hourFrom12, decodedHour, hb, true_and]
  revert hour
  decide

/-- A 24-hour clock, in both formats. -/
theorem hourFromBcd_encode : ∀ n < 24,
    hourFromBcd (BitVec.ofNat 8 (n / 10 * 16 + n % 10)) = BitVec.ofNat 8 n := by decide

theorem hourFrom12_of_ne {b : Uint8} (hb : b &&& 0x02 ≠ 0) (hour : Uint8) :
    hourFrom12 b hour = hour := if_neg fun h => hb h.1

/-- **The hour** comes out right, but for midnight and noon of a 12-hour clock. -/
theorem hour_encodeHour (b : Uint8) {hour : Nat} (hhour : hour < 24) :
    hourFrom12 b (hourFrom12 b
        (if b &&& 0x04 = 0 then hourFromBcd (encodeHour b hour) else encodeHour b hour))
      = BitVec.ofNat 8 (decodedHour b hour) := by
  by_cases htwelve : b &&& 0x02 = 0
  · rw [← hourFrom12_twelve htwelve hhour, encodeHour, if_pos htwelve]
    by_cases hbcd : b &&& 0x04 = 0
    · rw [if_pos hbcd, encode, if_pos hbcd, hourFromBcd_twelve hour hhour]
    · rw [if_neg hbcd, encode, if_neg hbcd]
  · have hsame : decodedHour b hour = hour := if_neg fun h => htwelve h.1
    rw [hourFrom12_of_ne htwelve, hourFrom12_of_ne htwelve, encodeHour, if_neg htwelve, hsame]
    by_cases hbcd : b &&& 0x04 = 0
    · rw [if_pos hbcd, encode, if_pos hbcd, hourFromBcd_encode hour hhour]
    · rw [if_neg hbcd, encode, if_neg hbcd]

/-- **The conversions** undo the format. -/
theorem finished_encoded (b : Uint8) (t : CivilTime) : (encoded b t).finished b = decoded b t := by
  have hsecond := t.second_lt
  have hminute := t.minute_lt
  have hday := t.day_lt
  have hmonth := t.month_mem.2
  have hhour := hour_encodeHour b t.hour_lt
  have hyear : t.year % 100 < 100 := Nat.mod_lt _ (by decide)
  rw [RtcTime.finished, from12Hour_eq, from12Hour_eq]
  by_cases hbcd : b &&& 0x04 = 0
  · rw [if_pos hbcd] at hhour ⊢
    simp only [RtcTime.fromBcd, encoded, decoded, CivilTime.toRtcTime, RtcTime.mk.injEq, encode,
      if_pos hbcd]
    exact ⟨fromBcd_encode _ (by omega), fromBcd_encode _ (by omega), hhour, day_encode _ (by omega),
      fromBcd_encode _ (by omega), year_encode _ hyear⟩
  · rw [if_neg hbcd] at hhour ⊢
    simp only [encoded, decoded, CivilTime.toRtcTime, RtcTime.mk.injEq, encode, if_neg hbcd]
    refine ⟨trivial, trivial, hhour, trivial, trivial, ?_⟩
    bv_omega

/-! ## The end of the function -/

/-- How far the pointer goes: 2000 structures of 12 bytes. -/
def displacement : Uint32 := 24000

theorem displacement_eq : currentYear / 100 * 100 * sizeofRtcTime = displacement := by decide

theorem add_displacement_ne (p : Uint32) : p + displacement ≠ p := by
  unfold displacement
  bv_omega

/-- The driver with its pointer displaced, the fields converted where it pointed before. -/
def Rtc.displaced (r : Rtc) (b : Uint8) : Rtc :=
  { r.setCurrent (r.current.finished b) with rtcCurrent := r.rtcCurrent + displacement }

theorem Rtc.setCurrent_current (r : Rtc) : r.setCurrent r.current = r := by
  rw [Rtc.setCurrent, Rtc.current, Function.update_eq_self]

theorem Rtc.setCurrent_times_of_ne {r : Rtc} {a : Uint32} (h : a ≠ r.rtcCurrent) (time : RtcTime) :
    (r.setCurrent time).times a = r.times a := Function.update_of_ne h _ _

theorem rtcFinish_eq_displaced (r : Rtc) (b : Uint8) :
    rtcFinish r b =
      if (r.displaced b).current.year < currentYear then
        (r.displaced b).setCurrent
          { (r.displaced b).current with year := (r.displaced b).current.year + 100 }
      else r.displaced b := by
  have hbcd : (if b &&& 0x04 = 0 then r.setCurrent r.current.fromBcd else r)
      = r.setCurrent (if b &&& 0x04 = 0 then r.current.fromBcd else r.current) := by
    split_ifs
    · rfl
    · exact r.setCurrent_current.symm
  unfold rtcFinish
  simp only [hbcd, Rtc.current_setCurrent, Rtc.setCurrent_setCurrent, displacement_eq]
  rfl

/-- **The tail of `RTC_Update`**: the pointer is displaced, and the converted fields lie behind. -/
theorem rtcFinish_eq (r : Rtc) (b : Uint8) :
    (rtcFinish r b).rtcCurrent = r.rtcCurrent + displacement ∧
      (rtcFinish r b).times r.rtcCurrent = r.current.finished b := by
  have hfields : (r.displaced b).times r.rtcCurrent = r.current.finished b :=
    Function.update_self _ _ _
  rw [rtcFinish_eq_displaced]
  split_ifs
  · -- the year that is corrected is that of another structure
    have hapart : r.rtcCurrent ≠ (r.displaced b).rtcCurrent :=
      (add_displacement_ne r.rtcCurrent).symm
    refine ⟨rfl, ?_⟩
    rw [Rtc.setCurrent_times_of_ne hapart, hfields]
  · exact ⟨rfl, hfields⟩

/-! ## The pointer -/

/-- Where `rtc_current` points, having pointed to `p`: at `p` until the function is through. -/
def Displaced (p : Uint32) (u : RtcUpdate) : Prop :=
  u.rtc.rtcCurrent = if u.pc = .done then p + displacement else p

/-- A call that returns displaces the pointer if it is the last. -/
theorem Displaced.deliver {p : Uint32} {u : RtcUpdate} {call : RtcRead}
    (hpc : u.pc = .read call) (h : Displaced p u) (value : Uint8) :
    Displaced p (u.deliver value call) := by
  have hpointer : u.rtc.rtcCurrent = p := h.trans (if_neg (by rw [hpc]; exact nofun))
  cases call with
  | flag pass =>
    unfold RtcUpdate.deliver
    dsimp only
    split_ifs <;> exact hpointer
  | time pass field =>
    unfold RtcUpdate.deliver
    dsimp only
    split_ifs <;> exact hpointer
  | registerB =>
    show (rtcFinish u.rtc value).rtcCurrent = p + displacement
    rw [(rtcFinish_eq u.rtc value).1, hpointer]

/-- **The step**, whatever happens next. -/
theorem Displaced.step {p : Uint32} {u : RtcUpdate} (h : Displaced p u) (e : RtcEvent) :
    Displaced p (u.step e) := by
  cases e with
  | proceed =>
    show Displaced p u.proceed
    unfold RtcUpdate.proceed
    cases hpc : u.pc with
    | select call => exact h.trans (if_neg (by rw [hpc]; exact nofun))
    | read call => exact h.deliver hpc _
    | done => exact h
  | handler => exact h
  | change contents => exact h

/-- **The run.** -/
theorem displaced_run (locals : RtcLocals) (rtc : Rtc) (cmos : Cmos) (events : List RtcEvent) :
    Displaced rtc.rtcCurrent (events.foldl RtcUpdate.step (rtcUpdate locals rtc cmos)) := by
  induction events using List.reverseRecOn with
  | nil => rfl
  | append_singleton events e ih =>
    rw [List.foldl_append]
    exact ih.step e

/-! ## The fields -/

/-- A field, by the place of its register. -/
def RtcTime.get (time : RtcTime) : Fin 6 → Uint32
  | 0 => time.second.setWidth 32
  | 1 => time.minute.setWidth 32
  | 2 => time.hour.setWidth 32
  | 3 => time.day.setWidth 32
  | 4 => time.month.setWidth 32
  | 5 => time.year

theorem RtcTime.get_set (time : RtcTime) (field place : Fin 6) (value : Uint8) :
    (time.set field value).get place
      = if place = field then value.setWidth 32 else time.get place := by
  fin_cases field <;> fin_cases place <;> rfl

theorem RtcTime.get_ofRegisters (contents : BitVec 7 → Uint8) (field : Fin 6) :
    (RtcTime.ofRegisters contents).get field = (register contents field).setWidth 32 := by
  fin_cases field <;> rfl

theorem RtcTime.ext_get {time time' : RtcTime} (h : ∀ field, time.get field = time'.get field) :
    time = time' := by
  have hwide : ∀ {x y : Uint8}, x.setWidth 32 = y.setWidth 32 → x = y := by
    intro x y heq
    bv_omega
  obtain ⟨second, minute, hour, day, month, year⟩ := time
  obtain ⟨second', minute', hour', day', month', year'⟩ := time'
  obtain rfl : second = second' := hwide (h 0)
  obtain rfl : minute = minute' := hwide (h 1)
  obtain rfl : hour = hour' := hwide (h 2)
  obtain rfl : day = day' := hwide (h 3)
  obtain rfl : month = month' := hwide (h 4)
  obtain rfl : year = year' := h 5
  rfl

/-- The first `n` fields have been read. -/
def Loaded (raw time : RtcTime) (n : Nat) : Prop :=
  ∀ field : Fin 6, field.val < n → time.get field = raw.get field

/-- The next one is. -/
theorem Loaded.set {raw time : RtcTime} {field : Fin 6} {contents : BitVec 7 → Uint8}
    (h : Loaded raw time field.val) (hraw : RtcTime.ofRegisters contents = raw) :
    Loaded raw (time.set field (register contents field)) (field.val + 1) := by
  intro place hplace
  rw [RtcTime.get_set]
  split_ifs with heq
  · rw [heq, ← RtcTime.get_ofRegisters, hraw]
  · exact h place (by omega)

/-- How many fields the current pass has read when a call is made. -/
def RtcRead.fieldsRead : RtcRead → Nat
  | .flag _ => 0
  | .time _ field => field.val
  | .registerB => 6

section Run

variable {b : Uint8} {t : CivilTime} {p : Uint32} {u : RtcUpdate}

/-- The state of a run without interrupts on a clock that holds the date `t`. -/
structure Decoding (b : Uint8) (t : CivilTime) (p : Uint32) (u : RtcUpdate) : Prop where
  registers : Encodes b t u.cmos.contents
  selection : Selection u false
  pointer : Displaced p u
  loaded : ∀ call, u.pc = .select call ∨ u.pc = .read call →
    Loaded (encoded b t) u.rtc.current call.fieldsRead
  finished : u.pc = .done → u.rtc.times p = decoded b t

/-- The call returns the register it was made for. -/
theorem Decoding.inData (h : Decoding b t p u) {call : RtcRead} (hpc : u.pc = .read call) :
    u.cmos.inData = u.cmos.contents (call.reg.setWidth 7) := by
  have hselected : u.cmos.selected = call.reg.setWidth 7 := h.selection call hpc
  rw [Cmos.inData, hselected]

/-- A call made next finds the fields read that the pass has read, if the last one finds them. -/
theorem loaded_of_select {raw : RtcTime} {call : RtcRead} (hpc : u.pc = .select call)
    (hloaded : Loaded raw u.rtc.current call.fieldsRead) (call' : RtcRead)
    (h : u.pc = .select call' ∨ u.pc = .read call') :
    Loaded raw u.rtc.current call'.fieldsRead := by
  rcases h with hselect | hread
  · obtain rfl := UpdatePc.select.inj (hpc.symm.trans hselect)
    exact hloaded
  · exact absurd (hpc.symm.trans hread) nofun

/-- Nothing has been read at the start of a pass. -/
theorem loaded_zero (raw time : RtcTime) : Loaded raw time 0 :=
  fun _ hfield => absurd hfield (Nat.not_lt_zero _)

/-- **The step**: a call returns. -/
theorem Decoding.deliver (h : Decoding b t p u) {call : RtcRead} (hpc : u.pc = .read call) :
    Decoding b t p (u.deliver (call.result u.cmos.inData) call) := by
  have hpointer := h.pointer.deliver hpc (call.result u.cmos.inData)
  have hloaded := h.loaded call (Or.inr hpc)
  have hselection : Selection (u.deliver (call.result u.cmos.inData) call) false :=
    fun call' hread => absurd hread (u.deliver_pc _ call call')
  rw [h.inData hpc] at hpointer hselection ⊢
  cases call with
  | flag pass =>
    unfold RtcUpdate.deliver at hpointer hselection ⊢
    dsimp only at hpointer hselection ⊢
    split_ifs at hpointer hselection ⊢
    · exact ⟨h.registers, hselection, hpointer, loaded_of_select rfl (loaded_zero _ _), nofun⟩
    · exact ⟨h.registers, hselection, hpointer, loaded_of_select rfl (loaded_zero _ _), nofun⟩
  | time pass field =>
    have hnext : Loaded (encoded b t)
        (u.rtc.setCurrent (u.rtc.current.set field (register u.cmos.contents field))).current
        (field.val + 1) := by
      rw [Rtc.current_setCurrent]
      exact hloaded.set h.registers.time
    unfold RtcUpdate.deliver at hpointer hselection ⊢
    dsimp only at hpointer hselection ⊢
    split_ifs at hpointer hselection ⊢ with hless hagain
    · exact ⟨h.registers, hselection, hpointer, loaded_of_select rfl hnext, nofun⟩
    · exact ⟨h.registers, hselection, hpointer, loaded_of_select rfl (loaded_zero _ _), nofun⟩
    · have hlast : field.val + 1 = 6 := by omega
      rw [hlast] at hnext
      exact ⟨h.registers, hselection, hpointer, loaded_of_select rfl hnext, nofun⟩
  | registerB =>
    have hplace : u.rtc.rtcCurrent = p := h.pointer.trans (if_neg (by rw [hpc]; exact nofun))
    have hraw : u.rtc.current = encoded b t := RtcTime.ext_get fun field => hloaded field field.isLt
    have hvalue : RtcRead.registerB.result (u.cmos.contents (RtcRead.registerB.reg.setWidth 7))
        = b := h.registers.registerB
    rw [hvalue] at hpointer hselection ⊢
    have hend : (u.deliver b .registerB).pc = .done := rfl
    refine ⟨h.registers, hselection, hpointer, fun call' h => ?_, fun _ => ?_⟩
    · rcases h with hselect | hread
      · exact absurd (hend.symm.trans hselect) nofun
      · exact absurd (hend.symm.trans hread) nofun
    · have hfields := (rtcFinish_eq u.rtc b).2
      rw [hplace, hraw, finished_encoded] at hfields
      dsimp only [RtcUpdate.deliver]
      exact hfields

/-- **The step**: any event but an interrupt. -/
theorem Decoding.step (h : Decoding b t p u) {e : RtcEvent} (hhandler : e ≠ .handler)
    (hchange : ∀ contents, e = .change contents → Encodes b t contents) :
    Decoding b t p (u.step e) := by
  have hselection : Selection (u.step e) false := by
    have hstep := h.selection.step e
    cases e with
    | handler => exact absurd rfl hhandler
    | _ => exact hstep
  have hpointer := h.pointer.step e
  cases e with
  | proceed =>
    cases hpc : u.pc with
    | select call =>
      have hproceed : u.step .proceed
          = { u with cmos := u.cmos.outAddress call.reg, pc := .read call } := by
        show u.proceed = _
        rw [RtcUpdate.proceed, hpc]
      rw [hproceed] at hselection hpointer ⊢
      refine ⟨h.registers, hselection, hpointer, fun call' hcall => ?_, fun hend => ?_⟩
      · rcases hcall with hselect | hread
        · cases hselect
        · obtain rfl := UpdatePc.read.inj hread
          exact h.loaded call (Or.inl hpc)
      · cases hend
    | read call =>
      have hproceed : u.step .proceed = u.deliver (call.result u.cmos.inData) call := by
        show u.proceed = _
        rw [RtcUpdate.proceed, hpc]
      rw [hproceed]
      exact h.deliver hpc
    | done =>
      have hproceed : u.step .proceed = u := by
        show u.proceed = _
        rw [RtcUpdate.proceed, hpc]
      rw [hproceed]
      exact h
  | handler => exact absurd rfl hhandler
  | change contents =>
    exact ⟨hchange contents rfl, hselection, hpointer, h.loaded, h.finished⟩

/-- **The run.** -/
theorem decoding_run (locals : RtcLocals) (rtc : Rtc) {cmos : Cmos}
    (hcontents : Encodes b t cmos.contents) (events : List RtcEvent)
    (hhandler : .handler ∉ events)
    (hchange : ∀ contents, .change contents ∈ events → Encodes b t contents) :
    Decoding b t rtc.rtcCurrent (events.foldl RtcUpdate.step (rtcUpdate locals rtc cmos)) := by
  induction events using List.reverseRecOn with
  | nil =>
    exact ⟨hcontents, fun call hread => absurd hread nofun, rfl,
      loaded_of_select rfl (loaded_zero _ _), nofun⟩
  | append_singleton events e ih =>
    rw [List.mem_append, not_or, List.mem_singleton] at hhandler
    rw [List.foldl_append]
    refine (ih hhandler.1 fun contents hmem => hchange contents (List.mem_append_left _ hmem)).step
      (Ne.symm hhandler.2) fun contents heq => hchange contents ?_
    rw [heq]
    exact List.mem_append_right _ (List.mem_singleton_self _)

/-- **Clock decoding never succeeds.**  In every run on a clock that holds a date throughout, the
    pointer is displaced; without interrupts the date is left where it pointed before, the year
    without its century and midnight and noon of a 12-hour clock exchanged. -/
theorem rtc_update_displaces (locals : RtcLocals) (rtc : Rtc) {cmos : Cmos}
    (hcontents : Encodes b t cmos.contents) (events : List RtcEvent)
    (hchange : ∀ contents, .change contents ∈ events → Encodes b t contents)
    (hdone : (events.foldl RtcUpdate.step (rtcUpdate locals rtc cmos)).pc = .done) :
    let r := (events.foldl RtcUpdate.step (rtcUpdate locals rtc cmos)).rtc
    ¬ (rtcGetCurrentTime r = rtc.rtcCurrent ∧ r.times rtc.rtcCurrent = t.toRtcTime) ∧
      rtcGetCurrentTime r = rtc.rtcCurrent + displacement ∧
      (.handler ∉ events → r.times rtc.rtcCurrent = decoded b t) := by
  have hpointer : rtcGetCurrentTime (events.foldl RtcUpdate.step (rtcUpdate locals rtc cmos)).rtc
      = rtc.rtcCurrent + displacement :=
    (displaced_run locals rtc cmos events).trans (if_pos hdone)
  refine ⟨fun hsame => ?_, hpointer, fun hhandler => ?_⟩
  · exact add_displacement_ne rtc.rtcCurrent (hpointer.symm.trans hsame.1)
  · exact (decoding_run locals rtc hcontents events hhandler hchange).finished hdone

end Run

/-- The last second of 29 February 2016. -/
def leapDay : CivilTime :=
  ⟨59, 59, 23, 29, 2, 2016, by decide, by decide, by decide, by decide, by decide, by decide⟩

/-- A clock that holds it, in binary-coded decimal and 24 hours. -/
def leapCmos : Cmos where
  address := 0
  contents := fun reg =>
    if reg = 0x00 ∨ reg = 0x02 then 0x59 else if reg = 0x04 then 0x23 else if reg = 0x07 then 0x29
    else if reg = 0x08 then 0x02 else if reg = 0x09 then 0x16 else if reg = 0x0B then 0x02 else 0

theorem leapCmos_encodes : Encodes 0x02 leapDay leapCmos.contents := ⟨by decide, by decide⟩

/-- The update of that clock, by 30 port accesses, `last_day` happening to hold the day. -/
theorem leapCmos_done :
    ((List.replicate 30 RtcEvent.proceed).foldl RtcUpdate.step
      (rtcUpdate (staleLocals 0x29) coldRtc leapCmos)).pc = .done := by
  decide +kernel

theorem rtc_update_displaces_leapDay :
    let r := ((List.replicate 30 RtcEvent.proceed).foldl RtcUpdate.step
      (rtcUpdate (staleLocals 0x29) coldRtc leapCmos)).rtc
    ¬ (rtcGetCurrentTime r = coldRtc.rtcCurrent ∧
        r.times coldRtc.rtcCurrent = leapDay.toRtcTime) ∧
      rtcGetCurrentTime r = coldRtc.rtcCurrent + displacement ∧
      (.handler ∉ List.replicate 30 RtcEvent.proceed →
        r.times coldRtc.rtcCurrent = decoded 0x02 leapDay) :=
  rtc_update_displaces (staleLocals 0x29) coldRtc leapCmos_encodes _
    (fun _ hmem => absurd (List.eq_of_mem_replicate hmem) nofun) leapCmos_done

/-- The pointer has left the structure. -/
theorem rtc_update_loses_leapDay :
    Encodes 0x02 leapDay leapCmos.contents ∧
      ((List.replicate 30 RtcEvent.proceed).foldl RtcUpdate.step
        (rtcUpdate (staleLocals 0x29) coldRtc leapCmos)).pc = .done ∧
      ¬ (rtcGetCurrentTime ((List.replicate 30 RtcEvent.proceed).foldl RtcUpdate.step
          (rtcUpdate (staleLocals 0x29) coldRtc leapCmos)).rtc = coldRtc.rtcCurrent ∧
        ((List.replicate 30 RtcEvent.proceed).foldl RtcUpdate.step
          (rtcUpdate (staleLocals 0x29) coldRtc leapCmos)).rtc.times coldRtc.rtcCurrent
            = leapDay.toRtcTime) := by
  refine ⟨leapCmos_encodes, leapCmos_done, fun hsame => ?_⟩
  have hpointer := (displaced_run (staleLocals 0x29) coldRtc leapCmos
    (List.replicate 30 RtcEvent.proceed)).trans (if_pos leapCmos_done)
  exact add_displacement_ne coldRtc.rtcCurrent (hpointer.symm.trans hsame.1)

end FreeMicroNix
