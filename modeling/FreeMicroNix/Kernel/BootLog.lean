/-
  The screen of a boot.

  What a command of `kmain` prints does not depend on the state, except for `Get_RTC_Ticks()`, which
  is zero as long as nothing enables the clock's interrupts.  So the screen is that of `Video.Page`:
  each command adds its lines (`exec_shows`), and with the transparency of `Kernel.Boot` that holds of
  every run, interrupts or not (`kmain_log`).
-/
import FreeMicroNix.Kernel.Boot
import FreeMicroNix.Libc.Decimal
import FreeMicroNix.Video.Page

namespace FreeMicroNix

open Interleaving LabelledText

/-! ## What the commands print -/

/-- An argument, while the clock driver has counted nothing. -/
def Argument.atBoot : Argument → Uint32
  | word w => w
  | getRtcTicks => 0

namespace Command

/-- The characters a command sends to `Terminal_Putch`. -/
def printed : Command → CString
  | kprintf format string args => expand (fun _ => string) format (args.map Argument.atBoot)
  | initializeGdt =>
      joined [str "Global Descriptor Table Initialized", str "Task State Segment Initialized"]
  | installIdt => joined [str "Interrupt Descriptor Table Initialized"]
  | interruptHandlerInstaller =>
      joined [str "8259 PIC Successfully Initilialized", str "Interrupt Handlers Installed"]
  | _ => []

/-- The command prints the lines, each short and with its newline; a format ends, and has an argument
    for each conversion. -/
structure Prints (c : Command) (lines : List CString) : Prop where
  printed : c.printed = joined lines
  short : ∀ line ∈ lines, ShortLine line
  format : ∀ format string args, c = kprintf format string args →
    (∀ d ∈ format, d ≠ 0) ∧ conversions format = args.length

theorem Prints.lines {c : Command} {lines : List CString} (h : c.Prints lines) :
    fullLines c.printed = lines := by
  rw [h.printed]
  exact fullLines_joined fun line hline => (h.short line hline).newline

end Command

/-- The screen after a command. -/
def Page.after (p : Page) (c : Command) : Page :=
  match c with
  | .initializeTerminal => .empty
  | .terminalSetColor color => { p with color := color.value }
  | c => p.printlns (fullLines c.printed)

/-- The screen after some commands, the first of them `Initialize_Terminal()`. -/
def pageOf (cs : List Command) : Page := cs.foldl Page.after .empty

/-! ## The terminal shows it -/

/-- A `kprintf` call whose text is some lines. -/
theorem Shows.kprintf {p : Page} {t : Terminal} (h : Shows p t) {strAt : Uint32 → CString}
    {arg : Nat → Uint32} {format : CString} (lines : List CString)
    (hformat : ∀ d ∈ format, d ≠ 0)
    (htext : expand strAt format (wordsTaken format arg) = joined lines)
    (hshort : ∀ line ∈ lines, ShortLine line)
    (hroom : p.rows.length + lines.length ≤ vgaHeight) :
    Shows (p.printlns lines) (FreeMicroNix.kprintf t strAt format arg) := by
  obtain ⟨-, hequal⟩ := kprintf_text strAt arg hformat (.refl t)
  rw [htext] at hequal
  exact (h.putchs hshort hroom).equalButPorts hequal

/-- A `kprintf` call of a literal line, without conversions. -/
theorem Shows.kprintf_line {p : Page} {t : Terminal} (h : Shows p t) (s s' : String)
    (hs : str s' = joined [str s]) (hline : LineLiteral s = true)
    (hroom : p.rows.length < vgaHeight) (strAt : Uint32 → CString) (arg : Nat → Uint32) :
    Shows (p.println (str s)) (FreeMicroNix.kprintf t strAt (str s') arg) := by
  have hall : Verbatim (joined [str s]) := verbatim_joined fun line hmem => by
    rw [List.mem_singleton.mp hmem]
    exact LineLiteral.verbatim hline
  rw [hs]
  refine h.kprintf [str s] (fun d hd => (hall d hd).1)
    (expand_verbatim strAt hall _) (fun line hmem => ?_) hroom
  rw [List.mem_singleton.mp hmem]
  exact LineLiteral.short hline

/-- The words a `kprintf` call takes are its arguments, if it has one for each conversion. -/
theorem wordsTaken_args {format : CString} {args : List Uint32} (stray : Nat → Uint32)
    (hcount : conversions format = args.length) :
    wordsTaken format (kprintfWords args stray) = args := by
  unfold wordsTaken
  rw [hcount]
  apply List.ext_getElem
  · rw [List.length_map, List.length_range]
  · intro n hn hargs
    rw [List.getElem_map, List.getElem_range]
    unfold kprintfWords
    rw [List.getD_eq_getElem?_getD, List.getElem?_eq_getElem hargs]
    rfl

/-! ## The lines of each command -/

namespace Command

/-- Literal lines are short. -/
theorem short_literals {ss : List String} (h : ∀ s ∈ ss, LineLiteral s = true) :
    ∀ line ∈ ss.map str, ShortLine line := by
  intro line hline
  obtain ⟨s, hs, rfl⟩ := List.mem_map.mp hline
  exact LineLiteral.short (h s hs)

/-- **A `kprintf` call** prints the text of its format. -/
theorem format_prints (f : Format) {format string : CString} {args : List Argument}
    {lines : List CString} (hformat : format = f.bytes) (hlen : args.length = f.pieces.length)
    (htext : weave (f.pieces.map Piece.label)
      (List.zipWith (expandWord fun _ => string) (f.pieces.map Piece.directive)
        (args.map Argument.atBoot)) ++ f.tail = joined lines)
    (hshort : ∀ line ∈ lines, ShortLine line) : (kprintf format string args).Prints lines := by
  subst hformat
  have hlen' : (args.map Argument.atBoot).length = f.pieces.length :=
    (List.length_map _).trans hlen
  refine ⟨(expand_bytesOf _ f.labels f.verbatimTail hlen').trans htext, hshort, ?_⟩
  rintro format string args ⟨⟩
  exact ⟨f.bytes_ne_zero, f.conversions_bytes.trans hlen.symm⟩

/-- A `kprintf` call without conversions. -/
theorem kprintf_prints {s : String} (ss : List String) (hs : str s = joined (ss.map str))
    (hlines : ∀ s ∈ ss, LineLiteral s = true) :
    (kprintf (str s) [] []).Prints (ss.map str) := by
  have hverbatim : Verbatim (joined (ss.map str)) := verbatim_joined fun line hline => by
    obtain ⟨s, hmem, rfl⟩ := List.mem_map.mp hline
    exact LineLiteral.verbatim (hlines s hmem)
  exact format_prints ⟨[], _, fun _ h => absurd h List.not_mem_nil,
    fun _ h => absurd h List.not_mem_nil, hverbatim⟩ hs rfl rfl (short_literals hlines)

/-- A call that prints one literal line. -/
theorem line_prints (s s' : String) (hs : str s' = joined [str s]) (h : LineLiteral s = true) :
    (kprintf (str s') [] []).Prints [str s] :=
  kprintf_prints [s] hs fun _ hmem => List.mem_singleton.mp hmem ▸ h

/-- A command that prints nothing. -/
theorem prints_nothing {c : Command} (hprinted : c.printed = [])
    (hformat : ∀ format string args, c ≠ kprintf format string args) : c.Prints [] :=
  ⟨hprinted, fun _ hline => absurd hline List.not_mem_nil,
    fun format string args hc => absurd hc (hformat format string args)⟩

theorem initializeGdt_prints : initializeGdt.Prints
    (["Global Descriptor Table Initialized", "Task State Segment Initialized"].map str) :=
  ⟨rfl, short_literals (by decide), nofun⟩

theorem installIdt_prints :
    installIdt.Prints (["Interrupt Descriptor Table Initialized"].map str) :=
  ⟨rfl, short_literals (by decide), nofun⟩

theorem interruptHandlerInstaller_prints : interruptHandlerInstaller.Prints
    (["8259 PIC Successfully Initilialized", "Interrupt Handlers Installed"].map str) :=
  ⟨rfl, short_literals (by decide), nofun⟩

end Command

section Frame

open Command

variable (i : KernelImage) {k : Kernel} {p : Page}

/-- **One command** that has raised no exception. -/
theorem exec_shows {c : Command} (hrun : (c.exec i k).Running) (hrtc : k.rtc.rtcTicks = 0)
    {lines : List CString} (hprints : c.Prints lines) (h : Shows p k.machine.software.terminal)
    (hroom : p.rows.length + lines.length ≤ vgaHeight) :
    Shows (p.after c) (c.exec i k).machine.software.terminal := by
  have hlines := hprints.lines
  rw [(exec_eq_run i hrun).2]
  cases c with
  | initializeTerminal => exact Shows.empty _
  | terminalSetColor color => exact h.setColor color
  | kprintf format string args =>
    obtain ⟨hformat, hcount⟩ := hprints.format format string args rfl
    have hargs : args.map (Argument.value k) = args.map Argument.atBoot := by
      refine List.map_congr_left fun a _ => ?_
      cases a with
      | word w => rfl
      | getRtcTicks => exact hrtc
    show Shows (p.printlns (fullLines _)) _
    rw [hlines]
    refine h.kprintf lines hformat ?_ hprints.short hroom
    rw [hargs, wordsTaken_args i.stray (by rw [List.length_map]; exact hcount)]
    exact hprints.printed
  | initializeGdt =>
    obtain ⟨gdt, t, hgdt, -, hexec⟩ := run_initializeGdt i k
    obtain rfl : _ = lines := initializeGdt_prints.lines.symm.trans hlines
    have hroom' : p.rows.length + 2 ≤ vgaHeight := hroom
    have hfirst := h.kprintf_line "Global Descriptor Table Initialized"
      "Global Descriptor Table Initialized\n" (by simp [str, joined]) (by decide)
      (by omega) (fun _ => []) fun _ => 0
    have hsecond := hfirst.kprintf_line "Task State Segment Initialized"
      "Task State Segment Initialized\n" (by simp [str, joined]) (by decide)
      (by rw [Page.println, List.length_append]; exact hroom') (fun _ => []) fun _ => 0
    rw [initializeGdt_table] at hgdt
    obtain ⟨g, -, hpair⟩ := Option.map_eq_some_iff.mp hgdt
    obtain rfl : gdtLines k.machine.software.terminal = t := (Prod.mk.inj hpair).2
    show Shows (p.printlns (fullLines _)) _
    rw [hexec, hlines]
    exact hsecond
  | installIdt =>
    obtain rfl : _ = lines := installIdt_prints.lines.symm.trans hlines
    have hfirst := h.kprintf_line "Interrupt Descriptor Table Initialized"
      "Interrupt Descriptor Table Initialized\n" (by simp [str, joined]) (by decide)
      hroom (fun _ => []) fun _ => 0
    show Shows (p.printlns (fullLines _)) _
    rw [hlines]
    exact hfirst
  | interruptHandlerInstaller =>
    obtain rfl : _ = lines := interruptHandlerInstaller_prints.lines.symm.trans hlines
    have hroom' : p.rows.length + 2 ≤ vgaHeight := hroom
    have hfirst := h.kprintf_line "8259 PIC Successfully Initilialized"
      "8259 PIC Successfully Initilialized\n" (by simp [str, joined]) (by decide)
      (by omega) (fun _ => []) fun _ => 0
    have hsecond := hfirst.kprintf_line "Interrupt Handlers Installed"
      "Interrupt Handlers Installed\n" (by simp [str, joined]) (by decide)
      (by rw [Page.println, List.length_append]; exact hroom') (fun _ => []) fun _ => 0
    show Shows (p.printlns (fullLines _)) _
    rw [hlines]
    exact hsecond
  | pit8254Phase hz =>
    show Shows p _
    rw [Command.run]
    split <;> exact h
  | _ => exact h

end Frame

/-! ## The lines of `kmain` -/

open Command

/-- The lines of some commands. -/
def printedLines (cs : List Command) : List CString := cs.flatMap fun c => fullLines c.printed

theorem length_printedLines_cons (c : Command) (cs : List Command) :
    (printedLines (c :: cs)).length = (fullLines c.printed).length + (printedLines cs).length :=
  List.length_append

/-- A command that does not clear the screen adds its lines. -/
theorem Page.after_rows {c : Command} (hc : c ≠ .initializeTerminal) (p : Page) :
    ∃ rows, (p.after c).rows = p.rows ++ rows ∧ rows.length = (fullLines c.printed).length := by
  have hprintlns : ∀ lines : List CString, (p.printlns lines).rows
      = p.rows ++ lines.map (Row.mk p.color) := by
    intro lines
    induction lines generalizing p with
    | nil => exact (List.append_nil _).symm
    | cons line lines ih =>
      refine (ih (p.println line)).trans ?_
      exact List.append_assoc _ _ _
  cases c with
  | initializeTerminal => exact absurd rfl hc
  | terminalSetColor color => exact ⟨[], (List.append_nil _).symm, rfl⟩
  | _ => exact ⟨_, hprintlns _, List.length_map _⟩

/-- What the screen shows before is still there, while nothing clears it. -/
theorem Page.foldl_after_rows {cs : List Command} (h : .initializeTerminal ∉ cs) (p : Page) :
    ∃ rows, (cs.foldl Page.after p).rows = p.rows ++ rows ∧
      rows.length = (printedLines cs).length := by
  induction cs generalizing p with
  | nil => exact ⟨[], (List.append_nil _).symm, rfl⟩
  | cons c cs ih =>
    obtain ⟨hc, hcs⟩ := not_or.mp (mt List.mem_cons.mpr h)
    obtain ⟨rows, hrows, hlength⟩ := p.after_rows (Ne.symm hc)
    obtain ⟨rows', hrows', hlength'⟩ := ih hcs (p.after c)
    refine ⟨rows ++ rows', ?_, ?_⟩
    · rw [List.foldl_cons, hrows', hrows, List.append_assoc]
    · rw [List.length_append, hlength, hlength', length_printedLines_cons]

/-- **Some commands**, behind the one that clears the screen. -/
theorem execAll_shows (i : KernelImage) {k : Kernel} {p : Page} {cs : List Command}
    (hrun : (execAll i k cs).Running) (hrtc : k.rtc.rtcTicks = 0)
    (hclear : .initializeTerminal ∉ cs)
    (hprints : ∀ c ∈ cs, ∃ lines, c.Prints lines) (h : Shows p k.machine.software.terminal)
    (hroom : p.rows.length + (printedLines cs).length ≤ vgaHeight) :
    Shows (cs.foldl Page.after p) (execAll i k cs).machine.software.terminal := by
  induction cs generalizing k p with
  | nil => exact h
  | cons c cs ih =>
    obtain ⟨hc, hcs⟩ := not_or.mp (mt List.mem_cons.mpr hclear)
    obtain ⟨lines, hlines⟩ := hprints c List.mem_cons_self
    obtain ⟨rows, hrows, hlength⟩ := p.after_rows (Ne.symm hc)
    have hframed := exec_framed i k c
    rw [length_printedLines_cons, hlines.lines] at hroom
    rw [hlines.lines] at hlength
    refine ih hrun ((congrArg Rtc.rtcTicks hframed.rtc).trans hrtc) hcs
      (fun c hc => hprints c (List.mem_cons_of_mem _ hc))
      (exec_shows i (running_of_execAll i (c.exec i k) hrun) hrtc hlines h (by omega)) ?_
    rw [hrows, List.length_append, hlength]
    omega

/-- The line on the memory above one megabyte, from its size in kilobytes. -/
def memoryLine (memUpper : Uint32) : CString :=
  str "Available Memory: " ++ itoaString (memUpper / Kernel.memDivisor memUpper) (ch 'd').toInt ++
    Kernel.memSuffix memUpper ++ str " (" ++ itoaString memUpper (ch 'd').toInt ++ str "KB)"

/-- **The screen at the end of a boot.** -/
def bootLog (magic memUpper : Uint32) : List Row :=
  if magic ≠ multibootBootloaderMagic then
    [⟨VgaColor.lightRed.value, str "INVALID_MULTIBOOT NUMBER!"⟩]
  else
    ⟨VgaColor.lightBlue.value, str "FreeMicroNix Version 0.1"⟩ ::
    ([str "8254 PIT Initialized on channel 0", str "Global Descriptor Table Initialized",
      str "Task State Segment Initialized", str "Interrupt Descriptor Table Initialized",
      str "8259 PIC Successfully Initilialized", str "Interrupt Handlers Installed",
      memoryLine memUpper, str "Interrupts Enabled",
      str "Testing Programmable Interval Timer: Waiting 2 seconds", str "Waited 2 seconds",
      str "RTC Ticks: 0", str "Testing Internal PC Speaker",
      str "You will hear a beep if present", str "System Loaded"].map
      (Row.mk VgaColor.lightGrey.value))

/-- A decimal numeral is short, and printed as it is. -/
theorem decimal_line (val : Uint32) : (itoaString val (ch 'd').toInt).length ≤ 21 ∧
    ∀ c ∈ itoaString val (ch 'd').toInt, Printable c ∧ c ≠ ch '%' := by
  have hbase : Signed (ch 'd').toInt := Or.inl rfl
  have hdigit : ∀ d < 10, Printable (itoaDigit d) ∧ itoaDigit d ≠ ch '%' := by decide
  have hsize : (printed val).natAbs < 10 ^ (19 + 1) := by
    have hleast := BitVec.le_toInt val
    have hmost := BitVec.toInt_lt (x := val)
    unfold printed
    split <;> omega
  have hcount := (length_digitsUp_le (by decide) (printed val).natAbs 19).mpr hsize
  rw [itoaString_eq, numeral_decimal val hbase]
  constructor
  · rw [List.length_append, List.length_reverse, List.length_map]
    have hsign : (if printed val < 0 then [ch '-'] else []).length ≤ 1 := by
      split <;> decide
    omega
  · intro c hc
    rcases List.mem_append.mp hc with hc | hc
    · split at hc
      · rw [List.mem_singleton.mp hc]
        decide
      · exact absurd hc List.not_mem_nil
    · rw [List.mem_reverse] at hc
      obtain ⟨d, hd, rfl⟩ := List.mem_map.mp hc
      exact hdigit d (digitsUp_lt (by decide) hd)

/-- The unit. -/
theorem memSuffix_line (memUpper : Uint32) : (Kernel.memSuffix memUpper).length = 2 ∧
    ∀ c ∈ Kernel.memSuffix memUpper, Printable c ∧ c ≠ ch '%' := by
  unfold Kernel.memSuffix
  split
  · exact ⟨by decide, LineLiteral.chars (by decide)⟩
  · exact ⟨by decide, LineLiteral.chars (by decide)⟩

theorem memoryLine_short (memUpper : Uint32) : ShortLine (memoryLine memUpper) := by
  obtain ⟨hsuffix, hsuffixChars⟩ := memSuffix_line memUpper
  obtain ⟨hsize, hsizeChars⟩ := decimal_line (memUpper / Kernel.memDivisor memUpper)
  obtain ⟨htotal, htotalChars⟩ := decimal_line memUpper
  have hliteral : ∀ s : String, LineLiteral s = true → ∀ c ∈ str s, Printable c :=
    fun s hs c hc => (LineLiteral.chars hs c hc).1
  constructor
  · have hfirst : (str "Available Memory: ").length = 18 := by simp [str]
    have hsecond : (str " (").length = 2 := by simp [str]
    have hthird : (str "KB)").length = 3 := by simp [str]
    simp only [memoryLine, List.length_append, vgaWidth]
    omega
  · intro c hc
    simp only [memoryLine, List.mem_append] at hc
    rcases hc with ((((hc | hc) | hc) | hc) | hc) | hc
    · exact hliteral _ (by decide) c hc
    · exact (hsizeChars c hc).1
    · exact (hsuffixChars c hc).1
    · exact hliteral _ (by decide) c hc
    · exact (htotalChars c hc).1
    · exact hliteral _ (by decide) c hc

/-- The format of the report. -/
def memoryFormat : Format where
  pieces := [⟨str "Available Memory: ", ch 'd'⟩, ⟨[], ch 's'⟩, ⟨str " (", ch 'd'⟩]
  tail := joined [str "KB)"]
  labels := by
    intro piece hpiece
    simp only [List.mem_cons, List.not_mem_nil, or_false] at hpiece
    rcases hpiece with rfl | rfl | rfl
    · exact LineLiteral.verbatim (by decide)
    · exact fun _ hc => absurd hc List.not_mem_nil
    · exact LineLiteral.verbatim (by decide)
  directives := by
    intro piece hpiece
    simp only [List.mem_cons, List.not_mem_nil, or_false] at hpiece
    rcases hpiece with rfl | rfl | rfl <;> show (_ : CChar) ≠ 0 <;> decide
  verbatimTail := verbatim_joined fun line hline => by
    rw [List.mem_singleton.mp hline]
    exact LineLiteral.verbatim (by decide)

/-- Both numbers of the report fit into the buffer. -/
theorem report_fits {k₀ : Kernel} {mbi : MultibootInfo} (hboot : k₀.AtBoot mbi) :
    ItoaCall.kprintfD.Fits (mbi.memUpper / Kernel.memDivisor mbi.memUpper) ∧
      ItoaCall.kprintfD.Fits mbi.memUpper := by
  refine ⟨?_, hboot.fits⟩
  unfold Kernel.memDivisor
  split
  · intro hleast
    have hnat := congrArg BitVec.toNat hleast
    have hmin : (BitVec.intMin 32).toNat = 2147483648 := by decide
    have hthousand : (1000 : Uint32).toNat = 1000 := rfl
    rw [BitVec.toNat_udiv, hmin, hthousand] at hnat
    have hbound := mbi.memUpper.isLt
    omega
  · have hone : mbi.memUpper / 1 = mbi.memUpper := BitVec.udiv_one
    rw [hone]
    exact hboot.fits

/-- The report on the memory is a line. -/
theorem memory_prints (memUpper : Uint32) :
    (Command.kprintf (str "Available Memory: %d%s (%dKB)\n") (Kernel.memSuffix memUpper)
      [.word (memUpper / Kernel.memDivisor memUpper), .word 1, .word memUpper]).Prints
      [memoryLine memUpper] := by
  have hsuffix : expandWord (fun _ => Kernel.memSuffix memUpper) (ch 's') 1
      = Kernel.memSuffix memUpper := by
    show (Kernel.memSuffix memUpper).takeWhile (· ≠ 0) = _
    exact takeWhile_whole fun c hc => ((memSuffix_line memUpper).2 c hc).1.plain.ne_zero
  refine format_prints memoryFormat ?_ rfl ?_ fun line hline => ?_
  · simp [str, joined, memoryFormat, Format.bytes, bytesOf]
  · show weave [str "Available Memory: ", [], str " ("]
      [itoaString (memUpper / Kernel.memDivisor memUpper) (ch 'd').toInt,
        expandWord (fun _ => Kernel.memSuffix memUpper) (ch 's') 1,
        itoaString memUpper (ch 'd').toInt] ++ joined [str "KB)"] = joined [memoryLine memUpper]
    rw [hsuffix]
    simp only [weave_cons, memoryLine, joined, List.flatMap_cons, List.flatMap_nil,
      List.append_nil, List.append_assoc, List.nil_append]
    rfl
  · rw [List.mem_singleton.mp hline]
    exact memoryLine_short memUpper

/-- The format of the report on the clock. -/
def ticksFormat : Format where
  pieces := [⟨str "RTC Ticks: ", ch 'd'⟩]
  tail := joined [[]]
  labels := by
    intro piece hpiece
    rw [List.mem_singleton.mp hpiece]
    exact LineLiteral.verbatim (by decide)
  directives := by
    intro piece hpiece
    rw [List.mem_singleton.mp hpiece]
    show ch 'd' ≠ 0
    decide
  verbatimTail := verbatim_joined fun line hline => by
    rw [List.mem_singleton.mp hline]
    exact fun _ hc => absurd hc List.not_mem_nil

/-- The clock's ticks, before anything counts them. -/
theorem ticks_prints :
    (Command.kprintf (str "RTC Ticks: %d\n") [] [.getRtcTicks]).Prints [str "RTC Ticks: 0"] := by
  have hzero : itoaString 0 (ch 'd').toInt = [ch '0'] := by
    rw [itoaString_eq, numeral_decimal 0 (Or.inl rfl)]
    decide
  refine format_prints ticksFormat ?_ rfl ?_ fun line hline => ?_
  · simp [str, joined, ticksFormat, Format.bytes, bytesOf]
  · show weave [str "RTC Ticks: "] [itoaString 0 (ch 'd').toInt] ++ joined [[]] = _
    rw [hzero]
    simp [str, joined, weave]
  · rw [List.mem_singleton.mp hline]
    exact LineLiteral.short (by decide)

/-- What the commands up to `sti` print. -/
theorem setup_prints (i : KernelImage) (mbi : MultibootInfo) :
    List.Forall₂ Prints (commands (Kernel.setup i mbi))
      [[], [], [str "FreeMicroNix Version 0.1"], [], [], [],
        [str "8254 PIT Initialized on channel 0"],
        [str "Global Descriptor Table Initialized", str "Task State Segment Initialized"],
        [str "Interrupt Descriptor Table Initialized"],
        [str "8259 PIC Successfully Initilialized", str "Interrupt Handlers Installed"],
        [], [memoryLine mbi.memUpper], [str "Interrupts Enabled"]] :=
  .cons (prints_nothing rfl nofun) <| .cons (prints_nothing rfl nofun) <|
  .cons (line_prints _ _ (by simp [str, joined]) (by decide)) <|
  .cons (prints_nothing rfl nofun) <| .cons (prints_nothing rfl nofun) <|
  .cons (prints_nothing rfl nofun) <|
  .cons (line_prints _ _ (by simp [str, joined]) (by decide)) <|
  .cons initializeGdt_prints <| .cons installIdt_prints <|
  .cons interruptHandlerInstaller_prints <| .cons (prints_nothing rfl nofun) <|
  .cons (memory_prints mbi.memUpper) <|
  .cons (line_prints _ _ (by simp [str, joined]) (by decide)) .nil

/-- What they print from there on. -/
theorem demonstration_prints :
    List.Forall₂ Prints (commands (.act .enableInterrupts :: Kernel.demonstration))
      [[], [str "Testing Programmable Interval Timer: Waiting 2 seconds"],
        [str "Waited 2 seconds"], [str "RTC Ticks: 0"],
        [str "Testing Internal PC Speaker", str "You will hear a beep if present"], [], [], [], [],
        [], [], [str "System Loaded"]] :=
  .cons (prints_nothing rfl nofun) <|
  .cons (line_prints _ _ (by simp [str, joined]) (by decide)) <|
  .cons (line_prints _ _ (by simp [str, joined]) (by decide)) <| .cons ticks_prints <|
  .cons (kprintf_prints ["Testing Internal PC Speaker", "You will hear a beep if present"]
    (by simp [str, joined]) (by decide)) <|
  .cons (prints_nothing rfl nofun) <| .cons (prints_nothing rfl nofun) <|
  .cons (prints_nothing rfl nofun) <| .cons (prints_nothing rfl nofun) <|
  .cons (prints_nothing rfl nofun) <| .cons (prints_nothing rfl nofun) <|
  .cons (line_prints _ _ (by simp [str, joined]) (by decide)) .nil

theorem rejected_prints :
    List.Forall₂ Prints (commands Kernel.rejected)
      [[], [], [str "INVALID_MULTIBOOT NUMBER!"], [], []] :=
  .cons (prints_nothing rfl nofun) <| .cons (prints_nothing rfl nofun) <|
  .cons (line_prints _ _ (by simp [str, joined]) (by decide)) <|
  .cons (prints_nothing rfl nofun) <| .cons (prints_nothing rfl nofun) .nil

/-- Every command of `kmain` prints lines. -/
theorem kmain_prints (i : KernelImage) (magic : Uint32) (mbi : MultibootInfo) :
    ∀ c ∈ commands (Kernel.kmain i magic mbi), ∃ lines, c.Prints lines := by
  have heach : ∀ {cs : List Command} {texts : List (List CString)}, List.Forall₂ Prints cs texts →
      ∀ c ∈ cs, ∃ lines, c.Prints lines := by
    intro cs texts h
    induction h with
    | nil => exact fun c hc => absurd hc List.not_mem_nil
    | cons hc _ ih => exact List.forall_mem_cons.mpr ⟨⟨_, hc⟩, ih⟩
  unfold Kernel.kmain
  by_cases hmagic : magic = multibootBootloaderMagic
  · rw [if_neg (not_not_intro hmagic), commands_append]
    exact heach (List.rel_append (setup_prints i mbi) demonstration_prints)
  · rw [if_pos hmagic]
    exact heach rejected_prints

/-- The screen after a command, from the lines it prints. -/
def Page.afterLines (p : Page) (c : Command) (lines : List CString) : Page :=
  match c with
  | .initializeTerminal => .empty
  | .terminalSetColor color => { p with color := color.value }
  | _ => p.printlns lines

theorem Command.Prints.after {c : Command} {lines : List CString} (h : c.Prints lines) (p : Page) :
    p.after c = p.afterLines c lines := by
  have hlines := h.lines
  cases c with
  | initializeTerminal => rfl
  | terminalSetColor color => rfl
  | _ => exact congrArg p.printlns hlines

/-- Some commands, from the lines each of them prints. -/
theorem foldl_after {cs : List Command} {texts : List (List CString)}
    (h : List.Forall₂ Prints cs texts) (p : Page) :
    cs.foldl Page.after p = (cs.zip texts).foldl (fun p ct => p.afterLines ct.1 ct.2) p ∧
      printedLines cs = texts.flatten := by
  induction h generalizing p with
  | nil => exact ⟨rfl, rfl⟩
  | @cons c lines cs texts hc _ ih =>
    obtain ⟨hpage, hlines⟩ := ih (p.after c)
    rw [hc.after p] at hpage
    constructor
    · rw [List.foldl_cons, hc.after p]
      exact hpage
    · rw [printedLines, List.flatMap_cons, hc.lines, List.flatten_cons, ← hlines]
      rfl

/-- **The screen of the whole program**, and the number of its lines. -/
theorem pageOf_kmain (i : KernelImage) (magic : Uint32) (mbi : MultibootInfo) :
    (pageOf (commands (Kernel.kmain i magic mbi))).rows = bootLog magic mbi.memUpper ∧
      (printedLines (commands (Kernel.kmain i magic mbi))).length ≤ vgaHeight := by
  unfold Kernel.kmain bootLog pageOf
  by_cases hmagic : magic = multibootBootloaderMagic
  · rw [if_neg (not_not_intro hmagic), if_neg (not_not_intro hmagic), commands_append]
    have hall := List.rel_append (setup_prints i mbi) demonstration_prints
    obtain ⟨hpage, hlines⟩ := foldl_after hall .empty
    rw [hpage, hlines]
    exact ⟨rfl, show 15 ≤ 25 by decide⟩
  · rw [if_pos hmagic, if_pos hmagic]
    obtain ⟨hpage, hlines⟩ := foldl_after rejected_prints .empty
    rw [hpage, hlines]
    exact ⟨rfl, by decide⟩

/-! ## Every run -/

/-- **The screen between two statements**, without interrupts. -/
theorem execAll_log (i : KernelImage) {k₀ : Kernel} {mbi : MultibootInfo} (hboot : k₀.AtBoot mbi)
    {magic : Uint32} {pre rest : List (Stmt Command Uint64)} (hpre : pre ≠ [])
    (hsplit : Kernel.kmain i magic mbi = pre ++ rest) :
    Shows (pageOf (commands pre)) (execAll i k₀ (commands pre)).machine.software.terminal ∧
      (pageOf (commands pre)).rows <+: bootLog magic mbi.memUpper ∧
      (rest = [] → (pageOf (commands pre)).rows = bootLog magic mbi.memUpper) := by
  have hrun : (execAll i k₀ (commands pre)).Running :=
    execAll_passes i k₀ hboot.running.1 fun c hc =>
      hboot.passes i magic c ((commands_split hsplit).subset hc)
  obtain ⟨program, hclear, honly⟩ := kmain_clears i magic mbi
  obtain ⟨hlog, hroom⟩ := pageOf_kmain i magic mbi
  have hprints := kmain_prints i magic mbi
  obtain ⟨stmt, pre, rfl⟩ := List.exists_cons_of_ne_nil hpre
  rw [List.cons_append, hclear] at hsplit
  obtain ⟨rfl, rfl⟩ := List.cons.inj hsplit
  have hcommands : commands (Kernel.kmain i magic mbi)
      = .initializeTerminal :: (commands pre ++ commands rest) := by
    rw [hclear, ← commands_append]
    rfl
  rw [commands_append] at honly
  rw [hcommands] at hlog hroom hprints
  have hbefore : .initializeTerminal ∉ commands pre :=
    fun hmem => honly (List.mem_append_left _ hmem)
  have hbehind : .initializeTerminal ∉ commands rest :=
    fun hmem => honly (List.mem_append_right _ hmem)
  refine ⟨?_, ?_, ?_⟩
  · have hlines : (printedLines (commands pre)).length ≤ vgaHeight := by
      refine Nat.le_trans ?_ hroom
      rw [length_printedLines_cons, printedLines, printedLines, List.flatMap_append,
        List.length_append]
      exact Nat.le_trans (Nat.le_add_right _ _) (Nat.le_add_left _ _)
    have hfirst : Shows .empty (Command.exec i .initializeTerminal k₀).machine.software.terminal := by
      rw [(exec_eq_run i (running_of_execAll i _ hrun)).2]
      exact Shows.empty _
    have hframed := exec_framed i k₀ .initializeTerminal
    have hrest : Shows ((commands pre).foldl Page.after .empty)
        (execAll i (Command.exec i .initializeTerminal k₀)
          (commands pre)).machine.software.terminal :=
      execAll_shows i hrun ((congrArg Rtc.rtcTicks hframed.rtc).trans hboot.rtcTicks) hbefore
        (fun c hc => hprints c (List.mem_cons_of_mem _ (List.mem_append_left _ hc))) hfirst
        (Nat.le_trans (Nat.le_of_eq (Nat.zero_add _)) hlines)
    exact hrest
  · obtain ⟨rows, hall, -⟩ :=
      Page.foldl_after_rows hbehind (pageOf (.initializeTerminal :: commands pre))
    rw [pageOf, ← List.foldl_append, List.cons_append] at hall
    rw [← hlog]
    exact ⟨rows, hall.symm⟩
  · rintro rfl
    rw [← hlog]
    exact congrArg (fun cs => (pageOf (.initializeTerminal :: cs)).rows) (List.append_nil _).symm

/-- **What the screen shows.**  After every run that has begun, however interrupts have cut into it,
    the screen shows the lines of the statements done so far: a part of the boot's log from its
    beginning, and at the end of `kmain` all of it. -/
theorem kmain_log (i : KernelImage) {k₀ : Kernel} {mbi : MultibootInfo} (hboot : k₀.AtBoot mbi)
    (magic : Uint32) (events : List (Event Arrival)) :
    let t := kernelRun i k₀ magic mbi events
    t.rest = Kernel.kmain i magic mbi ∨
      ∃ pre, Kernel.kmain i magic mbi = pre ++ t.rest ∧
        Shows (pageOf (commands pre)) t.state.machine.software.terminal ∧
        (pageOf (commands pre)).rows <+: bootLog magic mbi.memUpper ∧
        (t.rest = [] → (pageOf (commands pre)).rows = bootLog magic mbi.memUpper) := by
  intro t
  obtain ⟨pre, hsplit, hstill⟩ := still_run i hboot magic events
  by_cases hpre : pre = []
  · rw [hpre] at hsplit
    exact Or.inl hsplit.symm
  · obtain ⟨hshows, hpart, hend⟩ := execAll_log i hboot hpre hsplit
    have hterminal := congrArg (fun k : Kernel => k.machine.software.terminal) hstill
    exact Or.inr ⟨pre, hsplit, hterminal ▸ hshows, hpart, hend⟩

/-- A boot with 64 megabytes, with the timer's first interrupt. -/
theorem kmain_log_cold :
    let t := kernelRun linkedKernel (coldKernel 0xB8) multibootBootloaderMagic coldInfo
      coldEvents
    t.rest = Kernel.kmain linkedKernel multibootBootloaderMagic coldInfo ∨
      ∃ pre, Kernel.kmain linkedKernel multibootBootloaderMagic coldInfo = pre ++ t.rest ∧
        Shows (pageOf (commands pre)) t.state.machine.software.terminal ∧
        (pageOf (commands pre)).rows <+: bootLog multibootBootloaderMagic 0xFC00 ∧
        (t.rest = [] → (pageOf (commands pre)).rows = bootLog multibootBootloaderMagic 0xFC00) :=
  kmain_log linkedKernel (coldKernel_atBoot 0xB8) multibootBootloaderMagic coldEvents

end FreeMicroNix
