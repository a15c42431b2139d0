/-
  What `Exception_Handler` shows of the context before it panics.

  The handler makes four calls of `kprintf`.  Three pass a word for each of their conversions; the
  last, whose labels are eip, eflags and useresp, passes none and prints what lies on the stack.
  And `%x` goes through an `int`: a word from 2^31 on is printed sign-extended to 64 bits.

  1. The calls and their text: `dumpText` is what the four formats expand to with the words the
     calls take, and the handler puts exactly that (`exceptionHandler_prints`).
  2. The text as labelled fields: a hexadecimal numeral behind each label (`dumpText_eq`), from
     which the words can be read back (`dumpText_inj`).
  3. What was meant: the fifteen fields of the context as 32-bit numbers (`meantText`), and how far
     the text is from it (`exceptionDump_unfaithful`).
-/
import FreeMicroNix.Isa.Dispatch
import FreeMicroNix.Video.Formats

namespace FreeMicroNix

open LabelledText

variable {σ : Type}

/-! ## The calls -/

/-- A conversion to hexadecimal behind its label. -/
def hexPiece (label : CString) : Piece := ⟨label, ch 'x'⟩

/-- `"Exception %x: %s (code %x)\n"` -/
def exceptionFormat : Format where
  pieces := [hexPiece (str "Exception "), ⟨str ": ", ch 's'⟩, hexPiece (str " (code ")]
  tail := str ")\n"
  labels := by simp [hexPiece, Verbatim, str, ch]
  directives := by simp [hexPiece, ch]
  verbatimTail := by simp [Verbatim, str, ch]

/-- A format of such conversions, with nothing behind the last. -/
def hexFormat (labels : List CString) (hlabels : ∀ label ∈ labels, Verbatim label) : Format where
  pieces := labels.map hexPiece
  tail := []
  labels := by
    intro piece hpiece
    obtain ⟨label, hlabel, rfl⟩ := List.mem_map.mp hpiece
    exact hlabels label hlabel
  directives := by
    intro piece hpiece
    obtain ⟨label, -, rfl⟩ := List.mem_map.mp hpiece
    exact (show ch 'x' ≠ 0 by decide)
  verbatimTail := fun c hc => absurd hc List.not_mem_nil

/-- `"\nDumping Segment Registers:\n cs: %x ss: %x ds: %x"` -/
def segmentFormat : Format :=
  hexFormat [str "\nDumping Segment Registers:\n cs: ", str " ss: ", str " ds: "]
    (by simp [Verbatim, str, ch])

/-- `"\nDumping General Purpose Registers:\n edi: %x …"` -/
def generalFormat : Format :=
  hexFormat [str "\nDumping General Purpose Registers:\n edi: ", str " esi: ", str " ebp: ",
      str " ebx: ", str " edx: ", str " ecx: ", str " eax: "]
    (by simp [Verbatim, str, ch])

/-- `"\nDumping Other Registers:\n eip: %x eflags: %x useresp: %x"` -/
def otherFormat : Format :=
  hexFormat [str "\nDumping Other Registers:\n eip: ", str " eflags: ", str " useresp: "]
    (by simp [Verbatim, str, ch])

/-- One call of `kprintf`: its format, and the words passed behind it. -/
structure DumpCall where
  format : Format
  args : List Uint32

/-- The message of an exception. -/
def dumpMessage (ctx : InterruptContext) : CString := exceptionMessages.getD ctx.intNo.toNat []

/-- What `%s` prints of it. -/
def messageText (ctx : InterruptContext) : CString := (dumpMessage ctx).takeWhile (· ≠ 0)

/-- The calls of `Exception_Handler`, in order. -/
def dumpCalls (ctx : InterruptContext) : List DumpCall :=
  [⟨exceptionFormat, [ctx.intNo, 1, ctx.errCode]⟩,
    ⟨segmentFormat, [ctx.cs, ctx.ss, ctx.ds]⟩,
    ⟨generalFormat, [ctx.edi, ctx.esi, ctx.ebp, ctx.ebx, ctx.edx, ctx.ecx, ctx.eax]⟩,
    ⟨otherFormat, []⟩]

namespace DumpCall

/-- The call, with the stack above its arguments. -/
def print (call : DumpCall) (message : CString) (stray : Nat → Uint32) (t : Terminal) : Terminal :=
  kprintf t (fun _ => message) call.format.bytes (kprintfWords call.args stray)

/-- Its text: the format with the words it takes. -/
def text (call : DumpCall) (message : CString) (stray : Nat → Uint32) : CString :=
  expand (fun _ => message) call.format.bytes
    (wordsTaken call.format.bytes (kprintfWords call.args stray))

/-- It reads no word but those passed. -/
def StaysWithin (call : DumpCall) (message : CString) : Prop :=
  ∀ t, (kprintfFrom (fun _ => message) call.args t 0 (call.format.bytes ++ [0])).isSome

theorem staysWithin_iff (call : DumpCall) (message : CString) :
    call.StaysWithin message ↔ call.format.pieces.length ≤ call.args.length := by
  have hiff := fun t => kprintfFrom_isSome_iff (fun _ => message) call.args
    call.format.bytes_ne_zero t
  rw [call.format.conversions_bytes] at hiff
  exact ⟨fun h => (hiff coldTerminal).mp (h coldTerminal), fun h t => (hiff t).mpr h⟩

end DumpCall

/-- The text of the dump. -/
def dumpText (stray : Nat → Uint32) (ctx : InterruptContext) : CString :=
  (dumpCalls ctx).flatMap fun call => call.text (dumpMessage ctx) stray

theorem exceptionFormat_bytes : str "Exception %x: %s (code %x)\n" = exceptionFormat.bytes := by
  simp [Format.bytes, exceptionFormat, hexPiece, bytesOf, str]

theorem segmentFormat_bytes :
    str "\nDumping Segment Registers:\n cs: %x ss: %x ds: %x" = segmentFormat.bytes := by
  simp [Format.bytes, segmentFormat, hexFormat, hexPiece, bytesOf, str]

theorem generalFormat_bytes : str
      "\nDumping General Purpose Registers:\n edi: %x esi: %x ebp: %x ebx: %x edx: %x ecx: %x eax: %x"
    = generalFormat.bytes := by
  simp [Format.bytes, generalFormat, hexFormat, hexPiece, bytesOf, str]

theorem otherFormat_bytes :
    str "\nDumping Other Registers:\n eip: %x eflags: %x useresp: %x" = otherFormat.bytes := by
  simp [Format.bytes, otherFormat, hexFormat, hexPiece, bytesOf, str]

/-- The handler is its four calls, and `panic`. -/
theorem exceptionHandler_calls (image : Image σ) (m : Machine σ) {ctx : InterruptContext}
    (hint : ctx.intNo < 32) :
    exceptionHandler image m ctx =
      panicHalt { m with
        software := { m.software with
          terminal := (dumpCalls ctx).foldl
            (fun t call => call.print (dumpMessage ctx) image.stray t)
            (terminalSetColor m.software.terminal .lightRed) } } := by
  rw [exceptionHandler, if_pos hint]
  dsimp only
  rw [exceptionFormat_bytes, segmentFormat_bytes, generalFormat_bytes, otherFormat_bytes]
  rfl

/-- It never looks at the three fields the last call names. -/
theorem exceptionHandler_ignores (image : Image σ) (m : Machine σ) (ctx : InterruptContext)
    (eip eflags useresp : Uint32) :
    exceptionHandler image m { ctx with eip := eip, eflags := eflags, useresp := useresp }
      = exceptionHandler image m ctx := rfl

/-- Calls in a row print their texts in a row. -/
theorem print_calls (message : CString) (stray : Nat → Uint32) (calls : List DumpCall) :
    ∀ t u, EqualButPorts t u →
      EqualButPorts (calls.foldl (fun t call => call.print message stray t) t)
        ((calls.flatMap fun call => call.text message stray).foldl terminalPutch u) := by
  induction calls with
  | nil => exact fun _ _ hequal => hequal
  | cons call calls ih =>
    intro t u hequal
    have hfirst := (kprintf_text (fun _ => message) (kprintfWords call.args stray)
      call.format.bytes_ne_zero hequal).2
    rw [List.foldl_cons, List.flatMap_cons, List.foldl_append]
    exact ih _ _ hfirst

/-- **The handler prints the text of the dump**, and then that it panics. -/
theorem exceptionHandler_prints (image : Image σ) (m : Machine σ) {ctx : InterruptContext}
    (hint : ctx.intNo < 32) :
    EqualButPorts (exceptionHandler image m ctx).software.terminal
      ((dumpText image.stray ctx ++ str "\nKernel Panic!\n").foldl terminalPutch
        (terminalSetColor m.software.terminal .lightRed)) := by
  have hplain : Verbatim (str "\nKernel Panic!\n") := by simp [Verbatim, str, ch]
  have hdump := print_calls (dumpMessage ctx) image.stray (dumpCalls ctx) _ _
    (.refl (terminalSetColor m.software.terminal .lightRed))
  have hpanic := (kprintf_text (fun _ => []) (fun _ => 0) (fun c hc => (hplain c hc).1) hdump).2
  rw [expand_verbatim _ hplain] at hpanic
  rw [exceptionHandler_calls image m hint, List.foldl_append]
  exact hpanic

/-! ## The text as labelled fields -/

/-- The words the handler passes for a numeral, in order. -/
def passedWords (ctx : InterruptContext) : List Uint32 :=
  [ctx.intNo, ctx.errCode, ctx.cs, ctx.ss, ctx.ds, ctx.edi, ctx.esi, ctx.ebp, ctx.ebx, ctx.edx,
    ctx.ecx, ctx.eax]

/-- The words printed as a numeral: the last three come from the stack. -/
def printedWords (stray : Nat → Uint32) (ctx : InterruptContext) : List Uint32 :=
  passedWords ctx ++ [stray 0, stray 1, stray 2]

/-- The labels, each up to the numeral behind it; the message stands in the second. -/
def dumpLabels (message : CString) : List CString :=
  [str "Exception ", str ": " ++ (message ++ str " (code "),
    str ")\n" ++ str "\nDumping Segment Registers:\n cs: ", str " ss: ", str " ds: ",
    str "\nDumping General Purpose Registers:\n edi: ", str " esi: ", str " ebp: ", str " ebx: ",
    str " edx: ", str " ecx: ", str " eax: ",
    str "\nDumping Other Registers:\n eip: ", str " eflags: ", str " useresp: "]

/-- A digit of a numeral. -/
def IsHexDigit (c : CChar) : Prop := c ∈ str "0123456789ABCDEF"

/-- The text of a word under `%x`: it passes through an `int`. -/
theorem expandWord_hex (strAt : Uint32 → CString) (w : Uint32) :
    expandWord strAt (ch 'x') w = hexNumeral (w.signExtend 64).toNat := by
  have hletter : (ch 'x').toInt = 120 := by decide
  rw [expandWord, if_pos (by decide), hletter, itoaString_hex]

/-- **The text of the dump** is a numeral behind each label. -/
theorem dumpText_eq (stray : Nat → Uint32) (ctx : InterruptContext) :
    dumpText stray ctx = weave (dumpLabels (messageText ctx))
      ((printedWords stray ctx).map fun w => hexNumeral (w.signExtend 64).toNat) := by
  have hmessage : expandWord (fun _ => dumpMessage ctx) (ch 's') 1 = messageText ctx := rfl
  -- the four texts, as the expansion gives them
  have hcalls : dumpText stray ctx =
      let hex := expandWord (fun _ => dumpMessage ctx) (ch 'x')
      (weave [str "Exception ", str ": ", str " (code "]
          [hex ctx.intNo, expandWord (fun _ => dumpMessage ctx) (ch 's') 1, hex ctx.errCode]
        ++ str ")\n") ++
      ((weave [str "\nDumping Segment Registers:\n cs: ", str " ss: ", str " ds: "]
        [hex ctx.cs, hex ctx.ss, hex ctx.ds] ++ []) ++
      ((weave [str "\nDumping General Purpose Registers:\n edi: ", str " esi: ", str " ebp: ",
          str " ebx: ", str " edx: ", str " ecx: ", str " eax: "]
        [hex ctx.edi, hex ctx.esi, hex ctx.ebp, hex ctx.ebx, hex ctx.edx, hex ctx.ecx,
          hex ctx.eax] ++ []) ++
      ((weave [str "\nDumping Other Registers:\n eip: ", str " eflags: ", str " useresp: "]
        [hex (stray 0), hex (stray 1), hex (stray 2)] ++ []) ++ []))) := by
    simp only [dumpText, dumpCalls, List.flatMap_cons, List.flatMap_nil, DumpCall.text,
      Format.expand_words]
    rfl
  rw [hcalls, hmessage]
  simp only [expandWord_hex, dumpLabels, printedWords, passedWords, List.cons_append,
    List.nil_append, List.append_nil, List.map_cons, List.map_nil, weave_cons, weave_nil_left,
    List.append_assoc]

/-! ## Reading it back -/

theorem dumpLabels_delimit (message : CString) :
    ∀ label ∈ (dumpLabels message).tail, Delimits IsHexDigit label := by
  simp [dumpLabels, Delimits, IsHexDigit, str, ch]

theorem numerals_hex (words : List Uint32) (f : Uint32 → Nat) :
    ∀ field ∈ words.map fun w => hexNumeral (f w), ∀ c ∈ field, IsHexDigit c := by
  intro field hfield c hc
  obtain ⟨w, -, rfl⟩ := List.mem_map.mp hfield
  exact mem_hexNumeral hc

/-- The dump with the same labels: the numerals decide. -/
theorem dump_fields {message : CString} {words words' : List Uint32} {f g : Uint32 → Nat}
    (hlen : words.length = 15) (hlen' : words'.length = 15) :
    weave (dumpLabels message) (words.map fun w => hexNumeral (f w))
        = weave (dumpLabels message) (words'.map fun w => hexNumeral (g w)) ↔
      words.map f = words'.map g := by
  have hlists : ∀ (words : List Uint32) (f : Uint32 → Nat),
      (words.map fun w => hexNumeral (f w)) = (words.map f).map hexNumeral := by
    intro words f
    rw [List.map_map]
    rfl
  constructor
  · intro h
    have hfields := weave_inj (dumpLabels_delimit message) (numerals_hex words f)
      (numerals_hex words' g) (by rw [List.length_map, hlen]; rfl)
      (by rw [List.length_map, hlen']; rfl) h
    rw [hlists, hlists] at hfields
    exact (List.map_inj_right fun _ _ => hexNumeral_inj.mp).mp hfields
  · intro h
    rw [hlists, hlists, h]

/-- The first label, the first numeral, and the rest. -/
theorem dumpText_first (stray : Nat → Uint32) (ctx : InterruptContext) :
    dumpText stray ctx = str "Exception " ++ (hexNumeral (ctx.intNo.signExtend 64).toNat ++
      weave (dumpLabels (messageText ctx)).tail
        ((printedWords stray ctx).tail.map fun w => hexNumeral (w.signExtend 64).toNat)) := by
  rw [dumpText_eq]
  rfl

/-- **The dump determines the words printed**, and no more. -/
theorem dumpText_inj (stray stray' : Nat → Uint32) (ctx ctx' : InterruptContext) :
    dumpText stray' ctx' = dumpText stray ctx ↔
      printedWords stray' ctx' = printedWords stray ctx := by
  have hsame : ctx'.intNo = ctx.intNo →
      (dumpText stray' ctx' = dumpText stray ctx ↔
        printedWords stray' ctx' = printedWords stray ctx) := by
    intro hint
    have hmessage : messageText ctx' = messageText ctx := by
      unfold messageText dumpMessage
      rw [hint]
    rw [dumpText_eq, dumpText_eq, hmessage, dump_fields rfl rfl]
    exact List.map_inj_right fun _ _ => signExtend_inj.mp
  constructor
  · intro h
    -- the numeral of `int_no` stands before the message that depends on it
    have htext := h
    rw [dumpText_first, dumpText_first] at htext
    have hfirst := field_split (fun c => mem_hexNumeral) (fun c => mem_hexNumeral)
      (stops_weave (dumpLabels_delimit _) _) (stops_weave (dumpLabels_delimit _) _)
      (List.append_cancel_left htext)
    exact (hsame (signExtend_inj.mp (hexNumeral_inj.mp hfirst.1))).mp h
  · intro h
    exact (hsame (List.head_eq_of_cons_eq h)).mpr h

/-! ## What was meant -/

/-- The fields the dump names, in its order. -/
def shownFields (ctx : InterruptContext) : List Uint32 :=
  passedWords ctx ++ [ctx.eip, ctx.eflags, ctx.useresp]

/-- The labels with each field as a 32-bit number. -/
def meantText (ctx : InterruptContext) : CString :=
  weave (dumpLabels (messageText ctx)) ((shownFields ctx).map fun w => hexNumeral w.toNat)

/-- The dump can be trusted. -/
structure DumpFaithful (image : Image σ) (ctx : InterruptContext) : Prop where
  /-- It shows the fields of the context. -/
  shows : dumpText image.stray ctx = meantText ctx
  /-- Contexts that differ in a field give different dumps. -/
  separates : ∀ ctx' : InterruptContext, ctx'.intNo < 32 →
    dumpText image.stray ctx' = dumpText image.stray ctx → shownFields ctx' = shownFields ctx
  /-- No word is read but those passed. -/
  within : ∀ call ∈ dumpCalls ctx, call.StaysWithin (dumpMessage ctx)

/-- Two lists under maps that agree on equal elements with a property. -/
theorem map_eq_map_iff {α β : Type} {f g : α → β} {R : α → Prop}
    (hpoint : ∀ x y, f x = g y ↔ x = y ∧ R y) (xs ys : List α) :
    xs.map f = ys.map g ↔ xs = ys ∧ ∀ y ∈ ys, R y := by
  induction xs generalizing ys with
  | nil =>
    cases ys with
    | nil => simp
    | cons y ys => simp
  | cons x xs ih =>
    cases ys with
    | nil => simp
    | cons y ys =>
      rw [List.map_cons, List.map_cons, List.cons.injEq, List.cons.injEq, hpoint, ih,
        List.forall_mem_cons]
      exact and_and_and_comm

/-- **The text is the one meant** when the three words on the stack are the missing fields, and no
    field has its top bit set. -/
theorem dumpText_eq_meantText_iff (stray : Nat → Uint32) (ctx : InterruptContext) :
    dumpText stray ctx = meantText ctx ↔
      printedWords stray ctx = shownFields ctx ∧ ∀ w ∈ shownFields ctx, w.toNat < 2 ^ 31 := by
  rw [dumpText_eq, meantText, dump_fields rfl rfl]
  exact map_eq_map_iff (fun _ _ => signExtend_eq_iff) _ _

/-- The calls that pass arguments pass one for each conversion; the last passes none for three. -/
theorem dumpCalls_stayWithin_iff (ctx : InterruptContext) :
    ∀ call ∈ dumpCalls ctx, call.StaysWithin (dumpMessage ctx) ↔ call.args ≠ [] := by
  intro call hcall
  rw [DumpCall.staysWithin_iff]
  simp only [dumpCalls, List.mem_cons, List.not_mem_nil, or_false] at hcall
  rcases hcall with rfl | rfl | rfl | rfl
  · exact iff_of_true (Nat.le_refl 3) (List.cons_ne_nil _ _)
  · exact iff_of_true (Nat.le_refl 3) (List.cons_ne_nil _ _)
  · exact iff_of_true (Nat.le_refl 7) (List.cons_ne_nil _ _)
  · exact iff_of_false (show ¬ 3 ≤ 0 by decide) fun hne => hne rfl

/-- **The dump is never to be trusted.**  For every exception the last of the four calls reads
    three words that were not passed.  The handler prints `dumpText`, which shows the fields
    exactly when those words happen to be eip, eflags and useresp and no field is negative as an
    `int`; two dumps are equal exactly when the twelve fields passed and the three words read are;
    and what the handler does depends on none of the three fields that its last line names. -/
theorem exceptionDump_unfaithful (image : Image σ) (m : Machine σ) {ctx : InterruptContext}
    (hint : ctx.intNo < 32) :
    ¬ DumpFaithful image ctx ∧
    EqualButPorts (exceptionHandler image m ctx).software.terminal
      ((dumpText image.stray ctx ++ str "\nKernel Panic!\n").foldl terminalPutch
        (terminalSetColor m.software.terminal .lightRed)) ∧
    (∀ call ∈ dumpCalls ctx, call.StaysWithin (dumpMessage ctx) ↔ call.args ≠ []) ∧
    (dumpText image.stray ctx = meantText ctx ↔
      printedWords image.stray ctx = shownFields ctx ∧
        ∀ w ∈ shownFields ctx, w.toNat < 2 ^ 31) ∧
    (∀ stray' ctx', dumpText stray' ctx' = dumpText image.stray ctx ↔
      printedWords stray' ctx' = printedWords image.stray ctx) ∧
    ∀ eip eflags useresp,
      exceptionHandler image m { ctx with eip := eip, eflags := eflags, useresp := useresp }
        = exceptionHandler image m ctx := by
  refine ⟨?_, exceptionHandler_prints image m hint, dumpCalls_stayWithin_iff ctx,
    dumpText_eq_meantText_iff _ ctx, fun stray' ctx' => dumpText_inj _ stray' ctx ctx',
    exceptionHandler_ignores image m ctx⟩
  intro hfaithful
  have hlast : (⟨otherFormat, []⟩ : DumpCall) ∈ dumpCalls ctx :=
    List.mem_cons_of_mem _ (List.mem_cons_of_mem _ (List.mem_cons_of_mem _ List.mem_cons_self))
  exact (dumpCalls_stayWithin_iff ctx _ hlast).mp (hfaithful.within _ hlast) rfl

/-- A page fault, raised at 0x100000. -/
def pageFaultContext : InterruptContext := { zeroContext 14 with eip := 0x100000 }

theorem exceptionDump_unfaithful_pageFault :
    ¬ DumpFaithful quietImage pageFaultContext ∧
    EqualButPorts (exceptionHandler quietImage idleMachine pageFaultContext).software.terminal
      ((dumpText quietImage.stray pageFaultContext ++ str "\nKernel Panic!\n").foldl terminalPutch
        (terminalSetColor idleMachine.software.terminal .lightRed)) ∧
    (∀ call ∈ dumpCalls pageFaultContext,
      call.StaysWithin (dumpMessage pageFaultContext) ↔ call.args ≠ []) ∧
    (dumpText quietImage.stray pageFaultContext = meantText pageFaultContext ↔
      printedWords quietImage.stray pageFaultContext = shownFields pageFaultContext ∧
        ∀ w ∈ shownFields pageFaultContext, w.toNat < 2 ^ 31) ∧
    (∀ stray' ctx', dumpText stray' ctx' = dumpText quietImage.stray pageFaultContext ↔
      printedWords stray' ctx' = printedWords quietImage.stray pageFaultContext) ∧
    ∀ eip eflags useresp,
      exceptionHandler quietImage idleMachine
          { pageFaultContext with eip := eip, eflags := eflags, useresp := useresp }
        = exceptionHandler quietImage idleMachine pageFaultContext :=
  exceptionDump_unfaithful quietImage idleMachine (by decide)

/-- The fault at another address gives the same dump: eip is read from the stack, and is 0. -/
theorem exceptionDump_loses_eip :
    ¬ ∀ (image : Image Unit) (ctx : InterruptContext), ctx.intNo < 32 →
        DumpFaithful image ctx := by
  intro hall
  have hfaithful := hall quietImage pageFaultContext (by decide)
  have hfields := hfaithful.separates { pageFaultContext with eip := 0x200000 } (by decide) rfl
  exact absurd hfields (by decide)

end FreeMicroNix
