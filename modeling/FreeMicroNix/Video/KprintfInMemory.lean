/-
  `kprintf` on one memory.

  `Video.Vga` gives `kprintf` its format, its words and its strings as values of their own.  Here
  they all lie in one memory with `buf[20]` and with the parameter `format`, which `format++` writes
  and `arg` walks up the stack from; a string is wherever its word leads.

  1. **Program** — the loop of the source, with `itoa` and `strlen` on the same heap.
  2. **What a call relies on** — `KprintfCall`: what it reads lies apart from `buf` and `format`, a
     `%s` word leads to a string, and a number fits into the twenty bytes, which not every one does.
  3. **The crux** — `buf` and `format` are all that ever changes (`Along`), so what is read was there
     before the call, and the loop does what it does on values (`kprintfLoop_along`).
  4. **Result** — `kprintf_in_memory`: the screen is that of the function on values.
-/
import FreeMicroNix.Libc.ItoaInMemory
import FreeMicroNix.Video.Buffers
import FreeMicroNix.Video.Kprintf

namespace FreeMicroNix.PrintInMemory

open PartialMemory Libc

/-! ## The functions -/

/-- `for (uint32_t i = 0; i < len; i++) Terminal_Putch(s[i]);` -/
def terminalPrintLoop (h : Heap CChar) (s len i : Uint32) (t : Terminal) : Option Terminal :=
  if _hi : i < len then do
    let c ← h (s + i)
    terminalPrintLoop h s len (i + 1) (terminalPutch t c)
  else some t
termination_by len.toNat - i.toNat
decreasing_by bv_omega

/-- `Terminal_Print` -/
def terminalPrint (h : Heap CChar) (t : Terminal) (s : Uint32) : Option Terminal := do
  let len ← Libc.strlen h s
  let t ← terminalPrintLoop h s len 0 t
  some (terminalUpdateCursor t)

/-- `*format++`: the parameter lies at `frame`, where `arg` starts from. -/
def nextChar (frame : Uint32) (h : Heap CChar) : Option (CChar × Heap CChar) := do
  let format ← readWord h frame
  let c ← h format
  let h ← writeWord h frame (format + 1)
  some (c, h)

/-- `while((c = *format++) != 0)`, with the string `(null)` at `null`. -/
def kprintfLoop (null frame buf : Uint32) : Nat → Heap CChar → Terminal → Uint32 →
    Option (Heap CChar × Terminal)
  | 0, _, _, _ => none
  | turns + 1, h, t, arg => do
    let (c, h) ← nextChar frame h
    if c = 0 then some (h, terminalUpdateCursor t)
    else if c ≠ ch '%' then kprintfLoop null frame buf turns h (terminalPutch t c) arg
    else do
      let (c, h) ← nextChar frame h
      if c = ch 'd' ∨ c = ch 'u' ∨ c = ch 'x' then do
        let w ← readWord h arg
        let (h, _) ← Libc.itoa h w buf c.toInt
        let t ← terminalPrint h t buf
        kprintfLoop null frame buf turns h t (arg + 4)
      else if c = ch 's' then do
        let p ← readWord h arg
        let t ← terminalPrint h t (if p = 0 then null else p)
        kprintfLoop null frame buf turns h t (arg + 4)
      else if c = 0 then some (h, t)
      else do
        let w ← readWord h arg
        kprintfLoop null frame buf turns h (terminalPutch t (w.setWidth 8)) (arg + 4)

/-- `kprintf`, with `&format` at `frame` and `buf` at `buf`. -/
def kprintf (null frame buf : Uint32) (h : Heap CChar) (t : Terminal) :
    Option (Heap CChar × Terminal) :=
  kprintfLoop null frame buf addressSpace h t (frame + 4)

/-! ## A string printed -/

section Print

variable {h : Heap CChar} {p : Uint32} {s : CString}

/-- The loop puts the bytes from one on. -/
theorem terminalPrintLoop_eq (hs : IsString h p s) {k : Nat} (hk : k ≤ s.length) (t : Terminal) :
    terminalPrintLoop h p (BitVec.ofNat 32 s.length) (BitVec.ofNat 32 k) t
      = some ((s.drop k).foldl terminalPutch t) := by
  have hshort : s.length < 2 ^ 32 := hs.length_lt
  induction hn : s.length - k generalizing k t with
  | zero =>
    have hstop : ¬ BitVec.ofNat 32 k < BitVec.ofNat 32 s.length := by bv_omega
    rw [terminalPrintLoop, dif_neg hstop, List.drop_eq_nil_of_le (by omega)]
    rfl
  | succ n ih =>
    have hin : k < s.length := by omega
    have hgo : BitVec.ofNat 32 k < BitVec.ofNat 32 s.length := by bv_omega
    have hbyte : h (p + BitVec.ofNat 32 k) = some s[k] := by
      refine hs.cells k s[k] ?_
      rw [List.getElem?_append_left hin, List.getElem?_eq_getElem hin]
    rw [terminalPrintLoop, dif_pos hgo, bind_of_eq_some hbyte, ofNat_add_one,
      ih (by omega) (terminalPutch t s[k]) (by omega), List.drop_eq_getElem_cons hin]
    rfl

/-- **`Terminal_Print`**, from memory. -/
theorem terminalPrint_eq_value (hs : IsString h p s) (t : Terminal) :
    terminalPrint h t p = some (FreeMicroNix.terminalPrint t s) := by
  have hloop := terminalPrintLoop_eq hs (Nat.zero_le _) t
  rw [FreeMicroNix.terminalPrint_eq, takeWhile_whole hs.ne]
  exact (bind_of_eq_some (strlen_eq hs) _).trans (bind_of_eq_some hloop _)

end Print

/-! ## What a call relies on -/

/-- A stretch that is neither part of the parameter nor of the buffer. -/
structure Clear (frame buf p : Uint32) (n : Nat) : Prop where
  frame : Apart p n frame 4
  buf : Apart p n buf 20

/-- The word of one conversion: a number fits into `buf`, a `%s` is null or leads to its string. -/
structure Prepared (h : Heap CChar) (frame buf : Uint32) (strAt : Uint32 → CString) (d : CChar)
    (w : Uint32) : Prop where
  number : d = ch 'd' ∨ d = ch 'u' ∨ d = ch 'x' → (numeral w d.toInt).length + 1 ≤ 20
  string : d = ch 's' → w ≠ 0 →
    IsString h w (strAt w) ∧ Clear frame buf w ((strAt w).length + 1)

/-- A word for every conversion of a format. -/
def AllPrepared (h : Heap CChar) (frame buf : Uint32) (strAt : Uint32 → CString) :
    CString → List Uint32 → Prop
  | [], _ => True
  | [_], _ => True
  | c :: d :: format, args =>
      if c ≠ ch '%' then AllPrepared h frame buf strAt (d :: format) args
      else
        match args with
        | [] => False
        | w :: args => Prepared h frame buf strAt d w ∧ AllPrepared h frame buf strAt format args

/-- **A call**: its stack, its format and its words. -/
structure KprintfCall (h : Heap CChar) (null frame buf format : Uint32) (fmt : CString)
    (args : List Uint32) (strAt : Uint32 → CString) : Prop where
  parameter : readWord h frame = some format
  buffer : Object h buf 20
  apart : Apart frame 4 buf 20
  text : IsString h format fmt
  textClear : Clear frame buf format (fmt.length + 1)
  nullText : IsString h null (str "(null)")
  nullClear : Clear frame buf null ((str "(null)").length + 1)
  words : ∀ i w, args[i]? = some w → readWord h (frame + 4 + BitVec.ofNat 32 (4 * i)) = some w ∧
    Clear frame buf (frame + 4 + BitVec.ofNat 32 (4 * i)) 4
  prepared : AllPrepared h frame buf strAt fmt args

/-! ## Along the loop -/

/-- The memory along a call: only the parameter, which leads to `format` now, and the buffer have
    changed. -/
structure Along (h : Heap CChar) (frame buf : Uint32) (g : Heap CChar) (format : Uint32) : Prop where
  pointer : readWord g frame = some format
  frameMapped : Mapped g frame 4
  bufMapped : Mapped g buf 20
  same : ∀ a, ¬ Within frame 4 a → ¬ Within buf 20 a → g a = h a

section Loop

variable {h g : Heap CChar} {null frame buf format p : Uint32} {s fmt : CString} {n : Nat}
  {args : List Uint32} {strAt : Uint32 → CString}

theorem mapped_of_readWord {a w : Uint32} (hread : readWord h a = some w) : Mapped h a 4 := by
  have hbytes : ∀ i < 4, (h (a + BitVec.ofNat 32 i)).isSome := by
    unfold readWord at hread
    rcases Option.bind_eq_some_iff.mp hread with ⟨b0, h0, hread⟩
    rcases Option.bind_eq_some_iff.mp hread with ⟨b1, h1, hread⟩
    rcases Option.bind_eq_some_iff.mp hread with ⟨b2, h2, hread⟩
    rcases Option.bind_eq_some_iff.mp hread with ⟨b3, h3, -⟩
    intro i hi
    match i, hi with
    | 0, _ => rw [BitVec.add_zero, h0]; rfl
    | 1, _ => exact (congrArg Option.isSome h1).trans rfl
    | 2, _ => exact (congrArg Option.isSome h2).trans rfl
    | 3, _ => exact (congrArg Option.isSome h3).trans rfl
  exact (mapped_iff (by decide)).mpr hbytes

/-- What lies clear of both is read as it was. -/
theorem Along.byte (halong : Along h frame buf g format) (hclear : Clear frame buf p n) {a : Uint32}
    (ha : Within p n a) : g a = h a :=
  halong.same a (hclear.frame a ha) (hclear.buf a ha)

theorem Along.string (halong : Along h frame buf g format) (hs : IsString h p s)
    (hclear : Clear frame buf p (s.length + 1)) : IsString g p s :=
  hs.congr fun _ ha => halong.byte hclear ha

theorem Along.word (halong : Along h frame buf g format) {w : Uint32} (hw : readWord h p = some w)
    (hclear : Clear frame buf p 4) : readWord g p = some w :=
  (readWord_congr fun _ ha => halong.byte hclear ha).trans hw

/-- **One character**: the parameter goes on. -/
theorem Along.next (halong : Along h frame buf g format) {c : CChar} (hc : g format = some c) :
    ∃ g', nextChar frame g = some (c, g') ∧ Along h frame buf g' (format + 1) := by
  refine ⟨putWord g frame (format + 1), ?_, readWord_putWord g frame _,
    halong.frameMapped.putWord frame _, halong.bufMapped.putWord frame _, fun a hframe hbuf => ?_⟩
  · refine (bind_of_eq_some halong.pointer _).trans ?_
    refine (bind_of_eq_some hc _).trans ?_
    exact bind_of_eq_some (writeWord_of_mapped halong.frameMapped _) _
  · rw [putWord_outside g _ hframe, halong.same a hframe hbuf]

/-- **One number**, through the buffer. -/
theorem Along.number (halong : Along h frame buf g format) (hbuffer : Object h buf 20)
    (hapart : Apart frame 4 buf 20) {w : Uint32} {base : Int}
    (hfits : (numeral w base).length + 1 ≤ 20) (t : Terminal) :
    ∃ g' q, Libc.itoa g w buf base = some (g', q) ∧ Along h frame buf g' format ∧
      terminalPrint g' t buf = some (FreeMicroNix.terminalPrint t (itoaString w base)) := by
  have hnull := hbuffer.nonnull
  have hspace := hbuffer.fits
  have hroom : Object g buf ((numeral w base).length + 1) :=
    ⟨halong.bufMapped.mono hfits, hnull, by omega⟩
  have hlength : (numeral w base ++ [0]).length ≤ 20 := by
    rw [List.length_append, List.length_singleton]
    exact hfits
  have hstring : IsString (lay g buf (numeral w base ++ [0])) buf (numeral w base) :=
    terminated_lay g (fun c hc => numeral_ne_zero hc) hnull (by omega)
  have houtside : ∀ a, ¬ Within buf 20 a → lay g buf (numeral w base ++ [0]) a = g a :=
    fun a ha => lay_outside g fun hin => ha (Nat.lt_of_lt_of_le hin hlength)
  refine ⟨_, _, itoa_lays hroom, ⟨?_, halong.frameMapped.lay _, halong.bufMapped.lay _, ?_⟩, ?_⟩
  · exact (readWord_congr fun a ha => houtside a (hapart a ha)).trans halong.pointer
  · intro a hframe hbuf
    rw [houtside a hbuf, halong.same a hframe hbuf]
  · rw [itoaString_eq]
    exact terminalPrint_eq_value hstring t

/-- The rest of a format, one character further. -/
theorem Clear.tail (hclear : Clear frame buf p (n + 1)) (hn : n + 1 ≤ 2 ^ 32) :
    Clear frame buf (p + 1) n := by
  have hin : ∀ a, Within (p + 1) n a → Within p (n + 1) a := by
    intro a ha
    unfold Within at ha ⊢
    bv_omega
  exact ⟨fun a ha => hclear.frame a (hin a ha), fun a ha => hclear.buf a (hin a ha)⟩

/-- A character before the end and no percent sign. -/
theorem kprintfLoop_char (null buf : Uint32) {g' : Heap CChar} {c : CChar}
    (hnext : nextChar frame g = some (c, g')) (hc : c ≠ 0) (hpercent : c ≠ ch '%') (turns : Nat) (t : Terminal) (arg : Uint32) :
    kprintfLoop null frame buf (turns + 1) g t arg
      = kprintfLoop null frame buf turns g' (terminalPutch t c) arg := by
  rw [kprintfLoop, bind_of_eq_some hnext]
  dsimp only
  rw [if_neg hc, if_pos hpercent]

/-- A directive, up to its word. -/
theorem kprintfLoop_directive (null buf : Uint32) {g₁ g₂ : Heap CChar} {d : CChar}
    (hpercent : nextChar frame g = some (ch '%', g₁)) (hnext : nextChar frame g₁ = some (d, g₂))
    (turns : Nat) (t : Terminal) (arg : Uint32) :
    kprintfLoop null frame buf (turns + 1) g t arg =
      (if d = ch 'd' ∨ d = ch 'u' ∨ d = ch 'x' then do
        let w ← readWord g₂ arg
        let (h, _) ← Libc.itoa g₂ w buf d.toInt
        let t ← terminalPrint h t buf
        kprintfLoop null frame buf turns h t (arg + 4)
      else if d = ch 's' then do
        let p ← readWord g₂ arg
        let t ← terminalPrint g₂ t (if p = 0 then null else p)
        kprintfLoop null frame buf turns g₂ t (arg + 4)
      else if d = 0 then some (g₂, t)
      else do
        let w ← readWord g₂ arg
        kprintfLoop null frame buf turns g₂ (terminalPutch t (w.setWidth 8)) (arg + 4)) := by
  rw [kprintfLoop, bind_of_eq_some hpercent]
  dsimp only
  rw [if_neg (by decide), if_neg (not_not_intro rfl), bind_of_eq_some hnext]

/-- The same directive on values. -/
theorem kprintfFrom_directive {t : Terminal} {d : CChar} {w : Uint32} (hd : d ≠ 0)
    (hw : args[n]? = some w) (object : List CChar) :
    kprintfFrom strAt args t n (ch '%' :: d :: object) =
      if d = ch 'd' ∨ d = ch 'u' ∨ d = ch 'x' then
        kprintfFrom strAt args (FreeMicroNix.terminalPrint t (itoaString w d.toInt)) (n + 1) object
      else if d = ch 's' then
        kprintfFrom strAt args
          (FreeMicroNix.terminalPrint t (if w = 0 then str "(null)" else strAt w)) (n + 1) object
      else kprintfFrom strAt args (terminalPutch t (w.setWidth 8)) (n + 1) object := by
  rw [kprintfFrom, if_neg (by decide), if_neg (not_not_intro rfl)]
  dsimp only
  rw [if_neg hd, hw]

/-- The word of a conversion, and the words behind it. -/
theorem AllPrepared.conversion {d : CChar}
    (hprepared : AllPrepared h frame buf strAt (ch '%' :: d :: fmt) (args.drop n)) :
    ∃ w, args[n]? = some w ∧ Prepared h frame buf strAt d w ∧
      AllPrepared h frame buf strAt fmt (args.drop (n + 1)) := by
  cases hrest : args.drop n with
  | nil =>
    rw [hrest, AllPrepared, if_neg (not_not_intro rfl)] at hprepared
    exact hprepared.elim
  | cons w rest =>
    rw [hrest, AllPrepared, if_neg (not_not_intro rfl)] at hprepared
    have hw : args[n]? = some w := by
      rw [← List.head?_drop, hrest]
      rfl
    have hdrop : args.drop (n + 1) = rest := by
      rw [← List.tail_drop, hrest]
      rfl
    rw [hdrop]
    exact ⟨w, hw, hprepared.1, hprepared.2⟩

theorem AllPrepared.char {c : CChar} (hpercent : c ≠ ch '%') {words : List Uint32}
    (hprepared : AllPrepared h frame buf strAt (c :: fmt) words) :
    AllPrepared h frame buf strAt fmt words := by
  cases fmt with
  | nil => cases words <;> exact trivial
  | cons d fmt =>
    cases words <;> rw [AllPrepared, if_pos hpercent] at hprepared <;> exact hprepared

/-- `arg++` -/
theorem arg_next (a : Uint32) (n : Nat) :
    a + BitVec.ofNat 32 (4 * n) + 4 = a + BitVec.ofNat 32 (4 * (n + 1)) := by
  bv_omega

/-- **The loop**, wherever it stands: it goes on as on the values. -/
theorem kprintfLoop_along (hcall : KprintfCall h null frame buf p s args strAt) (k : Nat) :
    ∀ {fmt : CString} {format : Uint32} {g : Heap CChar} {t t' : Terminal} {n m turns : Nat},
      fmt.length = k → Along h frame buf g format → IsString h format fmt →
      Clear frame buf format (fmt.length + 1) → fmt.length < turns →
      AllPrepared h frame buf strAt fmt (args.drop n) →
      kprintfFrom strAt args t n (fmt ++ [0]) = some (t', m) →
      ∃ g' format', kprintfLoop null frame buf turns g t
          (frame + 4 + BitVec.ofNat 32 (4 * n)) = some (g', t') ∧
        Along h frame buf g' format' := by
  induction k using Nat.strong_induction_on with
  | _ k ih =>
    intro fmt format g t t' n m turns hk halong htext hclear hturns hprepared hrun
    obtain ⟨turns, rfl⟩ := Nat.exists_eq_add_of_lt hturns
    have hshort : fmt.length + 1 ≤ 2 ^ 32 := htext.length_lt
    cases fmt with
    | nil =>
      have hzero : g format = some 0 :=
        (halong.byte hclear (within_self format (Nat.succ_pos _))).trans htext.nil
      obtain ⟨g', hnext, halong'⟩ := halong.next hzero
      have hend : kprintfFrom strAt args t n ([] ++ [0]) = some (terminalUpdateCursor t, n) := rfl
      obtain ⟨rfl, rfl⟩ := Prod.mk.inj (Option.some.inj (hend.symm.trans hrun))
      exact ⟨g', _, bind_of_eq_some hnext _, halong'⟩
    | cons c fmt =>
      have hc : g format = some c :=
        (halong.byte hclear (within_self format (Nat.succ_pos _))).trans htext.head
      obtain ⟨g₁, hnext₁, halong₁⟩ := halong.next hc
      have hclear₁ := hclear.tail hshort
      by_cases hpercent : c = ch '%'
      · subst hpercent
        cases fmt with
        | nil =>
          -- the dangling percent sign: `case 0`
          have hzero : g₁ (format + 1) = some 0 :=
            (halong₁.byte hclear₁ (within_self _ (Nat.succ_pos _))).trans htext.tail.nil
          obtain ⟨g₂, hnext₂, halong₂⟩ := halong₁.next hzero
          have hend : kprintfFrom strAt args t n ([ch '%'] ++ [0]) = some (t, n) := rfl
          obtain ⟨rfl, rfl⟩ := Prod.mk.inj (Option.some.inj (hend.symm.trans hrun))
          exact ⟨g₂, _, kprintfLoop_directive null buf hnext₁ hnext₂ _ t _, halong₂⟩
        | cons d fmt =>
          have hd : g₁ (format + 1) = some d :=
            (halong₁.byte hclear₁ (within_self _ (Nat.succ_pos _))).trans htext.tail.head
          obtain ⟨g₂, hnext₂, halong₂⟩ := halong₁.next hd
          have hclear₂ := hclear₁.tail (by rw [List.length_cons] at hshort; omega)
          obtain ⟨w, hw, hword, hrest⟩ := hprepared.conversion
          obtain ⟨hread, hwordClear⟩ := hcall.words n w hw
          have hread₂ := halong₂.word hread hwordClear
          have hgo : ∀ {g : Heap CChar} {t : Terminal}, Along h frame buf g (format + 1 + 1) →
              kprintfFrom strAt args t (n + 1) (fmt ++ [0]) = some (t', m) →
              ∃ g' format', kprintfLoop null frame buf ((ch '%' :: d :: fmt).length + turns) g t
                  (frame + 4 + BitVec.ofNat 32 (4 * n) + 4) = some (g', t') ∧
                Along h frame buf g' format' := by
            intro g t halong hrun
            rw [arg_next]
            exact ih fmt.length (by rw [← hk, List.length_cons, List.length_cons]; omega) rfl halong
              htext.tail.tail hclear₂ (by rw [List.length_cons, List.length_cons]; omega) hrest hrun
          rw [List.cons_append, List.cons_append,
            kprintfFrom_directive htext.tail.head_ne hw] at hrun
          have hloop := kprintfLoop_directive null buf hnext₁ hnext₂
            ((ch '%' :: d :: fmt).length + turns) t (frame + 4 + BitVec.ofNat 32 (4 * n))
          rcases Decidable.em (d = ch 'd' ∨ d = ch 'u' ∨ d = ch 'x') with hnumber | hnumber
          · obtain ⟨g₃, q, hitoa, halong₃, hprint⟩ :=
              halong₂.number hcall.buffer hcall.apart (hword.number hnumber) t
            rw [if_pos hnumber] at hrun hloop
            obtain ⟨g', format', hrest, hend⟩ := hgo halong₃ hrun
            refine ⟨g', format', hloop.trans ?_, hend⟩
            refine (bind_of_eq_some hread₂ _).trans ?_
            refine (bind_of_eq_some hitoa _).trans ?_
            exact (bind_of_eq_some hprint _).trans hrest
          rw [if_neg hnumber] at hrun hloop
          by_cases hstring : d = ch 's'
          · have hprint : terminalPrint g₂ t (if w = 0 then null else w)
                = some (FreeMicroNix.terminalPrint t (if w = 0 then str "(null)" else strAt w)) := by
              by_cases hnull : w = 0
              · rw [if_pos hnull, if_pos hnull]
                exact terminalPrint_eq_value (halong₂.string hcall.nullText hcall.nullClear) t
              · obtain ⟨hs, hsClear⟩ := hword.string hstring hnull
                rw [if_neg hnull, if_neg hnull]
                exact terminalPrint_eq_value (halong₂.string hs hsClear) t
            rw [if_pos hstring] at hrun hloop
            obtain ⟨g', format', hrest, hend⟩ := hgo halong₂ hrun
            refine ⟨g', format', hloop.trans ?_, hend⟩
            refine (bind_of_eq_some hread₂ _).trans ?_
            exact (bind_of_eq_some hprint _).trans hrest
          · rw [if_neg hstring] at hrun hloop
            rw [if_neg htext.tail.head_ne] at hloop
            obtain ⟨g', format', hrest, hend⟩ := hgo halong₂ hrun
            exact ⟨g', format', hloop.trans ((bind_of_eq_some hread₂ _).trans hrest), hend⟩
      · have hchar := kprintfLoop_char null buf hnext₁ htext.head_ne hpercent
          (fmt.length + 1 + turns) t (frame + 4 + BitVec.ofNat 32 (4 * n))
        rw [List.cons_append, kprintfFrom_char strAt args t n htext.head_ne hpercent] at hrun
        obtain ⟨g', format', hrest, hend⟩ := ih fmt.length
          (by rw [← hk, List.length_cons]; omega) rfl halong₁ htext.tail hclear₁
          (show fmt.length < fmt.length + 1 + turns by omega) (hprepared.char hpercent) hrun
        exact ⟨g', format', hchar.trans hrest, hend⟩

/-- There is a word for every conversion. -/
theorem AllPrepared.enough {words : List Uint32} (fmt : CString)
    (hprepared : AllPrepared h frame buf strAt fmt words) : conversions fmt ≤ words.length := by
  induction fmt using List.twoStepInduction generalizing words with
  | nil => exact Nat.zero_le _
  | singleton c => exact Nat.zero_le _
  | cons_cons c d fmt ih ih' =>
    rw [conversions]
    by_cases hpercent : c ≠ ch '%'
    · rw [if_pos hpercent]
      exact ih' d (hprepared.char hpercent)
    · obtain rfl : c = ch '%' := not_not.mp hpercent
      rw [if_neg hpercent]
      have hall : AllPrepared h frame buf strAt (ch '%' :: d :: fmt) (words.drop 0) := hprepared
      obtain ⟨w, hw, -, hrest⟩ := hall.conversion
      have hsome := (List.getElem?_eq_some_iff.mp hw).1
      have hlength := ih hrest
      rw [List.length_drop] at hlength
      omega

/-- **`kprintf` on one memory.**  A call whose objects lie apart, whose strings are there and whose
    numbers fit comes to its end; row, column and cells are those of `Terminal_Putch` on the expanded
    text, the screen that of `kprintf` on the values, and nothing but the buffer and the parameter
    has changed. -/
theorem kprintf_in_memory (hcall : KprintfCall h null frame buf format fmt args strAt)
    (t : Terminal) :
    ∃ h' t', kprintf null frame buf h t = some (h', t') ∧
      (∀ arg, Passed args arg → FreeMicroNix.kprintf t strAt (fmt ++ [0]) arg = t') ∧
      t'.terminalRow = ((expand strAt fmt args).foldl terminalPutch t).terminalRow ∧
      t'.terminalColumn = ((expand strAt fmt args).foldl terminalPutch t).terminalColumn ∧
      t'.cells = ((expand strAt fmt args).foldl terminalPutch t).cells ∧
      ∀ a, ¬ Within frame 4 a → ¬ Within buf 20 a → h' a = h a := by
  have hwords := hcall.prepared.enough
  obtain ⟨t', hvalue, hequal⟩ := kprintfFrom_expand strAt args fmt t t 0 hcall.text.ne (.refl t)
    (by rw [Nat.zero_add]; exact hwords)
  have halong : Along h frame buf h format :=
    ⟨hcall.parameter, mapped_of_readWord hcall.parameter, hcall.buffer.mapped, fun _ _ _ => rfl⟩
  have hprepared : AllPrepared h frame buf strAt fmt (args.drop 0) := hcall.prepared
  obtain ⟨h', format', hrun, hend⟩ := kprintfLoop_along hcall fmt.length rfl halong hcall.text
    hcall.textClear hcall.text.turns hprepared hvalue
  rw [Nat.mul_zero, BitVec.add_zero] at hrun
  refine ⟨h', t', hrun, fun arg hargs => ?_, hequal.row, hequal.column, hequal.cells, hend.same⟩
  rw [FreeMicroNix.kprintf, kprintfFrom_eq_loop hargs _ _ _ _ hvalue]

end Loop

/-! ## A call on a stack -/

/-- The parameter and two words at 0x1000, `buf` at 0x3000; `%x%s` at 0x2000, `ab` at 0x4000, and
    `(null)` at 0x5000. -/
def callMemory : Heap CChar :=
  lay (lay (lay (lay (lay (fun _ => none) 0x5000 (str "(null)" ++ [0])) 0x4000 (str "ab" ++ [0]))
    0x3000 (List.replicate 20 0)) 0x2000 (str "%x%s" ++ [0]))
    0x1000 [0x00, 0x20, 0, 0, 0x07, 0, 0, 0, 0x00, 0x40, 0, 0]

theorem callMemory_call : KprintfCall callMemory 0x5000 0x1000 0x3000 0x2000 (str "%x%s")
    [0x07, 0x4000] (fun _ => str "ab") where
  parameter := by decide
  buffer := ⟨(mapped_iff (by decide)).mpr (by decide), by decide, by decide⟩
  apart := apart_of_le (by decide) (by decide)
  text := by decide
  textClear := ⟨apart_of_le (by decide) (by decide), apart_of_le (by decide) (by decide)⟩
  nullText := by decide
  nullClear := ⟨apart_of_le (by decide) (by decide), apart_of_le (by decide) (by decide)⟩
  words i w hw := by
    match i, hw with
    | 0, hw =>
      obtain rfl : 0x07 = w := Option.some.inj hw
      exact ⟨by decide, apart_of_le (by decide) (by decide), apart_of_le (by decide) (by decide)⟩
    | 1, hw =>
      obtain rfl : 0x4000 = w := Option.some.inj hw
      exact ⟨by decide, apart_of_le (by decide) (by decide), apart_of_le (by decide) (by decide)⟩
  prepared := by
    have hx : (ch 'x').toInt = 120 ∨ (ch 'x').toInt = 16 := Or.inl (by decide)
    have hlength := (length_hexadecimal_le 0x07 hx 15).mpr ((0x07 : Uint32).signExtend 64).isLt
    refine ⟨⟨fun _ => hlength.trans (by decide), fun h => absurd h (by decide)⟩,
      ⟨fun h => absurd h (by decide), fun _ _ => ⟨by decide, ?_⟩⟩, trivial⟩
    exact ⟨apart_of_le (by decide) (by decide), apart_of_le (by decide) (by decide)⟩

theorem kprintf_in_callMemory :
    ∃ h' t', kprintf 0x5000 0x1000 0x3000 callMemory coldTerminal = some (h', t') ∧
      (∀ arg, Passed [0x07, 0x4000] arg →
        FreeMicroNix.kprintf coldTerminal (fun _ => str "ab") (str "%x%s" ++ [0]) arg = t') ∧
      t'.terminalRow = ((expand (fun _ => str "ab") (str "%x%s") [0x07, 0x4000]).foldl terminalPutch
        coldTerminal).terminalRow ∧
      t'.terminalColumn = ((expand (fun _ => str "ab") (str "%x%s") [0x07, 0x4000]).foldl
        terminalPutch coldTerminal).terminalColumn ∧
      t'.cells = ((expand (fun _ => str "ab") (str "%x%s") [0x07, 0x4000]).foldl terminalPutch
        coldTerminal).cells ∧
      ∀ a, ¬ Within 0x1000 4 a → ¬ Within 0x3000 20 a → h' a = callMemory a :=
  kprintf_in_memory callMemory_call coldTerminal

end FreeMicroNix.PrintInMemory
