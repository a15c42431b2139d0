/-
  `kprintf` against the text its format and its arguments stand for.

  `kprintfFrom` is the loop of the source on the bytes of the format OBJECT and on the argument
  words that were passed: it has no result where the loop would read past either of them, and where
  it has one it is that of `kprintf`.
  `expand` is what the format means, one directive after the other, and `conversions` how many
  words that takes.  `kprintf_expands`: on a terminated format and enough words the loop ends
  inside both, has taken one word for each conversion, and has done to the screen what
  `Terminal_Putch` does on the expanded text.
-/
import FreeMicroNix.Libc.Numeral
import FreeMicroNix.Video.Text

namespace FreeMicroNix

/-! ## The loop on the format object -/

/-- The directive loop of `kprintf`, from a byte of the format object on, with `n` words taken.
    The result is the terminal and the number of words taken at the end. -/
def kprintfFrom (strAt : Uint32 → CString) (args : List Uint32) :
    Terminal → Nat → List CChar → Option (Terminal × Nat)
  | _, _, [] => none
  | t, n, c :: object =>
      if c = 0 then some (terminalUpdateCursor t, n)
      else if c ≠ ch '%' then kprintfFrom strAt args (terminalPutch t c) n object
      else
        match object with
        | [] => none
        | d :: object =>
            if d = 0 then some (t, n)
            else
              match args[n]? with
              | none => none
              | some w =>
                  if d = ch 'd' ∨ d = ch 'u' ∨ d = ch 'x' then
                    kprintfFrom strAt args (terminalPrint t (itoaString w d.toInt)) (n + 1) object
                  else if d = ch 's' then
                    let p := if w = 0 then str "(null)" else strAt w
                    kprintfFrom strAt args (terminalPrint t p) (n + 1) object
                  else kprintfFrom strAt args (terminalPutch t (w.setWidth 8)) (n + 1) object

/-- The stack holds the argument words, and above them anything. -/
def Passed (args : List Uint32) (arg : Nat → Uint32) : Prop :=
  ∀ i w, args[i]? = some w → arg i = w

/-- Where it has a result, it is that of `kprintf` with the words on the stack. -/
theorem kprintfFrom_eq_loop {strAt : Uint32 → CString} {args : List Uint32} {arg : Nat → Uint32}
    (hargs : Passed args arg) (object : List CChar) :
    ∀ (t : Terminal) (n : Nat) (r : Terminal × Nat),
      kprintfFrom strAt args t n object = some r → kprintfLoop strAt arg t n object = r := by
  induction object using List.twoStepInduction with
  | nil => intro t n r h; exact absurd h nofun
  | singleton c =>
    intro t n r h
    unfold kprintfFrom at h
    unfold kprintfLoop
    split_ifs at h ⊢ with hc hpercent
    · exact Option.some.inj h
    · exact absurd h nofun
  | cons_cons c d object ih ih' =>
    intro t n r h
    rw [kprintfFrom] at h
    rw [kprintfLoop]
    by_cases hc : c = 0
    · rw [if_pos hc] at h ⊢
      exact Option.some.inj h
    · rw [if_neg hc] at h ⊢
      by_cases hpercent : c ≠ ch '%'
      · rw [if_pos hpercent] at h ⊢
        exact ih' d _ _ _ h
      · rw [if_neg hpercent] at h ⊢
        by_cases hd : d = 0
        · subst hd
          exact Option.some.inj h
        · dsimp only at h
          rw [if_neg hd] at h
          cases hw : args[n]? with
          | none => rw [hw] at h; exact absurd h nofun
          | some w =>
            rw [hw] at h
            dsimp only at h
            rw [hargs n w hw, if_neg hd]
            split_ifs at h ⊢ <;> exact ih _ _ _ h

/-! ## What a format means -/

/-- The text of one conversion. -/
def expandWord (strAt : Uint32 → CString) (d : CChar) (w : Uint32) : CString :=
  if d = ch 'd' ∨ d = ch 'u' ∨ d = ch 'x' then itoaString w d.toInt
  else if d = ch 's' then
    (if w = 0 then str "(null)" else strAt w).takeWhile (· ≠ 0)
  else [w.setWidth 8]

/-- The text of a format, given without its terminator, and of its argument words. -/
def expand (strAt : Uint32 → CString) : CString → List Uint32 → CString
  | [], _ => []
  | [c], _ => if c = ch '%' then [] else [c]
  | c :: d :: format, args =>
      if c ≠ ch '%' then c :: expand strAt (d :: format) args
      else
        match args with
        | [] => []
        | w :: args => expandWord strAt d w ++ expand strAt format args

theorem expand_char (strAt : Uint32 → CString) {c : CChar} (hc : c ≠ ch '%') (d : CChar)
    (format : CString) (args : List Uint32) :
    expand strAt (c :: d :: format) args = c :: expand strAt (d :: format) args := by
  cases args <;> rw [expand, if_pos hc]

/-- The number of conversions: a percent sign with a character behind it. -/
def conversions : CString → Nat
  | [] => 0
  | [_] => 0
  | c :: d :: format => if c ≠ ch '%' then conversions (d :: format) else conversions format + 1

/-! ## Equal terminals stay equal -/

namespace EqualButPorts

variable {t t' t'' : Terminal}

theorem trans (h : EqualButPorts t t') (h' : EqualButPorts t' t'') : EqualButPorts t t'' :=
  ⟨h.row.trans h'.row, h.column.trans h'.column, h.color.trans h'.color, h.cells.trans h'.cells,
    h.touched.trans h'.touched⟩

/-- What the cells, the column and the accesses become depends on no port. -/
theorem glyph (h : EqualButPorts t t') (c : CChar) :
    EqualButPorts (putchGlyph t c) (putchGlyph t' c) := by
  obtain ⟨hrow, hcol, hcolor, hcells, htouched⟩ := h
  have hindex : cursorIndex t = cursorIndex t' := by
    rw [cursorIndex, cursorIndex, hrow, hcol]
  have hstore : glyphStore t c = glyphStore t' c := by
    rw [glyphStore, glyphStore, hrow, hcol, hcolor, hindex]
  unfold Terminal.touched at htouched
  rcases Nat.lt_or_ge t'.terminalRow.toNat vgaHeight with hon | hoff
  · rw [putchGlyph_onScreen t' c hon, putchGlyph_onScreen t c (by rw [hrow]; exact hon)]
    refine ⟨hrow, congrArg (· + 1) hcol, hcolor, ?_, ?_⟩
    · rw [hcells, hindex, hcolor]
    · simp only [Terminal.touched, List.filter_append, htouched, hstore]
  · rw [putchGlyph_offScreen t' c hoff, putchGlyph_offScreen t c (by rw [hrow]; exact hoff)]
    refine ⟨hrow, congrArg (· + 1) hcol, hcolor, ?_, ?_⟩
    · rw [hcells, hindex, hcolor]
    · simp only [Terminal.touched, List.filter_append, htouched, hstore]

theorem decrementColumn (h : EqualButPorts t t') :
    EqualButPorts t.decrementColumn t'.decrementColumn := by
  obtain ⟨hrow, hcol, hcolor, hcells, htouched⟩ := h
  unfold Terminal.touched at htouched
  refine ⟨hrow, congrArg (· - 1) hcol, hcolor, hcells, ?_⟩
  simp only [Terminal.touched, Terminal.decrementColumn_log, List.filter_append, htouched, hcol]

/-- The same row and column written into both. -/
theorem moveTo (h : EqualButPorts t t') {row row' col col' : Uint32} (hrow : row = row')
    (hcol : col = col') :
    EqualButPorts { t with terminalRow := row, terminalColumn := col }
      { t' with terminalRow := row', terminalColumn := col' } :=
  ⟨hrow, hcol, h.color, h.cells, h.touched⟩

theorem putch_ordinary (h : EqualButPorts t t') {c : CChar} (hc : Ordinary c) :
    EqualButPorts (terminalPutch t c) (terminalPutch t' c) := by
  by_cases hcol : t'.terminalColumn = BitVec.ofNat 32 vgaWidth
  · rw [putch_advance t' c (Or.inr hcol), putch_advance t c (Or.inr (h.column.trans hcol))]
    exact h.moveTo (congrArg (· + 1) h.row) rfl
  · rw [FreeMicroNix.putch_ordinary t' c hc hcol,
      FreeMicroNix.putch_ordinary t c hc (by rw [h.column]; exact hcol)]
    exact h.glyph c

theorem backspace (h : EqualButPorts t t') :
    EqualButPorts (terminalBackspace t) (terminalBackspace t') := by
  by_cases hcol : t'.terminalColumn = 0
  · rw [backspace_zero t' hcol, backspace_zero t (h.column.trans hcol)]
    exact h
  · have hpos : 0 < t'.terminalColumn := by bv_omega
    rw [backspace_pos t' hpos, backspace_pos t (by rw [h.column]; exact hpos)]
    have hspace : Ordinary (ch ' ') := Printable.ordinary (by decide)
    exact (h.decrementColumn.putch_ordinary hspace).decrementColumn

theorem putch (h : EqualButPorts t t') (c : CChar) :
    EqualButPorts (terminalPutch t c) (terminalPutch t' c) := by
  by_cases hadv : c = ch '\n' ∨ t'.terminalColumn = BitVec.ofNat 32 vgaWidth
  · have hadv' : c = ch '\n' ∨ t.terminalColumn = BitVec.ofNat 32 vgaWidth :=
      hadv.imp_right h.column.trans
    rw [putch_advance t' c hadv, putch_advance t c hadv']
    exact h.moveTo (congrArg (· + 1) h.row) rfl
  · obtain ⟨hnl, hcol⟩ := not_or.mp hadv
    have hcol' : t.terminalColumn ≠ BitVec.ofNat 32 vgaWidth := by
      rw [h.column]
      exact hcol
    rcases char_cases c with rfl | rfl | rfl | rfl | hc
    · exact absurd rfl hnl
    · rw [putch_tab t hcol', putch_tab t' hcol]
      exact (h.moveTo h.row (congrArg (fun col => (col + 8) &&& ~~~(8 - 1)) h.column)).glyph _
    · rw [putch_backspace t hcol', putch_backspace t' hcol]
      exact h.backspace.glyph _
    · rw [putch_return t hcol', putch_return t' hcol]
      exact (h.moveTo rfl h.column).glyph _
    · exact h.putch_ordinary hc

theorem putchs (h : EqualButPorts t t') (text : CString) :
    EqualButPorts (text.foldl terminalPutch t) (text.foldl terminalPutch t') := by
  induction text generalizing t t' with
  | nil => exact h
  | cons c text ih => exact ih (h.putch c)

/-- A string printed is its characters put, in a terminal that may differ by ports. -/
theorem print (h : EqualButPorts t t') (s : CString) :
    EqualButPorts (terminalPrint t s) ((s.takeWhile (· ≠ 0)).foldl terminalPutch t') := by
  rw [terminalPrint_eq]
  exact (updateCursor_equalButPorts _).trans (h.putchs _)

end EqualButPorts

/-! ## The loop does what the format means -/

/-- One character that is no percent sign is put. -/
theorem kprintfFrom_char (strAt : Uint32 → CString) (args : List Uint32) (t : Terminal) (n : Nat)
    {c : CChar} (hc : c ≠ 0) (hpercent : c ≠ ch '%') (object : List CChar) :
    kprintfFrom strAt args t n (c :: object)
      = kprintfFrom strAt args (terminalPutch t c) n object := by
  cases object with
  | nil =>
    rw [kprintfFrom, kprintfFrom, if_neg hc, if_pos hpercent]
    rfl
  | cons d object => rw [kprintfFrom, if_neg hc, if_pos hpercent]

/-- One conversion: the text of its word is put, and the rest of the loop follows. -/
theorem kprintfFrom_conversion (strAt : Uint32 → CString) {args : List Uint32} {t u : Terminal}
    {n : Nat} {d : CChar} {w : Uint32} (hequal : EqualButPorts t u) (hd : d ≠ 0)
    (hw : args[n]? = some w) (object : List CChar) :
    ∃ t', kprintfFrom strAt args t n (ch '%' :: d :: object)
        = kprintfFrom strAt args t' (n + 1) object ∧
      EqualButPorts t' ((expandWord strAt d w).foldl terminalPutch u) := by
  have hpercent : ¬ ch '%' ≠ ch '%' := fun h => h rfl
  rw [kprintfFrom, if_neg (by decide), if_neg hpercent]
  dsimp only
  rw [if_neg hd, hw]
  dsimp only
  unfold expandWord
  split_ifs
  · -- a number: no byte of its numeral ends the string early
    have hwhole : (itoaString w d.toInt).takeWhile (· ≠ 0) = itoaString w d.toInt := by
      rw [itoaString_eq]
      exact takeWhile_whole fun c hc => numeral_ne_zero hc
    have hprint := hequal.print (itoaString w d.toInt)
    rw [hwhole] at hprint
    exact ⟨_, rfl, hprint⟩
  · exact ⟨_, rfl, hequal.print _⟩
  · exact ⟨_, rfl, hequal.print _⟩
  · exact ⟨_, rfl, hequal.putch _⟩

/-- **The loop**, from any number of words taken: it ends within the format object and the words,
    and the terminal is that of the expanded text up to the ports. -/
theorem kprintfFrom_expand (strAt : Uint32 → CString) (args : List Uint32) (format : CString) :
    ∀ (t u : Terminal) (n : Nat), (∀ c ∈ format, c ≠ 0) → EqualButPorts t u →
      n + conversions format ≤ args.length →
      ∃ t', kprintfFrom strAt args t n (format ++ [0]) = some (t', n + conversions format) ∧
        EqualButPorts t' ((expand strAt format (args.drop n)).foldl terminalPutch u) := by
  induction format using List.twoStepInduction with
  | nil =>
    intro t u n _ hequal _
    exact ⟨_, rfl, (updateCursor_equalButPorts t).trans hequal⟩
  | singleton c =>
    intro t u n hformat hequal _
    have hc := hformat c List.mem_cons_self
    rw [List.singleton_append, kprintfFrom, if_neg hc, expand]
    by_cases hpercent : c = ch '%'
    · -- the dangling percent sign: `case 0`
      rw [if_neg (not_not_intro hpercent), if_pos hpercent]
      exact ⟨t, rfl, hequal⟩
    · rw [if_pos hpercent, if_neg hpercent]
      exact ⟨_, rfl, (updateCursor_equalButPorts _).trans (hequal.putch c)⟩
  | cons_cons c d format ih ih' =>
    intro t u n hformat hequal hwords
    have hc := hformat c List.mem_cons_self
    have hd := hformat d (List.mem_cons_of_mem c List.mem_cons_self)
    by_cases hpercent : c = ch '%'
    · subst hpercent
      rw [conversions, if_neg (not_not_intro rfl)] at hwords ⊢
      have hn : n < args.length := by omega
      have hw : args[n]? = some args[n] := List.getElem?_eq_getElem hn
      obtain ⟨t', hstep, hequal'⟩ := kprintfFrom_conversion strAt hequal hd hw (format ++ [0])
      obtain ⟨t'', hrest, hend⟩ := ih t' _ (n + 1)
        (fun e he => hformat e (List.mem_cons_of_mem _ (List.mem_cons_of_mem d he))) hequal'
        (by omega)
      refine ⟨t'', ?_, ?_⟩
      · rw [List.cons_append, List.cons_append, hstep, hrest, Nat.add_assoc, Nat.add_comm 1]
      · rw [List.drop_eq_getElem_cons hn, expand, if_neg (not_not_intro rfl), List.foldl_append]
        exact hend
    · rw [conversions, if_pos hpercent] at hwords ⊢
      obtain ⟨t'', hrest, hend⟩ := ih' d (terminalPutch t c) (terminalPutch u c) n
        (fun e he => hformat e (List.mem_cons_of_mem c he)) (hequal.putch c) hwords
      refine ⟨t'', ?_, ?_⟩
      · rw [List.cons_append, kprintfFrom_char strAt args t n hc hpercent]
        exact hrest
      · rw [expand_char strAt hpercent]
        exact hend

/-- **Formatted output.**  On every terminated format and at least as many words as it has
    conversions, `kprintf` reads no byte past the terminator and no word past the last
    conversion's, takes exactly one word for each conversion, and leaves row, column and cells as
    `Terminal_Putch` on the expanded text does. -/
theorem kprintf_expands (t : Terminal) (strAt : Uint32 → CString) (format : CString)
    (args : List Uint32) (hformat : ∀ c ∈ format, c ≠ 0)
    (hwords : conversions format ≤ args.length) :
    ∃ t', kprintfFrom strAt args t 0 (format ++ [0]) = some (t', conversions format) ∧
      (∀ arg, Passed args arg → kprintf t strAt (format ++ [0]) arg = t') ∧
      t'.terminalRow = ((expand strAt format args).foldl terminalPutch t).terminalRow ∧
      t'.terminalColumn = ((expand strAt format args).foldl terminalPutch t).terminalColumn ∧
      t'.cells = ((expand strAt format args).foldl terminalPutch t).cells := by
  obtain ⟨t', hrun, hequal⟩ := kprintfFrom_expand strAt args format t t 0 hformat (.refl t)
    (by rw [Nat.zero_add]; exact hwords)
  rw [Nat.zero_add] at hrun
  refine ⟨t', hrun, fun arg hargs => ?_, hequal.row, hequal.column, hequal.cells⟩
  rw [kprintf, kprintfFrom_eq_loop hargs _ _ _ _ hrun]

/-- Three conversions, the last of them unknown, and a dangling percent sign. -/
theorem kprintf_expands_directives :
    ∃ t', kprintfFrom (fun _ => str "ab") [7, 1, 0x141] coldTerminal 0 (str "%x%s-%c%" ++ [0])
        = some (t', 3) ∧
      (∀ arg, Passed [7, 1, 0x141] arg →
        kprintf coldTerminal (fun _ => str "ab") (str "%x%s-%c%" ++ [0]) arg = t') ∧
      t'.terminalRow
        = ((expand (fun _ => str "ab") (str "%x%s-%c%") [7, 1, 0x141]).foldl terminalPutch
            coldTerminal).terminalRow ∧
      t'.terminalColumn
        = ((expand (fun _ => str "ab") (str "%x%s-%c%") [7, 1, 0x141]).foldl terminalPutch
            coldTerminal).terminalColumn ∧
      t'.cells
        = ((expand (fun _ => str "ab") (str "%x%s-%c%") [7, 1, 0x141]).foldl terminalPutch
            coldTerminal).cells :=
  kprintf_expands coldTerminal (fun _ => str "ab") (str "%x%s-%c%") [7, 1, 0x141] (by decide)
    (by decide)

end FreeMicroNix
