/-
  What a call of `kprintf` prints, and the words it reads for it.

  `kprintf` cannot know how many words were passed: it takes one for each conversion of its format
  (`kprintf_text`).  So a call stays within its arguments exactly when there are that many
  (`kprintfFrom_isSome_iff`), and prints whatever lies behind them when there are not.

  A format is a sequence of labels with a conversion behind each, and a tail; its text is the
  fields between the labels (`Format.expand_words`).
-/
import FreeMicroNix.Lib.LabelledText
import FreeMicroNix.Video.Kprintf

namespace FreeMicroNix

open LabelledText

/-! ## The words a call takes -/

/-- The loop ends at the terminator of its format as at the end of the bytes. -/
theorem kprintfLoop_terminator (strAt : Uint32 → CString) (arg : Nat → Uint32) (format : CString)
    (hformat : ∀ c ∈ format, c ≠ 0) :
    ∀ (t : Terminal) (n : Nat),
      kprintfLoop strAt arg t n (format ++ [0]) = kprintfLoop strAt arg t n format := by
  induction format using List.twoStepInduction with
  | nil => intro t n; rfl
  | singleton c =>
    intro t n
    have hc := hformat c List.mem_cons_self
    rw [List.singleton_append, kprintfLoop, kprintfLoop, if_neg hc, if_neg hc]
    by_cases hpercent : c ≠ ch '%'
    · rw [if_pos hpercent, if_pos hpercent]
      rfl
    · rw [if_neg hpercent, if_neg hpercent, if_neg (by decide), if_neg (by decide), if_pos rfl]
  | cons_cons c d format ih ih' =>
    intro t n
    have hinner : ∀ e ∈ format, e ≠ 0 :=
      fun e he => hformat e (List.mem_cons_of_mem c (List.mem_cons_of_mem d he))
    have hnext := ih' d fun e he => hformat e (List.mem_cons_of_mem c he)
    simp only [List.cons_append] at hnext ⊢
    simp only [kprintfLoop, hnext, ih hinner]

/-- The words the loop takes: one for each conversion. -/
def wordsTaken (format : CString) (arg : Nat → Uint32) : List Uint32 :=
  (List.range (conversions format)).map arg

theorem wordsTaken_passed (format : CString) (arg : Nat → Uint32) :
    Passed (wordsTaken format arg) arg := by
  intro i w hw
  unfold wordsTaken at hw
  obtain ⟨hi, hword⟩ := List.getElem?_eq_some_iff.mp hw
  rw [List.getElem_map, List.getElem_range] at hword
  exact hword

/-- **What a call prints**, whatever the words on the stack are: the text of its format with the
    words it takes, of which there are as many as conversions. -/
theorem kprintf_text (strAt : Uint32 → CString) (arg : Nat → Uint32) {format : CString}
    (hformat : ∀ c ∈ format, c ≠ 0) {t u : Terminal} (hequal : EqualButPorts t u) :
    (kprintfLoop strAt arg t 0 format).2 = conversions format ∧
      EqualButPorts (kprintf t strAt format arg)
        ((expand strAt format (wordsTaken format arg)).foldl terminalPutch u) := by
  have hlen : (wordsTaken format arg).length = conversions format := by
    rw [wordsTaken, List.length_map, List.length_range]
  obtain ⟨t', hrun, hend⟩ := kprintfFrom_expand strAt (wordsTaken format arg) format t u 0 hformat
    hequal (by omega)
  have hloop := kprintfFrom_eq_loop (wordsTaken_passed format arg) _ _ _ _ hrun
  rw [kprintfLoop_terminator strAt arg format hformat, Nat.zero_add] at hloop
  rw [kprintf, hloop]
  exact ⟨rfl, hend⟩

/-- With fewer words than conversions the loop reads past them. -/
theorem kprintfFrom_short (strAt : Uint32 → CString) (args : List Uint32) (format : CString) :
    ∀ (t : Terminal) (n : Nat), (∀ c ∈ format, c ≠ 0) → n ≤ args.length →
      args.length < n + conversions format →
      kprintfFrom strAt args t n (format ++ [0]) = none := by
  induction format using List.twoStepInduction with
  | nil => intro t n _ hn hshort; exact absurd hshort (Nat.not_lt.mpr hn)
  | singleton c => intro t n _ hn hshort; exact absurd hshort (Nat.not_lt.mpr hn)
  | cons_cons c d format ih ih' =>
    intro t n hformat hn hshort
    have hc := hformat c List.mem_cons_self
    have hd := hformat d (List.mem_cons_of_mem c List.mem_cons_self)
    by_cases hpercent : c = ch '%'
    · subst hpercent
      rw [conversions, if_neg (not_not_intro rfl)] at hshort
      rcases Nat.lt_or_eq_of_le hn with hmore | hlast
      · have hw : args[n]? = some args[n] := List.getElem?_eq_getElem hmore
        obtain ⟨t', hstep, -⟩ := kprintfFrom_conversion strAt (.refl t) hd hw (format ++ [0])
        rw [List.cons_append, List.cons_append, hstep]
        exact ih t' (n + 1)
          (fun e he => hformat e (List.mem_cons_of_mem _ (List.mem_cons_of_mem d he))) hmore
          (by omega)
      · -- the first word that was not passed
        have hnone : args[n]? = none := List.getElem?_eq_none (Nat.le_of_eq hlast.symm)
        rw [List.cons_append, List.cons_append, kprintfFrom, if_neg hc,
          if_neg (not_not_intro rfl)]
        dsimp only
        rw [if_neg hd, hnone]
    · rw [conversions, if_pos hpercent] at hshort
      have hrest := ih' d (terminalPutch t c) n
        (fun e he => hformat e (List.mem_cons_of_mem c he)) hn hshort
      rw [List.cons_append, kprintfFrom_char strAt args t n hc hpercent]
      exact hrest

/-- **A call stays within the words passed** exactly when it has no more conversions than these. -/
theorem kprintfFrom_isSome_iff (strAt : Uint32 → CString) (args : List Uint32) {format : CString}
    (hformat : ∀ c ∈ format, c ≠ 0) (t : Terminal) :
    (kprintfFrom strAt args t 0 (format ++ [0])).isSome ↔ conversions format ≤ args.length := by
  constructor
  · intro hsome
    by_contra hfew
    rw [kprintfFrom_short strAt args format t 0 hformat (Nat.zero_le _) (by omega)] at hsome
    exact absurd hsome (by decide)
  · intro henough
    obtain ⟨t', hrun, -⟩ := kprintfFrom_expand strAt args format t t 0 hformat (.refl t) (by omega)
    rw [hrun]
    rfl

/-! ## Labels and conversions -/

/-- A conversion and the characters before it. -/
structure Piece where
  label : CString
  directive : CChar
  deriving DecidableEq

/-- Characters that are printed as they are. -/
def Verbatim (s : CString) : Prop := ∀ c ∈ s, c ≠ 0 ∧ c ≠ ch '%'

/-- A format in which every percent sign is that of a conversion. -/
structure Format where
  pieces : List Piece
  tail : CString
  labels : ∀ piece ∈ pieces, Verbatim piece.label
  directives : ∀ piece ∈ pieces, piece.directive ≠ 0
  verbatimTail : Verbatim tail

/-- The bytes of some pieces and a tail. -/
def bytesOf : List Piece → CString → CString
  | [], tail => tail
  | piece :: pieces, tail => piece.label ++ ch '%' :: piece.directive :: bytesOf pieces tail

/-- The bytes of a format, without its terminator. -/
def Format.bytes (f : Format) : CString := bytesOf f.pieces f.tail

section Verbatim

variable (strAt : Uint32 → CString) {label : CString}

theorem Verbatim.head {c : CChar} (h : Verbatim (c :: label)) : c ≠ ch '%' :=
  (h c List.mem_cons_self).2

theorem Verbatim.tail {c : CChar} (h : Verbatim (c :: label)) : Verbatim label :=
  fun d hd => h d (List.mem_cons_of_mem c hd)

/-- A label takes no word. -/
theorem conversions_label (hlabel : Verbatim label) (format : CString) :
    conversions (label ++ format) = conversions format := by
  induction label with
  | nil => rfl
  | cons c label ih =>
    rw [List.cons_append, ← ih hlabel.tail]
    cases label ++ format with
    | nil => rfl
    | cons d rest => rw [conversions, if_pos hlabel.head]

/-- A label is its own text. -/
theorem expand_label (hlabel : Verbatim label) (format : CString) (args : List Uint32) :
    expand strAt (label ++ format) args = label ++ expand strAt format args := by
  induction label with
  | nil => rfl
  | cons c label ih =>
    rw [List.cons_append, List.cons_append, ← ih hlabel.tail]
    cases label ++ format with
    | nil => rw [expand, expand, if_neg hlabel.head]
    | cons d rest => exact expand_char strAt hlabel.head d rest args

theorem expand_verbatim (hlabel : Verbatim label) (args : List Uint32) :
    expand strAt label args = label := by
  have hwhole := expand_label strAt hlabel [] args
  rw [List.append_nil, expand, List.append_nil] at hwhole
  exact hwhole

/-- A conversion takes one word. -/
theorem expand_directive (d : CChar) (format : CString) (w : Uint32) (args : List Uint32) :
    expand strAt (ch '%' :: d :: format) (w :: args)
      = expandWord strAt d w ++ expand strAt format args := by
  rw [expand, if_neg (not_not_intro rfl)]

end Verbatim

theorem bytesOf_ne_zero {pieces : List Piece} {tail : CString}
    (hlabels : ∀ piece ∈ pieces, Verbatim piece.label)
    (hdirectives : ∀ piece ∈ pieces, piece.directive ≠ 0) (htail : Verbatim tail) :
    ∀ c ∈ bytesOf pieces tail, c ≠ 0 := by
  induction pieces with
  | nil => exact fun c hc => (htail c hc).1
  | cons piece pieces ih =>
    intro c hc
    rw [bytesOf, List.mem_append, List.mem_cons, List.mem_cons] at hc
    rcases hc with hc | rfl | rfl | hc
    · exact (hlabels piece List.mem_cons_self c hc).1
    · decide
    · exact hdirectives piece List.mem_cons_self
    · exact ih (fun p hp => hlabels p (List.mem_cons_of_mem piece hp))
        (fun p hp => hdirectives p (List.mem_cons_of_mem piece hp)) c hc

theorem conversions_bytesOf {pieces : List Piece} {tail : CString}
    (hlabels : ∀ piece ∈ pieces, Verbatim piece.label) (htail : Verbatim tail) :
    conversions (bytesOf pieces tail) = pieces.length := by
  induction pieces with
  | nil =>
    have hnone := conversions_label htail []
    rw [List.append_nil] at hnone
    exact hnone
  | cons piece pieces ih =>
    rw [bytesOf, conversions_label (hlabels piece List.mem_cons_self), conversions,
      if_neg (not_not_intro rfl), ih fun p hp => hlabels p (List.mem_cons_of_mem piece hp),
      List.length_cons]

theorem expand_bytesOf (strAt : Uint32 → CString) {pieces : List Piece} {tail : CString}
    {args : List Uint32} (hlabels : ∀ piece ∈ pieces, Verbatim piece.label) (htail : Verbatim tail)
    (hlen : args.length = pieces.length) :
    expand strAt (bytesOf pieces tail) args
      = weave (pieces.map Piece.label)
          (List.zipWith (expandWord strAt) (pieces.map Piece.directive) args) ++ tail := by
  induction pieces generalizing args with
  | nil => exact expand_verbatim strAt htail args
  | cons piece pieces ih =>
    obtain ⟨w, args, rfl⟩ := List.exists_cons_of_length_eq_add_one hlen
    have hrest := ih (fun p hp => hlabels p (List.mem_cons_of_mem piece hp)) (Nat.succ.inj hlen)
    rw [bytesOf, expand_label strAt (hlabels piece List.mem_cons_self), expand_directive, hrest,
      List.map_cons, List.map_cons, List.zipWith_cons_cons, weave_cons, List.append_assoc,
      List.append_assoc]

namespace Format

variable (f : Format)

theorem bytes_ne_zero : ∀ c ∈ f.bytes, c ≠ 0 :=
  bytesOf_ne_zero f.labels f.directives f.verbatimTail

/-- As many conversions as pieces. -/
theorem conversions_bytes : conversions f.bytes = f.pieces.length :=
  conversions_bytesOf f.labels f.verbatimTail

/-- **The text of a format**: the field of each word behind its label, and the tail. -/
theorem expand_words (strAt : Uint32 → CString) (arg : Nat → Uint32) :
    expand strAt f.bytes (wordsTaken f.bytes arg)
      = weave (f.pieces.map Piece.label)
          (List.zipWith (expandWord strAt) (f.pieces.map Piece.directive)
            ((List.range f.pieces.length).map arg)) ++ f.tail := by
  rw [wordsTaken, conversions_bytes]
  exact expand_bytesOf strAt f.labels f.verbatimTail (by rw [List.length_map, List.length_range])

end Format

end FreeMicroNix
