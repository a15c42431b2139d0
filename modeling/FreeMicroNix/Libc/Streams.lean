/-
  Several token streams in one memory.

  A stream is a buffer with its saved pointer; the calls of `strtok_r` on several streams come in
  any order, each with NULL or with a pointer into the buffer of its stream, and with delimiter
  sets of their own.  The buffers and the saved pointers are objects of their own, and so are the
  delimiter sets, which several calls may share.

  A call writes only to its buffer and its saved pointer, so it leaves the other streams as they
  were (`Open.step_other`), and takes its own one step of the reference further
  (`Open.step`).  The calls of a stream therefore run the reference wherever the calls of the
  others stand (`runCalls_eq`), and what they return and leave behind is what they do alone.
-/
import FreeMicroNix.Libc.TokenRuns

namespace FreeMicroNix.Libc

open PartialMemory

/-- A buffer, the text in it at first, and a saved pointer. -/
structure Stream where
  buf : Uint32
  text : CString
  sp : Uint32

/-- A call of `strtok_r` on a stream: with a pointer into its buffer, by its offset, or with
    NULL. -/
structure Call (ι : Type) where
  stream : ι
  start : Option Nat
  delim : Uint32
  set : CString

section Streams

variable {ι : Type} (streams : ι → Stream)

/-- The argument `str`. -/
def Call.str (c : Call ι) : Uint32 :=
  match c.start with
  | some k => (streams c.stream).buf + BitVec.ofNat 32 k
  | none => 0

/-- The calls one after the other, and what each returns to its stream. -/
def runCalls : Heap CChar → List (Call ι) → Option (Heap CChar × List (ι × Uint32))
  | h, [] => some (h, [])
  | h, c :: calls => do
    let (h, r) ← strtokR h (c.str streams) c.delim (streams c.stream).sp
    let (h, rs) ← runCalls h calls
    some (h, (c.stream, r) :: rs)

/-- The streams are objects of their own. -/
structure Separate : Prop where
  buffers : ∀ i j, i ≠ j → Apart (streams i).buf ((streams i).text.length + 1)
    (streams j).buf ((streams j).text.length + 1)
  saved : ∀ i j, i ≠ j → Apart (streams i).sp 4 (streams j).sp 4
  outside : ∀ i j, Apart (streams i).buf ((streams i).text.length + 1) (streams j).sp 4

/-- A call points into its buffer, and its delimiter set lies outside the streams. -/
structure Call.Sound (h : Heap CChar) (c : Call ι) : Prop where
  start : ∀ k, c.start = some k → k ≤ (streams c.stream).text.length
  set : IsString h c.delim c.set
  buffers : ∀ i, Apart c.delim (c.set.length + 1) (streams i).buf ((streams i).text.length + 1)
  saved : ∀ i, Apart c.delim (c.set.length + 1) (streams i).sp 4

end Streams

/-! ## The reference, with pointers -/

namespace Tokens

/-- A call with a pointer starts there. -/
def seek (t : Tokens) : Option Nat → Tokens
  | none => t
  | some k => ⟨t.text, min k t.text.length, Nat.min_le_right _ _⟩

/-- The calls of the reference, each with its pointer or NULL. -/
def runFrom : Tokens → List (Option Nat × CString) → List (Option (Nat × CString)) × Tokens
  | t, [] => ([], t)
  | t, (start, set) :: calls =>
    (((t.seek start).next set).1 :: (((t.seek start).next set).2.runFrom calls).1,
      (((t.seek start).next set).2.runFrom calls).2)

theorem text_seek (t : Tokens) (start : Option Nat) : (t.seek start).text = t.text := by
  cases start <;> rfl

theorem length_runFrom (t : Tokens) (calls : List (Option Nat × CString)) :
    (t.runFrom calls).2.text.length = t.text.length := by
  induction calls generalizing t with
  | nil => rfl
  | cons call calls ih => rw [runFrom, ih, length_next, text_seek]

theorem pos_seek {t : Tokens} {k : Nat} (hk : k ≤ t.text.length) : (t.seek (some k)).pos = k :=
  Nat.min_eq_left hk

end Tokens

/-! ## One stream -/

/-- A stream has come to the tokens `t`; once a call has started it, its saved pointer says so. -/
structure Open (s : Stream) (started : Prop) (h : Heap CChar) (t : Tokens) : Prop where
  length : t.text.length = s.text.length
  buffer : Buffer h s.buf t.text
  mapped : Mapped h s.sp 4
  saved : started → readWord h s.sp = some (s.buf + BitVec.ofNat 32 t.pos)

/-- Nothing has changed outside a stream. -/
def Elsewhere (s : Stream) (h h' : Heap CChar) : Prop :=
  ∀ a, ¬ Within s.buf (s.text.length + 1) a → ¬ Within s.sp 4 a → h' a = h a

section Steps

variable {ι : Type} {streams : ι → Stream} {h h' : Heap CChar} {started : Prop} {t : Tokens}
  {c : Call ι}

/-- **A call on a stream** takes it one step further. -/
theorem Open.step (hopen : Open (streams c.stream) started h t) (hsep : Separate streams)
    (hc : c.Sound streams h) (hstart : c.start = none → started) :
    ∃ h', strtokR h (c.str streams) c.delim (streams c.stream).sp
        = some (h', pointer (streams c.stream).buf ((t.seek c.start).next c.set).1) ∧
      Open (streams c.stream) True h' ((t.seek c.start).next c.set).2 ∧
      Elsewhere (streams c.stream) h h' := by
  have hlength : (t.seek c.start).text.length = (streams c.stream).text.length := by
    rw [t.text_seek]
    exact hopen.length
  have hr : Reentrant (streams c.stream).buf (streams c.stream).sp h (c.str streams)
      (t.seek c.start) := by
    refine ⟨?_, hopen.mapped, ?_, ?_⟩
    · rw [t.text_seek]
      exact hopen.buffer
    · rw [hlength]
      exact hsep.outside c.stream c.stream
    · -- with NULL the call goes on where the last one saved
      cases hk : c.start with
      | none =>
        refine Or.inr ⟨?_, hopen.saved (hstart hk)⟩
        rw [Call.str, hk]
      | some k =>
        have hin := hc.start k hk
        rw [← hopen.length] at hin
        refine Or.inl ?_
        rw [Call.str, hk, Tokens.pos_seek hin]
  obtain ⟨h', hcall, hnext, hframe⟩ := strtokR_next hr hc.set
  rw [hlength] at hframe
  have hsaved : readWord h' (streams c.stream).sp = some ((streams c.stream).buf
      + BitVec.ofNat 32 ((t.seek c.start).next c.set).2.pos) := by
    rcases hnext.resumes with hzero | ⟨-, hsaved⟩
    · exact absurd hzero.symm hnext.buffer.rest.nonnull
    · exact hsaved
  exact ⟨h', hcall, ⟨((t.seek c.start).length_next c.set).trans hlength, hnext.buffer,
    hnext.mapped, fun _ => hsaved⟩, hframe⟩

/-- **The other streams** stay as they were. -/
theorem Open.step_other {i j : ι} (hopen : Open (streams j) started h t)
    (hsep : Separate streams) (hij : j ≠ i) (hframe : Elsewhere (streams i) h h') :
    Open (streams j) started h' t where
  length := hopen.length
  buffer := by
    refine hopen.buffer.congr fun a ha => ?_
    rw [hopen.length] at ha
    exact hframe a (hsep.buffers j i hij a ha) (hsep.outside j i a ha)
  mapped a ha := by
    rw [hframe a (fun hbuf => hsep.outside i j a hbuf ha) (hsep.saved j i hij a ha)]
    exact hopen.mapped a ha
  saved hstarted := by
    rw [readWord_congr fun a ha => hframe a (fun hbuf => hsep.outside i j a hbuf ha)
      (hsep.saved j i hij a ha)]
    exact hopen.saved hstarted

/-- So do the delimiter sets. -/
theorem Call.Sound.step {i : ι} (hc : c.Sound streams h) (hframe : Elsewhere (streams i) h h') :
    c.Sound streams h' where
  start := hc.start
  set := hc.set.congr fun a ha => hframe a (hc.buffers i a ha) (hc.saved i a ha)
  buffers := hc.buffers
  saved := hc.saved

end Steps

/-! ## All streams -/

section Runs

variable {ι : Type} [DecidableEq ι] {streams : ι → Stream} {h : Heap CChar}

/-- The calls of one stream. -/
def callsOf (i : ι) (calls : List (Call ι)) : List (Call ι) := calls.filter (·.stream = i)

/-- What the calls of one stream returned. -/
def resultsOf (i : ι) (results : List (ι × Uint32)) : List Uint32 :=
  (results.filter (·.1 = i)).map (·.2)

theorem callsOf_cons_self (c : Call ι) (calls : List (Call ι)) :
    callsOf c.stream (c :: calls) = c :: callsOf c.stream calls :=
  List.filter_cons_of_pos (by simp)

theorem callsOf_cons_of_ne {i : ι} {c : Call ι} (hi : i ≠ c.stream) (calls : List (Call ι)) :
    callsOf i (c :: calls) = callsOf i calls :=
  List.filter_cons_of_neg (by simpa using hi.symm)

theorem resultsOf_cons_self (i : ι) (r : Uint32) (results : List (ι × Uint32)) :
    resultsOf i ((i, r) :: results) = r :: resultsOf i results := by
  rw [resultsOf, List.filter_cons_of_pos (by simp), List.map_cons, resultsOf]

theorem resultsOf_cons_of_ne {i j : ι} (hi : i ≠ j) (r : Uint32) (results : List (ι × Uint32)) :
    resultsOf i ((j, r) :: results) = resultsOf i results := by
  rw [resultsOf, List.filter_cons_of_neg (by simpa using hi.symm), resultsOf]

/-- The pointers and the sets of calls. -/
def arguments (calls : List (Call ι)) : List (Option Nat × CString) :=
  calls.map fun c => (c.start, c.set)

/-- A stream is started before it is gone on with: its first call passes a pointer, unless it has
    been started. -/
def Begins (started : Prop) (calls : List (Call ι)) : Prop :=
  ∀ c, calls.head? = some c → c.start = none → started

/-- **The calls of each stream run the reference**, wherever those of the others stand. -/
theorem runCalls_eq (hsep : Separate streams) {calls : List (Call ι)} {started : ι → Prop}
    {ts : ι → Tokens} (hopen : ∀ i, Open (streams i) (started i) h (ts i))
    (hbegins : ∀ i, Begins (started i) (callsOf i calls))
    (hcalls : ∀ c ∈ calls, c.Sound streams h) :
    ∃ h' results, runCalls streams h calls = some (h', results) ∧ ∀ i,
      resultsOf i results = ((ts i).runFrom (arguments (callsOf i calls))).1.map
        (pointer (streams i).buf) ∧
      Buffer h' (streams i).buf ((ts i).runFrom (arguments (callsOf i calls))).2.text := by
  induction calls generalizing h started ts with
  | nil => exact ⟨h, [], rfl, fun i => ⟨rfl, (hopen i).buffer⟩⟩
  | cons c calls ih =>
    have hfirst : c.start = none → started c.stream :=
      hbegins c.stream c (by rw [callsOf_cons_self]; rfl)
    obtain ⟨h₁, hcall, hnext, hframe⟩ :=
      (hopen c.stream).step hsep (hcalls c List.mem_cons_self) hfirst
    -- the stream of the call has moved on, the others are where they were
    have hopen₁ : ∀ i, Open (streams i) (started i ∨ i = c.stream) h₁ (Function.update ts c.stream
        (((ts c.stream).seek c.start).next c.set).2 i) := by
      intro i
      by_cases hi : i = c.stream
      · subst hi
        rw [Function.update_self]
        exact ⟨hnext.length, hnext.buffer, hnext.mapped, fun _ => hnext.saved trivial⟩
      · rw [Function.update_of_ne hi]
        have hother := (hopen i).step_other hsep hi hframe
        exact ⟨hother.length, hother.buffer, hother.mapped,
          fun h => hother.saved (h.resolve_right hi)⟩
    have hbegins₁ : ∀ i, Begins (started i ∨ i = c.stream) (callsOf i calls) := by
      intro i d hd hnone
      by_cases hi : i = c.stream
      · exact Or.inr hi
      · rw [← callsOf_cons_of_ne hi] at hd
        exact Or.inl (hbegins i d hd hnone)
    obtain ⟨h', results, hrun, hall⟩ := ih hopen₁ hbegins₁ fun d hd =>
      (hcalls d (List.mem_cons_of_mem c hd)).step hframe
    refine ⟨h', _, (bind_of_eq_some hcall _).trans (bind_of_eq_some hrun _), fun i => ?_⟩
    have hi := hall i
    by_cases hself : i = c.stream
    · subst hself
      rw [Function.update_self] at hi
      rw [callsOf_cons_self, resultsOf_cons_self, hi.1]
      exact ⟨rfl, hi.2⟩
    · rw [Function.update_of_ne hself] at hi
      rw [callsOf_cons_of_ne hself, resultsOf_cons_of_ne hself]
      exact hi

/-- The calls of a stream that are of another one. -/
theorem callsOf_callsOf (i j : ι) (calls : List (Call ι)) :
    callsOf j (callsOf i calls) = if j = i then callsOf i calls else [] := by
  unfold callsOf
  rw [List.filter_filter]
  by_cases hji : j = i
  · subst hji
    simp
  · rw [if_neg hji, List.filter_eq_nil_iff]
    intro c _ hboth
    obtain ⟨hj, hi⟩ : c.stream = j ∧ c.stream = i := by simpa using hboth
    exact hji (hj.symm.trans hi)

/-- **Independent streams.**  Whatever the order of the calls, every stream returns the pointers,
    and leaves in its buffer the bytes, that it does when its calls are the only ones. -/
theorem streams_independent {calls : List (Call ι)} (hsep : Separate streams)
    (htexts : ∀ i, IsString h (streams i).buf (streams i).text)
    (hmapped : ∀ i, Mapped h (streams i).sp 4) (hcalls : ∀ c ∈ calls, c.Sound streams h)
    (hbegins : ∀ i, Begins False (callsOf i calls)) :
    ∃ h' results, runCalls streams h calls = some (h', results) ∧ ∀ i,
      ∃ alone resultsAlone, runCalls streams h (callsOf i calls) = some (alone, resultsAlone) ∧
        resultsOf i results = resultsOf i resultsAlone ∧
        ∀ k ≤ (streams i).text.length, h' ((streams i).buf + BitVec.ofNat 32 k)
          = alone ((streams i).buf + BitVec.ofNat 32 k) := by
  have hopen : ∀ i, Open (streams i) False h (Tokens.ofText (streams i).text) := fun i =>
    ⟨rfl, Buffer.of_string (htexts i), hmapped i, False.elim⟩
  obtain ⟨h', results, hrun, hall⟩ := runCalls_eq hsep hopen hbegins hcalls
  refine ⟨h', results, hrun, fun i => ?_⟩
  -- run alone, the calls of the stream run the same reference
  have hbegins_alone : ∀ j, Begins False (callsOf j (callsOf i calls)) := by
    intro j c hc hnone
    rw [callsOf_callsOf] at hc
    split_ifs at hc
    · exact hbegins i c hc hnone
    · exact absurd hc (by simp)
  obtain ⟨alone, resultsAlone, hrun_alone, hall_alone⟩ := runCalls_eq hsep hopen hbegins_alone
    fun c hc => hcalls c (List.mem_of_mem_filter hc)
  obtain ⟨hresults, hbuffer⟩ := hall i
  obtain ⟨hresults_alone, hbuffer_alone⟩ := hall_alone i
  rw [callsOf_callsOf, if_pos rfl] at hresults_alone hbuffer_alone
  refine ⟨alone, resultsAlone, hrun_alone, hresults.trans hresults_alone.symm, fun k hk => ?_⟩
  have hlength := Tokens.length_runFrom (Tokens.ofText (streams i).text)
    (arguments (callsOf i calls))
  rw [hbuffer.read (hk.trans_eq hlength.symm), hbuffer_alone.read (hk.trans_eq hlength.symm)]

end Runs

/-- The text `x;y` in a second buffer at 0x1100, with a saved pointer at 0x3004. -/
def twoTexts : Heap CChar := lay (lay keyValueHeap 0x1100 (str "x;y" ++ [0])) 0x3004 [0, 0, 0, 0]

def twoStreams : Bool → Stream
  | false => ⟨0x1000, str "=k=v;", 0x3000⟩
  | true => ⟨0x1100, str "x;y", 0x3004⟩

/-- Calls on the two in turn; the second restarts after its first token. -/
def turns : List (Call Bool) :=
  [⟨false, some 0, 0x2000, str "="⟩, ⟨true, some 0, 0x2002, str ";"⟩,
    ⟨true, some 2, 0x2002, str ";"⟩, ⟨false, none, 0x2002, str ";"⟩, ⟨true, none, 0x2000, str "="⟩]

theorem streams_independent_turns :
    ∃ h' results, runCalls twoStreams twoTexts turns = some (h', results) ∧ ∀ i,
      ∃ alone resultsAlone, runCalls twoStreams twoTexts (callsOf i turns)
          = some (alone, resultsAlone) ∧
        resultsOf i results = resultsOf i resultsAlone ∧
        ∀ k ≤ (twoStreams i).text.length, h' ((twoStreams i).buf + BitVec.ofNat 32 k)
          = alone ((twoStreams i).buf + BitVec.ofNat 32 k) := by
  have hsep : Separate twoStreams := by
    refine ⟨fun i j hij => apart_of_le ?_ ?_, fun i j hij => apart_of_le ?_ ?_,
      fun i j => apart_of_le ?_ ?_⟩
    all_goals revert i j; decide
  have htexts : ∀ i, IsString twoTexts (twoStreams i).buf (twoStreams i).text := by decide +kernel
  have hmapped : ∀ i, Mapped twoTexts (twoStreams i).sp 4 := by
    intro i
    rw [mapped_iff (by decide)]
    revert i
    decide +kernel
  have hfar : ∀ c ∈ turns, ∀ i,
      (c.set.length + 1 ≤ ((twoStreams i).buf - c.delim).toNat ∧
        (twoStreams i).text.length + 1 ≤ (c.delim - (twoStreams i).buf).toNat) ∧
      c.set.length + 1 ≤ ((twoStreams i).sp - c.delim).toNat ∧
        4 ≤ (c.delim - (twoStreams i).sp).toNat := by decide
  have hsets : ∀ c ∈ turns, (∀ k ∈ c.start, k ≤ (twoStreams c.stream).text.length) ∧
      IsString twoTexts c.delim c.set := by decide +kernel
  have hcalls : ∀ c ∈ turns, c.Sound twoStreams twoTexts := fun c hc =>
    ⟨(hsets c hc).1, (hsets c hc).2, fun i => apart_of_le (hfar c hc i).1.1 (hfar c hc i).1.2,
      fun i => apart_of_le (hfar c hc i).2.1 (hfar c hc i).2.2⟩
  have hbegins : ∀ i, ∀ c ∈ (callsOf i turns).head?, c.start = none → False := by decide
  exact streams_independent hsep htexts hmapped hcalls hbegins

end FreeMicroNix.Libc
