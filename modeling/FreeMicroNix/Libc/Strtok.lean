/-
  `libc/string/strtok.c` and `libc/string/strtok_r.c`: the two tokenisers, one call at a time.

  The reference is `Tokens`: a text, and the position in it where the next call goes on.
  `Tokens.next` skips the bytes of the set, gives the run of other bytes behind them, and puts a
  zero in place of the one byte that ends the run, unless the text ends it.  What remains of the
  text is what stands from the position to the first zero.

  A call of either tokeniser is one step of the reference on the buffer it goes on in
  (`strtokR_next`, `strtok_next`).  They keep the position differently: `strtok_r` in the four
  bytes of `*saveptr`, always, `strtok` in its static `p`, where it is 0 once nothing remains.
  A call changes no byte outside the buffer and `*saveptr`.
-/
import FreeMicroNix.Libc.Strings

namespace FreeMicroNix.Libc

open PartialMemory

/-! ## The source -/

/-- `strtok_r` -/
def strtokR (h : Heap CChar) (str delim saveptr : Uint32) : Option (Heap CChar × Uint32) := do
  let str ← (if str = 0 then readWord h saveptr else some str)
  let skip ← strspn h str delim
  let str := str + skip
  let c ← h str
  if c = 0 then
    let h ← writeWord h saveptr str
    some (h, 0)
  else
    let token := str
    let str ← strpbrk h token delim
    if str = 0 then
      let last ← lfind h token 0
      let h ← writeWord h saveptr last
      some (h, token)
    else
      let h ← write h str 0
      let h ← writeWord h saveptr (str + 1)
      some (h, token)

/-- What `strtok` works on: memory, and its static variable. -/
structure Strtok where
  heap : Heap CChar
  p : Uint32

/-- `strtok` -/
def strtok (m : Strtok) (str delim : Uint32) : Option (Strtok × Uint32) :=
  if str = 0 ∧ m.p = 0 then some (m, 0)
  else do
    let h := m.heap
    let p := if str ≠ 0 then str else m.p
    let skip ← strspn h p delim
    let str := p + skip
    let run ← strcspn h str delim
    let p := str + run
    if p = str then some (⟨h, 0⟩, 0)
    else
      let c ← h p
      if c ≠ 0 then
        let h ← write h p 0
        some (⟨h, p + 1⟩, str)
      else some (⟨h, 0⟩, str)

/-! ## The reference -/

/-- A text that is being cut into tokens, and the position where the next call goes on. -/
structure Tokens where
  text : CString
  pos : Nat
  pos_le : pos ≤ text.length

namespace Tokens

/-- The remaining text. -/
def rest (t : Tokens) : CString := (t.text.drop t.pos).takeWhile (· ≠ 0)

/-- The position behind the remaining text. -/
def finish (t : Tokens) : Nat := t.pos + t.rest.length

/-- The remaining text without the bytes of the set it starts with. -/
def skipped (t : Tokens) (set : CString) : CString := t.rest.drop (spanIn set t.rest)

/-- The longest run of bytes not in the set from there on. -/
def token (t : Tokens) (set : CString) : CString :=
  (t.skipped set).take (spanOut set (t.skipped set))

/-- Where the token starts. -/
def start (t : Tokens) (set : CString) : Nat := t.pos + spanIn set t.rest

/-- Where it stops. -/
def stop (t : Tokens) (set : CString) : Nat := t.start set + spanOut set (t.skipped set)

theorem finish_le (t : Tokens) : t.finish ≤ t.text.length := by
  have hshort := ((t.text.drop t.pos).takeWhile_sublist (· ≠ 0)).length_le
  have hpos := t.pos_le
  rw [List.length_drop] at hshort
  unfold finish rest
  omega

theorem length_skipped (t : Tokens) (set : CString) :
    t.start set + (t.skipped set).length = t.finish := by
  have hspan := spanIn_le set t.rest
  rw [skipped, List.length_drop, start, finish]
  omega

theorem stop_le (t : Tokens) (set : CString) : t.stop set ≤ t.finish := by
  rw [← t.length_skipped set]
  exact Nat.add_le_add_left (spanOut_le set _) _

theorem start_le (t : Tokens) (set : CString) : t.start set ≤ t.finish :=
  Nat.le_trans (Nat.le_add_right _ _) (t.stop_le set)

theorem stop_lt (t : Tokens) (set : CString) (h : t.stop set ≠ t.finish) :
    t.stop set < t.text.length :=
  Nat.lt_of_lt_of_le (Nat.lt_of_le_of_ne (t.stop_le set) h) t.finish_le

theorem stop_succ_le (t : Tokens) (set : CString) (h : t.stop set ≠ t.finish) :
    t.stop set + 1 ≤ (t.text.set (t.stop set) 0).length := by
  rw [List.length_set]
  exact t.stop_lt set h

/-- Nothing remains. -/
def atEnd (t : Tokens) : Tokens := ⟨t.text, t.finish, t.finish_le⟩

/-- A zero in place of the byte the token ends at, and on behind it. -/
def cut (t : Tokens) (set : CString) (h : t.stop set ≠ t.finish) : Tokens :=
  ⟨t.text.set (t.stop set) 0, t.stop set + 1, t.stop_succ_le set h⟩

/-- **One call of the reference**: where its token starts and the token, if there is one, and what
    the text has become. -/
def next (t : Tokens) (set : CString) : Option (Nat × CString) × Tokens :=
  if t.start set = t.finish then (none, t.atEnd)
  else if h : t.stop set = t.finish then (some (t.start set, t.token set), t.atEnd)
  else (some (t.start set, t.token set), t.cut set h)

section Cases

variable {t : Tokens} {set : CString}

theorem next_of_none (hend : t.start set = t.finish) : t.next set = (none, t.atEnd) := if_pos hend

theorem next_of_last (hend : t.start set ≠ t.finish) (hlast : t.stop set = t.finish) :
    t.next set = (some (t.start set, t.token set), t.atEnd) :=
  (if_neg hend).trans (dif_pos hlast)

theorem next_of_cut (hend : t.start set ≠ t.finish) (hcut : t.stop set ≠ t.finish) :
    t.next set = (some (t.start set, t.token set), t.cut set hcut) :=
  (if_neg hend).trans (dif_neg hcut)

/-- Behind the remaining text nothing remains. -/
theorem rest_atEnd (t : Tokens) : t.atEnd.rest = [] := by
  have hlist : ∀ s : CString,
      (s.drop (s.takeWhile (· ≠ 0)).length).takeWhile (· ≠ 0) = [] := by
    intro s
    induction s with
    | nil => rfl
    | cons x s ih =>
      by_cases hx : x = 0
      · simp [hx]
      · rw [List.takeWhile_cons_of_pos (by simpa using hx), List.length_cons, List.drop_succ_cons]
        exact ih
  show ((t.text.drop (t.pos + t.rest.length)).takeWhile (· ≠ 0)) = []
  rw [← List.drop_drop]
  exact hlist (t.text.drop t.pos)

/-- Where nothing remains there is no token. -/
theorem start_of_rest (h : t.rest = []) (set : CString) : t.start set = t.finish := by
  rw [start, finish, h]
  rfl

/-- A token is not empty. -/
theorem stop_eq_start_iff (t : Tokens) (set : CString) :
    t.stop set = t.start set ↔ t.start set = t.finish := by
  have hzero := spanOut_drop_eq_zero_iff set t.rest
  unfold stop start finish skipped
  omega

/-- The text keeps its length. -/
theorem length_next (t : Tokens) (set : CString) :
    (t.next set).2.text.length = t.text.length := by
  unfold next
  split_ifs
  · rfl
  · rfl
  · exact List.length_set

end Cases

end Tokens

/-- The pointer a call returns. -/
def pointer (buf : Uint32) : Option (Nat × CString) → Uint32
  | none => 0
  | some (start, _) => buf + BitVec.ofNat 32 start

/-! ## The buffer -/

/-- The text lies at `buf`, with its terminator, in an object. -/
structure Buffer (h : Heap CChar) (buf : Uint32) (text : CString) : Prop where
  cells : Cells h buf (text ++ [0])
  nonnull : buf ≠ 0
  object : buf.toNat + text.length < 2 ^ 32

namespace Buffer

variable {h h' : Heap CChar} {buf : Uint32} {text set : CString} {t : Tokens}

/-- A string is a text without zeros. -/
theorem of_string (hs : IsString h buf text) : Buffer h buf text where
  cells := hs.cells
  nonnull := hs.nonnull
  object := hs.object

theorem congr (hb : Buffer h buf text) (hsame : ∀ a, Within buf (text.length + 1) a → h' a = h a) :
    Buffer h' buf text where
  cells := by
    have hobject := hb.object
    have hlen : (text ++ [0]).length = text.length + 1 := List.length_append
    exact hb.cells.congr (Nat.le_of_eq hlen) (by omega) hsame
  nonnull := hb.nonnull
  object := hb.object

/-- The bytes of the buffer are those of the text and its terminator. -/
theorem read (hb : Buffer h buf text) {i : Nat} (hi : i ≤ text.length) :
    h (buf + BitVec.ofNat 32 i) = (text ++ [0])[i]? := by
  have hin : i < (text ++ [0]).length := by
    rw [List.length_append]
    exact Nat.lt_succ_of_le hi
  rw [List.getElem?_eq_getElem hin]
  exact hb.cells i _ (List.getElem?_eq_getElem hin)

/-- The remaining text is a string. -/
theorem rest (hb : Buffer h buf t.text) : IsString h (buf + BitVec.ofNat 32 t.pos) t.rest := by
  have hpos := t.pos_le
  have hobject := hb.object
  have hnonnull := hb.nonnull
  have hcells := hb.cells.drop t.pos
  rw [List.drop_append_of_le_length hpos] at hcells
  refine Terminated.of_cells hcells (by bv_omega) ?_
  rw [List.length_drop]
  bv_omega

theorem skipped (hb : Buffer h buf t.text) (set : CString) :
    IsString h (buf + BitVec.ofNat 32 (t.start set)) (t.skipped set) := by
  have hdrop := hb.rest.drop (spanIn_le set t.rest)
  rw [add_ofNat_add_ofNat] at hdrop
  exact hdrop

/-- A zero can be planted in the text, and nothing else changes. -/
theorem plant (hb : Buffer h buf text) {k : Nat} (hk : k < text.length) :
    ∃ h', write h (buf + BitVec.ofNat 32 k) 0 = some h' ∧ Buffer h' buf (text.set k 0) ∧
      (∀ p n, Mapped h p n → Mapped h' p n) ∧
      ∀ a, ¬ Within buf (text.length + 1) a → h' a = h a := by
  have hobject := hb.object
  have hlen : (text ++ [0]).length = text.length + 1 := List.length_append
  have hin : k < (text ++ [0]).length := by omega
  refine ⟨_, write_of_mapped (hb.cells k _ (List.getElem?_eq_getElem hin)) 0,
    ⟨?_, hb.nonnull, ?_⟩, fun p n hmapped => hmapped.update _ 0, fun a ha => ?_⟩
  · rw [← List.set_append_left _ _ hk]
    exact hb.cells.write (by omega) hin 0
  · rw [List.length_set]
    exact hobject
  · apply Function.update_of_ne
    rintro rfl
    exact ha (within_add (by omega) (by omega))

end Buffer

/-! ## One call -/

/-- `strtok_r(str, …, &sp)` goes on at the position of `t`, in the buffer that holds its text:
    because `str` points there, or because `sp` does. -/
structure Reentrant (buf sp : Uint32) (h : Heap CChar) (str : Uint32) (t : Tokens) : Prop where
  buffer : Buffer h buf t.text
  mapped : Mapped h sp 4
  apart : Apart buf (t.text.length + 1) sp 4
  resumes : str = buf + BitVec.ofNat 32 t.pos ∨
    str = 0 ∧ readWord h sp = some (buf + BitVec.ofNat 32 t.pos)

/-- `strtok(str, …)` does: once nothing remains the static variable may be 0. -/
structure Static (buf : Uint32) (m : Strtok) (str : Uint32) (t : Tokens) : Prop where
  buffer : Buffer m.heap buf t.text
  resumes : str = buf + BitVec.ofNat 32 t.pos ∨
    str = 0 ∧ (m.p = buf + BitVec.ofNat 32 t.pos ∨ m.p = 0 ∧ t.rest = [])

section Calls

variable {h : Heap CChar} {m : Strtok} {buf sp str delim : Uint32} {set : CString} {t : Tokens}

/-- Every call of `strtok_r` ends by saving where the next one goes on. -/
theorem Reentrant.save {t : Tokens} (hb : Buffer h buf t.text) (hmapped : Mapped h sp 4)
    (hapart : Apart buf (t.text.length + 1) sp 4) :
    ∃ h', writeWord h sp (buf + BitVec.ofNat 32 t.pos) = some h' ∧ Reentrant buf sp h' 0 t ∧
      ∀ a, ¬ Within sp 4 a → h' a = h a := by
  refine ⟨_, writeWord_of_mapped hmapped _, ⟨?_, ?_, hapart, ?_⟩, fun a => putWord_outside h _⟩
  · exact hb.congr fun a ha => putWord_outside h _ (hapart a ha)
  · exact hmapped.putWord sp _
  · exact Or.inr ⟨rfl, readWord_putWord h sp _⟩

/-- What a call of `strtok_r` does, in the positions of the reference. -/
theorem strtokR_eq (hr : Reentrant buf sp h str t) (hset : IsString h delim set) :
    strtokR h str delim sp =
      let position := fun k => buf + BitVec.ofNat 32 k
      if t.start set = t.finish then
        writeWord h sp (position t.finish) >>= fun h => some (h, 0)
      else if t.stop set = t.finish then
        writeWord h sp (position t.finish) >>= fun h => some (h, position (t.start set))
      else
        write h (position (t.stop set)) 0 >>= fun h =>
          writeWord h sp (position (t.stop set + 1)) >>= fun h =>
            some (h, position (t.start set)) := by
  have hrest := hr.buffer.rest
  have hskipped := hr.buffer.skipped set
  have hresume : (if str = 0 then readWord h sp else some str)
      = some (buf + BitVec.ofNat 32 t.pos) := by
    rcases hr.resumes with hstr | ⟨hstr, hsaved⟩
    · rw [hstr, if_neg hrest.nonnull]
    · rw [if_pos hstr]
      exact hsaved
  obtain ⟨c, hc, hzero⟩ := hrest.read (spanIn_le set t.rest)
  rw [add_ofNat_add_ofNat] at hc
  have hstart : c = 0 ↔ t.start set = t.finish := hzero.trans Nat.add_left_cancel_iff.symm
  unfold strtokR
  simp only [bind_of_eq_some hresume, bind_of_eq_some (strspn_eq hrest hset), add_ofNat_add_ofNat,
    bind_of_eq_some hc]
  by_cases hend : t.start set = t.finish
  · -- the delimiters reach to the terminator, and `*saveptr` stays there
    rw [if_pos (hstart.mpr hend), if_pos hend, ← hend]
    rfl
  · have hlength := t.length_skipped set
    have hstop : spanOut set (t.skipped set) = (t.skipped set).length ↔ t.stop set = t.finish := by
      rw [← hlength]
      exact Nat.add_left_cancel_iff.symm
    have hbreak := strpbrk_eq hskipped hset
    rw [if_neg (mt hstart.mp hend), if_neg hend]
    by_cases hlast : t.stop set = t.finish
    · -- `strpbrk` finds no delimiter, and `lfind` the terminator
      rw [if_pos (hstop.mpr hlast)] at hbreak
      have hfind := lfind_eq hskipped
      rw [add_ofNat_add_ofNat, hlength] at hfind
      rw [if_pos hlast]
      exact (bind_of_eq_some hbreak _).trans ((if_pos rfl).trans (bind_of_eq_some hfind _))
    · have hnonnull := (hskipped.drop (spanOut_le set _)).nonnull
      rw [if_neg (mt hstop.mp hlast)] at hbreak
      rw [if_neg hlast]
      refine (bind_of_eq_some hbreak _).trans ((if_neg hnonnull).trans ?_)
      rw [add_ofNat_add_ofNat, add_ofNat_add_one]
      rfl

/-- **A call of `strtok_r`** is a step of the reference, and writes only to its buffer and to its
    saved pointer. -/
theorem strtokR_next (hr : Reentrant buf sp h str t) (hset : IsString h delim set) :
    ∃ h', strtokR h str delim sp = some (h', pointer buf (t.next set).1) ∧
      Reentrant buf sp h' 0 (t.next set).2 ∧
      ∀ a, ¬ Within buf (t.text.length + 1) a → ¬ Within sp 4 a → h' a = h a := by
  have hcall := strtokR_eq hr hset
  by_cases hend : t.start set = t.finish
  · obtain ⟨h', hwrite, hnext, hframe⟩ :=
      Reentrant.save (t := t.atEnd) hr.buffer hr.mapped hr.apart
    rw [hcall, if_pos hend, Tokens.next_of_none hend]
    exact ⟨h', bind_of_eq_some hwrite _, hnext, fun a _ ha => hframe a ha⟩
  · by_cases hlast : t.stop set = t.finish
    · obtain ⟨h', hwrite, hnext, hframe⟩ :=
        Reentrant.save (t := t.atEnd) hr.buffer hr.mapped hr.apart
      rw [hcall, if_neg hend, if_pos hlast, Tokens.next_of_last hend hlast]
      exact ⟨h', bind_of_eq_some hwrite _, hnext, fun a _ ha => hframe a ha⟩
    · obtain ⟨h₁, hplant, hb, hkept, hsame⟩ := hr.buffer.plant (t.stop_lt set hlast)
      have hapart : Apart buf ((t.cut set hlast).text.length + 1) sp 4 := by
        unfold Tokens.cut
        rw [List.length_set]
        exact hr.apart
      obtain ⟨h', hwrite, hnext, hframe⟩ :=
        Reentrant.save (t := t.cut set hlast) hb (hkept sp 4 hr.mapped) hapart
      rw [hcall, if_neg hend, if_neg hlast, Tokens.next_of_cut hend hlast]
      refine ⟨h', (bind_of_eq_some hplant _).trans (bind_of_eq_some hwrite _), hnext, ?_⟩
      intro a ha hsp
      rw [hframe a hsp, hsame a ha]

/-- What a call of `strtok` does, once it goes on at the position of `t`. -/
theorem strtok_eq (hb : Buffer m.heap buf t.text)
    (hresume : (if str ≠ 0 then str else m.p) = buf + BitVec.ofNat 32 t.pos)
    (hset : IsString m.heap delim set) :
    strtok m str delim =
      let position := fun k => buf + BitVec.ofNat 32 k
      if t.start set = t.finish then some (⟨m.heap, 0⟩, 0)
      else if t.stop set = t.finish then some (⟨m.heap, 0⟩, position (t.start set))
      else
        write m.heap (position (t.stop set)) 0 >>= fun h =>
          some (⟨h, position (t.stop set + 1)⟩, position (t.start set)) := by
  have hrest := hb.rest
  have hskipped := hb.skipped set
  have hgo : ¬ (str = 0 ∧ m.p = 0) := by
    rintro ⟨hstr, hp⟩
    rw [if_neg (not_not_intro hstr), hp] at hresume
    exact hrest.nonnull hresume.symm
  have hlength := t.length_skipped set
  obtain ⟨c, hc, hzero⟩ := hskipped.read (spanOut_le set (t.skipped set))
  have hstop : c = 0 ↔ t.stop set = t.finish := by
    rw [hzero, ← hlength]
    exact Nat.add_left_cancel_iff.symm
  have hempty : buf + BitVec.ofNat 32 (t.stop set) = buf + BitVec.ofNat 32 (t.start set)
      ↔ t.start set = t.finish := by
    have hfinish := t.finish_le
    have hstop := t.stop_le set
    have hstart := t.start_le set
    have hobject := hb.object
    rw [← t.stop_eq_start_iff set]
    exact ⟨fun h => add_ofNat_inj (by omega) (by omega) h, fun h => by rw [h]⟩
  have hrun := strcspn_eq hskipped hset
  rw [add_ofNat_add_ofNat] at hc
  unfold strtok
  rw [if_neg hgo]
  simp only [hresume, bind_of_eq_some (strspn_eq hrest hset), add_ofNat_add_ofNat]
  refine (bind_of_eq_some hrun _).trans ?_
  rw [add_ofNat_add_ofNat]
  by_cases hend : t.start set = t.finish
  · exact (if_pos (hempty.mpr hend)).trans (if_pos hend).symm
  · refine (if_neg (mt hempty.mp hend)).trans ((bind_of_eq_some hc _).trans ?_)
    rw [if_neg hend]
    by_cases hlast : t.stop set = t.finish
    · exact (if_neg (not_not_intro (hstop.mpr hlast))).trans (if_pos hlast).symm
    · rw [if_pos (mt hstop.mp hlast), if_neg hlast, add_ofNat_add_one]
      rfl

/-- **A call of `strtok`** is a step of the reference, and writes only to its buffer. -/
theorem strtok_next (hm : Static buf m str t) (hset : IsString m.heap delim set) :
    ∃ m', strtok m str delim = some (m', pointer buf (t.next set).1) ∧
      Static buf m' 0 (t.next set).2 ∧
      ∀ a, ¬ Within buf (t.text.length + 1) a → m'.heap a = m.heap a := by
  by_cases hdone : str = 0 ∧ m.p = 0 ∧ t.rest = []
  · -- the static variable is 0, and the call returns at once
    obtain ⟨hstr, hp, hrest⟩ := hdone
    rw [Tokens.next_of_none (Tokens.start_of_rest hrest set)]
    exact ⟨m, if_pos ⟨hstr, hp⟩, ⟨hm.buffer, Or.inr ⟨rfl, Or.inr ⟨hp, t.rest_atEnd⟩⟩⟩,
      fun a _ => rfl⟩
  · have hresume : (if str ≠ 0 then str else m.p) = buf + BitVec.ofNat 32 t.pos := by
      rcases hm.resumes with hstr | ⟨hstr, hp | ⟨hp, hrest⟩⟩
      · rw [hstr]
        exact if_pos hm.buffer.rest.nonnull
      · rw [if_neg (not_not_intro hstr)]
        exact hp
      · exact absurd ⟨hstr, hp, hrest⟩ hdone
    have hcall := strtok_eq hm.buffer hresume hset
    by_cases hend : t.start set = t.finish
    · rw [hcall, if_pos hend, Tokens.next_of_none hend]
      exact ⟨_, rfl, ⟨hm.buffer, Or.inr ⟨rfl, Or.inr ⟨rfl, t.rest_atEnd⟩⟩⟩, fun a _ => rfl⟩
    · by_cases hlast : t.stop set = t.finish
      · rw [hcall, if_neg hend, if_pos hlast, Tokens.next_of_last hend hlast]
        exact ⟨_, rfl, ⟨hm.buffer, Or.inr ⟨rfl, Or.inr ⟨rfl, t.rest_atEnd⟩⟩⟩, fun a _ => rfl⟩
      · obtain ⟨h₁, hplant, hb, -, hsame⟩ := hm.buffer.plant (t.stop_lt set hlast)
        rw [hcall, if_neg hend, if_neg hlast, Tokens.next_of_cut hend hlast]
        exact ⟨_, bind_of_eq_some hplant _, ⟨hb, Or.inr ⟨rfl, Or.inl rfl⟩⟩, hsame⟩

end Calls

end FreeMicroNix.Libc
