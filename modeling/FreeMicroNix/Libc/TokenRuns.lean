/-
  Sequences of calls of the tokenisers: `strtok(s, d1)`, `strtok(NULL, d2)`, …, and the same with
  `strtok_r`.

  A sequence of calls runs the reference (`calls_run`), by the lemma about one call, as long as
  every delimiter set is a string when its call is made.  So what the calls return, what the buffer
  holds after them and how soon they return NULL are questions about `Tokens.run` alone:

    * the position never moves back, and a call that has a token moves it on
      (`lt_of_token`), so there are at most as many tokens as bytes;
    * once nothing remains, nothing ever does (`none_of_none`);
    * what a call leaves behind its position, and every zero, stays (`run_keeps`), so the tokens
      are still strings in the buffer at the end (`run_token`).
-/
import FreeMicroNix.Libc.Strtok
import Mathlib.Data.List.Forall2

namespace FreeMicroNix.Libc

open PartialMemory

/-! ## The runs -/

/-- The calls `tok(str, d1)`, `tok(NULL, d2)`, … of a tokeniser, and what they return. -/
def calls {σ : Type} (tok : σ → Uint32 → Uint32 → Option (σ × Uint32)) :
    σ → Uint32 → List Uint32 → Option (σ × List Uint32)
  | s, _, [] => some (s, [])
  | s, str, delim :: delims => do
    let (s, token) ← tok s str delim
    let (s, tokens) ← calls tok s 0 delims
    some (s, token :: tokens)

/-- The delimiter sets of the calls, with their addresses: each is a string when its call is
    made. -/
def Supplied {σ : Type} (tok : σ → Uint32 → Uint32 → Option (σ × Uint32)) (heap : σ → Heap CChar) :
    σ → Uint32 → List (Uint32 × CString) → Prop
  | _, _, [] => True
  | s, str, (delim, set) :: delims => IsString (heap s) delim set ∧
      ∀ s' token, tok s str delim = some (s', token) → Supplied tok heap s' 0 delims

namespace Tokens

/-- The calls of the reference. -/
def run : Tokens → List CString → List (Option (Nat × CString)) × Tokens
  | t, [] => ([], t)
  | t, set :: sets => ((t.next set).1 :: ((t.next set).2.run sets).1, ((t.next set).2.run sets).2)

/-- A whole text. -/
def ofText (text : CString) : Tokens := ⟨text, 0, Nat.zero_le _⟩

end Tokens

/-- **A sequence of calls runs the reference**, if one call makes a step of it. -/
theorem calls_run {σ : Type} {tok : σ → Uint32 → Uint32 → Option (σ × Uint32)}
    {heap : σ → Heap CChar} (buf : Uint32) {R : σ → Uint32 → Tokens → Prop}
    (hnext : ∀ {s str delim set t}, R s str t → IsString (heap s) delim set →
      ∃ s', tok s str delim = some (s', pointer buf (t.next set).1) ∧ R s' 0 (t.next set).2)
    {delims : List (Uint32 × CString)} {s : σ} {str : Uint32} {t : Tokens} (hr : R s str t)
    (hsupplied : Supplied tok heap s str delims) :
    ∃ s', calls tok s str (delims.map (·.1))
        = some (s', (t.run (delims.map (·.2))).1.map (pointer buf)) ∧
      R s' (if delims = [] then str else 0) (t.run (delims.map (·.2))).2 := by
  induction delims generalizing s str t with
  | nil => exact ⟨s, rfl, hr⟩
  | cons d delims ih =>
    obtain ⟨hset, hrest⟩ := hsupplied
    obtain ⟨s₁, hcall, hr₁⟩ := hnext hr hset
    obtain ⟨s', hcalls, hr'⟩ := ih hr₁ (hrest s₁ _ hcall)
    rw [ite_self] at hr'
    refine ⟨s', ?_, hr'⟩
    rw [List.map_cons, calls]
    exact (bind_of_eq_some hcall _).trans (bind_of_eq_some hcalls _)

/-- Strings that no call writes to are supplied. -/
theorem supplied_of_frame {σ : Type} {tok : σ → Uint32 → Uint32 → Option (σ × Uint32)}
    {heap : σ → Heap CChar} (buf : Uint32) {R : σ → Uint32 → Tokens → Prop} {F : Uint32 → Prop}
    (hnext : ∀ {s str delim set t}, R s str t → IsString (heap s) delim set →
      ∃ s', tok s str delim = some (s', pointer buf (t.next set).1) ∧ R s' 0 (t.next set).2 ∧
        ∀ a, ¬ F a → heap s' a = heap s a)
    {delims : List (Uint32 × CString)} {s : σ} {str : Uint32} {t : Tokens} (hr : R s str t)
    (hdelims : ∀ d ∈ delims, IsString (heap s) d.1 d.2 ∧
      ∀ a, Within d.1 (d.2.length + 1) a → ¬ F a) :
    Supplied tok heap s str delims := by
  induction delims generalizing s str t with
  | nil => trivial
  | cons d delims ih =>
    have hset := (hdelims d List.mem_cons_self).1
    obtain ⟨s₁, hcall, hr₁, hframe⟩ := hnext hr hset
    refine ⟨hset, fun s' token hcall' => ?_⟩
    obtain ⟨rfl, -⟩ := Prod.mk.inj (Option.some.inj (hcall.symm.trans hcall'))
    -- the call has not written to the sets of the calls behind it
    refine ih hr₁ fun e he => ?_
    obtain ⟨hstring, hout⟩ := hdelims e (List.mem_cons_of_mem d he)
    exact ⟨hstring.congr fun a ha => hframe a (hout a ha), hout⟩

/-! ## The reference over a run -/

namespace Tokens

variable {t : Tokens} {sets : List CString} {set : CString}

/-- What every call keeps, a run keeps. -/
theorem run_keep {P : Tokens → Prop} (hnext : ∀ {t set}, P t → P (t.next set).2) (ht : P t) :
    P (t.run sets).2 := by
  induction sets generalizing t with
  | nil => exact ht
  | cons set sets ih => exact ih (hnext ht)

theorem length_run (t : Tokens) (sets : List CString) :
    (t.run sets).2.text.length = t.text.length :=
  run_keep (P := fun t' => t'.text.length = t.text.length)
    (fun h => (length_next _ _).trans h) rfl

/-- The position never moves back. -/
theorem pos_le_next (t : Tokens) (set : CString) : t.pos ≤ (t.next set).2.pos := by
  have hstart : t.pos ≤ t.start set := Nat.le_add_right _ _
  have hstop : t.start set ≤ t.stop set := Nat.le_add_right _ _
  have hfinish := t.start_le set
  unfold next
  split_ifs
  · exact Nat.le_trans hstart hfinish
  · exact Nat.le_trans hstart hfinish
  · exact Nat.le_succ_of_le (Nat.le_trans hstart hstop)

/-- A call without a token leaves nothing. -/
theorem rest_of_none (h : (t.next set).1 = none) : (t.next set).2.rest = [] := by
  unfold next at h ⊢
  split_ifs at h ⊢ with hend
  exact t.rest_atEnd

/-- Where nothing remains there is never a token again. -/
theorem run_of_rest (hrest : t.rest = []) : ∀ r ∈ (t.run sets).1, r = none := by
  induction sets generalizing t with
  | nil => exact fun r hr => absurd hr List.not_mem_nil
  | cons set sets ih =>
    have hnext := next_of_none (start_of_rest hrest set)
    intro r hr
    rw [run, hnext] at hr
    rcases List.mem_cons.mp hr with rfl | hr
    · rfl
    · exact ih t.rest_atEnd r hr

/-- **NULL stays.**  Behind a call without a token there is no token. -/
theorem none_of_none {j k : Nat} {r : Option (Nat × CString)}
    (hj : (t.run sets).1[j]? = some none) (hk : (t.run sets).1[k]? = some r) (hjk : j ≤ k) :
    r = none := by
  induction sets generalizing t j k with
  | nil => exact absurd hj (by simp [run])
  | cons set sets ih =>
    rw [run] at hj hk
    -- either this call is the one without a token, or both are later ones
    cases j with
    | zero =>
      have hnone : (t.next set).1 = none := Option.some.inj hj
      cases k with
      | zero => exact (Option.some.inj hk).symm.trans hnone
      | succ k => exact run_of_rest (rest_of_none hnone) r (List.mem_of_getElem? hk)
    | succ j =>
      obtain ⟨k, rfl⟩ := Nat.exists_eq_succ_of_ne_zero (Nat.ne_of_gt (Nat.zero_lt_of_lt hjk))
      exact ih hj hk (Nat.le_of_succ_le_succ hjk)

/-- A call with a token moves the position on. -/
theorem pos_lt_next {x : Nat × CString} (h : (t.next set).1 = some x) :
    t.pos < (t.next set).2.pos := by
  have hstart : t.pos ≤ t.start set := Nat.le_add_right _ _
  have hstop : t.start set ≤ t.stop set := Nat.le_add_right _ _
  have hfinish := t.start_le set
  unfold next at h ⊢
  split_ifs at h ⊢ with hend hlast
  · exact Nat.lt_of_le_of_lt hstart (Nat.lt_of_le_of_ne hfinish hend)
  · exact Nat.lt_succ_of_le (Nat.le_trans hstart hstop)

/-- **There are at most as many tokens as bytes remain.** -/
theorem lt_of_token {k : Nat} {x : Nat × CString} (hk : (t.run sets).1[k]? = some (some x)) :
    k < t.text.length - t.pos := by
  induction sets generalizing t k with
  | nil => exact absurd hk (by simp [run])
  | cons set sets ih =>
    have hpos := (t.next set).2.pos_le
    rw [run] at hk
    cases htoken : (t.next set).1 with
    | none =>
      rw [htoken] at hk
      cases k with
      | zero => exact absurd hk (by simp)
      | succ k =>
        exact absurd (run_of_rest (rest_of_none htoken) _ (List.mem_of_getElem? hk)) (by simp)
    | some y =>
      -- the call has moved on, so there is less left for those behind it
      have hmove := pos_lt_next htoken
      rw [length_next] at hpos
      cases k with
      | zero => omega
      | succ k =>
        have hless := ih hk
        rw [length_next] at hless
        omega

/-- A call changes one byte at most, behind the position, and to zero. -/
theorem next_keeps {i : Nat} {c : CChar} (hc : (t.text ++ [0])[i]? = some c)
    (hkept : i < t.pos ∨ c = 0) : ((t.next set).2.text ++ [0])[i]? = some c := by
  unfold next
  split_ifs with hend hlast
  · exact hc
  · exact hc
  · have hstop : t.pos ≤ t.stop set := Nat.le_trans (Nat.le_add_right _ _) (Nat.le_add_right _ _)
    have hlt := t.stop_lt set hlast
    show ((t.text.set (t.stop set) 0) ++ [0])[i]? = some c
    rw [← List.set_append_left _ _ hlt]
    -- the byte overwritten is not before the position, so if it has to stay it is a zero
    by_cases hi : t.stop set = i
    · subst hi
      rcases hkept with hbefore | rfl
      · exact absurd hbefore (Nat.not_lt.mpr hstop)
      · rw [List.getElem?_set_self (by rw [List.length_append]; omega)]
    · rw [List.getElem?_set_ne hi]
      exact hc

/-- **What stands before the position stays, and every zero stays.** -/
theorem run_keeps {i : Nat} {c : CChar} (hc : (t.text ++ [0])[i]? = some c)
    (hkept : i < t.pos ∨ c = 0) : ((t.run sets).2.text ++ [0])[i]? = some c := by
  have hrun : ((t.run sets).2.text ++ [0])[i]? = some c ∧ (i < (t.run sets).2.pos ∨ c = 0) := by
    refine run_keep (P := fun t => (t.text ++ [0])[i]? = some c ∧ (i < t.pos ∨ c = 0)) ?_
      ⟨hc, hkept⟩
    rintro t set ⟨hc, hkept⟩
    exact ⟨next_keeps hc hkept,
      hkept.imp_left fun h => Nat.lt_of_lt_of_le h (t.pos_le_next set)⟩
  exact hrun.1

/-! ### The tokens -/

/-- The token stands in the text at `start`, ended by a zero. -/
structure Spelled (text : CString) (start : Nat) (token : CString) : Prop where
  nonempty : token ≠ []
  ne_zero : ∀ c ∈ token, c ≠ 0
  bytes : ∀ (i : Nat) (c : CChar), (token ++ [0])[i]? = some c → (text ++ [0])[start + i]? = some c

theorem length_token (t : Tokens) (set : CString) :
    t.start set + (t.token set).length = t.stop set := by
  rw [token, List.length_take, Nat.min_eq_left (spanOut_le _ _), stop]

theorem text_of_rest {i : Nat} {c : CChar} (h : t.rest[i]? = some c) :
    t.text[t.pos + i]? = some c := by
  have hi : i < t.rest.length := (List.getElem?_eq_some_iff.mp h).1
  have hsplit : t.rest ++ (t.text.drop t.pos).dropWhile (· ≠ 0) = t.text.drop t.pos :=
    List.takeWhile_append_dropWhile
  rw [← List.getElem?_drop, ← hsplit, List.getElem?_append_left hi]
  exact h

/-- The remaining text ends at a zero. -/
theorem zero_at_finish (t : Tokens) : (t.text ++ [0])[t.finish]? = some 0 := by
  have hlist : ∀ s : CString, (s ++ [0])[(s.takeWhile (· ≠ 0)).length]? = some 0 := by
    intro s
    induction s with
    | nil => rfl
    | cons x s ih =>
      by_cases hx : x = 0
      · simp [hx]
      · rw [List.takeWhile_cons_of_pos (by simpa using hx)]
        exact ih
  have hdrop := hlist (t.text.drop t.pos)
  rw [← List.drop_append_of_le_length t.pos_le, List.getElem?_drop] at hdrop
  exact hdrop

theorem ne_zero_of_rest {c : CChar} (h : c ∈ t.rest) : c ≠ 0 := by
  simpa using List.mem_takeWhile_imp h

theorem token_subset {c : CChar} (h : c ∈ t.token set) : c ∈ t.rest :=
  List.mem_of_mem_drop (List.mem_of_mem_take h)

theorem text_of_token {i : Nat} {c : CChar} (h : (t.token set)[i]? = some c) :
    t.text[t.start set + i]? = some c := by
  have hi : i < spanOut set (t.skipped set) := by
    have hlt := (List.getElem?_eq_some_iff.mp h).1
    rw [token, List.length_take] at hlt
    omega
  rw [token, List.getElem?_take_of_lt hi, skipped, List.getElem?_drop] at h
  rw [start, Nat.add_assoc]
  exact text_of_rest h

/-- Where a token ends, the text has a zero after the call. -/
theorem zero_at_stop (hend : t.start set ≠ t.finish) :
    ((t.next set).2.text ++ [0])[t.stop set]? = some 0 := by
  by_cases hlast : t.stop set = t.finish
  · rw [next_of_last hend hlast, hlast]
    exact t.zero_at_finish
  · have hlt := t.stop_lt set hlast
    rw [next_of_cut hend hlast]
    show ((t.text.set (t.stop set) 0) ++ [0])[t.stop set]? = some 0
    rw [List.getElem?_append_left (by rw [List.length_set]; exact hlt), List.getElem?_set_self hlt]

/-- Before that nothing changes. -/
theorem text_before_stop {i : Nat} (hi : i < t.stop set) :
    (t.next set).2.text[i]? = t.text[i]? := by
  unfold next
  split_ifs
  · rfl
  · rfl
  · exact List.getElem?_set_ne (Nat.ne_of_gt hi)

theorem stop_le_next (hend : t.start set ≠ t.finish) : t.stop set ≤ (t.next set).2.pos := by
  by_cases hlast : t.stop set = t.finish
  · rw [next_of_last hend hlast]
    exact t.stop_le set
  · rw [next_of_cut hend hlast]
    exact Nat.le_succ _

/-- What a call with a token says about it. -/
theorem token_of_next {start : Nat} {token : CString}
    (h : (t.next set).1 = some (start, token)) :
    t.start set ≠ t.finish ∧ start = t.start set ∧ token = t.token set := by
  unfold next at h
  split_ifs at h with hend hlast
  · exact ⟨hend, (congrArg Prod.fst (Option.some.inj h)).symm,
      (congrArg Prod.snd (Option.some.inj h)).symm⟩
  · exact ⟨hend, (congrArg Prod.fst (Option.some.inj h)).symm,
      (congrArg Prod.snd (Option.some.inj h)).symm⟩

/-- **A call leaves its token in the text**, and the calls after it do too. -/
theorem next_token {start : Nat} {token : CString} (h : (t.next set).1 = some (start, token))
    (sets : List CString) : Spelled ((t.next set).2.run sets).2.text start token := by
  obtain ⟨hend, rfl, rfl⟩ := token_of_next h
  have hlength := t.length_token set
  refine ⟨?_, fun c hc => ne_zero_of_rest (token_subset hc), fun i c hc => ?_⟩
  · intro hnil
    rw [hnil, List.length_nil, Nat.add_zero] at hlength
    exact hend ((t.stop_eq_start_iff set).mp hlength.symm)
  · by_cases hi : i < (t.token set).length
    · have hbefore : t.start set + i < t.stop set := by omega
      have hstop := stop_le_next hend
      rw [List.getElem?_append_left hi] at hc
      have htext : (t.next set).2.text[t.start set + i]? = some c :=
        (text_before_stop hbefore).trans (text_of_token hc)
      have hin := (List.getElem?_eq_some_iff.mp htext).1
      refine run_keeps ?_ (Or.inl (by omega))
      rw [List.getElem?_append_left hin]
      exact htext
    · have hlen := (List.getElem?_eq_some_iff.mp hc).1
      rw [List.length_append, List.length_singleton] at hlen
      obtain rfl : i = (t.token set).length := by omega
      rw [List.getElem?_concat_length] at hc
      obtain rfl : 0 = c := Option.some.inj hc
      rw [hlength]
      exact run_keeps (zero_at_stop hend) (Or.inr rfl)

/-- **Every token stands in the text after all the calls.** -/
theorem run_token {start : Nat} {token : CString} (h : some (start, token) ∈ (t.run sets).1) :
    Spelled (t.run sets).2.text start token := by
  induction sets generalizing t with
  | nil => exact absurd h List.not_mem_nil
  | cons set sets ih =>
    rcases List.mem_cons.mp h with hfirst | hlater
    · exact next_token hfirst.symm sets
    · exact ih hlater

/-! ### The remaining text -/

/-- The reference works on `s`: from its position on the text is untouched. -/
def Untouched (s : CString) (t : Tokens) : Prop :=
  t.text.length = s.length ∧ t.text.drop t.pos = s.drop t.pos

theorem next_untouched {s : CString} (h : Untouched s t) : Untouched s (t.next set).2 := by
  obtain ⟨hlength, hdrop⟩ := h
  have hlater : ∀ k, t.pos ≤ k → t.text.drop k = s.drop k := by
    intro k hk
    obtain ⟨j, rfl⟩ := Nat.exists_eq_add_of_le hk
    rw [← List.drop_drop, hdrop, List.drop_drop]
  refine ⟨(length_next t set).trans hlength, ?_⟩
  have hpos := t.pos_le_next set
  unfold next at hpos ⊢
  split_ifs at hpos ⊢ with hend hlast
  · exact hlater _ hpos
  · exact hlater _ hpos
  · show (t.text.set (t.stop set) 0).drop (t.stop set + 1) = _
    rw [List.drop_set_of_lt (Nat.lt_succ_self _)]
    exact hlater _ hpos

/-- **What remains is the rest of the original text.** -/
theorem rest_of_untouched {s : CString} (hs : ∀ c ∈ s, c ≠ 0) (h : Untouched s t) :
    t.rest = s.drop t.pos := by
  rw [rest, h.2]
  exact takeWhile_whole fun c hc => hs c (List.mem_of_mem_drop hc)

end Tokens

/-! ## The re-entrant tokeniser -/

/-- `strtok_r` with the saved pointer at `sp`. -/
def tokeniserR (sp : Uint32) (h : Heap CChar) (str delim : Uint32) :
    Option (Heap CChar × Uint32) := strtokR h str delim sp

section Reentrant

variable {h : Heap CChar} {buf sp str : Uint32} {s : CString} {t : Tokens}
  {delims : List (Uint32 × CString)}

/-- A string is a buffer no token has been taken of. -/
theorem reentrant_ofText (hbuf : IsString h buf s) (hsp : Mapped h sp 4)
    (hapart : Apart buf (s.length + 1) sp 4) : Reentrant buf sp h buf (Tokens.ofText s) where
  buffer := Buffer.of_string hbuf
  mapped := hsp
  apart := hapart
  resumes := Or.inl (BitVec.add_zero buf).symm

/-- Delimiter sets outside the buffer and the saved pointer are supplied. -/
theorem supplied_strtokR (hr : Reentrant buf sp h str t)
    (hdelims : ∀ d ∈ delims, IsString h d.1 d.2 ∧
      Apart d.1 (d.2.length + 1) buf (t.text.length + 1) ∧ Apart d.1 (d.2.length + 1) sp 4) :
    Supplied (tokeniserR sp) id h str delims := by
  refine supplied_of_frame buf (t := t)
    (R := fun h str t' => Reentrant buf sp h str t' ∧ t'.text.length = t.text.length)
    (F := fun a => Within buf (t.text.length + 1) a ∨ Within sp 4 a) ?_ ⟨hr, rfl⟩ ?_
  · rintro h str delim set t' ⟨hr, hlength⟩ hset
    obtain ⟨h', hcall, hr', hframe⟩ := strtokR_next hr hset
    rw [hlength] at hframe
    exact ⟨h', hcall, ⟨hr', (t'.length_next set).trans hlength⟩,
      fun a ha => hframe a (fun hin => ha (Or.inl hin)) (fun hin => ha (Or.inr hin))⟩
  · intro d hd
    obtain ⟨hstring, hbuf, hsp⟩ := hdelims d hd
    exact ⟨hstring, fun a ha => not_or.mpr ⟨hbuf a ha, hsp a ha⟩⟩

/-- A token is a string in the buffer. -/
theorem Buffer.token {text token : CString} {start : Nat} (hb : Buffer h buf text)
    (hs : Tokens.Spelled text start token) :
    IsString h (buf + BitVec.ofNat 32 start) token := by
  have hobject := hb.object
  have hnonnull := hb.nonnull
  have hend := hs.bytes token.length 0 List.getElem?_concat_length
  have hin := (List.getElem?_eq_some_iff.mp hend).1
  rw [List.length_append, List.length_singleton] at hin
  refine ⟨hs.ne_zero, fun i c hc => ?_, by bv_omega, by bv_omega⟩
  rw [add_ofNat_add_ofNat]
  exact hb.cells (start + i) c (hs.bytes i c hc)

/-- So a call returns NULL exactly if it has none. -/
theorem pointer_eq_zero_iff {sets : List CString} {r : Option (Nat × CString)}
    (hb : Buffer h buf (t.run sets).2.text) (hr : r ∈ (t.run sets).1) :
    pointer buf r = 0 ↔ r = none := by
  cases r with
  | none => exact iff_of_true rfl rfl
  | some x => exact iff_of_false (hb.token (Tokens.run_token hr)).nonnull (by simp)

/-- What the calls `strtok_r(buf, d1, &sp)`, `strtok_r(NULL, d2, &sp)`, … promise: `h` is memory
    before them, `h'` after them, and `results` what they return. -/
structure Tokenised (buf sp : Uint32) (s : CString) (sets : List CString) (h h' : Heap CChar)
    (results : List Uint32) : Prop where
  /-- They return what the reference does on the text `s`, -/
  reference : results = ((Tokens.ofText s).run sets).1.map (pointer buf)
  /-- and leave its text in the buffer; -/
  buffer : Cells h' buf (((Tokens.ofText s).run sets).2.text ++ [0])
  /-- what remains for the next call is the untouched rest of `s`, -/
  rest : ((Tokens.ofText s).run sets).2.rest = s.drop ((Tokens.ofText s).run sets).2.pos
  /-- where the saved pointer points, from the first call on; -/
  saved : sets ≠ [] →
    readWord h' sp = some (buf + BitVec.ofNat 32 ((Tokens.ofText s).run sets).2.pos)
  /-- that is in the buffer or on its terminator. -/
  within : ((Tokens.ofText s).run sets).2.pos ≤ s.length
  /-- Every token is a string in the buffer, and not empty; -/
  tokens : ∀ start token, some (start, token) ∈ ((Tokens.ofText s).run sets).1 →
    token ≠ [] ∧ IsString h' (buf + BitVec.ofNat 32 start) token
  /-- behind a NULL there are only NULLs, -/
  null : ∀ (j k : Nat) (r : Uint32), results[j]? = some 0 → results[k]? = some r → j ≤ k → r = 0
  /-- and from call number `strlen(buf) + 1` on. -/
  exhausted : ∀ (k : Nat) (r : Uint32), results[k]? = some r → s.length ≤ k → r = 0
  /-- Nothing else is written. -/
  frame : ∀ a, ¬ Within buf (s.length + 1) a → ¬ Within sp 4 a → h' a = h a

/-- **The re-entrant tokeniser** keeps its promise.  Of the memory outside the buffer, the saved
    pointer and the delimiter sets nothing is assumed, not even that it can be read. -/
theorem strtokR_calls (hbuf : IsString h buf s) (hsp : Mapped h sp 4)
    (hapart : Apart buf (s.length + 1) sp 4)
    (hdelims : Supplied (tokeniserR sp) id h buf delims) :
    ∃ h' results, calls (tokeniserR sp) h buf (delims.map (·.1)) = some (h', results) ∧
      Tokenised buf sp s (delims.map (·.2)) h h' results := by
  obtain ⟨h', hcalls, ⟨hr, huntouched, hframe⟩⟩ := calls_run buf (s := h)
    (t := Tokens.ofText s)
    (R := fun h' str t => Reentrant buf sp h' str t ∧ Tokens.Untouched s t ∧
      ∀ a, ¬ Within buf (s.length + 1) a → ¬ Within sp 4 a → h' a = h a)
    (by
      rintro h₁ str delim set t ⟨hr, huntouched, hframe⟩ hset
      obtain ⟨h', hcall, hr', hframe'⟩ := strtokR_next hr hset
      rw [huntouched.1] at hframe'
      exact ⟨h', hcall, hr', Tokens.next_untouched huntouched,
        fun a hbuf hsp => (hframe' a hbuf hsp).trans (hframe a hbuf hsp)⟩)
    ⟨reentrant_ofText hbuf hsp hapart, ⟨rfl, rfl⟩, fun a _ _ => rfl⟩ hdelims
  -- no token starts at address 0
  have hresult : ∀ {k : Nat} {r : Uint32},
      (((Tokens.ofText s).run (delims.map (·.2))).1.map (pointer buf))[k]? = some r →
      ∃ x, ((Tokens.ofText s).run (delims.map (·.2))).1[k]? = some x ∧ (r = 0 ↔ x = none) := by
    intro k r hk
    rw [List.getElem?_map, Option.map_eq_some_iff] at hk
    obtain ⟨x, hx, rfl⟩ := hk
    exact ⟨x, hx, pointer_eq_zero_iff hr.buffer (List.mem_of_getElem? hx)⟩
  refine ⟨h', _, hcalls, rfl, hr.buffer.cells, Tokens.rest_of_untouched hbuf.ne huntouched, ?_, ?_,
    ?_, ?_, ?_, hframe⟩
  · intro hsets
    have hne : delims ≠ [] := fun hnil => hsets (by rw [hnil]; rfl)
    rw [if_neg hne] at hr
    rcases hr.resumes with hzero | ⟨-, hsaved⟩
    · exact absurd hzero.symm hr.buffer.rest.nonnull
    · exact hsaved
  · rw [← huntouched.1]
    exact Tokens.pos_le _
  · intro start token hmem
    have hspelled := Tokens.run_token hmem
    exact ⟨hspelled.nonempty, hr.buffer.token hspelled⟩
  · intro j k r hj hk hjk
    obtain ⟨x, hx, hnone⟩ := hresult hj
    obtain ⟨y, hy, hnone'⟩ := hresult hk
    rw [hnone.mp rfl] at hx
    exact hnone'.mpr (Tokens.none_of_none hx hy hjk)
  · intro k r hk hlong
    obtain ⟨x, hx, hnone⟩ := hresult hk
    rw [hnone]
    by_contra hsome
    obtain ⟨y, rfl⟩ := Option.ne_none_iff_exists'.mp hsome
    have hless : k < s.length := Tokens.lt_of_token hx
    omega

end Reentrant

/-- The text `=k=v;` in a buffer at 0x1000, a saved pointer at 0x3000, and delimiter sets at
    0x2000 and 0x2002; nothing else is mapped. -/
def keyValueHeap : Heap CChar :=
  lay (lay (lay (fun _ => none) 0x1000 (str "=k=v;" ++ [0]))
    0x2000 (str "=" ++ [0] ++ str ";" ++ [0])) 0x3000 [0, 0, 0, 0]

theorem strtokR_calls_keyValue :
    ∃ h' results,
      calls (tokeniserR 0x3000) keyValueHeap 0x1000 [0x2000, 0x2002, 0x2002] = some (h', results) ∧
      Tokenised 0x1000 0x3000 (str "=k=v;") [str "=", str ";", str ";"] keyValueHeap h'
        results := by
  have hbuf : IsString keyValueHeap 0x1000 (str "=k=v;") := by decide +kernel
  have hsp : Mapped keyValueHeap 0x3000 4 := (mapped_iff (by decide)).mpr (by decide +kernel)
  have hapart : Apart 0x1000 ((str "=k=v;").length + 1) 0x3000 4 :=
    apart_of_le (by decide) (by decide)
  have hsets : ∀ d ∈ [(0x2000, str "="), (0x2002, str ";"), (0x2002, str ";")],
      IsString keyValueHeap d.1 d.2 ∧ (d.2.length + 1 ≤ (0x1000 - d.1).toNat ∧
        6 ≤ (d.1 - 0x1000).toNat) ∧ d.2.length + 1 ≤ (0x3000 - d.1).toNat ∧
        4 ≤ (d.1 - 0x3000).toNat := by decide +kernel
  have hdelims : Supplied (tokeniserR 0x3000) id keyValueHeap 0x1000
      [(0x2000, str "="), (0x2002, str ";"), (0x2002, str ";")] := by
    refine supplied_strtokR (reentrant_ofText hbuf hsp hapart) fun d hd => ?_
    obtain ⟨hset, ⟨hbelow, habove⟩, hbelow', habove'⟩ := hsets d hd
    exact ⟨hset, apart_of_le hbelow habove, apart_of_le hbelow' habove'⟩
  exact strtokR_calls hbuf hsp hapart hdelims

/-! ## The two tokenisers -/

section Agreement

variable {h₁ h₂ : Heap CChar} {m : Strtok} {buf buf₁ buf₂ sp p str : Uint32} {s : CString}
  {t : Tokens} {delims delims₁ delims₂ : List (Uint32 × CString)}

theorem static_ofText (hbuf : IsString m.heap buf s) : Static buf m buf (Tokens.ofText s) where
  buffer := Buffer.of_string hbuf
  resumes := Or.inl (BitVec.add_zero buf).symm

/-- Delimiter sets outside the buffer are supplied. -/
theorem supplied_strtok (hm : Static buf m str t)
    (hdelims : ∀ d ∈ delims, IsString m.heap d.1 d.2 ∧
      Apart d.1 (d.2.length + 1) buf (t.text.length + 1)) :
    Supplied strtok Strtok.heap m str delims := by
  refine supplied_of_frame buf (t := t)
    (R := fun m str t' => Static buf m str t' ∧ t'.text.length = t.text.length)
    (F := Within buf (t.text.length + 1)) ?_ ⟨hm, rfl⟩ hdelims
  rintro m str delim set t' ⟨hm, hlength⟩ hset
  obtain ⟨m', hcall, hm', hframe⟩ := strtok_next hm hset
  rw [hlength] at hframe
  exact ⟨m', hcall, ⟨hm', (t'.length_next set).trans hlength⟩, hframe⟩

/-- Two calls give the same result: both NULL, or the same offset into their copies. -/
def SameResult (buf₁ buf₂ : Uint32) (n : Nat) (r₁ r₂ : Uint32) : Prop :=
  (r₁ = 0 ∧ r₂ = 0) ∨
    ∃ k < n, r₁ = buf₁ + BitVec.ofNat 32 k ∧ r₂ = buf₂ + BitVec.ofNat 32 k

/-- A token starts in the text. -/
theorem Tokens.Spelled.start_lt {text token : CString} {start : Nat}
    (hs : Spelled text start token) : start < text.length := by
  have hend := hs.bytes token.length 0 List.getElem?_concat_length
  have hin := (List.getElem?_eq_some_iff.mp hend).1
  have hpos := List.length_pos_of_ne_nil hs.nonempty
  rw [List.length_append, List.length_singleton] at hin
  omega

/-- **The two tokenisers agree.**  `strtok` on one copy of `s`, whatever its static variable holds,
    and `strtok_r` on another, each with its own copies of the delimiter sets, have the same results
    and leave the same bytes. -/
theorem strtok_agrees (hbuf₁ : IsString h₁ buf₁ s) (hbuf₂ : IsString h₂ buf₂ s)
    (hsp : Mapped h₂ sp 4) (hapart : Apart buf₂ (s.length + 1) sp 4)
    (hsets : delims₁.map (·.2) = delims₂.map (·.2))
    (hdelims₁ : Supplied strtok Strtok.heap ⟨h₁, p⟩ buf₁ delims₁)
    (hdelims₂ : Supplied (tokeniserR sp) id h₂ buf₂ delims₂) :
    ∃ m₁ results₁ h₂' results₂,
      calls strtok ⟨h₁, p⟩ buf₁ (delims₁.map (·.1)) = some (m₁, results₁) ∧
      calls (tokeniserR sp) h₂ buf₂ (delims₂.map (·.1)) = some (h₂', results₂) ∧
      List.Forall₂ (SameResult buf₁ buf₂ s.length) results₁ results₂ ∧
      ∀ i ≤ s.length,
        m₁.heap (buf₁ + BitVec.ofNat 32 i) = h₂' (buf₂ + BitVec.ofNat 32 i) := by
  -- either sequence of calls runs the reference on the same sets
  obtain ⟨m₁, hcalls₁, hm₁⟩ := calls_run buf₁ (R := Static buf₁)
    (fun hm hset => by
      obtain ⟨m', hcall, hm', -⟩ := strtok_next hm hset
      exact ⟨m', hcall, hm'⟩)
    (static_ofText (m := ⟨h₁, p⟩) hbuf₁) hdelims₁
  obtain ⟨h₂', hcalls₂, hr₂⟩ := calls_run buf₂ (R := Reentrant buf₂ sp)
    (fun hr hset => by
      obtain ⟨h', hcall, hr', -⟩ := strtokR_next hr hset
      exact ⟨h', hcall, hr'⟩)
    (reentrant_ofText hbuf₂ hsp hapart) hdelims₂
  rw [hsets] at hcalls₁ hm₁
  have hlength := Tokens.length_run (Tokens.ofText s) (delims₂.map (·.2))
  refine ⟨m₁, _, h₂', _, hcalls₁, hcalls₂, ?_, ?_⟩
  · rw [List.forall₂_map_left_iff, List.forall₂_map_right_iff, List.forall₂_same]
    rintro (_ | ⟨start, token⟩) hmem
    · exact Or.inl ⟨rfl, rfl⟩
    · have hlt := (Tokens.run_token hmem).start_lt
      rw [hlength] at hlt
      exact Or.inr ⟨start, hlt, rfl, rfl⟩
  · intro i hi
    rw [hm₁.buffer.read (hi.trans_eq hlength.symm), hr₂.buffer.read (hi.trans_eq hlength.symm)]

end Agreement

theorem strtok_agrees_keyValue :
    ∃ m₁ results₁ h₂ results₂,
      calls strtok ⟨lay keyValueHeap 0x1100 (str "=k=v;" ++ [0]), 0⟩ 0x1100
        [0x2002, 0x2000, 0x2000] = some (m₁, results₁) ∧
      calls (tokeniserR 0x3000) keyValueHeap 0x1000 [0x2002, 0x2000, 0x2000]
        = some (h₂, results₂) ∧
      List.Forall₂ (SameResult 0x1100 0x1000 5) results₁ results₂ ∧
      ∀ i ≤ 5, m₁.heap (0x1100 + BitVec.ofNat 32 i) = h₂ (0x1000 + BitVec.ofNat 32 i) := by
  have hbuf₁ : IsString (lay keyValueHeap 0x1100 (str "=k=v;" ++ [0])) 0x1100 (str "=k=v;") := by
    decide +kernel
  have hbuf₂ : IsString keyValueHeap 0x1000 (str "=k=v;") := by decide +kernel
  have hsp : Mapped keyValueHeap 0x3000 4 := (mapped_iff (by decide)).mpr (by decide +kernel)
  have hapart : Apart 0x1000 ((str "=k=v;").length + 1) 0x3000 4 :=
    apart_of_le (by decide) (by decide)
  have hsets : ∀ d ∈ [(0x2002, str ";"), (0x2000, str "="), (0x2000, str "=")],
      IsString (lay keyValueHeap 0x1100 (str "=k=v;" ++ [0])) d.1 d.2 ∧
        IsString keyValueHeap d.1 d.2 ∧
        (d.2.length + 1 ≤ (0x1100 - d.1).toNat ∧ 6 ≤ (d.1 - 0x1100).toNat) ∧
        (d.2.length + 1 ≤ (0x1000 - d.1).toNat ∧ 6 ≤ (d.1 - 0x1000).toNat) ∧
        d.2.length + 1 ≤ (0x3000 - d.1).toNat ∧ 4 ≤ (d.1 - 0x3000).toNat := by decide +kernel
  have hdelims₁ : Supplied strtok Strtok.heap
      ⟨lay keyValueHeap 0x1100 (str "=k=v;" ++ [0]), 0⟩ 0x1100
      [(0x2002, str ";"), (0x2000, str "="), (0x2000, str "=")] := by
    refine supplied_strtok (static_ofText hbuf₁) fun d hd => ?_
    obtain ⟨hset, -, ⟨hbelow, habove⟩, -⟩ := hsets d hd
    exact ⟨hset, apart_of_le hbelow habove⟩
  have hdelims₂ : Supplied (tokeniserR 0x3000) id keyValueHeap 0x1000
      [(0x2002, str ";"), (0x2000, str "="), (0x2000, str "=")] := by
    refine supplied_strtokR (reentrant_ofText hbuf₂ hsp hapart) fun d hd => ?_
    obtain ⟨-, hset, -, ⟨hbelow, habove⟩, hbelow', habove'⟩ := hsets d hd
    exact ⟨hset, apart_of_le hbelow habove, apart_of_le hbelow' habove'⟩
  exact strtok_agrees hbuf₁ hbuf₂ hsp hapart rfl hdelims₁ hdelims₂

end FreeMicroNix.Libc
