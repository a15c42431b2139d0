/-
  Runs of a step function, and the induction rules the whole development rests on.

  A system is a step function `step : σ → α → σ` on a state, and a run is a left fold of it over
  a list of inputs.  `Guarded step C s as` says that every input of the run meets the condition
  `C` in the state it is applied to — `C` reads the state BEFORE the step.

  The rules turn a fact about ONE step into a fact about every run:

  * `guarded_iff_of_related` — a condition on every step, read in either of two machines;
  * `foldl_related` — a relation between two machines that their guarded steps preserve;
  * `foldl_iff_guarded` — **exactness**: a property of the past (`Q`, which no step can restore)
    that a step keeps precisely when it meets its guard holds at the end of a run precisely when
    every step met its guard.  The guard may be read in a second, simpler machine that the first
    one simulates;
  * `always_iff_guarded` — the same for a property of the present, checked in every state the
    run visits, where a later step may repair what an earlier one broke.
-/
import Mathlib.Data.List.Basic
import Mathlib.Tactic.Common

namespace Run

variable {σ τ α β : Type*}

/-! ## The condition met by every step -/

/-- Every input of the run meets `C` in the state it is applied to. -/
def Guarded (step : σ → α → σ) (C : σ → α → Prop) : σ → List α → Prop
  | _, [] => True
  | s, a :: as => C s a ∧ Guarded step C (step s a) as

instance Guarded.decidable (step : σ → α → σ) (C : σ → α → Prop) [∀ s a, Decidable (C s a)] :
    ∀ (s : σ) (as : List α), Decidable (Guarded step C s as)
  | _, [] => inferInstanceAs (Decidable True)
  | s, a :: as =>
      have := Guarded.decidable step C (step s a) as
      inferInstanceAs (Decidable (C s a ∧ Guarded step C (step s a) as))

@[simp] theorem guarded_nil (step : σ → α → σ) (C : σ → α → Prop) (s : σ) :
    Guarded step C s [] ↔ True := Iff.rfl

@[simp] theorem guarded_cons (step : σ → α → σ) (C : σ → α → Prop) (s : σ) (a : α) (as : List α) :
    Guarded step C s (a :: as) ↔ C s a ∧ Guarded step C (step s a) as := Iff.rfl

theorem guarded_append (step : σ → α → σ) (C : σ → α → Prop) :
    ∀ (s : σ) (as bs : List α),
      Guarded step C s (as ++ bs) ↔ Guarded step C s as ∧ Guarded step C (as.foldl step s) bs
  | s, [], bs => by simp
  | s, a :: as, bs => by
      rw [List.cons_append, guarded_cons, guarded_cons, List.foldl_cons,
        guarded_append step C (step s a) as bs, and_assoc]

/-- `Guarded` read off at a position: the state there is the fold of what comes before. -/
theorem guarded_iff_split (step : σ → α → σ) (C : σ → α → Prop) :
    ∀ (s : σ) (as : List α),
      Guarded step C s as ↔ ∀ pre a post, as = pre ++ a :: post → C (pre.foldl step s) a
  | s, [] => by simp
  | s, b :: bs => by
      rw [guarded_cons, guarded_iff_split step C (step s b) bs]
      constructor
      · rintro ⟨hb, hrest⟩ pre a post hsplit
        cases pre with
        | nil =>
          simp only [List.nil_append, List.cons.injEq] at hsplit
          obtain ⟨rfl, -⟩ := hsplit
          exact hb
        | cons p pre =>
          simp only [List.cons_append, List.cons.injEq] at hsplit
          obtain ⟨rfl, hsplit⟩ := hsplit
          exact hrest pre a post hsplit
      · intro h
        refine ⟨h [] b bs rfl, fun pre a post hsplit => ?_⟩
        exact h (b :: pre) a post (by rw [hsplit]; rfl)

/-- A run of batches is guarded precisely when the run of all their inputs is. -/
theorem guarded_flatMap (step : σ → α → σ) (C : σ → α → Prop) (f : β → List α) :
    ∀ (s : σ) (bs : List β),
      Guarded step C s (bs.flatMap f) ↔
        Guarded (fun s b => (f b).foldl step s) (fun s b => Guarded step C s (f b)) s bs
  | s, [] => by simp
  | s, b :: bs => by
      rw [List.flatMap_cons, guarded_append, guarded_cons, guarded_flatMap step C f _ bs]

/-- **Two readings of a run.**  In related states the guards of two machines agree, and a step
    that meets them leads to related states; then the runs are guarded alike. -/
theorem guarded_iff_of_related {f : σ → α → σ} {g : τ → α → τ} {R : σ → τ → Prop} {A : α → Prop}
    {C : σ → α → Prop} {D : τ → α → Prop}
    (hguard : ∀ s t a, A a → R s t → (C s a ↔ D t a))
    (hrel : ∀ s t a, A a → R s t → D t a → R (f s a) (g t a)) :
    ∀ {s : σ} {t : τ} (as : List α), (∀ a ∈ as, A a) → R s t →
      (Guarded f C s as ↔ Guarded g D t as)
  | _, _, [], _, _ => Iff.rfl
  | s, t, a :: as, hA, h => by
      have ha := hA a List.mem_cons_self
      have hrest := fun b hb => hA b (List.mem_cons_of_mem a hb)
      rw [guarded_cons, guarded_cons, hguard s t a ha h]
      exact and_congr_right fun hD =>
        guarded_iff_of_related hguard hrel as hrest (hrel s t a ha h hD)

/-- A guard read through a map of the states, along which the two machines step alike. -/
theorem guarded_map {f : σ → α → σ} {g : τ → α → τ} {C : τ → α → Prop} (h : σ → τ)
    (hstep : ∀ s a, h (f s a) = g (h s) a) (s : σ) (as : List α) :
    Guarded f (fun s a => C (h s) a) s as ↔ Guarded g C (h s) as := by
  refine guarded_iff_of_related (R := fun s t => h s = t) (A := fun _ => True) ?_ ?_ as
    (fun _ _ => trivial) rfl
  · rintro s _ a - rfl
    exact Iff.rfl
  · rintro s _ a - rfl -
    exact hstep s a

/-! ## The end of a run -/

/-- What no step can restore held at the start if it holds at the end. -/
theorem foldl_past {f : σ → α → σ} {Q : σ → Prop} (hmono : ∀ s a, Q (f s a) → Q s) :
    ∀ (s : σ) (as : List α), Q (as.foldl f s) → Q s
  | _, [], h => h
  | s, a :: as, h => hmono s a (foldl_past hmono (f s a) as h)

/-- A relation that guarded steps of two machines preserve relates the ends of their runs. -/
theorem foldl_related {f : σ → α → σ} {g : τ → α → τ} {R : σ → τ → Prop} {A : α → Prop}
    {C : τ → α → Prop}
    (hstep : ∀ s t a, A a → R s t → C t a → R (f s a) (g t a)) :
    ∀ (s : σ) (t : τ) (as : List α), (∀ a ∈ as, A a) → R s t → Guarded g C t as →
      R (as.foldl f s) (as.foldl g t)
  | _, _, [], _, h, _ => h
  | s, t, a :: as, hA, h, hC =>
      foldl_related hstep (f s a) (g t a) as
        (fun b hb => hA b (List.mem_cons_of_mem a hb))
        (hstep s t a (hA a List.mem_cons_self) h hC.1) hC.2

/-- **The exactness rule.**  `Q` speaks about the past and no step restores it (`hmono`); in
    related states a step keeps `Q` precisely when it meets the guard `C` (`hstep`), and keeps
    the relation when it does (`hrel`).  Then `Q` holds at the end precisely when it held at the
    start and every step met its guard. -/
theorem foldl_iff_guarded {f : σ → α → σ} {g : τ → α → τ} {R : σ → τ → Prop}
    {A : α → Prop} {C : τ → α → Prop} {Q : σ → Prop}
    (hrel : ∀ s t a, A a → R s t → C t a → R (f s a) (g t a))
    (hstep : ∀ s t a, A a → R s t → (Q (f s a) ↔ Q s ∧ C t a))
    (hmono : ∀ s a, Q (f s a) → Q s) :
    ∀ (s : σ) (t : τ) (as : List α), (∀ a ∈ as, A a) → R s t →
      (Q (as.foldl f s) ↔ Q s ∧ Guarded g C t as)
  | s, t, [], _, _ => by simp
  | s, t, a :: as, hA, h => by
      have ha := hA a List.mem_cons_self
      have hrest := fun b hb => hA b (List.mem_cons_of_mem a hb)
      have hpast := foldl_past hmono (f s a) as
      rw [List.foldl_cons, guarded_cons, ← and_assoc, ← hstep s t a ha h]
      constructor
      · intro hQ
        have hC := ((hstep s t a ha h).mp (hpast hQ)).2
        exact ⟨hpast hQ, ((foldl_iff_guarded hrel hstep hmono _ _ as hrest
          (hrel s t a ha h hC)).mp hQ).2⟩
      · rintro ⟨hQ, hguard⟩
        have hC := ((hstep s t a ha h).mp hQ).2
        exact (foldl_iff_guarded hrel hstep hmono _ _ as hrest (hrel s t a ha h hC)).mpr
          ⟨hQ, hguard⟩

/-! ## Every visited state -/

/-- `P` holds in every state the run visits, the first and the last included. -/
def Always (step : σ → α → σ) (P : σ → Prop) : σ → List α → Prop
  | s, [] => P s
  | s, a :: as => P s ∧ Always step P (step s a) as

theorem Always.head {step : σ → α → σ} {P : σ → Prop} :
    ∀ {s : σ} {as : List α}, Always step P s as → P s
  | _, [], h => h
  | _, _ :: _, h => h.1

/-- `Always` read off at a position. -/
theorem always_iff_split (step : σ → α → σ) (P : σ → Prop) :
    ∀ (s : σ) (as : List α),
      Always step P s as ↔ ∀ pre post, as = pre ++ post → P (pre.foldl step s)
  | s, [] => by
      constructor
      · intro h pre post hsplit
        obtain ⟨rfl, rfl⟩ := List.append_eq_nil_iff.mp hsplit.symm
        exact h
      · intro h
        exact h [] [] rfl
  | s, a :: as => by
      show P s ∧ Always step P (step s a) as ↔ _
      rw [always_iff_split step P (step s a) as]
      constructor
      · rintro ⟨hs, hrest⟩ pre post hsplit
        cases pre with
        | nil => exact hs
        | cons p pre =>
          simp only [List.cons_append, List.cons.injEq] at hsplit
          obtain ⟨rfl, hsplit⟩ := hsplit
          exact hrest pre post hsplit
      · intro h
        refine ⟨h [] (a :: as) rfl, fun pre post hsplit => ?_⟩
        exact h (a :: pre) post (by rw [hsplit]; rfl)

/-- **Exactness for visited states.**  If from a good state a step leads to a good state
    precisely when it meets its guard, then all visited states are good precisely when every
    step met its guard. -/
theorem always_iff_guarded {step : σ → α → σ} {C : σ → α → Prop} {P : σ → Prop} {A : α → Prop}
    (hstep : ∀ s a, A a → P s → (P (step s a) ↔ C s a)) :
    ∀ (s : σ) (as : List α), (∀ a ∈ as, A a) → P s →
      (Always step P s as ↔ Guarded step C s as)
  | _, [], _, h => by simpa [Always] using h
  | s, a :: as, hA, h => by
      have ha := hA a List.mem_cons_self
      have hrest := fun b hb => hA b (List.mem_cons_of_mem a hb)
      constructor
      · rintro ⟨-, htail⟩
        have hgood := htail.head
        exact ⟨(hstep s a ha h).mp hgood,
          (always_iff_guarded hstep (step s a) as hrest hgood).mp htail⟩
      · rintro ⟨hC, htail⟩
        have hgood := (hstep s a ha h).mpr hC
        exact ⟨h, (always_iff_guarded hstep (step s a) as hrest hgood).mpr htail⟩

end Run
