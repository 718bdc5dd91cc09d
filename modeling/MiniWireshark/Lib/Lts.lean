import Mathlib.Data.List.Induction

/-!
# Labelled transition systems given by a step function

A system is a partial step function `step : σ → α → Option σ` over labels `α`. Labels carry
every nondeterministic choice, so a run is determined by its start and its labels.

| here | meaning |
| --- | --- |
| `run step s as`       | the state after the labels `as`, if every step is enabled |
| `Along step C s as`   | every step of the run meets `C` (state before, label) |
| `run_ind`             | induction over a run, with the labels so far in the motive |
| `run_invariant`       | an invariant kept by every step that meets `C` holds at the end of every run along `C` |
| `along_of_along`      | a step condition that keeps an invariant and, with it, implies another one |
| `along_iff_prefix`    | a run along `C`, by the prefixes of its labels |
| `along_congr`         | two step conditions that agree under an invariant agree along every run |
| `Sometime`, `Answered` | some step meets `B`; every step that meets `A` is followed by one that meets `B` |
| `flag_false_iff`      | a flag that `A` steps raise and `B` steps lower is down at the end iff every raise is answered |
| `sometime_iff`        | what `A` steps bring about for good holds iff there was one |
| `run_refines`         | a system whose steps expand to runs of another one |
| `trace`, `run_trace`  | the same where the expansion of a step depends on its state |
| `trace_append`        | a trace splits where its labels do |
| `length_le_of_measure` | a run whose steps lower a measure is no longer than the measure |
| `exists_run_to`       | a system that is never stuck short of `F` can be run to `F` |
-/

namespace Lts

variable {σ α τ β : Type}

/-- The state after the run with labels `as`, if every step is enabled. -/
def run (step : σ → α → Option σ) : σ → List α → Option σ
  | s, [] => some s
  | s, a :: as => (step s a).bind fun s' => run step s' as

/-- Every step of the run from `s` with labels `as` meets `C`. -/
def Along (step : σ → α → Option σ) (C : σ → α → Prop) : σ → List α → Prop
  | _, [] => True
  | s, a :: as => C s a ∧ match step s a with
    | some s' => Along step C s' as
    | none => True

instance decidableAlong (step : σ → α → Option σ) (C : σ → α → Prop) [∀ s a, Decidable (C s a)] :
    ∀ s as, Decidable (Along step C s as)
  | _, [] => isTrue trivial
  | s, a :: as => by
    unfold Along
    exact match step s a with
      | some s' => @instDecidableAnd _ _ _ (decidableAlong step C s' as)
      | none => inferInstance

/-- Some step of the run from `s` with labels `as` meets `B`. -/
def Sometime (step : σ → α → Option σ) (B : σ → α → Prop) : σ → List α → Prop
  | _, [] => False
  | s, a :: as => B s a ∨ match step s a with
    | some s' => Sometime step B s' as
    | none => False

/-- Every step of the run that meets `A` is followed by one that meets `B`. -/
def Answered (step : σ → α → Option σ) (A B : σ → α → Prop) : σ → List α → Prop
  | _, [] => True
  | s, a :: as => match step s a with
    | some s' => (A s a → Sometime step B s' as) ∧ Answered step A B s' as
    | none => True

instance decidableSometime (step : σ → α → Option σ) (B : σ → α → Prop) [∀ s a, Decidable (B s a)] :
    ∀ s as, Decidable (Sometime step B s as)
  | _, [] => isFalse id
  | s, a :: as => by
    unfold Sometime
    exact match step s a with
      | some s' => @instDecidableOr _ _ _ (decidableSometime step B s' as)
      | none => inferInstance

instance decidableAnswered (step : σ → α → Option σ) (A B : σ → α → Prop) [∀ s a, Decidable (A s a)]
    [∀ s a, Decidable (B s a)] : ∀ s as, Decidable (Answered step A B s as)
  | _, [] => isTrue trivial
  | s, a :: as => by
    unfold Answered
    exact match step s a with
      | some s' => @instDecidableAnd _ _ inferInstance (decidableAnswered step A B s' as)
      | none => isTrue trivial

section
variable {step : σ → α → Option σ} {C D : σ → α → Prop} {s s' s'' : σ} {a : α} {as bs : List α}

@[simp] theorem run_nil : run step s [] = some s := rfl

theorem run_cons : run step s (a :: as) = (step s a).bind (run step · as) := rfl

theorem run_eq_foldlM : run step s as = as.foldlM step s := by
  induction as generalizing s with
  | nil => rfl
  | cons a as ih =>
    rw [run_cons, List.foldlM_cons]
    exact congrArg _ (funext fun _ => ih)

theorem run_cons_eq_some :
    run step s (a :: as) = some s'' ↔ ∃ s', step s a = some s' ∧ run step s' as = some s'' := by
  rw [run_cons, Option.bind_eq_some_iff]

/-- A run evaluated on concrete labels. -/
theorem run_reaches {P : σ → Prop} [DecidablePred P] (h : (run step s as).any (fun t => decide (P t)) = true) :
    ∃ s', run step s as = some s' ∧ P s' := by
  obtain ⟨s', hs, hp⟩ := (Option.any_eq_true _ _).1 h
  exact ⟨s', hs, of_decide_eq_true hp⟩

theorem run_append : run step s (as ++ bs) = (run step s as).bind (run step · bs) := by
  induction as generalizing s with
  | nil => rfl
  | cons a as ih =>
    rw [List.cons_append, run_cons, run_cons]
    cases step s a with
    | none => rfl
    | some s' => exact ih

theorem run_append_eq_some :
    run step s (as ++ bs) = some s'' ↔ ∃ s', run step s as = some s' ∧ run step s' bs = some s'' := by
  rw [run_append, Option.bind_eq_some_iff]

theorem run_snoc_eq_some :
    run step s (as ++ [a]) = some s'' ↔ ∃ s', run step s as = some s' ∧ step s' a = some s'' := by
  rw [run_append_eq_some]
  constructor
  · rintro ⟨s', h, h'⟩
    obtain ⟨t, ht, he⟩ := run_cons_eq_some.1 h'
    cases he
    exact ⟨s', h, ht⟩
  · rintro ⟨s', h, h'⟩
    exact ⟨s', h, run_cons_eq_some.2 ⟨s'', h', rfl⟩⟩

@[simp] theorem along_nil : Along step C s [] := trivial

theorem along_cons_of_step (h : step s a = some s') :
    Along step C s (a :: as) ↔ C s a ∧ Along step C s' as := by
  simp only [Along, h]

theorem Along.head (h : Along step C s (a :: as)) : C s a := h.1

/-- A run along `C` splits where its labels do. -/
theorem along_append (h : run step s as = some s') :
    Along step C s (as ++ bs) ↔ Along step C s as ∧ Along step C s' bs := by
  induction as generalizing s with
  | nil => cases h; simp
  | cons a as ih =>
    obtain ⟨t, ht, h⟩ := run_cons_eq_some.1 h
    rw [List.cons_append, along_cons_of_step ht, along_cons_of_step ht, ih h, and_assoc]

/-- A run along `C`, prefix by prefix. -/
theorem along_iff_prefix :
    Along step C s as ↔ ∀ pre a s', pre ++ [a] <+: as → run step s pre = some s' → C s' a := by
  induction as generalizing s with
  | nil => simp
  | cons b as ih =>
    constructor
    · rintro ⟨hb, hrest⟩ pre a s' ⟨suf, hpre⟩ hr
      cases pre with
      | nil =>
        cases hr
        rw [List.nil_append, List.singleton_append, List.cons.injEq] at hpre
        exact hpre.1 ▸ hb
      | cons c pre =>
        simp only [List.cons_append, List.cons.injEq] at hpre
        obtain ⟨rfl, hpre⟩ := hpre
        obtain ⟨t, ht, hr⟩ := run_cons_eq_some.1 hr
        rw [ht] at hrest
        exact ih.1 hrest pre a s' ⟨suf, hpre⟩ hr
    · intro hall
      refine ⟨hall [] b s ⟨as, rfl⟩ rfl, ?_⟩
      cases ht : step s b with
      | none => trivial
      | some t =>
        refine ih.2 fun pre a s' hpre hr => hall (b :: pre) a s' ?_ (run_cons_eq_some.2 ⟨t, ht, hr⟩)
        exact (List.prefix_cons_inj b).2 hpre

/-- A condition on the labels alone. -/
theorem along_labels_iff {P : α → Prop} (h : run step s as = some s') :
    Along step (fun _ a => P a) s as ↔ ∀ a ∈ as, P a := by
  induction as generalizing s with
  | nil => simp
  | cons a as ih =>
    obtain ⟨t, ht, h⟩ := run_cons_eq_some.1 h
    rw [along_cons_of_step ht, ih h, List.forall_mem_cons]

end

/-- **Run induction.** `motive` holds of the empty run and of each run one step longer. -/
theorem run_ind {step : σ → α → Option σ} {s₀ : σ} {motive : List α → σ → Prop} (base : motive [] s₀)
    (snoc : ∀ as s a s', run step s₀ as = some s → motive as s → step s a = some s' → motive (as ++ [a]) s')
    {as : List α} {s : σ} (h : run step s₀ as = some s) : motive as s := by
  induction as using List.reverseRecOn generalizing s with
  | nil => cases h; exact base
  | append_singleton as a ih =>
    obtain ⟨t, ht, hs⟩ := run_snoc_eq_some.1 h
    exact snoc as t a s ht (ih ht) hs

/-- **Run induction along a step condition.** -/
theorem run_ind_along {step : σ → α → Option σ} {C : σ → α → Prop} {s₀ : σ} {motive : List α → σ → Prop}
    (base : motive [] s₀)
    (snoc : ∀ as s a s', motive as s → C s a → step s a = some s' → motive (as ++ [a]) s')
    {as : List α} {s : σ} (hC : Along step C s₀ as) (h : run step s₀ as = some s) : motive as s := by
  refine run_ind (motive := fun as s => Along step C s₀ as → motive as s) (fun _ => base) ?_ h hC
  intro as s a s' hr ih hs hal
  obtain ⟨h1, h2⟩ := (along_append hr).1 hal
  exact snoc as s a s' (ih h1) h2.head hs

/-- An invariant kept by every step that meets `C` holds at the end of every run along `C`. -/
theorem run_invariant {step : σ → α → Option σ} {C : σ → α → Prop} {I : σ → Prop}
    (hstep : ∀ s a s', I s → C s a → step s a = some s' → I s') {as : List α} {s s' : σ}
    (hC : Along step C s as) (hI : I s) (h : run step s as = some s') : I s' :=
  run_ind_along (motive := fun _ s => I s) hI (fun _ s a s' hs hc hst => hstep s a s' hs hc hst) hC h

/-- An invariant kept by every step holds at the end of every run. -/
theorem run_invariant' {step : σ → α → Option σ} {I : σ → Prop}
    (hstep : ∀ s a s', I s → step s a = some s' → I s') {as : List α} {s s' : σ}
    (hI : I s) (h : run step s as = some s') : I s' :=
  run_ind (motive := fun _ s => I s) hI (fun _ s a s' _ hs hst => hstep s a s' hs hst) h

/-- A step condition that keeps an invariant and, with it, implies another one. -/
theorem along_of_along {step : σ → α → Option σ} {C D : σ → α → Prop} {I : σ → Prop}
    (hstep : ∀ s a s', I s → C s a → step s a = some s' → I s') (hCD : ∀ s a, I s → C s a → D s a) :
    ∀ {as : List α} {s : σ}, I s → Along step C s as → Along step D s as
  | [], _, _, _ => trivial
  | a :: as, s, hI, hC => by
    cases e : step s a with
    | none =>
      simp only [Along, e] at hC ⊢
      exact ⟨hCD s a hI hC.1, trivial⟩
    | some s' =>
      obtain ⟨hC₀, hC⟩ := (along_cons_of_step e).1 hC
      exact (along_cons_of_step e).2 ⟨hCD s a hI hC₀, along_of_along hstep hCD (hstep s a s' hI hC₀ e) hC⟩

/-- Step conditions that agree under an invariant agree along every run. -/
theorem along_congr {step : σ → α → Option σ} {C D : σ → α → Prop} {I : σ → Prop}
    (hstep : ∀ s a s', I s → step s a = some s' → I s') (hCD : ∀ s a, I s → (C s a ↔ D s a))
    {as : List α} {s : σ} (hI : I s) : Along step C s as ↔ Along step D s as :=
  ⟨along_of_along (fun s a s' hs _ => hstep s a s' hs) (fun s a hs => (hCD s a hs).1) hI,
    along_of_along (fun s a s' hs _ => hstep s a s' hs) (fun s a hs => (hCD s a hs).2) hI⟩

/-- **Flags.** A flag that the steps meeting `A` raise, those meeting `B` lower and the others leave
is down at the end of a run iff it was not left up at the start and every raise is answered. -/
theorem flag_false_iff {step : σ → α → Option σ} {A B : σ → α → Prop} {I : σ → Prop} {f : σ → Bool}
    (hI : ∀ s a s', I s → step s a = some s' → I s')
    (hA : ∀ s a s', I s → step s a = some s' → A s a → f s' = true)
    (hB : ∀ s a s', I s → step s a = some s' → B s a → f s' = false)
    (hC : ∀ s a s', I s → step s a = some s' → ¬ A s a → ¬ B s a → f s' = f s) :
    ∀ {as : List α} {s s' : σ}, I s → run step s as = some s' →
      (f s' = false ↔ (f s = true → Sometime step B s as) ∧ Answered step A B s as)
  | [], s, s', _, h => by
    cases h
    simp [Sometime, Answered]
  | a :: as, s, s', hs, h => by
    obtain ⟨t, ht, h⟩ := run_cons_eq_some.1 h
    have ih := flag_false_iff hI hA hB hC (hI s a t hs ht) h
    simp only [Sometime, Answered, ht, ih]
    by_cases hAs : A s a
    · have hft := hA s a t hs ht hAs
      have hBs : ¬ B s a := fun hb => by rw [hB s a t hs ht hb] at hft; cases hft
      simp only [hft, hAs, hBs, false_or, forall_const]
      exact ⟨fun hr => ⟨fun _ => hr.1, hr⟩, fun hr => hr.2⟩
    · by_cases hBs : B s a
      · simp [hB s a t hs ht hBs, hAs, hBs]
      · simp [hC s a t hs ht hAs hBs, hAs, hBs]

/-- **Records.** What steps meeting `A` bring about, and no step undoes, holds at the end of a run iff it
held at the start or some step met `A`. -/
theorem sometime_iff {step : σ → α → Option σ} {A : σ → α → Prop} {P : σ → Prop}
    (hstep : ∀ s a s', step s a = some s' → (P s' ↔ P s ∨ A s a)) :
    ∀ {as : List α} {s s' : σ}, run step s as = some s' → (P s' ↔ P s ∨ Sometime step A s as)
  | [], _, _, h => by
    cases h
    simp [Sometime]
  | a :: as, s, s', h => by
    obtain ⟨t, ht, h⟩ := run_cons_eq_some.1 h
    rw [sometime_iff hstep h, hstep s a t ht, or_assoc]
    simp only [Sometime, ht]

/-- **Refinement.** If each step of `step` expands, under `expand` on labels and `abs` on states,
to a run of `step'`, then each run does. -/
theorem run_refines {step : σ → α → Option σ} {step' : τ → β → Option τ} {abs : σ → τ} {expand : α → List β}
    (hstep : ∀ s a s', step s a = some s' → run step' (abs s) (expand a) = some (abs s')) :
    ∀ {as : List α} {s s' : σ}, run step s as = some s' → run step' (abs s) (as.flatMap expand) = some (abs s')
  | [], _, _, h => by cases h; rfl
  | a :: as, s, s', h => by
    obtain ⟨t, ht, h⟩ := run_cons_eq_some.1 h
    rw [List.flatMap_cons, run_append, hstep s a t ht]
    exact run_refines hstep h

/-- The labels a run expands to, where the expansion of a step depends on its state. -/
def trace (step : σ → α → Option σ) (expand : σ → α → List β) : σ → List α → List β
  | _, [] => []
  | s, a :: as => expand s a ++ match step s a with
    | some s' => trace step expand s' as
    | none => []

/-- **Refinement**, with an expansion that depends on the state. -/
theorem run_trace {step : σ → α → Option σ} {step' : τ → β → Option τ} {abs : σ → τ} {expand : σ → α → List β}
    (hstep : ∀ s a s', step s a = some s' → run step' (abs s) (expand s a) = some (abs s')) :
    ∀ {as : List α} {s s' : σ}, run step s as = some s' → run step' (abs s) (trace step expand s as) = some (abs s')
  | [], _, _, h => by cases h; rfl
  | a :: as, s, s', h => by
    obtain ⟨t, ht, h⟩ := run_cons_eq_some.1 h
    simp only [trace, ht]
    rw [run_append, hstep s a t ht]
    exact run_trace hstep h

/-- A trace splits where its labels do. -/
theorem trace_append {step : σ → α → Option σ} {expand : σ → α → List β} {bs : List α} :
    ∀ {as : List α} {s s' : σ}, run step s as = some s' →
      trace step expand s (as ++ bs) = trace step expand s as ++ trace step expand s' bs
  | [], s, _, h => by
    cases h
    rfl
  | a :: as, s, s', h => by
    obtain ⟨t, ht, h⟩ := run_cons_eq_some.1 h
    simp only [List.cons_append, trace, ht, trace_append h, List.append_assoc]

theorem trace_singleton {step : σ → α → Option σ} {expand : σ → α → List β} (s : σ) (a : α) :
    trace step expand s [a] = expand s a := by
  simp only [trace]
  cases step s a <;> simp

/-- One step longer. -/
theorem trace_snoc {step : σ → α → Option σ} {expand : σ → α → List β} {as : List α} {s s' : σ} (a : α)
    (h : run step s as = some s') : trace step expand s (as ++ [a]) = trace step expand s as ++ expand s' a := by
  rw [trace_append h, trace_singleton]

/-! ## Progress -/

section
variable {step : σ → α → Option σ} {C : σ → α → Prop} {I F : σ → Prop} {μ : σ → Nat}

/-- **Bounded runs.** If the steps that meet `C` lower `μ`, a run along `C` has at most `μ` of them. -/
theorem length_le_of_measure (hI : ∀ s a s', I s → C s a → step s a = some s' → I s')
    (hμ : ∀ s a s', I s → C s a → step s a = some s' → μ s' < μ s) :
    ∀ {as : List α} {s s' : σ}, I s → Along step C s as → run step s as = some s' → as.length + μ s' ≤ μ s
  | [], _, _, _, _, h => by cases h; simp
  | a :: as, s, s', hs, hC, h => by
    obtain ⟨t, ht, h⟩ := run_cons_eq_some.1 h
    obtain ⟨hCa, hC⟩ := (along_cons_of_step ht).1 hC
    have hlt := hμ s a t hs hCa ht
    have hle := length_le_of_measure hI hμ (hI s a t hs hCa ht) hC h
    simp only [List.length_cons]
    omega

/-- **Completion.** If besides every state short of `F` has a step that meets `C`, every state can be
run to `F`. -/
theorem exists_run_to (hI : ∀ s a s', I s → C s a → step s a = some s' → I s')
    (hμ : ∀ s a s', I s → C s a → step s a = some s' → μ s' < μ s)
    (hF : ∀ s, I s → F s ∨ ∃ a s', C s a ∧ step s a = some s') (s : σ) (hs : I s) :
    ∃ as s', Along step C s as ∧ run step s as = some s' ∧ F s' := by
  rcases hF s hs with hf | ⟨a, t, hC, ht⟩
  · exact ⟨[], s, trivial, rfl, hf⟩
  · obtain ⟨as, s', hal, hr, hf⟩ := exists_run_to hI hμ hF t (hI s a t hs hC ht)
    exact ⟨a :: as, s', (along_cons_of_step ht).2 ⟨hC, hal⟩, run_cons_eq_some.2 ⟨t, ht, hr⟩, hf⟩
termination_by μ s
decreasing_by exact hμ s a t hs hC ht

end

end Lts
