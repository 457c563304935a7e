import Mathlib.Algebra.GroupWithZero.Nat

/-!
# Runs of a step function under a per-step condition

A reactive program is a step function `σ → ε → σ` applied to one event after
another.  Two things vary from result to result: what the environment may do
(an event on a descriptor that is not open does not happen), and what a
result has to assume about a step.  Both are conditions `ok s e` on the state
a step is taken from, and `Meets` says that every step of a run satisfies
its condition.

`run_invariant` is the induction every safety theorem below goes through:
an invariant that survives each step meeting `ok` holds after every run
whose steps all meet `ok`.  `run_simulation` is the same induction for two systems of which
one follows the other, and `run_stuttering` where it takes several steps, or none, for one.
-/

namespace ResourceAgent.Verified.Runs

variable {σ ε : Type _}

/-- The state after a sequence of events. -/
def run (step : σ → ε → σ) (s : σ) (es : List ε) : σ := es.foldl step s

/-- Every step of the run satisfies `ok` in the state it is taken from. -/
def Meets (step : σ → ε → σ) (ok : σ → ε → Prop) : σ → List ε → Prop
  | _, [] => True
  | s, e :: es => ok s e ∧ Meets step ok (step s e) es

instance Meets.decidable (step : σ → ε → σ) (ok : σ → ε → Prop)
    [∀ s e, Decidable (ok s e)] : ∀ s es, Decidable (Meets step ok s es)
  | _, [] => isTrue trivial
  | s, e :: es =>
      have := Meets.decidable step ok (step s e) es
      inferInstanceAs (Decidable (ok s e ∧ Meets step ok (step s e) es))

variable {step : σ → ε → σ} {ok : σ → ε → Prop}

@[simp] theorem run_nil (s : σ) : run step s [] = s := rfl

@[simp] theorem run_cons (s : σ) (e : ε) (es : List ε) :
    run step s (e :: es) = run step (step s e) es := rfl

theorem run_append (s : σ) (es fs : List ε) :
    run step s (es ++ fs) = run step (run step s es) fs := by
  simp [run]

theorem run_snoc (s : σ) (es : List ε) (e : ε) :
    run step s (es ++ [e]) = step (run step s es) e := by
  simp [run]

theorem meets_append (s : σ) (es fs : List ε) :
    Meets step ok s (es ++ fs) ↔
      Meets step ok s es ∧ Meets step ok (run step s es) fs := by
  induction es generalizing s with
  | nil => simp [Meets]
  | cons e es ih => simp [Meets, ih, and_assoc]

/-- A weaker condition is met by the same run. -/
theorem Meets.mono {ok' : σ → ε → Prop} (hImp : ∀ s e, ok s e → ok' s e)
    {s : σ} {es : List ε} (h : Meets step ok s es) : Meets step ok' s es := by
  induction es generalizing s with
  | nil => trivial
  | cons e es ih => exact ⟨hImp _ _ h.1, ih h.2⟩

/-- A condition on the events alone. -/
theorem meets_of_forall {P : ε → Prop} {s : σ} {es : List ε} (h : ∀ e ∈ es, P e) :
    Meets step (fun _ e => P e) s es := by
  induction es generalizing s with
  | nil => trivial
  | cons e es ih => exact ⟨h e (by simp), ih fun x hx => h x (by simp [hx])⟩

theorem Meets.and {ok' : σ → ε → Prop} {s : σ} {es : List ε} (h : Meets step ok s es)
    (h' : Meets step ok' s es) : Meets step (fun s e => ok s e ∧ ok' s e) s es := by
  induction es generalizing s with
  | nil => trivial
  | cons e es ih => exact ⟨⟨h.1, h'.1⟩, ih h.2 h'.2⟩

/-- **Invariant rule.**  What every admitted step preserves holds at the end
of every run of admitted steps. -/
theorem run_invariant (inv : σ → Prop)
    (hStep : ∀ s e, inv s → ok s e → inv (step s e))
    {s : σ} {es : List ε} (hInit : inv s) (hMeets : Meets step ok s es) :
    inv (run step s es) := by
  induction es generalizing s with
  | nil => exact hInit
  | cons e es ih => exact ih (hStep s e hInit hMeets.1) hMeets.2

/-- The invariant rule for steps that need no condition. -/
theorem run_invariant_always (inv : σ → Prop)
    (hStep : ∀ s e, inv s → inv (step s e))
    {s : σ} (hInit : inv s) (es : List ε) : inv (run step s es) := by
  induction es generalizing s with
  | nil => exact hInit
  | cons e es ih => exact ih (hStep s e hInit)

/-- The invariant rule for what every step does: a property of single steps that
follows from the invariant holds of every step of a run. -/
theorem Meets.of_invariant (inv : σ → Prop) {good : σ → ε → Prop}
    (hStep : ∀ s e, inv s → ok s e → inv (step s e) ∧ good s e)
    {s : σ} {es : List ε} (hInit : inv s) (hMeets : Meets step ok s es) :
    Meets step good s es := by
  induction es generalizing s with
  | nil => trivial
  | cons e es ih =>
      obtain ⟨hInv, hGood⟩ := hStep s e hInit hMeets.1
      exact ⟨hGood, ih hInv hMeets.2⟩

/-- The invariant rule for an invariant that speaks of the events so far. -/
theorem run_invariant_history (inv : List ε → σ → Prop)
    (hStep : ∀ es s e, inv es s → ok s e → inv (es ++ [e]) (step s e))
    {s : σ} {es : List ε} (hInit : inv [] s) (hMeets : Meets step ok s es) :
    inv es (run step s es) := by
  have hFrom : ∀ (es past : List ε) (s : σ), inv past s → Meets step ok s es →
      inv (past ++ es) (run step s es) := by
    intro es
    induction es with
    | nil =>
        intro past s hInv _
        simpa using hInv
    | cons e es ih =>
        intro past s hInv hMeets
        have := ih (past ++ [e]) (step s e) (hStep past s e hInv hMeets.1) hMeets.2
        simpa using this
  exact hFrom es [] s hInit hMeets

/-! ## Two systems in step -/

/-- What a run does, step by step, under another system's names. -/
def labels {μ : Type _} (step : σ → ε → σ) (label : σ → ε → μ) : σ → List ε → List μ
  | _, [] => []
  | s, e :: es => label s e :: labels step label (step s e) es

/-- **Simulation rule.**  When every admitted step is matched by a step of another system, every
admitted run is. -/
theorem run_simulation {τ μ : Type _} {stepA : τ → μ → τ} {label : σ → ε → μ} (R : σ → τ → Prop)
    (hStep : ∀ s t e, R s t → ok s e → R (step s e) (stepA t (label s e)))
    {s : σ} {t : τ} {es : List ε} (hInit : R s t) (hMeets : Meets step ok s es) :
    R (run step s es) (run stepA t (labels step label s es)) := by
  induction es generalizing s t with
  | nil => exact hInit
  | cons e es ih => exact ih (hStep s t e hInit hMeets.1) hMeets.2

/-- What a run does under another system's names, when a step can be several steps of that
system, or none. -/
def scripts {μ : Type _} (step : σ → ε → σ) (script : σ → ε → List μ) : σ → List ε → List μ
  | _, [] => []
  | s, e :: es => script s e ++ scripts step script (step s e) es

/-- **Stuttering simulation rule.**  When every admitted step is matched by some admitted steps
of another system, every admitted run is. -/
theorem run_stuttering {τ μ : Type _} {stepA : τ → μ → τ} {okA : τ → μ → Prop}
    {script : σ → ε → List μ} (R : σ → τ → Prop)
    (hStep : ∀ s t e, R s t → ok s e →
      Meets stepA okA t (script s e) ∧ R (step s e) (run stepA t (script s e)))
    {s : σ} {t : τ} {es : List ε} (hInit : R s t) (hMeets : Meets step ok s es) :
    Meets stepA okA t (scripts step script s es) ∧
      R (run step s es) (run stepA t (scripts step script s es)) := by
  induction es generalizing s t with
  | nil => exact ⟨trivial, hInit⟩
  | cons e es ih =>
      obtain ⟨hAdmitted, hRelated⟩ := hStep s t e hInit hMeets.1
      obtain ⟨hRest, hEnd⟩ := ih hRelated hMeets.2
      rw [scripts, meets_append, run_append]
      exact ⟨⟨hAdmitted, hRest⟩, hEnd⟩

/-! ## Steps that can go wrong -/

/-- A step function that has no result where the program has none; nothing happens after
that. -/
def checked (step : σ → ε → Option σ) (s : Option σ) (e : ε) : Option σ :=
  s.bind fun s => step s e

end ResourceAgent.Verified.Runs
