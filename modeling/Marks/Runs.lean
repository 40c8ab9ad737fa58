import Mathlib.Data.List.Basic

/-! # Runs of a step function

A system is a step function on states and events. `run` folds it over a list of events, `Along` says
that a condition on the state before each event holds at every step, and the rules below carry an
invariant from one step to a whole run. -/

namespace Transition

variable {σ ε : Type*}

def run (step : σ → ε → σ) : σ → List ε → σ
  | s, [] => s
  | s, e :: es => run step (step s e) es

/-- `C` holds of the state before each event, and of that event. -/
def Along (step : σ → ε → σ) (C : σ → ε → Prop) : σ → List ε → Prop
  | _, [] => True
  | s, e :: es => C s e ∧ Along step C (step s e) es

/-- `I` is kept by every step that meets `C`. -/
def Kept (step : σ → ε → σ) (C : σ → ε → Prop) (I : σ → Prop) : Prop :=
  ∀ s e, I s → C s e → I (step s e)

variable {step : σ → ε → σ} {C D : σ → ε → Prop} {I J : σ → Prop}

instance decidableAlong [∀ s e, Decidable (C s e)] :
    ∀ s es, Decidable (Along step C s es)
  | _, [] => isTrue trivial
  | s, e :: es => @instDecidableAnd _ _ _ (decidableAlong (step s e) es)

@[simp] theorem run_nil (s : σ) : run step s [] = s := rfl

@[simp] theorem run_cons (s : σ) (e : ε) (es : List ε) :
    run step s (e :: es) = run step (step s e) es := rfl

theorem run_append (s : σ) (es fs : List ε) :
    run step s (es ++ fs) = run step (run step s es) fs := by
  induction es generalizing s with
  | nil => rfl
  | cons e es ih => exact ih (step s e)

theorem run_snoc (s : σ) (es : List ε) (e : ε) :
    run step s (es ++ [e]) = step (run step s es) e := run_append s es [e]

variable {s : σ} {es : List ε}

theorem along_append {fs : List ε} :
    Along step C s (es ++ fs) ↔ Along step C s es ∧ Along step C (run step s es) fs := by
  induction es generalizing s with
  | nil => simp only [List.nil_append, Along, run_nil, true_and]
  | cons e es ih => simp only [List.cons_append, Along, run_cons, ih, and_assoc]

theorem along_and (hc : Along step C s es) (hd : Along step D s es) :
    Along step (fun s e => C s e ∧ D s e) s es := by
  induction es generalizing s with
  | nil => trivial
  | cons e es ih => exact ⟨⟨hc.1, hd.1⟩, ih hc.2 hd.2⟩

theorem along_of (h : ∀ s e, C s e) : Along step C s es := by
  induction es generalizing s with
  | nil => trivial
  | cons e es ih => exact ⟨h s e, ih⟩

theorem along_mono (h : ∀ s e, C s e → D s e) (ha : Along step C s es) :
    Along step D s es := by
  induction es generalizing s with
  | nil => trivial
  | cons e es ih => exact ⟨h _ _ ha.1, ih ha.2⟩

theorem run_inv (hk : Kept step C I) (h0 : I s) (ha : Along step C s es) :
    I (run step s es) := by
  induction es generalizing s with
  | nil => exact h0
  | cons e es ih => exact ih (hk s e h0 ha.1) ha.2

theorem Kept.and (hI : Kept step C I) (hJ : ∀ s e, I s → J s → C s e → J (step s e)) :
    Kept step C (fun s => I s ∧ J s) :=
  fun s e h hc => ⟨hI s e h.1 hc, hJ s e h.1 h.2 hc⟩

theorem foldl_rel {R : σ → σ → Prop} (hrefl : ∀ s, R s s) (htrans : ∀ {s t u}, R s t → R t u → R s u)
    {f : σ → ε → σ} (hf : ∀ s, ∀ e ∈ es, R s (f s e)) (s : σ) : R s (es.foldl f s) := by
  induction es generalizing s with
  | nil => exact hrefl s
  | cons e es ih =>
    refine htrans (hf s e List.mem_cons_self) (ih (fun t x hx => ?_) (f s e))
    exact hf t x (List.mem_cons_of_mem e hx)

theorem along_iff_at :
    Along step C s es ↔ ∀ before e later, es = before ++ e :: later → C (run step s before) e := by
  constructor
  · intro h before e later hes
    rw [hes, along_append] at h
    exact h.2.1
  intro h
  induction es generalizing s with
  | nil => trivial
  | cons e es ih =>
    refine ⟨h [] e es rfl, ih fun before e' later hes => ?_⟩
    exact h (e :: before) e' later (congrArg (e :: ·) hes)

theorem run_rel {R : σ → σ → Prop} (hrefl : ∀ s, R s s) (htrans : ∀ {s t u}, R s t → R t u → R s u)
    (h : Along step (fun s e => R s (step s e)) s es) : R s (run step s es) := by
  induction es generalizing s with
  | nil => exact hrefl s
  | cons e es ih => exact htrans h.1 (ih h.2)

/-- An invariant that implies `P` is kept under `C`, and a step against `C` falsifies `P`: then `P` holds in
every state of a run exactly if `C` holds at every step. -/
theorem along_iff {P : σ → Prop} (hk : Kept step C I) (hP : ∀ s, I s → P s)
    (hbreak : ∀ s e, I s → ¬ C s e → ¬ P (step s e)) (h0 : I s) :
    (∀ n, P (run step s (es.take n))) ↔ Along step C s es := by
  constructor
  · intro h
    induction es generalizing s with
    | nil => trivial
    | cons e es ih =>
      have hc : C s e := by
        by_cases hc : C s e
        · exact hc
        · exact absurd (h 1) (hbreak s e h0 hc)
      exact ⟨hc, ih (hk s e h0 hc) fun n => h (n + 1)⟩
  · intro h n
    refine hP _ (run_inv hk h0 ?_)
    rw [← List.take_append_drop n es, along_append] at h
    exact h.1

/-! ## Logs -/

def Chronicle {α : Type*} (agrees : α → List α → Prop) : List α → Prop
  | [] => True
  | entry :: log => agrees entry log ∧ Chronicle agrees log

theorem Chronicle.agrees_at {α : Type*} {agrees : α → List α → Prop} {later earlier : List α} {entry : α}
    (h : Chronicle agrees (later ++ entry :: earlier)) : agrees entry earlier := by
  induction later with
  | nil => exact h.1
  | cons _ _ ih => exact ih h.2

end Transition
