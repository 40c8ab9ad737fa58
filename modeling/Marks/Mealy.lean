import Mathlib.Data.List.Basic

/-! # Machines with output

A machine reads a list, goes from state to state and writes one output for each input. Two machines on the same states
write the same where they do the same in each state they come through. -/

namespace Marks.Mealy

structure Machine (σ α β : Type) where
  step : σ → α → σ
  out : σ → α → β

section
variable {σ α β : Type}

def Machine.outputs (m : Machine σ α β) : σ → List α → List β
  | _, [] => []
  | s, a :: rest => m.out s a :: m.outputs (m.step s a) rest

def Machine.behind (m : Machine σ α β) (s : σ) (inputs : List α) : σ := inputs.foldl m.step s

variable {m n : Machine σ α β} {s : σ}

theorem outputs_cons (a : α) (rest : List α) : m.outputs s (a :: rest) = m.out s a :: m.outputs (m.step s a) rest := rfl

theorem behind_append (before rest : List α) : m.behind s (before ++ rest) = m.behind (m.behind s before) rest :=
  List.foldl_append

theorem length_outputs (inputs : List α) : (m.outputs s inputs).length = inputs.length := by
  induction inputs generalizing s with
  | nil => rfl
  | cons a rest ih => rw [outputs_cons, List.length_cons, List.length_cons, ih]

theorem outputs_append (before rest : List α) :
    m.outputs s (before ++ rest) = m.outputs s before ++ m.outputs (m.behind s before) rest := by
  induction before generalizing s with
  | nil => rfl
  | cons a before ih => exact congrArg (m.out s a :: ·) ih

theorem outputs_at (before : List α) (a : α) (after : List α) :
    (m.outputs s (before ++ a :: after))[before.length]? = some (m.out (m.behind s before) a) := by
  rw [outputs_append, List.getElem?_append_right (Nat.le_of_eq (length_outputs before)), length_outputs, Nat.sub_self]
  rfl

theorem outputs_still {inputs : List α} (h : ∀ a ∈ inputs, m.step s a = s) :
    m.outputs s inputs = inputs.map (m.out s) ∧ m.behind s inputs = s := by
  induction inputs with
  | nil => exact ⟨rfl, rfl⟩
  | cons a rest ih =>
    obtain ⟨ha, hrest⟩ := List.forall_mem_cons.mp h
    obtain ⟨houtputs, hbehind⟩ := ih hrest
    constructor
    · rw [outputs_cons, ha, houtputs, List.map_cons]
    · show m.behind (m.step s a) rest = s
      rw [ha, hbehind]

def SameAt (m n : Machine σ α β) (s : σ) (a : α) : Prop := m.out s a = n.out s a ∧ m.step s a = n.step s a

theorem outputs_congr {inputs : List α}
    (h : ∀ before a after, inputs = before ++ a :: after → SameAt m n (n.behind s before) a) :
    m.outputs s inputs = n.outputs s inputs ∧ m.behind s inputs = n.behind s inputs := by
  induction inputs generalizing s with
  | nil => exact ⟨rfl, rfl⟩
  | cons a rest ih =>
    obtain ⟨hout, hstep⟩ := h [] a rest rfl
    obtain ⟨houtputs, hbehind⟩ := @ih (n.step s a) fun before b after hsplit =>
      h (a :: before) b after (by rw [hsplit]; rfl)
    have hout : m.out s a = n.out s a := hout
    have hstep : m.step s a = n.step s a := hstep
    constructor
    · rw [outputs_cons, outputs_cons, hout, hstep, houtputs]
    · show m.behind (m.step s a) rest = n.behind (n.step s a) rest
      rw [hstep, hbehind]

end

end Marks.Mealy
