import Marks.Rows
import Mathlib.Data.List.Nodup

/-! # Transactions over keyed tables

A table is a list of rows no two of which share a key. Work on a store is a run of statements, each of which may fail
with the store half changed, and a transaction puts the store back where its work failed. -/

namespace Transactions

/-! ## Tables -/

section
variable {α κ γ : Type}

structure Table (key : α → κ) where
  rows : List α
  keys : (rows.map key).Nodup

namespace Table
variable {key : α → κ} {table : Table key} {p q : α → Bool}

def delete (table : Table key) (picks : α → Bool) : Table key where
  rows := table.rows.filter (!picks ·)
  keys := table.keys.sublist (List.filter_sublist.map key)

@[simp] theorem rows_delete : (table.delete p).rows = table.rows.filter (!p ·) := rfl

theorem eq_of_rows {table' : Table key} (h : table.rows = table'.rows) : table = table' := by
  cases table
  cases table'
  cases h
  rfl

theorem row_unique {a b : α} (ha : a ∈ table.rows) (hb : b ∈ table.rows) (h : key a = key b) : a = b :=
  List.inj_on_of_nodup_map table.keys ha hb h

theorem delete_congr (h : ∀ row ∈ table.rows, p row = q row) : table.delete p = table.delete q := by
  apply eq_of_rows
  rw [rows_delete, rows_delete]
  apply List.filter_congr
  intro row hrow
  rw [h row hrow]

theorem delete_none (h : ∀ row ∈ table.rows, p row = false) : table.delete p = table := by
  apply eq_of_rows
  rw [rows_delete, List.filter_eq_self]
  intro row hrow
  rw [h row hrow]
  rfl

theorem delete_delete : (table.delete p).delete q = table.delete fun row => p row || q row := by
  apply eq_of_rows
  simp only [rows_delete, List.filter_filter]
  apply List.filter_congr
  intro row _
  cases p row <;> cases q row <;> rfl

theorem any_load (table : Table key) [DecidableEq κ] [DecidableEq γ] {f : α → γ} {k : κ} {c : γ} :
    (table.rows.any fun row => f row == c && key row == k) = ((Rows.load key table.rows k).map f == some c) := by
  rw [Bool.eq_iff_iff, List.any_eq_true, beq_iff_eq, Option.map_eq_some_iff]
  constructor
  · rintro ⟨row, hrow, h⟩
    rw [Bool.and_eq_true, beq_iff_eq, beq_iff_eq] at h
    cases hload : Rows.load key table.rows k with
    | none => exact absurd h.2 (Rows.load_none hload row hrow)
    | some found =>
      obtain ⟨hfound, hkey⟩ := Rows.load_some hload
      have hsame : row = found := row_unique hrow hfound (h.2.trans hkey.symm)
      exact ⟨found, rfl, hsame ▸ h.1⟩
  · rintro ⟨row, hload, hf⟩
    obtain ⟨hrow, hkey⟩ := Rows.load_some hload
    refine ⟨row, hrow, ?_⟩
    rw [Bool.and_eq_true, beq_iff_eq, beq_iff_eq]
    exact ⟨hf, hkey⟩

theorem countP_key (h : ∀ a b, p a = true → p b = true → key a = key b) :
    table.rows.countP p = if table.rows.any p then 1 else 0 := by
  have hle : table.rows.countP p ≤ 1 := by
    rw [List.countP_eq_length_filter]
    have hnodup : (table.rows.filter p).Nodup := table.keys.of_map.filter p
    rcases hrows : table.rows.filter p with _ | ⟨a, _ | ⟨b, rest⟩⟩
    · exact Nat.zero_le _
    · exact Nat.le_refl _
    rw [hrows] at hnodup
    have ha : a ∈ table.rows.filter p := by rw [hrows]; exact .head _
    have hb : b ∈ table.rows.filter p := by rw [hrows]; exact .tail _ (.head _)
    have hab := row_unique (List.mem_of_mem_filter ha) (List.mem_of_mem_filter hb)
      (h a b (List.of_mem_filter ha) (List.of_mem_filter hb))
    exact absurd (hab ▸ .head _) (List.nodup_cons.mp hnodup).1
  split
  · rename_i hany
    have hpos : 0 < table.rows.countP p := List.countP_pos_iff.mpr (List.any_eq_true.mp hany)
    omega
  rename_i hany
  rw [List.countP_eq_zero]
  intro row hrow hp
  exact hany (List.any_eq_true.mpr ⟨row, hrow, hp⟩)

end Table

end

/-! ## Work -/

def Work (σ ε α : Type) : Type := σ → Except ε α × σ

section
variable {σ ε α β : Type}

def Work.bind (work : Work σ ε α) (rest : α → Work σ ε β) : Work σ ε β := fun s =>
  match work s with
  | (.ok a, s') => rest a s'
  | (.error error, s') => (.error error, s')

instance : Monad (Work σ ε) where
  pure a := fun s => (.ok a, s)
  bind := Work.bind

def Work.check (holds : Bool) (error : ε) : Work σ ε Unit := fun s =>
  if holds then (.ok (), s) else (.error error, s)

/-- A row that has to be there. -/
def Work.found (row : Option α) (error : ε) : Work σ ε α := fun s =>
  match row with
  | some row => (.ok row, s)
  | none => (.error error, s)

def Work.statement (carried : σ → Bool) (refusal : ε) (change : σ → α × σ) : Work σ ε α := fun s =>
  if carried s then (.ok (change s).1, (change s).2) else (.error refusal, s)

/-- The work between the begin and the commit of a transaction; neither has to succeed. -/
def Work.tx (begins commits : Bool) (refusal : ε) (work : Work σ ε α) : Work σ ε α := fun before =>
  if begins then
    match work before with
    | (.ok value, after) => if commits then (.ok value, after) else (.error refusal, before)
    | (.error error, _) => (.error error, before)
  else (.error refusal, before)

def Work.Yields (work : Work σ ε α) (s : σ) (value : α) (s' : σ) : Prop := work s = (.ok value, s')

namespace Work
variable {s s' : σ} {error : ε} {work : Work σ ε α}

theorem yields_pure {a b : α} : (pure a : Work σ ε α).Yields s b s' ↔ b = a ∧ s' = s := by
  constructor
  · intro h
    cases h
    exact ⟨rfl, rfl⟩
  · rintro ⟨rfl, rfl⟩
    rfl

theorem yields_bind {f : α → Work σ ε β} {b : β} :
    (work >>= f).Yields s b s' ↔ ∃ a t, work.Yields s a t ∧ (f a).Yields t b s' := by
  show Work.bind work f s = _ ↔ _
  unfold Yields Work.bind
  constructor
  · intro h
    split at h
    · rename_i a t hw
      exact ⟨a, t, hw, h⟩
    · cases h
  · rintro ⟨a, t, hw, h⟩
    rw [hw]
    exact h

theorem yields_check {holds : Bool} {u : Unit} :
    (check holds error : Work σ ε Unit).Yields s u s' ↔ holds = true ∧ s' = s := by
  unfold Yields check
  cases holds with
  | true => simp [eq_comm]
  | false => simp

theorem yields_found {row : Option α} {a : α} :
    (found row error : Work σ ε α).Yields s a s' ↔ row = some a ∧ s' = s := by
  unfold Yields found
  cases row with
  | none => simp
  | some b => simp [eq_comm]

theorem yields_statement {carried : σ → Bool} {change : σ → α × σ} {a : α} :
    (statement carried error change).Yields s a s' ↔ carried s = true ∧ change s = (a, s') := by
  unfold Yields statement
  split
  · rename_i hc
    simp [hc, Prod.ext_iff]
  · rename_i hc
    simp [hc]

theorem yields_tx {begins commits : Bool} {a : α} :
    (work.tx begins commits error).Yields s a s' ↔ begins = true ∧ commits = true ∧ work.Yields s a s' := by
  unfold Yields tx
  cases begins with
  | false => simp
  | true =>
    rcases work s with ⟨_ | value, after⟩
    · simp
    · cases commits with
      | false => simp
      | true => simp

/-! ### Work that changes the store only where it succeeds -/

def Atomic (work : Work σ ε α) : Prop := ∀ s error s', work s = (.error error, s') → s' = s

theorem atomic_tx {begins commits : Bool} : (work.tx begins commits error).Atomic := by
  intro s other s' h
  unfold tx at h
  split at h
  · split at h
    · split at h
      · cases h
      · cases h
        rfl
    · cases h
      rfl
  · cases h
    rfl

theorem check_state {holds : Bool} : ((check holds error : Work σ ε Unit) s).2 = s := by
  unfold check
  split <;> rfl

theorem found_state {row : Option α} : ((found row error : Work σ ε α) s).2 = s := by
  unfold found
  split <;> rfl

theorem atomic_bind {f : α → Work σ ε β} (hreads : ∀ s, (work s).2 = s) (hf : ∀ a, (f a).Atomic) :
    (work >>= f).Atomic := by
  intro s other s' h
  change Work.bind work f s = _ at h
  have hs := hreads s
  unfold Work.bind at h
  split at h
  · rename_i a t hw
    rw [hw] at hs
    exact (hf a t other s' h).trans hs
  rename_i error' t hw
  rw [hw] at hs
  cases h
  exact hs

end Work

end

end Transactions
