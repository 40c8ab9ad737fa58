import Mathlib.Data.List.Basic

/-! # Tables of rows under keys

A row is found under its key. It is inserted where its key is free, and an update changes the rows it picks and
none of their keys, so a row once in its table stays there. -/

namespace Rows

variable {α κ : Type} [DecidableEq κ] (key : α → κ)

def load (rows : List α) (k : κ) : Option α := rows.find? fun row => key row == k

def insert (rows : List α) (row : α) : Option (List α) :=
  if rows.any fun other => key other == key row then none else some (rows ++ [row])

def update (picks : α → Bool) (change : α → α) (rows : List α) : List α :=
  rows.map fun row => if picks row then change row else row

/-- Every row is still there under its key, changed as `keeps` allows. -/
def Later (keeps : α → α → Prop) (rows rows' : List α) : Prop :=
  ∀ k row, load key rows k = some row → ∃ row', load key rows' k = some row' ∧ keeps row row'

section
variable {key : α → κ} {rows rows' : List α} {row : α} {k : κ}

theorem load_some (h : load key rows k = some row) : row ∈ rows ∧ key row = k := by
  unfold load at h
  exact ⟨List.mem_of_find?_eq_some h, by simpa using List.find?_some h⟩

theorem load_none (h : load key rows k = none) : ∀ row ∈ rows, key row ≠ k := by
  intro row hr
  unfold load at h
  simpa using List.find?_eq_none.mp h row hr

theorem load_append (h : load key rows k = some row) : load key (rows ++ rows') k = some row := by
  unfold load at h ⊢
  rw [List.find?_append, h]
  rfl

theorem load_append_none (h : load key (rows ++ rows') k = none) : load key rows k = none := by
  unfold load at h ⊢
  rw [List.find?_append] at h
  exact (Option.or_eq_none_iff.mp h).1

theorem insert_some (h : insert key rows row = some rows') :
    rows' = rows ++ [row] ∧ load key rows (key row) = none ∧ load key rows' (key row) = some row := by
  unfold insert at h
  split at h
  · cases h
  rename_i hfree
  have hnone : load key rows (key row) = none := by
    unfold load
    rw [List.find?_eq_none]
    intro other ho heq
    exact hfree (List.any_eq_true.mpr ⟨other, ho, heq⟩)
  cases h
  refine ⟨rfl, hnone, ?_⟩
  unfold load at hnone ⊢
  rw [List.find?_append, hnone]
  simp

theorem load_update {picks : α → Bool} {change : α → α} (hkey : ∀ row, key (change row) = key row) :
    load key (update picks change rows) k =
      (load key rows k).map fun row => if picks row then change row else row := by
  unfold load update
  rw [List.find?_map]
  congr 2
  funext row
  simp only [Function.comp]
  split
  · rw [hkey]
  · rfl

theorem mem_update {picks : α → Bool} {change : α → α} (h : row ∈ update picks change rows) :
    ∃ old ∈ rows, row = if picks old then change old else old := by
  unfold update at h
  obtain ⟨old, ho, heq⟩ := List.mem_map.mp h
  exact ⟨old, ho, heq.symm⟩

end

section
variable {key : α → κ} {keeps : α → α → Prop} {rows rows' rows'' : List α}

theorem Later.refl (hrefl : ∀ row, keeps row row) : Later key keeps rows rows :=
  fun _ row h => ⟨row, h, hrefl row⟩

theorem Later.trans (htrans : ∀ {a b c}, keeps a b → keeps b c → keeps a c) (h : Later key keeps rows rows')
    (h' : Later key keeps rows' rows'') : Later key keeps rows rows'' := by
  intro k row hl
  obtain ⟨row', hl', hk⟩ := h k row hl
  obtain ⟨row'', hl'', hk'⟩ := h' k row' hl'
  exact ⟨row'', hl'', htrans hk hk'⟩

theorem Later.append (hrefl : ∀ row, keeps row row) : Later key keeps rows (rows ++ rows') :=
  fun _ row h => ⟨row, load_append h, hrefl row⟩

theorem Later.update (hrefl : ∀ row, keeps row row) {picks : α → Bool} {change : α → α}
    (hkey : ∀ row, key (change row) = key row) (hkeeps : ∀ row, picks row = true → keeps row (change row)) :
    Later key keeps rows (update picks change rows) := by
  intro k row h
  refine ⟨if picks row then change row else row, by rw [load_update hkey, h]; rfl, ?_⟩
  split
  · rename_i hp
    exact hkeeps row hp
  · exact hrefl row

end

end Rows
