import Mathlib.Data.List.Basic

/-! # Directories

A directory gives names to contents. A link gives a content a second name, where that name is free; to unlink a name
takes it away and leaves the others. -/

namespace Files

variable {ν γ : Type} [DecidableEq ν]

abbrev Directory (ν γ : Type) := List (ν × γ)

inductive LinkError
  | notFound
  | alreadyExists
deriving DecidableEq, Repr

namespace Directory

variable (dir : Directory ν γ)

def read (name : ν) : Option γ := (dir.find? (·.1 == name)).map (·.2)

def names : List ν := dir.map (·.1)

def unlink (name : ν) : Directory ν γ := dir.filter (·.1 != name)

def write (name : ν) (content : γ) : Directory ν γ := (dir.unlink name) ++ [(name, content)]

def link (source target : ν) : Except LinkError (Directory ν γ) :=
  match dir.read source, dir.read target with
  | none, _ => .error .notFound
  | some _, some _ => .error .alreadyExists
  | some content, none => .ok (dir ++ [(target, content)])

section
variable {dir : Directory ν γ} {name other source target : ν} {content : γ}

theorem mem_names (h : dir.read name = some content) : name ∈ dir.names := by
  unfold read at h
  obtain ⟨entry, he, -⟩ := Option.map_eq_some_iff.mp h
  have hname := List.find?_some he
  exact List.mem_map.mpr ⟨entry, List.mem_of_find?_eq_some he, beq_iff_eq.mp hname⟩

theorem read_unlink : (dir.unlink name).read other = if other = name then none else dir.read other := by
  unfold read unlink
  induction dir with
  | nil => simp
  | cons entry dir ih =>
    by_cases hentry : entry.1 = name
    · rw [List.filter_cons_of_neg (by simp [hentry]), ih]
      by_cases hother : other = name
      · simp [hother]
      · have hne : ¬ entry.1 = other := fun he => hother (he ▸ hentry)
        simp [hother, hne]
    · rw [List.filter_cons_of_pos (by simp [hentry])]
      by_cases he : entry.1 = other
      · have hne : ¬ other = name := he ▸ hentry
        simp [he, hne]
      · rw [List.find?_cons_of_neg (by simp [he]), ih, List.find?_cons_of_neg (by simp [he])]

theorem read_append (h : dir.read name = none) :
    Directory.read (dir ++ [(name, content)]) other = if other = name then some content else dir.read other := by
  unfold read at h ⊢
  rw [List.find?_append]
  by_cases hother : other = name
  · rw [hother, Option.map_eq_none_iff.mp h]
    simp
  · have hne : ¬ name = other := fun he => hother he.symm
    simp [hother, hne]

theorem read_write : (dir.write name content).read other = if other = name then some content else dir.read other := by
  unfold write
  rw [read_append (by rw [read_unlink]; exact if_pos rfl), read_unlink]
  split
  · rfl
  · rfl

theorem link_ok {linked : Directory ν γ} (h : dir.link source target = .ok linked) :
    dir.read target = none ∧ ∃ content, dir.read source = some content ∧
      ∀ name, linked.read name = if name = target then some content else dir.read name := by
  unfold link at h
  split at h
  · cases h
  · cases h
  · rename_i content hs ht
    cases h
    exact ⟨ht, content, hs, fun name => read_append ht⟩

theorem link_notFound (h : dir.link source target = .error .notFound) : dir.read source = none := by
  unfold link at h
  split at h
  · assumption
  · cases h
  · cases h

theorem link_alreadyExists (h : dir.link source target = .error .alreadyExists) : (dir.read target).isSome = true := by
  unfold link at h
  split at h
  · cases h
  · rename_i _ _ _ ht
    exact Option.isSome_of_eq_some ht
  · cases h

end

end Directory

end Files
