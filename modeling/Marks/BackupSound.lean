import Marks.Backup
import Marks.Lists

/-! # What is published verifies, and what is restored is the backup

A run owns its staging directory under its own name until it renames or drops it, so nothing changes a directory
between its verification and its publication. A restoration puts the backup's files in place, or reports an error
and cleans up. -/

namespace Marks.Backup

open List

/-! ## The promise of the staging directories -/

def BackupStage.owns : BackupStage → Bool
  | .createRoot | .createPartial | .syncRoot | .ended => false
  | .snapshot | .readRows | .createAssets _ | .copyAssets _ _ | .writeManifest _ | .verify | .finish | .prepared
  | .rename | .drop => true

def BackupStage.verified : BackupStage → Bool
  | .finish | .prepared | .rename => true
  | .createRoot | .createPartial | .snapshot | .readRows | .createAssets _ | .copyAssets _ _ | .writeManifest _
  | .verify | .syncRoot | .drop | .ended => false

def BackupStage.past : BackupStage → Bool
  | .syncRoot | .ended => true
  | .createRoot | .createPartial | .snapshot | .readRows | .createAssets _ | .copyAssets _ _ | .writeManifest _
  | .verify | .finish | .prepared | .rename | .drop => false

def owners (runs : List BackupRun) : List Nat := (runs.filter (·.stage.owns)).map (·.createdAtMs)

def publishers (runs : List BackupRun) : List Nat := (runs.filter (·.published)).map (·.createdAtMs)

section
variable (sha256 : Bytes → Bytes) (assetRows : Bytes → Option (List BackupAsset))

structure Publishes (root : BackupRoot) : Prop where
  verified : ∀ backup ∈ root.backups, (verifyBlocking sha256 assetRows backup.2).isSome = true
  renamed : (root.backups.map (·.1)).Perm (publishers root.runs)

structure Staging (root : BackupRoot) : Prop extends Publishes sha256 assetRows root where
  names : (root.partials.map (·.1)).Nodup
  held : (owners root.runs).Nodup ∧ owners root.runs ⊆ root.partials.map (·.1)
  ready : ∀ run ∈ root.runs, run.stage.verified = true →
    (verifyBlocking sha256 assetRows (root.partialTree run.createdAtMs)).isSome = true
  once : ∀ run ∈ root.runs, run.published = true → run.stage.past = true

end

/-! ## Directories by name -/

section
variable {root : BackupRoot} {createdAtMs other : Nat} {tree : BackupTree}

theorem setPartial_names : (root.setPartial createdAtMs tree).partials.map (·.1) = root.partials.map (·.1) := by
  unfold BackupRoot.setPartial
  rw [map_map]
  refine map_congr_left fun entry _ => ?_
  simp only [Function.comp_apply]
  split
  · rename_i h
    exact h.symm
  · rfl

theorem find_setPartial {partials : List (Nat × BackupTree)} :
    (partials.map fun entry => if entry.1 = createdAtMs then (createdAtMs, tree) else entry).find? (·.1 == other) =
      if createdAtMs = other then (partials.find? (·.1 == other)).map fun _ => (createdAtMs, tree)
      else partials.find? (·.1 == other) := by
  induction partials with
  | nil => split <;> rfl
  | cons entry partials ih =>
    rw [map_cons, find?_cons, find?_cons, ih]
    by_cases he : entry.1 = createdAtMs
    · rw [if_pos he]
      by_cases ho : createdAtMs = other
      · simp only [ho, he, beq_self_eq_true, if_true, Option.map_some]
      · simp only [ho, he, beq_eq_false_iff_ne.mpr ho, if_false]
    · rw [if_neg he]
      by_cases ho : createdAtMs = other
      · simp only [ho, if_true]
        rw [ho] at he
        simp only [beq_eq_false_iff_ne.mpr he]
      · simp only [ho, if_false]

theorem partialTree_setPartial_other (h : createdAtMs ≠ other) :
    (root.setPartial createdAtMs tree).partialTree other = root.partialTree other := by
  unfold BackupRoot.partialTree BackupRoot.setPartial
  rw [find_setPartial, if_neg h]

theorem partialTree_setPartial_self (h : createdAtMs ∈ root.partials.map (·.1)) :
    (root.setPartial createdAtMs tree).partialTree createdAtMs = tree := by
  unfold BackupRoot.partialTree BackupRoot.setPartial
  rw [find_setPartial, if_pos rfl]
  cases hf : root.partials.find? (·.1 == createdAtMs) with
  | some entry => rfl
  | none =>
    obtain ⟨entry, hm, he⟩ := mem_map.mp h
    exact absurd (beq_iff_eq.mpr he) (find?_eq_none.mp hf entry hm)

theorem partialTree_removePartial (h : createdAtMs ≠ other) :
    (root.removePartial createdAtMs).partialTree other = root.partialTree other := by
  unfold BackupRoot.partialTree BackupRoot.removePartial
  rw [find?_filter]
  congr 3
  funext entry
  by_cases he : entry.1 = other
  · simp [he, Ne.symm h]
  · simp [he]

theorem partialTree_append (h : createdAtMs ≠ other) {tree : BackupTree} :
    ({ root with partials := root.partials ++ [(createdAtMs, tree)] } : BackupRoot).partialTree other =
      root.partialTree other := by
  unfold BackupRoot.partialTree
  rw [find?_append]
  cases root.partials.find? (·.1 == other) with
  | some entry => rfl
  | none => simp [h]

end

/-! ## One run among the others -/

variable {i : Nat} {ok : Bool}

section
variable {before after : List BackupRun} {run run' : BackupRun}

theorem owners_parts : owners (before ++ run :: after) =
    owners before ++ ((if run.stage.owns then [run.createdAtMs] else []) ++ owners after) := by
  unfold owners
  rw [filter_append, filter_cons, map_append]
  split <;> rfl

theorem publishers_parts : publishers (before ++ run :: after) =
    publishers before ++ ((if run.published then [run.createdAtMs] else []) ++ publishers after) := by
  unfold publishers
  rw [filter_append, filter_cons, map_append]
  split <;> rfl

theorem mem_owners {runs : List BackupRun} (hm : run ∈ runs) (ho : run.stage.owns = true) :
    run.createdAtMs ∈ owners runs :=
  mem_map_of_mem (mem_filter.mpr ⟨hm, ho⟩)

variable {stage : BackupStage}

theorem verified_owns (h : stage.verified = true) : stage.owns = true := by
  cases stage <;> first | rfl | cases h

variable {sha256 : Bytes → Bytes} {assetRows : Bytes → Option (List BackupAsset)} {root root' : BackupRoot}

def others (before after : List BackupRun) : List Nat := owners before ++ owners after

section

variable (h : Staging sha256 assetRows root)
include h

section

variable (hl : root.runs = before ++ run :: after)
include hl

theorem Staging.others_names :
    ∀ name ∈ others before after, name ∈ root.partials.map (·.1) := by
  intro name hm
  refine h.held.2 ?_
  rw [hl, owners_parts]
  rcases mem_append.mp hm with hm | hm
  · exact mem_append_left _ hm
  · exact mem_append_right _ (mem_append_right _ hm)

theorem Staging.others_ne
    (ho : run.stage.owns = true) : ∀ name ∈ others before after, run.createdAtMs ≠ name := by
  intro name hm heq
  have hn := h.held.1
  rw [hl, owners_parts, ho, if_pos rfl, singleton_append, nodup_middle, nodup_cons] at hn
  exact hn.1 (heq ▸ hm)

theorem Staging.update
    (hl' : root'.runs = before ++ run' :: after) (hpub : Publishes sha256 assetRows root')
    (hnames : (root'.partials.map (·.1)).Nodup)
    (hkept : ∀ name ∈ others before after, name ∈ root'.partials.map (·.1) ∧
      root'.partialTree name = root.partialTree name)
    (hown : run'.stage.owns = true → run'.createdAtMs ∈ root'.partials.map (·.1) ∧
      run'.createdAtMs ∉ others before after)
    (hready : run'.stage.verified = true →
      (verifyBlocking sha256 assetRows (root'.partialTree run'.createdAtMs)).isSome = true)
    (honce : run'.published = true → run'.stage.past = true) : Staging sha256 assetRows root' where
  toPublishes := hpub
  names := hnames
  held := by
    have hothers : (others before after).Nodup := by
      have hn := h.held.1
      rw [hl, owners_parts] at hn
      exact hn.sublist (List.Sublist.append_left (sublist_append_right _ _) _)
    rw [hl', owners_parts]
    cases ho : run'.stage.owns with
    | false =>
      rw [if_neg Bool.false_ne_true, nil_append]
      exact ⟨hothers, fun name hm => (hkept name hm).1⟩
    | true =>
      obtain ⟨hin, hnot⟩ := hown ho
      rw [if_pos rfl, singleton_append, nodup_middle, nodup_cons]
      refine ⟨⟨hnot, hothers⟩, fun name hm => ?_⟩
      rcases mem_append.mp hm with hm | hm
      · exact (hkept name (mem_append_left _ hm)).1
      · rcases mem_cons.mp hm with rfl | hm
        · exact hin
        · exact (hkept name (mem_append_right _ hm)).1
  ready := by
    intro other hm hv
    rw [hl'] at hm
    have hother : other ∈ before ++ after →
        (verifyBlocking sha256 assetRows (root'.partialTree other.createdAtMs)).isSome = true := by
      intro hm
      have hname : other.createdAtMs ∈ others before after := by
        unfold others
        rcases mem_append.mp hm with hm | hm
        · exact mem_append_left _ (mem_owners hm (verified_owns hv))
        · exact mem_append_right _ (mem_owners hm (verified_owns hv))
      rw [(hkept _ hname).2]
      refine h.ready other ?_ hv
      rw [hl]
      rcases mem_append.mp hm with hm | hm
      · exact mem_append_left _ hm
      · exact mem_append_right _ (mem_cons_of_mem _ hm)
    rcases mem_append.mp hm with hm | hm
    · exact hother (mem_append_left _ hm)
    · rcases mem_cons.mp hm with rfl | hm
      · exact hready hv
      · exact hother (mem_append_right _ hm)
  once := by
    intro other hm hp
    rw [hl'] at hm
    rcases mem_append.mp hm with hm | hm
    · exact h.once other (hl ▸ mem_append_left _ hm) hp
    · rcases mem_cons.mp hm with rfl | hm
      · exact honce hp
      · exact h.once other (hl ▸ mem_append_right _ (mem_cons_of_mem _ hm)) hp

theorem Staging.unpublished
    (hl' : root'.runs = before ++ run' :: after) (hk : run'.createdAtMs = run.createdAtMs)
    (hp : run'.published = run.published) (hb : root'.backups = root.backups) : Publishes sha256 assetRows root' where
  verified := by
    rw [hb]
    exact h.verified
  renamed := by
    rw [hb, hl', publishers_parts, hp, hk, ← publishers_parts, ← hl]
    exact h.renamed

theorem Staging.passes
    (hk : run'.createdAtMs = run.createdAtMs) (hp : run'.published = run.published)
    (ho : run'.stage.owns = true → run.stage.owns = true)
    (hv : run'.stage.verified = true → run.stage.verified = true)
    (he : run.stage.past = true → run'.stage.past = true) :
    Staging sha256 assetRows { root with runs := before ++ run' :: after } := by
  refine h.update hl rfl (h.unpublished hl rfl hk hp rfl) h.names
    (fun name hm => ⟨h.others_names hl name hm, rfl⟩) (fun howns => ?_) (fun hverified => ?_) fun hpub => ?_
  · rw [hk]
    refine ⟨h.held.2 (mem_owners (hl ▸ mem_append_right _ mem_cons_self) (ho howns)), fun hm => ?_⟩
    exact h.others_ne hl (ho howns) _ hm rfl
  · rw [hk]
    exact h.ready run (hl ▸ mem_append_right _ mem_cons_self) (hv hverified)
  · exact he (h.once run (hl ▸ mem_append_right _ mem_cons_self) (hp ▸ hpub))

end

theorem Staging.setStage (hi : root.runs[i]? = some run)
    (ho : stage.owns = true → run.stage.owns = true)
    (hv : stage.verified = true → run.stage.verified = true) (he : run.stage.past = true → stage.past = true) :
    Staging sha256 assetRows (root.setStage i run stage) := by
  obtain ⟨before, after, hl, -, hset⟩ := Lists.getElem?_parts hi
  unfold BackupRoot.setStage
  rw [hset]
  exact h.passes hl rfl rfl ho hv he

theorem Staging.unpublished_yet (hm : run ∈ root.runs)
    (hs : run.stage.past = false) : run.published = false := by
  cases hp : run.published with
  | false => rfl
  | true =>
    rw [h.once run hm hp] at hs
    cases hs

end

theorem owns_past (h : stage.owns = true) : stage.past = false := by
  cases stage <;> first | rfl | cases h

theorem Staging.staged (h : Staging sha256 assetRows root) (hi : root.runs[i]? = some run)
    (ho : run.stage.owns = true) {tree : BackupTree}
    (hv : ok = true → stage.verified = true → (verifyBlocking sha256 assetRows tree).isSome = true) :
    Staging sha256 assetRows (root.staged i run tree ok stage) := by
  obtain ⟨before, after, hl, -, hset⟩ := Lists.getElem?_parts hi
  have hin : run.createdAtMs ∈ root.partials.map (·.1) :=
    h.held.2 (mem_owners (hl ▸ mem_append_right _ mem_cons_self) ho)
  have hpub := h.unpublished_yet (hl ▸ mem_append_right _ mem_cons_self) (owns_past ho)
  unfold BackupRoot.staged BackupRoot.setStage
  show Staging sha256 assetRows { root.setPartial run.createdAtMs tree with runs := root.runs.set i _ }
  rw [hset]
  refine h.update hl rfl (h.unpublished hl rfl rfl rfl rfl) ?_ (fun name hm => ⟨?_, ?_⟩) (fun _ => ⟨?_, fun hm => ?_⟩)
    (fun hverified => ?_) fun hp => ?_
  · rw [show (BackupRoot.partials _).map _ = _ from setPartial_names]
    exact h.names
  · rw [show (BackupRoot.partials _).map _ = _ from setPartial_names]
    exact h.others_names hl name hm
  · exact partialTree_setPartial_other (h.others_ne hl ho name hm)
  · rw [show (BackupRoot.partials _).map _ = _ from setPartial_names]
    exact hin
  · exact h.others_ne hl ho _ hm rfl
  · show (verifyBlocking sha256 assetRows
      ((root.setPartial run.createdAtMs tree).partialTree run.createdAtMs)).isSome = true
    rw [partialTree_setPartial_self hin]
    cases ok with
    | false => cases hverified
    | true => exact hv rfl hverified
  · rw [show run.published = true from hp] at hpub
    cases hpub

theorem Staging.acquire (h : Staging sha256 assetRows root) (hi : root.runs[i]? = some run)
    (hs : run.stage = .createPartial) (hnew : run.createdAtMs ∉ root.partials.map (·.1)) :
    Staging sha256 assetRows (BackupRoot.setStage
      { root with partials := root.partials ++ [(run.createdAtMs, .empty)] } i run .snapshot) := by
  obtain ⟨before, after, hl, -, hset⟩ := Lists.getElem?_parts hi
  have hpub := h.unpublished_yet (hl ▸ mem_append_right _ mem_cons_self) (by rw [hs]; rfl)
  have hne : ∀ name ∈ others before after, run.createdAtMs ≠ name := by
    rintro name hm rfl
    exact hnew (h.others_names hl _ hm)
  unfold BackupRoot.setStage
  rw [hset]
  refine h.update hl rfl (h.unpublished hl rfl rfl rfl rfl) ?_ (fun name hm => ⟨?_, ?_⟩) (fun _ => ⟨?_, fun hm => ?_⟩)
    (fun hverified => by cases hverified) fun hp => ?_
  · rw [map_append, map_singleton, nodup_append]
    refine ⟨h.names, nodup_singleton _, fun name hm other ho => ?_⟩
    rw [mem_singleton.mp ho]
    rintro rfl
    exact hnew hm
  · rw [map_append]
    exact mem_append_left _ (h.others_names hl name hm)
  · exact partialTree_append (hne name hm)
  · rw [map_append]
    exact mem_append_right _ (mem_singleton_self _)
  · exact hne _ hm rfl
  · rw [show run.published = true from hp] at hpub
    cases hpub

theorem mem_removePartial {name createdAtMs : Nat} (hm : name ∈ root.partials.map (·.1)) (hne : createdAtMs ≠ name) :
    name ∈ (root.removePartial createdAtMs).partials.map (·.1) := by
  obtain ⟨entry, he, rfl⟩ := mem_map.mp hm
  refine mem_map_of_mem (mem_filter.mpr ⟨he, ?_⟩)
  exact bne_iff_ne.mpr (Ne.symm hne)

theorem Staging.release (h : Staging sha256 assetRows root) (hi : root.runs[i]? = some run)
    (ho : run.stage.owns = true) :
    Staging sha256 assetRows (BackupRoot.setStage (if ok then root.removePartial run.createdAtMs else root) i run
      .ended) := by
  cases ok with
  | false => exact h.setStage hi (fun hends => by cases hends) (fun hends => by cases hends) fun _ => rfl
  | true =>
    obtain ⟨before, after, hl, -, hset⟩ := Lists.getElem?_parts hi
    unfold BackupRoot.setStage
    rw [if_pos rfl]
    show Staging sha256 assetRows { root.removePartial run.createdAtMs with runs := root.runs.set i _ }
    rw [hset]
    refine h.update hl rfl (h.unpublished hl rfl rfl rfl rfl) ?_ (fun name hm => ⟨?_, ?_⟩)
      (fun hends => by cases hends) (fun hends => by cases hends) fun _ => rfl
    · exact h.names.sublist (List.filter_sublist.map _)
    · exact mem_removePartial (h.others_names hl name hm) (h.others_ne hl ho name hm)
    · exact partialTree_removePartial (h.others_ne hl ho name hm)

theorem Staging.rename (h : Staging sha256 assetRows root) (hi : root.runs[i]? = some run)
    (hs : run.stage = .rename) :
    Staging sha256 assetRows (BackupRoot.setStage { root.removePartial run.createdAtMs with
      backups := root.backups ++ [(run.createdAtMs, root.partialTree run.createdAtMs)] } i { run with published := true }
      .syncRoot) := by
  obtain ⟨before, after, hl, -, hset⟩ := Lists.getElem?_parts hi
  have hrun : run ∈ root.runs := hl ▸ mem_append_right _ mem_cons_self
  have ho : run.stage.owns = true := by rw [hs]; rfl
  have hv : run.stage.verified = true := by rw [hs]; rfl
  have hpub := h.unpublished_yet hrun (owns_past ho)
  unfold BackupRoot.setStage
  show Staging sha256 assetRows { root.removePartial run.createdAtMs with
    backups := root.backups ++ [(run.createdAtMs, root.partialTree run.createdAtMs)]
    runs := root.runs.set i _ }
  rw [hset]
  refine h.update hl rfl ⟨fun backup hm => ?_, ?_⟩ ?_ (fun name hm => ⟨?_, ?_⟩)
    (fun hends => by cases hends) (fun hends => by cases hends) fun _ => rfl
  · rcases mem_append.mp hm with hm | hm
    · exact h.verified backup hm
    · rw [mem_singleton.mp hm]
      exact h.ready run hrun hv
  · have hperm := h.renamed
    rw [hl, publishers_parts, hpub, if_neg Bool.false_ne_true, nil_append] at hperm
    rw [publishers_parts, if_pos rfl, map_append, map_singleton, singleton_append]
    exact (perm_append_singleton _ _).trans ((hperm.cons _).trans perm_middle.symm)
  · exact h.names.sublist (List.filter_sublist.map _)
  · exact mem_removePartial (h.others_names hl name hm) (h.others_ne hl ho name hm)
  · exact partialTree_removePartial (h.others_ne hl ho name hm)

/-! ## Whole runs -/

variable {io : BackupIo}

section

variable (h : Staging sha256 assetRows root)
include h

theorem Staging.work (i : Nat) :
    Staging sha256 assetRows (root.work sha256 assetRows i io) := by
  unfold BackupRoot.work
  cases hi : root.runs[i]? with
  | none => exact h
  | some run =>
    simp only
    have idle (ho : run.stage.owns = false) {stage : BackupStage} (hv : stage.owns = false)
        (he : run.stage.past = true → stage.past = true) : Staging sha256 assetRows (root.setStage i run stage) := by
      refine h.setStage hi (fun howns => ?_) (fun hverified => ?_) he
      · rw [hv] at howns
        cases howns
      · have howns := verified_owns hverified
        rw [hv] at howns
        cases howns
    split
    · rename_i hs
      cases io.ok <;> exact idle (by rw [hs]; rfl) rfl (by rw [hs]; exact fun hp => by cases hp)
    · rename_i hs
      split
      · rename_i hok
        rw [Bool.and_eq_true, Bool.not_eq_true', any_eq_false] at hok
        refine h.acquire hi hs fun hm => ?_
        obtain ⟨entry, he, hname⟩ := mem_map.mp hm
        exact hok.2 entry he (beq_iff_eq.mpr hname)
      · exact idle (by rw [hs]; rfl) rfl fun _ => rfl
    · rename_i hs
      exact h.staged hi (by rw [hs]; rfl) fun _ hv => by cases hv
    · rename_i hs
      split
      · exact h.staged hi (by rw [hs]; rfl) fun _ hv => by cases hv
      · exact h.staged hi (by rw [hs]; rfl) fun hok => by cases hok
    · rename_i hs
      exact h.staged hi (by rw [hs]; rfl) fun _ hv => by cases hv
    · rename_i hs
      exact h.staged hi (by rw [hs]; rfl) fun _ hv => by cases hv
    · rename_i hs
      split
      · exact h.staged hi (by rw [hs]; rfl) fun _ hv => by cases hv
      · exact h.staged hi (by rw [hs]; rfl) fun hok => by cases hok
    · rename_i hs
      split
      · exact h.staged hi (by rw [hs]; rfl) fun _ hv => by cases hv
      · exact h.staged hi (by rw [hs]; rfl) fun hok => by cases hok
    · rename_i hs
      exact h.staged hi (by rw [hs]; rfl) fun hok _ => (Bool.and_eq_true_iff.mp hok).2
    · rename_i hs
      refine h.staged hi (by rw [hs]; rfl) fun _ _ => ?_
      exact h.ready run (mem_of_getElem? hi) (by rw [hs]; rfl)
    · exact h
    · rename_i hs
      split
      · exact h.rename hi hs
      · exact h.setStage hi (fun _ => by rw [hs]; rfl) (fun hv => by cases hv) (by rw [hs]; exact fun hp => by cases hp)
    · rename_i hs
      exact idle (by rw [hs]; rfl) rfl fun _ => rfl
    · rename_i hs
      exact h.release hi (by rw [hs]; rfl)
    · exact h

theorem Staging.publish (i : Nat) : Staging sha256 assetRows (root.publish i) := by
  unfold BackupRoot.publish
  cases hi : root.runs[i]? with
  | none => exact h
  | some run =>
    simp only
    split
    · rename_i hs
      exact h.setStage hi (fun _ => by rw [hs.1]; rfl) (fun _ => by rw [hs.1]; rfl)
        (by rw [hs.1]; exact fun hp => by cases hp)
    · exact h

theorem Staging.abandon (i : Nat) : Staging sha256 assetRows (root.abandon i) := by
  unfold BackupRoot.abandon
  cases hi : root.runs[i]? with
  | none => exact h
  | some run =>
    obtain ⟨before, after, hl, -, hset⟩ := Lists.getElem?_parts hi
    unfold BackupRoot.setStage
    simp only
    rw [hset]
    split
    · rename_i hs
      exact h.passes hl rfl rfl (fun _ => by rw [hs]; rfl) (fun hv => by cases hv)
        (by rw [hs]; exact fun hp => by cases hp)
    · exact h.passes hl rfl rfl (fun ho => ho) (fun hv => hv) fun hp => hp

theorem Staging.abort (i : Nat) : Staging sha256 assetRows (root.abort i) := by
  unfold BackupRoot.abort
  cases hi : root.runs[i]? with
  | none => exact h
  | some run =>
    simp only
    split
    · rename_i hs
      exact h.setStage hi (fun _ => by rw [hs]; rfl) (fun hv => by cases hv) (by rw [hs]; exact fun hp => by cases hp)
    · exact h

theorem Staging.create {run : BackupRun} (hs : run.stage = .createRoot)
    (hp : run.published = false) : Staging sha256 assetRows { root with runs := root.runs ++ [run] } := by
  have howners : owners (root.runs ++ [run]) = owners root.runs := by
    unfold owners
    rw [filter_append, filter_cons_of_neg (by rw [hs]; exact Bool.false_ne_true), filter_nil,
      append_nil]
  have hpublishers : publishers (root.runs ++ [run]) = publishers root.runs := by
    unfold publishers
    rw [filter_append, filter_cons_of_neg (by rw [hp]; exact Bool.false_ne_true), filter_nil,
      append_nil]
  refine ⟨⟨h.verified, ?_⟩, h.names, ?_, fun other hm hv => ?_, fun other hm hpub => ?_⟩
  · rw [hpublishers]
    exact h.renamed
  · rw [howners]
    exact h.held
  · rcases mem_append.mp hm with hm | hm
    · exact h.ready other hm hv
    · rw [mem_singleton.mp hm, hs] at hv
      cases hv
  · rcases mem_append.mp hm with hm | hm
    · exact h.once other hm hpub
    · rw [mem_singleton.mp hm, hp] at hpub
      cases hpub

theorem Staging.step (event : BackupEvent) :
    Staging sha256 assetRows (root.step sha256 assetRows event) := by
  cases event with
  | create => exact h.create rfl rfl
  | work i => exact h.work i
  | publish i => exact h.publish i
  | abandon i => exact h.abandon i
  | abort i => exact h.abort i

end

theorem staging_init : Staging sha256 assetRows BackupRoot.init where
  verified _ hm := by cases hm
  renamed := List.Perm.nil
  names := nodup_nil
  held := ⟨nodup_nil, List.Subset.refl _⟩
  ready _ hm := by cases hm
  once _ hm := by cases hm

theorem staging_after (events : List BackupEvent) :
    Staging sha256 assetRows (BackupRoot.after sha256 assetRows events) :=
  Transition.run_inv (C := fun _ _ => True) (I := Staging sha256 assetRows) (fun _ event h _ => h.step event)
    staging_init (Transition.along_of fun _ _ => trivial)

end

/-! ## Restoration -/

section
variable (sha256 : Bytes → Bytes) (assetRows : Bytes → Option (List BackupAsset)) (io : RestoreIo)

def opens (backup : BackupTree) (destination : Destination) : Option BackupManifest :=
  if destination.database.isSome || destination.assetRoot.isSome then none
  else
    (verifyBlocking sha256 assetRows backup).filter fun manifest =>
      !(io.fails .verify || io.fails .createParent) && !copyFails sha256 io manifest

/-- The sync of the database's directory does not fail after the rename, and the removal of an asset root that was
made does not fail. -/
def Cleans (backup : BackupTree) (destination : Destination) : Prop :=
  ∀ manifest, opens sha256 assetRows io backup destination = some manifest →
    if io.fails .openRestored then io.made = true → io.fails .removeAssets = false
    else if !(restoreAssets sha256 io (backup.assets.getD []) manifest.assets 0 []).1 || io.fails .rename then
      io.fails .removeAssets = false
    else io.fails .syncParent = false

/-- The destination holds the backup's database, and every asset it names. -/
structure Restored (backup : BackupTree) (destination : Destination) : Prop where
  database : destination.database = backup.database
  assets : ∃ database rows files, backup.database = some database ∧ assetRows database = some rows ∧
    destination.assetRoot = some files ∧ ∀ row ∈ rows, ∃ content, files.file row.sha256 = some content ∧
      sha256 content = row.sha256 ∧ content.length = row.bytes

/-- A reported error leaves both paths as they were. -/
def FailsClosed (backup : BackupTree) (destination : Destination) : Prop :=
  (restoreBlocking sha256 assetRows io backup destination).1 = false →
    (restoreBlocking sha256 assetRows io backup destination).2.database = destination.database ∧
    (restoreBlocking sha256 assetRows io backup destination).2.assetRoot = destination.assetRoot

end

section
variable {sha256 : Bytes → Bytes} {assetRows : Bytes → Option (List BackupAsset)} {io : RestoreIo}

variable {content : Bytes}

theorem verifyPath_spec {row : BackupAsset} (h : verifyPath sha256 row content = true) :
    sha256 content = row.sha256 ∧ content.length = row.bytes := by
  unfold verifyPath at h
  rw [Bool.and_eq_true, beq_iff_eq, beq_iff_eq] at h
  exact ⟨h.2, h.1⟩

variable {files : AssetFiles}

theorem file_append_self {hash : Bytes} (h : files.file hash = none) :
    AssetFiles.file (files ++ [(hash, content)]) hash = some content := by
  unfold AssetFiles.file at h ⊢
  rw [find?_append, Option.map_eq_none_iff.mp h]
  simp

theorem file_append {more : AssetFiles} {hash : Bytes} (h : files.file hash = some content) :
    AssetFiles.file (files ++ more) hash = some content := by
  unfold AssetFiles.file at h ⊢
  rw [find?_append]
  obtain ⟨entry, he, hc⟩ := Option.map_eq_some_iff.mp h
  rw [he]
  exact congrArg some hc

theorem copyVerified_spec {source : Option Bytes} {row : BackupAsset} {copied : AssetFiles}
    (h : copyVerified sha256 source row files = some copied) :
    (∃ content, copied.file row.sha256 = some content ∧ sha256 content = row.sha256 ∧ content.length = row.bytes) ∧
      ∀ hash content, files.file hash = some content → copied.file hash = some content := by
  unfold copyVerified at h
  split at h
  · rename_i content hc
    split at h
    · rename_i hv
      cases h
      exact ⟨⟨content, hc, verifyPath_spec hv⟩, fun _ _ hf => hf⟩
    · cases h
  · rename_i hnone
    split at h
    · rename_i content
      split at h
      · rename_i hv
        cases h
        exact ⟨⟨content, file_append_self hnone, verifyPath_spec hv⟩, fun _ _ hf => file_append hf⟩
      · cases h
    · cases h

theorem restoreAssets_spec {source : AssetFiles} {rows : List BackupAsset} {restored : AssetFiles}
    (h : restoreAssets sha256 io source rows i files = (true, restored)) :
    (∀ row ∈ rows, ∃ content, restored.file row.sha256 = some content ∧ sha256 content = row.sha256 ∧
      content.length = row.bytes) ∧
      ∀ hash content, files.file hash = some content → restored.file hash = some content := by
  induction rows generalizing i files with
  | nil =>
    cases h
    exact ⟨fun _ hm => (by cases hm), fun _ _ hf => hf⟩
  | cons row rows ih =>
    unfold restoreAssets at h
    cases hc : copyVerified sha256 (source.file row.sha256) row files with
    | none =>
      rw [hc] at h
      cases h
    | some copied =>
      rw [hc] at h
      simp only at h
      split at h
      · cases h
      obtain ⟨⟨content, hcontent, hcheck⟩, hkept⟩ := copyVerified_spec hc
      obtain ⟨hrows, hkept'⟩ := ih h
      refine ⟨fun other hm => ?_, fun hash content hf => hkept' hash content (hkept hash content hf)⟩
      rcases mem_cons.mp hm with rfl | hm
      · exact ⟨content, hkept' _ _ hcontent, hcheck⟩
      · exact hrows other hm

variable {backup : BackupTree} {manifest : BackupManifest}

theorem verifyBlocking_spec
    (h : verifyBlocking sha256 assetRows backup = some manifest) :
    ∃ database, backup.database = some database ∧ sha256 database = manifest.databaseSha256 ∧
      assetRows database = some manifest.assets := by
  unfold verifyBlocking at h
  split at h
  · rename_i found database hm hd
    split at h
    · cases h
    rename_i hcheck
    split at h
    · cases h
    rename_i rows hr
    split at h
    · cases h
    rename_i heq
    split at h
    · cases h
      rw [not_or, Decidable.not_not, Decidable.not_not] at hcheck
      exact ⟨database, hd, hcheck.2, hr.trans (congrArg some (Decidable.not_not.mp heq))⟩
    · cases h
  · cases h

variable {destination : Destination}

theorem restoreBlocking_stops
    (h : opens sha256 assetRows io backup destination = none) :
    (restoreBlocking sha256 assetRows io backup destination).1 = false ∧
      (restoreBlocking sha256 assetRows io backup destination).2.database = destination.database ∧
      (restoreBlocking sha256 assetRows io backup destination).2.assetRoot = destination.assetRoot := by
  unfold opens at h
  unfold restoreBlocking
  split at h
  · rename_i hexists
    rw [if_pos hexists]
    exact ⟨rfl, rfl, rfl⟩
  rename_i habsent
  rw [if_neg habsent]
  rw [Bool.or_eq_true, not_or, Option.not_isSome_iff_eq_none, Option.not_isSome_iff_eq_none] at habsent
  cases hv : verifyBlocking sha256 assetRows backup with
  | none => exact ⟨rfl, rfl, rfl⟩
  | some manifest =>
    rw [hv, Option.filter_some] at h
    simp only
    cases hearly : io.fails .verify || io.fails .createParent with
    | true => exact ⟨rfl, rfl, rfl⟩
    | false =>
      cases hcopy : copyFails sha256 io manifest with
      | false =>
        rw [hearly, hcopy] at h
        cases h
      | true =>
        unfold restoreFiles
        rw [if_neg Bool.false_ne_true, hcopy, if_pos rfl]
        refine ⟨rfl, rfl, ?_⟩
        unfold cleanUp
        simp only [habsent.2, ite_self]

structure Opened (sha256 : Bytes → Bytes) (assetRows : Bytes → Option (List BackupAsset)) (io : RestoreIo)
    (backup : BackupTree) (destination : Destination) (manifest : BackupManifest) : Prop where
  absent : destination.database = none ∧ destination.assetRoot = none
  verified : verifyBlocking sha256 assetRows backup = some manifest
  copied : copyFails sha256 io manifest = false
  restores : restoreBlocking sha256 assetRows io backup destination =
    cleanUp io (restoreFiles sha256 io backup manifest destination)

theorem opens_spec
    (h : opens sha256 assetRows io backup destination = some manifest) :
    Opened sha256 assetRows io backup destination manifest := by
  unfold opens at h
  split at h
  · cases h
  rename_i habsent
  obtain ⟨hv, hok⟩ := Option.filter_eq_some_iff.mp h
  rw [Bool.and_eq_true, Bool.not_eq_true', Bool.not_eq_true'] at hok
  refine ⟨?_, hv, hok.2, ?_⟩
  · rw [Bool.or_eq_true, not_or, Option.not_isSome_iff_eq_none, Option.not_isSome_iff_eq_none] at habsent
    exact habsent
  · unfold restoreBlocking
    rw [if_neg habsent, hv]
    simp only [hok.1, Bool.false_eq_true, if_false]

theorem copyFails_written (h : copyFails sha256 io manifest = false) :
    sha256 io.written = manifest.databaseSha256 := by
  unfold copyFails at h
  rw [Bool.or_eq_false_iff, Bool.or_eq_false_iff, bne_eq_false_iff_eq] at h
  exact h.1.2

theorem restore_restores (hsha : Function.Injective sha256)
    (h : (restoreBlocking sha256 assetRows io backup destination).1 = true) :
    Restored sha256 assetRows backup (restoreBlocking sha256 assetRows io backup destination).2 := by
  cases ho : opens sha256 assetRows io backup destination with
  | none =>
    rw [(restoreBlocking_stops ho).1] at h
    cases h
  | some manifest =>
    have hopened := opens_spec ho
    obtain ⟨database, hd, hhash, hrows⟩ := verifyBlocking_spec hopened.verified
    have hwritten : io.written = database := hsha ((copyFails_written hopened.copied).trans hhash.symm)
    rw [hopened.restores] at h ⊢
    unfold restoreFiles at h ⊢
    rw [hopened.copied, if_neg Bool.false_ne_true] at h ⊢
    cases hr : io.fails .openRestored with
    | true =>
      rw [hr, if_pos rfl] at h
      cases h
    | false =>
      rw [hr, if_neg Bool.false_ne_true] at h
      cases ha : restoreAssets sha256 io (backup.assets.getD []) manifest.assets 0 [] with
      | mk ok files =>
        rw [ha] at h
        simp only at h ⊢
        cases hlate : !ok || io.fails .rename with
        | true =>
          rw [hlate, if_pos rfl] at h
          cases h
        | false =>
          rw [hlate, if_neg Bool.false_ne_true] at h
          cases hs : io.fails .syncParent with
          | true =>
            rw [hs] at h
            cases h
          | false =>
            rw [Bool.or_eq_false_iff, Bool.not_eq_false'] at hlate
            rw [hlate.1] at ha
            refine ⟨?_, database, manifest.assets, files, hd, hrows, rfl, (restoreAssets_spec ha).1⟩
            show some io.written = backup.database
            rw [hd, hwritten]

theorem cleanUp_database {restored : Destination} :
    (cleanUp io (ok, restored)).2.database = restored.database := by
  cases ok <;> rfl

theorem cleanUp_assetRoot {restored : Destination} :
    (cleanUp io (false, restored)).2.assetRoot = none ↔
      (restored.assetRoot.isSome = true → io.fails .removeAssets = false) := by
  unfold cleanUp
  simp only
  cases io.fails .removeAssets with
  | false => simp
  | true => cases restored.assetRoot <;> simp

theorem failsClosed_iff :
    FailsClosed sha256 assetRows io backup destination ↔ Cleans sha256 assetRows io backup destination := by
  unfold FailsClosed Cleans
  cases ho : opens sha256 assetRows io backup destination with
  | none => exact ⟨fun _ _ hm => (by cases hm), fun _ _ => (restoreBlocking_stops ho).2⟩
  | some manifest =>
    have hopened := opens_spec ho
    rw [hopened.restores, hopened.absent.1, hopened.absent.2]
    simp only [Option.some.injEq, forall_eq']
    unfold restoreFiles
    rw [hopened.copied, if_neg Bool.false_ne_true]
    cases hr : io.fails .openRestored with
    | true =>
      rw [if_pos rfl, if_pos rfl, cleanUp_database, cleanUp_assetRoot, hopened.absent.1]
      cases io.made <;> simp [cleanUp]
    | false =>
      rw [if_neg Bool.false_ne_true, if_neg Bool.false_ne_true]
      cases ha : restoreAssets sha256 io (backup.assets.getD []) manifest.assets 0 [] with
      | mk ok files =>
        simp only
        cases hlate : !ok || io.fails .rename with
        | true =>
          rw [if_pos rfl, if_pos rfl, cleanUp_database, cleanUp_assetRoot, hopened.absent.1]
          simp [cleanUp]
        | false =>
          rw [if_neg Bool.false_ne_true, if_neg Bool.false_ne_true, cleanUp_database]
          cases io.fails .syncParent <;> simp [cleanUp]

end

/-- Whatever operations the runs performed, every backup that a run published verifies; a restoration that
succeeds holds the backup, and one that fails leaves its paths alone exactly when it `Cleans`. -/
theorem backups_verified_and_restored (sha256 : Bytes → Bytes) (assetRows : Bytes → Option (List BackupAsset))
    (hsha : Function.Injective sha256) (events : List BackupEvent) (io : RestoreIo) (backup : BackupTree)
    (destination : Destination) :
    Publishes sha256 assetRows (BackupRoot.after sha256 assetRows events) ∧
      ((restoreBlocking sha256 assetRows io backup destination).1 = true →
        Restored sha256 assetRows backup (restoreBlocking sha256 assetRows io backup destination).2) ∧
      (FailsClosed sha256 assetRows io backup destination ↔ Cleans sha256 assetRows io backup destination) :=
  ⟨(staging_after events).toPublishes, restore_restores hsha, failsClosed_iff⟩

/-! ## A restoration whose last sync fails -/

namespace Restoration

def rows : List BackupAsset := [⟨[7], 1⟩]

def backup : BackupTree :=
  ⟨some [1], some [([7], [7])], some ⟨backupSchema, 0, [1], ⟨"", "", ""⟩, rows⟩⟩

def syncFails : RestoreIo := ⟨fun op => op == .syncParent, [1], true, true⟩

/-- The database is given by a bare file name: its parent is the empty path, which cannot be opened. -/
theorem restore_leaves_database :
    ¬FailsClosed (fun content => content) (fun _ => some rows) syncFails backup ⟨none, none, none⟩ := by
  intro h
  exact absurd (h (by decide)).1 (by decide)

def wholeRun : List BackupEvent :=
  [.create 0 ⟨"", "", ""⟩, .work 0 ⟨true, none⟩, .work 0 ⟨true, none⟩, .work 0 ⟨true, some [1]⟩, .work 0 ⟨true, none⟩,
    .work 0 ⟨true, none⟩, .work 0 ⟨true, some [7]⟩, .work 0 ⟨true, none⟩, .work 0 ⟨true, none⟩,
    .work 0 ⟨true, none⟩, .work 0 ⟨true, none⟩, .publish 0, .work 0 ⟨true, none⟩]

theorem backup_published_and_restored :
    (BackupRoot.after (fun content => content) (fun _ => some rows) wholeRun).backups = [(0, backup)] ∧
      Publishes (fun content => content) (fun _ => some rows)
        (BackupRoot.after (fun content => content) (fun _ => some rows) wholeRun) ∧
      Restored (fun content => content) (fun _ => some rows) backup
        (restoreBlocking (fun content => content) (fun _ => some rows) ⟨fun _ => false, [1], true, true⟩ backup
          ⟨none, none, none⟩).2 := by
  have h := backups_verified_and_restored (fun content => content) (fun _ => some rows) (fun _ _ h => h) wholeRun
    ⟨fun _ => false, [1], true, true⟩ backup ⟨none, none, none⟩
  exact ⟨by decide, h.1, h.2.1 (by decide)⟩

end Restoration

end Marks.Backup
