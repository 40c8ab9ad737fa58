import Marks.PresenceStoreSound

/-! # Presence stores agree

A receiver that takes the frames of a lifecycle, some of them, in any order and more than once, comes to hold what
the one of the greatest sequence carries. -/

namespace Marks

open List

namespace PresenceStore

section
variable {J : StoreJson} {s : PresenceStore J.Value} {now : Rat} {key : JsString} {keys : Set JsString}

/-! ## A receiver's steps -/

def entryAfter {V : Type} (instanceId : Bytes) (now : Rat) (existing : Option (StoredEntry V))
    (incoming : DecodedEntry V) : Option (StoredEntry V) :=
  match incomingEntry instanceId now existing incoming with
  | some entry => some entry
  | none => existing

theorem get_applyEntry {V : Type} (instanceId : Bytes) (now : Rat) (entries : List (JsString × StoredEntry V))
    (incoming : DecodedEntry V) (key : JsString) :
    OrderedMap.get (applyEntry instanceId now entries incoming) key =
      if JsString.ofCodePoints incoming.key = key then
        entryAfter instanceId now (OrderedMap.get entries key) incoming
      else OrderedMap.get entries key := by
  by_cases hkey : JsString.ofCodePoints incoming.key = key
  · rw [if_pos hkey, ← hkey]
    cases hincoming : incomingEntry instanceId now
        (OrderedMap.get entries (JsString.ofCodePoints incoming.key)) incoming with
    | none => simp only [applyEntry, entryAfter, hincoming]
    | some entry => simp only [applyEntry, entryAfter, hincoming, OrderedMap.get_set, if_true]
  · rw [if_neg hkey]
    cases hincoming : incomingEntry instanceId now
        (OrderedMap.get entries (JsString.ofCodePoints incoming.key)) incoming with
    | none => simp only [applyEntry, hincoming]
    | some entry => simp only [applyEntry, hincoming, OrderedMap.get_set, if_neg (Ne.symm hkey)]

theorem get_applyEntries {V : Type} (instanceId : Bytes) (now : Rat) (incoming : List (DecodedEntry V))
    (entries : List (JsString × StoredEntry V)) (key : JsString) :
    OrderedMap.get (incoming.foldl (applyEntry instanceId now) entries) key =
      (incoming.filter fun entry => JsString.ofCodePoints entry.key == key).foldl (entryAfter instanceId now)
        (OrderedMap.get entries key) := by
  induction incoming generalizing entries with
  | nil => rfl
  | cons first incoming ih =>
    rw [foldl_cons, ih, get_applyEntry, filter_cons]
    by_cases hkey : JsString.ofCodePoints first.key = key
    · rw [if_pos hkey, if_pos (beq_iff_eq.mpr hkey), foldl_cons]
    · rw [if_neg hkey, if_neg fun h => hkey (beq_iff_eq.mp h)]

theorem get_applyEntries_other {V : Type} {frame : DecodedFrame V} {entries : List (JsString × StoredEntry V)}
    (hkey : key ∉ frame.keys) (instanceId : Bytes) :
    OrderedMap.get (frame.entries.foldl (applyEntry instanceId now) entries) key = OrderedMap.get entries key := by
  rw [get_applyEntries, filter_eq_nil_iff.mpr]
  · rfl
  · intro entry hentry heq
    exact hkey (mem_map.mpr ⟨entry, hentry, beq_iff_eq.mp heq⟩)

theorem get_applyEntries_listed {V : Type} {frame : DecodedFrame V} {entries : List (JsString × StoredEntry V)}
    (hn : frame.keys.Nodup) {incoming : DecodedEntry V} (hincoming : incoming ∈ frame.entries) (instanceId : Bytes) :
    OrderedMap.get (frame.entries.foldl (applyEntry instanceId now) entries) (JsString.ofCodePoints incoming.key) =
      entryAfter instanceId now (OrderedMap.get entries (JsString.ofCodePoints incoming.key)) incoming := by
  rw [get_applyEntries, Lists.filter_key hn hincoming]
  rfl

/-! ## Frames of one lifecycle at a receiver -/

structure Family {V : Type} (keys : Set JsString) (instanceId : Bytes) (frames : Set (DecodedFrame V)) : Prop where
  instanceId : ∀ frame ∈ frames, frame.instanceId = instanceId
  positive : ∀ frame ∈ frames, 0 < frame.sequence
  keys : ∀ frame ∈ frames, ∀ key ∈ frame.keys, key ∈ keys
  nodup : ∀ frame ∈ frames, frame.keys.Nodup
  ages : ∀ frame ∈ frames, ∀ entry ∈ frame.entries, entry.age ≤ maxBootstrapAgeMs
  compare : ∀ f ∈ frames, ∀ g ∈ frames, f.sequence ≤ g.sequence →
    (∀ key ∈ f.keys, key ∈ g.keys) ∧ (f.sequence = g.sequence → f = g)

theorem Sound.family (h : Sound J keys s) {frames : Set (DecodedFrame J.Value)}
    (hframes : ∀ frame ∈ frames, ∃ bytes ∈ s.published, Decodes J bytes frame) :
    Family keys s.instanceId.1 frames := by
  have hsent : ∀ frame ∈ frames, Sent s frame := by
    intro frame hframe
    obtain ⟨bytes, hbytes, hdecodes⟩ := hframes frame hframe
    obtain ⟨other, hother, hsent⟩ := h.lifecycle.sent bytes hbytes
    exact Option.some.inj (hother.symm.trans hdecodes) ▸ hsent
  refine ⟨fun f hf => (hsent f hf).instanceId, fun f hf => (hsent f hf).sequence.1, fun f hf key hkey => ?_,
    fun f hf => (hsent f hf).nodup, fun f hf => (hsent f hf).ages, fun f hf g hg hle => ?_⟩
  · obtain ⟨_, _, _, hmem, _⟩ := h.owner.local_entry ((hsent f hf).keys key hkey)
    exact hmem
  · obtain ⟨bytes, hbytes, hdecodes⟩ := hframes f hf
    obtain ⟨other, hother, hdecodes'⟩ := hframes g hg
    exact h.lifecycle.compare hbytes hother hdecodes hdecodes' hle

theorem carried_listed {V : Type} {frame : DecodedFrame V} (hn : frame.keys.Nodup) {incoming : DecodedEntry V}
    (h : incoming ∈ frame.entries) :
    frame.carried (JsString.ofCodePoints incoming.key) = if incoming.deleted then none else incoming.value := by
  have hfind : frame.entries.find? (fun entry =>
      JsString.ofCodePoints entry.key == JsString.ofCodePoints incoming.key) = some incoming := by
    rw [← head?_filter, Lists.filter_key hn h]
    rfl
  unfold DecodedFrame.carried
  rw [hfind]

theorem carried_other {V : Type} {frame : DecodedFrame V} (h : key ∉ frame.keys) : frame.carried key = none := by
  have hfind : frame.entries.find? (fun entry => JsString.ofCodePoints entry.key == key) = none := by
    rw [find?_eq_none]
    intro entry hentry heq
    exact h (mem_map.mpr ⟨entry, hentry, beq_iff_eq.mp heq⟩)
  unfold DecodedFrame.carried
  rw [hfind]

def Mine {V : Type} (s : PresenceStore V) (keys : Set JsString) (instanceId : Bytes) : Prop :=
  ∀ key ∈ keys, ∀ entry, s.entry key = some entry →
    entry.deleted = true ∨ entry.instanceId = instanceId ∧ entry.isLocal = false

structure Unheard {V : Type} (s : PresenceStore V) (keys : Set JsString) (instanceId : Bytes) : Prop where
  running : s.destroyed = false
  greatest : s.greatest instanceId = 0
  vacant : ∀ key ∈ keys, ∀ entry, s.entry key = some entry → entry.deleted = true

theorem Unheard.held {V : Type} {s : PresenceStore V} {instanceId : Bytes} (h : s.Unheard keys instanceId)
    (hkey : key ∈ keys) : s.held key = none := by
  unfold PresenceStore.held
  cases hentry : s.entry key with
  | none => rfl
  | some entry => simp only [h.vacant key hkey entry hentry, if_true]

structure Follows {V : Type} (keys : Set JsString) (instanceId : Bytes) (frames : Set (DecodedFrame V))
    (s : PresenceStore V) : Prop where
  running : s.destroyed = false
  nodup : (s.entries.map (·.1)).Nodup
  mine : s.Mine keys instanceId
  shows : s.Unheard keys instanceId ∨
    ∃ frame ∈ frames, s.greatest instanceId = frame.sequence ∧ ∀ key ∈ keys, s.held key = frame.carried key

section
variable {V : Type} {r r' : PresenceStore V} {instanceId : Bytes} {frames : Set (DecodedFrame V)}
  {frame : DecodedFrame V}

theorem applyFrame_entry (hfresh : ¬ frame.sequence ≤ r.greatest frame.instanceId) (key : JsString) (now : Rat) :
    (r.applyFrame frame now).entry key =
      OrderedMap.get (frame.entries.foldl (applyEntry frame.instanceId now) r.entries) key := by
  unfold applyFrame
  rw [if_neg hfresh]
  rfl

theorem applyFrame_greatest (hfresh : ¬ frame.sequence ≤ r.greatest frame.instanceId) (other : Bytes) :
    (r.applyFrame frame now).greatest other = if other = frame.instanceId then frame.sequence else r.greatest other := by
  unfold applyFrame
  rw [if_neg hfresh]
  unfold greatest
  rw [OrderedMap.get_set]
  split <;> rfl

theorem applyEntries_nodup (incoming : List (DecodedEntry V)) {entries : List (JsString × StoredEntry V)}
    (h : (entries.map (·.1)).Nodup) :
    ((incoming.foldl (applyEntry instanceId now) entries).map (·.1)).Nodup := by
  induction incoming generalizing entries with
  | nil => exact h
  | cons first incoming ih =>
    refine ih ?_
    cases hincoming : incomingEntry instanceId now
        (OrderedMap.get entries (JsString.ofCodePoints first.key)) first with
    | none => simpa only [applyEntry, hincoming] using h
    | some entry => simpa only [applyEntry, hincoming] using OrderedMap.set_nodup h

theorem applyFrame_nodup (h : (r.entries.map (·.1)).Nodup) : ((r.applyFrame frame now).entries.map (·.1)).Nodup := by
  unfold applyFrame
  split
  · exact h
  · exact applyEntries_nodup _ h

theorem applyFrame_running (h : r.destroyed = false) : (r.applyFrame frame now).destroyed = false := by
  unfold applyFrame
  split <;> exact h

theorem entryAfter_mine {existing : Option (StoredEntry V)} {incoming : DecodedEntry V}
    (hmine : ∀ entry, existing = some entry →
      entry.deleted = true ∨ entry.instanceId = instanceId ∧ entry.isLocal = false)
    (hage : incoming.age ≤ maxBootstrapAgeMs) :
    ∃ entry, entryAfter instanceId now existing incoming = some entry ∧ entry.deleted = incoming.deleted ∧
      (entry.instanceId = instanceId ∧ entry.isLocal = false) ∧ (incoming.deleted = false → entry.value = incoming.value) := by
  have hgives : existing.any (fun entry => !entry.deleted && entry.instanceId != instanceId) = false := by
    cases existing with
    | none => rfl
    | some entry =>
      rcases hmine entry rfl with hdeleted | ⟨hinstance, -⟩
      · simp [hdeleted]
      · simp [hinstance]
  unfold entryAfter incomingEntry
  rw [hgives]
  cases hdeleted : incoming.deleted with
  | true => exact ⟨_, rfl, rfl, ⟨rfl, rfl⟩, fun h => by cases h⟩
  | false => simp [Nat.not_lt.mpr hage]

theorem Follows.take (hf : Family keys instanceId frames) (h : Follows keys instanceId frames r)
    (hframe : frame ∈ frames) (now : Rat) : Follows keys instanceId frames (r.applyFrame frame now) := by
  have hinstance := hf.instanceId frame hframe
  by_cases hold : frame.sequence ≤ r.greatest frame.instanceId
  · unfold applyFrame
    rw [if_pos hold]
    exact h
  have hentry := fun key => applyFrame_entry hold key now
  -- what becomes of each key
  have hlisted : ∀ incoming ∈ frame.entries, ∃ entry,
      (r.applyFrame frame now).entry (JsString.ofCodePoints incoming.key) = some entry ∧
        entry.deleted = incoming.deleted ∧ (entry.instanceId = instanceId ∧ entry.isLocal = false) ∧
          (incoming.deleted = false → entry.value = incoming.value) := by
    intro incoming hincoming
    rw [hentry, get_applyEntries_listed (hf.nodup frame hframe) hincoming, hinstance]
    have hkey := hf.keys frame hframe _ (mem_map_of_mem hincoming)
    exact entryAfter_mine (h.mine _ hkey) (hf.ages frame hframe incoming hincoming)
  have hother : ∀ key, key ∉ frame.keys → (r.applyFrame frame now).entry key = r.entry key := by
    intro key hkey
    rw [hentry]
    exact get_applyEntries_other hkey _
  refine ⟨applyFrame_running h.running, applyFrame_nodup h.nodup, fun key hkey entry he => ?_,
    Or.inr ⟨frame, hframe, ?_, fun key hkey => ?_⟩⟩
  · by_cases hin : key ∈ frame.keys
    · obtain ⟨incoming, hincoming, rfl⟩ := mem_map.mp hin
      obtain ⟨entry', he', -, hmine, -⟩ := hlisted incoming hincoming
      rw [← Option.some.inj (he'.symm.trans he)]
      exact Or.inr hmine
    · rw [hother key hin] at he
      exact h.mine key hkey entry he
  · rw [applyFrame_greatest hold, if_pos hinstance.symm]
  · by_cases hin : key ∈ frame.keys
    · obtain ⟨incoming, hincoming, rfl⟩ := mem_map.mp hin
      obtain ⟨entry, he, hdeleted, -, hvalue⟩ := hlisted incoming hincoming
      rw [carried_listed (hf.nodup frame hframe) hincoming]
      unfold held
      rw [he]
      cases hd : incoming.deleted with
      | true => simp [hdeleted, hd]
      | false => simp [hdeleted, hd, hvalue hd]
    · have hsame : (r.applyFrame frame now).held key = r.held key := by
        unfold held
        rw [hother key hin]
      rw [hsame, carried_other hin]
      rcases h.shows with hunheard | ⟨earlier, hearlier, hgreatest, hshows⟩
      · exact hunheard.held hkey
      have hle : earlier.sequence ≤ frame.sequence := by
        rw [hinstance, hgreatest] at hold
        exact Nat.le_of_lt (Nat.not_le.mp hold)
      rw [hshows key hkey]
      exact carried_other fun hlisted => hin ((hf.compare earlier hearlier frame hframe hle).1 key hlisted)

/-- What changes none of the keys but a tombstone's marks, and takes no frame of the instance, changes nothing
here. -/
theorem Follows.keep (h : Follows keys instanceId frames r) (hrunning : r'.destroyed = false)
    (hnodup : (r'.entries.map (·.1)).Nodup)
    (hentries : ∀ key ∈ keys, r'.entry key = r.entry key ∨
      ∃ old new, r.entry key = some old ∧ r'.entry key = some new ∧ old.deleted = true ∧ new.deleted = true)
    (hgreatest : r'.greatest instanceId = r.greatest instanceId) : Follows keys instanceId frames r' := by
  refine ⟨hrunning, hnodup, fun key hkey entry he => ?_, ?_⟩
  · rcases hentries key hkey with heq | ⟨_, new, -, hnew, -, hdeleted⟩
    · rw [heq] at he
      exact h.mine key hkey entry he
    · rw [← Option.some.inj (hnew.symm.trans he)]
      exact Or.inl hdeleted
  · rcases h.shows with hunheard | ⟨frame, hframe, heq, hshows⟩
    · refine Or.inl ⟨hrunning, hgreatest.trans hunheard.greatest, fun key hkey entry he => ?_⟩
      rcases hentries key hkey with heq | ⟨_, new, -, hnew, -, hdeleted⟩
      · rw [heq] at he
        exact hunheard.vacant key hkey entry he
      · rw [← Option.some.inj (hnew.symm.trans he)]
        exact hdeleted
    · refine Or.inr ⟨frame, hframe, hgreatest.trans heq, fun key hkey => ?_⟩
      rw [← hshows key hkey]
      unfold held
      rcases hentries key hkey with heq | ⟨old, new, hold, hnew, hdeleted, hdeleted'⟩
      · rw [heq]
      · rw [hold, hnew]
        simp only [hdeleted, hdeleted', if_true]

end

/-! ## A receiver's run -/

section
variable {r : PresenceStore J.Value} {instanceId : Bytes} {frames : Set (DecodedFrame J.Value)}

theorem publication_entries (s : PresenceStore J.Value) (now : Rat) :
    (publication J s s.localKeys now).entries = s.entries ∧
      (publication J s s.localKeys now).greatestSequence = s.greatestSequence ∧
        (publication J s s.localKeys now).destroyed = s.destroyed ∧
          (publication J s s.localKeys now).instanceId = s.instanceId := by
  rcases publication_cases J s now with hsame | ⟨-, hspent | ⟨-, hsent⟩⟩
  · rw [hsame]
    exact ⟨rfl, rfl, rfl, rfl⟩
  · rw [hspent]
    exact ⟨rfl, rfl, rfl, rfl⟩
  · rw [hsent]
    exact ⟨rfl, rfl, rfl, rfl⟩

theorem emitLocal_entries (s : PresenceStore J.Value) (now : Rat) :
    (emitLocal J s now).entries = s.entries ∧ (emitLocal J s now).greatestSequence = s.greatestSequence ∧
      (emitLocal J s now).destroyed = s.destroyed ∧ (emitLocal J s now).instanceId = s.instanceId := by
  unfold emitLocal
  split
  · exact publication_entries s now
  · exact ⟨rfl, rfl, rfl, rfl⟩

section

variable (h : Follows keys instanceId frames r)
include h

theorem Follows.write (hkey : key ∉ keys) (entry : StoredEntry J.Value) :
    Follows keys instanceId frames (emitLocal J { r with entries := OrderedMap.set r.entries key entry } now) := by
  obtain ⟨hentries, hgreatest, hdestroyed, -⟩ :=
    emitLocal_entries { r with entries := OrderedMap.set r.entries key entry } now
  refine h.keep (hdestroyed.trans h.running) ?_ (fun other hother => ?_) ?_
  · rw [hentries]
    exact OrderedMap.set_nodup h.nodup
  · have hne : other ≠ key := fun heq => hkey (heq ▸ hother)
    left
    unfold PresenceStore.entry
    rw [hentries, OrderedMap.get_set, if_neg hne]
  · unfold greatest
    rw [hgreatest]

theorem set_follows (hkey : key ∉ keys) (value : J.Source) (now sent : Rat) :
    Follows keys instanceId frames (set J r key value now sent) := by
  unfold set
  split
  · exact h
  split
  · exact h
  split
  · exact h
  split
  · exact h
  · exact h.write hkey _

theorem delete_follows (hkey : key ∉ keys) (now sent : Rat) :
    Follows keys instanceId frames (delete J r key now sent) := by
  unfold delete
  split
  · exact h
  split
  · exact h
  split
  · exact h
  · exact h.write hkey _

theorem sweep_follows (hfresh : r.Fresh keys now) :
    Follows keys instanceId frames (r.sweep now) := by
  refine h.keep h.running ((List.filter_sublist.map _).nodup h.nodup) (fun key hkey => ?_) rfl
  have hfilter : (r.sweep now).entry key = (r.entry key).filter fun e => now - e.receivedAt ≤ r.ttlMs :=
    OrderedMap.get_filter h.nodup _
  left
  rw [hfilter]
  cases hentry : r.entry key with
  | none => rfl
  | some entry => rw [Option.filter_some, if_pos (decide_eq_true (hfresh key hkey entry hentry))]

theorem begin_follows (other : InstanceId) :
    Follows keys instanceId frames (r.beginConnectionLifecycle other) := by
  refine h.keep h.running ?_ (fun key hkey => ?_) rfl
  · rw [begin_keys]
    exact h.nodup
  rw [begin_entry]
  cases hentry : r.entry key with
  | none => exact Or.inl rfl
  | some entry =>
    rcases h.mine key hkey entry hentry with hdeleted | ⟨-, hforeign⟩
    · exact Or.inr ⟨entry, entry.renamed other, rfl, rfl, hdeleted, (entry.renamed_spec other).2.1.trans hdeleted⟩
    · refine Or.inl ?_
      simp [StoredEntry.renamed, hforeign]

end

theorem apply_follows (hf : Family keys instanceId frames) (h : Follows keys instanceId frames r) {bytes : Bytes}
    (hbytes : ∀ frame, Decodes J bytes frame →
      frame ∈ frames ∨ frame.instanceId ≠ instanceId ∧ ∀ key ∈ frame.keys, key ∉ keys) :
    Follows keys instanceId frames (apply J r bytes now) := by
  unfold apply
  split
  · exact h
  split
  · exact h
  next frame hframe =>
  rcases hbytes frame hframe with hown | ⟨hinstance, hkeys⟩
  · exact h.take hf hown now
  by_cases hold : frame.sequence ≤ r.greatest frame.instanceId
  · unfold applyFrame
    rw [if_pos hold]
    exact h
  refine h.keep (applyFrame_running h.running) (applyFrame_nodup h.nodup) (fun key hkey => Or.inl ?_) ?_
  · rw [applyFrame_entry hold]
    exact get_applyEntries_other (fun hlisted => hkeys key hlisted hkey) _
  · rw [applyFrame_greatest hold, if_neg (Ne.symm hinstance)]

def Delivered (J : StoreJson) (published : List Bytes) (fs : List (StoreEvent J.Source)) :
    Set (DecodedFrame J.Value) :=
  fun frame => ∃ bytes ∈ published, Decodes J bytes frame ∧ ∃ now, StoreEvent.apply bytes now ∈ fs

variable {e : StoreEvent J.Source}

theorem receives_follows {published : List Bytes} {fs : List (StoreEvent J.Source)}
    (hf : Family keys instanceId (Delivered J published fs))
    (h : Follows keys instanceId (Delivered J published fs) r) (he : e ∈ fs)
    (hreceives : Receives J keys instanceId published r e) :
    Follows keys instanceId (Delivered J published fs) (step J r e) := by
  cases e with
  | set key value now sent => exact set_follows h hreceives value now sent
  | delete key now sent => exact delete_follows h hreceives now sent
  | encodeAll now =>
    obtain ⟨hentries, hgreatest, hdestroyed, -⟩ := publication_entries r now
    refine h.keep (hdestroyed.trans h.running) ?_ (fun key _ => Or.inl ?_) ?_
    · show ((publication J r r.localKeys now).entries.map (·.1)).Nodup
      rw [hentries]
      exact h.nodup
    · exact congrArg (OrderedMap.get · key) hentries
    · show (publication J r r.localKeys now).greatest instanceId = r.greatest instanceId
      unfold greatest
      rw [hgreatest]
  | apply bytes now =>
    refine apply_follows hf h fun frame hframe => ?_
    rcases hreceives with hpublished | hforeign
    · exact Or.inl ⟨bytes, hpublished, hframe, now, he⟩
    · exact Or.inr (hforeign frame hframe)
  | sweep now => exact sweep_follows h hreceives
  | beginConnectionLifecycle other => exact begin_follows h other
  | subscribeLocalUpdates listening =>
    exact h.keep h.running h.nodup (fun key _ => Or.inl rfl) rfl
  | destroy => exact absurd hreceives id

theorem greatest_mono (r : PresenceStore J.Value) (he : e ≠ .destroy) (other : Bytes) :
    r.greatest other ≤ (step J r e).greatest other := by
  have hsame : ∀ r' : PresenceStore J.Value, r'.greatestSequence = r.greatestSequence →
      r.greatest other ≤ r'.greatest other := by
    intro r' h
    unfold greatest
    rw [h]
  cases e with
  | set key value now sent =>
    refine hsame _ ?_
    show (set J r key value now sent).greatestSequence = r.greatestSequence
    unfold set
    repeat' split
    all_goals first | rfl | exact (emitLocal_entries _ _).2.1
  | delete key now sent =>
    refine hsame _ ?_
    show (delete J r key now sent).greatestSequence = r.greatestSequence
    unfold delete
    repeat' split
    all_goals first | rfl | exact (emitLocal_entries _ _).2.1
  | encodeAll now => exact hsame _ (publication_entries r now).2.1
  | apply bytes now =>
    show r.greatest other ≤ (apply J r bytes now).greatest other
    unfold apply
    split
    · exact Nat.le_refl _
    split
    · exact Nat.le_refl _
    next frame _ =>
    by_cases hold : frame.sequence ≤ r.greatest frame.instanceId
    · unfold applyFrame
      rw [if_pos hold]
    rw [applyFrame_greatest hold]
    split
    · next heq =>
      rw [heq]
      exact Nat.le_of_lt (Nat.not_le.mp hold)
    · exact Nat.le_refl _
  | sweep now => exact hsame _ rfl
  | beginConnectionLifecycle instanceId => exact hsame _ rfl
  | subscribeLocalUpdates listening => exact hsame _ rfl
  | destroy => exact absurd rfl he

theorem step_nodup (h : (r.entries.map (·.1)).Nodup) (e : StoreEvent J.Source) :
    ((step J r e).entries.map (·.1)).Nodup := by
  have hwrite : ∀ (key : JsString) (entry : StoredEntry J.Value) (now : Rat),
      ((emitLocal J { r with entries := OrderedMap.set r.entries key entry } now).entries.map (·.1)).Nodup := by
    intro key entry now
    rw [(emitLocal_entries _ now).1]
    exact OrderedMap.set_nodup h
  cases e with
  | set key value now sent =>
    show ((set J r key value now sent).entries.map (·.1)).Nodup
    unfold set
    repeat' split
    all_goals first | exact h | exact hwrite _ _ _
  | delete key now sent =>
    show ((delete J r key now sent).entries.map (·.1)).Nodup
    unfold delete
    repeat' split
    all_goals first | exact h | exact hwrite _ _ _
  | encodeAll now =>
    show ((publication J r r.localKeys now).entries.map (·.1)).Nodup
    rw [(publication_entries r now).1]
    exact h
  | apply bytes now =>
    show ((apply J r bytes now).entries.map (·.1)).Nodup
    unfold apply
    split
    · exact h
    split
    · exact h
    · exact applyFrame_nodup h
  | sweep now => exact (List.filter_sublist.map _).nodup h
  | beginConnectionLifecycle instanceId =>
    show ((r.beginConnectionLifecycle instanceId).entries.map (·.1)).Nodup
    rw [begin_keys]
    exact h
  | subscribeLocalUpdates listening => exact h
  | destroy => exact nodup_nil

theorem after_nodup (J : StoreJson) (ttlMs : Rat) (instanceId : InstanceId) (es : List (StoreEvent J.Source)) :
    ((after J ttlMs instanceId es).entries.map (·.1)).Nodup := by
  have hstart : ((create J.Value ttlMs instanceId).entries.map (·.1)).Nodup := nodup_nil
  exact Transition.run_inv (C := fun _ _ => True) (I := fun s : PresenceStore J.Value => (s.entries.map (·.1)).Nodup)
    (fun _ e h _ => step_nodup h e) hstart (Transition.along_of fun _ _ => trivial)

theorem step_destroyed (r : PresenceStore J.Value) (he : e ≠ .destroy) :
    (step J r e).destroyed = r.destroyed := by
  cases e with
  | set key value now sent =>
    show (set J r key value now sent).destroyed = r.destroyed
    unfold set
    repeat' split
    all_goals first | rfl | exact (emitLocal_entries _ _).2.2.1
  | delete key now sent =>
    show (delete J r key now sent).destroyed = r.destroyed
    unfold delete
    repeat' split
    all_goals first | rfl | exact (emitLocal_entries _ _).2.2.1
  | encodeAll now => exact (publication_entries r now).2.2.1
  | apply bytes now =>
    show (apply J r bytes now).destroyed = r.destroyed
    unfold apply applyFrame
    repeat' split
    all_goals rfl
  | sweep now => rfl
  | beginConnectionLifecycle instanceId => rfl
  | subscribeLocalUpdates listening => rfl
  | destroy => exact absurd rfl he

section
variable {published : List Bytes} {fs : List (StoreEvent J.Source)}

theorem receives_running (h : Receives J keys instanceId published r e) : e ≠ .destroy := by
  intro heq
  rw [heq] at h
  exact h

theorem run_follows (hf : Family keys instanceId (Delivered J published fs)) (h : r.Unheard keys instanceId)
    (hn : (r.entries.map (·.1)).Nodup) (hr : Transition.Along (step J) (Receives J keys instanceId published) r fs) :
    Follows keys instanceId (Delivered J published fs) (Transition.run (step J) r fs) := by
  have hstart : Follows keys instanceId (Delivered J published fs) r :=
    ⟨h.running, hn, fun key hkey entry he => Or.inl (h.vacant key hkey entry he), Or.inl h⟩
  have hboth : Transition.Along (step J) (fun s e => e ∈ fs ∧ Receives J keys instanceId published s e) r fs := by
    rw [Transition.along_iff_at] at hr ⊢
    intro before e later heq
    exact ⟨heq ▸ mem_append_right _ mem_cons_self, hr before e later heq⟩
  exact Transition.run_inv (I := Follows keys instanceId (Delivered J published fs))
    (fun _ _ hs hc => receives_follows hf hs hc.1 hc.2) hstart hboth

theorem apply_greatest {bytes : Bytes} {frame : DecodedFrame J.Value} (hrunning : r.destroyed = false)
    (hdecodes : Decodes J bytes frame) : frame.sequence ≤ (apply J r bytes now).greatest frame.instanceId := by
  have happly : apply J r bytes now = r.applyFrame frame now := by
    unfold Decodes at hdecodes
    simp only [apply, hrunning, hdecodes, Bool.false_eq_true, if_false]
  rw [happly]
  by_cases hold : frame.sequence ≤ r.greatest frame.instanceId
  · unfold applyFrame
    rw [if_pos hold]
    exact hold
  · rw [applyFrame_greatest hold, if_pos rfl]

theorem delivered_greatest (hr : Transition.Along (step J) (Receives J keys instanceId published) r fs)
    (hrunning : r.destroyed = false) {bytes : Bytes} {frame : DecodedFrame J.Value} (hdecodes : Decodes J bytes frame)
    (hdelivered : StoreEvent.apply bytes now ∈ fs) :
    frame.sequence ≤ (Transition.run (step J) r fs).greatest frame.instanceId := by
  induction fs generalizing r with
  | nil => cases hdelivered
  | cons e fs ih =>
    have hmono : (step J r e).greatest frame.instanceId ≤
        (Transition.run (step J) (step J r e) fs).greatest frame.instanceId := by
      refine Transition.run_rel (R := fun s t : PresenceStore J.Value =>
        s.greatest frame.instanceId ≤ t.greatest frame.instanceId) (fun _ => Nat.le_refl _) Nat.le_trans ?_
      exact Transition.along_mono (fun s e hc => greatest_mono s (receives_running hc) _) hr.2
    rcases mem_cons.mp hdelivered with heq | hdelivered
    · refine Nat.le_trans ?_ hmono
      rw [← heq]
      exact apply_greatest hrunning hdecodes
    · exact ih hr.2 ((step_destroyed r (receives_running hr.1)).trans hrunning) hdelivered

end

/-! ## Agreement -/

theorem apply_unchanged {bytes : Bytes} (h : ∀ frame, Decodes J bytes frame → frame.sequence ≤ r.greatest frame.instanceId)
    (now : Rat) : apply J r bytes now = r := by
  unfold apply
  split
  · rfl
  split
  · rfl
  next frame hframe =>
  unfold applyFrame
  rw [if_pos (h frame hframe)]

/-- **Stores agree.** Every frame of a lifecycle decodes and carries what its store held, and a receiver shows for
the keys what the frame of the greatest sequence carries that was delivered to it. -/
theorem stores_agree (J : StoreJson) (hJ : Lawful J) (keys : Set JsString) (hkeys : ∀ key ∈ keys, Readable key)
    (ttlMs : Rat) (instanceId : InstanceId) (es : List (StoreEvent J.Source))
    (hsends : Transition.Along (step J) (Sends J keys) (create J.Value ttlMs instanceId) es) :
    (∀ bytes ∈ (after J ttlMs instanceId es).published, ∃ frame, Decodes J bytes frame ∧
      frame.instanceId = (after J ttlMs instanceId es).instanceId.1) ∧
    (∀ earlier e later, es = earlier ++ e :: later →
      Publishes J keys (after J ttlMs instanceId earlier) (after J ttlMs instanceId (earlier ++ [e]))) ∧
    (∀ ttlMs' instanceId' before fs,
      (after J ttlMs' instanceId' before).Unheard keys (after J ttlMs instanceId es).instanceId.1 →
      Transition.Along (step J)
        (Receives J keys (after J ttlMs instanceId es).instanceId.1 (after J ttlMs instanceId es).published)
        (after J ttlMs' instanceId' before) fs →
      ∀ frame ∈ Delivered J (after J ttlMs instanceId es).published fs,
        (∀ other ∈ Delivered J (after J ttlMs instanceId es).published fs, other.sequence ≤ frame.sequence) →
        (∀ key ∈ keys, (after J ttlMs' instanceId' (before ++ fs)).held key = frame.carried key ∧
          ∀ now, (after J ttlMs' instanceId' (before ++ fs)).Fresh keys now →
            (after J ttlMs' instanceId' (before ++ fs)).get key now = frame.carried key) ∧
        ∀ bytes ∈ (after J ttlMs instanceId es).published, ∀ older, Decodes J bytes older →
          older.sequence ≤ frame.sequence → ∀ now,
            apply J (after J ttlMs' instanceId' (before ++ fs)) bytes now =
              after J ttlMs' instanceId' (before ++ fs)) ∧
    ∀ (r : PresenceStore J.Value) (bytes : Bytes) (now : Rat), (∀ frame, ¬ Decodes J bytes frame) →
      apply J r bytes now = r := by
  have hsound : ∀ {earlier}, earlier <+: es → Sound J keys (after J ttlMs instanceId earlier) := by
    intro earlier hprefix
    obtain ⟨later, rfl⟩ := hprefix
    exact Transition.run_inv (I := Sound J keys) (fun _ _ hs hc => (sends_sound hJ hkeys hs hc).1)
      (create_sound J keys ttlMs instanceId) (Transition.along_append.mp hsends).1
  have hlast := hsound (prefix_refl es)
  refine ⟨fun bytes hbytes => ?_, fun earlier e later heq => ?_, fun ttlMs' instanceId' before fs hunheard hr frame
    hframe hmax => ?_, fun r bytes now hnone => apply_unchanged (fun frame hframe => absurd hframe (hnone frame)) now⟩
  · obtain ⟨frame, hdecodes, hsent⟩ := hlast.lifecycle.sent bytes hbytes
    exact ⟨frame, hdecodes, hsent.instanceId⟩
  · have hstep : after J ttlMs instanceId (earlier ++ [e]) = step J (after J ttlMs instanceId earlier) e :=
      Transition.run_snoc _ _ _
    rw [hstep]
    refine (sends_sound hJ hkeys (hsound ⟨e :: later, heq.symm⟩) ?_).2
    exact Transition.along_iff_at.mp hsends earlier e later heq
  · have hfamily : Family keys (after J ttlMs instanceId es).instanceId.1
        (Delivered J (after J ttlMs instanceId es).published fs) := by
      refine hlast.family fun frame hframe => ?_
      obtain ⟨bytes, hbytes, hdecodes, -⟩ := hframe
      exact ⟨bytes, hbytes, hdecodes⟩
    have hrun : after J ttlMs' instanceId' (before ++ fs) =
        Transition.run (step J) (after J ttlMs' instanceId' before) fs := Transition.run_append _ _ _
    rw [hrun]
    have hfollows := run_follows hfamily hunheard (after_nodup J ttlMs' instanceId' before) hr
    -- the frame is counted, so what was taken last is not older than it
    obtain ⟨bytes, hbytes, hdecodes, now, hdelivered⟩ := hframe
    have hgreatest := delivered_greatest hr hunheard.running hdecodes hdelivered
    rw [hfamily.instanceId frame ⟨bytes, hbytes, hdecodes, now, hdelivered⟩] at hgreatest
    refine ⟨fun key hkey => ?_, fun bytes' hbytes' older holder hle now' => ?_⟩
    · have hheld : (Transition.run (step J) (after J ttlMs' instanceId' before) fs).held key = frame.carried key := by
        rcases hfollows.shows with hnone | ⟨taken, htaken, hsequence, hshows⟩
        · rw [hnone.greatest] at hgreatest
          have hpositive := hfamily.positive frame ⟨bytes, hbytes, hdecodes, now, hdelivered⟩
          omega
        have hle := hmax taken htaken
        have heq := (hfamily.compare taken htaken frame ⟨bytes, hbytes, hdecodes, now, hdelivered⟩ hle).2
          (Nat.le_antisymm hle (hsequence ▸ hgreatest))
        rw [hshows key hkey, heq]
      exact ⟨hheld, fun now' hfresh => (get_eq_held hfresh hkey).trans hheld⟩
    · refine apply_unchanged (fun decoded hdecoded => ?_) now'
      rw [Option.some.inj (hdecoded.symm.trans holder)]
      obtain ⟨known, hknown, hsent⟩ := hlast.lifecycle.sent bytes' hbytes'
      have hinstance : older.instanceId = (after J ttlMs instanceId es).instanceId.1 := by
        rw [Option.some.inj (holder.symm.trans hknown)]
        exact hsent.instanceId
      rw [hinstance]
      exact hle.trans hgreatest

end

end

/-! ## A delivery out of order, and a key that begins with a mark -/

def digitStore : StoreJson where
  toPresenceJson := PresenceRoom.digitJson
  Source := Fin 10
  stringify := fun n => some [UInt8.ofNat (48 + n.val)]
  text := fun (n : Nat) => [UInt8.ofNat (48 + n)]

instance : DecidableEq digitStore.Value := inferInstanceAs (DecidableEq Nat)

def digit (n : Nat) : digitStore.Value := n

theorem digitStore_lawful : Lawful digitStore := by
  intro source json h
  have hall : ∀ n : Fin 10, digitStore.parse [UInt8.ofNat (48 + n.val)] = some (digit n.val) := by decide
  cases h
  exact ⟨Fin.val source, hall source, rfl⟩

def sender : InstanceId := ⟨List.replicate 16 1, rfl⟩
def receiver : InstanceId := ⟨List.replicate 16 2, rfl⟩

def cursorKey : JsString := [55, 45, 99, 109, 45, 115]
def userKey : JsString := [55, 45, 99, 109, 45, 117]

def editing : List (StoreEvent (Fin 10)) :=
  [.subscribeLocalUpdates true, .set userKey 4 0 0, .set cursorKey 1 0 1, .set cursorKey 2 1 2, .delete userKey 3 3]

def reordered : List (StoreEvent (Fin 10)) :=
  [1, 3, 0, 3].map fun i => .apply ((after digitStore 30000 sender editing).published.getD i []) 5

theorem reordered_agrees : (after digitStore 30000 receiver reordered).held cursorKey = some (digit 2) := by
  have hkeys : ∀ key ∈ [userKey, cursorKey], Readable key := by
    unfold Readable
    decide +kernel
  have hsends : Transition.Along (step digitStore) (Sends digitStore fun key => key ∈ [userKey, cursorKey])
      (create Nat 30000 sender) editing :=
    ⟨trivial, mem_cons_self, mem_cons_of_mem _ mem_cons_self, mem_cons_of_mem _ mem_cons_self,
      mem_cons_self, trivial⟩
  have hlength : (after digitStore 30000 sender editing).published.length = 4 := by decide +kernel
  have hpublished : ∀ i < 4, (after digitStore 30000 sender editing).published.getD i [] ∈
      (after digitStore 30000 sender editing).published := by
    intro i hi
    have hi' : i < (after digitStore 30000 sender editing).published.length := hlength ▸ hi
    rw [getD_eq_getElem?_getD, getElem?_eq_getElem hi']
    exact getElem_mem hi'
  obtain ⟨-, -, hagree, -⟩ := stores_agree digitStore digitStore_lawful (fun key => key ∈ [userKey, cursorKey]) hkeys
    30000 sender editing hsends
  have hsome : (decodeFrame digitStore.toPresenceJson
      ((after digitStore 30000 sender editing).published.getD 3 [])).isSome = true := by decide +kernel
  obtain ⟨frame, hdecodes⟩ := Option.isSome_iff_exists.mp hsome
  have hshown : (decodeFrame digitStore.toPresenceJson ((after digitStore 30000 sender editing).published.getD 3 [])).map
      (fun frame => (frame.sequence, frame.carried cursorKey)) = some (4, some (digit 2)) := by decide +kernel
  rw [hdecodes] at hshown
  obtain ⟨hsequence, hcarried⟩ := Prod.mk.inj (Option.some.inj hshown)
  have hsmall : ∀ bytes ∈ (after digitStore 30000 sender editing).published,
      ((decodeFrame digitStore.toPresenceJson bytes).all fun frame => decide (frame.sequence ≤ 4)) = true :=
    all_eq_true.mp (by decide +kernel)
  have hframe : frame ∈ Delivered digitStore (after digitStore 30000 sender editing).published reordered :=
    ⟨_, hpublished 3 (by decide), hdecodes, 5, mem_cons_of_mem _ mem_cons_self⟩
  refine ((hagree 30000 receiver [] reordered ⟨rfl, rfl, fun _ _ _ he => by cases he⟩ ?_ frame hframe ?_).1 cursorKey
    (mem_cons_of_mem _ mem_cons_self)).1.trans hcarried
  · exact ⟨Or.inl (hpublished 1 (by decide)), Or.inl (hpublished 3 (by decide)), Or.inl (hpublished 0 (by decide)),
      Or.inl (hpublished 3 (by decide)), trivial⟩
  intro other hother
  obtain ⟨bytes, hbytes, hdecodes', -⟩ := hother
  have hle := hsmall bytes hbytes
  unfold Decodes at hdecodes'
  rw [hdecodes', Option.all_some, decide_eq_true_eq] at hle
  rw [hsequence]
  exact hle

def marking : List (StoreEvent (Fin 10)) :=
  [.subscribeLocalUpdates true, .set [0xFEFF] 1 0 0, .set cursorKey 2 1 1]

def hearing : List (StoreEvent (Fin 10)) :=
  [0, 1].map fun i => .apply ((after digitStore 30000 sender marking).published.getD i []) 2

/-- The sender's frames are delivered in order, and the receiver knows nothing of what they carry. -/
theorem marked_key_unheard :
    Transition.Along (step digitStore) (Sends digitStore fun key => key ∈ [[0xFEFF], cursorKey])
      (create Nat 30000 sender) marking ∧
    (after digitStore 30000 receiver []).Unheard (fun key => key ∈ [[0xFEFF], cursorKey]) sender.1 ∧
    Transition.Along (step digitStore) (Receives digitStore (fun key => key ∈ [[0xFEFF], cursorKey]) sender.1
      (after digitStore 30000 sender marking).published) (after digitStore 30000 receiver []) hearing ∧
    (after digitStore 30000 sender marking).published.length = 2 ∧
    (after digitStore 30000 sender marking).held cursorKey = some (digit 2) ∧
    (after digitStore 30000 receiver hearing).held cursorKey = none := by
  refine ⟨⟨trivial, mem_cons_self, mem_cons_of_mem _ mem_cons_self, trivial⟩,
    ⟨rfl, rfl, fun _ _ _ he => by cases he⟩, ⟨Or.inl ?_, Or.inl ?_, trivial⟩, ?_, ?_, ?_⟩
  all_goals decide +kernel

end PresenceStore

end Marks
