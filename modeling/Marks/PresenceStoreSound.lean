import Marks.Lists
import Marks.PresenceStore

/-! # What a presence store publishes

Every frame of a lifecycle decodes, carries what its store holds and lists all keys the store has set, so a frame
says all that the earlier ones said. -/

namespace Marks

open List

/-! ## Keys on the wire -/

def Readable (key : JsString) : Prop :=
  JsString.ofCodePoints key.codePoints = key ∧ key.codePoints.head? ≠ some byteOrderMark

theorem Readable.text {key : JsString} (h : Readable key) :
    Reader.text (utf8 key) = some key.codePoints := text_unmarked h.2

def StoredEntry.renamed {V : Type} (instanceId : InstanceId) (entry : StoredEntry V) : StoredEntry V :=
  if entry.isLocal then { entry with instanceId := instanceId.1 } else entry

theorem StoredEntry.renamed_spec {V : Type} (instanceId : InstanceId) (entry : StoredEntry V) :
    (renamed instanceId entry).isLocal = entry.isLocal ∧ (renamed instanceId entry).deleted = entry.deleted ∧
      (renamed instanceId entry).value = entry.value := by
  unfold renamed
  split <;> exact ⟨rfl, rfl, rfl⟩

/-! ## Frames as they are read -/

namespace DecodedFrame

variable {V : Type} (frame : DecodedFrame V)

def keys : List JsString := frame.entries.map fun entry => JsString.ofCodePoints entry.key

/-- What the frame says of a key; nothing for a key it deletes or does not list. -/
def carried (key : JsString) : Option V :=
  match frame.entries.find? fun entry => JsString.ofCodePoints entry.key == key with
  | some entry => if entry.deleted then none else entry.value
  | none => none

end DecodedFrame

namespace PresenceStore

/-- What the store says of a key, its age aside. -/
def held {V : Type} (s : PresenceStore V) (key : JsString) : Option V :=
  match s.entry key with
  | some entry => if entry.deleted then none else entry.value
  | none => none

def Fresh {V : Type} (s : PresenceStore V) (keys : Set JsString) (now : Rat) : Prop :=
  ∀ key ∈ keys, ∀ entry, s.entry key = some entry → now - entry.receivedAt ≤ s.ttlMs

theorem get_eq_held {V : Type} {s : PresenceStore V} {keys : Set JsString} {now : Rat} (h : s.Fresh keys now)
    {key : JsString} (hkey : key ∈ keys) : s.get key now = s.held key := by
  unfold get held
  cases hentry : s.entry key with
  | none => rfl
  | some entry =>
    have hfresh := h key hkey entry hentry
    cases hdeleted : entry.deleted <;> simp [live, hdeleted, hfresh]

section
variable (J : StoreJson)

/-- `JSON.parse` gives back what `JSON.stringify` wrote, and `JSON.stringify` writes it again. -/
def Lawful : Prop :=
  ∀ source json, J.stringify source = some json → ∃ value, J.parse json = some value ∧ J.text value = json

def Decodes (bytes : Bytes) (frame : DecodedFrame J.Value) : Prop :=
  decodeFrame J.toPresenceJson bytes = some frame

def after (ttlMs : Rat) (instanceId : InstanceId) (es : List (StoreEvent J.Source)) : PresenceStore J.Value :=
  Transition.run (step J) (create J.Value ttlMs instanceId) es

/-- The keys are the store's own: no remote frame names them, and none of them expires. -/
def Sends (keys : Set JsString) (s : PresenceStore J.Value) : StoreEvent J.Source → Prop
  | .set key _ _ _ => key ∈ keys
  | .delete key _ _ => key ∈ keys
  | .apply bytes _ => ∀ frame, Decodes J bytes frame → ∀ key ∈ frame.keys, key ∉ keys
  | .sweep now => s.Fresh keys now
  | .destroy => False
  | .encodeAll _ => True
  | .beginConnectionLifecycle _ => True
  | .subscribeLocalUpdates _ => True

/-- The keys are another store's: what comes in are frames of that store, frames of others about other keys, and
what does not decode. -/
def Receives (keys : Set JsString) (instanceId : Bytes) (frames : List Bytes) (s : PresenceStore J.Value) :
    StoreEvent J.Source → Prop
  | .set key _ _ _ => key ∉ keys
  | .delete key _ _ => key ∉ keys
  | .apply bytes _ => bytes ∈ frames ∨
      ∀ frame, Decodes J bytes frame → frame.instanceId ≠ instanceId ∧ ∀ key ∈ frame.keys, key ∉ keys
  | .sweep now => s.Fresh keys now
  | .destroy => False
  | .encodeAll _ => True
  | .beginConnectionLifecycle _ => True
  | .subscribeLocalUpdates _ => True

end

/-! ## Frames as they are published -/

section
variable {J : StoreJson} {s : PresenceStore J.Value} {now : Rat} {key : JsString}

def publicationFrame (J : StoreJson) (s : PresenceStore J.Value) (now : Rat) : PresenceFrame :=
  ⟨s.instanceId.1, s.sequence + 1, s.localKeys.map (outgoing J s now)⟩

theorem publication_cases (J : StoreJson) (s : PresenceStore J.Value) (now : Rat) :
    publication J s s.localKeys now = s ∨
      s.sequence + 1 < maxSafeInteger ∧
        (publication J s s.localKeys now = { s with sequence := s.sequence + 1 } ∨
          writable (publicationFrame J s now) = true ∧
            publication J s s.localKeys now = { s with
              sequence := s.sequence + 1
              published := s.published ++ [encodePresence (publicationFrame J s now)] }) := by
  unfold publication
  by_cases hfull : maxSafeInteger - 1 ≤ s.sequence
  · exact Or.inl (if_pos hfull)
  rw [if_neg hfull]
  refine Or.inr ⟨?_, ?_⟩
  · have : maxSafeInteger = 2 ^ 53 - 1 := rfl
    omega
  · by_cases hwritable : writable (publicationFrame J s now) = true
    · exact Or.inr ⟨hwritable, if_pos hwritable⟩
    · exact Or.inl (if_neg hwritable)

structure Made (J : StoreJson) (key : JsString) (entry : StoredEntry J.Value) : Prop where
  key : utf8 key ≠ []
  value : entry.deleted = false → ∃ value, entry.value = some value ∧ J.parse (J.text value) = some value

structure Owner (J : StoreJson) (keys : Set JsString) (s : PresenceStore J.Value) : Prop where
  running : s.destroyed = false
  nodup : (s.entries.map (·.1)).Nodup
  own : ∀ key entry, s.entry key = some entry → (key ∈ keys ↔ entry.isLocal = true)
  made : ∀ key entry, s.entry key = some entry → entry.isLocal = true → Made J key entry
  count : s.localKeys.length ≤ maxPresenceEntries

variable {keys : Set JsString}

theorem Owner.local_entry (h : Owner J keys s) (hkey : key ∈ s.localKeys) :
    ∃ entry, s.entry key = some entry ∧ entry.isLocal = true ∧ key ∈ keys ∧ Made J key entry := by
  obtain ⟨entry, hentry, hlocal⟩ := (OrderedMap.mem_picked h.nodup).mp hkey
  exact ⟨entry, hentry, hlocal, (h.own key entry hentry).mpr hlocal, h.made key entry hentry hlocal⟩

theorem outgoing_key (J : StoreJson) (s : PresenceStore J.Value) (now : Rat) (key : JsString) :
    (outgoing J s now key).key = key.codePoints := by
  unfold outgoing
  split
  · rfl
  · split <;> rfl

theorem shown_key (J : PresenceJson) (entry : PresenceEntry) : (entry.shown J).key = entry.key := by
  unfold PresenceEntry.shown
  split <;> rfl

theorem shown_age (J : PresenceJson) (entry : PresenceEntry) : (entry.shown J).age ≤ maxBootstrapAgeMs := by
  unfold PresenceEntry.shown
  split
  · exact Nat.zero_le _
  · exact Nat.min_le_right _ _

def readFrame (J : StoreJson) (s : PresenceStore J.Value) (now : Rat) : DecodedFrame J.Value :=
  ⟨s.instanceId.1, s.sequence + 1, s.localKeys.map fun key => (outgoing J s now key).shown J.toPresenceJson⟩

theorem outgoing_legible (h : Owner J keys s) (hsafe : ∀ key ∈ keys, Readable key)
    (hwritable : writable (publicationFrame J s now) = true) (hkey : key ∈ s.localKeys) :
    Legible J.toPresenceJson (outgoing J s now key) := by
  obtain ⟨entry, hentry, hlocal, hmem, hmade⟩ := h.local_entry hkey
  obtain ⟨hkeyBytes, hvalueBytes⟩ : (keyBytes (outgoing J s now key).key).length ≤ maxKeyBytes ∧
      (outgoing J s now key).value.length ≤ maxValueBytes := by
    simp only [writable, Bool.and_eq_true, all_eq_true, decide_eq_true_eq] at hwritable
    exact hwritable.1 _ (mem_map_of_mem hkey)
  have hcode := outgoing_key J s now key
  refine ⟨?_, ?_, hkeyBytes, fun hlive => ⟨hvalueBytes, ?_⟩⟩
  · intro hnil
    rw [hcode] at hnil
    exact hmade.key (by rw [utf8, hnil]; rfl)
  · rw [hcode]
    exact (hsafe key hmem).text
  unfold outgoing at hlive ⊢
  rw [hentry] at hlive ⊢
  cases hdeleted : entry.deleted with
  | true => simp [hdeleted] at hlive
  | false =>
    obtain ⟨value, hvalue, hparse⟩ := hmade.value hdeleted
    simp [hdeleted, hvalue, hparse]

theorem readFrame_key (h : Owner J keys s) (hsafe : ∀ key ∈ keys, Readable key) (hkey : key ∈ s.localKeys) :
    JsString.ofCodePoints ((outgoing J s now key).shown J.toPresenceJson).key = key := by
  obtain ⟨entry, -, -, hmem, -⟩ := h.local_entry hkey
  rw [shown_key, outgoing_key]
  exact (hsafe key hmem).1

theorem readFrame_keys (h : Owner J keys s) (hsafe : ∀ key ∈ keys, Readable key) :
    (readFrame J s now).keys = s.localKeys := by
  unfold DecodedFrame.keys readFrame
  rw [map_map]
  calc s.localKeys.map _ = s.localKeys.map id :=
        map_congr_left fun key hkey => readFrame_key h hsafe hkey
    _ = s.localKeys := map_id _

theorem find?_map_key {α β : Type} [BEq α] [LawfulBEq α] {l : List α} {g : α → β} {f : β → α} (hf : ∀ a ∈ l, f (g a) = a)
    (a : α) : (l.map g).find? (fun b => f b == a) = if a ∈ l then some (g a) else none := by
  induction l with
  | nil => rfl
  | cons b l ih =>
    have hrest := ih fun a ha => hf a (mem_cons_of_mem b ha)
    rw [map_cons, find?_cons, hf b mem_cons_self]
    by_cases hb : b = a
    · rw [beq_iff_eq.mpr hb, if_pos (hb ▸ mem_cons_self), hb]
    · rw [beq_false_of_ne hb]
      simp only [hrest, mem_cons, Ne.symm hb, false_or]

theorem readFrame_carried (h : Owner J keys s) (hsafe : ∀ key ∈ keys, Readable key) (hmem : key ∈ keys) :
    (readFrame J s now).carried key = s.held key := by
  have hfind : (readFrame J s now).entries.find? (fun entry => JsString.ofCodePoints entry.key == key) =
      if key ∈ s.localKeys then some ((outgoing J s now key).shown J.toPresenceJson) else none :=
    find?_map_key (g := fun key => (outgoing J s now key).shown J.toPresenceJson)
      (f := fun entry => JsString.ofCodePoints entry.key) (fun other hother => readFrame_key h hsafe hother) key
  unfold DecodedFrame.carried held
  rw [hfind]
  cases hentry : s.entry key with
  | none =>
    rw [if_neg]
    intro hkey
    obtain ⟨entry, hsome, -⟩ := h.local_entry hkey
    rw [hentry] at hsome
    cases hsome
  | some entry =>
    have hlocal := (h.own key entry hentry).mp hmem
    have hkey : key ∈ s.localKeys := (OrderedMap.mem_picked h.nodup).mpr ⟨entry, hentry, hlocal⟩
    rw [if_pos hkey]
    cases hdeleted : entry.deleted with
    | true => simp [outgoing, hentry, hdeleted, PresenceEntry.shown]
    | false =>
      obtain ⟨value, hvalue, hparse⟩ := (h.made key entry hentry hlocal).value hdeleted
      simp [outgoing, hentry, hdeleted, PresenceEntry.shown, hvalue, hparse]

theorem readFrame_decodes (h : Owner J keys s) (hsafe : ∀ key ∈ keys, Readable key)
    (hsequence : s.sequence + 1 < maxSafeInteger) (hwritable : writable (publicationFrame J s now) = true) :
    Decodes J (encodePresence (publicationFrame J s now)) (readFrame J s now) := by
  have hbytes : (encodePresence (publicationFrame J s now)).length ≤ maxPresenceBytes := by
    simp only [writable, Bool.and_eq_true, decide_eq_true_eq] at hwritable
    exact hwritable.2
  have hcount : (publicationFrame J s now).entries.length ≤ 256 := by
    rw [publicationFrame, length_map]
    exact h.count
  have hlegible : ∀ entry ∈ (publicationFrame J s now).entries, Legible J.toPresenceJson entry := by
    intro entry hentry
    obtain ⟨key, hkey, rfl⟩ := mem_map.mp hentry
    exact outgoing_legible h hsafe hwritable hkey
  have hdecodes := decodeFrame_encode s.instanceId.2 ⟨Nat.succ_ne_zero _, Nat.le_of_lt hsequence⟩ hcount hbytes hlegible
  rw [Decodes, hdecodes, readFrame]
  simp only [publicationFrame, map_map, Function.comp_def]

/-! ## What a sender has published -/

structure Sent (s : PresenceStore J.Value) (frame : DecodedFrame J.Value) : Prop where
  instanceId : frame.instanceId = s.instanceId.1
  sequence : 0 < frame.sequence ∧ frame.sequence ≤ s.sequence
  keys : ∀ key ∈ frame.keys, key ∈ s.localKeys
  nodup : frame.keys.Nodup
  ages : ∀ entry ∈ frame.entries, entry.age ≤ maxBootstrapAgeMs

structure Lifecycle (J : StoreJson) (s : PresenceStore J.Value) : Prop where
  sequence : s.sequence < maxSafeInteger
  sent : ∀ bytes ∈ s.published, ∃ frame, Decodes J bytes frame ∧ Sent s frame
  ordered : s.published.Pairwise fun bytes later => ∀ f g, Decodes J bytes f → Decodes J later g →
    f.sequence < g.sequence ∧ ∀ key ∈ f.keys, key ∈ g.keys

variable {s' : PresenceStore J.Value}

theorem Sent.mono {frame : DecodedFrame J.Value} (h : Sent s frame)
    (hinstance : s'.instanceId = s.instanceId) (hsequence : s.sequence ≤ s'.sequence)
    (hkeys : ∀ key ∈ s.localKeys, key ∈ s'.localKeys) : Sent s' frame where
  instanceId := by rw [hinstance]; exact h.instanceId
  sequence := ⟨h.sequence.1, h.sequence.2.trans hsequence⟩
  keys := fun key hkey => hkeys key (h.keys key hkey)
  nodup := h.nodup
  ages := h.ages

theorem Lifecycle.mono (h : Lifecycle J s) (hinstance : s'.instanceId = s.instanceId)
    (hpublished : s'.published = s.published) (hsequence : s.sequence ≤ s'.sequence)
    (hlimit : s'.sequence < maxSafeInteger) (hkeys : ∀ key ∈ s.localKeys, key ∈ s'.localKeys) : Lifecycle J s' where
  sequence := hlimit
  sent := by
    intro bytes hbytes
    rw [hpublished] at hbytes
    obtain ⟨frame, hdecodes, hsent⟩ := h.sent bytes hbytes
    exact ⟨frame, hdecodes, hsent.mono hinstance hsequence hkeys⟩
  ordered := by rw [hpublished]; exact h.ordered

theorem Lifecycle.compare (h : Lifecycle J s) {bytes other : Bytes} (hbytes : bytes ∈ s.published)
    (hother : other ∈ s.published) {f g : DecodedFrame J.Value} (hf : Decodes J bytes f) (hg : Decodes J other g)
    (hle : f.sequence ≤ g.sequence) : (∀ key ∈ f.keys, key ∈ g.keys) ∧ (f.sequence = g.sequence → f = g) := by
  have hall := List.Pairwise.forall_of_forall_of_flip
    (R := fun bytes other => ∀ f g, Decodes J bytes f → Decodes J other g → f.sequence ≤ g.sequence →
      (∀ key ∈ f.keys, key ∈ g.keys) ∧ (f.sequence = g.sequence → f = g)) (l := s.published) ?_ ?_ ?_
  · exact hall hbytes hother f g hf hg hle
  · intro bytes _ f g hf hg _
    have heq : f = g := Option.some.inj (hf.symm.trans hg)
    exact ⟨fun key hkey => heq ▸ hkey, fun _ => heq⟩
  · refine h.ordered.imp fun hordered f g hf hg hle => ?_
    obtain ⟨hlt, hkeys⟩ := hordered f g hf hg
    exact ⟨hkeys, fun heq => absurd heq (Nat.ne_of_lt hlt)⟩
  · refine h.ordered.imp fun hordered f g hf hg hle => ?_
    have hlt := (hordered g f hg hf).1
    exact absurd hlt (Nat.not_lt.mpr hle)

theorem Lifecycle.publish (h : Lifecycle J s) (ho : Owner J keys s) (hsafe : ∀ key ∈ keys, Readable key)
    (hsequence : s.sequence + 1 < maxSafeInteger) (hwritable : writable (publicationFrame J s now) = true) :
    Lifecycle J { s with
      sequence := s.sequence + 1
      published := s.published ++ [encodePresence (publicationFrame J s now)] } := by
  have hlast := readFrame_decodes ho hsafe hsequence hwritable
  have hkeys : (readFrame J s now).keys = s.localKeys := readFrame_keys ho hsafe
  -- a frame that was there lists local keys only, under a smaller sequence
  have hold : ∀ bytes ∈ s.published, ∀ f, Decodes J bytes f → Sent s f := by
    intro bytes hbytes f hf
    obtain ⟨frame, hdecodes, hsent⟩ := h.sent bytes hbytes
    exact Option.some.inj (hdecodes.symm.trans hf) ▸ hsent
  have hnew : ∀ g, Decodes J (encodePresence (publicationFrame J s now)) g → g = readFrame J s now :=
    fun g hg => Option.some.inj (hg.symm.trans hlast)
  refine ⟨hsequence, ?_, ?_⟩
  · intro bytes hbytes
    rcases mem_append.mp hbytes with hbytes | hbytes
    · obtain ⟨frame, hdecodes, hsent⟩ := h.sent bytes hbytes
      exact ⟨frame, hdecodes, hsent.mono rfl (Nat.le_succ _) fun key hkey => hkey⟩
    rw [mem_singleton.mp hbytes]
    refine ⟨_, hlast, rfl, ⟨Nat.succ_pos _, Nat.le_refl _⟩, ?_, ?_, ?_⟩
    · rw [hkeys]
      exact fun key hkey => hkey
    · rw [hkeys]
      exact OrderedMap.picked_nodup ho.nodup
    · intro entry hentry
      obtain ⟨key, -, rfl⟩ := mem_map.mp hentry
      exact shown_age _ _
  · refine pairwise_append.mpr ⟨h.ordered, pairwise_singleton _ _, fun bytes hbytes last hmem f g hf hg => ?_⟩
    rw [mem_singleton.mp hmem] at hg
    rw [hnew g hg, hkeys]
    have hsent := hold bytes hbytes f hf
    exact ⟨Nat.lt_succ_of_le hsent.sequence.2, hsent.keys⟩

/-! ## A sender's steps -/

def Publishes (J : StoreJson) (keys : Set JsString) (s s' : PresenceStore J.Value) : Prop :=
  ∀ bytes, s'.published = s.published ++ [bytes] →
    ∃ frame, Decodes J bytes frame ∧ ∀ key ∈ keys, frame.carried key = s'.held key

structure Sound (J : StoreJson) (keys : Set JsString) (s : PresenceStore J.Value) : Prop where
  owner : Owner J keys s
  lifecycle : Lifecycle J s

theorem publishes_nothing (h : s'.published = s.published) : Publishes J keys s s' := by
  intro bytes hbytes
  rw [h] at hbytes
  exact absurd (congrArg List.length hbytes) (by simp)

theorem Sound.with_entries (h : Sound J keys s) (hentries : s'.entries = s.entries)
    (hdestroyed : s'.destroyed = s.destroyed) (hinstance : s'.instanceId = s.instanceId)
    (hsequence : s'.sequence = s.sequence) (hpublished : s'.published = s.published) : Sound J keys s' := by
  obtain ⟨ho, hl⟩ := h
  have hentry : s'.entry = s.entry := by
    unfold entry
    rw [hentries]
  have hkeys : s'.localKeys = s.localKeys := by
    unfold localKeys
    rw [hentries]
  refine ⟨⟨hdestroyed ▸ ho.running, hentries ▸ ho.nodup, hentry ▸ ho.own, hentry ▸ ho.made, hkeys ▸ ho.count⟩, ?_⟩
  exact hl.mono hinstance hpublished hsequence.ge (hsequence ▸ hl.sequence) fun key hkey => hkeys ▸ hkey

theorem publication_sound (hsafe : ∀ key ∈ keys, Readable key) (h : Sound J keys s) :
    Sound J keys (publication J s s.localKeys now) ∧ Publishes J keys s (publication J s s.localKeys now) := by
  obtain ⟨ho, hl⟩ := h
  rcases publication_cases J s now with hsame | ⟨hsequence, hspent | ⟨hwritable, hsent⟩⟩
  · rw [hsame]
    exact ⟨⟨ho, hl⟩, publishes_nothing rfl⟩
  · rw [hspent]
    have hkept : Lifecycle J { s with sequence := s.sequence + 1 } :=
      hl.mono rfl rfl (Nat.le_succ _) hsequence fun key hkey => hkey
    exact ⟨⟨⟨ho.running, ho.nodup, ho.own, ho.made, ho.count⟩, hkept⟩, publishes_nothing rfl⟩
  · rw [hsent]
    refine ⟨⟨⟨ho.running, ho.nodup, ho.own, ho.made, ho.count⟩, hl.publish ho hsafe hsequence hwritable⟩, ?_⟩
    intro bytes hbytes
    have hlast : encodePresence (publicationFrame J s now) = bytes := by
      simpa using append_cancel_left hbytes
    rw [← hlast]
    exact ⟨_, readFrame_decodes ho hsafe hsequence hwritable, fun key hkey => readFrame_carried ho hsafe hkey⟩

theorem emitLocal_sound (hsafe : ∀ key ∈ keys, Readable key) (h : Sound J keys s) :
    Sound J keys (emitLocal J s now) ∧ Publishes J keys s (emitLocal J s now) := by
  unfold emitLocal
  split
  · exact publication_sound hsafe h
  · exact ⟨h, publishes_nothing rfl⟩

theorem Sound.write (h : Sound J keys s) (key : JsString) (entry : StoredEntry J.Value) (hown : key ∈ keys ↔ entry.isLocal = true)
    (hmade : entry.isLocal = true → Made J key entry)
    (hroom : entry.isLocal = true → s.entry key = none → s.entries.length < maxPresenceEntries) :
    Sound J keys { s with entries := OrderedMap.set s.entries key entry } := by
  obtain ⟨ho, hl⟩ := h
  let s' : PresenceStore J.Value := { s with entries := OrderedMap.set s.entries key entry }
  have hentry : ∀ other, s'.entry other = if other = key then some entry else s.entry other :=
    fun other => OrderedMap.get_set
  have hkeys : s'.localKeys = s.localKeys ∨ s'.localKeys = s.localKeys ++ [key] ∧ s.entry key = none ∧
      entry.isLocal = true := by
    cases hget : s.entry key with
    | some old =>
      refine Or.inl (OrderedMap.picked_set_same (fun b hb => ?_) fun hnone => ?_)
      · have holdkey := ho.own key b hb
        rw [Bool.eq_iff_iff]
        exact holdkey.symm.trans hown
      · have hnone : s.entry key = none := hnone
        rw [hget] at hnone
        cases hnone
    | none =>
      cases hlocal : entry.isLocal with
      | true => exact Or.inr ⟨OrderedMap.picked_set_new hget hlocal, rfl, rfl⟩
      | false =>
        refine Or.inl (OrderedMap.picked_set_same (fun b hb => ?_) fun _ => hlocal)
        have hb : s.entry key = some b := hb
        rw [hget] at hb
        cases hb
  have hmore : ∀ other ∈ s.localKeys, other ∈ s'.localKeys := by
    intro other hother
    rcases hkeys with heq | ⟨heq, -⟩
    · rw [heq]
      exact hother
    · rw [heq]
      exact mem_append_left _ hother
  have howned : Owner J keys s' := by
    refine ⟨ho.running, OrderedMap.set_nodup ho.nodup, fun other e he => ?_, fun other e he hlocal => ?_, ?_⟩
    · rw [hentry] at he
      split at he
      · next heq =>
        rw [heq, ← Option.some.inj he]
        exact hown
      · exact ho.own other e he
    · rw [hentry] at he
      split at he
      · next heq =>
        rw [← Option.some.inj he] at hlocal ⊢
        rw [heq]
        exact hmade hlocal
      · exact ho.made other e he hlocal
    · rcases hkeys with heq | ⟨heq, hnone, hlocal⟩
      · rw [heq]
        exact ho.count
      have hlength : s.localKeys.length ≤ s.entries.length := OrderedMap.picked_length
      have hfree := hroom hlocal hnone
      rw [heq, length_append, length_singleton]
      omega
  exact ⟨howned, hl.mono rfl rfl (Nat.le_refl _) hl.sequence hmore⟩

theorem serializableValue_parses (hJ : Lawful J) {source : J.Source} {stored : J.Value}
    (h : serializableValue J source = some stored) : J.parse (J.text stored) = some stored := by
  simp only [serializableValue, Option.bind_eq_bind, Option.bind_eq_some_iff] at h
  obtain ⟨json, hjson, -, -, hparse⟩ := h
  obtain ⟨value, hvalue, htext⟩ := hJ source json hjson
  have heq : value = stored := Option.some.inj (hvalue.symm.trans hparse)
  rw [← heq, htext]
  exact hvalue

theorem set_sound (hJ : Lawful J) (hsafe : ∀ key ∈ keys, Readable key) (h : Sound J keys s) (hkey : key ∈ keys)
    (value : J.Source) (now sent : Rat) :
    Sound J keys (set J s key value now sent) ∧ Publishes J keys s (set J s key value now sent) := by
  have hsame : Sound J keys s ∧ Publishes J keys s s := ⟨h, publishes_nothing rfl⟩
  unfold set
  split
  · exact hsame
  split
  · exact hsame
  next hfree =>
  split
  · exact hsame
  next stored hstored =>
  split
  · exact hsame
  next hlength =>
  have hnonempty : utf8 key ≠ [] := fun hnil => hlength (Or.inl hnil)
  have hwritten := h.write key ⟨some stored, now, s.instanceId.1, false, true⟩
    ⟨fun _ => rfl, fun _ => hkey⟩ (fun _ => ⟨hnonempty, fun _ => ⟨stored, rfl, serializableValue_parses hJ hstored⟩⟩)
    fun _ hnone => by
      rw [hnone, not_and, Nat.not_le] at hfree
      exact hfree rfl
  exact emitLocal_sound hsafe hwritten

theorem delete_sound (hsafe : ∀ key ∈ keys, Readable key) (h : Sound J keys s) (hkey : key ∈ keys)
    (now sent : Rat) :
    Sound J keys (delete J s key now sent) ∧ Publishes J keys s (delete J s key now sent) := by
  have hsame : Sound J keys s ∧ Publishes J keys s s := ⟨h, publishes_nothing rfl⟩
  unfold delete
  split
  · exact hsame
  split
  · exact hsame
  next entry hentry =>
  split
  · exact hsame
  have hmade := h.owner.made key entry hentry ((h.owner.own key entry hentry).mp hkey)
  have hwritten := h.write key ⟨none, now, s.instanceId.1, true, true⟩
    ⟨fun _ => rfl, fun _ => hkey⟩ (fun _ => ⟨hmade.key, fun hlive => by cases hlive⟩)
    fun _ hnone => by
      rw [hentry] at hnone
      cases hnone
  exact emitLocal_sound hsafe hwritten

theorem applyEntries_sound {entries : List (DecodedEntry J.Value)} (instanceId : Bytes) (now : Rat)
    (h : Sound J keys s) (hkeys : ∀ entry ∈ entries, JsString.ofCodePoints entry.key ∉ keys) :
    Sound J keys { s with entries := entries.foldl (applyEntry instanceId now) s.entries } := by
  induction entries generalizing s with
  | nil => exact h
  | cons incoming entries ih =>
    have hrest := fun entry hentry => hkeys entry (mem_cons_of_mem incoming hentry)
    have hforeign := hkeys incoming mem_cons_self
    have hfirst : Sound J keys { s with entries := applyEntry instanceId now s.entries incoming } := by
      cases hincoming : incomingEntry instanceId now
          (OrderedMap.get s.entries (JsString.ofCodePoints incoming.key)) incoming with
      | none =>
        simp only [applyEntry, hincoming]
        exact h
      | some entry =>
        simp only [applyEntry, hincoming]
        have hremote : entry.isLocal = false := by
          unfold incomingEntry at hincoming
          split at hincoming
          · cases hincoming
          split at hincoming
          · cases hincoming
            rfl
          split at hincoming
          · cases hincoming
          · cases hincoming
            rfl
        refine h.write _ entry ⟨fun hkey => absurd hkey hforeign, fun hlocal => ?_⟩ (fun hlocal => ?_) fun hlocal => ?_
        all_goals
          rw [hremote] at hlocal
          cases hlocal
    exact ih hfirst hrest

theorem apply_sound (h : Sound J keys s) {bytes : Bytes}
    (hkeys : ∀ frame, Decodes J bytes frame → ∀ key ∈ frame.keys, key ∉ keys) :
    Sound J keys (apply J s bytes now) ∧ Publishes J keys s (apply J s bytes now) := by
  have hsame : Sound J keys s ∧ Publishes J keys s s := ⟨h, publishes_nothing rfl⟩
  unfold apply
  split
  · exact hsame
  split
  · exact hsame
  next frame hframe =>
  unfold applyFrame
  split
  · exact hsame
  have hentries := applyEntries_sound frame.instanceId now h fun entry hentry =>
    hkeys frame hframe _ (mem_map_of_mem hentry)
  exact ⟨hentries.with_entries rfl rfl rfl rfl rfl, publishes_nothing rfl⟩

theorem sweep_sound (h : Sound J keys s) (hfresh : s.Fresh keys now) :
    Sound J keys (s.sweep now) ∧ Publishes J keys s (s.sweep now) := by
  obtain ⟨ho, hl⟩ := h
  have hentry : ∀ key e, (s.sweep now).entry key = some e → s.entry key = some e := by
    intro key e he
    have hfilter : (s.sweep now).entry key = (s.entry key).filter fun e => now - e.receivedAt ≤ s.ttlMs :=
      OrderedMap.get_filter ho.nodup _
    rw [hfilter, Option.filter_eq_some_iff] at he
    exact he.1
  have hkept : ∀ key ∈ s.localKeys, key ∈ (s.sweep now).localKeys := by
    intro key hkey
    obtain ⟨e, he, hlocal, hmem, -⟩ := ho.local_entry hkey
    refine (OrderedMap.mem_picked ((List.filter_sublist.map _).nodup ho.nodup)).mpr ⟨e, ?_, hlocal⟩
    rw [OrderedMap.get_filter ho.nodup, Option.filter_eq_some_iff]
    exact ⟨he, decide_eq_true (hfresh key hmem e he)⟩
  have hcount : (s.sweep now).localKeys.length ≤ s.localKeys.length := by
    have hsublist : (s.sweep now).entries.Sublist s.entries := filter_sublist
    exact ((hsublist.filter _).map _).length_le
  have howner : Owner J keys (s.sweep now) :=
    ⟨ho.running, (List.filter_sublist.map _).nodup ho.nodup, fun key e he => ho.own key e (hentry key e he),
      fun key e he => ho.made key e (hentry key e he), hcount.trans ho.count⟩
  exact ⟨⟨howner, hl.mono rfl rfl (Nat.le_refl _) hl.sequence hkept⟩, publishes_nothing rfl⟩

theorem begin_entry {V : Type} (s : PresenceStore V) (instanceId : InstanceId) (key : JsString) :
    (s.beginConnectionLifecycle instanceId).entry key = (s.entry key).map (StoredEntry.renamed instanceId) :=
  OrderedMap.get_map (StoredEntry.renamed instanceId)

theorem begin_keys {V : Type} (s : PresenceStore V) (instanceId : InstanceId) :
    (s.beginConnectionLifecycle instanceId).entries.map (·.1) = s.entries.map (·.1) := by
  rw [beginConnectionLifecycle, map_map]
  rfl

theorem begin_sound (h : Sound J keys s) (instanceId : InstanceId) :
    Sound J keys (s.beginConnectionLifecycle instanceId) ∧
      Publishes J keys s (s.beginConnectionLifecycle instanceId) := by
  obtain ⟨ho, hl⟩ := h
  have hentry : ∀ key e, (s.beginConnectionLifecycle instanceId).entry key = some e →
      ∃ old, s.entry key = some old ∧ old.renamed instanceId = e := by
    intro key e he
    rw [begin_entry] at he
    exact Option.map_eq_some_iff.mp he
  have howner : Owner J keys (s.beginConnectionLifecycle instanceId) := by
    refine ⟨ho.running, ?_, fun key e he => ?_, fun key e he hown => ?_, ?_⟩
    · rw [begin_keys]
      exact ho.nodup
    · obtain ⟨old, hold, rfl⟩ := hentry key e he
      rw [(old.renamed_spec instanceId).1]
      exact ho.own key old hold
    · obtain ⟨old, hold, rfl⟩ := hentry key e he
      obtain ⟨hlocal, hdeleted, hvalue⟩ := old.renamed_spec instanceId
      rw [hlocal] at hown
      obtain ⟨hkey, hstored⟩ := ho.made key old hold hown
      refine ⟨hkey, fun hlive => ?_⟩
      rw [hdeleted] at hlive
      rw [hvalue]
      exact hstored hlive
    · have hkeys : (s.beginConnectionLifecycle instanceId).localKeys = s.localKeys :=
        OrderedMap.picked_map (f := StoredEntry.renamed instanceId) fun e => (e.renamed_spec instanceId).1
      rw [hkeys]
      exact ho.count
  refine ⟨⟨howner, ⟨Nat.succ_pos _, ?_, List.Pairwise.nil⟩⟩, ?_⟩
  · intro bytes hbytes
    cases hbytes
  · intro bytes hbytes
    exact absurd (congrArg List.length hbytes) (by simp [beginConnectionLifecycle])

theorem sends_sound (hJ : Lawful J) (hsafe : ∀ key ∈ keys, Readable key) (h : Sound J keys s)
    {e : StoreEvent J.Source} (he : Sends J keys s e) :
    Sound J keys (step J s e) ∧ Publishes J keys s (step J s e) := by
  cases e with
  | set key value now sent => exact set_sound hJ hsafe h he value now sent
  | delete key now sent => exact delete_sound hsafe h he now sent
  | encodeAll now => exact publication_sound hsafe h
  | apply bytes now => exact apply_sound h he
  | sweep now => exact sweep_sound h he
  | beginConnectionLifecycle instanceId => exact begin_sound h instanceId
  | subscribeLocalUpdates listening => exact ⟨h.with_entries rfl rfl rfl rfl rfl, publishes_nothing rfl⟩
  | destroy => exact absurd he id

theorem create_sound (J : StoreJson) (keys : Set JsString) (ttlMs : Rat) (instanceId : InstanceId) :
    Sound J keys (create J.Value ttlMs instanceId) where
  owner := ⟨rfl, nodup_nil, fun _ _ he => (by cases he), fun _ _ he => (by cases he), Nat.zero_le _⟩
  lifecycle := ⟨Nat.succ_pos _, fun _ hbytes => (by cases hbytes), List.Pairwise.nil⟩

end

end PresenceStore

end Marks
