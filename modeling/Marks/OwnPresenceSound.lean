import Marks.PresenceAgreeSound

/-! # A client's own presence

A live entry of the client's own gives way to every tombstone, and to a live entry under its own instance; to
nothing else. The room sends such a tombstone to the client it is about: the retirement of the connection it had
before. -/

namespace Marks

structure StoredEntry.Own {V : Type} (entry : StoredEntry V) : Prop where
  isLocal : entry.isLocal = true
  live : entry.deleted = false

namespace PresenceStore

section
variable {J : StoreJson} {V : Type} (instanceId : Bytes) (now : Rat)

def Passes (own instanceId : Bytes) (incoming : DecodedEntry V) : Prop :=
  incoming.deleted = false ∧ (incoming.age ≤ maxBootstrapAgeMs → instanceId ≠ own)

def KeepsOwn (s s' : PresenceStore V) : Prop :=
  ∀ key entry, s.entry key = some entry → entry.Own → s'.entry key = some entry

/-- Unless the store drops the frame whole, it has no tombstone for a live entry of the store's own, and no entry
under the store's instance for one. -/
def Spares (J : StoreJson) (s : PresenceStore J.Value) (bytes : Bytes) : Prop :=
  ∀ frame, s.destroyed = false → Decodes J bytes frame → s.greatest frame.instanceId < frame.sequence →
    ∀ incoming ∈ frame.entries, ∀ entry, s.entry (JsString.ofCodePoints incoming.key) = some entry →
      entry.Own → Passes s.instanceId.1 frame.instanceId incoming

theorem incomingEntry_remote {existing : Option (StoredEntry V)} {incoming : DecodedEntry V} {entry : StoredEntry V}
    (h : incomingEntry instanceId now existing incoming = some entry) : entry.isLocal = false := by
  unfold incomingEntry at h
  split at h
  · cases h
  split at h
  · cases h
    rfl
  split at h
  · cases h
  · cases h
    rfl

theorem entryAfter_remote {entry : StoredEntry V} (h : entry.isLocal = false) (incoming : DecodedEntry V) :
    ∃ later, entryAfter instanceId now (some entry) incoming = some later ∧ later.isLocal = false := by
  unfold entryAfter
  cases hincoming : incomingEntry instanceId now (some entry) incoming with
  | none => exact ⟨entry, rfl, h⟩
  | some later => exact ⟨later, rfl, incomingEntry_remote instanceId now hincoming⟩

theorem entryAfter_own {entry : StoredEntry V} (h : entry.Own) (incoming : DecodedEntry V) :
    Passes entry.instanceId instanceId incoming ∧ entryAfter instanceId now (some entry) incoming = some entry ∨
      ¬ Passes entry.instanceId instanceId incoming ∧
        ∃ later, entryAfter instanceId now (some entry) incoming = some later ∧ later.isLocal = false := by
  have hlive := h.live
  by_cases hdeleted : incoming.deleted = true
  · refine Or.inr ⟨fun hpasses => ?_, ?_⟩
    · rw [hpasses.1] at hdeleted
      cases hdeleted
    · simp [entryAfter, incomingEntry, hdeleted]
  · rw [Bool.not_eq_true] at hdeleted
    by_cases hage : maxBootstrapAgeMs < incoming.age
    · refine Or.inl ⟨⟨hdeleted, fun hle => absurd hage (Nat.not_lt.mpr hle)⟩, ?_⟩
      simp [entryAfter, incomingEntry, hdeleted, hage]
    by_cases hinstance : entry.instanceId = instanceId
    · refine Or.inr ⟨fun hpasses => hpasses.2 (Nat.not_lt.mp hage) hinstance.symm, ?_⟩
      simp [entryAfter, incomingEntry, hdeleted, hage, hinstance]
    · refine Or.inl ⟨⟨hdeleted, fun _ heq => hinstance heq.symm⟩, ?_⟩
      simp [entryAfter, incomingEntry, hdeleted, hlive, hinstance]

theorem entriesAfter_remote {entry : StoredEntry V} (h : entry.isLocal = false) (incoming : List (DecodedEntry V)) :
    ∃ later, incoming.foldl (entryAfter instanceId now) (some entry) = some later ∧ later.isLocal = false := by
  induction incoming generalizing entry with
  | nil => exact ⟨entry, rfl, h⟩
  | cons first incoming ih =>
    obtain ⟨later, hlater, hremote⟩ := entryAfter_remote instanceId now h first
    rw [List.foldl_cons, hlater]
    exact ih hremote

theorem entriesAfter_own {entry : StoredEntry V} (h : entry.Own) (incoming : List (DecodedEntry V)) :
    incoming.foldl (entryAfter instanceId now) (some entry) = some entry ↔
      ∀ other ∈ incoming, Passes entry.instanceId instanceId other := by
  induction incoming with
  | nil => exact ⟨fun _ other hother => absurd hother List.not_mem_nil, fun _ => rfl⟩
  | cons first incoming ih =>
    rw [List.foldl_cons, List.forall_mem_cons]
    rcases entryAfter_own instanceId now h first with ⟨hpasses, hsame⟩ | ⟨hnot, later, hlater, hremote⟩
    · rw [hsame, ih]
      exact ⟨fun hrest => ⟨hpasses, hrest⟩, fun hall => hall.2⟩
    rw [hlater]
    obtain ⟨last, hlast, hlocal⟩ := entriesAfter_remote instanceId now hremote incoming
    constructor
    · intro heq
      rw [hlast] at heq
      rw [Option.some.inj heq, h.isLocal] at hlocal
      cases hlocal
    · exact fun hall => absurd hall.1 hnot

theorem entriesAfter_local {existing : Option (StoredEntry V)} {entry : StoredEntry V}
    {incoming : List (DecodedEntry V)} (h : incoming.foldl (entryAfter instanceId now) existing = some entry)
    (hlocal : entry.isLocal = true) : existing = some entry := by
  induction incoming generalizing existing with
  | nil => exact h
  | cons first incoming ih =>
    have hfirst := ih h
    unfold entryAfter at hfirst
    split at hfirst
    · next other hincoming =>
      rw [← Option.some.inj hfirst, incomingEntry_remote instanceId now hincoming] at hlocal
      cases hlocal
    · exact hfirst

/-! ## Entries under the store's instance -/

structure Housed (s : PresenceStore V) : Prop where
  nodup : (s.entries.map (·.1)).Nodup
  under : ∀ key entry, s.entry key = some entry → entry.isLocal = true → entry.instanceId = s.instanceId.1

variable {s : PresenceStore J.Value}

theorem Housed.write (h : Housed s) (key : JsString) {entry : StoredEntry J.Value}
    (hentry : entry.instanceId = s.instanceId.1) (now : Rat) :
    Housed (emitLocal J { s with entries := OrderedMap.set s.entries key entry } now) := by
  obtain ⟨hentries, -, -, hinstance⟩ := emitLocal_entries { s with entries := OrderedMap.set s.entries key entry } now
  refine ⟨?_, fun other e he hlocal => ?_⟩
  · rw [hentries]
    exact OrderedMap.set_nodup h.nodup
  unfold PresenceStore.entry at he
  rw [hentries, OrderedMap.get_set] at he
  rw [hinstance]
  split at he
  · cases he
    exact hentry
  · exact h.under other e he hlocal

theorem step_housed (h : Housed s) (e : StoreEvent J.Source) : Housed (step J s e) := by
  have hnodup := step_nodup h.nodup e
  cases e with
  | set key value now sent =>
    show Housed (set J s key value now sent)
    unfold set
    repeat' split
    all_goals first | exact h | exact h.write key rfl sent
  | delete key now sent =>
    show Housed (delete J s key now sent)
    unfold delete
    repeat' split
    all_goals first | exact h | exact h.write key rfl sent
  | encodeAll now =>
    obtain ⟨hentries, -, -, hinstance⟩ := publication_entries s now
    refine ⟨hnodup, fun key entry he hlocal => ?_⟩
    have he : OrderedMap.get (publication J s s.localKeys now).entries key = some entry := he
    rw [hentries] at he
    exact (h.under key entry he hlocal).trans (congrArg Subtype.val hinstance.symm)
  | apply bytes now =>
    refine ⟨hnodup, fun key entry he hlocal => ?_⟩
    have happly : (apply J s bytes now).entry key = some entry := he
    have hinstance : (apply J s bytes now).instanceId = s.instanceId := by
      unfold apply applyFrame
      repeat' split
      all_goals rfl
    refine (h.under key entry ?_ hlocal).trans (congrArg Subtype.val hinstance.symm)
    unfold apply at happly
    split at happly
    · exact happly
    split at happly
    · exact happly
    next frame _ =>
    by_cases hold : frame.sequence ≤ s.greatest frame.instanceId
    · unfold applyFrame at happly
      rw [if_pos hold] at happly
      exact happly
    · rw [applyFrame_entry hold, get_applyEntries] at happly
      exact entriesAfter_local frame.instanceId now happly hlocal
  | sweep now =>
    refine ⟨hnodup, fun key entry he hlocal => ?_⟩
    have hfilter : (s.entry key).filter (fun e => now - e.receivedAt ≤ s.ttlMs) = some entry :=
      (OrderedMap.get_filter h.nodup _).symm.trans he
    exact h.under key entry (Option.filter_eq_some_iff.mp hfilter).1 hlocal
  | beginConnectionLifecycle instanceId =>
    refine ⟨hnodup, fun key entry he hlocal => ?_⟩
    have hmap : (s.entry key).map (StoredEntry.renamed instanceId) = some entry :=
      (begin_entry s instanceId key).symm.trans he
    obtain ⟨old, -, hrenamed⟩ := Option.map_eq_some_iff.mp hmap
    unfold StoredEntry.renamed at hrenamed
    split at hrenamed
    · rw [← hrenamed]
      rfl
    · next hnot =>
      rw [hrenamed] at hnot
      exact absurd hlocal hnot
  | subscribeLocalUpdates listening => exact ⟨hnodup, h.under⟩
  | destroy => exact ⟨hnodup, fun key entry he => by cases he⟩

theorem after_housed (J : StoreJson) (ttlMs : Rat) (instanceId : InstanceId) (es : List (StoreEvent J.Source)) :
    Housed (after J ttlMs instanceId es) := by
  have hstart : Housed (create J.Value ttlMs instanceId) := ⟨List.nodup_nil, fun key entry he => by cases he⟩
  exact Transition.run_inv (C := fun _ _ => True) (I := Housed) (fun _ e h _ => step_housed h e) hstart
    (Transition.along_of fun _ _ => trivial)

/-! ## Frames that come in -/

theorem applyFrame_keeps (h : Housed s) {frame : DecodedFrame J.Value}
    (hfresh : ¬ frame.sequence ≤ s.greatest frame.instanceId) (now : Rat) :
    KeepsOwn s (s.applyFrame frame now) ↔
      ∀ incoming ∈ frame.entries, ∀ entry, s.entry (JsString.ofCodePoints incoming.key) = some entry →
        entry.Own → Passes s.instanceId.1 frame.instanceId incoming := by
  have hkey : ∀ key entry, s.entry key = some entry → entry.Own →
      ((s.applyFrame frame now).entry key = some entry ↔
        ∀ incoming ∈ frame.entries, JsString.ofCodePoints incoming.key = key →
          Passes s.instanceId.1 frame.instanceId incoming) := by
    intro key entry hentry hown
    have hget : OrderedMap.get s.entries key = some entry := hentry
    rw [applyFrame_entry hfresh, get_applyEntries, hget, entriesAfter_own frame.instanceId now hown,
      h.under key entry hentry hown.isLocal]
    constructor
    · intro hall incoming hincoming heq
      exact hall incoming (List.mem_filter.mpr ⟨hincoming, beq_iff_eq.mpr heq⟩)
    · intro hall incoming hincoming
      obtain ⟨hmem, heq⟩ := List.mem_filter.mp hincoming
      exact hall incoming hmem (beq_iff_eq.mp heq)
  constructor
  · intro hkeeps incoming hincoming entry hentry hown
    exact (hkey _ entry hentry hown).mp (hkeeps _ entry hentry hown) incoming hincoming rfl
  · intro hall key entry hentry hown
    refine (hkey key entry hentry hown).mpr fun incoming hincoming heq => ?_
    exact hall incoming hincoming entry (heq ▸ hentry) hown

theorem apply_keeps (h : Housed s) (bytes : Bytes) (now : Rat) :
    KeepsOwn s (apply J s bytes now) ↔ Spares J s bytes := by
  have hrefl : KeepsOwn s s := fun _ _ hentry _ => hentry
  unfold apply Spares
  split
  · next hdestroyed =>
    refine ⟨fun _ frame hrunning => ?_, fun _ => hrefl⟩
    rw [hdestroyed] at hrunning
    cases hrunning
  next hrunning =>
  rw [Bool.not_eq_true] at hrunning
  split
  · next hnone =>
    refine ⟨fun _ frame _ hframe => ?_, fun _ => hrefl⟩
    rw [Decodes, hnone] at hframe
    cases hframe
  next frame hframe =>
  have honly : ∀ other, Decodes J bytes other → other = frame :=
    fun other hother => Option.some.inj (hother.symm.trans hframe)
  by_cases hold : frame.sequence ≤ s.greatest frame.instanceId
  · unfold applyFrame
    rw [if_pos hold]
    refine ⟨fun _ other _ hother hlater => ?_, fun _ => hrefl⟩
    rw [honly other hother] at hlater
    exact absurd hold (Nat.not_le.mpr hlater)
  · rw [applyFrame_keeps h hold]
    constructor
    · intro hall other _ hother _
      rw [honly other hother]
      exact hall
    · exact fun hall => hall frame hrunning hframe (Nat.not_le.mp hold)

/-- **A client's own presence.** In a run, whatever frames come in between whatever else the client does, its own live
entries stay through every frame exactly if every frame spares them. -/
theorem own_presence_survives (J : StoreJson) (ttlMs : Rat) (instanceId : InstanceId)
    (es : List (StoreEvent J.Source)) :
    (∀ earlier bytes now later, es = earlier ++ .apply bytes now :: later →
      KeepsOwn (after J ttlMs instanceId earlier) (after J ttlMs instanceId (earlier ++ [.apply bytes now]))) ↔
    ∀ earlier bytes now later, es = earlier ++ .apply bytes now :: later →
      Spares J (after J ttlMs instanceId earlier) bytes := by
  have hstep : ∀ earlier bytes now, after J ttlMs instanceId (earlier ++ [.apply bytes now]) =
      apply J (after J ttlMs instanceId earlier) bytes now := fun earlier bytes now => Transition.run_snoc _ _ _
  constructor
  · intro h earlier bytes now later heq
    have hkeeps := h earlier bytes now later heq
    rw [hstep] at hkeeps
    exact (apply_keeps (after_housed J ttlMs instanceId earlier) bytes now).mp hkeeps
  · intro h earlier bytes now later heq
    rw [hstep]
    exact (apply_keeps (after_housed J ttlMs instanceId earlier) bytes now).mpr (h earlier bytes now later heq)

end

/-! ## A reconnect -/

def ownCursor : JsString := [50, 45, 99, 109, 45, 115]

def reconnect : List (StoreEvent (Fin 10)) :=
  [.subscribeLocalUpdates true, .set ownCursor ⟨1, by decide⟩ 0 0, .beginConnectionLifecycle receiver,
    .set ownCursor ⟨2, by decide⟩ 5 5]

def lastPublished (calls : Nat) : Bytes :=
  ((after digitStore 30000 sender (reconnect.take calls)).published.getLast?).getD []

/-- The room, where the client has left and joined again. -/
def rejoined : PresenceRoom :=
  PresenceRoom.after PresenceRoom.digitJson
    [.join (PresenceRoom.guest 1 2) 1, .frame 0 (lastPublished 2) true [], .leave 0,
      .join (PresenceRoom.guest 1 2) 1, .frame 1 (lastPublished 4) true []]

def retirement : Bytes :=
  (((rejoined.out.filter fun relay => relay.source.isNone).map fun relay => encodePresence relay.frame).head?).getD []

/-- The client's new cursor is live, and the tombstone of its old one deletes it. -/
theorem reconnect_loses_cursor :
    rejoined.out.map (fun relay => (relay.source.isNone, relay.frame.instanceId)) =
      [(false, sender.1), (true, sender.1), (false, receiver.1)] ∧
    (rejoined.sockets.map (·.1)) = [1] ∧
    (after digitStore 30000 sender reconnect).held ownCursor = some (digit 2) ∧
    (after digitStore 30000 sender (reconnect ++ [.apply retirement 6])).held ownCursor = none ∧
    ¬ ∀ earlier bytes now later, reconnect ++ [.apply retirement 6] = earlier ++ .apply bytes now :: later →
      KeepsOwn (after digitStore 30000 sender earlier)
        (after digitStore 30000 sender (earlier ++ [.apply bytes now])) := by
  refine ⟨by decide +kernel, by decide +kernel, by decide +kernel, by decide +kernel, fun h => ?_⟩
  have hkeeps := h reconnect retirement 6 [] rfl
  have hbefore : (after digitStore 30000 sender reconnect).entry ownCursor =
      some ⟨some (digit 2), 5, receiver.1, false, true⟩ := by decide +kernel
  have hafter : (after digitStore 30000 sender (reconnect ++ [.apply retirement 6])).entry ownCursor ≠
      some ⟨some (digit 2), 5, receiver.1, false, true⟩ := by decide +kernel
  exact hafter (hkeeps ownCursor _ hbefore ⟨rfl, rfl⟩)

end PresenceStore

end Marks
