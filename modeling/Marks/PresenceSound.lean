import Marks.Presence

/-! # Retired presence stays retired

A tombstone is one past the sequence of the lease it ends. That is past every sequence the room broadcast
for the instance as long as the lease has them all: no second connection published under the instance,
and a lease that was ended is replaced in the same step. -/

namespace Marks

open List

def Relay.retires (relay : Relay) : Bool := relay.source.isNone

namespace PresenceRoom

section
variable {α β : Type*} [DecidableEq α] [BEq α] [LawfulBEq α]

theorem lookup_filter (p : α → Bool) (l : List (α × β)) (a : α) :
    (l.filter fun entry => p entry.1).lookup a = if p a then l.lookup a else none := by
  induction l with
  | nil => simp
  | cons entry l ih =>
    obtain ⟨key, value⟩ := entry
    by_cases hkey : a = key
    · subst hkey
      by_cases hp : p a = true
      · simp [hp]
      · simp only [filter_cons, if_neg hp, ih]
    · have hne : (a == key) = false := by simpa using hkey
      by_cases hp : p key = true
      · simp only [filter_cons, hp, if_true, List.lookup_cons, hne, ih]
      · simp only [filter_cons, if_neg hp, List.lookup_cons, hne, ih]

theorem lookup_set (l : List (α × β)) (a : α) (value : β) (c : α) :
    (l.map fun entry => if entry.1 = a then (a, value) else entry).lookup c =
      if c = a then (l.lookup a).map fun _ => value else l.lookup c := by
  induction l with
  | nil => simp
  | cons entry l ih =>
    obtain ⟨key, old⟩ := entry
    by_cases hkey : key = a
    · subst hkey
      by_cases hc : c = key
      · subst hc
        simp
      · have hne : (c == key) = false := by simpa using hc
        simp only [map_cons, if_true, List.lookup_cons, hne, ih, if_neg hc]
    · by_cases hc : c = key
      · subst hc
        simp [if_neg hkey]
      · have hne : (c == key) = false := by simpa using hc
        have hne' : (a == key) = false := by simpa using Ne.symm hkey
        simp only [map_cons, if_neg hkey, List.lookup_cons, hne, hne', ih]

end

section
variable (J : PresenceJson) (room : PresenceRoom)

/-- A connection that publishes for the first time brings an instance the room has not broadcast, and one
that ends a lease has its own frame relayed. -/
def cleanTakeover : PresenceEvent → Bool
  | .frame conn payload allowed stalled =>
    match room.socket conn with
    | none => true
    | some socket =>
      match room.accepts J conn socket payload allowed with
      | none => true
      | some frame =>
        socket.presenceInstance.isSome ||
          (room.out.all (fun relay => relay.frame.instanceId != frame.instanceId) &&
            ((room.superseded (presenceOwner socket.actor) socket frame.instanceId).isNone ||
              (decide ((encodePresence frame).length ≤ maxEphemeralBytes) && !stalled.contains conn)))
  | _ => true

end

/-- What a relay says against an earlier one: a tombstone is past it, and a retired instance has no entry
but removals. -/
def Follows (earlier later : Relay) : Prop :=
  (later.retires = true → earlier.frame.instanceId = later.frame.instanceId →
      earlier.frame.sequence < later.frame.sequence) ∧
    (earlier.retires = true → later.frame.instanceId = earlier.frame.instanceId →
      ∀ entry ∈ later.frame.entries, entry.deleted = true)

def RetirementWins (room : PresenceRoom) : Prop := room.out.Pairwise Follows

variable {J : PresenceJson} {room : PresenceRoom}

/-! ## The parts of a frame -/

theorem socket_setSocket (conn : ConnId) (s : PresenceSocket) (c : ConnId) :
    (room.setSocket conn s).socket c = if c = conn then (room.socket conn).map fun _ => s else room.socket c :=
  lookup_set room.sockets conn s c

theorem socket_closeOne (conn c : ConnId) :
    (room.closeOne conn).socket c = if c = conn then none else room.socket c := by
  refine (lookup_filter (fun key => decide (key ≠ conn)) room.sockets c).trans ?_
  by_cases h : c = conn
  · simp [h]
  · simp [h, socket]

variable {conn : ConnId} {s : PresenceSocket} {frame : PresenceFrame}

variable {payload : Bytes} {allowed : Bool}

theorem accepts_spec
    (h : room.accepts J conn s payload allowed = some frame) :
    ∃ sent, decodePresence J payload = some sent ∧ frame.instanceId = sent.instanceId ∧
      frame.sequence = sent.sequence ∧ frame.instanceId ∉ room.retiredPresence ∧
      sent.sequence ≠ maxPresenceSequence ∧
      (∀ bound, s.presenceInstance = some bound → bound = frame.instanceId) ∧
      s.presenceSequence < frame.sequence ∧
      sent.entries.mapM (rewriteEntry J s.actor conn s.color) = some frame.entries := by
  simp only [accepts, Option.bind_eq_bind, Option.bind_eq_some_iff, Option.guard_eq_some'] at h
  obtain ⟨-, -, -, -, sent, hsent, -, ⟨hmax, hretired⟩, -, hbound, entries, hentries, hframe⟩ := h
  cases hframe
  simp only [not_or, Nat.not_le] at hbound
  refine ⟨sent, hsent, rfl, rfl, hretired, hmax, fun bound hb => ?_, hbound.2, hentries⟩
  by_contra hne
  exact hbound.1 (by simp [hb, hne])

/-! ## The invariant -/

structure Leased (out : List Relay) (retired : List Bytes) (lease : PresenceLease) : Prop where
  latest : ∀ relay ∈ out, relay.frame.instanceId = lease.instanceId → relay.frame.sequence ≤ lease.sequence
  relayed : ∃ relay ∈ out, relay.frame.instanceId = lease.instanceId
  active : lease.instanceId ∉ retired

structure Orderly (room : PresenceRoom) : Prop where
  leases : ∀ owner lease, room.activePresence.lookup owner = some lease →
    Leased room.out room.retiredPresence lease
  distinct : ∀ owner owner' lease lease', room.activePresence.lookup owner = some lease →
    room.activePresence.lookup owner' = some lease' → lease.instanceId = lease'.instanceId → owner = owner'
  bound : ∀ conn s instanceId, room.socket conn = some s → s.presenceInstance = some instanceId →
    ∃ lease, room.activePresence.lookup (presenceOwner s.actor) = some lease ∧ lease.conn = conn ∧
      lease.instanceId = instanceId ∧ lease.sequence = s.presenceSequence
  retired : ∀ relay ∈ room.out, relay.retires = true → relay.frame.instanceId ∈ room.retiredPresence
  wins : RetirementWins room

theorem Orderly.sockets {room' : PresenceRoom} (h : Orderly room) (ho : room'.out = room.out)
    (ha : room'.activePresence = room.activePresence) (hr : room'.retiredPresence = room.retiredPresence)
    (hs : ∀ conn s, room'.socket conn = some s → s.presenceInstance = none ∨ ∃ s₀, room.socket conn = some s₀ ∧
      s₀.presenceInstance = s.presenceInstance ∧ s₀.presenceSequence = s.presenceSequence ∧
        presenceOwner s₀.actor = presenceOwner s.actor) : Orderly room' where
  leases := by rw [ho, ha, hr]; exact h.leases
  distinct := by rw [ha]; exact h.distinct
  bound := by
    intro conn s instanceId hsocket hinst
    rcases hs conn s hsocket with hnone | ⟨s₀, hs₀, hi, hseq, howner⟩
    · rw [hnone] at hinst
      cases hinst
    · rw [ha, ← howner, ← hseq]
      exact h.bound conn s₀ instanceId hs₀ (hi.trans hinst)
  retired := by rw [ho, hr]; exact h.retired
  wins := by unfold RetirementWins; rw [ho]; exact h.wins

theorem join_orderly (h : Orderly room) (actor : RoomActor) (color : Nat) :
    Orderly (room.step J (.join actor color)) := by
  refine h.sockets rfl rfl rfl fun conn s hs => ?_
  simp only [step, socket, List.lookup_append] at hs
  cases hold : room.sockets.lookup conn with
  | some s₀ =>
    rw [hold, Option.some_or] at hs
    exact Or.inr ⟨s₀, hold, by rw [Option.some.inj hs]; exact ⟨rfl, rfl, rfl⟩⟩
  | none =>
    rw [hold, Option.none_or, List.lookup_cons] at hs
    split at hs
    · exact Or.inl (by rw [← Option.some.inj hs])
    · simp at hs

theorem leave_orderly (h : Orderly room) (conn : ConnId) : Orderly (room.step J (.leave conn)) := by
  refine h.sockets rfl rfl rfl fun c s hs => ?_
  rw [step, socket_closeOne] at hs
  split at hs
  · simp at hs
  · exact Or.inr ⟨s, hs, rfl, rfl, rfl⟩

theorem resolved_orderly (h : Orderly room) (conn : ConnId) (actor : RoomActor) :
    Orderly (room.step J (.resolved conn actor)) := by
  simp only [step]
  split
  · next s₀ hs₀ =>
    split
    · next hsite =>
      refine h.sockets rfl rfl rfl fun c s hs => ?_
      rw [socket_setSocket] at hs
      by_cases hc : c = conn
      · rw [if_pos hc, hs₀] at hs
        refine Or.inr ⟨s₀, hc ▸ hs₀, ?_⟩
        cases hs
        exact ⟨rfl, rfl, by simp only [presenceOwner, hsite]⟩
      · rw [if_neg hc] at hs
        exact Or.inr ⟨s, hs, rfl, rfl, rfl⟩
    · exact h
  · exact h

/-! ## Ending a lease -/

theorem retire_out (lease : PresenceLease) (stalled : List ConnId) :
    (room.retire lease stalled).out = room.out ++ [⟨none, tombstone lease⟩] ∧
      (room.retire lease stalled).activePresence = room.activePresence ∧
      (room.retire lease stalled).retiredPresence = room.retiredPresence ++ [lease.instanceId] := by
  unfold retire
  simp only []
  split
  · exact ⟨rfl, rfl, rfl⟩
  · exact ⟨rfl, rfl, rfl⟩

theorem broadcastTombstone_socket (lease : PresenceLease) (stalled : List ConnId) (c : ConnId) :
    (room.broadcastTombstone lease stalled).socket c =
      if c = lease.conn ∨ c ∉ stalled then room.socket c else none := by
  refine (lookup_filter (fun key => decide (key = lease.conn ∨ key ∉ stalled)) room.sockets c).trans ?_
  simp only [decide_eq_true_eq, socket]

theorem retire_socket (lease : PresenceLease) (stalled : List ConnId) (c : ConnId) :
    (room.retire lease stalled).socket c =
      if c = lease.conn then
        (room.socket c).map fun s => { s with presenceInstance := none, presenceKeys := [] }
      else if c ∈ stalled then none
      else room.socket c := by
  have hsame : ∀ c, ({ room with retiredPresence := room.retiredPresence ++ [lease.instanceId] } :
      PresenceRoom).socket c = room.socket c := fun _ => rfl
  unfold retire
  simp only []
  by_cases hc : c = lease.conn
  · subst hc
    have hat := @broadcastTombstone_socket { room with
      retiredPresence := room.retiredPresence ++ [lease.instanceId] } lease stalled lease.conn
    rw [if_pos (Or.inl rfl), hsame] at hat
    rw [if_pos rfl]
    split
    · next s hs =>
      rw [socket_setSocket, if_pos rfl, hs, ← hat, hs]
      rfl
    · next hs => rw [hs, ← hat, hs]; rfl
  · have hat := @broadcastTombstone_socket { room with
      retiredPresence := room.retiredPresence ++ [lease.instanceId] } lease stalled c
    rw [hsame] at hat
    have hcase : (if c = lease.conn ∨ c ∉ stalled then room.socket c else none) =
        if c ∈ stalled then none else room.socket c := by
      by_cases hstalled : c ∈ stalled
      · rw [if_pos hstalled, if_neg (by simp [hc, hstalled])]
      · rw [if_neg hstalled, if_pos (Or.inr hstalled)]
    rw [if_neg hc, ← hcase, ← hat]
    split
    · rw [socket_setSocket, if_neg hc]
    · rfl

/-! ## A published frame -/

theorem publish_spec (hs : room.socket conn = some s)
    (owner : PresenceKey) (frame : PresenceFrame) :
    ∃ keys, keys = frame.entries.foldl updatedKeys s.presenceKeys ∧
      (room.publish owner conn frame).activePresence.lookup owner =
        some ⟨conn, frame.instanceId, frame.sequence, keys⟩ ∧
      (∀ other, other ≠ owner →
        (room.publish owner conn frame).activePresence.lookup other = room.activePresence.lookup other) ∧
      (room.publish owner conn frame).out = room.out ∧
      (room.publish owner conn frame).retiredPresence = room.retiredPresence ∧
      ∀ c, (room.publish owner conn frame).socket c =
        if c = conn then some { s with
          presenceInstance := some frame.instanceId
          presenceSequence := frame.sequence
          presenceKeys := keys } else room.socket c := by
  refine ⟨frame.entries.foldl updatedKeys s.presenceKeys, rfl, ?_⟩
  have heq : room.publish owner conn frame = (room.setSocket conn { s with
      presenceInstance := some frame.instanceId
      presenceSequence := frame.sequence
      presenceKeys := frame.entries.foldl updatedKeys s.presenceKeys }).setLease owner
        ⟨conn, frame.instanceId, frame.sequence, frame.entries.foldl updatedKeys s.presenceKeys⟩ := by
    simp only [publish, hs]
  rw [heq]
  refine ⟨by simp [setLease], fun other hne => ?_, rfl, rfl, fun c => ?_⟩
  · have hne' : (other == owner) = false := by simpa using hne
    simp only [setLease, List.lookup_cons, hne']
    refine (lookup_filter (fun key => decide (key ≠ owner)) room.activePresence other).trans ?_
    rw [if_pos (by simpa using hne)]
  · refine (socket_setSocket conn _ c).trans ?_
    rw [hs]
    rfl

structure Ready (mid : PresenceRoom) (owner : PresenceKey) (conn : ConnId) (frame : PresenceFrame) : Prop where
  leases : ∀ other lease, other ≠ owner → mid.activePresence.lookup other = some lease →
    Leased mid.out mid.retiredPresence lease ∧ lease.instanceId ≠ frame.instanceId
  distinct : ∀ other other' lease lease', other ≠ owner → other' ≠ owner →
    mid.activePresence.lookup other = some lease → mid.activePresence.lookup other' = some lease' →
      lease.instanceId = lease'.instanceId → other = other'
  bound : ∀ c s instanceId, c ≠ conn → mid.socket c = some s → s.presenceInstance = some instanceId →
    presenceOwner s.actor ≠ owner ∧ ∃ lease, mid.activePresence.lookup (presenceOwner s.actor) = some lease ∧
      lease.conn = c ∧ lease.instanceId = instanceId ∧ lease.sequence = s.presenceSequence
  retired : ∀ relay ∈ mid.out, relay.retires = true → relay.frame.instanceId ∈ mid.retiredPresence
  wins : RetirementWins mid
  active : frame.instanceId ∉ mid.retiredPresence
  latest : ∀ relay ∈ mid.out, relay.frame.instanceId = frame.instanceId →
    relay.frame.sequence ≤ frame.sequence

theorem publish_orderly {mid : PresenceRoom}
    (h : Ready mid (presenceOwner s.actor) conn frame) (hs : mid.socket conn = some s)
    (source : ConnId × RoomActor × Nat × Bytes) :
    Orderly ((mid.publish (presenceOwner s.actor) conn frame).record ⟨some source, frame⟩) := by
  obtain ⟨keys, -, hown, hothers, hout, hretired, hsockets⟩ := publish_spec hs (presenceOwner s.actor) frame
  generalize mid.publish (presenceOwner s.actor) conn frame = next at hown hothers hout hretired hsockets
  have hmem : ∀ relay ∈ next.out ++ [⟨some source, frame⟩],
      relay ∈ mid.out ∨ relay = ⟨some source, frame⟩ := by
    intro relay hrelay
    rw [hout] at hrelay
    simpa using hrelay
  refine ⟨fun owner lease hlease => ?_, fun owner owner' lease lease' hl hl' heq => ?_,
    fun c s' instanceId hc hinst => ?_, fun relay hrelay hr => ?_, ?_⟩
  · by_cases howner : owner = presenceOwner s.actor
    · subst howner
      have hlease : _ = lease := Option.some.inj (hown.symm.trans hlease)
      rw [← hlease]
      refine ⟨fun relay hrelay heq => ?_, ⟨⟨some source, frame⟩, by simp [record], rfl⟩, ?_⟩
      · rcases hmem relay hrelay with hrelay | hrelay
        · exact h.latest relay hrelay heq
        · rw [hrelay]
      · exact hretired ▸ h.active
    · have hold : mid.activePresence.lookup owner = some lease := (hothers owner howner) ▸ hlease
      obtain ⟨hleased, hne⟩ := h.leases owner lease howner hold
      refine ⟨fun relay hrelay heq => ?_, ?_, hretired ▸ hleased.active⟩
      · rcases hmem relay hrelay with hrelay | hrelay
        · exact hleased.latest relay hrelay heq
        · rw [hrelay] at heq
          exact absurd heq.symm hne
      · obtain ⟨relay, hrelay, heq⟩ := hleased.relayed
        exact ⟨relay, by simp [record, hout, hrelay], heq⟩
  · by_cases howner : owner = presenceOwner s.actor <;> by_cases howner' : owner' = presenceOwner s.actor
    · exact howner.trans howner'.symm
    · have hold := (hothers owner' howner') ▸ hl'
      subst howner
      have hlease : _ = lease := Option.some.inj (hown.symm.trans hl)
      rw [← hlease] at heq
      exact absurd heq.symm (h.leases owner' lease' howner' hold).2
    · have hold := (hothers owner howner) ▸ hl
      subst howner'
      have hlease : _ = lease' := Option.some.inj (hown.symm.trans hl')
      rw [← hlease] at heq
      exact absurd heq (h.leases owner lease howner hold).2
    · exact h.distinct owner owner' lease lease' howner howner' ((hothers owner howner) ▸ hl)
        ((hothers owner' howner') ▸ hl') heq
  · have hc : next.socket c = some s' := hc
    rw [hsockets] at hc
    by_cases hconn : c = conn
    · rw [if_pos hconn] at hc
      rw [← Option.some.inj hc] at hinst ⊢
      refine ⟨⟨conn, frame.instanceId, frame.sequence, keys⟩, hown, hconn.symm, ?_, rfl⟩
      exact Option.some.inj hinst
    · rw [if_neg hconn] at hc
      obtain ⟨howner, lease, hlease, hrest⟩ := h.bound c s' instanceId hconn hc hinst
      exact ⟨lease, (hothers _ howner).trans hlease, hrest⟩
  · rcases hmem relay hrelay with hrelay | hrelay
    · exact hretired ▸ h.retired relay hrelay hr
    · rw [hrelay] at hr
      simp [Relay.retires] at hr
  · show (next.out ++ [(⟨some source, frame⟩ : Relay)]).Pairwise Follows
    rw [hout]
    refine pairwise_append.mpr ⟨h.wins, pairwise_singleton _ _, fun earlier he later hl => ?_⟩
    rw [mem_singleton.mp hl]
    refine ⟨fun hr => by simp [Relay.retires] at hr, fun hr heq => ?_⟩
    have hgone := h.retired earlier he hr
    rw [← heq] at hgone
    exact absurd hgone h.active

theorem retire_ready (h : Orderly room) {owner : PresenceKey} {old : PresenceLease}
    (hlookup : room.activePresence.lookup owner = some old)
    (hnew : ∀ other lease, room.activePresence.lookup other = some lease →
      lease.instanceId ≠ frame.instanceId)
    (hfresh : ∀ relay ∈ room.out, relay.frame.instanceId ≠ frame.instanceId)
    (hactive : frame.instanceId ∉ room.retiredPresence) (conn : ConnId) (stalled : List ConnId) :
    Ready (room.retire old stalled) owner conn frame := by
  obtain ⟨hout, hleases, hretired⟩ := @retire_out room old stalled
  have hold := h.leases owner old hlookup
  have hother : ∀ other lease, other ≠ owner → room.activePresence.lookup other = some lease →
      lease.instanceId ≠ old.instanceId :=
    fun other lease hne hlease heq => hne (h.distinct other owner lease old hlease hlookup heq)
  refine ⟨fun other lease hne hlease => ?_, fun other other' lease lease' _ _ hl hl' => ?_,
    fun c s instanceId hne hs hi => ?_, fun relay hrelay hr => ?_, ?_, ?_, fun relay hrelay heq => ?_⟩
  · rw [hleases] at hlease
    have hleased := h.leases other lease hlease
    refine ⟨⟨fun relay hrelay heq => ?_, ?_, ?_⟩, hnew other lease hlease⟩
    · rw [hout] at hrelay
      rcases mem_append.mp hrelay with hrelay | hrelay
      · exact hleased.latest relay hrelay heq
      · rw [mem_singleton.mp hrelay] at heq
        exact absurd heq.symm (hother other lease hne hlease)
    · obtain ⟨relay, hrelay, heq⟩ := hleased.relayed
      exact ⟨relay, by rw [hout]; exact mem_append_left _ hrelay, heq⟩
    · rw [hretired]
      simpa using ⟨hleased.active, hother other lease hne hlease⟩
  · rw [hleases] at hl hl'
    exact h.distinct other other' lease lease' hl hl'
  · rw [retire_socket] at hs
    split at hs
    · obtain ⟨s₀, -, heq⟩ := Option.map_eq_some_iff.mp hs
      rw [← heq] at hi
      simp at hi
    next hconn =>
    split at hs
    · simp at hs
    obtain ⟨lease, hlease, hlconn, hrest⟩ := h.bound c s instanceId hs hi
    refine ⟨fun howner => ?_, lease, hleases ▸ hlease, hlconn, hrest⟩
    rw [howner, hlookup] at hlease
    rw [← Option.some.inj hlease] at hlconn
    exact hconn hlconn.symm
  · rw [hout] at hrelay
    rw [hretired]
    rcases mem_append.mp hrelay with hrelay | hrelay
    · exact mem_append_left _ (h.retired relay hrelay hr)
    · rw [mem_singleton.mp hrelay]
      exact mem_append_right _ (mem_singleton.mpr rfl)
  · unfold RetirementWins
    rw [hout]
    refine pairwise_append.mpr ⟨h.wins, pairwise_singleton _ _, fun earlier he later hl => ?_⟩
    rw [mem_singleton.mp hl]
    refine ⟨fun _ heq => Nat.lt_succ_of_le (hold.latest earlier he heq), fun hr heq => ?_⟩
    have hgone := h.retired earlier he hr
    rw [← heq] at hgone
    exact absurd hgone hold.active
  · rw [hretired]
    simpa using ⟨hactive, Ne.symm (hnew owner old hlookup)⟩
  · rw [hout] at hrelay
    rcases mem_append.mp hrelay with hrelay | hrelay
    · exact absurd heq (hfresh relay hrelay)
    · rw [mem_singleton.mp hrelay] at heq
      exact absurd heq (hnew owner old hlookup)

theorem frame_orderly (h : Orderly room)
    {stalled : List ConnId} (hc : cleanTakeover J room (.frame conn payload allowed stalled) = true) :
    Orderly (room.clientPresence J conn payload allowed stalled) := by
  unfold clientPresence
  simp only [cleanTakeover] at hc
  split
  · exact h
  next s hs =>
  rw [hs] at hc
  simp only [] at hc
  split
  · exact h
  next frame haccepts =>
  rw [haccepts] at hc
  simp only [Bool.or_eq_true, Bool.and_eq_true, all_eq_true, bne_iff_ne, decide_eq_true_eq,
    Bool.not_eq_true', contains_eq_mem] at hc
  obtain ⟨sent, -, -, -, hactive, -, hbound, hseq, -⟩ := accepts_spec haccepts
  simp only []
  cases hinst : s.presenceInstance with
  | some X =>
    have hX : X = frame.instanceId := hbound X hinst
    obtain ⟨own, hown, hownconn, howninst, hownseq⟩ := h.bound conn s X hs hinst
    have hnone : room.superseded (presenceOwner s.actor) s frame.instanceId = none := by
      simp [superseded, hinst]
    rw [hnone]
    split
    · exact h
    refine publish_orderly ?_ hs _
    exact {
      leases := fun other lease hne hlease => ⟨h.leases other lease hlease, fun heq =>
        hne (h.distinct other _ lease own hlease hown (heq.trans (hX.symm.trans howninst.symm)))⟩
      distinct := fun other other' lease lease' _ _ => h.distinct other other' lease lease'
      bound := fun c s' instanceId hne hs' hi => by
        obtain ⟨lease, hlease, hlconn, hrest⟩ := h.bound c s' instanceId hs' hi
        refine ⟨fun howner => ?_, lease, hlease, hlconn, hrest⟩
        rw [howner, hown] at hlease
        rw [← Option.some.inj hlease] at hlconn
        exact hne (hlconn.symm.trans hownconn)
      retired := h.retired
      wins := h.wins
      active := hactive
      latest := fun relay hrelay heq => by
        have hle := (h.leases _ own hown).latest relay hrelay (heq.trans (hX.symm.trans howninst.symm))
        omega }
  | none =>
    obtain ⟨hfresh, htaken⟩ := hc.resolve_left (by simp [hinst])
    have hnew : ∀ other lease, room.activePresence.lookup other = some lease →
        lease.instanceId ≠ frame.instanceId := by
      intro other lease hlease heq
      obtain ⟨relay, hrelay, hri⟩ := (h.leases other lease hlease).relayed
      exact hfresh relay hrelay (hri.trans heq)
    cases hlookup : room.activePresence.lookup (presenceOwner s.actor) with
    | none =>
      have hnone : room.superseded (presenceOwner s.actor) s frame.instanceId = none := by
        simp [superseded, hinst, hlookup]
      rw [hnone]
      split
      · exact h
      refine publish_orderly ?_ hs _
      exact {
        leases := fun other lease _ hlease => ⟨h.leases other lease hlease, hnew other lease hlease⟩
        distinct := fun other other' lease lease' _ _ => h.distinct other other' lease lease'
        bound := fun c s' instanceId _ hs' hi => by
          obtain ⟨lease, hlease, hrest⟩ := h.bound c s' instanceId hs' hi
          refine ⟨fun howner => ?_, lease, hlease, hrest⟩
          rw [howner, hlookup] at hlease
          cases hlease
        retired := h.retired
        wins := h.wins
        active := hactive
        latest := fun relay hrelay heq => absurd heq (hfresh relay hrelay) }
    | some old =>
      have hsome : room.superseded (presenceOwner s.actor) s frame.instanceId = some old := by
        simp [superseded, hinst, hlookup, hnew _ old hlookup]
      rw [hsome]
      simp only [hsome, Option.isNone_some, Bool.false_eq_true, false_or] at htaken
      obtain ⟨hfits, htakes⟩ := htaken
      rw [if_neg (Nat.not_lt.mpr hfits)]
      have hat : ∃ s₁, (room.retire old stalled).socket conn = some s₁ ∧ s₁.actor = s.actor := by
        rw [retire_socket, hs]
        split
        · exact ⟨_, rfl, rfl⟩
        · exact ⟨s, by rw [if_neg (of_decide_eq_false htakes)], rfl⟩
      obtain ⟨s₁, hs₁, hactor⟩ := hat
      have hready := retire_ready h hlookup hnew hfresh hactive conn stalled
      simp only [← hactor] at hready ⊢
      exact publish_orderly hready hs₁ _

theorem step_orderly {e : PresenceEvent} (h : Orderly room) (hc : cleanTakeover J room e = true) :
    Orderly (room.step J e) := by
  cases e with
  | join actor color => exact join_orderly h actor color
  | leave conn => exact leave_orderly h conn
  | resolved conn actor => exact resolved_orderly h conn actor
  | frame conn payload allowed stalled => exact frame_orderly h hc

theorem init_orderly : Orderly init where
  leases := fun _ _ hlease => by cases hlease
  distinct := fun _ _ _ _ hlease => by cases hlease
  bound := fun _ _ _ hs => absurd hs (by simp [init, socket])
  retired := fun _ hrelay => by cases hrelay
  wins := List.Pairwise.nil

def CleanTakeovers (J : PresenceJson) (events : List PresenceEvent) : Prop :=
  Transition.Along (fun room e => step J room e) (fun room e => cleanTakeover J room e = true) init events

instance (J : PresenceJson) (events : List PresenceEvent) : Decidable (CleanTakeovers J events) :=
  Transition.decidableAlong _ _

/-- **Retirement.** -/
theorem retirement_wins (J : PresenceJson) (events : List PresenceEvent) (h : CleanTakeovers J events) :
    RetirementWins (after J events) :=
  (Transition.run_inv (I := Orderly) (fun _ _ hr he => step_orderly hr he) init_orderly h).wins

/-- JSON as far as one decimal digit. -/
def digitJson : PresenceJson where
  Value := Nat
  serdeAccepts := fun bytes => bytes.length == 1 && bytes.all fun b => 48 ≤ b && b ≤ 57
  parse := fun bytes =>
    match bytes with
    | [b] => if 48 ≤ b ∧ b ≤ 57 then some (b.toNat - 48) else none
    | _ => none
  userValue := fun _ _ color => [UInt8.ofNat (48 + color % 10)]

def guest (scratchId : ScratchId) (site : SiteId) : RoomActor := .scratch ⟨scratchId, site, 1⟩

def showing (conn : ConnId) (tag : UInt8) (sequence : Nat) : PresenceEvent :=
  .frame conn (encodePresence ⟨List.replicate 16 tag, sequence, [⟨"0-cm-sel".toList, false, 0, [49]⟩]⟩) true []

def reconnecting : List PresenceEvent :=
  [.join (guest 1 2) 1, .join (guest 2 3) 2, showing 0 7 5, .leave 0, .join (guest 1 2) 1, showing 2 8 1]

theorem reconnecting_wins : RetirementWins (after digitJson reconnecting) :=
  retirement_wins digitJson reconnecting (by decide +kernel)

def reusing : List PresenceEvent :=
  [.join (guest 1 2) 1, .join (guest 2 3) 2, showing 0 7 5, showing 1 7 9, .leave 0, .join (guest 1 2) 1,
    showing 2 8 1]

theorem reusing_not_wins : ¬ RetirementWins (after digitJson reusing) := by
  intro h
  have hout : (after digitJson reusing).out.map (fun relay => (relay.retires, relay.frame.instanceId,
      relay.frame.sequence)) = [(false, List.replicate 16 7, 5), (false, List.replicate 16 7, 9),
        (true, List.replicate 16 7, 6), (false, List.replicate 16 8, 1)] := by decide +kernel
  have htriples : ((after digitJson reusing).out.map (fun relay => (relay.retires, relay.frame.instanceId,
      relay.frame.sequence))).Pairwise (fun earlier later => later.1 = true → earlier.2.1 = later.2.1 →
        earlier.2.2 < later.2.2) :=
    pairwise_map.mpr (h.imp fun hf => hf.1)
  rw [hout] at htriples
  revert htriples
  decide

end PresenceRoom

end Marks
