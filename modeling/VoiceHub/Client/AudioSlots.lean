import Mathlib
import VoiceHub.Lib.HashMap
import VoiceHub.Lib.Join

/-!
The client's end of the audio slots: whose voice each slot carries, and what arrives on it.

Owners come with `audio-slots` messages, media with `ontrack` events. Either can be first,
and the callbacks the client emits bind a peer to a stream as soon as both are known.
-/

namespace VoiceHub.Client.AudioSlots

open VoiceHub.Lib VoiceHub.Lib.Join

structure MediaStream where
  id : String
deriving DecidableEq, Repr

/-- The value of `slotMedia`. Nothing of a track is looked at here. -/
structure Media (T : Type) where
  track : T
  stream : MediaStream
deriving DecidableEq, Repr

/-- An entry of `audio-slots`. -/
structure AudioSlot where
  slot : String
  peerId : Option String
deriving DecidableEq, Repr

inductive Callback (T : Type)
  | onTrack (media : Media T) (peerId : String)
  | onTrackRemoved (peerId : String)
deriving DecidableEq, Repr

/-- What `createSFUClient` closes over, and the callbacks it has emitted, oldest first. -/
structure SFUClient (T : Type) where
  slotOwners : HashMap String (Option String)
  slotMedia : HashMap String (Media T)
  emitted : List (Callback T)

inductive Event (T : Type)
  | ontrack (track : T) (streams : List MediaStream)
  | audioSlots (slots : List AudioSlot)

/-- What `if (id)` lets through: neither `null` nor the empty string. -/
def truthy (id : Option String) : Option String := id.filter (· ≠ "")

namespace SFUClient

variable {T : Type}

/-- `setupAudioAndWS` clears both maps. -/
def setup : SFUClient T := ⟨∅, ∅, []⟩

def emit (c : SFUClient T) (e : Callback T) : SFUClient T :=
  { c with emitted := c.emitted ++ [e] }

def bindSlot (c : SFUClient T) (slot : String) : SFUClient T :=
  match truthy (c.slotOwners.lookup slot).join, c.slotMedia.lookup slot with
  | some peerId, some media => c.emit (.onTrack media peerId)
  | _, _ => c

/-- `slotOwners.set(slot, peerId)`. -/
def setOwner (c : SFUClient T) (slot : String) (peerId : Option String) : SFUClient T :=
  { c with slotOwners := c.slotOwners.insert slot peerId }

/-- `if (prev) on.onTrackRemoved?.({ peerId: prev })`. -/
def removed (c : SFUClient T) (prev : Option String) : SFUClient T :=
  match truthy prev with
  | some peerId => c.emit (.onTrackRemoved peerId)
  | none => c

/-- One pass of the loop of `assignSlots`. -/
def assignSlot (c : SFUClient T) (s : AudioSlot) : SFUClient T :=
  if (c.slotOwners.lookup s.slot).join = s.peerId then c
  else
    ((c.setOwner s.slot s.peerId).removed (c.slotOwners.lookup s.slot).join).bindSlot s.slot

def assignSlots (c : SFUClient T) (slots : List AudioSlot) : SFUClient T :=
  slots.foldl assignSlot c

def ontrack (c : SFUClient T) (track : T) (streams : List MediaStream) : SFUClient T :=
  match streams.head? with
  | none => c
  | some stream =>
    { c with slotMedia := c.slotMedia.insert stream.id ⟨track, stream⟩ }.bindSlot stream.id

def handle (c : SFUClient T) : Event T → SFUClient T
  | .ontrack track streams => c.ontrack track streams
  | .audioSlots slots => c.assignSlots slots

/-- The client once the events `es` have come. -/
def run (es : List (Event T)) : SFUClient T := es.foldl handle setup

end SFUClient

section Model

variable {T : Type}

/-- What the listener of the callbacks holds for each peer. -/
def listen (f : String → Option (Media T)) : Callback T → String → Option (Media T)
  | .onTrack media peerId => Function.update f peerId (some media)
  | .onTrackRemoved peerId => Function.update f peerId none

def bound (es : List (Callback T)) : String → Option (Media T) := es.foldl listen fun _ => none

/-! What the events themselves say, whatever the client makes of them. -/

/-- An entry gives its slot to a peer, or to none. -/
def assign (own : String → Option String) (s : AudioSlot) : String → Option String :=
  Function.update own s.slot (truthy s.peerId)

def owns (own : String → Option String) : Event T → String → Option String
  | .ontrack _ _ => own
  | .audioSlots slots => slots.foldl assign own

def arrives (f : String → Option (Media T)) : Event T → String → Option (Media T)
  | .ontrack track streams =>
    streams.head?.elim f fun stream => Function.update f stream.id (some ⟨track, stream⟩)
  | .audioSlots _ => f

/-- Who owns each slot, by the messages. -/
def ownerOf (es : List (Event T)) : String → Option String := es.foldl owns fun _ => none

/-- What has arrived on each slot. -/
def mediaOf (es : List (Event T)) : String → Option (Media T) := es.foldl arrives fun _ => none

/-- The server gives a slot only to a peer that owns no other. -/
def Fair (own : String → Option String) (s : AudioSlot) : Prop :=
  ∀ peerId, truthy s.peerId = some peerId → ∀ slot, own slot = some peerId → slot = s.slot

/-- Every entry of a message finds the slots as the entries before it have left them. -/
def FairSlots : (String → Option String) → List AudioSlot → Prop
  | _, [] => True
  | own, s :: slots => Fair own s ∧ FairSlots (assign own s) slots

def FairEvents : (String → Option String) → List (Event T) → Prop
  | _, [] => True
  | own, .ontrack _ _ :: es => FairEvents own es
  | own, .audioSlots slots :: es => FairSlots own slots ∧ FairEvents (slots.foldl assign own) es

end Model

section Lemmas

variable {T : Type} {c : SFUClient T} {slot peerId : String}

/-- Who owns the slot, as far as the client knows. -/
def owner (c : SFUClient T) (slot : String) : Option String :=
  truthy (c.slotOwners.lookup slot).join

@[simp] lemma emit_slotOwners (e : Callback T) : (c.emit e).slotOwners = c.slotOwners := rfl
@[simp] lemma emit_slotMedia (e : Callback T) : (c.emit e).slotMedia = c.slotMedia := rfl

lemma bound_emit (e : Callback T) : bound (c.emit e).emitted = listen (bound c.emitted) e := by
  simp [bound, SFUClient.emit]

lemma bindSlot_maps :
    (c.bindSlot slot).slotOwners = c.slotOwners ∧ (c.bindSlot slot).slotMedia = c.slotMedia := by
  unfold SFUClient.bindSlot
  split <;> exact ⟨rfl, rfl⟩

lemma bound_bindSlot : bound (c.bindSlot slot).emitted =
    match owner c slot, c.slotMedia.lookup slot with
    | some peerId, some media => Function.update (bound c.emitted) peerId (some media)
    | _, _ => bound c.emitted := by
  unfold SFUClient.bindSlot owner
  split
  · exact bound_emit _
  · rfl

end Lemmas

/-- What the callbacks have said is what the two maps say together. -/
structure Bound {T : Type} (c : SFUClient T) : Prop where
  single : Single (owner c)
  joins : Joins (owner c) c.slotMedia.lookup (bound c.emitted)

section Steps

variable {T : Type} {c : SFUClient T}

lemma setup_bound : Bound (SFUClient.setup : SFUClient T) where
  single := by
    intro k l p hk
    simp [owner, SFUClient.setup, truthy] at hk
  joins := by
    intro p m
    simp [owner, SFUClient.setup, truthy, bound]

lemma owner_setOwner (slot : String) (id : Option String) :
    owner (c.setOwner slot id) = Function.update (owner c) slot (truthy id) := by
  ext1 k
  rcases eq_or_ne k slot with rfl | hk
  · simp [owner, SFUClient.setOwner]
  · simp [owner, SFUClient.setOwner, hk]

lemma removed_maps (prev : Option String) :
    (c.removed prev).slotOwners = c.slotOwners ∧ (c.removed prev).slotMedia = c.slotMedia := by
  unfold SFUClient.removed
  split <;> exact ⟨rfl, rfl⟩

lemma bound_removed (prev : Option String) : bound (c.removed prev).emitted =
    match truthy prev with
    | some peerId => Function.update (bound c.emitted) peerId none
    | none => bound c.emitted := by
  unfold SFUClient.removed
  split
  · exact bound_emit _
  · rfl

lemma lookup_insert_media (slot : String) (media : Media T) :
    (c.slotMedia.insert slot media).lookup =
      Function.update c.slotMedia.lookup slot (some media) := by
  ext1 k
  rcases eq_or_ne k slot with rfl | hk
  · simp
  · simp [hk]

lemma owner_bindSlot (slot : String) : owner (c.bindSlot slot) = owner c := by
  unfold owner
  rw [(@bindSlot_maps T c slot).1]

/-- Binding a slot settles it, if everything else is settled. -/
lemma bindSlot_bound {slot : String} (hs : Single (owner c))
    (hj : Joins (Function.update (owner c) slot none) c.slotMedia.lookup (bound c.emitted)) :
    Bound (c.bindSlot slot) := by
  refine ⟨by rwa [owner_bindSlot], ?_⟩
  rw [owner_bindSlot, bindSlot_maps.2, bound_bindSlot]
  have hfree := Function.update_self slot none (owner c)
  cases ho : owner c slot with
  | none =>
    have : Function.update (owner c) slot none = owner c := by
      rw [← ho, Function.update_eq_self]
    rwa [this] at hj
  | some peerId =>
    have hback : Function.update (Function.update (owner c) slot none) slot (some peerId) =
        owner c := by
      rw [Function.update_idem, ← ho, Function.update_eq_self]
    have hother : ∀ l, Function.update (owner c) slot none l ≠ some peerId := by
      intro l hl
      rcases eq_or_ne l slot with rfl | hne
      · simp at hl
      · rw [Function.update_of_ne hne] at hl
        exact hne (hs l slot peerId hl ho)
    rw [← hback]
    cases hm : c.slotMedia.lookup slot with
    | none => exact hj.give_unknown hfree hm
    | some media => exact hj.give hfree hother hm

lemma Bound.freed (h : Bound c) (slot : String) (id : Option String) :
    Joins (Function.update (owner c) slot none) c.slotMedia.lookup
      (bound ((c.setOwner slot id).removed (c.slotOwners.lookup slot).join).emitted) := by
  rw [bound_removed]
  change Joins _ _ (match owner c slot with | some peerId => _ | none => _)
  cases ho : owner c slot with
  | none =>
    have : Function.update (owner c) slot none = owner c := by
      rw [← ho, Function.update_eq_self]
    rw [this]
    exact h.joins
  | some peerId => exact h.joins.free h.single ho

lemma owner_assignSlot (s : AudioSlot) : owner (c.assignSlot s) = assign (owner c) s := by
  unfold SFUClient.assignSlot
  split
  · next h =>
    have hsame : truthy s.peerId = owner c s.slot := by rw [← h, owner]
    rw [assign, hsame, Function.update_eq_self]
  · rw [owner_bindSlot, assign, ← owner_setOwner]
    unfold owner
    rw [(removed_maps _).1]

lemma owner_assignSlots (slots : List AudioSlot) :
    owner (c.assignSlots slots) = slots.foldl assign (owner c) := by
  induction slots generalizing c with
  | nil => rfl
  | cons s slots ih =>
    rw [List.foldl_cons, ← owner_assignSlot]
    exact ih

lemma media_assignSlots (slots : List AudioSlot) :
    (c.assignSlots slots).slotMedia = c.slotMedia := by
  induction slots generalizing c with
  | nil => rfl
  | cons s slots ih =>
    refine Eq.trans ih ?_
    unfold SFUClient.assignSlot
    split
    · rfl
    · rw [bindSlot_maps.2, (removed_maps _).2]
      rfl

lemma owner_handle (e : Event T) : owner (c.handle e) = owns (owner c) e := by
  cases e with
  | ontrack track streams =>
    change owner (c.ontrack track streams) = owner c
    unfold SFUClient.ontrack
    split
    · rfl
    · rw [owner_bindSlot]
      rfl
  | audioSlots slots => exact owner_assignSlots slots

lemma media_handle (e : Event T) :
    (c.handle e).slotMedia.lookup = arrives c.slotMedia.lookup e := by
  cases e with
  | ontrack track streams =>
    simp only [SFUClient.handle, SFUClient.ontrack, arrives]
    cases streams.head? with
    | none => rfl
    | some stream =>
      simp only [Option.elim_some, bindSlot_maps.2]
      exact lookup_insert_media ..
  | audioSlots slots =>
    simp only [SFUClient.handle, media_assignSlots]
    rfl

lemma Bound.assignSlot (h : Bound c) {s : AudioSlot} (hf : Fair (owner c) s) :
    Bound (c.assignSlot s) := by
  have hkeep := owner_assignSlot (c := c) s
  unfold SFUClient.assignSlot at hkeep ⊢
  split
  · exact h
  next hne =>
  rw [if_neg hne, owner_bindSlot] at hkeep
  refine bindSlot_bound ?_ ?_
  · -- the new owner has no other slot, so it has none once this one is freed
    rw [hkeep, assign, ← Function.update_idem (a := s.slot) none _ (owner c)]
    cases hid : truthy s.peerId with
    | none => exact (h.single.free s.slot).free s.slot
    | some peerId =>
      refine (h.single.free s.slot).give s.slot fun l hl => ?_
      rcases eq_or_ne l s.slot with rfl | hother
      · simp at hl
      · rw [Function.update_of_ne hother] at hl
        exact hother (hf peerId hid l hl)
  · rw [hkeep, assign, Function.update_idem, (removed_maps _).2]
    exact h.freed s.slot s.peerId

lemma Bound.assignSlots (h : Bound c) {slots : List AudioSlot}
    (hf : FairSlots (owner c) slots) : Bound (c.assignSlots slots) := by
  induction slots generalizing c with
  | nil => exact h
  | cons s slots ih =>
    refine ih (h.assignSlot hf.1) ?_
    rw [owner_assignSlot]
    exact hf.2

lemma Bound.ontrack (h : Bound c) (track : T) (streams : List MediaStream) :
    Bound (c.ontrack track streams) := by
  unfold SFUClient.ontrack
  split
  · exact h
  next stream _ =>
  refine ⟨by rw [owner_bindSlot]; exact h.single, ?_⟩
  rw [owner_bindSlot, bindSlot_maps.2, bound_bindSlot]
  change Joins (owner c) (c.slotMedia.insert stream.id ⟨track, stream⟩).lookup
    (match owner c stream.id, (c.slotMedia.insert stream.id ⟨track, stream⟩).lookup stream.id with
      | some peerId, some media => Function.update (bound c.emitted) peerId (some media)
      | _, _ => bound c.emitted)
  rw [AList.lookup_insert, lookup_insert_media]
  cases ho : owner c stream.id with
  | none => exact h.joins.learn_unowned ho
  | some peerId => exact h.joins.learn h.single ho

/-- A run of events keeps what the callbacks say in step with what the events said. -/
theorem Bound.foldl (h : Bound c) {es : List (Event T)} (hf : FairEvents (owner c) es) :
    Bound (es.foldl SFUClient.handle c) ∧
      owner (es.foldl SFUClient.handle c) = es.foldl owns (owner c) ∧
      (es.foldl SFUClient.handle c).slotMedia.lookup = es.foldl arrives c.slotMedia.lookup := by
  induction es generalizing c with
  | nil => exact ⟨h, rfl, rfl⟩
  | cons e es ih =>
    have hb : Bound (c.handle e) ∧ FairEvents (owner (c.handle e)) es := by
      rw [owner_handle]
      cases e with
      | ontrack track streams => exact ⟨h.ontrack track streams, hf⟩
      | audioSlots slots => exact ⟨h.assignSlots hf.1, hf.2⟩
    rw [List.foldl_cons, List.foldl_cons, List.foldl_cons, ← owner_handle, ← media_handle]
    exact ih hb.1 hb.2

end Steps

/-- **Binding does not depend on the order.** Whatever events have come, as long as the server gave
slots only to peers without one, the callbacks so far bind a peer to the stream of the slot that the
messages gave it, if that has arrived, and to nothing else. -/
theorem bound_iff_owner {T : Type} {es : List (Event T)} (h : FairEvents (fun _ => none) es)
    (peerId : String) (media : Media T) :
    bound (SFUClient.run es).emitted peerId = some media ↔
      ∃ slot, ownerOf es slot = some peerId ∧ mediaOf es slot = some media := by
  have hnobody : owner (SFUClient.setup : SFUClient T) = fun _ => none := rfl
  have hsilent : (SFUClient.setup : SFUClient T).slotMedia.lookup = fun _ => none := rfl
  have hfair : FairEvents (owner (SFUClient.setup : SFUClient T)) es := by rwa [hnobody]
  obtain ⟨hb, ho, hm⟩ := setup_bound.foldl hfair
  rw [hnobody] at ho
  rw [hsilent] at hm
  rw [SFUClient.run, hb.joins peerId media, ho, hm]
  rfl

/-- `p`'s slot is handed on to `q` before its stream is known; then `p` gets another. -/
def handedOn : List (Event Unit) :=
  [.audioSlots [⟨"slot-0", some "p"⟩], .audioSlots [⟨"slot-0", none⟩, ⟨"slot-0", some "q"⟩],
    .ontrack () [⟨"slot-0"⟩], .ontrack () [⟨"slot-1"⟩], .audioSlots [⟨"slot-1", some "p"⟩]]

theorem bound_iff_owner_handedOn :
    bound (SFUClient.run handedOn).emitted "q" = some ⟨(), ⟨"slot-0"⟩⟩ ∧
      bound (SFUClient.run handedOn).emitted "p" = some ⟨(), ⟨"slot-1"⟩⟩ := by
  have hf : FairEvents (fun _ => none) handedOn := by
    simp [FairEvents, FairSlots, Fair, handedOn, assign, truthy, Function.update_apply]
  exact ⟨(bound_iff_owner hf "q" _).mpr ⟨"slot-0", by decide, by decide⟩,
    (bound_iff_owner hf "p" _).mpr ⟨"slot-1", by decide, by decide⟩⟩

end VoiceHub.Client.AudioSlots
