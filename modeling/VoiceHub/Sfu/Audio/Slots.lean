import Mathlib
import VoiceHub.Lib.Keyed
import VoiceHub.Sfu.Protocol

/-!
The audio slots of one voice peer, and how they are pointed at the room's tracks.

An `Arc<AudioTrack>` is known by its owner and a number that tells the tracks of one owner
apart. A slot stands for its m-line and its packet numbering too.
-/

namespace VoiceHub.Sfu.Audio

open VoiceHub.Lib

/-- Slots in the first offer. -/
def INITIAL_SLOTS : ℕ := 8

/-- Slots added at once when the pool runs out. -/
def SLOT_GROWTH : ℕ := 4

structure AudioTrack where
  id : ℕ
  owner : PeerId
  deriving DecidableEq

abbrev Tracks := Keyed AudioTrack.owner

structure Slot where
  streamId : String
  track : Option AudioTrack
  opened : Bool
  deriving DecidableEq

/-- Of the offer only that there is one. -/
structure SyncState where
  pending : Bool
  slots : List Slot
  deriving DecidableEq

/-- An entry of `audio-slots`. -/
structure AudioSlot where
  slot : String
  peerId : Option PeerId
  deriving DecidableEq

/-- What a voice peer is sent. -/
inductive Msg
  | peerLeft (id : PeerId)
  | audioSlots (slots : List AudioSlot)
  | offer
  | other
  deriving DecidableEq

/-! ### Pointing the slots at the tracks -/

/-- The tracks to be heard: all but our own. -/
def want (self : PeerId) (tracks : Tracks) : List AudioTrack :=
  tracks.values.filter fun t => t.owner ≠ self

/-- The tracks the slots carry. -/
def carried (slots : List Slot) : List AudioTrack := slots.filterMap Slot.track

/-- A slot is emptied when its track is no longer wanted. -/
def Slot.free (want : List AudioTrack) (s : Slot) : Slot :=
  { s with track := s.track.filter (· ∈ want) }

/-- The slots that are emptied, and of which track. -/
def freed (want : List AudioTrack) (slots : List Slot) : List (String × AudioTrack) :=
  slots.filterMap fun s => (s.track.filter (· ∉ want)).map (s.streamId, ·)

/-- The wanted tracks that no slot carries, by owner. -/
def fresh (want : List AudioTrack) (slots : List Slot) : List AudioTrack :=
  (want.filter (· ∉ carried slots)).insertionSort fun a b => a.owner ≤ b.owner

/-- Slots after new tracks went into them, which slot took which, and who is left over. -/
structure Given where
  slots : List Slot
  given : List (String × AudioTrack)
  left : List AudioTrack

/-- The empty slots take the new tracks in order. -/
def give : List Slot → List AudioTrack → Given
  | [], new => ⟨[], [], new⟩
  | s :: slots, [] => ⟨s :: slots, [], []⟩
  | s :: slots, t :: new =>
    match s.track with
    | some _ =>
      let g := give slots (t :: new)
      { g with slots := s :: g.slots }
    | none =>
      let g := give slots new
      { g with slots := { s with track := some t } :: g.slots,
               given := (s.streamId, t) :: g.given }

/-- What `reconcile` makes of the slots before it offers new ones. -/
structure Plan where
  slots : List Slot
  freed : List (String × AudioTrack)
  given : List (String × AudioTrack)
  left : List AudioTrack

def plan (self : PeerId) (tracks : Tracks) (slots : List Slot) : Plan :=
  let want := want self tracks
  let kept := slots.map (·.free want)
  let g := give kept (fresh want kept)
  ⟨g.slots, freed want slots, g.given, g.left⟩

namespace Plan

/-- (slot stream ID, owner peer ID or none when freed). -/
def assignments (p : Plan) : List AudioSlot :=
  p.freed.map (fun (s, _) => ⟨s, none⟩) ++ p.given.map fun (s, t) => ⟨s, some t.owner⟩

def waiting (p : Plan) : ℕ := p.left.length

def grow (p : Plan) : ℕ :=
  if p.slots.isEmpty then max INITIAL_SLOTS p.waiting
  else (p.waiting + (SLOT_GROWTH - 1)) / SLOT_GROWTH * SLOT_GROWTH

end Plan

def newSlot (i : ℕ) : Slot := ⟨"slot-" ++ toString i, none, false⟩

namespace SyncState

variable (st : SyncState)

/-- `n` slots go into the next offer, if `apply()` makes one. -/
def offer (applied : Bool) (n : ℕ) : SyncState :=
  if applied then ⟨true, st.slots ++ (List.range n).map fun i => newSlot (st.slots.length + i)⟩
  else { st with slots := st.slots.filter Slot.opened }

/-- The client's answer to a pending offer: the session took it, or did not. -/
def answered (ok : Bool) : SyncState where
  pending := false
  slots := if ok then st.slots.map ({ · with opened := true }) else st.slots.filter Slot.opened

end SyncState

/-! ### What a plan does -/

section Lemmas

variable {W new : List AudioTrack} {slots : List Slot} {self : PeerId} {tracks : Tracks}

lemma mem_want {t : AudioTrack} :
    t ∈ want self tracks ↔ tracks.get t.owner = some t ∧ t.owner ≠ self := by
  simp [want, tracks.mem_values]

lemma nodup_want : (want self tracks).Nodup := tracks.nodup_values.filter _

@[simp] lemma carried_nil : carried [] = [] := rfl

@[simp] lemma carried_cons (s : Slot) :
    carried (s :: slots) = s.track.toList ++ carried slots := by
  rw [carried, List.filterMap_cons]
  cases s.track <;> rfl

@[simp] lemma carried_append (l : List Slot) :
    carried (slots ++ l) = carried slots ++ carried l := List.filterMap_append ..

lemma carried_map {f : Slot → Slot} (h : ∀ s ∈ slots, (f s).track = s.track) :
    carried (slots.map f) = carried slots := by
  rw [carried, List.filterMap_map]
  exact List.filterMap_congr h

lemma carried_free : carried (slots.map (·.free W)) = (carried slots).filter (· ∈ W) := by
  induction slots with
  | nil => rfl
  | cons s slots ih =>
    rw [List.map_cons, carried_cons, carried_cons, ih, List.filter_append]
    congr 1
    cases h : s.track with
    | none => simp [Slot.free, h]
    | some t => by_cases ht : t ∈ W <;> simp [Slot.free, h, ht, Option.filter]

lemma freed_tracks : (freed W slots).map Prod.snd = (carried slots).filter (· ∉ W) := by
  induction slots with
  | nil => rfl
  | cons s slots ih =>
    rw [carried_cons, List.filter_append, ← ih, freed, List.filterMap_cons]
    cases h : s.track with
    | none => simp [freed]
    | some t => by_cases ht : t ∈ W <;> simp [ht, Option.filter, freed]

lemma give_cons_some {s : Slot} {u t : AudioTrack} (h : s.track = some u) :
    give (s :: slots) (t :: new) =
      { give slots (t :: new) with slots := s :: (give slots (t :: new)).slots } := by
  simp only [give, h]

lemma give_cons_none {s : Slot} {t : AudioTrack} (h : s.track = none) :
    give (s :: slots) (t :: new) =
      ⟨{ s with track := some t } :: (give slots new).slots,
        (s.streamId, t) :: (give slots new).given, (give slots new).left⟩ := by
  simp only [give, h]

lemma give_new : (give slots new).given.map Prod.snd ++ (give slots new).left = new := by
  induction slots generalizing new with
  | nil => rfl
  | cons s slots ih =>
    cases new with
    | nil => rfl
    | cons t new =>
      cases h : s.track with
      | some u => rw [give_cons_some h]; exact ih
      | none => rw [give_cons_none h]; exact congrArg (t :: ·) ih

lemma give_carried :
    (carried (give slots new).slots).Perm
      (carried slots ++ (give slots new).given.map Prod.snd) := by
  induction slots generalizing new with
  | nil => exact .refl _
  | cons s slots ih =>
    cases new with
    | nil => simp [give]
    | cons t new =>
      cases h : s.track with
      | some u =>
        rw [give_cons_some h, carried_cons, carried_cons, List.append_assoc]
        exact ih.append_left _
      | none =>
        rw [give_cons_none h, carried_cons, carried_cons, h]
        simp only [Option.toList_some, Option.toList_none, List.nil_append, List.map_cons,
          List.singleton_append]
        exact (ih.cons t).trans List.perm_middle.symm

lemma give_map {α : Type} {f : Slot → α} (hf : ∀ s t, f { s with track := t } = f s) :
    (give slots new).slots.map f = slots.map f := by
  induction slots generalizing new with
  | nil => rfl
  | cons s slots ih =>
    cases new with
    | nil => rfl
    | cons t new =>
      cases h : s.track with
      | some u => rw [give_cons_some h]; exact congrArg (f s :: ·) ih
      | none =>
        rw [give_cons_none h, List.map_cons, List.map_cons, hf s (some t), ih]

lemma plan_map {α : Type} {f : Slot → α} (hf : ∀ s t, f { s with track := t } = f s) :
    (plan self tracks slots).slots.map f = slots.map f := by
  rw [plan, give_map hf, List.map_map]
  exact List.map_congr_left fun s _ => hf s _

lemma plan_opened (h : ∀ s ∈ slots, s.opened = true) :
    ∀ s ∈ (plan self tracks slots).slots, s.opened = true := by
  intro s hs
  have hmem : s.opened ∈ (plan self tracks slots).slots.map Slot.opened := List.mem_map_of_mem hs
  rw [plan_map fun _ _ => rfl] at hmem
  obtain ⟨s', hs', he⟩ := List.mem_map.mp hmem
  rw [← he]
  exact h s' hs'

lemma plan_freed : (plan self tracks slots).freed.map Prod.snd =
    (carried slots).filter (· ∉ want self tracks) := freed_tracks

lemma mem_fresh {t : AudioTrack} : t ∈ fresh W slots ↔ t ∈ W ∧ t ∉ carried slots := by
  simp [fresh, List.mem_insertionSort]

lemma nodup_fresh (h : W.Nodup) : (fresh W slots).Nodup :=
  (List.perm_insertionSort _ _).nodup_iff.mpr (h.filter _)

lemma plan_new : (plan self tracks slots).given.map Prod.snd ++ (plan self tracks slots).left =
    fresh (want self tracks) (slots.map (·.free (want self tracks))) := give_new

lemma mem_plan_new {t : AudioTrack} :
    t ∈ (plan self tracks slots).given.map Prod.snd ++ (plan self tracks slots).left ↔
      t ∈ want self tracks ∧ t ∉ carried slots := by
  rw [plan_new, mem_fresh, carried_free, List.mem_filter, decide_eq_true_eq]
  constructor
  · rintro ⟨ht, hn⟩
    exact ⟨ht, fun hc => hn ⟨hc, ht⟩⟩
  · rintro ⟨ht, hn⟩
    exact ⟨ht, fun hc => hn hc.1⟩

lemma plan_given {t : AudioTrack} (h : t ∈ (plan self tracks slots).given.map Prod.snd) :
    t ∈ want self tracks ∧ t ∉ carried slots := mem_plan_new.mp (List.mem_append_left _ h)

lemma plan_given_nodup : ((plan self tracks slots).given.map Prod.snd).Nodup := by
  have h := @nodup_fresh (want self tracks) (slots.map (·.free (want self tracks))) nodup_want
  rw [← plan_new] at h
  exact h.of_append_left

lemma plan_carried :
    (carried (plan self tracks slots).slots).Perm
      ((carried slots).filter (· ∈ want self tracks) ++
        (plan self tracks slots).given.map Prod.snd) := by
  rw [← carried_free]
  exact give_carried

lemma plan_settled (h : (plan self tracks slots).waiting = 0) {t : AudioTrack} :
    t ∈ carried (plan self tracks slots).slots ↔ t ∈ want self tracks := by
  rw [plan_carried.mem_iff, List.mem_append, List.mem_filter, decide_eq_true_eq]
  constructor
  · rintro (⟨-, ht⟩ | ht)
    · exact ht
    · exact (plan_given ht).1
  · intro ht
    by_cases hc : t ∈ carried slots
    · exact .inl ⟨hc, ht⟩
    · have hnew := mem_plan_new.mpr ⟨ht, hc⟩
      rw [List.eq_nil_of_length_eq_zero h, List.append_nil] at hnew
      exact .inr hnew

lemma Plan.waiting_of_grow {p : Plan} (h : p.grow = 0) : p.waiting = 0 := by
  unfold grow at h
  split at h
  · have := Nat.max_eq_zero_iff.mp h
    exact this.2
  · simp only [SLOT_GROWTH] at h
    omega

end Lemmas

end VoiceHub.Sfu.Audio
