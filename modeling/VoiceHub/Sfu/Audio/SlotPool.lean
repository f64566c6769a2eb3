import Mathlib
import VoiceHub.Lib.Machine
import VoiceHub.Sfu.Audio.Slots

/-!
One voice peer, its slots and what it was told of them.

The peer stays registered and open, and `apply()` yields an offer whenever slots were added.
The room's tracks change arbitrarily between its own steps. Slots in front are open and never
go; those behind them are in the pending offer, carry nothing, and go when it is refused.
-/

namespace VoiceHub.Sfu.Audio

open VoiceHub.Lib.Machine

/-- An audio peer by its sync lock's contents, the room's tracks, and the messages sent. -/
structure SlotPool where
  sync : SyncState
  tracks : Tracks
  log : List Msg

inductive PoolOp
  | tracks (tracks : Tracks)
  | sync
  | answer (ok : Bool)

namespace SlotPool

variable (self : PeerId)

def new : SlotPool := ⟨⟨false, []⟩, .empty, []⟩

/-- The slots are pointed at the room's tracks. -/
def assign (p : SlotPool) : SlotPool :=
  let plan := plan self p.tracks p.sync.slots
  { p with
    sync := { p.sync with slots := plan.slots }
    log := if plan.assignments = [] then p.log else p.log ++ [.audioSlots plan.assignments] }

/-- More slots are offered. -/
def offer (p : SlotPool) (n : ℕ) : SlotPool :=
  { p with sync := p.sync.offer true n, log := p.log ++ [.offer] }

def reconcile (p : SlotPool) : SlotPool :=
  let grow := (plan self p.tracks p.sync.slots).grow
  if grow = 0 then p.assign self else (p.assign self).offer grow

/-- Whether the step reconciles: a `sync` waits for the answer to an offer, and an answer is
ignored without one. -/
def reconciles (p : SlotPool) : PoolOp → Bool
  | .tracks _ => false
  | .sync => !p.sync.pending
  | .answer _ => p.sync.pending

def step (p : SlotPool) : PoolOp → Option SlotPool
  | .tracks tracks => some { p with tracks := tracks }
  | .sync => some (if p.sync.pending then p else p.reconcile self)
  | .answer ok =>
    some (if p.sync.pending then { p with sync := p.sync.answered ok }.reconcile self else p)

end SlotPool

/-! ### What the messages say -/

abbrev Owners := String → Option PeerId

namespace Owners

/-- One entry of `audio-slots`. -/
def assign (f : Owners) (e : AudioSlot) : Owners := Function.update f e.slot e.peerId

def told (f : Owners) : Msg → Owners
  | .audioSlots slots => slots.foldl assign f
  | _ => f

/-- All the messages, entry by entry. -/
def ofLog (log : List Msg) : Owners := log.foldl told fun _ => none

/-- The slot-to-owner map of the slots. -/
def ofSlots (slots : List Slot) : Owners := fun id =>
  ((slots.find? fun s => s.streamId = id).bind Slot.track).map AudioTrack.owner

variable {f : Owners} {slots : List Slot} {W new : List AudioTrack} {s : Slot} {id : String}

lemma ofLog_append (log : List Msg) (m : Msg) : ofLog (log ++ [m]) = (ofLog log).told m :=
  List.foldl_append ..

/-- `f` is right about the slots of a list. -/
def Right (f : Owners) (slots : List Slot) : Prop :=
  ∀ s ∈ slots, f s.streamId = s.track.map AudioTrack.owner

lemma ofSlots_right (h : (slots.map Slot.streamId).Nodup) : Right (ofSlots slots) slots := by
  intro s hs
  have hfind : (slots.find? fun s' => s'.streamId = s.streamId) = some s := by
    obtain ⟨s', hs'⟩ : ∃ s', (slots.find? fun s' => s'.streamId = s.streamId) = some s' := by
      rw [← Option.isSome_iff_exists, List.find?_isSome]
      exact ⟨s, hs, decide_eq_true rfl⟩
    have hid : s'.streamId = s.streamId := by simpa using List.find?_some hs'
    rw [hs', List.inj_on_of_nodup_map h (List.mem_of_find?_eq_some hs') hs hid]
  rw [ofSlots, hfind]
  rfl

lemma ofSlots_absent (h : id ∉ slots.map Slot.streamId) : ofSlots slots id = none := by
  have hfind : (slots.find? fun s => s.streamId = id) = none := by
    refine List.find?_eq_none.mpr fun s hs heq => h ?_
    exact of_decide_eq_true heq ▸ List.mem_map_of_mem hs
  rw [ofSlots, hfind]
  rfl

lemma eq_ofSlots (h : (slots.map Slot.streamId).Nodup) (hr : Right f slots)
    (ha : ∀ id ∉ slots.map Slot.streamId, f id = none) : f = ofSlots slots := by
  ext1 id
  by_cases hid : id ∈ slots.map Slot.streamId
  · obtain ⟨s, hs, rfl⟩ := List.mem_map.mp hid
    rw [hr s hs, ofSlots_right h s hs]
  · rw [ha id hid, ofSlots_absent hid]

lemma assign_of_ne {e : AudioSlot} (h : id ≠ e.slot) : f.assign e id = f id :=
  Function.update_of_ne h _ _

lemma foldl_assign_absent {entries : List AudioSlot} (h : id ∉ entries.map AudioSlot.slot) :
    entries.foldl assign f id = f id := by
  induction entries generalizing f with
  | nil => rfl
  | cons e entries ih =>
    obtain ⟨hne, hmem⟩ := not_or.mp (fun h' => h (List.mem_cons.mpr h'))
    exact (ih hmem).trans (assign_of_ne hne)

lemma foldl_assign {entries : List AudioSlot} (hn : (entries.map AudioSlot.slot).Nodup)
    {e : AudioSlot} (he : e ∈ entries) : entries.foldl assign f e.slot = e.peerId := by
  induction entries generalizing f with
  | nil => cases he
  | cons e' entries ih =>
    obtain ⟨hmem, hn⟩ := List.nodup_cons.mp hn
    rcases List.mem_cons.mp he with rfl | he
    · exact (foldl_assign_absent hmem).trans (Function.update_self ..)
    · exact ih hn he

lemma Right.foldl {slots' : List Slot} {entries : List AudioSlot} (hr : Right f slots)
    (hn : (entries.map AudioSlot.slot).Nodup)
    (h : ∀ s ∈ slots', ⟨s.streamId, s.track.map AudioTrack.owner⟩ ∈ entries ∨
      s ∈ slots ∧ s.streamId ∉ entries.map AudioSlot.slot) :
    Right (entries.foldl assign f) slots' := by
  intro s hs
  rcases h s hs with he | ⟨hs, he⟩
  · exact foldl_assign hn he
  · exact (foldl_assign_absent he).trans (hr s hs)

lemma freed_sublist : ((freed W slots).map Prod.fst).Sublist (slots.map Slot.streamId) := by
  induction slots with
  | nil => exact .slnil
  | cons s slots ih =>
    rw [freed, List.filterMap_cons, ← freed]
    cases s.track.filter (· ∉ W) with
    | none => exact ih.cons _
    | some t => exact ih.cons_cons _

lemma mem_freed {t : AudioTrack} : (id, t) ∈ freed W slots ↔
    ∃ s ∈ slots, s.streamId = id ∧ s.track = some t ∧ t ∉ W := by
  simp only [freed, List.mem_filterMap, Option.map_eq_some_iff, Option.filter_eq_some_iff,
    decide_eq_true_eq, Prod.mk.injEq]
  constructor
  · rintro ⟨s, hs, u, ⟨hu, hW⟩, hid, rfl⟩
    exact ⟨s, hs, hid, hu, hW⟩
  · rintro ⟨s, hs, hid, ht, hW⟩
    exact ⟨s, hs, t, ⟨ht, hW⟩, hid, rfl⟩

lemma free_cases (hn : (slots.map Slot.streamId).Nodup) (hs : s ∈ slots.map (·.free W)) :
    s.track = none ∧ s.streamId ∈ (freed W slots).map Prod.fst ∨
      s ∈ slots ∧ s.streamId ∉ (freed W slots).map Prod.fst := by
  obtain ⟨s, hmem, rfl⟩ := List.mem_map.mp hs
  by_cases hkeep : ∃ t, s.track = some t ∧ t ∉ W
  · obtain ⟨t, ht, hW⟩ := hkeep
    left
    refine ⟨by simp [Slot.free, ht, hW, Option.filter], ?_⟩
    exact List.mem_map_of_mem (mem_freed.mpr ⟨s, hmem, rfl, ht, hW⟩)
  · right
    have hfilter : s.track.filter (· ∈ W) = s.track := by
      cases ht : s.track with
      | none => rfl
      | some t =>
        have hW : t ∈ W := by_contra fun hW => hkeep ⟨t, ht, hW⟩
        simp [hW, Option.filter]
    rw [Slot.free, hfilter]
    refine ⟨hmem, fun hid => hkeep ?_⟩
    obtain ⟨⟨id, t⟩, ht, hid⟩ := List.mem_map.mp hid
    obtain ⟨s', hs', rfl, ht, hW⟩ := mem_freed.mp ht
    obtain rfl := List.inj_on_of_nodup_map hn hs' hmem hid
    exact ⟨t, ht, hW⟩

lemma given_sublist :
    ((give slots new).given.map Prod.fst).Sublist (slots.map Slot.streamId) := by
  induction slots generalizing new with
  | nil => exact .slnil
  | cons s slots ih =>
    cases new with
    | nil => exact List.nil_sublist _
    | cons t new =>
      cases h : s.track with
      | some u =>
        rw [give_cons_some h]
        exact ih.cons _
      | none =>
        rw [give_cons_none h]
        exact ih.cons_cons _

lemma give_cases (hn : (slots.map Slot.streamId).Nodup) (hs : s ∈ (give slots new).slots) :
    (∃ t, s.track = some t ∧ (s.streamId, t) ∈ (give slots new).given) ∨
      s ∈ slots ∧ s.streamId ∉ (give slots new).given.map Prod.fst := by
  induction slots generalizing new with
  | nil => cases hs
  | cons s' slots ih =>
    obtain ⟨hid, hn⟩ := List.nodup_cons.mp hn
    cases new with
    | nil => exact .inr ⟨hs, List.not_mem_nil⟩
    | cons t new =>
      cases h : s'.track with
      | some u =>
        rw [give_cons_some h] at hs ⊢
        -- a slot in use is passed by
        rcases List.mem_cons.mp hs with rfl | hs
        · exact .inr ⟨List.mem_cons_self, fun hmem => hid (given_sublist.subset hmem)⟩
        · exact (ih hn hs).imp_right fun hs => ⟨List.mem_cons_of_mem _ hs.1, hs.2⟩
      | none =>
        rw [give_cons_none h] at hs ⊢
        -- a free slot takes the next track
        rcases List.mem_cons.mp hs with rfl | hs
        · exact .inl ⟨t, rfl, List.mem_cons_self⟩
        · rcases ih hn hs with ⟨u, hu, hmem⟩ | ⟨hs, hmem⟩
          · exact .inl ⟨u, hu, List.mem_cons_of_mem _ hmem⟩
          · refine .inr ⟨List.mem_cons_of_mem _ hs, fun h' => ?_⟩
            rcases List.mem_cons.mp h' with heq | h'
            · exact hid (List.mem_map.mpr ⟨s, hs, heq⟩)
            · exact hmem h'

/-- The entries of a plan turn the map of the slots into that of the slots it leaves. -/
lemma Right.plan {self : PeerId} {tracks : Tracks} (hn : (slots.map Slot.streamId).Nodup)
    (hr : Right f slots) :
    Right ((plan self tracks slots).assignments.foldl assign f) (plan self tracks slots).slots := by
  have hids : ((slots.map (·.free (want self tracks))).map Slot.streamId).Nodup := by
    rw [List.map_map]
    exact hn
  have hfreed : Right (((freed (want self tracks) slots).map fun x =>
      (⟨x.1, none⟩ : AudioSlot)).foldl assign f) (slots.map (·.free (want self tracks))) := by
    refine hr.foldl ?_ fun s hs => ?_
    · rw [List.map_map]
      exact freed_sublist.nodup hn
    · rw [List.map_map]
      refine (free_cases hn hs).imp_left ?_
      rintro ⟨ht, hmem⟩
      obtain ⟨x, hx, hid⟩ := List.mem_map.mp hmem
      rw [ht, ← hid]
      exact List.mem_map_of_mem hx
  rw [Plan.assignments, List.foldl_append]
  refine hfreed.foldl ?_ fun s hs => ?_
  · rw [List.map_map]
    exact given_sublist.nodup hids
  · rw [List.map_map]
    refine (give_cases hids hs).imp_left ?_
    rintro ⟨t, ht, hmem⟩
    rw [ht]
    exact List.mem_map_of_mem hmem

end Owners

/-! ### The numbering of the slots -/

/-- Slot `i` is `slot-i`. -/
def Numbered (slots : List Slot) : Prop :=
  slots.map Slot.streamId = (List.range slots.length).map fun i => (newSlot i).streamId

section Numbered

variable {slots front back : List Slot}

lemma streamId_newSlot_inj {i j : ℕ} (h : (newSlot i).streamId = (newSlot j).streamId) : i = j :=
  Nat.repr_inj.mp ((String.append_right_inj "slot-").mp h)

lemma Numbered.nodup (h : Numbered slots) : (slots.map Slot.streamId).Nodup := by
  rw [h]
  exact List.nodup_range.map fun _ _ => streamId_newSlot_inj

lemma Numbered.getElem (h : Numbered slots) {i : ℕ} {s : Slot} (hs : slots[i]? = some s) :
    s.streamId = "slot-" ++ toString i := by
  have hi : i < slots.length := (List.getElem?_eq_some_iff.mp hs).1
  have hid := congrArg (·[i]?) h
  simp only [List.getElem?_map, hs, List.getElem?_range hi, Option.map_some,
    Option.some.injEq] at hid
  exact hid

lemma Numbered.congr {slots' : List Slot} (h : Numbered slots)
    (hid : slots'.map Slot.streamId = slots.map Slot.streamId) : Numbered slots' := by
  have hlen := congrArg List.length hid
  rw [List.length_map, List.length_map] at hlen
  rw [Numbered, hid, hlen]
  exact h

lemma Numbered.of_append (h : Numbered (front ++ back)) : Numbered front := by
  have htake := congrArg (List.take front.length) h
  rw [List.map_append, List.take_left' (List.length_map _), ← List.map_take, List.take_range,
    List.length_append, min_eq_left (Nat.le_add_right _ _)] at htake
  exact htake

lemma Numbered.grow (h : Numbered slots) (n : ℕ) :
    Numbered (slots ++ (List.range n).map fun i => newSlot (slots.length + i)) := by
  rw [Numbered, List.map_append, h, List.length_append, List.length_map, List.length_range,
    List.range_add, List.map_append, List.map_map, List.map_map]
  rfl

end Numbered

/-! ### The invariant of the pool -/

namespace SlotPool

/-- What holds whenever the sync lock is free. -/
structure Pooled (peerId : PeerId) (p : SlotPool) : Prop where
  named : ∀ (i : ℕ) (s : Slot), p.sync.slots[i]? = some s → s.streamId = "slot-" ++ toString i
  opened : p.sync.pending = false → ∀ s ∈ p.sync.slots, s.opened = true
  assigned : ∀ s ∈ p.sync.slots, s.track.isSome → s.opened = true
  once : (carried p.sync.slots).Nodup
  others : ∀ t ∈ carried p.sync.slots, t.owner ≠ peerId
  announced : Owners.ofLog p.log = Owners.ofSlots p.sync.slots

/-- Open slots, and behind them those of the pending offer. -/
structure Kept (peerId : PeerId) (p : SlotPool) (front back : List Slot) : Prop where
  slots : p.sync.slots = front ++ back
  numbered : Numbered (front ++ back)
  opened : ∀ s ∈ front, s.opened = true
  offered : ∀ s ∈ back, s.opened = false ∧ s.track = none
  pending : p.sync.pending = false → back = []
  once : (carried front).Nodup
  others : ∀ t ∈ carried front, t.owner ≠ peerId
  right : Owners.Right (Owners.ofLog p.log) front
  absent : ∀ id ∉ front.map Slot.streamId, Owners.ofLog p.log id = none

variable {self : PeerId} {p p' : SlotPool} {front back : List Slot} {op : PoolOp}

lemma carried_offered (h : ∀ s ∈ back, s.opened = false ∧ s.track = none) :
    carried back = [] := List.filterMap_eq_nil_iff.mpr fun s hs => (h s hs).2

lemma Kept.carried_eq (h : Kept self p front back) :
    carried (front ++ back) = carried front := by
  rw [carried_append, carried_offered h.offered, List.append_nil]

lemma Kept.right_append (h : Kept self p front back) :
    Owners.Right (Owners.ofLog p.log) (front ++ back) := by
  intro s hs
  rcases List.mem_append.mp hs with hs | hs
  · exact h.right s hs
  · rw [(h.offered s hs).2]
    refine h.absent _ fun hmem => ?_
    have hnodup := h.numbered.nodup
    rw [List.map_append] at hnodup
    exact List.disjoint_of_nodup_append hnodup hmem (List.mem_map_of_mem hs)

lemma Kept.absent_append (h : Kept self p front back) {id : String}
    (hid : id ∉ (front ++ back).map Slot.streamId) : Owners.ofLog p.log id = none := by
  refine h.absent id fun hmem => hid ?_
  rw [List.map_append]
  exact List.mem_append_left _ hmem

lemma Kept.pooled (h : Kept self p front back) : Pooled self p := by
  refine ⟨fun i s hs => ?_, fun hp s hs => ?_, fun s hs ht => ?_, ?_, ?_, ?_⟩
  · rw [h.slots] at hs
    exact h.numbered.getElem hs
  · rw [h.slots, h.pending hp, List.append_nil] at hs
    exact h.opened s hs
  · rw [h.slots] at hs
    rcases List.mem_append.mp hs with hs | hs
    · exact h.opened s hs
    · rw [(h.offered s hs).2] at ht
      cases ht
  · rw [h.slots, h.carried_eq]
    exact h.once
  · rw [h.slots, h.carried_eq]
    exact h.others
  · rw [h.slots]
    exact Owners.eq_ofSlots h.numbered.nodup h.right_append fun id hid => h.absent_append hid

lemma assigned_slot {tracks : Tracks} {slots : List Slot} {e : AudioSlot}
    (he : e ∈ (plan self tracks slots).assignments) : e.slot ∈ slots.map Slot.streamId := by
  rcases List.mem_append.mp he with he | he
  · obtain ⟨x, hx, rfl⟩ := List.mem_map.mp he
    exact Owners.freed_sublist.subset (List.mem_map_of_mem hx)
  · obtain ⟨x, hx, rfl⟩ := List.mem_map.mp he
    have hmem := Owners.given_sublist.subset (List.mem_map_of_mem (f := Prod.fst) hx)
    rw [List.map_map] at hmem
    exact hmem

lemma Kept.assign (h : Kept self p front []) :
    Kept self (p.assign self) (p.assign self).sync.slots [] := by
  have hslots : p.sync.slots = front := h.slots.trans (List.append_nil _)
  obtain rfl := hslots
  have hids : (p.assign self).sync.slots.map Slot.streamId = p.sync.slots.map Slot.streamId :=
    plan_map fun _ _ => rfl
  have hlog : Owners.ofLog (p.assign self).log =
      (plan self p.tracks p.sync.slots).assignments.foldl Owners.assign (Owners.ofLog p.log) := by
    simp only [SlotPool.assign]
    split_ifs with ha
    · rw [ha]
      rfl
    · exact Owners.ofLog_append _ _
  have hcarried : (carried (p.assign self).sync.slots).Perm
      ((carried p.sync.slots).filter (· ∈ want self p.tracks) ++
        (plan self p.tracks p.sync.slots).given.map Prod.snd) := plan_carried
  have hnumbered : Numbered p.sync.slots := h.numbered.of_append
  refine ⟨(List.append_nil _).symm, ?_, plan_opened h.opened, fun s hs => (by cases hs),
    fun _ => rfl, ?_, fun t ht => ?_, ?_, fun id hid => ?_⟩
  · rw [List.append_nil]
    exact hnumbered.congr hids
  · -- what is given was in no slot before
    refine hcarried.nodup_iff.mpr (List.Nodup.append (h.once.filter _) plan_given_nodup ?_)
    intro t ht hgiven
    exact (plan_given hgiven).2 (List.mem_of_mem_filter ht)
  · rcases List.mem_append.mp (hcarried.mem_iff.mp ht) with ht | ht
    · exact h.others t (List.mem_of_mem_filter ht)
    · exact (mem_want.mp (plan_given ht).1).2
  · rw [hlog]
    exact h.right.plan hnumbered.nodup
  · -- no entry names a slot that is not there
    rw [hids] at hid
    rw [hlog, Owners.foldl_assign_absent, h.absent id hid]
    intro hmem
    obtain ⟨e, he, rfl⟩ := List.mem_map.mp hmem
    exact hid (assigned_slot he)

lemma Kept.offer (h : Kept self p front []) (n : ℕ) :
    Kept self (p.offer n) front ((List.range n).map fun i => newSlot (front.length + i)) := by
  have hslots : p.sync.slots = front := h.slots.trans (List.append_nil _)
  obtain rfl := hslots
  have hlog : Owners.ofLog (p.offer n).log = Owners.ofLog p.log := Owners.ofLog_append _ _
  refine ⟨rfl, h.numbered.of_append.grow n, h.opened, fun s hs => ?_, fun hp => (by cases hp),
    h.once, h.others, hlog ▸ h.right, hlog ▸ h.absent⟩
  obtain ⟨i, -, rfl⟩ := List.mem_map.mp hs
  exact ⟨rfl, rfl⟩

lemma Kept.answered (h : Kept self p front back) (ok : Bool) :
    ∃ front', Kept self { p with sync := p.sync.answered ok } front' [] := by
  -- the offer's slots open
  cases ok with
  | true =>
    have hids : (p.sync.slots.map ({ · with opened := true })).map Slot.streamId =
        (front ++ back).map Slot.streamId := by
      rw [h.slots, List.map_map]
      rfl
    have hcarried : carried (p.sync.slots.map ({ · with opened := true })) =
        carried front := by
      rw [h.slots, carried_map (f := ({ · with opened := true })) fun _ _ => rfl, h.carried_eq]
    refine ⟨p.sync.slots.map ({ · with opened := true }), (List.append_nil _).symm, ?_,
      fun s hs => ?_, fun s hs => (by cases hs), fun _ => rfl, hcarried ▸ h.once,
      hcarried ▸ h.others, fun s hs => ?_, fun id hid => h.absent_append (hids ▸ hid)⟩
    · rw [List.append_nil]
      exact h.numbered.congr hids
    · obtain ⟨s, -, rfl⟩ := List.mem_map.mp hs
      rfl
    · obtain ⟨s, hmem, rfl⟩ := List.mem_map.mp hs
      exact h.right_append s (h.slots ▸ hmem)
  -- the offer's slots go
  | false =>
    have hfilter : p.sync.slots.filter Slot.opened = front := by
      rw [h.slots, List.filter_append, List.filter_eq_self.mpr h.opened,
        List.filter_eq_nil_iff.mpr, List.append_nil]
      intro s hs
      rw [(h.offered s hs).1]
      exact Bool.false_ne_true
    refine ⟨front, hfilter.trans (List.append_nil _).symm, ?_, h.opened, fun s hs => (by cases hs),
      fun _ => rfl, h.once, h.others, h.right, h.absent⟩
    rw [List.append_nil]
    exact h.numbered.of_append

lemma Kept.reconcile (h : Kept self p front []) :
    (∃ front' back', Kept self (p.reconcile self) front' back') ∧
      ((p.reconcile self).sync.pending = false →
        (carried (p.reconcile self).sync.slots).Perm (want self (p.reconcile self).tracks)) := by
  unfold SlotPool.reconcile
  dsimp only
  split_ifs with hgrow
  · refine ⟨⟨_, _, h.assign⟩, fun _ => ?_⟩
    refine (List.perm_ext_iff_of_nodup h.assign.once nodup_want).mpr fun t => ?_
    exact plan_settled (Plan.waiting_of_grow hgrow)
  · exact ⟨⟨_, _, h.assign.offer _⟩, fun hp => (by cases hp)⟩

lemma Kept.new : Kept self .new [] [] := by
  constructor <;> simp [SlotPool.new, Numbered, carried, Owners.Right, Owners.ofLog]

lemma Kept.step (h : Kept self p front back) (hs : p.step self op = some p') :
    (∃ front' back', Kept self p' front' back') ∧
      (p.reconciles op = true → p'.sync.pending = false →
        (carried p'.sync.slots).Perm (want self p'.tracks)) := by
  cases op with
  | tracks tracks =>
    obtain rfl := Option.some.inj hs
    refine ⟨⟨front, back, ?_⟩, fun hr => (by cases hr)⟩
    exact ⟨h.slots, h.numbered, h.opened, h.offered, h.pending, h.once, h.others, h.right,
      h.absent⟩
  | sync =>
    obtain rfl := Option.some.inj hs
    split_ifs with hp
    · -- an offer is under way, and the answer will see to it
      refine ⟨⟨front, back, h⟩, fun hr => ?_⟩
      rw [reconciles, hp] at hr
      cases hr
    · obtain rfl := h.pending (Bool.eq_false_of_not_eq_true hp)
      exact ⟨h.reconcile.1, fun _ => h.reconcile.2⟩
  | answer ok =>
    obtain rfl := Option.some.inj hs
    split_ifs with hp
    · obtain ⟨front', h'⟩ := h.answered ok
      exact ⟨h'.reconcile.1, fun _ => h'.reconcile.2⟩
    · exact ⟨⟨front, back, h⟩, fun hr => absurd hr hp⟩

/-- **The pool**: in every run its slots are numbered, only open slots carry tracks, no track
twice and none of the peer's own, and the messages name exactly who is in them; and a step
that reconciles without a new offer leaves exactly the wanted tracks in the slots. -/
theorem pool_kept (h : Reach (step self) free .new p) :
    Pooled self p ∧ ∀ op p', p.step self op = some p' → Pooled self p' ∧
      (p.reconciles op = true → p'.sync.pending = false →
        (carried p'.sync.slots).Perm (want self p'.tracks)) := by
  have hkept : ∃ front back, Kept self p front back :=
    Reach.invariant (I := fun p => ∃ front back, Kept self p front back) ⟨[], [], .new⟩
      (fun _ _ _ ⟨_, _, h⟩ _ hs => (h.step hs).1) h
  obtain ⟨front, back, hk⟩ := hkept
  refine ⟨hk.pooled, fun op p' hs => ?_⟩
  obtain ⟨⟨_, _, hk'⟩, hsettled⟩ := hk.step hs
  exact ⟨hk'.pooled, hsettled⟩

/-- The room's tracks, one of each peer. -/
def voices (peers : List PeerId) : Tracks :=
  peers.foldl (fun tracks peer => tracks.insert ⟨0, peer⟩) .empty

/-- The offer of the first slots is refused and made again; of two voices one leaves. -/
def settling : List PoolOp :=
  [.tracks (voices ["a", "b", "me"]), .sync, .answer false, .answer true,
    .tracks (voices ["b", "me"]), .sync]

theorem pool_kept_settling :
    ((run (step "me") .new settling).getD .new).log =
        [.offer, .offer, .audioSlots [⟨"slot-0", some "a"⟩, ⟨"slot-1", some "b"⟩],
          .audioSlots [⟨"slot-0", none⟩]] ∧
      Pooled "me" ((run (step "me") .new settling).getD .new) :=
  ⟨by decide +kernel, (pool_kept (Reach.of_isSome (meets_free _ _) (by decide +kernel))).1⟩

end SlotPool

end VoiceHub.Sfu.Audio
