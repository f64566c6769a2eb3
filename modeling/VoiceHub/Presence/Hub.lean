import Mathlib
import VoiceHub.Lib.HashMap
import VoiceHub.Lib.Machine
import VoiceHub.Sfu.Room.Deltas

/-!
Presence: the deltas of all rooms and their snapshots, as they reach the pages that subscribe.

A push goes to one subscriber after another while it has the hub locked. A subscriber that fell
behind gets a snapshot, which is read room by room.
-/

namespace VoiceHub.Presence

open VoiceHub.Lib
open VoiceHub.Sfu (PeerInfo)
open VoiceHub.Sfu.Room (Config Delta Shown deltas pendingDeltas)
open VoiceHub.Client (PeerSummary RoomPeers Frame parsePeer shown)

def OUT_BUF_LEN : ℕ := 8

abbrev SubId := ℕ

/-- A subscriber's queue, and what its page shows. -/
structure Subscriber (R : Type) where
  queue : List (Frame R)
  view : RoomPeers R

abbrev Snapshot (R : Type) := R → Option (List PeerInfo)

/-- What the hub is locked for. -/
inductive Job (R : Type)
  /-- the subscribers left, the one whose queue is locked, and the snapshot if one was needed -/
  | push (room : R) (seq : ℕ) (d : Delta) (todo : List SubId) (held : Option SubId)
    (snapshot : Snapshot R)
  | subscribe (snapshot : Snapshot R)

structure World (R : Type) where
  config : R → Config
  subs : HashMap SubId (Subscriber R)
  nextId : SubId
  hub : Option (Job R)

inductive Op (R : Type)
  | room (room : R) (l : VoiceHub.Sfu.Room.Label)
  | subscribe
  /-- the snapshot's next room -/
  | read (room : R) (ord : Order)
  /-- the new subscriber has its snapshot -/
  | register
  /-- the push comes to a subscriber -/
  | offer (id : SubId)
  /-- the backlog is dropped -/
  | resync
  /-- the push is over -/
  | pushed
  | unsubscribe (id : SubId)
  /-- `Subscriber::next`, and the page -/
  | next (id : SubId)

variable {R : Type} [DecidableEq R]

/-- The page's rooms before the first frame. -/
def emptyPeers : RoomPeers R := fun _ => []

namespace Snapshot

def none : Snapshot R := fun _ => .none

def frame (s : Snapshot R) : Frame R := .snapshot fun room => (s room).getD []

end Snapshot

namespace Job

/-- What has been read. -/
def snapshot : Job R → Snapshot R
  | push _ _ _ _ _ s | subscribe s => s

/-- A snapshot is being taken. -/
def Reads : Job R → Prop
  | push _ _ _ _ held _ => held.isSome
  | subscribe _ => True

instance : DecidablePred (@Reads R)
  | push _ _ _ _ held _ => inferInstanceAs (Decidable (held.isSome = true))
  | subscribe _ => inferInstanceAs (Decidable True)

def read (room : R) (infos : List PeerInfo) : Job R → Job R
  | push r seq d todo held s => push r seq d todo held (Function.update s room infos)
  | subscribe s => subscribe (Function.update s room infos)

/-- A subscriber whose queue is locked. -/
def held : Job R → Option SubId
  | push _ _ _ _ held _ => held
  | subscribe _ => .none

end Job

namespace World

/-- A step, with the rooms the server has. -/
def step (rooms : List R) (w : World R) : Op R → Option (World R)
  | .room room l =>
    if room ∈ rooms then
      match l.act (w.config room), w.hub with
      | some (.presence seq d), .none => (VoiceHub.Sfu.Room.step (w.config room) l).map fun c =>
        { w with
          config := Function.update w.config room c
          hub := some (.push room seq d w.subs.keys .none .none) }
      | some (.presence _ _), some _ => .none
      | _, _ => (VoiceHub.Sfu.Room.step (w.config room) l).map fun c =>
        { w with config := Function.update w.config room c }
    else .none
  | .subscribe =>
    match w.hub with
    | .none => some { w with hub := some (.subscribe .none) }
    | some _ => .none
  | .read room ord =>
    match w.hub with
    | some job =>
      if room ∈ rooms ∧ job.Reads ∧ (job.snapshot room).isNone then
        some { w with hub := some (job.read room ((w.config room).st.peerInfos ord)) }
      else .none
    | .none => .none
  | .register =>
    match w.hub with
    | some (.subscribe s) =>
      if ∀ room ∈ rooms, (s room).isSome then
        some { w with
          subs := AList.insert (w.nextId + 1) ⟨[s.frame], emptyPeers⟩ w.subs
          nextId := w.nextId + 1
          hub := .none }
      else .none
    | _ => .none
  | .offer id =>
    match w.hub, w.subs.lookup id with
    | some (.push room seq d todo .none s), some x =>
      if id ∈ todo then
        if x.queue.length < OUT_BUF_LEN then
          some { w with
            subs := AList.insert id { x with queue := x.queue ++ [.delta room d] } w.subs
            hub := some (.push room seq d (todo.erase id) .none s) }
        else some { w with hub := some (.push room seq d todo (some id) s) }
      else .none
    | _, _ => .none
  | .resync =>
    match w.hub with
    | some (.push room seq d todo (some id) s) =>
      match w.subs.lookup id with
      | some x =>
        if ∀ room ∈ rooms, (s room).isSome then
          some { w with
            subs := AList.insert id { x with queue := [s.frame] } w.subs
            hub := some (.push room seq d (todo.erase id) .none s) }
        else .none
      | .none => .none
    | _ => .none
  | .pushed =>
    match w.hub with
    | some (.push _ _ _ [] .none _) => some { w with hub := .none }
    | _ => .none
  | .unsubscribe id =>
    match w.hub with
    | .none => some { w with subs := AList.erase id w.subs }
    | some _ => .none
  | .next id =>
    if w.hub.bind Job.held = some id then .none
    else
      match w.subs.lookup id with
      | some ⟨f :: queue, view⟩ =>
        some { w with subs := AList.insert id ⟨queue, view.onFrame f⟩ w.subs }
      | _ => .none

/-- Nobody is there. -/
def init : World R := ⟨fun _ => VoiceHub.Sfu.Room.init, ∅, 0, .none⟩

end World

/-- A delta after which no other of its peer is pending is pushed only when the last one of those
before it has the peer shown the same. -/
def InOrder (w : World R) : Op R → Prop
  | .room room l => ∀ u ∈ (l.act (w.config room)).bind VoiceHub.Sfu.Room.Act.shows,
    u.Last ((pendingDeltas (w.config room)).erase u) →
      ∀ v ∈ (pendingDeltas (w.config room)).erase u, v.key = u.key →
        v.Last ((pendingDeltas (w.config room)).erase u) → v.value = u.value
  | _ => True

/-! ### What a subscriber is still to see -/

/-- The delta of the push, for the subscribers it has not come to. -/
def pushing (hub : Option (Job R)) (id : SubId) (r : R) : Multiset Shown :=
  match hub with
  | some (.push room seq d todo _ _) =>
    if room = r ∧ id ∈ todo then {⟨seq, d.subject, d.shows⟩} else 0
  | _ => 0

@[simp] lemma pushing_none (id : SubId) (r : R) : pushing none id r = 0 := rfl

@[simp] lemma pushing_subscribe (s : Snapshot R) (id : SubId) (r : R) :
    pushing (some (.subscribe s)) id r = 0 := rfl

/-- What the page shows once the queue is drained. -/
def Subscriber.seen (x : Subscriber R) : RoomPeers R := x.queue.foldl RoomPeers.onFrame x.view

/-- A room computes some deltas. -/
def Computes (c c' : Config) : Prop :=
  c.st.clock ≤ c'.st.clock ∧ ∃ new : Multiset Shown,
    pendingDeltas c' = new + pendingDeltas c ∧
    (∀ w ∈ new, c.st.clock ≤ w.seq ∧ w.seq < c'.st.clock) ∧
    Leads new c.st.summaries c'.st.summaries

lemma Computes.refl (c : Config) : Computes c c :=
  ⟨le_rfl, 0, (zero_add _).symm, by simp, .refl _⟩

lemma Computes.leads {c c' : Config} (h : Computes c c') {x : Multiset Shown}
    {seen : VoiceHub.Sfu.PeerId → List PeerSummary}
    (hextra : ∀ u ∈ x, u.seq < c.st.clock)
    (hnumbered : ∀ u ∈ pendingDeltas c, u.seq < c.st.clock)
    (hl : Leads (x + pendingDeltas c) seen c.st.summaries) :
    Leads (x + pendingDeltas c') seen c'.st.summaries := by
  obtain ⟨-, new, hnew, hlater, hleads⟩ := h
  rw [hnew, add_left_comm]
  refine hl.trans hleads fun u hu u' hu' => ?_
  have hclock : u.seq < c.st.clock := (Multiset.mem_add.mp hu).elim (hextra u) (hnumbered u)
  exact hclock.trans_le (hlater u' hu').1

/-- What every subscriber is still to see leads to what every room is now. -/
structure Follows (rooms : List R) (w : World R) : Prop where
  numbered : ∀ r, ∀ u ∈ pendingDeltas (w.config r), u.seq < (w.config r).st.clock
  settled : ∀ r, Settled (pendingDeltas (w.config r)) (w.config r).st.summaries
  current : ∀ room seq d todo held s, w.hub = some (.push room seq d todo held s) →
    seq < (w.config room).st.clock ∧ todo.Nodup
  snapshot : ∀ job, w.hub = some job → ∀ r infos, job.snapshot r = some infos →
    Leads (pendingDeltas (w.config r)) (shown (infos.map parsePeer)) (w.config r).st.summaries
  subs : ∀ id x, w.subs.lookup id = some x → ∀ r ∈ rooms,
    Leads (pushing w.hub id r + pendingDeltas (w.config r)) (shown (x.seen r))
      (w.config r).st.summaries

section Follows

variable {rooms : List R} {w w' : World R}

lemma follows_init : Follows rooms (World.init : World R) where
  numbered r u hu := by cases hu
  settled r u hu := by cases hu
  current := by simp [World.init]
  snapshot := by simp [World.init]
  subs id x hx := by simp [World.init] at hx

lemma Follows.pushing_lt (h : Follows rooms w) {id : SubId} {r : R} :
    ∀ u ∈ pushing w.hub id r, u.seq < (w.config r).st.clock := by
  intro u hu
  unfold pushing at hu
  split at hu
  · next room seq d todo held s hhub =>
    split_ifs at hu with hr
    · rw [Multiset.mem_singleton.mp hu, ← hr.1]
      exact (h.current _ _ _ _ _ _ hhub).1
    · simp at hu
  · simp at hu

lemma Follows.computes (h : Follows rooms w) {config : R → Config}
    (hc : ∀ r, Computes (w.config r) (config r)) : Follows rooms { w with config := config } where
  numbered r u hu := by
    obtain ⟨hclock, new, hnew, hlater, -⟩ := hc r
    rw [show pendingDeltas (config r) = _ from hnew] at hu
    rcases Multiset.mem_add.mp hu with hu | hu
    · exact (hlater u hu).2
    · exact (h.numbered r u hu).trans_le hclock
  settled r := by
    have hl := (hc r).leads (x := 0) (by simp) (h.numbered r)
      (by rw [zero_add]; exact .of_settled (h.settled r))
    rw [zero_add] at hl
    exact hl.settled
  current room seq d todo held s hhub :=
    ⟨(h.current room seq d todo held s hhub).1.trans_le (hc room).1,
      (h.current room seq d todo held s hhub).2⟩
  snapshot job hhub r infos hs := by
    have hl := (hc r).leads (x := 0) (by simp) (h.numbered r)
      (by rw [zero_add]; exact h.snapshot job hhub r infos hs)
    rw [zero_add] at hl
    exact hl
  subs id x hx r hr := (hc r).leads h.pushing_lt (h.numbered r) (h.subs id x hx r hr)

lemma computes_update {room : R} {c : Config} (hc : Computes (w.config room) c) (r : R) :
    Computes (w.config r) (Function.update w.config room c r) := by
  by_cases hr : r = room
  · subst hr
    rw [Function.update_self]
    exact hc
  · rw [Function.update_of_ne hr]
    exact .refl _

lemma Follows.push (h : Follows rooms w) {room : R} {l : VoiceHub.Sfu.Room.Label} {c : Config}
    {seq : ℕ} {d : Delta} (hact : l.act (w.config room) = some (.presence seq d))
    (hin : InOrder w (.room room l)) (hhub : w.hub = none) (hst : c.st = (w.config room).st)
    (hc : pendingDeltas (w.config room) = ⟨seq, d.subject, d.shows⟩ ::ₘ pendingDeltas c) :
    Follows rooms { w with
      config := Function.update w.config room c
      hub := some (.push room seq d w.subs.keys none .none) } := by
  have hstate (r : R) : (Function.update w.config room c r).st = (w.config r).st := by
    by_cases hr : r = room
    · subst hr
      rw [Function.update_self, hst]
    · rw [Function.update_of_ne hr]
  have hpending (r : R) : pendingDeltas (w.config r) =
      (if room = r then {⟨seq, d.subject, d.shows⟩} else 0) +
        pendingDeltas (Function.update w.config room c r) := by
    by_cases hr : r = room
    · subst hr
      rw [Function.update_self, if_pos rfl, hc]
      rfl
    · rw [Function.update_of_ne hr, if_neg (Ne.symm hr), zero_add]
  have hsettled (r : R) :
      Settled (pendingDeltas (Function.update w.config room c r)) (w.config r).st.summaries := by
    by_cases hr : r = room
    · subst hr
      rw [Function.update_self]
      refine Settled.drop (hc ▸ h.settled r) fun hlast => ?_
      have horder := hin ⟨seq, d.subject, d.shows⟩ (by rw [hact]; rfl)
      rw [hc, Multiset.erase_cons_head] at horder
      exact horder hlast
    · rw [Function.update_of_ne hr]
      exact h.settled r
  refine ⟨fun r u hu => ?_, fun r => ?_, ?_, ?_, fun id x hx r hr => ?_⟩
  · rw [hstate]
    exact h.numbered r u ((hpending r).symm ▸ Multiset.mem_add.mpr (.inr hu))
  · rw [hstate]
    exact hsettled r
  · rintro room' seq' d' todo held s ⟨⟩
    rw [hstate]
    exact ⟨h.numbered room _ (hc ▸ Multiset.mem_cons_self _ _), AList.keys_nodup _⟩
  · rintro job ⟨⟩ r infos hs
    cases hs
  · rw [hstate]
    have hkey : id ∈ w.subs.keys := AList.mem_keys.mp (AList.lookup_isSome.mp (by rw [hx]; rfl))
    have hsub := h.subs id x hx r hr
    rw [hhub, pushing_none, zero_add, hpending r] at hsub
    simpa only [pushing, hkey, and_true] using hsub

lemma Follows.come (h : Follows rooms w) {room : R} {seq : ℕ} {d : Delta} {todo : List SubId}
    {held : Option SubId} {s : Snapshot R}
    (hhub : w.hub = some (.push room seq d todo held s)) {id : SubId} {x : Subscriber R}
    (hx : ∀ r ∈ rooms, Leads (pendingDeltas (w.config r)) (shown (x.seen r))
      (w.config r).st.summaries) :
    Follows rooms { w with
      subs := AList.insert id x w.subs
      hub := some (.push room seq d (todo.erase id) none s) } := by
  have hcurrent := h.current _ _ _ _ _ _ hhub
  refine ⟨h.numbered, h.settled, ?_, ?_, fun id' x' hx' r hr => ?_⟩
  · rintro room' seq' d' todo' held' s' ⟨⟩
    exact ⟨hcurrent.1, hcurrent.2.erase id⟩
  · rintro job ⟨⟩
    exact h.snapshot (.push room seq d todo held s) hhub
  · rw [HashMap.lookup_insert] at hx'
    split_ifs at hx' with hid
    · obtain rfl := Option.some.inj hx'
      subst hid
      have hnone : id' ∉ todo.erase id' := hcurrent.2.not_mem_erase
      simpa only [pushing, hnone, and_false, if_false, zero_add] using hx r hr
    · have hsub := h.subs id' x' hx' r hr
      rw [hhub] at hsub
      simpa only [pushing, List.mem_erase_of_ne hid] using hsub

lemma Follows.sameHub (h : Follows rooms w) {hub : Option (Job R)}
    (hcurrent : ∀ room seq d todo held s, hub = some (.push room seq d todo held s) →
      seq < (w.config room).st.clock ∧ todo.Nodup)
    (hsnapshot : ∀ job, hub = some job → ∀ r infos, job.snapshot r = some infos →
      Leads (pendingDeltas (w.config r)) (shown (infos.map parsePeer)) (w.config r).st.summaries)
    (hpushing : ∀ id r, pushing hub id r = pushing w.hub id r) :
    Follows rooms { w with hub := hub } where
  numbered := h.numbered
  settled := h.settled
  current := hcurrent
  snapshot := hsnapshot
  subs id x hx r hr := by
    rw [hpushing]
    exact h.subs id x hx r hr

lemma Follows.room (h : Follows rooms w) {room : R} {l : VoiceHub.Sfu.Room.Label}
    (hin : InOrder w (.room room l)) (hs : w.step rooms (.room room l) = some w') :
    Follows rooms w' := by
  rw [World.step] at hs
  split at hs
  · split at hs
    · next seq d hact hhub =>
      obtain ⟨c, hc, rfl⟩ := Option.map_eq_some_iff.mp hs
      rcases VoiceHub.Sfu.Room.step_deltas hc with ⟨seq', d', hact', hst, hpending⟩ | ⟨hno, -⟩
      · rw [hact] at hact'
        cases hact'
        exact h.push hact hin hhub hst hpending
      · exact absurd hact (hno seq d)
    · cases hs
    · next hidle hbusy =>
      obtain ⟨c, hc, rfl⟩ := Option.map_eq_some_iff.mp hs
      rcases VoiceHub.Sfu.Room.step_deltas hc with ⟨seq, d, hact, -⟩ | ⟨-, hcomputes⟩
      · cases hhub : w.hub with
        | none => exact (hidle seq d hact hhub).elim
        | some job => exact (hbusy seq d job hact hhub).elim
      · exact h.computes (computes_update hcomputes)
  · cases hs

lemma Follows.read (h : Follows rooms w) {room : R} {ord : Order}
    (hs : w.step rooms (.read room ord) = some w') : Follows rooms w' := by
  rw [World.step] at hs
  split at hs
  · next job hhub =>
    split_ifs at hs
    obtain rfl := Option.some.inj hs
    have hread (infos : List PeerInfo) (r : R) : (job.read room infos).snapshot r =
        if r = room then some infos else job.snapshot r := by
      cases job <;> exact Function.update_apply ..
    refine h.sameHub (fun room' seq d todo held s hjob => ?_) (fun job' hjob' r infos hinfos => ?_)
      fun id r => ?_
    · cases job with
      | push r q e t k s =>
        cases hjob
        exact h.current _ _ _ _ _ _ hhub
      | subscribe s => cases hjob
    · cases hjob'
      rw [hread] at hinfos
      split_ifs at hinfos with hr
      · -- what is read is how the room is now
        obtain rfl := Option.some.inj hinfos
        subst hr
        rw [VoiceHub.Sfu.Room.shown_peerInfos]
        exact .of_settled (h.settled r)
      · exact h.snapshot job hhub r infos hinfos
    · rw [hhub]
      cases job <;> rfl
  · cases hs

lemma Follows.frame (h : Follows rooms w) {job : Job R} (hhub : w.hub = some job)
    (hall : ∀ room ∈ rooms, (job.snapshot room).isSome) (view : RoomPeers R) :
    ∀ r ∈ rooms, Leads (pendingDeltas (w.config r))
      (shown (Subscriber.seen ⟨[job.snapshot.frame], view⟩ r)) (w.config r).st.summaries := by
  intro r hr
  obtain ⟨infos, hinfos⟩ := Option.isSome_iff_exists.mp (hall r hr)
  have hseen : Subscriber.seen ⟨[job.snapshot.frame], view⟩ r = infos.map parsePeer := by
    change ((job.snapshot r).getD []).map parsePeer = infos.map parsePeer
    rw [hinfos, Option.getD_some]
  rw [hseen]
  exact h.snapshot job hhub r infos hinfos

lemma Follows.register (h : Follows rooms w) (hs : w.step rooms .register = some w') :
    Follows rooms w' := by
  rw [World.step] at hs
  split at hs
  · next s hhub =>
    split_ifs at hs with hall
    obtain rfl := Option.some.inj hs
    refine ⟨h.numbered, h.settled, by simp, by simp, fun id x hx r hr => ?_⟩
    rw [HashMap.lookup_insert] at hx
    rw [pushing_none, zero_add]
    split_ifs at hx
    · obtain rfl := Option.some.inj hx
      exact h.frame hhub hall emptyPeers r hr
    · have hsub := h.subs id x hx r hr
      rw [hhub, pushing_subscribe, zero_add] at hsub
      exact hsub
  · cases hs

lemma Follows.offer (h : Follows rooms w) {id : SubId}
    (hs : w.step rooms (.offer id) = some w') : Follows rooms w' := by
  rw [World.step] at hs
  split at hs
  · next room seq d todo s x hhub hx =>
    split_ifs at hs with htodo hlen
    · obtain rfl := Option.some.inj hs
      refine h.come hhub fun r hr => ?_
      have hsub := h.subs id x hx r hr
      have hseen : Subscriber.seen { x with queue := x.queue ++ [.delta room d] } =
          x.seen.onFrame (.delta room d) := List.foldl_append ..
      rw [hhub] at hsub
      rw [hseen, RoomPeers.shown_onFrame_delta]
      split_ifs with hroom
      · subst hroom
        simp only [pushing, htodo, and_true, if_true] at hsub
        exact Leads.arrive (w := ⟨seq, d.subject, d.shows⟩) hsub (h.settled r)
      · simpa only [pushing, Ne.symm hroom, false_and, if_false, zero_add] using hsub
    · obtain rfl := Option.some.inj hs
      refine h.sameHub (fun room' seq' d' todo' held' s' hjob => ?_) (fun job hjob => ?_)
        fun id' r => ?_
      · cases hjob
        exact h.current _ _ _ _ _ _ hhub
      · cases hjob
        exact h.snapshot (.push room seq d todo none s) hhub
      · rw [hhub]
        rfl
  · cases hs

lemma Follows.resync (h : Follows rooms w) (hs : w.step rooms .resync = some w') :
    Follows rooms w' := by
  rw [World.step] at hs
  split at hs
  · next room seq d todo id s hhub =>
    split at hs
    · next x hx =>
      split_ifs at hs with hall
      obtain rfl := Option.some.inj hs
      exact h.come hhub (h.frame hhub hall x.view)
    · cases hs
  · cases hs

lemma Follows.pushed (h : Follows rooms w) (hs : w.step rooms .pushed = some w') :
    Follows rooms w' := by
  rw [World.step] at hs
  split at hs
  · next room seq d s hhub =>
    obtain rfl := Option.some.inj hs
    refine h.sameHub (by simp) (by simp) fun id r => ?_
    rw [hhub]
    simp [pushing]
  · cases hs

lemma Follows.next (h : Follows rooms w) {id : SubId} (hs : w.step rooms (.next id) = some w') :
    Follows rooms w' := by
  rw [World.step] at hs
  split_ifs at hs
  split at hs
  · next f queue view hx =>
    obtain rfl := Option.some.inj hs
    refine ⟨h.numbered, h.settled, h.current, h.snapshot, fun id' x' hx' r hr => ?_⟩
    rw [HashMap.lookup_insert] at hx'
    split_ifs at hx' with hid
    · obtain rfl := Option.some.inj hx'
      subst hid
      exact h.subs id' _ hx r hr
    · exact h.subs id' x' hx' r hr
  · cases hs

lemma Follows.step (h : Follows rooms w) {op : Op R} (hin : InOrder w op)
    (hs : w.step rooms op = some w') : Follows rooms w' := by
  cases op with
  | room room l => exact h.room hin hs
  | read room ord => exact h.read hs
  | register => exact h.register hs
  | offer id => exact h.offer hs
  | resync => exact h.resync hs
  | pushed => exact h.pushed hs
  | next id => exact h.next hs
  | subscribe =>
    rw [World.step] at hs
    split at hs
    · next hhub =>
      obtain rfl := Option.some.inj hs
      refine h.sameHub (by simp) (fun job hjob r infos hinfos => ?_) fun id r => ?_
      · cases hjob
        cases hinfos
      · rw [hhub]
        rfl
    · cases hs
  | unsubscribe id =>
    rw [World.step] at hs
    split at hs
    · obtain rfl := Option.some.inj hs
      refine ⟨h.numbered, h.settled, h.current, h.snapshot, fun id' x hx => ?_⟩
      rw [HashMap.lookup_erase] at hx
      split_ifs at hx
      exact h.subs id' x hx
    · cases hs

/-- **Presence converges**: in a run in which no delta is overtaken by a later one of its peer, a
page whose queue is drained shows every room as it is, once all deltas have been pushed. -/
theorem presence_converges (h : Machine.Reach (World.step rooms) InOrder World.init w)
    (hpushed : w.hub = none ∧ ∀ r ∈ rooms, deltas (w.config r).work = []) {id : SubId}
    {x : Subscriber R} (hid : w.subs.lookup id = some x) (hqueue : x.queue = []) :
    ∀ r ∈ rooms, ∀ ord, (x.view r).Perm (((w.config r).st.peerInfos ord).map parsePeer) := by
  have hfollows : Follows rooms w :=
    h.invariant follows_init fun _ _ _ hw hin hs => hw.step hin hs
  intro r hr ord
  refine VoiceHub.Client.perm_of_shown ?_
  have hsub := hfollows.subs id _ hid r hr
  have hseen : x.seen = x.view := by rw [Subscriber.seen, hqueue, List.foldl_nil]
  rw [hpushed.1, pushing_none, zero_add, pendingDeltas, hpushed.2 r hr, hseen] at hsub
  rw [VoiceHub.Sfu.Room.shown_peerInfos]
  exact hsub.done

end Follows

instance (w : World R) : ∀ op, Decidable (InOrder w op)
  | .room .. => inferInstanceAs (Decidable (∀ _ ∈ _, _ → ∀ _ ∈ _, _))
  | .subscribe | .read .. | .register | .offer _ | .resync | .pushed | .unsubscribe _ | .next _ =>
    inferInstanceAs (Decidable True)

section Runs

open VoiceHub.Sfu.Room (Label Event Choice)

/-- A thread's next step. -/
def go (i : ℕ) : Op String := .room "room1" (.run i .plain)

def come (e : Event) : Op String := .room "room1" (.event e)

/-- A delta is pushed to the only subscriber. -/
def pushOne (i : ℕ) : List (Op String) := [go i, .offer 1, .pushed]

/-- A peer joins and a page subscribes. -/
def subscribed : List (Op String) :=
  [come (.join ⟨"p1", "c", false⟩ "Ann"), go 0, go 0, go 0, .pushed, .subscribe,
    .read "room1" .plain, .register, .next 1]

/-- The peer takes another name. -/
def renamedRun : List (Op String) :=
  subscribed ++ [come (.setDisplayName "p1" "Bea"), go 1] ++ pushOne 1 ++ [.next 1]

/-- The peer takes another name and is replaced before that is pushed. -/
def overtakenRun : List (Op String) :=
  subscribed ++ [come (.setDisplayName "p1" "Bea"), go 1, come (.join ⟨"p2", "c", false⟩ "Cid"),
    go 2, go 2, go 2] ++ pushOne 2 ++ pushOne 2 ++ pushOne 1 ++ [.next 1, .next 1, .next 1]

/-- Where a run ends. -/
def after (ops : List (Op String)) : World String :=
  (Machine.run (World.step ["room1"]) World.init ops).getD World.init

/-- The page of the only subscriber. -/
def page (w : World String) : Subscriber String := (w.subs.lookup 1).getD ⟨[], emptyPeers⟩

lemma lookup_page {w : World String} (h : (w.subs.lookup 1).isSome) :
    w.subs.lookup 1 = some (page w) := by
  obtain ⟨x, hx⟩ := Option.isSome_iff_exists.mp h
  rw [page, hx, Option.getD_some]

theorem presence_converges_renamed :
    (page (after renamedRun)).view "room1" = [⟨"p1", "Bea", false⟩] ∧
      ∀ r ∈ ["room1"], ∀ ord, ((page (after renamedRun)).view r).Perm
        ((((after renamedRun).config r).st.peerInfos ord).map parsePeer) :=
  ⟨by decide +kernel,
    presence_converges (Machine.Reach.of_isSome (by decide +kernel) (by decide +kernel))
      ⟨Option.isNone_iff_eq_none.mp (by decide +kernel), by decide +kernel⟩
      (lookup_page (by decide +kernel)) (List.eq_nil_of_length_eq_zero (by decide +kernel))⟩

/-- **Not in every run**: a page shows a peer that has left. -/
theorem shown_after_left :
    ∃ w, Machine.Reach (World.step ["room1"]) Machine.free World.init w ∧ w.hub = none ∧
      (w.config "room1").Quiet ∧ w.subs.lookup 1 = some (page w) ∧ (page w).queue = [] ∧
      ((page w).view "room1").map PeerSummary.id = ["p2", "p1"] ∧
      ((w.config "room1").st.peerInfos .plain).map PeerInfo.id = ["p2"] :=
  ⟨after overtakenRun, Machine.Reach.of_isSome (Machine.meets_free _ _) (by decide +kernel),
    Option.isNone_iff_eq_none.mp (by decide +kernel), by decide +kernel,
    lookup_page (by decide +kernel), List.eq_nil_of_length_eq_zero (by decide +kernel),
    by decide +kernel, by decide +kernel⟩

end Runs

end VoiceHub.Presence
