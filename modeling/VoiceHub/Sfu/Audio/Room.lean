import Mathlib
import VoiceHub.Lib.Pool
import VoiceHub.Lib.Machine
import VoiceHub.Sfu.Room.State
import VoiceHub.Sfu.Audio.Slots

/-!
The audio of a room: who joins and leaves, which tracks are published, and how every voice
peer's slots follow them.

An operation is cut at its critical sections, as in the rest of the room. The sync lock of
a peer comes with the steps its holder has still to take under it. The changes `reconcile`
makes to the slots are made where it reads the room's tracks: nobody else sees the slots
before the lock is released.
-/

namespace VoiceHub.Sfu.Audio

open VoiceHub.Lib
open VoiceHub.Sfu.Room (Peer Outbox)

abbrev Peers := Keyed Peer.id

/-- A step under the sync lock. -/
inductive Step
  /-- `reconcile` looks whether the PC is closed or the peer cancelled -/
  | check
  | read
  | removeSub (t : AudioTrack)
  | addSub (t : AudioTrack) (slot : String)
  | offer (n : ℕ)
  /-- `Room::peer_handle` -/
  | send (m : Msg)
  /-- `Peer::send` -/
  | post (m : Msg)
  deriving DecidableEq

structure AudioPeer where
  sync : SyncState
  /-- What the holder of the sync lock has still to do. -/
  holder : Option (List Step)
  /-- `Pc::closed` -/
  closed : Bool
  /-- `Pc::close` has returned. -/
  shut : Bool
  /-- The first packet's event is in delivery: the track it published. -/
  delivering : Option AudioTrack
  track : Option AudioTrack

/-- A subscriber's PC, by its peer, and the slot that is written. -/
structure Sub where
  pc : PeerId
  slot : String
  deriving DecidableEq

structure State where
  peers : Peers
  tracks : Tracks
  audio : PeerId → AudioPeer
  subs : AudioTrack → List Sub
  outbox : PeerId → Outbox Msg
  /-- Every peer that ever joined. -/
  seen : PeerId → Option Peer
  /-- The peers whose `serve_ws` still takes messages. -/
  serving : List PeerId
  next : ℕ

def State.init : State where
  peers := .empty
  tracks := .empty
  audio := fun _ => ⟨⟨false, []⟩, none, false, false, none, none⟩
  subs := fun _ => []
  outbox := fun _ => ⟨[], 0, false, false⟩
  seen := fun _ => none
  serving := []
  next := 0

inductive Act
  | addPeer (p : Peer)
  | removePeer (id : PeerId)
  /-- `peer.cancel.cancel()` -/
  | cancel (id : PeerId)
  /-- `Peer::send` -/
  | send (id : PeerId) (m : Msg)
  /-- `signal_all` collects the peers -/
  | collect
  | renegotiate (id : PeerId)
  | sync (id : PeerId)
  | acceptAnswer (id : PeerId) (ok : Bool)
  /-- the holder of the sync lock goes on -/
  | held (id : PeerId)
  /-- `publish_track` returns, and the track is kept -/
  | published (id : PeerId)
  /-- `AudioPeer::close` -/
  | closePc (id : PeerId)
  | unpublish (id : PeerId)
  | dropSubs (id : PeerId)
  deriving DecidableEq

/-- What the code leaves open: the order of hash maps, and whether `apply()` yields an
offer. -/
structure Choice where
  order : Order
  applied : Bool

def Choice.plain : Choice := ⟨.plain, true⟩

abbrev Effect := Outcome State Act

def broadcast (peers : List PeerId) (m : Msg) : List Act := peers.map (.send · m)

/-- What is left of `reconcile` once the slots are changed. -/
def Plan.steps (p : Plan) : List Step :=
  p.freed.map (fun (_, t) => .removeSub t) ++
  (if p.assignments = [] then [] else [.send (.audioSlots p.assignments)]) ++
  p.given.map (fun (slot, t) => .addSub t slot) ++
  if p.grow = 0 then [] else [.offer p.grow]

namespace State

variable (st : State) (ord : Order)

def go (next : List Act) : Effect := ⟨st, next, []⟩

/-- The peer is connected with voice, or once was. -/
def voice (id : PeerId) : Bool := (st.seen id).any fun p => !p.chatOnly

def cancelled (id : PeerId) : Bool := (st.outbox id).cancelled

def setAudio (id : PeerId) (f : AudioPeer → AudioPeer) : State :=
  { st with audio := Function.update st.audio id (f (st.audio id)) }

/-- The sync lock is taken. -/
def hold (id : PeerId) (steps : List Step) : State :=
  st.setAudio id ({ · with holder := some steps })

def setSync (id : PeerId) (f : SyncState → SyncState) : State :=
  st.setAudio id fun a => { a with sync := f a.sync }

def setOutbox (id : PeerId) (f : Outbox Msg → Outbox Msg) : State :=
  { st with outbox := Function.update st.outbox id (f (st.outbox id)) }

def cancel (id : PeerId) : State := st.setOutbox id ({ · with cancelled := true })

def send (id : PeerId) (m : Msg) : State := st.setOutbox id (·.send m)

def setSubs (t : AudioTrack) (f : List Sub → List Sub) : State :=
  { st with subs := Function.update st.subs t (f (st.subs t)) }

/-! ### Joining and leaving -/

def evicted (p : Peer) : List Peer :=
  if p.clientId = "" then []
  else (ord.list st.peers.values).filter fun e => e.clientId = p.clientId

/-- `Room::all`. -/
def all : List PeerId := (ord.list st.peers.values).map Peer.id

/-- A peer and its track are taken out of the room. -/
def without (ids : List PeerId) : State :=
  { st with
    peers := ids.foldl Keyed.remove st.peers
    tracks := ids.foldl Keyed.remove st.tracks }

/-- A peer comes in, and its earlier sessions go. -/
def joined (p : Peer) : State :=
  let rest := st.without ((st.evicted ord p).map Peer.id)
  { rest with
    peers := rest.peers.insert p
    seen := Function.update st.seen p.id (some p)
    serving := p.id :: st.serving }

def addPeer (p : Peer) : Option Effect :=
  if (st.seen p.id).isSome then none
  else
    let evicted := (st.evicted ord p).map Peer.id
    let others := (st.without evicted).all ord
    some <| (st.joined ord p).go <|
      (evicted.flatMap fun id => .cancel id :: broadcast others (.peerLeft id)) ++
      .send p.id .other :: broadcast others .other ++
      (if evicted = [] then [] else [.collect]) ++
      if p.chatOnly then [] else [.collect]

def removePeer (id : PeerId) : Effect :=
  match st.peers.get id with
  | none => st.go []
  | some p =>
    let st' := st.without [id]
    st'.go <| .cancel id :: broadcast (st'.all ord) (.peerLeft id) ++
      if p.chatOnly then [] else [.collect]

/-! ### The slots of one peer -/

/-- The voice peers of the room. -/
def collect : Effect :=
  st.go <| ((ord.list st.peers.values).filter fun p => !p.chatOnly).map fun p => .sync p.id

def renegotiate (id : PeerId) : Effect :=
  st.go (if (st.peers.get id).isSome then [.collect] else [])

/-- Waits for the lock, and while it has it for nothing. -/
def sync (id : PeerId) : Option Effect :=
  if (st.audio id).holder.isSome then none
  else if (st.audio id).sync.pending then some (st.go [])
  else some ((st.hold id [.check, .read]).go [.held id])

def acceptAnswer (id : PeerId) (ok : Bool) : Option Effect :=
  if (st.audio id).holder.isSome then none
  else if (st.audio id).sync.pending then
    some (((st.setSync id (·.answered ok)).hold id [.check, .read]).go [.held id])
  else some (st.go [])

/-- One step under the sync lock, before `rest`: what it changes, and what is left to do. -/
def locked (applied : Bool) (id : PeerId) (rest : List Step) : Step → State × List Step
  | .check => (st, if (st.audio id).closed || st.cancelled id then [] else rest)
  | .read =>
    let p := plan id st.tracks (st.audio id).sync.slots
    (st.setSync id ({ · with slots := p.slots }), p.steps ++ rest)
  | .removeSub t => (st.setSubs t (·.filter fun s => s.pc ≠ id), rest)
  | .addSub t slot => (st.setSubs t (· ++ [⟨id, slot⟩]), rest)
  | .offer n =>
    (st.setSync id (·.offer applied n), if applied then .send .offer :: rest else rest)
  | .send m => (st, if (st.peers.get id).isSome then .post m :: rest else rest)
  | .post m => (st.send id m, rest)

def held (applied : Bool) (id : PeerId) : Option Effect :=
  match (st.audio id).holder with
  | none => none
  | some [] => some ((st.setAudio id ({ · with holder := none })).go [])
  | some (s :: rest) =>
    let (st', steps) := st.locked applied id rest s
    some ((st'.hold id steps).go [.held id])

/-! ### Tracks -/

/-- The rest of `on_event` for a peer's first packet. -/
def published (id : PeerId) : Option Effect :=
  match (st.audio id).delivering with
  | none => none
  | some t =>
    some ⟨st.setAudio id ({ · with delivering := none, track := some t }), [], [[.collect]]⟩

/-- An open PC waits for an event in delivery, and its peer is cancelled. -/
def closePc (id : PeerId) : Option Effect :=
  if (st.audio id).closed then some ((st.setAudio id ({ · with shut := true })).go [.unpublish id])
  else if (st.audio id).delivering.isSome then none
  else
    some ((st.setAudio id ({ · with closed := true, shut := true })).go [.cancel id, .unpublish id])

/-- `unpublish_track` on the peer's own track, if it published one. -/
def unpublish (id : PeerId) : Effect :=
  match (st.audio id).track with
  | none => st.go [.dropSubs id]
  | some t =>
    if st.tracks.get t.owner = some t then
      ⟨{ st with tracks := st.tracks.remove t.owner }, [.dropSubs id], [[.collect]]⟩
    else st.go [.dropSubs id]

def dropSubs (id : PeerId) : Option Effect :=
  if (st.audio id).holder.isSome then none
  else some ((st.hold id ((carried (st.audio id).sync.slots).map .removeSub)).go [.held id])

end State

/-! ### What the operations do -/

section Spec

variable {st : State} {ord : Order} {p : Peer} {id x : PeerId} {a : Act} {r : Effect}

@[simp] lemma go_st (next : List Act) : (st.go next).st = st := rfl
@[simp] lemma go_next (next : List Act) : (st.go next).next = next := rfl
@[simp] lemma go_spawned (next : List Act) : (st.go next).spawned = [] := rfl

@[simp] lemma mem_broadcast {peers : List PeerId} {m : Msg} :
    a ∈ broadcast peers m ↔ ∃ v ∈ peers, a = .send v m := by
  simp [broadcast, eq_comm]

lemma peers_without (ids : List PeerId) :
    (st.without ids).peers.get x = if x ∈ ids then none else st.peers.get x :=
  st.peers.get_removeAll ids

lemma tracks_without (ids : List PeerId) :
    (st.without ids).tracks.get x = if x ∈ ids then none else st.tracks.get x :=
  st.tracks.get_removeAll ids

lemma peers_joined : (st.joined ord p).peers.get x =
    if x = p.id then some p
    else if x ∈ (st.evicted ord p).map Peer.id then none else st.peers.get x := by
  rw [← peers_without]
  exact Keyed.get_insert ..

lemma tracks_joined : (st.joined ord p).tracks.get x =
    if x ∈ (st.evicted ord p).map Peer.id then none else st.tracks.get x := tracks_without _

lemma seen_joined : (st.joined ord p).seen x = if x = p.id then some p else st.seen x :=
  Function.update_apply ..

lemma mem_evicted (h : x ∈ (st.evicted ord p).map Peer.id) :
    ∃ q, st.peers.get x = some q := by
  obtain ⟨q, hq, rfl⟩ := List.mem_map.mp h
  unfold State.evicted at hq
  split_ifs at hq
  · cases hq
  · exact ⟨q, st.peers.mem_values.mp (ord.mem_list.mp (List.mem_filter.mp hq).1)⟩

lemma addPeer_spec (h : st.addPeer ord p = some r) :
    st.seen p.id = none ∧ r.st = st.joined ord p ∧ r.spawned = [] ∧
    ∀ a, a ∈ r.next ↔
      (∃ id ∈ (st.evicted ord p).map Peer.id, a = .cancel id ∨
        ∃ v ∈ (st.without ((st.evicted ord p).map Peer.id)).all ord, a = .send v (.peerLeft id)) ∨
      (∃ v ∈ p.id :: (st.without ((st.evicted ord p).map Peer.id)).all ord, a = .send v .other) ∨
      a = .collect ∧ (st.evicted ord p ≠ [] ∨ p.chatOnly = false) := by
  unfold State.addPeer at h
  split at h
  · cases h
  next hseen =>
  obtain rfl := Option.some.inj h
  refine ⟨by simpa using hseen, rfl, rfl, fun a => ?_⟩
  simp only [go_next, List.mem_append, List.mem_flatMap, List.mem_cons, mem_broadcast]
  cases he : st.evicted ord p <;> cases hc : p.chatOnly <;> simp [or_assoc]

lemma removePeer_spec (h : st.peers.get id = some p) :
    (st.removePeer ord id).st = st.without [id] ∧ (st.removePeer ord id).spawned = [] ∧
    ∀ a, a ∈ (st.removePeer ord id).next ↔ a = .cancel id ∨
      (∃ v ∈ (st.without [id]).all ord, a = .send v (.peerLeft id)) ∨
      a = .collect ∧ p.chatOnly = false := by
  unfold State.removePeer
  rw [h]
  refine ⟨rfl, rfl, fun a => ?_⟩
  simp only [go_next, List.mem_append, List.mem_cons, mem_broadcast]
  cases hc : p.chatOnly <;> simp [or_assoc]

lemma removePeer_absent (h : st.peers.get id = none) : st.removePeer ord id = st.go [] := by
  unfold State.removePeer
  rw [h]

lemma closePc_spec (h : st.closePc id = some r) : ∃ next,
    r = (st.setAudio id ({ · with closed := true, shut := true })).go next ∧
      ((st.audio id).closed = true ∧ next = [.unpublish id] ∨
        next = [.cancel id, .unpublish id]) := by
  unfold State.closePc at h
  split_ifs at h with hc
  · obtain rfl := Option.some.inj h
    refine ⟨[.unpublish id], ?_, .inl ⟨hc, rfl⟩⟩
    simp only [State.setAudio, ← hc]
  · obtain rfl := Option.some.inj h
    exact ⟨_, rfl, .inr rfl⟩

lemma held_spec {applied : Bool} (h : st.held applied id = some r) :
    (∃ s rest, (st.audio id).holder = some (s :: rest) ∧
      r = ((st.locked applied id rest s).1.hold id (st.locked applied id rest s).2).go [.held id]) ∨
    (st.audio id).holder = some [] ∧ r = (st.setAudio id ({ · with holder := none })).go [] := by
  unfold State.held at h
  split at h
  · cases h
  · next hh => exact .inr ⟨hh, (Option.some.inj h).symm⟩
  · next s rest hh => exact .inl ⟨s, rest, hh, (Option.some.inj h).symm⟩

end Spec

/-- One step, if it can be taken: a lock may be held, and ids do not repeat. -/
def exec (ch : Choice) (a : Act) (st : State) : Option Effect :=
  match a with
  | .addPeer p => st.addPeer ch.order p
  | .removePeer id => some (st.removePeer ch.order id)
  | .cancel id => some ((st.cancel id).go [])
  | .send id m => some ((st.send id m).go [])
  | .collect => some (st.collect ch.order)
  | .renegotiate id => some (st.renegotiate id)
  | .sync id => st.sync id
  | .acceptAnswer id ok => st.acceptAnswer id ok
  | .held id => st.held ch.applied id
  | .published id => st.published id
  | .closePc id => st.closePc id
  | .unpublish id => some (st.unpublish id)
  | .dropSubs id => st.dropSubs id

/-! ### Runs -/

inductive Event
  | join (p : Peer)
  /-- `serve_ws` leaves its loop -/
  | leave (id : PeerId)
  | answer (id : PeerId) (ok : Bool)
  | renegotiate (id : PeerId)
  /-- the socket ended, or the room is closed -/
  | cancel (id : PeerId)
  /-- the PC died: `on_closed` -/
  | pcDied (id : PeerId)
  /-- the first packet of a peer, up to the end of the section in `publish_track` -/
  | publish (id : PeerId)
  /-- `forward` drops the subscriptions of closed PCs -/
  | sweep (t : AudioTrack)
  /-- the writer takes a message -/
  | drain (id : PeerId)
  /-- a message of no interest here is queued -/
  | other (id : PeerId)

namespace State

variable (st : State)

/-- A PC delivers one event at a time, and the first packet comes once. -/
def publish (id : PeerId) : Option State :=
  let a := st.audio id
  if st.voice id ∧ a.delivering = none ∧ a.track = none then
    let t : AudioTrack := ⟨st.next, id⟩
    some { st with
      tracks := st.tracks.insert t
      audio := Function.update st.audio id { a with delivering := some t }
      next := st.next + 1 }
  else none

/-- The state after an event, and the thread it starts: whose it is and what it does. -/
def begin : Event → Option (State × Option PeerId × List Act)
  | .join p => some (st, some p.id, [.addPeer p])
  | .leave id =>
    if id ∈ st.serving ∧ st.cancelled id then
      some ({ st with serving := st.serving.filter (· ≠ id) }, some id,
        .removePeer id :: if st.voice id then [.closePc id] else [])
    else none
  | .answer id ok =>
    if id ∈ st.serving ∧ st.voice id then some (st, some id, [.acceptAnswer id ok]) else none
  | .renegotiate id =>
    if id ∈ st.serving ∧ st.voice id then some (st, some id, [.renegotiate id]) else none
  | .cancel id => some (st.cancel id, none, [])
  | .pcDied id =>
    if st.voice id ∧ ¬(st.audio id).closed then
      some (st.setAudio id ({ · with closed := true }), none, [.cancel id])
    else none
  | .publish id => (st.publish id).map fun st' => (st', none, [.published id])
  | .sweep t => some (st.setSubs t (·.filter fun s => !(st.audio s.pc).closed), none, [])
  | .drain id => some (st.setOutbox id Outbox.drain, none, [])
  | .other id => some (st.send id .other, none, [])

end State

abbrev Config := Pool State (Option PeerId) Act

inductive Label
  | run (i : ℕ) (ch : Choice)
  | event (e : Event)

/-- One step of the room. A peer's `serve_ws` does one thing after the other. -/
def step (c : Config) : Label → Option Config
  | .run i ch => c.advance (exec ch) none i
  | .event e =>
    match c.st.begin e with
    | none => none
    | some (st, none, todo) => some (c.launch st none todo)
    | some (st, some id, todo) => if c.Free (some id) then some (c.launch st (some id) todo) else none

lemma step_cases {c c' : Config} {l : Label} (h : step c l = some c') :
    (∃ i ch m r W, l = .run i ch ∧ c.head? i = some m ∧ exec ch m c.st = some r ∧ c'.st = r.st ∧
      c.work.Perm (m :: W) ∧ c'.work.Perm (r.next ++ r.spawned.flatten ++ W)) ∨
    ∃ e o todo, l = .event e ∧ c.st.begin e = some (c'.st, o, todo) ∧ c'.work = c.work ++ todo := by
  cases l with
  | run i ch =>
    obtain ⟨m, r, W, hm, hr, hst, hw, hw'⟩ := Pool.advance_work h
    exact .inl ⟨i, ch, m, r, W, rfl, hm, hr, hst, hw, hw'⟩
  | event e =>
    right
    simp only [step] at h
    split at h
    · cases h
    · next st todo hb =>
      cases h
      exact ⟨e, none, todo, rfl, hb, Pool.work_launch ..⟩
    · next st id todo hb =>
      split at h
      · cases h
        exact ⟨e, some id, todo, rfl, hb, Pool.work_launch ..⟩
      · cases h

/-- An invariant of the state and the acts pending, if every act and every event keeps it. -/
lemma step_keeps {I : State → (Act → Prop) → Prop} {c c' : Config} {l : Label}
    (h : step c l = some c') (hI : I c.st (· ∈ c.work))
    (hrun : ∀ i ch m r (P : Act → Prop), l = .run i ch → c.head? i = some m →
      exec ch m c.st = some r → I c.st (fun a => a = m ∨ P a) →
      I r.st (fun a => (a ∈ r.next ∨ a ∈ r.spawned.flatten) ∨ P a))
    (hevent : ∀ e st o todo (P : Act → Prop), l = .event e → c.st.begin e = some (st, o, todo) →
      I c.st P → I st (fun a => P a ∨ a ∈ todo)) : I c'.st (· ∈ c'.work) := by
  rcases step_cases h with ⟨i, ch, m, r, W, hl, hm, hr, hst, hw, hw'⟩ | ⟨e, o, todo, hl, hb, hw⟩
  · have hold : (· ∈ c.work) = fun a => a = m ∨ a ∈ W := by
      ext a
      rw [hw.mem_iff, List.mem_cons]
    have hnew : (· ∈ c'.work) = fun a => (a ∈ r.next ∨ a ∈ r.spawned.flatten) ∨ a ∈ W := by
      ext a
      rw [hw'.mem_iff, List.mem_append, List.mem_append]
    rw [hst, hnew]
    exact hrun i ch m r _ hl hm hr (hold ▸ hI)
  · have hnew : (· ∈ c'.work) = fun a => a ∈ c.work ∨ a ∈ todo := by
      ext a
      rw [hw, List.mem_append]
    rw [hnew]
    exact hevent e _ o todo _ hl hb hI

def init : Config := ⟨.init, []⟩

abbrev Reach (G : Config → Label → Prop) : Config → Prop := Machine.Reach step G init

/-- Where the run `ls` ends, if it is one. -/
def after (ls : List Label) : Config := (Machine.run step init ls).getD init

instance (c : Config) (l : Label) : Decidable (Machine.free c l) := .isTrue trivial

/-- A thread takes some steps. -/
def runs (n i : ℕ) : List Label := List.replicate n (.run i .plain)

end VoiceHub.Sfu.Audio
