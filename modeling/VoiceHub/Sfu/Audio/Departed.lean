import Mathlib
import VoiceHub.Sfu.Audio.Room

/-!
Slots that are announced for a peer that has left.

`reconcile` reads the room's tracks in one section and announces the owners later, from
that copy. The peer can leave in between, and its `peer-left` is then queued first. A track
that its owner's media thread publishes after the owner left is announced as well.
-/

namespace VoiceHub.Sfu.Audio

open VoiceHub.Lib
open VoiceHub.Sfu.Room (Peer Outbox)

namespace Msg

/-- The peer a `peer-left` is about. -/
def departed : Msg → Option PeerId
  | .peerLeft id => some id
  | _ => none

/-- The message gives a slot to `x`. -/
def names (x : PeerId) : Msg → Bool
  | .audioSlots slots => slots.any fun s => s.peerId = some x
  | _ => false

end Msg

/-- After the `peer-left` of a peer no message gives it a slot. -/
def NeverNamed (log : List Msg) : Prop :=
  log.Pairwise fun m m' => ∀ x ∈ m.departed, m'.names x = false

instance (log : List Msg) : Decidable (NeverNamed log) :=
  inferInstanceAs (Decidable (log.Pairwise _))

lemma neverNamed_snoc {log : List Msg} {m : Msg} :
    NeverNamed (log ++ [m]) ↔
      NeverNamed log ∧ ∀ x, .peerLeft x ∈ log → m.names x = false := by
  unfold NeverNamed
  rw [List.pairwise_append]
  simp only [List.pairwise_singleton, List.mem_singleton, forall_eq, true_and]
  refine and_congr_right fun _ => ⟨fun h x hx => h _ hx x rfl, fun h m' hm' x hx => ?_⟩
  cases m' <;> cases hx
  exact h _ hm'

/-- The messages among steps. -/
def Step.msg : Step → Option Msg
  | .send m | .post m => some m
  | _ => none

namespace State

variable (st : State)

/-- What the holder of the sync lock has computed and not yet sent. -/
def unsent (v : PeerId) : List Msg := ((st.audio v).holder.getD []).filterMap Step.msg

/-- `reconcile` is about to read the room's tracks. -/
def reading (v : PeerId) : Bool := ((st.audio v).holder.getD []).head? = some .read

end State

/-- A `peer-left` is not queued to a peer for which a slot of the departed is still to be
announced, and `reconcile` finds no track whose owner has left the room. -/
def State.InTime (st : State) : Act → Prop
  | .send v (.peerLeft x) => (st.outbox v).takes → ∀ m ∈ st.unsent v, m.names x = false
  | .held v => st.reading v → ∀ t ∈ st.tracks.values, (st.peers.get t.owner).isSome
  | _ => True

instance (st : State) (a : Act) : Decidable (st.InTime a) := by
  unfold State.InTime
  split <;> infer_instance

/-- Every step of a thread is in time. -/
def StepsInTime (c : Config) : Label → Prop
  | .run i _ => ∀ a ∈ c.head? i, c.st.InTime a
  | .event _ => True

instance (c : Config) : (l : Label) → Decidable (StepsInTime c l)
  | .run i _ => inferInstanceAs (Decidable (∀ a ∈ c.head? i, c.st.InTime a))
  | .event _ => inferInstanceAs (Decidable True)

/-! ### What has been said about the departed -/

/-- Where the `peer-left` of a peer is on its way or queued, the peer is gone for good, and
no slot is going to be announced for it. -/
structure Parted (st : State) (todo : Act → Prop) : Prop where
  known : ∀ x p, st.peers.get x = some p → (st.seen x).isSome
  leaving : ∀ v x, todo (.send v (.peerLeft x)) → (st.seen x).isSome ∧ st.peers.get x = none
  left : ∀ v x, .peerLeft x ∈ (st.outbox v).log → (st.seen x).isSome ∧ st.peers.get x = none
  acts : ∀ v m, todo (.send v m) → ∀ x, m.names x = false
  own : ∀ v, ∀ m ∈ st.unsent v, m.departed = none
  unnamed : ∀ v x, .peerLeft x ∈ (st.outbox v).log → ∀ m ∈ st.unsent v, m.names x = false
  log : ∀ v, NeverNamed (st.outbox v).log

variable {st st' : State} {todo todo' : Act → Prop} {ch : Choice} {r : Effect} {m : Act}

lemma parted_init : Parted .init fun _ => False where
  known _ _ h := nomatch h
  leaving _ _ h := h.elim
  left _ _ h := nomatch h
  acts _ _ h := h.elim
  own _ _ h := nomatch h
  unnamed _ _ h := nomatch h
  log _ := .nil

/-- A message that can be announced: not a `peer-left`, and naming nobody who has left. -/
def State.Sayable (st : State) (v : PeerId) (m : Msg) : Prop :=
  m.departed = none ∧ ∀ x, .peerLeft x ∈ (st.outbox v).log → m.names x = false

lemma Parted.quiet (h : Parted st todo) (hp : st'.peers = st.peers) (hs : st'.seen = st.seen)
    (hl : ∀ v, (st'.outbox v).log = (st.outbox v).log)
    (hu : ∀ v, ∀ m ∈ st'.unsent v, m ∈ st.unsent v ∨ st.Sayable v m)
    (ht : ∀ v m, todo' (.send v m) → todo (.send v m)) : Parted st' todo' where
  known x p := by rw [hp, hs]; exact h.known x p
  leaving v x hx := by rw [hp, hs]; exact h.leaving v x (ht v _ hx)
  acts v m hm := h.acts v m (ht v m hm)
  left v x := by rw [hp, hs, hl]; exact h.left v x
  own v m hm := (hu v m hm).elim (h.own v m) (·.1)
  unnamed v x hx m hm :=
    (hu v m hm).elim (h.unnamed v x (hl v ▸ hx) m) (·.2 x (hl v ▸ hx))
  log v := by rw [hl]; exact h.log v

lemma Parted.send (h : Parted st todo) {v : PeerId} {m : Msg}
    (hgone : ∀ x ∈ m.departed, (st.seen x).isSome ∧ st.peers.get x = none)
    (hquiet : ∀ x ∈ m.departed, (st.outbox v).takes → ∀ m' ∈ st.unsent v, m'.names x = false)
    (hnamed : ∀ x, .peerLeft x ∈ (st.outbox v).log → m.names x = false) :
    Parted (st.send v m) todo := by
  have hmem : ∀ w x, .peerLeft x ∈ ((st.send v m).outbox w).log →
      .peerLeft x ∈ (st.outbox w).log ∨ w = v ∧ x ∈ m.departed ∧ (st.outbox v).takes := by
    intro w x hx
    simp only [State.send, State.setOutbox, Function.update_apply] at hx
    split_ifs at hx with hw
    · subst hw
      rw [Outbox.log_send] at hx
      split_ifs at hx with ht
      · rcases List.mem_append.mp hx with hx | hx
        · exact .inl hx
        · rw [List.mem_singleton] at hx
          exact .inr ⟨rfl, by rw [← hx]; rfl, ht⟩
      · exact .inl hx
    · exact .inl hx
  refine ⟨h.known, h.leaving, fun w x hx => ?_, h.acts, h.own, fun w x hx => ?_, fun w => ?_⟩
  · rcases hmem w x hx with hx | ⟨-, hx, -⟩
    · -- it was in the log before
      exact h.left w x hx
    · exact hgone x hx
  · -- what is in the log already
    rcases hmem w x hx with hx | ⟨rfl, hx, ht⟩
    · exact h.unnamed w x hx
    · exact hquiet x hx ht
  · simp only [State.send, State.setOutbox, Function.update_apply]
    split_ifs with hw
    · subst hw
      rw [Outbox.log_send]
      split_ifs
      · exact neverNamed_snoc.mpr ⟨h.log w, hnamed⟩
      · exact h.log w
    · exact h.log w

/-! ### One step -/

lemma unsent_hold (id v : PeerId) (steps : List Step) :
    (st.hold id steps).unsent v = if v = id then steps.filterMap Step.msg else st.unsent v := by
  simp only [State.unsent, State.hold, State.setAudio, Function.update_apply]
  split_ifs <;> rfl

lemma mem_unsent_setAudio {id v : PeerId} {f : AudioPeer → AudioPeer} {m : Msg}
    (hm : m ∈ (st.setAudio id f).unsent v) (hf : ∀ a, (f a).holder = a.holder) :
    m ∈ st.unsent v := by
  simp only [State.unsent, State.setAudio, Function.update_apply] at hm
  split_ifs at hm with hv
  · subst hv
    rwa [hf] at hm
  · exact hm

lemma msgs_steps (p : Plan) : p.steps.filterMap Step.msg =
    if p.assignments = [] then [] else [.audioSlots p.assignments] := by
  simp only [Plan.steps, List.filterMap_append, List.filterMap_map]
  split_ifs <;> simp [Function.comp_def, Step.msg]

lemma names_assignments {self x : PeerId} {tracks : Tracks} {slots : List Slot}
    (h : (Msg.audioSlots (plan self tracks slots).assignments).names x = true) :
    ∃ t ∈ tracks.values, t.owner = x := by
  simp only [Msg.names, Plan.assignments, List.any_append, List.any_map, Bool.or_eq_true,
    List.any_eq_true, Function.comp_apply, decide_eq_true_eq, reduceCtorEq, and_false,
    Option.some.injEq] at h
  obtain ⟨-, ⟨⟩⟩ | ⟨⟨slot, t⟩, ht, rfl⟩ := h
  have hw := (plan_given (List.mem_map_of_mem ht)).1
  exact ⟨t, tracks.mem_values.mpr (mem_want.mp hw).1, rfl⟩

lemma mem_msgs_locked {applied : Bool} {id : PeerId} {rest : List Step} {s : Step} {m : Msg}
    (h : m ∈ (st.locked applied id rest s).2.filterMap Step.msg) :
    m ∈ (s :: rest).filterMap Step.msg ∨ m = .offer ∨
      s = .read ∧ m = .audioSlots (plan id st.tracks (st.audio id).sync.slots).assignments := by
  cases s with
  | check =>
    simp only [State.locked] at h
    split_ifs at h
    · cases h
    · exact .inl h
  | read =>
    simp only [State.locked, List.filterMap_append, List.mem_append, msgs_steps] at h
    rcases h with h | h
    · split_ifs at h
      · cases h
      · exact .inr (.inr ⟨rfl, List.mem_singleton.mp h⟩)
    · exact .inl h
  | offer n =>
    simp only [State.locked] at h
    split_ifs at h
    · rcases List.mem_cons.mp h with h | h
      · exact .inr (.inl h)
      · exact .inl h
    · exact .inl h
  | send m' =>
    simp only [State.locked] at h
    split_ifs at h
    · exact .inl h
    · exact .inl (List.mem_cons_of_mem _ h)
  | post m' => exact .inl (List.mem_cons_of_mem _ h)
  | removeSub t => exact .inl h
  | addSub t slot => exact .inl h

lemma locked_frame {applied : Bool} {id : PeerId} {rest : List Step} (s : Step) :
    (st.locked applied id rest s).1.peers = st.peers ∧
    (st.locked applied id rest s).1.seen = st.seen ∧
    (∀ v, (st.locked applied id rest s).1.unsent v = st.unsent v) ∧
    (st.locked applied id rest s).1.outbox =
      match s with
      | .post m => (st.send id m).outbox
      | _ => st.outbox := by
  refine ⟨by cases s <;> rfl, by cases s <;> rfl, fun v => ?_, by cases s <;> rfl⟩
  cases s
  case read | offer =>
    simp only [State.locked, State.unsent, State.setSync, State.setAudio, Function.update_apply]
    split_ifs with hv
    · subst hv; rfl
    · rfl
  all_goals rfl

lemma get_joined {ord : Order} {p : Peer} {x : PeerId} (hnew : st.seen p.id = none)
    (hs : (st.seen x).isSome)
    (hx : st.peers.get x = none ∨ x ∈ (st.evicted ord p).map Peer.id) :
    ((st.joined ord p).seen x).isSome ∧ (st.joined ord p).peers.get x = none := by
  have hne : x ≠ p.id := by
    rintro rfl
    simp [hnew] at hs
  rw [seen_joined, if_neg hne, peers_joined, if_neg hne]
  refine ⟨hs, ?_⟩
  split_ifs with hm
  · rfl
  · exact hx.resolve_right hm

lemma Parted.addPeer {ord : Order} {p : Peer} (hr : st.addPeer ord p = some r)
    (h : Parted st fun a => a = .addPeer p ∨ todo a) :
    Parted r.st fun a => (a ∈ r.next ∨ a ∈ r.spawned.flatten) ∨ todo a := by
  obtain ⟨hnew, hst, hsp, hnext⟩ := addPeer_spec hr
  simp only [hst, hsp, hnext, List.flatten_nil, List.not_mem_nil, or_false]
  refine ⟨fun x q hx => ?_, fun v x hx => ?_, fun v x hx => ?_, fun v m hm => ?_, h.own,
    h.unnamed, h.log⟩
  · rw [seen_joined]
    rw [peers_joined] at hx
    split_ifs at hx ⊢
    · rfl
    · exact h.known x q hx
  · -- a `peer-left` is about one who is evicted, or was on its way before
    rcases hx with (⟨id, hid, hx | ⟨_, -, hx⟩⟩ | ⟨_, -, hx⟩ | ⟨hx, -⟩) | hx
    · cases hx
    · cases hx
      obtain ⟨q, hq⟩ := mem_evicted hid
      exact get_joined hnew (h.known _ q hq) (.inr hid)
    · cases hx
    · cases hx
    · have hl := h.leaving v x (.inr hx)
      exact get_joined hnew hl.1 (.inl hl.2)
  · have hl := h.left v x hx
    exact get_joined hnew hl.1 (.inl hl.2)
  · rcases hm with (⟨_, -, hm | ⟨_, -, hm⟩⟩ | ⟨_, -, hm⟩ | ⟨hm, -⟩) | hm
    all_goals try cases hm
    · exact fun _ => rfl
    · exact fun _ => rfl
    · exact h.acts v m (.inr hm)

lemma Parted.removePeer {ord : Order} {id : PeerId}
    (h : Parted st fun a => a = .removePeer id ∨ todo a) :
    Parted (st.removePeer ord id).st fun a =>
      (a ∈ (st.removePeer ord id).next ∨ a ∈ (st.removePeer ord id).spawned.flatten) ∨ todo a := by
  rcases hp : st.peers.get id with _ | p
  · -- the peer is gone already
    rw [removePeer_absent hp]
    exact h.quiet rfl rfl (fun _ => rfl) (fun _ _ => .inl) fun v x hx => by simpa using hx
  obtain ⟨hst, hsp, hnext⟩ := @removePeer_spec st ord p id hp
  simp only [hst, hsp, hnext, List.flatten_nil, List.not_mem_nil, or_false]
  have hgone : ∀ x, st.peers.get x = none ∨ x = id → (st.without [id]).peers.get x = none := by
    intro x hx
    rw [peers_without]
    split_ifs with hid
    · rfl
    · exact hx.resolve_right fun he => hid (List.mem_singleton.mpr he)
  refine ⟨fun x q hx => ?_, fun v x hx => ?_, fun v x hx => ?_, fun v m hm => ?_, h.own,
    h.unnamed, h.log⟩
  · -- whoever is left was there before
    rw [peers_without] at hx
    split_ifs at hx
    exact h.known x q hx
  · -- a `peer-left` is about the one who goes, or was on its way before
    rcases hx with (hx | ⟨_, -, hx⟩ | ⟨hx, -⟩) | hx
    · cases hx
    · cases hx
      exact ⟨h.known id p hp, hgone id (.inr rfl)⟩
    · cases hx
    · have hl := h.leaving v x (.inr hx)
      exact ⟨hl.1, hgone x (.inl hl.2)⟩
  · have hl := h.left v x hx
    exact ⟨hl.1, hgone x (.inl hl.2)⟩
  · rcases hm with (hm | ⟨_, -, hm⟩ | ⟨hm, -⟩) | hm
    all_goals try cases hm
    · exact fun _ => rfl
    · exact h.acts v m (.inr hm)

lemma Parted.computed {applied : Bool} {id : PeerId} {s : Step} {rest : List Step}
    (h : Parted st todo) (hh : (st.audio id).holder = some (s :: rest))
    (ht : st.InTime (.held id)) :
    ∀ m ∈ (st.locked applied id rest s).2.filterMap Step.msg,
      m ∈ st.unsent id ∨ st.Sayable id m := by
  have hold : st.unsent id = (s :: rest).filterMap Step.msg := by rw [State.unsent, hh]; rfl
  intro m hm
  rcases mem_msgs_locked hm with hm | rfl | ⟨rfl, rfl⟩
  · exact .inl (hold ▸ hm)
  · exact .inr ⟨rfl, fun _ _ => rfl⟩
  · refine .inr ⟨rfl, fun x hx => ?_⟩
    -- the owner of a track that was read is in the room, so it has not left
    by_contra hn
    obtain ⟨t, hmem, rfl⟩ := names_assignments (Bool.eq_true_of_not_eq_false hn)
    have hin := ht (by simp [State.reading, hh]) t hmem
    simp [(h.left id t.owner hx).2] at hin

/-- Under the lock a message is posted that was unsent, or nothing is sent. -/
lemma Parted.held {applied : Bool} {id : PeerId} (hr : st.held applied id = some r)
    (h : Parted st todo) (ht : st.InTime (.held id)) : Parted r.st todo := by
  rcases held_spec hr with ⟨s, rest, hh, rfl⟩ | ⟨hh, rfl⟩
  · obtain ⟨hp, hs, hun, ho⟩ := @locked_frame st applied id rest s
    have hu : ∀ v, ∀ m ∈ ((st.locked applied id rest s).1.hold id
        (st.locked applied id rest s).2).unsent v, m ∈ st.unsent v ∨ st.Sayable v m := by
      intro v m hm
      rw [unsent_hold] at hm
      split_ifs at hm with hv
      · subst hv
        exact h.computed hh ht m hm
      · exact .inl (hun v ▸ hm)
    rw [go_st]
    cases s with
    -- what is posted was to be posted
    | post m =>
      have hm : m ∈ st.unsent id := by rw [State.unsent, hh]; exact List.mem_cons_self
      have hsent : Parted (st.send id m) todo :=
        h.send (by simp [h.own id m hm]) (by simp [h.own id m hm])
          fun x hx => h.unnamed id x hx m hm
      refine hsent.quiet rfl rfl (fun _ => rfl) (fun v m' hm' => .inl ?_) fun _ _ ha => ha
      rw [unsent_hold] at hm'
      split_ifs at hm' with hv
      · subst hv
        show m' ∈ st.unsent v
        rw [State.unsent, hh]
        exact List.mem_cons_of_mem _ hm'
      · exact hm'
    | _ => exact h.quiet hp hs (fun v => congrArg (fun f => (f v).log) ho) hu fun _ _ ha => ha
  · -- the section is over, with nothing left to send
    refine h.quiet rfl rfl (fun _ => rfl) (fun v m hm => ?_) fun _ _ ha => ha
    simp only [go_st, State.unsent, State.setAudio, Function.update_apply] at hm
    split_ifs at hm
    · cases hm
    · exact .inl hm

lemma Parted.pending (h : Parted st todo) (ht : ∀ v m, todo' (.send v m) → todo (.send v m)) :
    Parted st todo' := h.quiet rfl rfl (fun _ => rfl) (fun _ _ => .inl) ht

lemma Parted.exec (hr : exec ch m st = some r) (h : Parted st fun a => a = m ∨ todo a)
    (ht : st.InTime m) :
    Parted r.st fun a => (a ∈ r.next ∨ a ∈ r.spawned.flatten) ∨ todo a := by
  cases m with
  | addPeer p => exact h.addPeer hr
  | removePeer id => obtain rfl := Option.some.inj hr; exact h.removePeer
  | send id m =>
    obtain rfl := Option.some.inj hr
    -- what is sent was to be sent, and is about one who has left or names nobody
    refine (h.send (fun x hx => ?_) (fun x hx => ?_) fun x _ => h.acts id m (.inl rfl) x).pending ?_
    · cases m <;> cases hx
      exact h.leaving id _ (.inl rfl)
    · cases m <;> cases hx
      exact ht
    · simp +contextual
  | held id =>
    refine (h.held hr ht).pending ?_
    rcases held_spec hr with ⟨s, rest, -, rfl⟩ | ⟨-, rfl⟩ <;> simp +contextual
  | cancel id =>
    obtain rfl := Option.some.inj hr
    refine h.quiet rfl rfl (fun v => ?_) (fun _ _ => .inl) (by simp +contextual)
    simp only [go_st, State.cancel, State.setOutbox, Function.update_apply]
    split_ifs with hv
    · subst hv; rfl
    · rfl
  | collect =>
    obtain rfl := Option.some.inj hr
    exact h.pending (by simp +contextual [State.collect])
  | renegotiate id =>
    obtain rfl := Option.some.inj hr
    refine h.pending fun v m hm => ?_
    simp only [State.renegotiate, go_next, go_spawned] at hm
    split_ifs at hm <;> simpa using hm
  | sync id =>
    simp only [VoiceHub.Sfu.Audio.exec, State.sync] at hr
    split_ifs at hr <;> obtain rfl := Option.some.inj hr
    · exact h.pending (by simp +contextual)
    · -- the section begins with nothing to send
      refine h.quiet rfl rfl (fun _ => rfl) (fun v m hm => ?_) (by simp +contextual)
      rw [go_st, unsent_hold] at hm
      split_ifs at hm
      · cases hm
      · exact .inl hm
  | acceptAnswer id ok =>
    simp only [VoiceHub.Sfu.Audio.exec, State.acceptAnswer] at hr
    split_ifs at hr <;> obtain rfl := Option.some.inj hr
    · -- a new section, with nothing to send yet
      refine h.quiet rfl rfl (fun _ => rfl) (fun v m hm => ?_) (by simp +contextual)
      rw [go_st, unsent_hold] at hm
      split_ifs at hm
      · cases hm
      · exact .inl (mem_unsent_setAudio hm fun _ => rfl)
    · exact h.pending (by simp +contextual)
  | published id =>
    simp only [VoiceHub.Sfu.Audio.exec, State.published] at hr
    split at hr <;> cases hr
    refine h.quiet rfl rfl (fun _ => rfl) (fun v m hm => .inl ?_) (by simp +contextual)
    simp only at hm
    exact mem_unsent_setAudio hm fun _ => rfl
  | closePc id =>
    obtain ⟨next, rfl, hnext⟩ := closePc_spec hr
    refine h.quiet rfl rfl (fun _ => rfl) (fun v m hm => .inl ?_) fun v m hm => ?_
    · rw [go_st] at hm
      exact mem_unsent_setAudio hm fun _ => rfl
    · rw [go_next] at hm
      obtain ⟨-, rfl⟩ | rfl := hnext <;> simpa using hm
  | unpublish id =>
    obtain rfl := Option.some.inj hr
    unfold State.unpublish
    repeat' split
    all_goals exact h.quiet rfl rfl (fun _ => rfl) (fun _ _ => .inl) (by simp +contextual)
  | dropSubs id =>
    simp only [VoiceHub.Sfu.Audio.exec, State.dropSubs] at hr
    split at hr <;> cases hr
    refine h.quiet rfl rfl (fun _ => rfl) (fun v m hm => ?_) (by simp +contextual)
    rw [go_st, unsent_hold, List.filterMap_map] at hm
    split_ifs at hm
    · simp [Function.comp_def, Step.msg] at hm
    · exact .inl hm

lemma Parted.begin {e : Event} {o : Option PeerId} {acts : List Act}
    (hb : st.begin e = some (st', o, acts)) (h : Parted st todo) :
    Parted st' fun a => todo a ∨ a ∈ acts := by
  cases e with
  | join p => cases hb; exact h.pending (by simp +contextual)
  | leave id =>
    simp only [State.begin] at hb
    split at hb <;> cases hb
    refine h.quiet rfl rfl (fun _ => rfl) (fun _ _ => .inl) fun v m hm => ?_
    split_ifs at hm <;> simpa using hm
  | answer id ok =>
    simp only [State.begin] at hb
    split at hb <;> cases hb
    exact h.pending (by simp +contextual)
  | renegotiate id =>
    simp only [State.begin] at hb
    split at hb <;> cases hb
    exact h.pending (by simp +contextual)
  | cancel id =>
    cases hb
    refine h.quiet rfl rfl (fun v => ?_) (fun _ _ => .inl) (by simp +contextual)
    simp only [State.cancel, State.setOutbox, Function.update_apply]
    split_ifs with hv
    · subst hv; rfl
    · rfl
  | pcDied id =>
    simp only [State.begin] at hb
    split at hb <;> cases hb
    exact h.quiet rfl rfl (fun _ => rfl)
      (fun v m hm => .inl (mem_unsent_setAudio hm fun _ => rfl)) (by simp +contextual)
  | publish id =>
    obtain ⟨st₁, hp, hb⟩ := Option.map_eq_some_iff.mp hb
    cases hb
    unfold State.publish at hp
    simp only at hp
    split_ifs at hp
    cases hp
    have hu : ∀ v, ∀ m ∈ (st.setAudio id ({ · with delivering := some ⟨st.next, id⟩ })).unsent v,
        m ∈ st.unsent v := fun v m hm => mem_unsent_setAudio hm fun _ => rfl
    exact h.quiet rfl rfl (fun _ => rfl) (fun v m hm => .inl (hu v m hm)) (by simp +contextual)
  | sweep t =>
    cases hb
    exact h.quiet rfl rfl (fun _ => rfl) (fun _ _ => .inl) (by simp +contextual)
  | drain id =>
    cases hb
    refine h.quiet rfl rfl (fun v => ?_) (fun _ _ => .inl) (by simp +contextual)
    simp only [State.setOutbox, Function.update_apply]
    split_ifs with hv
    · subst hv; rfl
    · rfl
  | other id =>
    cases hb
    exact (h.send (by simp [Msg.departed]) (by simp [Msg.departed]) fun _ _ => rfl).pending
      (by simp +contextual)

/-- **No slot is announced for a departed peer** in a run that is in time: no queue ever
holds an owner of a slot after the `peer-left` of that owner. -/
theorem never_named {c : Config} (h : Reach StepsInTime c) (v : PeerId) :
    NeverNamed (c.st.outbox v).log := by
  have hI : Parted c.st (· ∈ c.work) := by
    refine h.invariant (I := fun c => Parted c.st (· ∈ c.work)) ?_ fun c l c' hc hg hs => ?_
    · simpa [init, Pool.work] using parted_init
    · refine step_keeps hs hc (fun i ch m r P hl hm hr hP => ?_) fun e st o todo P _ hb hP => ?_
      · subst hl
        exact hP.exec hr (hg m hm)
      · exact hP.begin hb
  exact hI.log v

/-! ### Two runs -/

/-- `v` has open slots, `x` has joined, publishes, and `v` has read the tracks. -/
def aboutToAnnounce : List Label :=
  [.event (.join ⟨"v", "", false⟩)] ++ runs 10 0 ++ [.event (.answer "v" true)] ++ runs 4 1 ++
  [.event (.join ⟨"x", "", false⟩)] ++ runs 15 2 ++ [.event (.publish "x")] ++ runs 1 3 ++
  runs 5 4

/-- `x` leaves after its slot is announced, and `v` frees the slot. -/
def announcedInTime : List Label :=
  aboutToAnnounce ++ runs 4 4 ++ [.event (.cancel "x"), .event (.leave "x")] ++ runs 10 6

/-- The `peer-left` of `x` overtakes the announcement. -/
def announcedLate : List Label :=
  aboutToAnnounce ++ [.event (.cancel "x"), .event (.leave "x")] ++ runs 3 6 ++ runs 2 4

theorem never_named_announcedInTime :
    NeverNamed ((after announcedInTime).st.outbox "v").log ∧
      ((after announcedInTime).st.outbox "v").log =
        [.other, .offer, .other, .audioSlots [⟨"slot-0", some "x"⟩], .peerLeft "x",
          .audioSlots [⟨"slot-0", none⟩]] :=
  ⟨never_named (Machine.Reach.of_isSome (by decide +kernel) (by decide +kernel)) "v",
    by decide +kernel⟩

/-- Not every run is in time. -/
theorem named_late :
    ¬ ∀ c : Config, Reach Machine.free c → ∀ v, NeverNamed (c.st.outbox v).log := by
  intro h
  have hc : Reach Machine.free (after announcedLate) :=
    Machine.Reach.of_isSome (Machine.meets_free _ _) (by decide +kernel)
  have hn : ¬NeverNamed ((after announcedLate).st.outbox "v").log := by decide +kernel
  exact hn (h _ hc "v")

end VoiceHub.Sfu.Audio
