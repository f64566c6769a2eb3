import Mathlib
import VoiceHub.Sfu.Room.Feed

/-!
One peer for a client: a client that joins again takes the place of its earlier self.

The section that joins a peer takes the others of its client out of the room, and cancels them
by steps that follow it. Until then the connection of an evicted peer is still served, so that
the cancellation must never be lost.
-/

namespace VoiceHub.Sfu.Room

open VoiceHub.Lib

variable {c c' : Config} {l : Label} {ch : Choice} {st : State} {a : Act} {r : Effect}
  {v : PeerId} {e : Entry} {G : Config → Label → Prop}

/-- Whoever has left is cut off, or will be. -/
def CutOff (c : Config) : Prop :=
  ∀ v, Left c.st v → .cancel v ∈ c.work ∨ (c.st.outbox v).cancelled = true

/-! ### What a departure leaves behind -/

lemma peers_addPeer {ord : Order} {p : Peer} {name : String}
    (h : st.addPeer ord p name = some r) :
    r.st.peers = (st.staying ord p).peers.insert (State.newEntry p name) := by
  unfold State.addPeer at h
  split at h <;> cases h
  rfl

lemma cancel_of_evicted {ord : Order} {p : Peer} {name : String}
    (h : st.addPeer ord p name = some r) (he : e ∈ st.evicted ord p) :
    .cancel e.peer.id ∈ r.next := by
  unfold State.addPeer at h
  split at h
  · cases h
  obtain rfl := Option.some.inj h
  obtain ⟨i, hi, rfl⟩ := List.mem_iff_getElem.mp he
  have hmem : ((st.evicted ord p)[i], i) ∈ (st.evicted ord p).zipIdx :=
    List.mk_mem_zipIdx_iff_getElem?.mpr (List.getElem?_eq_getElem hi)
  refine List.mem_append_left _ (List.mem_append_left _ (List.mem_append_left _ ?_))
  exact List.mem_flatMap.mpr ⟨_, hmem, List.mem_cons_self⟩

lemma cancel_of_gone (h : exec ch a st = some r) (hv : st.peers.get v = some e)
    (hgone : r.st.peers.get v = none) : .cancel v ∈ r.next := by
  have hpeer : st.core.peer v = some e.peer := Option.map_eq_some_iff.mpr ⟨e, hv, rfl⟩
  have hpeer' : r.st.core.peer v = none := Option.map_eq_none_iff.mpr hgone
  have hid := st.peers.id_of_get hv
  have hown := exec_own h
  generalize r.st.core = k', coreActs r.next = next at hown hpeer'
  cases hown with
  | @join p name gone hfresh hg =>
    rw [exec] at h
    have hev : v ∈ (st.evicted ch.order p).map (·.peer.id) := by
      by_contra hstays
      rw [peers_addPeer h, Peers.get_insert, get_staying, if_neg hstays, hv] at hgone
      split_ifs at hgone
    obtain ⟨e', he', rfl⟩ := List.mem_map.mp hev
    exact cancel_of_evicted h he'
  | @leave id o howner =>
    obtain rfl := Option.some.inj h
    have hleaver : v = id := by
      by_contra hne
      dsimp only at hpeer'
      rw [Function.update_of_ne hne, hpeer] at hpeer'
      cases hpeer'
    subst hleaver
    rw [State.removePeer, hv]
    simp [State.go]
  | _ => exact absurd (hpeer.symm.trans hpeer') (Option.some_ne_none e.peer)

/-! ### Nobody who has left goes on -/

lemma cutOff_init : CutOff init := by
  intro v hv
  cases hv.2

lemma cancelled_update {out : PeerId → Outbox Msg} {id : PeerId} {o : Outbox Msg}
    (hc : (out v).cancelled = true) (ho : (out id).cancelled = true → o.cancelled = true) :
    (Function.update out id o v).cancelled = true := by
  rw [Function.update_apply]
  split_ifs with hv
  · subst hv
    exact ho hc
  · exact hc

lemma Outbox.cancelled_send {o : Outbox Msg} (m : Msg) (h : o.cancelled = true) :
    (o.send m).cancelled = true := by
  rw [Outbox.send, if_pos h]
  exact h

lemma exec_cancelled (h : exec ch a st = some r) (hc : (st.outbox v).cancelled = true) :
    (r.st.outbox v).cancelled = true := by
  rw [exec_outbox h]
  cases a with
  | send seq op m => exact cancelled_update hc (Outbox.cancelled_send m)
  | cancel id => exact cancelled_update hc fun _ => rfl
  | _ => exact hc

lemma CutOff.run (h : CutOff c) {i : ℕ} (hs : step c (.run i ch) = some c') : CutOff c' := by
  intro v hv
  obtain ⟨a, r, W, -, hr, hst, hw, hw'⟩ := Pool.advance_work hs
  rw [hst] at hv ⊢
  have hnext (hc : .cancel v ∈ r.next) : .cancel v ∈ c'.work :=
    hw'.mem_iff.mpr (List.mem_append_left _ (List.mem_append_left _ hc))
  cases hthere : c.st.peers.get v with
  | some e => exact .inl (hnext (cancel_of_gone hr hthere hv.1))
  | none =>
    have hseen : (c.st.seen v).isSome := by
      obtain heq | ⟨-, hin⟩ := exec_seen_eq hr v
      · rw [← heq]
        exact hv.2
      · rw [hv.1] at hin
        cases hin
    rcases h v ⟨hthere, hseen⟩ with hcancel | hdone
    · rcases List.mem_cons.mp (hw.mem_iff.mp hcancel) with rfl | hmem
      · right
        rw [exec_outbox hr, Act.queues, Function.update_self]
      · exact .inl (hw'.mem_iff.mpr (List.mem_append_right _ hmem))
    · exact .inr (exec_cancelled hr hdone)

lemma begin_cancelled {ev : Event} {st' : State} {o : Option PeerId} {todo : List Act}
    (h : ev.begin st = some (st', o, todo)) (hc : (st.outbox v).cancelled = true) :
    (st'.outbox v).cancelled = true := by
  cases ev <;> simp only [Event.begin, Event.begin.message] at h <;> (try split at h) <;> cases h
  case other id => exact cancelled_update hc (Outbox.cancelled_send .other)
  case drain id _ => exact cancelled_update hc fun h => h
  all_goals exact hc

theorem CutOff.step (h : CutOff c) (hs : Room.step c l = some c') : CutOff c' := by
  cases l with
  | run i ch => exact h.run hs
  | event ev =>
    obtain ⟨st, o, todo, hb, rfl, -⟩ := step_event hs
    obtain ⟨hpeers, hseen, -, -⟩ := begin_tells hb
    intro v hv
    rw [Pool.st_launch, Left, hpeers, hseen] at hv
    rw [Pool.st_launch, Pool.work_launch]
    exact (h v hv).imp (List.mem_append_left _) (begin_cancelled hb)

lemma left_stays (h : Machine.Reach step G c c') (hv : Left c.st v) : Left c'.st v := by
  refine Machine.Reach.invariant (I := fun c => Left c.st v) hv (fun c l c' hc _ hs => ?_) h
  cases l with
  | run i ch =>
    obtain ⟨a, r, W, -, hr, hst, -, -⟩ := Pool.advance_work hs
    rw [hst]
    exact exec_left hr hc
  | event ev =>
    obtain ⟨st, o, todo, hb, rfl, -⟩ := step_event hs
    obtain ⟨hpeers, hseen, -, -⟩ := begin_tells hb
    rwa [Pool.st_launch, Left, hpeers, hseen]

/-- **One peer for a client.** Whatever runs at the same time, no two connected peers have one
client; and whoever was put out of the room, or left it, is cancelled or about to be, and is
never in it again. -/
theorem one_peer_per_client (h : Reach G c) :
    (∀ k k' e e', c.st.peers.get k = some e → c.st.peers.get k' = some e' →
      e.peer.clientId ≠ "" → e'.peer.clientId = e.peer.clientId → k' = k) ∧
    ∀ v p, c.st.seen v = some p → c.st.peers.get v = none →
      (.cancel v ∈ c.work ∨ (c.st.outbox v).cancelled = true) ∧
      ∀ c', Machine.Reach step G c c' → c'.st.peers.get v = none := by
  refine ⟨fun k k' e e' he he' hid heq => ?_, fun v p hp hgone => ?_⟩
  · by_contra hne
    exact h.wired.apart k k' e e' he he' (Ne.symm hne) hid heq
  · have hleft : Left c.st v := ⟨hgone, by rw [hp]; rfl⟩
    have hcut : CutOff c := Machine.Reach.invariant cutOff_init (fun _ _ _ hc _ hs => hc.step hs) h
    exact ⟨hcut v hleft, fun c' h' => (left_stays h' hleft).1⟩

/-- A client joins, and joins again. -/
def joinedAgain : List Label :=
  [.event (.join ⟨"p1", "tab", false⟩ "Alice"), .run 0 .plain,
    .event (.join ⟨"p2", "tab", false⟩ "Alice"), .run 1 .plain]

theorem one_peer_per_client_joinedAgain :
    (.cancel "p1" ∈ (after joinedAgain).work ∨
      ((after joinedAgain).st.outbox "p1").cancelled = true) ∧
    ∀ c', Machine.Reach step Machine.free (after joinedAgain) c' → c'.st.peers.get "p1" = none :=
  (one_peer_per_client (reach_after (Machine.meets_free _ _) (by decide +kernel))).2 "p1"
    ⟨"p1", "tab", false⟩ (by decide +kernel) (by decide +kernel)

end VoiceHub.Sfu.Room
