import Mathlib
import VoiceHub.Lib.Writes
import VoiceHub.Client.RoomPeers
import VoiceHub.Sfu.Room.Notices

/-!
The presence deltas of a room's operations.

A delta is a write to what a page shows of one peer: of the peer as it is once the step that
computed the delta is over. Every step that changes what is to be shown of a peer computes one.
-/

namespace VoiceHub.Sfu.Room

open VoiceHub.Lib
open VoiceHub.Client (PeerSummary parsePeer shown)

abbrev Shown := Write PeerId (List PeerSummary)

/-- The delta a step pushes. -/
def Act.shows : Act → Option Shown
  | .presence seq d => some ⟨seq, d.subject, d.shows⟩
  | _ => none

def deltas (l : List Act) : List Shown := l.filterMap Act.shows

section Deltas

variable {l l' : List Act}

@[simp] lemma deltas_nil : deltas [] = [] := rfl

@[simp] lemma deltas_append : deltas (l ++ l') = deltas l ++ deltas l' := List.filterMap_append ..

@[simp] lemma deltas_cons (a : Act) : deltas (a :: l) = a.shows.toList ++ deltas l := by
  rw [deltas, List.filterMap_cons]
  rcases a.shows with _ | w <;> rfl

lemma deltas_eq_nil (h : ∀ a ∈ l, a.shows = none) : deltas l = [] :=
  List.filterMap_eq_nil_iff.mpr h

lemma deltas_map {α : Type} (g : α → Act) (hg : ∀ x, (g x).shows = none) (xs : List α) :
    deltas (xs.map g) = [] :=
  deltas_eq_nil fun a ha => by
    obtain ⟨x, -, rfl⟩ := List.mem_map.mp ha
    exact hg x

lemma deltas_flatMap {α : Type} (g : α → List Act) (hg : ∀ x, deltas (g x) = []) (xs : List α) :
    deltas (xs.flatMap g) = [] := by
  induction xs with
  | nil => rfl
  | cons x xs ih => rw [List.flatMap_cons, deltas_append, hg x, ih, List.append_nil]

end Deltas

/-- What is to be shown of a connected peer. -/
def Entry.summary (e : Entry) : PeerSummary where
  id := e.peer.id
  displayName :=
    if VoiceHub.Client.trim e.displayName = "" then "peer-" ++ e.peer.id
    else VoiceHub.Client.trim e.displayName
  chatOnly := e.peer.chatOnly

namespace State

/-- What is to be shown of every peer. -/
def summaries (st : State) (id : PeerId) : List PeerSummary :=
  ((st.peers.get id).map Entry.summary).toList

/-- `Room::peers`. -/
def peerInfos (st : State) (ord : Order) : List PeerInfo := (ord.list st.peers.values).map st.info

end State

variable {ch : Choice} {a : Act} {st st' : State} {r : Effect} {ord : Order}

lemma shown_peerInfos : shown ((st.peerInfos ord).map parsePeer) = st.summaries := by
  funext id
  have hshown : shown ((st.peerInfos ord).map parsePeer) id =
      ((ord.list st.peers.values).filter (·.peer.id = id)).map Entry.summary := by
    rw [shown, State.peerInfos, List.map_map, List.filter_map]
    rfl
  rw [hshown, State.summaries]
  have hmem (e : Entry) : e ∈ (ord.list st.peers.values).filter (·.peer.id = id) ↔
      st.peers.get id = some e := by
    rw [List.mem_filter, ord.mem_list, st.peers.mem_values, decide_eq_true_eq]
    constructor
    · rintro ⟨he, rfl⟩
      exact he
    · intro he
      have hid := st.peers.id_of_get he
      exact ⟨hid ▸ he, hid⟩
  cases he : st.peers.get id with
  | none =>
    have hnone : (ord.list st.peers.values).filter (·.peer.id = id) = [] := by
      refine List.eq_nil_iff_forall_not_mem.mpr fun e hin => ?_
      rw [hmem, he] at hin
      cases hin
    rw [hnone]
    rfl
  | some e =>
    have hnd : ((ord.list st.peers.values).filter (·.peer.id = id)).Nodup :=
      (((ord.nodup_list).mpr (List.Nodup.of_map _ st.peers.nodup_ids)).filter _)
    have hperm : ((ord.list st.peers.values).filter (·.peer.id = id)).Perm [e] := by
      refine (List.perm_ext_iff_of_nodup hnd (List.nodup_singleton e)).mpr fun e' => ?_
      rw [hmem, he, Option.some.injEq, List.mem_singleton, eq_comm]
    rw [List.perm_singleton.mp hperm]
    rfl

lemma summaries_eq {id : PeerId} {e : Entry} (h : st.peers.get id = some e) :
    st.summaries id = [e.summary] := by
  rw [State.summaries, h]
  rfl

lemma summaries_modify {id : PeerId} {f : Entry → Entry} {e : Entry}
    (hp : st'.peers = st.peers.modify id f) (h : st.peers.get id = some e) :
    st'.summaries =
      Function.update st.summaries id [({ f e with peer := e.peer } : Entry).summary] := by
  funext k
  rw [State.summaries, hp, Peers.get_modify, h, Function.update_apply]
  split_ifs <;> rfl

lemma summaries_modify_eq {id : PeerId} {f : Entry → Entry}
    (hf : ∀ e, (f e).displayName = e.displayName) (hp : st'.peers = st.peers.modify id f) :
    st'.summaries = st.summaries := by
  funext k
  rw [State.summaries, State.summaries, hp, Peers.get_modify]
  split_ifs with hk
  · rw [hk, Option.map_map]
    refine congrArg Option.toList (congrArg (Option.map · _) (funext fun e => ?_))
    simp [Entry.summary, hf]
  · rfl

/-- What a step computes, and what becomes of it. -/
structure Reports (st : State) (r : Effect) : Prop where
  clock : st.clock ≤ r.st.clock
  numbered : ∀ w ∈ deltas r.next, st.clock ≤ w.seq ∧ w.seq < r.st.clock
  leads : Leads ↑(deltas r.next) st.summaries r.st.summaries

lemma Reports.quiet (hc : st.clock ≤ r.st.clock) (hs : r.st.summaries = st.summaries)
    (hd : deltas r.next = []) : Reports st r where
  clock := hc
  numbered := by simp [hd]
  leads := by
    rw [hd, hs]
    exact .refl _

lemma reports_go {l : List Act} (h : deltas l = []) : Reports st (st.go l) := .quiet le_rfl rfl h

lemma summaries_keep (h : st.peers.Keep st'.peers) : st'.summaries = st.summaries := by
  funext k
  have hk := h k
  rw [State.summaries, State.summaries]
  generalize st.peers.get k = o at hk ⊢
  generalize st'.peers.get k = o' at hk ⊢
  cases hk with
  | none => rfl
  | some hkeeps => simp [Entry.summary, hkeeps.peer, hkeeps.displayName]

lemma deltas_of_news {l : List Act} (h : watched Act.isNews l = []) : deltas l = [] := by
  refine List.filterMap_eq_nil_iff.mpr fun b hb => ?_
  have hnone := eq_false_of_watched h b hb
  cases b with
  | presence => cases hnone
  | _ => rfl

lemma Discreet.reports (h : Discreet st r) : Reports st r :=
  .quiet h.clock (summaries_keep h.peers) (deltas_of_news h.next)

lemma Reports.one {w : Shown} (hd : deltas r.next = [w]) (hlo : st.clock ≤ w.seq)
    (hhi : w.seq < r.st.clock)
    (hs : r.st.summaries = Function.update st.summaries w.key w.value) : Reports st r where
  clock := hlo.trans hhi.le
  numbered u hu := by
    rw [hd, List.mem_singleton] at hu
    exact hu ▸ ⟨hlo, hhi⟩
  leads := by
    rw [hd, hs]
    exact .one w _

lemma deltas_broadcast (seq : ℕ) (ps : List PeerId) (m : Msg) :
    deltas (broadcast seq ps m) = [] := deltas_map _ (fun _ => rfl) _

lemma summaries_remove (id : PeerId) (hp : st'.peers = st.peers.remove id) :
    st'.summaries = Function.update st.summaries id [] := by
  funext k
  rw [State.summaries, hp, Peers.get_remove, Function.update_apply]
  split_ifs <;> rfl

lemma summaries_insert (e : Entry) (hp : st'.peers = st.peers.insert e) :
    st'.summaries = Function.update st.summaries e.peer.id [e.summary] := by
  funext k
  rw [State.summaries, hp, Peers.get_insert, Function.update_apply]
  split_ifs <;> rfl

/-- The deltas of the peers that an arriving one replaces. -/
def leftDeltas (st : State) (ord : Order) (p : Peer) : List Shown :=
  (st.evicted ord p).zipIdx.map fun x => ⟨st.clock + x.2, x.1.peer.id, []⟩

lemma mem_leftDeltas {p : Peer} {w : Shown} (h : w ∈ leftDeltas st ord p) :
    st.clock ≤ w.seq ∧ w.seq < st.clock + (st.evicted ord p).length ∧
      w.key ∈ (st.evicted ord p).map (·.peer.id) ∧ w.value = [] := by
  obtain ⟨x, hx, rfl⟩ := List.mem_map.mp h
  have hlt := List.snd_lt_of_mem_zipIdx hx
  exact ⟨Nat.le_add_right .., by simpa using hlt,
    List.mem_map_of_mem (List.fst_mem_of_mem_zipIdx hx), rfl⟩

lemma exists_leftDelta {p : Peer} {id : PeerId} (h : id ∈ (st.evicted ord p).map (·.peer.id)) :
    ∃ w ∈ leftDeltas st ord p, w.key = id := by
  obtain ⟨e, he, rfl⟩ := List.mem_map.mp h
  obtain ⟨i, hi⟩ := List.mem_iff_getElem?.mp he
  exact ⟨_, List.mem_map_of_mem (List.mk_mem_zipIdx_iff_getElem?.mpr hi), rfl⟩

lemma leads_leftDeltas (p : Peer) :
    Leads ↑(leftDeltas st ord p) st.summaries (st.staying ord p).summaries where
  settled w hw _ := by
    obtain ⟨-, -, hkey, hvalue⟩ := mem_leftDeltas (Multiset.mem_coe.mp hw)
    rw [hvalue, State.summaries, get_staying, if_pos hkey]
    rfl
  rest k hk := by
    rw [State.summaries, State.summaries, get_staying, if_neg]
    intro hin
    obtain ⟨w, hw, hkey⟩ := exists_leftDelta hin
    exact hk w (Multiset.mem_coe.mpr hw) hkey

lemma addPeer_reports {p : Peer} {name : String} (h : st.addPeer ord p name = some r) :
    Reports st r := by
  unfold State.addPeer at h
  split at h
  · cases h
  obtain rfl := Option.some.inj h
  have hdrop : deltas ((st.evicted ord p).zipIdx.flatMap fun x =>
      st.dropEvicted ord ((st.staying ord p).all ord) x.1 x.2) = [] := by
    refine deltas_flatMap _ (fun x => ?_) _
    rw [State.dropEvicted, List.cons_append, deltas_cons, deltas_append, deltas_broadcast,
      deltas_map _ (fun _ => rfl)]
    rfl
  have hleft : deltas ((st.evicted ord p).zipIdx.map fun x =>
      .presence (st.clock + x.2) (.left x.1.peer.id)) = leftDeltas st ord p := by
    rw [deltas, List.filterMap_map, leftDeltas, ← List.filterMap_eq_map]
    rfl
  obtain ⟨w, hw⟩ : ∃ w : Shown, w = ⟨st.clock + (st.evicted ord p).length + 1, p.id,
      [(State.newEntry p name).summary]⟩ := ⟨_, rfl⟩
  have hjoined : deltas [.presence (st.clock + (st.evicted ord p).length + 1)
      (.joined (st.info (State.newEntry p name)))] = [w] := by
    rw [hw]
    rfl
  have hdeltas : deltas (((st.evicted ord p).zipIdx.flatMap fun x =>
      st.dropEvicted ord ((st.staying ord p).all ord) x.1 x.2) ++
      .send (st.clock + (st.evicted ord p).length) p.id
        (.welcome p.id ((ord.list (st.staying ord p).peers.values).map st.info)) ::
      broadcast (st.clock + (st.evicted ord p).length + 1) ((st.staying ord p).all ord)
        (.peerJoined (st.info (State.newEntry p name))) ++
      ((st.evicted ord p).zipIdx.map fun x => .presence (st.clock + x.2) (.left x.1.peer.id)) ++
      [.presence (st.clock + (st.evicted ord p).length + 1)
        (.joined (st.info (State.newEntry p name)))]) = leftDeltas st ord p ++ [w] := by
    rw [deltas_append, deltas_append, deltas_append, deltas_cons, deltas_broadcast, hdrop, hleft,
      hjoined]
    rfl
  refine ⟨Nat.le_add_right .., fun u hu => ?_, ?_⟩
  · rw [State.go, hdeltas] at hu
    change st.clock ≤ u.seq ∧ u.seq < st.clock + ((st.evicted ord p).length + 2)
    rcases List.mem_append.mp hu with hu | hu
    · -- the ones who were replaced come first
      obtain ⟨hlo, hhi, -⟩ := mem_leftDeltas hu
      omega
    · -- the one who joins comes after them
      rw [List.mem_singleton.mp hu, hw]
      change st.clock ≤ st.clock + (st.evicted ord p).length + 1 ∧
        st.clock + (st.evicted ord p).length + 1 < st.clock + ((st.evicted ord p).length + 2)
      omega
  · have hone := Leads.one w (st.staying ord p).summaries
    have hlefts : Leads ↑(leftDeltas st ord p) st.summaries (st.staying ord p).summaries :=
      leads_leftDeltas p
    have hboth := hlefts.trans hone fun u hu u' hu' => by
      obtain ⟨-, hhi, -⟩ := mem_leftDeltas (Multiset.mem_coe.mp hu)
      rw [Multiset.mem_singleton.mp hu', hw]
      change u.seq < st.clock + (st.evicted ord p).length + 1
      omega
    rw [State.go, hdeltas, ← Multiset.coe_add, add_comm]
    convert hboth using 1
    · rfl
    · rw [hw]
      exact summaries_insert (State.newEntry p name) rfl

lemma removePeer_reports (id : PeerId) : Reports st (st.removePeer ord id) := by
  unfold State.removePeer
  split
  · exact reports_go rfl
  · next e he =>
    refine .one (w := ⟨st.clock, id, []⟩) ?_ le_rfl (Nat.lt_succ_self _)
      (summaries_remove id rfl)
    rw [State.go, deltas_append, deltas_append, deltas_cons, deltas_append, deltas_broadcast,
      deltas_map _ (fun _ => rfl), deltas_map _ (fun _ => rfl)]
    rfl

lemma setDisplayName_reports (id : PeerId) (name : String) :
    Reports st (st.setDisplayName ord id name) := by
  unfold State.setDisplayName
  split
  · exact reports_go rfl
  · next e he =>
    have hid := st.peers.id_of_get he
    refine .one (w := ⟨st.clock, e.peer.id, [Entry.summary { e with displayName := name }]⟩) ?_
      le_rfl (Nat.lt_succ_self _) ?_
    · rw [State.go, deltas_append, deltas_broadcast]
      rfl
    · exact hid.symm ▸ summaries_modify (f := ({ · with displayName := name })) rfl he

lemma setState_reports (id : PeerId) (selfMuted deafened : Bool) :
    Reports st (st.setState ord id selfMuted deafened) := by
  unfold State.setState
  split
  · exact reports_go rfl
  · next e he =>
    have hid := st.peers.id_of_get he
    refine .one (w := ⟨st.clock, e.peer.id, [e.summary]⟩) ?_ le_rfl (Nat.lt_succ_self _) ?_
    · rw [State.go, deltas_append, deltas_broadcast]
      rfl
    · exact hid.symm ▸ summaries_modify
        (f := ({ · with selfMuted := selfMuted, deafened := deafened })) rfl he

lemma Reports.again {id : PeerId} {e : Entry} {n k : ℕ} (h : st.peers.get id = some e)
    (hd : deltas r.next = [⟨st.clock + k, id, [e.summary]⟩]) (hk : k < n)
    (hclock : r.st.clock = st.clock + n) (hs : r.st.summaries = st.summaries) : Reports st r := by
  refine .one hd (Nat.le_add_right ..) (by simpa [hclock] using hk) ?_
  rw [hs]
  change st.summaries = Function.update st.summaries id [e.summary]
  rw [← summaries_eq h, Function.update_eq_self]

lemma endRoster_reports (s : SessionId) (p : PeerId) : Reports st (st.endRoster ord s p) := by
  have hsame (l) : (State.go ((State.tick { st with
      sessionsByToken := AList.erase (st.sessions s).token st.sessionsByToken
      peers := st.peers.modify p fun e =>
        if e.screenSession = some s then { e with screenSession := none } else e }) 2) l
      ).st.summaries = st.summaries :=
    summaries_modify_eq (fun e => by split_ifs <;> rfl) rfl
  have hdeltas (e : Entry) (ps : List PeerId) : deltas (ps.flatMap fun op =>
      .send st.clock op (.screenShareEnded p) ::
        if op ≠ e.peer.id then [.send (st.clock + 1) op (.peerInfo (st.info e))] else []) = [] := by
    refine deltas_flatMap _ (fun op => ?_) ps
    split_ifs <;> rfl
  unfold State.endRoster
  dsimp only
  split
  · -- the publisher's summary is pushed again as it was
    next e he =>
    have hid := Peers.id_of_get _ he
    obtain ⟨e', he', hsummary⟩ : ∃ e', st.peers.get p = some e' ∧ e'.summary = e.summary := by
      rw [Peers.get_modify, if_pos rfl] at he
      obtain ⟨e', he', rfl⟩ := Option.map_eq_some_iff.mp he
      refine ⟨e', he', ?_⟩
      dsimp only
      split_ifs <;> rfl
    refine .again he' (k := 1) ?_ (by omega : 1 < 2) rfl (hsame _)
    rw [State.go, deltas_append]
    exact (congrArg (· ++ _) (hdeltas e _)).trans (by rw [hsummary, ← hid]; rfl)
  · -- it has left, and nothing is pushed
    exact .quiet (Nat.le_add_right ..) (hsame _) (deltas_broadcast ..)

lemma announceResume_reports (id : PeerId) (s : SessionId) (old : PeerId) :
    Reports st (st.announceResume ord id s old) := by
  unfold State.announceResume
  split
  · exact reports_go rfl
  · next e he =>
    have hid := st.peers.id_of_get he
    refine .again he (k := 0) ?_ (by omega : 0 < 4) rfl rfl
    rw [State.go, deltas_append, deltas_flatMap _ (fun _ => rfl), ← hid]
    rfl

lemma firstVideoAnnounce_reports (s : SessionId) (p : PeerId) :
    Reports st (st.firstVideoAnnounce ord s p) := by
  unfold State.firstVideoAnnounce
  split
  · exact reports_go rfl
  · next e he =>
    have hid := st.peers.id_of_get he
    refine .again he (k := 0) ?_ (by omega : 0 < 2) rfl rfl
    rw [State.go, deltas_append, deltas_flatMap _ (fun _ => rfl), ← hid]
    rfl

lemma exec_reports (h : exec ch a st = some r) : Reports st r := by
  cases a with
  | addPeer p name => exact addPeer_reports h
  | removePeer id =>
    obtain rfl := Option.some.inj h
    exact removePeer_reports id
  | setDisplayName id name =>
    obtain rfl := Option.some.inj h
    exact setDisplayName_reports id name
  | setState id selfMuted deafened =>
    obtain rfl := Option.some.inj h
    exact setState_reports id selfMuted deafened
  | endRoster s p =>
    obtain rfl := Option.some.inj h
    exact endRoster_reports s p
  | announceResume id s old =>
    obtain rfl := Option.some.inj h
    exact announceResume_reports id s old
  | firstVideoAnnounce s p =>
    obtain rfl := Option.some.inj h
    exact firstVideoAnnounce_reports s p
  | _ => exact (exec_discreet h rfl).reports

/-! ### Runs -/

/-- The deltas that have still to be pushed. -/
def pendingDeltas (c : Config) : Multiset Shown := deltas c.work

lemma deltas_perm {l l' : List Act} (h : l.Perm l') :
    (deltas l : Multiset Shown) = deltas l' :=
  Multiset.coe_eq_coe.mpr (h.filterMap _)

lemma deltas_spawned (h : exec ch a st = some r) : deltas r.spawned.flatten = [] := by
  obtain hnil | ⟨t, ht⟩ := exec_spawned h
  · rw [hnil]
    rfl
  · rw [ht]
    rfl

lemma begin_quiet {e : Event} {o : Option PeerId} {todo : List Act}
    (h : e.begin st = some (st', o, todo)) :
    st'.clock = st.clock ∧ st'.summaries = st.summaries ∧ deltas todo = [] := by
  cases e <;> simp only [Event.begin, Event.begin.message] at h <;> (try split at h) <;>
    cases h <;> exact ⟨rfl, rfl, rfl⟩

/-- **What a step of a room does to its deltas**: one is pushed, and nothing else changes, or
some are computed. -/
theorem step_deltas {c c' : Config} {l : Label} (h : step c l = some c') :
    (∃ seq d, l.act c = some (.presence seq d) ∧ c'.st = c.st ∧
      pendingDeltas c = ⟨seq, d.subject, d.shows⟩ ::ₘ pendingDeltas c') ∨
    (∀ seq d, l.act c ≠ some (.presence seq d)) ∧ c.st.clock ≤ c'.st.clock ∧
      ∃ new : Multiset Shown, pendingDeltas c' = new + pendingDeltas c ∧
        (∀ w ∈ new, c.st.clock ≤ w.seq ∧ w.seq < c'.st.clock) ∧
        Leads new c.st.summaries c'.st.summaries := by
  cases l with
  | event e =>
    obtain ⟨st, o, todo, hb, rfl, -⟩ := step_event h
    obtain ⟨hclock, hsummaries, htodo⟩ := begin_quiet hb
    refine .inr ⟨by simp [Label.act], hclock.ge, 0, ?_, by simp, ?_⟩
    · rw [pendingDeltas, Pool.work_launch, deltas_append, htodo, List.append_nil, zero_add]
      rfl
    · rw [Pool.st_launch, hsummaries]
      exact .refl _
  | run i ch =>
    obtain ⟨m, r, W, hm, hr, hst, hw, hw'⟩ := Pool.advance_work h
    have hold : pendingDeltas c = ↑(m.shows.toList) + (deltas W : Multiset Shown) := by
      rw [pendingDeltas, deltas_perm hw, deltas_cons, Multiset.coe_add]
    have hnew : pendingDeltas c' = (deltas r.next : Multiset Shown) + (deltas W : Multiset Shown) := by
      rw [pendingDeltas, deltas_perm hw', deltas_append, deltas_append, deltas_spawned hr,
        List.append_nil, Multiset.coe_add]
    by_cases hpresence : ∃ seq d, m = .presence seq d
    · -- the step is the push
      obtain ⟨seq, d, rfl⟩ := hpresence
      obtain rfl := Option.some.inj hr
      refine .inl ⟨seq, d, hm, hst, ?_⟩
      rw [hold, hnew]
      exact (Multiset.singleton_add _ _).trans (congrArg _ (zero_add _).symm)
    · -- the step may compute new deltas
      have hshows : m.shows = none := by
        cases m with
        | presence seq d => exact absurd ⟨seq, d, rfl⟩ hpresence
        | _ => rfl
      have hreports := exec_reports hr
      refine .inr ⟨fun seq d hact => hpresence ⟨seq, d, Option.some.inj (hm.symm.trans hact)⟩, ?_,
        deltas r.next, ?_, ?_, ?_⟩
      · rw [hst]
        exact hreports.clock
      · rw [hnew, hold, hshows]
        exact congrArg _ (zero_add _).symm
      · rw [hst]
        exact fun w hw => hreports.numbered w (Multiset.mem_coe.mp hw)
      · rw [hst]
        exact hreports.leads

end VoiceHub.Sfu.Room
