import Mathlib
import VoiceHub.Sfu.Room.Ops

/-!
Who owns a screen session: the part of the room that decides it, as a machine of its own.

A `Core` knows which peers are connected and what session each owns, the publisher, the
closed flag and the grace timer of every session, and the token map. `Own` lists what a
step can do to it; a step of the room that is not listed leaves it alone. Every fact about
ownership and grace windows is derived from that list.
-/

namespace VoiceHub.Sfu.Room

open VoiceHub.Lib

structure Core where
  seen : PeerId → Option Peer
  /-- The connected peers, and the session each owns. -/
  peer : PeerId → Option Peer
  owner : PeerId → Option (Option SessionId)
  publisher : SessionId → PeerId
  token : SessionId → Token
  grace : SessionId → Option TimerId
  closed : SessionId → Bool
  byToken : Token → Option SessionId
  timers : List (TimerId × SessionId)
  cancelled : TimerId → Bool
  next : ℕ

def State.core (st : State) : Core where
  seen := st.seen
  peer id := (st.peers.get id).map (·.peer)
  owner id := (st.peers.get id).map (·.screenSession)
  publisher s := (st.sessions s).publisherId
  token s := (st.sessions s).token
  grace s := (st.sessions s).grace
  closed s := (st.sessions s).closed
  byToken t := st.sessionsByToken.lookup t
  timers := st.timers
  cancelled := st.cancelled
  next := st.next

/-- The steps ownership still depends on once they are pending. -/
def Act.isCore : Act → Bool
  | .registerSession .. | .startScreenShareGrace .. | .cancelTimer .. | .endScreenShareSession ..
  | .endSubscribers .. | .endRoster .. => true
  | .addPeer .. | .removePeer .. | .setDisplayName .. | .setState .. | .cancel .. | .send ..
  | .presence .. | .close .. | .subClosed .. | .removeScreenSub .. | .dropSubscriber ..
  | .sendEncode .. | .screenShareStart .. | .screenShareStop .. | .closePublisher .. | .detach ..
  | .findSession .. | .screenShareResume .. | .announceResume .. | .screenShareSubscribe ..
  | .subscribePublisher .. | .insertSubscriber .. | .attachSub .. | .firstScreenVideoReady ..
  | .firstVideoPublisher .. | .firstVideoAnnounce .. | .firstVideoIdle .. | .delivered .. => false

abbrev coreActs : List Act → List Act := watched Act.isCore

@[simp] lemma coreActs_broadcast (seq : ℕ) (ps : List PeerId) (m : Msg) :
    coreActs (broadcast seq ps m) = [] := by simp [broadcast, Act.isCore]

/-- What a step does to the core, and the core steps it leaves behind. -/
inductive Own (k : Core) : Act → Core → List Act → Prop
  | idle {a n} (ha : a.isCore = false) (hn : k.next ≤ n) : Own k a { k with next := n } []
  | refuse {id s} (h : k.owner id ≠ some none) : Own k (.registerSession id s) k []
  | late {s id} (h : k.closed s = true) : Own k (.startScreenShareGrace s id) k []
  | again {s r} (h : k.closed s = true) : Own k (.endScreenShareSession s r) k []
  | join {p name} {gone : List PeerId} (hp : k.seen p.id = none)
    (hg : ∀ id ∈ gone, p.clientId ≠ "" ∧ ∃ q, k.peer id = some q ∧ q.clientId = p.clientId) :
    Own k (.addPeer p name)
      { k with
        seen := Function.update k.seen p.id (some p)
        peer := fun id => if id = p.id then some p else if id ∈ gone then none else k.peer id
        owner := fun id => if id = p.id then some none else if id ∈ gone then none else k.owner id }
      []
  | leave {id o} (h : k.owner id = some o) :
    Own k (.removePeer id)
      { k with peer := Function.update k.peer id none, owner := Function.update k.owner id none }
      (o.toList.map (.startScreenShareGrace · id))
  | alloc {id data} :
    Own k (.screenShareStart id data)
      { k with
        publisher := Function.update k.publisher k.next id
        token := Function.update k.token k.next k.next
        grace := Function.update k.grace k.next none
        closed := Function.update k.closed k.next false
        next := k.next + 1 }
      [.registerSession id k.next]
  | register {id s} (h : k.owner id = some none) :
    Own k (.registerSession id s)
      { k with
        owner := Function.update k.owner id (some (some s))
        byToken := Function.update k.byToken (k.token s) (some s) } []
  | arm {s id} (h : k.closed s = false) :
    Own k (.startScreenShareGrace s id)
      { k with
        grace := Function.update k.grace s (some k.next)
        cancelled := State.cancelPrev k.cancelled (k.grace s)
        timers := (k.next, s) :: k.timers
        next := k.next + 1 } []
  | cancelTimer {t} :
    Own k (.cancelTimer t) { k with cancelled := Function.update k.cancelled t true } []
  | stop {id s} (h : k.owner id = some (some s)) :
    Own k (.screenShareStop id) k [.endScreenShareSession s .publisherRequestedStop]
  | find {t s} (h : k.byToken t = some s) :
    Own k (.findSession t) k [.endScreenShareSession s .publisherPcClosed]
  | close {s r subs} (h : k.closed s = false) :
    Own k (.endScreenShareSession s r)
      { k with
        closed := Function.update k.closed s true
        grace := Function.update k.grace s none }
      ((k.grace s).toList.map .cancelTimer ++ [.endSubscribers s subs])
  | subscribers {s subs} : Own k (.endSubscribers s subs) k [.endRoster s (k.publisher s)]
  | clear {s p} :
    Own k (.endRoster s p)
      { k with
        byToken := Function.update k.byToken (k.token s) none
        owner := fun id => if id = p ∧ k.owner p = some (some s) then some none else k.owner id } []
  | claim {id t s o} (ht : k.byToken t = some s)
    (hold : k.owner (k.publisher s) = none ∨ k.publisher s = id)
    (ho : k.owner id = some o) (hs : o = none ∨ o = some s) (hc : k.closed s = false) :
    Own k (.screenShareResume id t)
      { k with
        publisher := Function.update k.publisher s id
        grace := Function.update k.grace s none
        owner := Function.update k.owner id (some (some s)) }
      ((k.grace s).toList.map .cancelTimer)

/-! ### The room's steps are steps of the core -/

section Sim

variable {st : State} {r : Effect} {ord : Order}

lemma Own.same {k : Core} {a : Act} (ha : a.isCore = false) : Own k a k [] :=
  .idle ha (le_refl k.next)

/-- A step that leaves the core alone and no core step behind. -/
structure Idle (st : State) (r : Effect) : Prop where
  core : r.st.core = st.core
  next : coreActs r.next = []
  spawned : coreActs r.spawned.flatten = []

lemma Idle.own {a : Act} (h : Idle st r) (ha : a.isCore = false) :
    Own st.core a r.st.core (coreActs r.next) := by
  rw [h.core, h.next]
  exact .same ha

@[simp] lemma core_tick (n : ℕ) : (st.tick n).core = st.core := rfl
@[simp] lemma core_send (id : PeerId) (m : Msg) : (st.send id m).core = st.core := rfl
@[simp] lemma core_cancel (id : PeerId) : (st.cancel id).core = st.core := rfl

lemma idle_go {l : List Act} (h : coreActs l = []) : Idle st (st.go l) := ⟨rfl, h, rfl⟩

lemma idle_reply (id : PeerId) (ms : List Msg) : Idle st (st.reply id ms) :=
  ⟨rfl, by simp [State.reply, State.go, Act.isCore], rfl⟩

lemma core_modify (id : PeerId) (f : Entry → Entry)
    (hf : ∀ e, (f e).screenSession = e.screenSession) :
    ({ st with peers := st.peers.modify id f } : State).core = st.core := by
  have h : ∀ {α : Type} (g : Entry → α), (∀ e, g { f e with peer := e.peer } = g e) →
      (fun k => ((st.peers.modify id f).get k).map g) = fun k => (st.peers.get k).map g := by
    intro α g hg
    funext k
    rw [Peers.get_modify]
    split
    · next h => subst h; simp [Function.comp_def, hg]
    · rfl
  simp only [State.core, h (·.peer) fun _ => rfl, h (·.screenSession) hf]

@[simp] lemma core_detach (v p : PeerId) : (st.detach v p).core = st.core :=
  core_modify _ _ fun _ => rfl

lemma core_setSession (s : SessionId) (f : ScreenSession → ScreenSession)
    (hf : ∀ x, (f x).publisherId = x.publisherId ∧ (f x).token = x.token ∧
      (f x).grace = x.grace ∧ (f x).closed = x.closed) :
    (st.setSession s f).core = st.core := by
  have h : ∀ {α : Type} (g : ScreenSession → α), (g (f (st.sessions s)) = g (st.sessions s)) →
      (fun k => g (Function.update st.sessions s (f (st.sessions s)) k)) =
        fun k => g (st.sessions k) := by
    intro α g hg
    funext k
    by_cases hk : k = s
    · subst hk; simp [hg]
    · simp [hk]
  obtain ⟨h1, h2, h3, h4⟩ := hf (st.sessions s)
  simp only [State.core, State.setSession, h (·.publisherId) h1, h (·.token) h2, h (·.grace) h3,
    h (·.closed) h4]

@[simp] lemma coreActs_closeAndDetach (p : PeerId) (pc : PcId) :
    coreActs (st.closeAndDetach p pc) = [] := by
  simp [State.closeAndDetach, Act.isCore]

@[simp] lemma coreActs_dropEvicted (ps : List PeerId) (ev : Entry) (i : ℕ) :
    coreActs (st.dropEvicted ord ps ev i) = [] := by
  simp [State.dropEvicted, Act.isCore]

lemma get_foldl_remove (ps : Peers) (es : List Entry) (id : PeerId) :
    (es.foldl (fun ps e => ps.remove e.peer.id) ps).get id =
      if id ∈ es.map (·.peer.id) then none else ps.get id := by
  induction es generalizing ps with
  | nil => simp
  | cons e es ih =>
    rw [List.foldl_cons, ih, Peers.get_remove]
    by_cases h : id = e.peer.id <;> simp [h]

lemma get_staying (p : Peer) (id : PeerId) : (st.staying ord p).peers.get id =
    if id ∈ (st.evicted ord p).map (·.peer.id) then none else st.peers.get id :=
  get_foldl_remove ..

lemma mem_evicted {p : Peer} {e : Entry} (h : e ∈ st.evicted ord p) :
    p.clientId ≠ "" ∧ st.peers.get e.peer.id = some e ∧ e.peer.clientId = p.clientId := by
  unfold State.evicted at h
  split at h
  · simp at h
  · next hc =>
    obtain ⟨h1, h2⟩ := List.mem_filter.mp h
    exact ⟨hc, st.peers.mem_values.mp ((ord.mem_list).mp h1), by simpa using h2⟩

lemma addPeer_own {p : Peer} {name : String} (h : st.addPeer ord p name = some r) :
    Own st.core (.addPeer p name) r.st.core (coreActs r.next) := by
  unfold State.addPeer at h
  split at h
  · cases h
  next hseen =>
  cases h
  have hfresh : st.core.seen p.id = none := by simpa [State.core] using hseen
  have hgone : ∀ id ∈ (st.evicted ord p).map (·.peer.id),
      p.clientId ≠ "" ∧ ∃ q, st.core.peer id = some q ∧ q.clientId = p.clientId := by
    intro id hid
    obtain ⟨e, he, rfl⟩ := List.mem_map.mp hid
    obtain ⟨h1, h2, h3⟩ := mem_evicted he
    exact ⟨h1, e.peer, by simp [State.core, h2], h3⟩
  have key : Own st.core (.addPeer p name) _ [] := .join hfresh hgone
  convert key using 1
  · simp only [State.core, State.go]
    congr 1 <;> funext id <;> rw [Peers.get_insert, get_staying] <;> split_ifs <;>
      simp_all [State.newEntry]
  · simp [State.go, Act.isCore]

lemma core_remove (id : PeerId) (g : Entry → α) :
    (fun k => ((st.peers.remove id).get k).map g) =
      Function.update (fun k => (st.peers.get k).map g) id none := by
  funext k
  rw [Peers.get_remove]
  by_cases h : k = id <;> simp [h]

lemma core_modify_peer (id : PeerId) (f : Entry → Entry) :
    (fun k => ((st.peers.modify id f).get k).map (·.peer)) =
      fun k => (st.peers.get k).map (·.peer) := by
  funext k
  rw [Peers.get_modify]
  by_cases h : k = id <;> simp [h, Function.comp_def]

lemma core_setOwner {id : PeerId} {e : Entry} (he : st.peers.get id = some e)
    (o : Option SessionId) :
    (fun k => ((st.peers.modify id ({ · with screenSession := o })).get k).map (·.screenSession)) =
      Function.update (fun k => (st.peers.get k).map (·.screenSession)) id (some o) := by
  funext k
  rw [Peers.get_modify]
  by_cases h : k = id <;> simp [h, he]

lemma removePeer_own (id : PeerId) : Own st.core (.removePeer id) (st.removePeer ord id).st.core
    (coreActs (st.removePeer ord id).next) := by
  unfold State.removePeer
  split
  · exact .same rfl
  · next e he =>
    have hown : st.core.owner id = some e.screenSession := by simp [State.core, he]
    convert Own.leave hown using 1
    · simp only [State.core, State.go, State.tick, core_remove]
    · simp [State.go, Act.isCore]

lemma screenShareStart_own (id : PeerId) (data : StartData) :
    Own st.core (.screenShareStart id data) (st.screenShareStart id data).st.core
      (coreActs (st.screenShareStart id data).next) := by
  unfold State.screenShareStart
  split
  · exact (idle_reply _ _).own rfl
  split
  · exact (idle_reply _ _).own rfl
  · convert Own.alloc using 1
    · simp only [State.core, State.go, Core.mk.injEq, true_and]
      refine ⟨?_, ?_, ?_, ?_, trivial⟩ <;> funext k <;> by_cases h : k = st.next <;> simp [h]
    · simp [State.go, Act.isCore, State.core]

lemma registerSession_own (id : PeerId) (s : SessionId) :
    Own st.core (.registerSession id s) (st.registerSession id s).st.core
      (coreActs (st.registerSession id s).next) := by
  unfold State.registerSession
  split
  · next e he =>
    split
    · next hn =>
      have hown : st.core.owner id = some none := by
        simpa [State.core, he, Option.isNone_iff_eq_none] using hn
      convert Own.register hown using 1
      · simp only [State.reply, State.go, State.tick, State.core, core_modify_peer,
          core_setOwner he, Core.mk.injEq, true_and, and_true]
        funext t
        rw [HashMap.lookup_insert, Function.update_apply]
      · simp [State.reply, State.go, Act.isCore]
    · next hn =>
      refine .refuse ?_
      simpa [State.core, he, Option.isNone_iff_eq_none] using hn
  · next he => exact .refuse (by simp [State.core, he])

lemma screenShareStop_own (id : PeerId) : Own st.core (.screenShareStop id)
    (st.screenShareStop id).st.core (coreActs (st.screenShareStop id).next) := by
  unfold State.screenShareStop
  split
  · exact .same rfl
  · next s hs =>
    refine .stop ?_
    simp only [State.owned, Option.bind_eq_some_iff] at hs
    obtain ⟨e, he, hs⟩ := hs
    simp [State.core, he, hs]

lemma startScreenShareGrace_own (s : SessionId) (id : PeerId) :
    Own st.core (.startScreenShareGrace s id) (st.startScreenShareGrace s).st.core
      (coreActs (st.startScreenShareGrace s).next) := by
  unfold State.startScreenShareGrace
  split
  · next h => exact .late (by simpa [State.core] using h)
  · next h =>
    have hc : st.core.closed s = false := by simpa [State.core] using h
    convert Own.arm hc using 1
    · simp only [State.core, State.go, State.setSession, Core.mk.injEq, true_and, and_true]
      refine ⟨?_, ?_, ?_, ?_⟩ <;> funext k <;> by_cases hk : k = s <;> simp [hk]
    · simp [State.go]

lemma endScreenShareSession_own (s : SessionId) (r : EndReason) :
    Own st.core (.endScreenShareSession s r) (st.endScreenShareSession ord s).st.core
      (coreActs (st.endScreenShareSession ord s).next) := by
  unfold State.endScreenShareSession
  split
  · next h => exact .again (by simpa [State.core] using h)
  · next h =>
    have hc : st.core.closed s = false := by simpa [State.core] using h
    convert @Own.close st.core s r (ord.list (HashMap.values (st.sessions s).subscribers)) hc
      using 1
    · simp only [State.core, State.go, State.setSession, Core.mk.injEq, true_and, and_true]
      refine ⟨?_, ?_, ?_, ?_⟩ <;> funext k <;> by_cases hk : k = s <;> simp [hk]
    · simp [State.go, Act.isCore, State.core]

lemma closePublisher_idle {s : SessionId} (h : st.closePublisher s = some r) : Idle st r := by
  obtain rfl | rfl := closePublisher_spec h
  · exact idle_go rfl
  · exact ⟨rfl, rfl, by simp [Act.isCore]⟩

lemma findSession_own (t : Token) : Own st.core (.findSession t) (st.findSession t).st.core
    (coreActs (st.findSession t).next) := by
  unfold State.findSession
  split
  · exact .same rfl
  · next s hs => exact .find hs

lemma endRoster_own (s : SessionId) (p : PeerId) :
    Own st.core (.endRoster s p) (st.endRoster ord s p).st.core
      (coreActs (st.endRoster ord s p).next) := by
  have hcore : ∀ l, (State.go ((State.tick { st with
      sessionsByToken := AList.erase (st.sessions s).token st.sessionsByToken
      peers := st.peers.modify p fun e =>
        if e.screenSession = some s then { e with screenSession := none } else e }) 2) l).st.core
      = { st.core with
        byToken := Function.update st.core.byToken (st.core.token s) none
        owner := fun id =>
          if id = p ∧ st.core.owner p = some (some s) then some none else st.core.owner id } := by
    intro l
    simp only [State.go, core_tick]
    simp only [State.core]
    congr 1
    · funext k
      rw [Peers.get_modify]
      by_cases hk : k = p
      · subst hk; cases st.peers.get k <;> simp
      · simp [hk]
    · funext k
      rw [Peers.get_modify]
      by_cases hk : k = p
      · subst hk
        obtain he | ⟨e, he⟩ := (st.peers.get k).eq_none_or_eq_some
        · simp [he]
        · by_cases hs : e.screenSession = some s <;> simp [he, hs]
      · simp [hk]
    · funext t
      rw [HashMap.lookup_erase, Function.update_apply]
  unfold State.endRoster
  simp only
  split
  · convert Own.clear using 1
    · exact hcore _
    · simp [State.go, Act.isCore, apply_ite coreActs]
  · convert Own.clear using 1
    · exact hcore _
    · simp [State.go]

lemma screenShareResume_own (id : PeerId) (t : Token) :
    Own st.core (.screenShareResume id t) (st.screenShareResume ord id t).st.core
      (coreActs (st.screenShareResume ord id t).next) := by
  unfold State.screenShareResume
  split
  · -- no session has the token
    exact (idle_reply _ _).own rfl
  next s hs =>
  simp only
  split
  · -- its publisher is still connected
    exact (idle_reply _ _).own rfl
  next hold =>
  split
  · exact .same rfl
  next e he =>
  split
  · -- the caller shares something else
    exact (idle_reply _ _).own rfl
  next ho =>
  split
  · -- the session is closed
    exact (idle_reply _ _).own rfl
  next hc =>
  -- whom the session names is gone or the caller, and the caller is free
  have h1 : st.core.owner (st.core.publisher s) = none ∨ st.core.publisher s = id := by
    rcases hp : st.peers.get (st.sessions s).publisherId with _ | x
    · left; simp [State.core, hp]
    · right; by_contra hne; exact hold ⟨by simp [hp], hne⟩
  have h2 : e.screenSession = none ∨ e.screenSession = some s := by
    cases hes : e.screenSession with
    | none => exact .inl rfl
    | some x => right; by_contra hne; exact ho ⟨by simp [hes], by rw [hes]; exact hne⟩
  have h3 : st.core.owner id = some e.screenSession := by simp [State.core, he]
  convert Own.claim (k := st.core) hs h1 h3 h2 (by simpa [State.core] using hc) using 1
  · simp only [State.go, State.core, State.setSession, core_modify_peer, core_setOwner he,
      Core.mk.injEq, true_and, and_true]
    refine ⟨?_, ?_, ?_, ?_⟩ <;> funext k <;> by_cases hk : k = s <;> simp [hk]
  · simp [State.go, Act.isCore, State.core]

lemma subscribePublisher_own (v : PeerId) (s : SessionId) (offer : Bool) :
    Own st.core (.subscribePublisher v s offer) (st.subscribePublisher v s offer).st.core
      (coreActs (st.subscribePublisher v s offer).next) := by
  simp only [State.subscribePublisher]
  split <;> exact @Own.idle _ _ (st.next + 1) rfl (Nat.le_succ st.next)

lemma idle_modify {id : PeerId} {f : Entry → Entry} {n : ℕ} {l : List Act}
    (hf : ∀ e, (f e).screenSession = e.screenSession) (hl : coreActs l = []) :
    Idle st (State.go (State.tick { st with peers := st.peers.modify id f } n) l) where
  core := by rw [← @core_modify st id f hf]; rfl
  next := hl
  spawned := rfl

lemma idle_setSession {s : SessionId} {f : ScreenSession → ScreenSession} {l : List Act}
    (hf : ∀ x, (f x).publisherId = x.publisherId ∧ (f x).token = x.token ∧
      (f x).grace = x.grace ∧ (f x).closed = x.closed) (hl : coreActs l = []) :
    Idle st (State.go (st.setSession s f) l) :=
  ⟨core_setSession s f hf, hl, rfl⟩

/-- **Every step of the room is a step of the core.** -/
theorem exec_own {ch : Choice} {a : Act} (h : exec ch a st = some r) :
    Own st.core a r.st.core (coreActs r.next) := by
  cases a
  case addPeer => exact addPeer_own h
  case closePublisher => exact (closePublisher_idle h).own rfl
  all_goals obtain rfl := Option.some.inj h
  case cancel | send | presence | firstVideoPublisher | delivered => exact .same rfl
  case removePeer => exact removePeer_own _
  case cancelTimer => exact .cancelTimer
  case startScreenShareGrace => exact startScreenShareGrace_own _ _
  case screenShareStart => exact screenShareStart_own _ _
  case registerSession => exact registerSession_own _ _
  case screenShareStop => exact screenShareStop_own _
  case endScreenShareSession => exact endScreenShareSession_own _ _
  case endSubscribers s subs =>
    have hl : coreActs (st.endSubscribers s subs).next = [.endRoster s (st.core.publisher s)] := by
      simp [State.endSubscribers, State.go, Act.isCore, State.core]
    rw [hl]
    exact .subscribers
  case endRoster => exact endRoster_own _ _
  case findSession => exact findSession_own _
  case screenShareResume => exact screenShareResume_own _ _
  case subscribePublisher => exact subscribePublisher_own _ _ _
  case detach => exact (Idle.mk (core_detach _ _) rfl rfl).own rfl
  -- the other sections leave the core alone
  case setDisplayName id name =>
    refine Idle.own ?_ rfl
    unfold State.setDisplayName
    split
    · exact idle_go rfl
    · exact idle_modify (fun _ => rfl) (by simp [Act.isCore])
  case setState id selfMuted deafened =>
    refine Idle.own ?_ rfl
    unfold State.setState
    split
    · exact idle_go rfl
    · exact idle_modify (fun _ => rfl) (by simp [Act.isCore])
  case close pc =>
    refine Idle.own ?_ rfl
    unfold State.close
    split
    · exact idle_go rfl
    · exact ⟨rfl, rfl, rfl⟩
  case subClosed pc =>
    refine Idle.own ?_ rfl
    unfold State.subClosed
    split
    · exact idle_go rfl
    split <;> exact idle_go rfl
  case removeScreenSub v p only =>
    refine Idle.own ⟨?_, by simp [State.removeScreenSub, State.go, Act.isCore], rfl⟩ rfl
    simp only [State.removeScreenSub, State.go]
    split
    · exact core_detach v p
    · rfl
  case dropSubscriber v p s only =>
    refine Idle.own ?_ rfl
    unfold State.dropSubscriber
    split
    · exact idle_go rfl
    · exact idle_setSession (fun _ => ⟨rfl, rfl, rfl, rfl⟩)
        (by simp [Act.isCore, apply_ite coreActs])
  case sendEncode p ev =>
    refine Idle.own ?_ rfl
    unfold State.sendEncode
    split
    · exact idle_go rfl
    · exact idle_reply _ _
  case announceResume id s old =>
    refine Idle.own ?_ rfl
    unfold State.announceResume
    split
    · exact idle_go rfl
    · exact ⟨rfl, by simp [State.go, Act.isCore], rfl⟩
  case screenShareSubscribe v p offer =>
    refine Idle.own ?_ rfl
    unfold State.screenShareSubscribe
    split
    · exact idle_reply _ _
    split <;> exact idle_go rfl
  case insertSubscriber v p s pc =>
    refine Idle.own ?_ rfl
    unfold State.insertSubscriber
    split
    · exact ⟨rfl, rfl, rfl⟩
    · exact idle_setSession (fun _ => ⟨rfl, rfl, rfl, rfl⟩) rfl
  case attachSub v p s pc first =>
    refine Idle.own ?_ rfl
    unfold State.attachSub
    split
    · exact idle_modify (fun _ => rfl) (by simp [Act.isCore, apply_ite coreActs])
    · exact idle_go rfl
  case firstScreenVideoReady s =>
    refine Idle.own ?_ rfl
    unfold State.firstScreenVideoReady
    split <;> exact idle_go rfl
  case firstVideoAnnounce s p =>
    refine Idle.own ?_ rfl
    unfold State.firstVideoAnnounce
    split
    · exact idle_go rfl
    · exact ⟨rfl, by simp [State.go, Act.isCore], rfl⟩
  case firstVideoIdle s p =>
    refine Idle.own ?_ rfl
    unfold State.firstVideoIdle
    split <;> exact idle_go rfl

end Sim

/-! ### Runs, seen from the core -/

abbrev pending : Config → Multiset Act := pendingOf Act.isCore

/-- What a step of the room can do to the core and to the core steps pending. -/
inductive CoreStep (k : Core) (w : Multiset Act) : Option Act → Core → Multiset Act → Prop
  | run {a k' next W} (h : Own k a k' next) (hw : w = ↑(coreActs [a]) + W) :
    CoreStep k w (some a) k' (↑next + W)
  | begin : CoreStep k w none k w
  | expire {t s} (h : (t, s) ∈ k.timers) :
    CoreStep k w none { k with timers := k.timers.erase (t, s) }
      (.endScreenShareSession s (.graceExpired t) ::ₘ w)
  | disarm {t s} (h : (t, s) ∈ k.timers) (hc : k.cancelled t = true) :
    CoreStep k w none { k with timers := k.timers.erase (t, s) } w

theorem step_core {c c' : Config} {l : Label} (h : step c l = some c') :
    CoreStep c.st.core (pending c) (l.act c) c'.st.core (pending c') := by
  cases l with
  | run i ch =>
    obtain ⟨a, r, W, ha, hr, hst, hw, hw'⟩ := Pool.advance_work h
    have hs : coreActs r.spawned.flatten = [] := by
      rcases exec_spawned hr with hs | ⟨t, hs⟩ <;> rw [hs] <;> rfl
    obtain ⟨h1, h2⟩ := pendingOf_run hw hw' hs
    rw [hst, show pending c' = _ from h2, Label.act, ha]
    exact .run (exec_own hr) h1
  | event e =>
    obtain ⟨st, o, todo, hb, rfl, -⟩ := step_event h
    rw [show pending (c.launch st o todo) = _ from pendingOf_launch .., Pool.st_launch, Label.act]
    have idle : ∀ {x : Option (State × Option PeerId × List Act)}, x = some (st, o, todo) →
        (∀ y ∈ x, y.1.core = c.st.core ∧ coreActs y.2.2 = []) →
        CoreStep c.st.core (pending c) none st.core (↑(coreActs todo) + pending c) := by
      intro x hx hy
      obtain ⟨h1, h2⟩ := hy _ hx
      simp only at h1 h2
      rw [h1, h2]
      simpa using CoreStep.begin
    cases e with
    | graceExpired t s =>
      simp only [Event.begin] at hb
      split at hb
      · next ht => cases hb; exact .expire ht
      · cases hb
    | graceCancelled t s =>
      simp only [Event.begin] at hb
      split at hb
      · next ht =>
        cases hb
        rw [watched_nil, Multiset.coe_nil, zero_add]
        exact .disarm ht.1 ht.2
      · cases hb
    | firstVideo s =>
      refine idle hb ?_
      simp only [Event.begin]
      split
      · simp
      · rintro _ ⟨⟩
        have hcore := @core_setSession c.st s ({ · with firstVideo := true }) fun _ =>
          ⟨rfl, rfl, rfl, rfl⟩
        exact ⟨hcore, rfl⟩
    | drain id =>
      refine idle hb ?_
      simp only [Event.begin]
      split <;> simp [State.core]
    | _ =>
      refine idle hb ?_
      simp [Event.begin, Event.begin.message, Act.isCore]

end VoiceHub.Sfu.Room
