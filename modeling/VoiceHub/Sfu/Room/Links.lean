import Mathlib
import VoiceHub.Sfu.Room.Exclusive

/-!
The two halves of a subscription: the part of the room that decides them, as a machine of
its own.

A viewer's entry names a subscriber PC under a publisher (`att`), and a session names one
under a viewer (`sub`). `Link` lists what a step can do to the two, in the manner of `Own`.
-/

namespace VoiceHub.Sfu.Room

open VoiceHub.Lib

@[ext] structure Links where
  conn : PeerId → Bool
  att : PeerId → PeerId → Option PcId
  sub : SessionId → PeerId → Option PcId
  publisher : SessionId → PeerId
  closed : SessionId → Bool
  subs : PcId → Option ScreenSub
  next : ℕ

def State.links (st : State) : Links where
  conn id := (st.peers.get id).isSome
  att := st.subOf
  sub := st.subscriber
  publisher s := (st.sessions s).publisherId
  closed s := (st.sessions s).closed
  subs := st.subs
  next := st.next

/-- The steps the links still depend on once they are pending. -/
def Act.isLink : Act → Bool
  | .dropSubscriber .. | .endSubscribers .. | .detach .. | .subscribePublisher ..
  | .insertSubscriber .. | .attachSub .. => true
  | .registerSession .. | .startScreenShareGrace .. | .cancelTimer .. | .endScreenShareSession ..
  | .endRoster .. | .addPeer .. | .removePeer .. | .setDisplayName .. | .setState .. | .cancel ..
  | .send .. | .presence .. | .close .. | .subClosed .. | .removeScreenSub .. | .sendEncode ..
  | .screenShareStart .. | .screenShareStop .. | .closePublisher .. | .findSession ..
  | .screenShareResume .. | .announceResume .. | .screenShareSubscribe ..
  | .firstScreenVideoReady .. | .firstVideoPublisher .. | .firstVideoAnnounce ..
  | .firstVideoIdle .. | .delivered .. => false

abbrev linkActs : List Act → List Act := watched Act.isLink

@[simp] lemma linkActs_broadcast (seq : ℕ) (ps : List PeerId) (m : Msg) :
    linkActs (broadcast seq ps m) = [] := by simp [broadcast, Act.isLink]

/-- Takes a list of subscriber PCs off their viewers. -/
def Links.detachAll (k : Links) (publisherId : PeerId) (pcs : List PcId) : List Act :=
  pcs.flatMap fun pc => (k.subs pc).toList.map fun x => .detach x.peerId publisherId

/-- What a step does to the links, and the link steps it leaves behind. -/
inductive Link (k : Links) : Act → Links → List Act → Prop
  | idle {a n} (ha : a.isLink = false) (hn : k.next ≤ n) : Link k a { k with next := n } []
  | shrink {a conn att} (ha : a.isLink = false)
    (h : ∀ v p x, att v p = some x → k.att v p = some x) :
    Link k a { k with conn := conn, att := att } []
  | alloc {id data} :
    Link k (.screenShareStart id data)
      { k with
        publisher := Function.update k.publisher k.next id
        closed := Function.update k.closed k.next false
        sub := Function.update k.sub k.next fun _ => none
        next := k.next + 1 } []
  | remove {v p only} {owned : Option SessionId} (h : ∀ s ∈ owned, k.publisher s = p) :
    Link k (.removeScreenSub v p only)
      { k with
        att := fun v' p' =>
          if v' = v ∧ p' = p ∧ (only = none ∨ k.att v p = only) then none else k.att v' p' }
      (owned.toList.map fun s => .dropSubscriber v p s only)
  | drop {v p s only} :
    Link k (.dropSubscriber v p s only)
      { k with
        sub := fun s' v' =>
          if s' = s ∧ v' = v ∧ (only = none ∨ k.sub s v = only) then none else k.sub s' v' } []
  | close {s r subs} (hc : k.closed s = false) (h : ∀ v x, k.sub s v = some x → x ∈ subs) :
    Link k (.endScreenShareSession s r)
      { k with
        closed := Function.update k.closed s true
        sub := Function.update k.sub s fun _ => none } [.endSubscribers s subs]
  | endAll {s subs} : Link k (.endSubscribers s subs) k (k.detachAll (k.publisher s) subs)
  | detach {v p} :
    Link k (.detach v p)
      { k with att := fun v' p' => if v' = v ∧ p' = p then none else k.att v' p' } []
  | claim {id t s stale} (hc : k.closed s = false) (h : ∀ v x, k.sub s v = some x → x ∈ stale) :
    Link k (.screenShareResume id t)
      { k with
        publisher := Function.update k.publisher s id
        sub := Function.update k.sub s fun _ => none }
      (k.detachAll (k.publisher s) stale)
  | subscribe {v p s offer} (hp : k.publisher s = p) (hv : k.att v p = none) :
    Link k (.screenShareSubscribe v p offer) k [.subscribePublisher v s offer]
  | build {v s} :
    Link k (.subscribePublisher v s true)
      { k with subs := Function.update k.subs k.next (some ⟨v, s⟩), next := k.next + 1 }
      [.insertSubscriber v (k.publisher s) s k.next]
  | fail {v s} :
    Link k (.subscribePublisher v s false)
      { k with subs := Function.update k.subs k.next (some ⟨v, s⟩), next := k.next + 1 } []
  | late {v p s pc} (hc : k.closed s = true) : Link k (.insertSubscriber v p s pc) k []
  | insert {v p s pc first} (hc : k.closed s = false) :
    Link k (.insertSubscriber v p s pc)
      { k with sub := fun s' v' => if s' = s ∧ v' = v then some pc else k.sub s' v' }
      [.attachSub v p s pc first]
  | gone {v p s pc first} : Link k (.attachSub v p s pc first) k []
  | attach {v p s pc first} (hv : k.conn v = true) :
    Link k (.attachSub v p s pc first)
      { k with att := fun v' p' => if v' = v ∧ p' = p then some pc else k.att v' p' } []

/-! ### The room's steps are steps of the links -/

section Sim

variable {st : State} {r : Effect} {ord : Order}

lemma Link.same {k : Links} {a : Act} (ha : a.isLink = false) : Link k a k [] :=
  .idle ha (le_refl k.next)

lemma links_of {a : Act} (ha : a.isLink = false) (hst : r.st.links = st.links)
    (hl : linkActs r.next = []) : Link st.links a r.st.links (linkActs r.next) := by
  rw [hst, hl]
  exact .same ha

lemma links_go {a : Act} {l : List Act} (ha : a.isLink = false) (hl : linkActs l = []) :
    Link st.links a (st.go l).st.links (linkActs (st.go l).next) :=
  links_of ha rfl hl

lemma links_reply {a : Act} (ha : a.isLink = false) (id : PeerId) (ms : List Msg) :
    Link st.links a (st.reply id ms).st.links (linkActs (st.reply id ms).next) :=
  links_of ha rfl (by simp [State.reply, State.go, Act.isLink])

lemma subOf_modify (id : PeerId) (f : Entry → Entry) (hf : ∀ e, (f e).screenSubs = e.screenSubs) :
    ({ st with peers := st.peers.modify id f } : State).subOf = st.subOf := by
  funext v p
  simp only [State.subOf, Peers.get_modify]
  split_ifs with h
  · subst h
    rcases st.peers.get v with _ | e <;> simp [hf]
  · rfl

lemma subOf_modify_subs {v : PeerId} {e : Entry} (he : st.peers.get v = some e)
    (g : Entry → HashMap PeerId PcId) (v' p' : PeerId) :
    ({ st with peers := st.peers.modify v fun e => { e with screenSubs := g e } } : State).subOf
      v' p' = if v' = v then (g e).lookup p' else st.subOf v' p' := by
  simp only [State.subOf, Peers.get_modify]
  split_ifs with h
  · simp [he]
  · rfl

lemma subOf_detach (v p v' p' : PeerId) :
    (st.detach v p).subOf v' p' = if v' = v ∧ p' = p then none else st.subOf v' p' := by
  rcases he : st.peers.get v with _ | e
  · have hsame : st.peers.modify v (fun e => { e with screenSubs := AList.erase p e.screenSubs })
        = st.peers := by simp only [Peers.modify, he]
    simp only [State.detach, State.subOf, hsame]
    split_ifs with h
    · simp [h.1, he]
    · rfl
  · rw [State.detach, subOf_modify_subs he]
    by_cases hv : v' = v
    · subst hv
      simp [HashMap.lookup_erase, State.subOf, he]
    · simp [hv]

lemma conn_modify (id : PeerId) (f : Entry → Entry) :
    (fun k => ((st.peers.modify id f).get k).isSome) = fun k => (st.peers.get k).isSome := by
  funext k
  exact st.peers.get_modify_isSome

lemma links_modify {st' : State} {id : PeerId} {f : Entry → Entry}
    (hp : st'.peers = st.peers.modify id f) (hs : st'.sessions = st.sessions)
    (hsubs : st'.subs = st.subs) (hn : st'.next = st.next)
    (hf : ∀ e, (f e).screenSubs = e.screenSubs) : st'.links = st.links := by
  have h1 : st'.subOf = st.subOf := by
    rw [← @subOf_modify st id f hf]
    funext v p
    simp only [State.subOf, hp]
  have h2 : (fun k => (st'.peers.get k).isSome) = fun k => (st.peers.get k).isSome := by
    rw [hp, conn_modify]
  have h3 : st'.subscriber = st.subscriber := by
    funext s v
    simp only [State.subscriber, hs]
  simp only [State.links, h1, h2, h3, hs, hsubs, hn]

lemma links_setSession {st' : State} {s : SessionId} {x : ScreenSession}
    (hp : st'.peers = st.peers) (hs : st'.sessions = Function.update st.sessions s x)
    (hsubs : st'.subs = st.subs) (hf : x.publisherId = (st.sessions s).publisherId ∧
      x.closed = (st.sessions s).closed ∧ x.subscribers = (st.sessions s).subscribers) :
    st'.links = { st.links with next := st'.next } := by
  have h : ∀ {α : Type} (g : ScreenSession → α), g x = g (st.sessions s) →
      (fun k => g (st'.sessions k)) = fun k => g (st.sessions k) := by
    intro α g hg
    funext k
    rw [hs, Function.update_apply]
    split_ifs with hk
    · rw [hk, hg]
    · rfl
  have h1 : st'.subscriber = st.subscriber := by
    funext k v
    exact congrFun (h (fun x => x.subscribers.lookup v) (by rw [hf.2.2])) k
  simp only [State.links, h (·.publisherId) hf.1, h (·.closed) hf.2.1, h1, hp, hsubs,
    show st'.subOf = st.subOf by funext v p; simp only [State.subOf, hp]]

lemma subscriber_update {st' : State} {s : SessionId} {x : ScreenSession}
    (hs : st'.sessions = Function.update st.sessions s x) (s' : SessionId) (v : PeerId) :
    st'.subscriber s' v = if s' = s then x.subscribers.lookup v else st.subscriber s' v := by
  simp only [State.subscriber, hs, Function.update_apply]
  split_ifs <;> rfl

lemma mem_subscribers {s : SessionId} {v : PeerId} {x : PcId} (h : st.subscriber s v = some x) :
    x ∈ ord.list (HashMap.values (st.sessions s).subscribers) := by
  rw [Order.mem_list, HashMap.mem_values]
  exact ⟨v, h⟩

lemma links_shrink {a : Act} (ha : a.isLink = false)
    (hatt : ∀ v p x, r.st.subOf v p = some x → st.subOf v p = some x)
    (hs : r.st.sessions = st.sessions) (hsubs : r.st.subs = st.subs) (hn : r.st.next = st.next)
    (hl : linkActs r.next = []) : Link st.links a r.st.links (linkActs r.next) := by
  have hst : r.st.links = { st.links with conn := r.st.links.conn, att := r.st.subOf } := by
    have h : r.st.subscriber = st.subscriber := by
      funext s v
      simp only [State.subscriber, hs]
    simp only [State.links, h, hs, hsubs, hn]
  rw [hst, hl]
  exact .shrink ha hatt

lemma addPeer_link {p : Peer} {name : String} (h : st.addPeer ord p name = some r) :
    Link st.links (.addPeer p name) r.st.links (linkActs r.next) := by
  unfold State.addPeer at h
  split at h
  · cases h
  cases h
  refine links_shrink rfl (fun v q x hx => ?_) rfl rfl rfl
    (by simp [State.go, Act.isLink, State.dropEvicted])
  simp only [State.go, State.subOf, Peers.get_insert, get_staying] at hx
  split_ifs at hx
  · simp [State.newEntry] at hx
  · simp at hx
  · exact hx

lemma removePeer_link (id : PeerId) : Link st.links (.removePeer id)
    (st.removePeer ord id).st.links (linkActs (st.removePeer ord id).next) := by
  unfold State.removePeer
  split
  · exact links_go rfl rfl
  · next e he =>
    refine links_shrink rfl (fun v q x hx => ?_) rfl rfl rfl (by simp [State.go, Act.isLink])
    simp only [State.go, State.subOf, State.tick, Peers.get_remove] at hx
    split_ifs at hx
    · simp at hx
    · exact hx

lemma matched_eq_none {only found : Option PcId} :
    State.matched only found = none ↔ found = none ∨ only ≠ none ∧ found ≠ only := by
  unfold State.matched
  split_ifs with h
  · constructor
    · exact .inl
    · rintro (h' | ⟨h1, h2⟩)
      · exact h'
      · rcases h with h | h
        · exact absurd h h1
        · exact absurd h h2
  · rw [not_or] at h
    simp [h]

lemma subOf_removeScreenSub (v p : PeerId) (only : Option PcId) :
    (st.removeScreenSub v p only).st.subOf = fun v' p' =>
      if v' = v ∧ p' = p ∧ (only = none ∨ st.subOf v p = only) then none else st.subOf v' p' := by
  funext v' p'
  simp only [State.removeScreenSub, State.go]
  split_ifs with hsub h h
  · rw [subOf_detach, if_pos ⟨h.1, h.2.1⟩]
  · rw [subOf_detach, if_neg]
    rintro ⟨h1, h2⟩
    refine h ⟨h1, h2, ?_⟩
    by_contra ho
    rw [not_or] at ho
    rw [(matched_eq_none).mpr (.inr ho)] at hsub
    cases hsub
  · -- nothing matches, and nothing is removed
    obtain ⟨rfl, rfl, ho⟩ := h
    rw [Option.not_isSome_iff_eq_none, matched_eq_none] at hsub
    rcases hsub with hsub | ⟨h1, h2⟩
    · exact hsub
    · rcases ho with ho | ho
      · exact absurd ho h1
      · exact absurd ho h2
  · rfl

lemma conn_removeScreenSub (v p : PeerId) (only : Option PcId) (k : PeerId) :
    ((st.removeScreenSub v p only).st.peers.get k).isSome = (st.peers.get k).isSome := by
  simp only [State.removeScreenSub, State.go]
  split_ifs
  · exact st.peers.get_modify_isSome
  · rfl

lemma removeScreenSub_link (hpub : ∀ p s, st.owned p = some s → (st.sessions s).publisherId = p)
    (v p : PeerId) (only : Option PcId) : Link st.links (.removeScreenSub v p only)
      (st.removeScreenSub v p only).st.links (linkActs (st.removeScreenSub v p only).next) := by
  have hnext : linkActs (st.removeScreenSub v p only).next =
      (st.owned p).toList.map fun s => .dropSubscriber v p s only := by
    simp [State.removeScreenSub, State.go, Act.isLink]
  have hrest : (st.removeScreenSub v p only).st = st ∨
      (st.removeScreenSub v p only).st = st.detach v p := by
    simp only [State.removeScreenSub, State.go]
    split_ifs
    · exact .inr rfl
    · exact .inl rfl
  rw [hnext]
  convert @Link.remove st.links v p only (st.owned p) (hpub p) using 1
  refine Links.ext (funext (conn_removeScreenSub v p only)) (subOf_removeScreenSub v p only)
    ?_ ?_ ?_ ?_ ?_ <;> rcases hrest with h | h <;> rw [h] <;> rfl

lemma subscriber_dropSubscriber (v p : PeerId) (s : SessionId) (only : Option PcId) :
    (st.dropSubscriber v p s only).st.subscriber = fun s' v' =>
      if s' = s ∧ v' = v ∧ (only = none ∨ st.subscriber s v = only) then none
      else st.subscriber s' v' := by
  funext s' v'
  unfold State.dropSubscriber
  rcases hm : State.matched only (st.subscriber s v) with _ | pc
  · split_ifs with h
    · -- the entry that goes is the one asked for, or there is none
      obtain ⟨rfl, rfl, ho⟩ := h
      rcases matched_eq_none.mp hm with hn | ⟨h1, h2⟩
      · exact hn
      · rcases ho with ho | ho
        · exact absurd ho h1
        · exact absurd ho h2
    · rfl
  · have ho : only = none ∨ st.subscriber s v = only := by
      by_contra ho
      rw [not_or] at ho
      rw [matched_eq_none.mpr (.inr ho)] at hm
      cases hm
    -- only this viewer's subscription of this session goes
    refine (@subscriber_update st _ s _ rfl s' v').trans ?_
    rw [HashMap.lookup_erase]
    by_cases hs : s' = s
    · subst hs
      by_cases hv : v' = v
      · simp [hv, ho]
      · simp [hv, State.subscriber]
    · simp [hs]

lemma dropSubscriber_rest (v p : PeerId) (s : SessionId) (only : Option PcId) :
    ∃ subs,
      (st.dropSubscriber v p s only).st = st.setSession s ({ · with subscribers := subs }) := by
  unfold State.dropSubscriber
  rcases State.matched only (st.subscriber s v) with _ | pc
  · exact ⟨(st.sessions s).subscribers, by simp [State.setSession, State.go]⟩
  · exact ⟨_, rfl⟩

lemma dropSubscriber_link (v p : PeerId) (s : SessionId) (only : Option PcId) :
    Link st.links (.dropSubscriber v p s only) (st.dropSubscriber v p s only).st.links
      (linkActs (st.dropSubscriber v p s only).next) := by
  have hnext : linkActs (st.dropSubscriber v p s only).next = [] := by
    unfold State.dropSubscriber
    split
    · rfl
    · simp [State.go, Act.isLink, apply_ite linkActs]
  obtain ⟨subs, hrest⟩ := @dropSubscriber_rest st v p s only
  rw [hnext]
  convert Link.drop using 1
  refine Links.ext ?_ ?_ (subscriber_dropSubscriber v p s only) ?_ ?_ ?_ ?_ <;> rw [hrest]
  · rfl
  · rfl
  · funext k; by_cases hk : k = s <;> simp [State.links, State.setSession, hk]
  · funext k; by_cases hk : k = s <;> simp [State.links, State.setSession, hk]
  · rfl
  · rfl

lemma endScreenShareSession_link (s : SessionId) (r : EndReason) :
    Link st.links (.endScreenShareSession s r) (st.endScreenShareSession ord s).st.links
      (linkActs (st.endScreenShareSession ord s).next) := by
  unfold State.endScreenShareSession
  split
  · exact links_go rfl rfl
  · next h =>
    have hc : st.links.closed s = false := by simpa [State.links] using h
    convert @Link.close st.links s r _ hc (fun v x => @mem_subscribers st ord s v x) using 1
    · refine Links.ext rfl rfl ?_ ?_ ?_ rfl rfl
      · funext s' v
        refine (@subscriber_update st _ s _ rfl s' v).trans ?_
        by_cases hs : s' = s <;> simp [hs, State.links]
      · funext k; by_cases hk : k = s <;> simp [State.links, State.go, State.setSession, hk]
      · funext k; by_cases hk : k = s <;> simp [State.links, State.go, State.setSession, hk]
    · simp [State.go, Act.isLink]

lemma linkActs_closeAndDetach (p : PeerId) (pcs : List PcId) :
    linkActs (pcs.flatMap fun pc => st.closeAndDetach p pc) = st.links.detachAll p pcs := by
  simp [State.closeAndDetach, Links.detachAll, Act.isLink, State.links]

lemma screenShareResume_link (id : PeerId) (t : Token) :
    Link st.links (.screenShareResume id t) (st.screenShareResume ord id t).st.links
      (linkActs (st.screenShareResume ord id t).next) := by
  unfold State.screenShareResume
  split
  · -- no session has the token
    exact links_reply rfl _ _
  next s hs =>
  simp only
  split
  · exact links_reply rfl _ _
  split
  · exact links_go rfl rfl
  next e he =>
  split
  · exact links_reply rfl _ _
  split
  · exact links_reply rfl _ _
  next hc =>
  have hopen : st.links.closed s = false := by simpa [State.links] using hc
  convert @Link.claim st.links id t s _ hopen (fun v x => @mem_subscribers st ord s v x) using 1
  · refine Links.ext ?_ ?_ ?_ ?_ ?_ rfl rfl
    · exact conn_modify id _
    · exact subOf_modify id _ fun _ => rfl
    · funext s' v
      refine (@subscriber_update st _ s _ rfl s' v).trans ?_
      by_cases hs : s' = s <;> simp [hs, State.links]
    · funext k; by_cases hk : k = s <;> simp [State.links, State.go, State.setSession, hk]
    · funext k; by_cases hk : k = s <;> simp [State.links, State.go, State.setSession, hk]
  · simp only [State.go, watched_append, linkActs_closeAndDetach]
    simp [Act.isLink, State.links]

lemma screenShareSubscribe_link
    (hpub : ∀ p s, st.owned p = some s → (st.sessions s).publisherId = p) (v p : PeerId)
    (offer : Bool) : Link st.links (.screenShareSubscribe v p offer)
      (st.screenShareSubscribe v p offer).st.links
      (linkActs (st.screenShareSubscribe v p offer).next) := by
  unfold State.screenShareSubscribe
  split
  · exact links_reply rfl _ _
  · next s hs =>
    split
    · exact links_go rfl rfl
    · next hv => exact .subscribe (hpub p s hs) (by simpa [State.links] using hv)

lemma subscribePublisher_link (v : PeerId) (s : SessionId) (offer : Bool) :
    Link st.links (.subscribePublisher v s offer) (st.subscribePublisher v s offer).st.links
      (linkActs (st.subscribePublisher v s offer).next) := by
  cases offer with
  | true => exact .build
  | false => exact .fail

lemma insertSubscriber_link (v p : PeerId) (s : SessionId) (pc : PcId) :
    Link st.links (.insertSubscriber v p s pc) (st.insertSubscriber v p s pc).st.links
      (linkActs (st.insertSubscriber v p s pc).next) := by
  unfold State.insertSubscriber
  split
  · next hc => exact .late hc
  · next hc =>
    have hopen : st.links.closed s = false := by simpa [State.links] using hc
    convert @Link.insert st.links v p s pc
      (HashMap.len (AList.insert v pc (st.sessions s).subscribers) = 1) hopen using 1
    · refine Links.ext rfl rfl ?_ ?_ ?_ rfl rfl
      · funext s' v'
        refine (@subscriber_update st _ s _ rfl s' v').trans ?_
        simp only [HashMap.lookup_insert]
        by_cases hs : s' = s
        · by_cases hv : v' = v <;> simp [hs, hv, State.links, State.subscriber]
        · simp [hs, State.links]
      · funext k; by_cases hk : k = s <;> simp [State.links, State.go, State.setSession, hk]
      · funext k; by_cases hk : k = s <;> simp [State.links, State.go, State.setSession, hk]
    · simp [State.go, Act.isLink]

lemma attachSub_link (v p : PeerId) (s : SessionId) (pc : PcId) (first : Bool) :
    Link st.links (.attachSub v p s pc first) (st.attachSub v p pc first).st.links
      (linkActs (st.attachSub v p pc first).next) := by
  unfold State.attachSub
  split
  · next e he =>
    have hv : st.links.conn v = true := by simp [State.links, he]
    convert @Link.attach st.links v p s pc first hv using 1
    · refine Links.ext (conn_modify v _) ?_ rfl rfl rfl rfl rfl
      funext v' p'
      refine (subOf_modify_subs he _ v' p').trans ?_
      by_cases hv : v' = v
      · by_cases hp : p' = p <;>
          simp [hv, hp, HashMap.lookup_insert, State.links, State.subOf, he]
      · simp [hv, State.links]
    · simp [State.go, Act.isLink, apply_ite linkActs]
  · exact .gone

lemma screenShareStart_link (id : PeerId) (data : StartData) :
    Link st.links (.screenShareStart id data) (st.screenShareStart id data).st.links
      (linkActs (st.screenShareStart id data).next) := by
  unfold State.screenShareStart
  split
  · exact links_reply rfl _ _
  split
  · exact links_reply rfl _ _
  · convert Link.alloc using 1
    · refine Links.ext rfl rfl ?_ ?_ ?_ rfl rfl
      · funext s v
        by_cases hs : s = st.next <;> simp [hs, State.links, State.go, State.subscriber]
      · funext k; by_cases hk : k = st.next <;> simp [State.links, State.go, hk]
      · funext k; by_cases hk : k = st.next <;> simp [State.links, State.go, hk]
    · simp [State.go, Act.isLink]

lemma registerSession_link (id : PeerId) (s : SessionId) :
    Link st.links (.registerSession id s) (st.registerSession id s).st.links
      (linkActs (st.registerSession id s).next) := by
  unfold State.registerSession
  split
  · split
    · exact links_of rfl (links_modify rfl rfl rfl rfl fun _ => rfl)
        (by simp [State.reply, State.go, Act.isLink])
    · exact links_go rfl rfl
  · exact links_go rfl rfl

lemma startScreenShareGrace_link (s : SessionId) (id : PeerId) :
    Link st.links (.startScreenShareGrace s id) (st.startScreenShareGrace s).st.links
      (linkActs (st.startScreenShareGrace s).next) := by
  unfold State.startScreenShareGrace
  split
  · exact links_go rfl rfl
  · convert @Link.idle st.links (.startScreenShareGrace s id) (st.next + 1) rfl
      (Nat.le_succ st.next) using 1
    · exact @links_setSession st _ s _ rfl rfl rfl ⟨rfl, rfl, rfl⟩
    · rfl

lemma endRoster_link (s : SessionId) (p : PeerId) :
    Link st.links (.endRoster s p) (st.endRoster ord s p).st.links
      (linkActs (st.endRoster ord s p).next) := by
  have hf : ∀ e : Entry, (if e.screenSession = some s then { e with screenSession := none }
      else e).screenSubs = e.screenSubs := fun e => by split_ifs <;> rfl
  unfold State.endRoster
  simp only
  split
  · exact links_of rfl (links_modify rfl rfl rfl rfl hf)
      (by simp [State.go, Act.isLink, apply_ite linkActs])
  · exact links_of rfl (links_modify rfl rfl rfl rfl hf) (by simp [State.go])

/-- **Every step of the room is a step of the links.** -/
theorem exec_link (hpub : ∀ p s, st.owned p = some s → (st.sessions s).publisherId = p)
    {ch : Choice} {a : Act} (h : exec ch a st = some r) :
    Link st.links a r.st.links (linkActs r.next) := by
  cases a
  case addPeer => exact addPeer_link h
  case closePublisher s => obtain rfl | rfl := closePublisher_spec h <;> exact links_of rfl rfl rfl
  all_goals obtain rfl := Option.some.inj h
  case cancel | send | presence | firstVideoPublisher | cancelTimer | delivered => exact .same rfl
  case removePeer => exact removePeer_link _
  case removeScreenSub => exact removeScreenSub_link hpub _ _ _
  case dropSubscriber => exact dropSubscriber_link _ _ _ _
  case startScreenShareGrace => exact startScreenShareGrace_link _ _
  case screenShareStart => exact screenShareStart_link _ _
  case registerSession => exact registerSession_link _ _
  case endScreenShareSession => exact endScreenShareSession_link _ _
  case endRoster => exact endRoster_link _ _
  case screenShareResume => exact screenShareResume_link _ _
  case screenShareSubscribe => exact screenShareSubscribe_link hpub _ _ _
  case subscribePublisher => exact subscribePublisher_link _ _ _
  case insertSubscriber => exact insertSubscriber_link _ _ _ _
  case attachSub => exact attachSub_link _ _ _ _ _
  case endSubscribers s subs =>
    have hl : linkActs (st.endSubscribers s subs).next =
        st.links.detachAll (st.links.publisher s) subs := by
      simp only [State.endSubscribers, State.go, watched_append, linkActs_closeAndDetach]
      simp [Act.isLink, State.links]
    rw [hl]
    exact .endAll
  case detach v p =>
    convert Link.detach using 1
    · refine Links.ext (conn_modify v _) ?_ rfl rfl rfl rfl rfl
      funext v' p'
      exact subOf_detach v p v' p'
    · rfl
  -- the other sections leave the links alone
  case screenShareStop id =>
    unfold State.screenShareStop
    split <;> exact links_go rfl rfl
  case findSession t =>
    unfold State.findSession
    split <;> exact links_go rfl rfl
  case setDisplayName id name =>
    unfold State.setDisplayName
    split
    · exact links_go rfl rfl
    · exact links_of rfl (links_modify rfl rfl rfl rfl fun _ => rfl)
        (by simp [State.go, Act.isLink])
  case setState id selfMuted deafened =>
    unfold State.setState
    split
    · exact links_go rfl rfl
    · exact links_of rfl (links_modify rfl rfl rfl rfl fun _ => rfl)
        (by simp [State.go, Act.isLink])
  case close pc =>
    unfold State.close
    split <;> exact links_of rfl rfl rfl
  case subClosed pc =>
    unfold State.subClosed
    split
    · exact links_go rfl rfl
    split <;> exact links_go rfl rfl
  case sendEncode p ev =>
    unfold State.sendEncode
    split
    · exact links_go rfl rfl
    · exact links_reply rfl _ _
  case announceResume id s old =>
    unfold State.announceResume
    split
    · exact links_go rfl rfl
    · exact links_of rfl rfl (by simp [State.go, Act.isLink])
  case firstScreenVideoReady s =>
    unfold State.firstScreenVideoReady
    split <;> exact links_go rfl rfl
  case firstVideoAnnounce s p =>
    unfold State.firstVideoAnnounce
    split
    · exact links_go rfl rfl
    · exact links_of rfl rfl (by simp [State.go, Act.isLink])
  case firstVideoIdle s p =>
    unfold State.firstVideoIdle
    split <;> exact links_go rfl rfl

end Sim

/-! ### Runs, seen from the links -/

abbrev pendingLinks : Config → Multiset Act := pendingOf Act.isLink

/-- The viewer whose own message a step works on. -/
def Act.viewer : Act → Option PeerId
  | .screenShareSubscribe v _ _ | .subscribePublisher v _ _ | .insertSubscriber v _ _ _
  | .attachSub v _ _ _ _ => some v
  | .removeScreenSub v _ only | .dropSubscriber v _ _ only => if only = none then some v else none
  | .registerSession .. | .startScreenShareGrace .. | .cancelTimer .. | .endScreenShareSession ..
  | .endSubscribers .. | .detach .. | .endRoster .. | .addPeer .. | .removePeer ..
  | .setDisplayName .. | .setState .. | .cancel .. | .send .. | .presence .. | .close ..
  | .subClosed .. | .sendEncode .. | .screenShareStart .. | .screenShareStop ..
  | .closePublisher .. | .findSession .. | .screenShareResume .. | .announceResume ..
  | .firstScreenVideoReady .. | .firstVideoPublisher .. | .firstVideoAnnounce ..
  | .firstVideoIdle .. | .delivered .. => none

lemma filterMap_viewer (l : List Act) :
    l.filterMap Act.viewer = (watched (·.viewer.isSome) l).filterMap Act.viewer := by
  induction l with
  | nil => rfl
  | cons a l ih =>
    rw [watched_cons]
    split_ifs with h
    · rw [List.filterMap_cons, List.filterMap_cons, ih]
    · rw [List.filterMap_cons_none (by simpa using h), ih]

lemma exec_viewer {ch : Choice} {a : Act} {st : State} {r : Effect} (h : exec ch a st = some r) :
    (r.next.filterMap Act.viewer).Sublist a.viewer.toList := by
  rw [filterMap_viewer]
  cases a
  case addPeer p name =>
    simp only [exec, State.addPeer] at h
    split at h <;> cases h
    simp [State.go, State.dropEvicted, broadcast, Act.viewer]
  case closePublisher s => obtain rfl | rfl := closePublisher_spec h <;> simp [State.go]
  all_goals obtain rfl := Option.some.inj h
  case removeScreenSub v p only =>
    simp only [State.removeScreenSub, State.go]
    rcases st.owned p with _ | s
    · simp [Act.viewer]
    · by_cases ho : only = none <;> simp [Act.viewer, ho]
  case screenShareSubscribe v p offer =>
    unfold State.screenShareSubscribe
    split
    · simp [State.reply, State.go, Act.viewer]
    split <;> simp [State.go, Act.viewer]
  case subscribePublisher v s offer =>
    simp only [State.subscribePublisher]
    split <;> simp [State.go, Act.viewer]
  case insertSubscriber v p s pc =>
    unfold State.insertSubscriber
    split <;> simp [State.go, Act.viewer]
  case attachSub v p s pc first =>
    unfold State.attachSub
    split
    · cases first <;> simp [State.go, Act.viewer]
    · simp [State.go, Act.viewer]
  case dropSubscriber v p s only =>
    unfold State.dropSubscriber
    split
    · simp [State.go]
    · simp [State.go, Act.viewer, apply_ite (watched _)]
  case endRoster s p =>
    simp only [State.endRoster]
    split <;> simp [State.go, Act.viewer, apply_ite (watched _), broadcast]
  case cancel | send | presence | cancelTimer | detach | firstVideoPublisher | delivered =>
    simp [State.go, Act.viewer]
  -- the other steps leave none
  all_goals
    simp only [State.removePeer, State.setDisplayName, State.setState, State.close,
      State.subClosed, State.sendEncode, State.startScreenShareGrace, State.screenShareStart,
      State.registerSession, State.screenShareStop, State.endScreenShareSession,
      State.endSubscribers, State.findSession, State.screenShareResume,
      State.announceResume, State.firstScreenVideoReady, State.firstVideoAnnounce,
      State.firstVideoIdle]
    repeat' split
    all_goals simp [State.go, State.reply, State.closeAndDetach, broadcast, Act.viewer]

/-- What a step of the room can do to the links and to the link steps pending. While a step of
a viewer's own message is taken, no other is pending. -/
inductive LinkStep (k : Links) (w : Multiset Act) : Option Act → Links → Multiset Act → Prop
  | run {a k' next W} (h : Link k a k' next) (hw : w = ↑(linkActs [a]) + W)
    (hv : ∀ v, a.viewer = some v → ∀ b ∈ W, b.viewer ≠ some v) :
    LinkStep k w (some a) k' (↑next + W)
  | begin : LinkStep k w none k w

theorem step_viewer {c c' : Config} {l : Label} (hc : c.OneAtATime Act.viewer some)
    (h : step c l = some c') : c'.OneAtATime Act.viewer some := by
  cases l with
  | run i ch =>
    refine hc.advance h (fun a r hr => exec_viewer hr) fun a r hr b hb => ?_
    rcases exec_spawned hr with hs | ⟨t, hs⟩ <;> rw [hs] at hb
    · cases hb
    · simp only [List.flatten_cons, List.flatten_nil, List.append_nil, List.mem_singleton] at hb
      rw [hb]
      rfl
  | event e =>
    obtain ⟨st, o, todo, hb, rfl, hfree⟩ := step_event h
    have howner : ∀ a ∈ todo, ∀ v, a.viewer = some v → o = some v := by
      cases e <;> simp only [Event.begin, Event.begin.message] at hb <;> (try split at hb) <;>
        cases hb <;> simp [Act.viewer]
    refine hc.launch (fun a ha v hv => ?_) ?_
    · have ho := howner a ha v hv
      exact ⟨ho, ho ▸ hfree v ho⟩
    · rcases Event.begin_todo hb with rfl | ⟨a, rfl⟩
      · exact List.nodup_nil
      · rw [List.filterMap_cons]
        split <;> simp

theorem Reach.oneAtATime {G : Config → Label → Prop} {c : Config} (h : Reach G c) :
    c.OneAtATime Act.viewer some :=
  Machine.Reach.invariant (I := fun c => c.OneAtATime Act.viewer some)
    ⟨by simp [init], by simp [init, Pool.work]⟩ (fun _ _ _ hc _ hl => step_viewer hc hl) h

lemma begin_links {e : Event} {st st' : State} {o : Option PeerId} {todo : List Act}
    (hb : e.begin st = some (st', o, todo)) :
    st'.links = st.links ∧ watched Act.isLink todo = [] := by
  cases e with
  | firstVideo s =>
    simp only [Event.begin] at hb
    split at hb <;> cases hb
    exact ⟨links_setSession rfl rfl rfl ⟨rfl, rfl, rfl⟩, rfl⟩
  | _ =>
    simp only [Event.begin, Event.begin.message] at hb
    try split at hb
    all_goals cases hb
    all_goals exact ⟨rfl, rfl⟩

theorem step_link {c c' : Config} {l : Label} (hk : Exclusive c.st.core (pending c))
    (hc : c.OneAtATime Act.viewer some) (h : step c l = some c') :
    LinkStep c.st.links (pendingLinks c) (l.act c) c'.st.links (pendingLinks c') := by
  cases l with
  | run i ch =>
    obtain ⟨a, r, W, ha, hr, hst, hw, hw'⟩ := Pool.advance_work h
    have hs : linkActs r.spawned.flatten = [] := by
      rcases exec_spawned hr with hs | ⟨t, hs⟩ <;> rw [hs] <;> rfl
    obtain ⟨h1, h2⟩ := pendingOf_run hw hw' hs
    have hpub : ∀ p s, c.st.owned p = some s → (c.st.sessions s).publisherId = p :=
      fun p s hp => hk.publisher p s (owner_eq_some.mpr hp)
    rw [hst, show pendingLinks c' = _ from h2, Label.act, ha]
    refine .run (exec_link hpub hr) h1 fun v hv b hb => ?_
    exact hc.sole hw hv b (List.mem_of_mem_filter (Multiset.mem_coe.mp hb))
  | event e =>
    obtain ⟨st, o, todo, hb, rfl, -⟩ := step_event h
    obtain ⟨hst, htodo⟩ := begin_links hb
    rw [show pendingLinks (c.launch st o todo) = _ from pendingOf_launch .., Pool.st_launch,
      Label.act, hst, htodo, Multiset.coe_nil, zero_add]
    exact .begin

end VoiceHub.Sfu.Room
