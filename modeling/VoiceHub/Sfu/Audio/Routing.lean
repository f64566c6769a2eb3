import Mathlib
import VoiceHub.Sfu.Audio.Members
import VoiceHub.Sfu.Audio.Subscriptions

/-!
Where everybody's voice goes once the room is at rest.

Every change of the room's tracks is followed by a `signal_all`, and as long as a voice peer
without a pending offer has slots that differ from the tracks, one is still to come, or a
`sync` of that peer, or its lock is held by a `reconcile` that is yet to read or to offer.
-/

namespace VoiceHub.Sfu.Audio

open VoiceHub.Lib
open VoiceHub.Sfu.Room (Peer Outbox)

/-- How often a track has the PC of a peer among its subscribers. -/
def State.subsOf (st : State) (v : PeerId) (t : AudioTrack) : ℕ :=
  (st.subs t).countP fun s => s.pc = v

/-- A `sync` of the peer is to come. -/
def Signalled (todo : Act → Prop) (v : PeerId) : Prop :=
  todo .collect ∨ (∃ x, todo (.published x)) ∨ todo (.sync v)

/-- The slots of an open peer, and why they are not yet what they should be. -/
structure Follows (st : State) (todo : Act → Prop) (v : PeerId) : Prop where
  held : (st.audio v).holder.isSome → todo (.held v)
  subscribed : Subscribed (st.audio v).sync ((st.audio v).holder.getD []) (st.subsOf v)
  settles : ∀ p, st.peers.get v = some p → p.chatOnly = false → st.cancelled v = false →
    (st.audio v).sync.pending = false → Signalled todo v ∨
      (∃ s ∈ (st.audio v).holder.getD [], s.decides = true) ∨
        (carried (st.audio v).sync.slots).Perm (want v st.tracks)

/-- Every peer with an open PC. -/
def Routes (st : State) (todo : Act → Prop) : Prop :=
  ∀ v, (st.audio v).closed = false → Follows st todo v

variable {st st' : State} {todo todo' : Act → Prop} {ch : Choice} {r : Effect} {m : Act}
  {v id : PeerId}

lemma want_perm {tracks tracks' : Tracks} (h : ∀ k, tracks'.get k = tracks.get k) :
    (want v tracks').Perm (want v tracks) := by
  refine (List.perm_ext_iff_of_nodup nodup_want nodup_want).mpr fun t => ?_
  rw [mem_want, mem_want, h]

lemma Follows.frame (h : Follows st todo v) (hs : (st'.audio v).sync = (st.audio v).sync)
    (hh : (st'.audio v).holder = (st.audio v).holder) (hn : st'.subsOf v = st.subsOf v)
    (hheld : todo (.held v) → todo' (.held v))
    (hset : ∀ q, st'.peers.get v = some q → q.chatOnly = false → Signalled todo' v ∨
      st.peers.get v = some q ∧ (∀ k, st'.tracks.get k = st.tracks.get k) ∧
      (st.cancelled v → st'.cancelled v) ∧ (Signalled todo v → Signalled todo' v)) :
    Follows st' todo' v := by
  refine ⟨fun hx => hheld (h.held (hh ▸ hx)), ?_, fun p hp hv hc hpend => ?_⟩
  · rw [hs, hh, hn]
    exact h.subscribed
  · rcases hset p hp hv with hsig | ⟨hpeer, hwant, hcanc, hsig⟩
    · exact .inl hsig
    · rw [hs, hh]
      rw [hs] at hpend
      have hc' : st.cancelled v = false := by
        by_contra hx
        rw [hcanc (Bool.eq_true_of_not_eq_false hx)] at hc
        cases hc
      exact (h.settles p hpeer hv hc' hpend).imp hsig
        (.imp_right fun hperm => hperm.trans (want_perm hwant).symm)

lemma signalled_next (hm : m ≠ .collect ∧ (∀ x, m ≠ .published x) ∧ m ≠ .sync v)
    (h : Signalled (fun a => a = m ∨ todo a) v) :
    Signalled (fun a => (a ∈ r.next ∨ a ∈ r.spawned.flatten) ∨ todo a) v := by
  obtain ⟨hc, hp, hs⟩ := hm
  rcases h with h | ⟨x, h⟩ | h
  · exact .inl (.inr (h.resolve_left (Ne.symm hc)))
  · exact .inr (.inl ⟨x, .inr (h.resolve_left (Ne.symm (hp x)))⟩)
  · exact .inr (.inr (.inr (h.resolve_left (Ne.symm hs))))

lemma Routes.frame (h : Routes st fun a => a = m ∨ todo a)
    (ha : ∀ x, (r.st.audio x).sync = (st.audio x).sync ∧
      (r.st.audio x).holder = (st.audio x).holder ∧
      ((r.st.audio x).closed = false → (st.audio x).closed = false))
    (hn : r.st.subs = st.subs) (hm : ∀ x, m ≠ .held x)
    (hset : ∀ v q, r.st.peers.get v = some q → q.chatOnly = false →
      Signalled (fun a => (a ∈ r.next ∨ a ∈ r.spawned.flatten) ∨ todo a) v ∨
      st.peers.get v = some q ∧ (∀ k, r.st.tracks.get k = st.tracks.get k) ∧
      (st.cancelled v → r.st.cancelled v) ∧
      (Signalled (fun a => a = m ∨ todo a) v →
        Signalled (fun a => (a ∈ r.next ∨ a ∈ r.spawned.flatten) ∨ todo a) v)) :
    Routes r.st fun a => (a ∈ r.next ∨ a ∈ r.spawned.flatten) ∨ todo a := by
  intro v hv
  obtain ⟨hs, hh, hc⟩ := ha v
  refine (h v (hc hv)).frame hs hh ?_ (fun hx => .inr (hx.resolve_left (Ne.symm (hm v)))) (hset v)
  unfold State.subsOf
  rw [hn]

lemma signalled_of_collect (h : .collect ∈ r.next ∨ .collect ∈ r.spawned.flatten) :
    Signalled (fun a => (a ∈ r.next ∨ a ∈ r.spawned.flatten) ∨ todo a) v := .inl (.inl h)

lemma Routes.addPeer {p : Peer} (hr : st.addPeer ch.order p = some r)
    (h : Routes st fun a => a = .addPeer p ∨ todo a) :
    Routes r.st fun a => (a ∈ r.next ∨ a ∈ r.spawned.flatten) ∨ todo a := by
  obtain ⟨-, hst, -, hnext⟩ := addPeer_spec hr
  refine h.frame (fun x => ?_) ?_ (by simp) fun v q hq hv => ?_
  · rw [hst]
    exact ⟨rfl, rfl, fun hx => hx⟩
  · rw [hst]
    rfl
  · by_cases hcollect : st.evicted ch.order p ≠ [] ∨ p.chatOnly = false
    · exact .inl (signalled_of_collect (.inl ((hnext _).mpr (.inr (.inr ⟨rfl, hcollect⟩)))))
    · obtain ⟨hev, hchat⟩ := not_or.mp hcollect
      rw [hst] at hq ⊢
      refine .inr ⟨?_, fun k => ?_, fun hx => hx, signalled_next (by simp)⟩
      · rw [peers_joined, not_not.mp hev] at hq
        split_ifs at hq with hp
        · exact absurd (Option.some.inj hq ▸ hv) hchat
        · exact hq
      · rw [tracks_joined, not_not.mp hev]
        exact if_neg List.not_mem_nil

lemma Routes.removePeer (hmem : Members st fun a => a = .removePeer id ∨ todo a)
    (h : Routes st fun a => a = .removePeer id ∨ todo a) :
    Routes (st.removePeer ch.order id).st fun a => (a ∈ (st.removePeer ch.order id).next ∨
      a ∈ (st.removePeer ch.order id).spawned.flatten) ∨ todo a := by
  -- the peer is gone already
  cases hp : st.peers.get id with
  | none =>
    rw [removePeer_absent hp]
    exact h.frame (fun _ => ⟨rfl, rfl, fun hx => hx⟩) rfl (by simp) fun v q hq _ =>
      .inr ⟨hq, fun _ => rfl, fun hx => hx, signalled_next (by simp)⟩
  | some p =>
    obtain ⟨hst, -, hnext⟩ := removePeer_spec hp
    refine h.frame (fun x => ?_) ?_ (by simp) fun v q hq _ => ?_
    · rw [hst]
      exact ⟨rfl, rfl, fun hx => hx⟩
    · rw [hst]
      rfl
    · cases hchat : p.chatOnly with
      -- a voice peer's leaving signals everybody
      | false => exact .inl (signalled_of_collect (.inl ((hnext _).mpr (.inr (.inr ⟨rfl, hchat⟩)))))
      | true =>
        rw [hst] at hq ⊢
        refine .inr ⟨?_, fun k => ?_, fun hx => hx, signalled_next (by simp)⟩
        · rw [peers_without] at hq
          split_ifs at hq
          exact hq
        · -- a chat-only peer has no track in the room
          rw [tracks_without]
          split_ifs with hk
          · rw [List.mem_singleton.mp hk]
            by_contra hne
            obtain ⟨t, ht⟩ := Option.ne_none_iff_exists'.mp (Ne.symm hne)
            have ho := st.tracks.key_of_get ht
            have hvoice := (hmem.owner t (ho ▸ ht)).1
            rw [ho, State.voice, hmem.seen id p hp, Option.any_some, hchat] at hvoice
            cases hvoice
          · rfl

lemma Routes.ofPeer (h : Routes st fun a => a = m ∨ todo a) (id : PeerId)
    (ha : ∀ x ≠ id, r.st.audio x = st.audio x) (hn : ∀ x ≠ id, r.st.subsOf x = st.subsOf x)
    (hs : Still st r.st) (hm : m ≠ .collect ∧ (∀ x, m ≠ .published x) ∧ ∀ x ≠ id, m ≠ .sync x)
    (hh : ∀ x ≠ id, m ≠ .held x)
    (hid : (r.st.audio id).closed = false → Follows st (fun a => a = m ∨ todo a) id →
      Follows r.st (fun a => (a ∈ r.next ∨ a ∈ r.spawned.flatten) ∨ todo a) id) :
    Routes r.st fun a => (a ∈ r.next ∨ a ∈ r.spawned.flatten) ∨ todo a := by
  intro v hv
  have hclosed : (st.audio v).closed = false := (hs.audio v).1 ▸ hv
  by_cases hx : v = id
  · subst hx
    exact hid hv (h v hclosed)
  · refine (h v hclosed).frame (by rw [ha v hx]) (by rw [ha v hx]) (hn v hx)
      (fun hx' => .inr (hx'.resolve_left (Ne.symm (hh v hx)))) fun q hq _ => .inr ⟨?_,
        fun k => by rw [hs.tracks], hs.cancelled v, signalled_next ⟨hm.1, hm.2.1, hm.2.2 v hx⟩⟩
    rwa [hs.peers] at hq

lemma Routes.sync (hr : st.sync id = some r) (h : Routes st fun a => a = .sync id ∨ todo a) :
    Routes r.st fun a => (a ∈ r.next ∨ a ∈ r.spawned.flatten) ∨ todo a := by
  have hm : Act.sync id ≠ .collect ∧ (∀ x, Act.sync id ≠ .published x) ∧
      ∀ x ≠ id, Act.sync id ≠ .sync x :=
    ⟨by simp, by simp, fun x hx heq => hx (Act.sync.inj heq).symm⟩
  unfold State.sync at hr
  split_ifs at hr with hheld hpend <;> obtain rfl := Option.some.inj hr
  · -- the answer will sync
    refine h.ofPeer id (fun _ _ => rfl) (fun _ _ => rfl) .refl hm (by simp)
      fun _ hf => ⟨fun hx => absurd hx hheld, hf.subscribed, fun p hp hv hc hpend' => ?_⟩
    rw [go_st, hpend] at hpend'
    cases hpend'
  · refine h.ofPeer id (fun x hx => ?_) (fun _ _ => rfl) .hold hm (by simp) fun _ hf => ?_
    · exact Function.update_of_ne hx _ _
    · have haudio : ((st.hold id [.check, .read]).audio id) =
          { st.audio id with holder := some [.check, .read] } := Function.update_self ..
      have hnone : (st.audio id).holder.getD [] = [] := by
        rw [Option.not_isSome_iff_eq_none.mp hheld]
        rfl
      have hsub := hf.subscribed
      rw [hnone] at hsub
      refine ⟨fun _ => .inl (.inl (List.mem_singleton.mpr rfl)), ?_, fun p hp hv hc hpend' => ?_⟩
      · rw [go_st, haudio]
        exact hsub.restep rfl rfl ⟨rfl, Bool.eq_false_of_not_eq_true hpend⟩
      · rw [go_st, haudio]
        exact .inr (.inl ⟨.read, by simp, rfl⟩)

lemma Routes.acceptAnswer {ok : Bool} (hr : st.acceptAnswer id ok = some r)
    (h : Routes st fun a => a = .acceptAnswer id ok ∨ todo a) :
    Routes r.st fun a => (a ∈ r.next ∨ a ∈ r.spawned.flatten) ∨ todo a := by
  unfold State.acceptAnswer at hr
  split_ifs at hr with hheld hpend <;> obtain rfl := Option.some.inj hr
  · refine h.ofPeer id (fun x hx => ?_) (fun _ _ => rfl) (Still.setSync.trans .hold) (by simp)
      (by simp) fun _ hf => ?_
    · exact (Function.update_of_ne hx _ _).trans (Function.update_of_ne hx _ _)
    · have haudio : (((st.setSync id (·.answered ok)).hold id [.check, .read]).audio id) =
          { st.audio id with
            sync := (st.audio id).sync.answered ok, holder := some [.check, .read] } := by
        simp [State.hold, State.setSync, State.setAudio]
      have hnone : (st.audio id).holder.getD [] = [] := by
        rw [Option.not_isSome_iff_eq_none.mp hheld]
        rfl
      have hsub := hf.subscribed
      rw [hnone] at hsub
      refine ⟨fun _ => .inl (.inl (List.mem_singleton.mpr rfl)), ?_, fun p hp hv hc hpend' => ?_⟩
      · rw [go_st, haudio]
        exact hsub.answered ok
      · rw [go_st, haudio]
        exact .inr (.inl ⟨.read, by simp, rfl⟩)
  · refine h.ofPeer id (fun _ _ => rfl) (fun _ _ => rfl) .refl (by simp) (by simp) fun _ hf => ?_
    exact hf.frame rfl rfl rfl (fun hx => .inr (hx.resolve_left (by simp)))
      fun _ hq _ => .inr ⟨hq, fun _ => rfl, fun hx => hx, signalled_next (by simp)⟩

lemma subsOf_setSubs (t u : AudioTrack) (f : List Sub → List Sub) :
    (st.setSubs t f).subsOf v u =
      if u = t then (f (st.subs t)).countP (fun s => s.pc = v) else st.subsOf v u := by
  simp only [State.subsOf, State.setSubs, Function.update_apply]
  split_ifs <;> rfl

lemma subsOf_removed (t u : AudioTrack) :
    (st.setSubs t (·.filter fun s => s.pc ≠ id)).subsOf v u =
      if u = t ∧ v = id then 0 else st.subsOf v u := by
  rw [subsOf_setSubs, List.countP_filter]
  by_cases hu : u = t
  · subst hu
    by_cases hv : v = id
    · subst hv
      simp
    · rw [if_pos rfl, if_neg fun h => hv h.2]
      refine List.countP_congr fun s _ => ?_
      simp only [ne_eq, decide_not, Bool.and_eq_true, decide_eq_true_eq, Bool.not_eq_true',
        decide_eq_false_iff_not, and_iff_left_iff_imp]
      exact fun hs hid => hv (hs.symm.trans hid)
  · rw [if_neg hu, if_neg fun h => hu h.1]

lemma subsOf_added (t u : AudioTrack) (slot : String) :
    (st.setSubs t (· ++ [⟨id, slot⟩])).subsOf v u =
      st.subsOf v u + if u = t ∧ v = id then 1 else 0 := by
  rw [subsOf_setSubs, List.countP_append]
  by_cases hu : u = t
  · subst hu
    by_cases hv : v = id
    · subst hv
      simp [State.subsOf]
    · have hv' : ¬id = v := fun h => hv h.symm
      simp [State.subsOf, hv, hv']
  · rw [if_neg hu, if_neg fun h => hu h.1, Nat.add_zero]

lemma subsOf_locked {applied : Bool} {rest : List Step} (s : Step) (hv : v ≠ id) :
    (st.locked applied id rest s).1.subsOf v = st.subsOf v := by
  ext u
  cases s <;> simp only [State.locked] <;> try rfl
  · rw [subsOf_removed, if_neg fun h => hv h.2]
  · rw [subsOf_added, if_neg fun h => hv h.2]
    rfl

lemma audio_locked {applied : Bool} {rest : List Step} (s : Step) (hv : v ≠ id) :
    (st.locked applied id rest s).1.audio v = st.audio v := by
  cases s <;> simp only [State.locked] <;> first | rfl | exact Function.update_of_ne hv _ _

lemma Subscribed.locked {s : Step} {rest : List Step}
    (h : Subscribed (st.audio id).sync (s :: rest) (st.subsOf id)) :
    Subscribed ((st.locked true id rest s).1.audio id).sync (st.locked true id rest s).2
      ((st.locked true id rest s).1.subsOf id) := by
  have hsync (f : SyncState → SyncState) :
      ((st.setSync id f).audio id).sync = f (st.audio id).sync := by
    rw [State.setSync, audio_setAudio, if_pos rfl]
  cases s with
  | check =>
    obtain ⟨rfl, hpend⟩ := h.stage
    simp only [State.locked]
    split_ifs
    · exact h.restep rfl rfl trivial
    · exact h.restep rfl rfl ⟨rfl, hpend⟩
  | read =>
    obtain ⟨rfl, -⟩ := h.stage
    simp only [State.locked, hsync, List.append_nil]
    exact h.read
  | removeSub t =>
    refine h.removeSub fun u => ?_
    simp only [State.locked, subsOf_removed, and_true]
  | addSub t slot =>
    refine h.addSub fun u => ?_
    simp only [State.locked, subsOf_added, and_true]
  | offer n =>
    have hrest : rest = [] := h.stage.1
    subst hrest
    simp only [State.locked, hsync, if_true]
    exact h.offer
  | send m =>
    simp only [State.locked]
    split_ifs
    · exact h.restep rfl rfl h.stage
    · exact h.restep rfl rfl h.stage
  | post m => exact h.restep rfl rfl h.stage

/-- Whatever step is taken, slots that are not as they should be are still to be looked at. -/
lemma settles_locked {s : Step} {rest : List Step}
    (hsub : Subscribed (st.audio id).sync (s :: rest) (st.subsOf id))
    (hclosed : (st.audio id).closed = false) (hc : st.cancelled id = false)
    (hpend : ((st.locked true id rest s).1.audio id).sync.pending = false)
    (h : (∃ s' ∈ s :: rest, s'.decides = true) ∨
      (carried (st.audio id).sync.slots).Perm (want id st.tracks)) :
    (∃ s' ∈ (st.locked true id rest s).2, s'.decides = true) ∨
      (carried ((st.locked true id rest s).1.audio id).sync.slots).Perm (want id st.tracks) := by
  have hsync (f : SyncState → SyncState) :
      ((st.setSync id f).audio id).sync = f (st.audio id).sync := by
    rw [State.setSync, audio_setAudio, if_pos rfl]
  have hrest (hd : s.decides = false) : (∃ s' ∈ rest, s'.decides = true) ∨
      (carried (st.audio id).sync.slots).Perm (want id st.tracks) := by
    refine h.imp_left ?_
    rintro ⟨s', hs', hd'⟩
    refine ⟨s', (List.mem_cons.mp hs').resolve_left ?_, hd'⟩
    rintro rfl
    rw [hd] at hd'
    cases hd'
  cases s with
  | check =>
    obtain ⟨rfl, -⟩ := hsub.stage
    left
    simp only [State.locked, hclosed, hc, Bool.or_self, Bool.false_eq_true, if_false]
    exact ⟨.read, by simp, rfl⟩
  | read =>
    obtain ⟨rfl, -⟩ := hsub.stage
    have hsub' := @Subscribed.read _ _ id st.tracks hsub
    simp only [State.locked, hsync, List.append_nil]
    by_cases hgrow : (plan id st.tracks (st.audio id).sync.slots).grow = 0
    · -- nobody waits, so what is carried is what is wanted
      right
      refine (List.perm_ext_iff_of_nodup hsub'.once.of_append_left nodup_want).mpr fun t => ?_
      exact plan_settled (Plan.waiting_of_grow hgrow)
    · -- somebody waits, so the slots are to grow
      left
      have hd := @decides_steps (plan id st.tracks (st.audio id).sync.slots)
      rw [decide_eq_true hgrow, List.any_eq_true] at hd
      exact hd
  | removeSub t | addSub t slot | post m => exact hrest rfl
  | offer n =>
    -- with an offer pending nothing is promised
    simp only [State.locked, hsync] at hpend
    cases hpend
  | send m =>
    simp only [State.locked]
    split_ifs
    · refine (hrest rfl).imp_left ?_
      rintro ⟨s', hs', hd⟩
      exact ⟨s', List.mem_cons_of_mem _ hs', hd⟩
    · exact hrest rfl

lemma Routes.held (hr : st.held true id = some r) (h : Routes st fun a => a = .held id ∨ todo a) :
    Routes r.st fun a => (a ∈ r.next ∨ a ∈ r.spawned.flatten) ∨ todo a := by
  have hm : Act.held id ≠ .collect ∧ (∀ x, Act.held id ≠ .published x) ∧
      ∀ x ≠ id, Act.held id ≠ .sync x := ⟨by simp, by simp, by simp⟩
  have hh : ∀ x ≠ id, Act.held id ≠ .held x := fun x hx heq => hx (Act.held.inj heq).symm
  rcases held_spec hr with ⟨s, rest, hholder, rfl⟩ | ⟨hholder, rfl⟩
  · -- a step of the section
    have hstill : Still st ((st.locked true id rest s).1.hold id (st.locked true id rest s).2) :=
      (Still.locked true rest s).trans .hold
    refine h.ofPeer id (fun x hx => ?_) (fun x hx => subsOf_locked s hx) hstill hm hh
      fun hc hf => ?_
    · exact (Function.update_of_ne hx _ _).trans (audio_locked s hx)
    · have hsub := hf.subscribed
      rw [hholder, Option.getD_some] at hsub
      have haudio : ((st.locked true id rest s).1.hold id (st.locked true id rest s).2).audio id =
          { (st.locked true id rest s).1.audio id with
            holder := some (st.locked true id rest s).2 } := by
        rw [State.hold, audio_setAudio, if_pos rfl]
      refine ⟨fun _ => .inl (.inl (List.mem_singleton.mpr rfl)), ?_, fun p hp hv hcanc hpend => ?_⟩
      · rw [go_st, haudio]
        exact hsub.locked
      · rw [go_st] at hp hcanc hpend ⊢
        rw [haudio] at hpend ⊢
        rw [hstill.peers] at hp
        rw [hstill.tracks]
        have hcanc' : st.cancelled id = false := by
          by_contra hx
          rw [hstill.cancelled id (Bool.eq_true_of_not_eq_false hx)] at hcanc
          cases hcanc
        have hclosed : (st.audio id).closed = false := (hstill.audio id).1 ▸ hc
        have hpend' : (st.audio id).sync.pending = false := by
          -- only an offer makes one pending, and that is no such step
          cases s with
          | check | removeSub t | addSub t slot | send m | post m => exact hpend
          | read => exact hsub.stage.2
          | offer n => exact hsub.stage.2
        rcases hf.settles p hp hv hcanc' hpend' with hsig | hset
        · exact .inl (signalled_next ⟨hm.1, hm.2.1, by simp⟩ hsig)
        · rw [hholder, Option.getD_some] at hset
          exact .inr (settles_locked hsub hclosed hcanc' hpend hset)
  · -- the section ends
    refine h.ofPeer id (fun x hx => ?_) (fun _ _ => rfl) .release hm hh fun _ hf => ?_
    · exact Function.update_of_ne hx _ _
    · have hsub := hf.subscribed
      have hsettles := hf.settles
      rw [hholder, Option.getD_some] at hsub hsettles
      have haudio : (st.setAudio id ({ · with holder := none })).audio id =
          { st.audio id with holder := none } := Function.update_self ..
      refine ⟨fun hx => ?_, ?_, fun p hp hv hc hpend => ?_⟩
      · rw [go_st, haudio] at hx
        cases hx
      · rw [go_st, haudio]
        exact hsub
      · rw [go_st, haudio] at hpend ⊢
        exact (hsettles p hp hv hc hpend).imp_left (signalled_next ⟨hm.1, hm.2.1, by simp⟩)

lemma Routes.exec (hr : VoiceHub.Sfu.Audio.exec ch m st = some r) (ha : ch.applied = true)
    (hmem : Members st fun a => a = m ∨ todo a) (h : Routes st fun a => a = m ∨ todo a) :
    Routes r.st fun a => (a ∈ r.next ∨ a ∈ r.spawned.flatten) ∨ todo a := by
  cases m <;> simp only [VoiceHub.Sfu.Audio.exec, Option.some.injEq] at hr
  case addPeer p => exact Routes.addPeer hr h
  case removePeer id => exact hr ▸ Routes.removePeer hmem h
  case cancel id =>
    obtain rfl := hr
    have hstill : Still st (st.cancel id) := .setOutbox fun _ => rfl
    exact h.frame (fun _ => ⟨rfl, rfl, fun hx => hx⟩) rfl (by simp) fun v q hq _ =>
      .inr ⟨hq, fun _ => rfl, hstill.cancelled v, signalled_next (by simp)⟩
  case send id m =>
    obtain rfl := hr
    exact h.frame (fun _ => ⟨rfl, rfl, fun hx => hx⟩) rfl (by simp) fun v q hq _ =>
      .inr ⟨hq, fun _ => rfl, (Still.send m).cancelled v, signalled_next (by simp)⟩
  case collect =>
    obtain rfl := hr
    -- everybody is to be synced from here on
    refine h.frame (fun _ => ⟨rfl, rfl, fun hx => hx⟩) rfl (by simp) fun v q hq hv => .inl ?_
    have hin : Act.sync v ∈ (st.collect ch.order).next := by
      refine List.mem_map.mpr ⟨q, List.mem_filter.mpr ⟨?_, by simp [hv]⟩, ?_⟩
      · refine ch.order.mem_list.mpr (st.peers.mem_values.mpr ?_)
        rw [st.peers.key_of_get hq]
        exact hq
      · rw [st.peers.key_of_get hq]
    exact .inr (.inr (.inl (.inl hin)))
  case renegotiate id =>
    obtain rfl := hr
    exact h.frame (fun _ => ⟨rfl, rfl, fun hx => hx⟩) rfl (by simp) fun v q hq _ =>
      .inr ⟨hq, fun _ => rfl, fun hx => hx, signalled_next (by simp)⟩
  case sync id => exact Routes.sync hr h
  case acceptAnswer id ok => exact Routes.acceptAnswer hr h
  case held id => exact Routes.held (ha ▸ hr) h
  case published id =>
    unfold State.published at hr
    split at hr <;> cases hr
    -- a track has come, and everybody is signalled
    refine h.frame (fun x => ?_) rfl (by simp) fun v q hq _ =>
      .inl (signalled_of_collect (.inr (by simp)))
    dsimp only
    rw [audio_setAudio]
    split_ifs with hx
    · exact hx ▸ ⟨rfl, rfl, fun hx => hx⟩
    · exact ⟨rfl, rfl, fun hx => hx⟩
  case closePc id =>
    obtain ⟨next, rfl, hnext⟩ := closePc_spec hr
    refine h.frame (fun x => ?_) rfl (by simp) fun v q hq _ =>
      .inr ⟨hq, fun _ => rfl, fun hx => hx, signalled_next (by simp)⟩
    rw [go_st, audio_setAudio]
    split_ifs with hx
    · exact hx ▸ ⟨rfl, rfl, fun hx => (by cases hx)⟩
    · exact ⟨rfl, rfl, fun hx => hx⟩
  case unpublish id =>
    obtain rfl := hr
    unfold State.unpublish
    split
    · exact h.frame (fun _ => ⟨rfl, rfl, fun hx => hx⟩) rfl (by simp) fun v q hq _ =>
        .inr ⟨hq, fun _ => rfl, fun hx => hx, signalled_next (by simp)⟩
    · split
      · -- its track has gone, and everybody is signalled
        exact h.frame (fun _ => ⟨rfl, rfl, fun hx => hx⟩) rfl (by simp) fun v q hq _ =>
          .inl (signalled_of_collect (.inr (by simp)))
      · exact h.frame (fun _ => ⟨rfl, rfl, fun hx => hx⟩) rfl (by simp) fun v q hq _ =>
          .inr ⟨hq, fun _ => rfl, fun hx => hx, signalled_next (by simp)⟩
  case dropSubs id =>
    simp only [State.dropSubs] at hr
    split_ifs at hr
    obtain rfl := Option.some.inj hr
    refine h.ofPeer id (fun x hx => Function.update_of_ne hx _ _) (fun _ _ => rfl) .hold
      (by simp) (by simp) fun hc _ => ?_
    -- the PC is closed by now
    have hopen : (st.audio id).closed = false := (Still.hold.audio id).1 ▸ hc
    rw [(hmem.shut id (hmem.dropping id (.inl rfl))).1] at hopen
    cases hopen

lemma Signalled.mono (h : ∀ a, todo a → todo' a) (hs : Signalled todo v) : Signalled todo' v :=
  hs.imp (h _) (.imp (Exists.imp fun _ => h _) (h _))

lemma Routes.starts {acts : List Act} (h : Routes st todo)
    (ha : ∀ x, (st'.audio x).sync = (st.audio x).sync ∧
      (st'.audio x).holder = (st.audio x).holder ∧
      ((st'.audio x).closed = false → (st.audio x).closed = false))
    (hn : ∀ x, (st'.audio x).closed = false → st'.subsOf x = st.subsOf x)
    (hp : st'.peers = st.peers) (ht : st'.tracks = st.tracks)
    (hc : ∀ x, st.cancelled x → st'.cancelled x) :
    Routes st' fun a => todo a ∨ a ∈ acts := by
  intro v hv
  obtain ⟨hs, hh, hclosed⟩ := ha v
  refine (h v (hclosed hv)).frame hs hh (hn v hv) .inl fun q hq _ => .inr ⟨hp ▸ hq, fun k => ?_,
    hc v, Signalled.mono fun _ => .inl⟩
  rw [ht]

lemma Routes.begin {e : Event} {o : Option PeerId} {acts : List Act}
    (he : st.begin e = some (st', o, acts)) (h : Routes st todo) :
    Routes st' fun a => todo a ∨ a ∈ acts := by
  have hsame : ∀ x, (st.audio x).sync = (st.audio x).sync ∧
      (st.audio x).holder = (st.audio x).holder ∧
      ((st.audio x).closed = false → (st.audio x).closed = false) :=
    fun _ => ⟨rfl, rfl, fun hx => hx⟩
  cases e <;> simp only [State.begin] at he
  case join p =>
    cases he
    exact h.starts hsame (fun _ _ => rfl) rfl rfl fun _ hx => hx
  case leave id | answer id ok | renegotiate id =>
    split at he <;> cases he
    exact h.starts hsame (fun _ _ => rfl) rfl rfl fun _ hx => hx
  case cancel id =>
    cases he
    have hstill : Still st (st.cancel id) := .setOutbox fun _ => rfl
    exact h.starts hsame (fun _ _ => rfl) rfl rfl hstill.cancelled
  case pcDied id =>
    split at he <;> cases he
    refine h.starts (fun x => ?_) (fun _ _ => rfl) rfl rfl fun _ hx => hx
    rw [audio_setAudio]
    split_ifs with hx
    · exact hx ▸ ⟨rfl, rfl, fun hx => (by cases hx)⟩
    · exact hsame x
  case publish id =>
    obtain ⟨st', hpub, heq⟩ := Option.map_eq_some_iff.mp he
    cases heq
    unfold State.publish at hpub
    simp only at hpub
    split_ifs at hpub
    obtain rfl := Option.some.inj hpub
    intro v hv
    have haudio : ∀ x (a : AudioPeer), a = Function.update st.audio id
        { st.audio id with delivering := some ⟨st.next, id⟩ } x → a.sync = (st.audio x).sync ∧
          a.holder = (st.audio x).holder ∧ a.closed = (st.audio x).closed := by
      rintro x a rfl
      rw [Function.update_apply]
      split_ifs with hx
      · exact hx ▸ ⟨rfl, rfl, rfl⟩
      · exact ⟨rfl, rfl, rfl⟩
    obtain ⟨hs, hh, hc⟩ := haudio v _ rfl
    refine (h v (hc ▸ hv)).frame hs hh rfl .inl fun q _ _ =>
      .inl (.inr (.inl ⟨id, .inr (List.mem_singleton.mpr rfl)⟩))
  case sweep t =>
    cases he
    refine h.starts hsame (fun v hv => ?_) rfl rfl fun _ hx => hx
    ext u
    rw [subsOf_setSubs, List.countP_filter]
    split_ifs with hu
    · subst hu
      refine List.countP_congr fun s _ => ?_
      simp only [Bool.and_eq_true, decide_eq_true_eq, Bool.not_eq_true', and_iff_left_iff_imp]
      rintro rfl
      exact hv
    · rfl
  case drain id =>
    cases he
    have hstill : Still st (st.setOutbox id Outbox.drain) := .setOutbox fun hx => hx
    exact h.starts hsame (fun _ _ => rfl) rfl rfl hstill.cancelled
  case other id =>
    cases he
    exact h.starts hsame (fun _ _ => rfl) rfl rfl (Still.send .other).cancelled

/-! ### The room at rest -/

/-- `apply()` yields an offer whenever slots were added. -/
def Applies (_ : Config) : Label → Prop
  | .run _ ch => ch.applied = true
  | .event _ => True

instance (c : Config) : ∀ l, Decidable (Applies c l)
  | .run _ ch => inferInstanceAs (Decidable (ch.applied = true))
  | .event _ => inferInstanceAs (Decidable True)

/-- Nothing is outstanding: no task, and no `serve_ws` that has been told to stop. -/
def Quiet (c : Config) : Prop :=
  c.work = [] ∧ ∀ x ∈ c.st.serving, c.st.cancelled x = false

/-- The tracks are those of connected peers, and every voice peer hears all but its own. -/
structure Routed (st : State) : Prop where
  owned : ∀ t ∈ st.tracks.values, (st.peers.get t.owner).isSome
  heard : ∀ v p, st.peers.get v = some p → p.chatOnly = false →
    (st.audio v).sync.pending = false →
      (carried (st.audio v).sync.slots).Perm (want v st.tracks) ∧
      ∀ t, (st.subs t).countP (fun s => s.pc = v) = if t ∈ want v st.tracks then 1 else 0

lemma routes_init : Routes .init fun _ => False := by
  intro v _
  refine ⟨fun hx => (by cases hx), ?_, fun p hp => (by cases hp)⟩
  refine ⟨fun _ s hs => (by cases hs), fun s hs => (by cases hs), trivial, List.nodup_nil,
    fun t ht => (by cases ht), fun t => rfl⟩

/-- What a run is relied on for: an offer whenever slots were added, and no event after `close`. -/
def Relied (c : Config) (l : Label) : Prop := Applies c l ∧ Silent c l

instance (c : Config) (l : Label) : Decidable (Relied c l) :=
  inferInstanceAs (Decidable (Applies c l ∧ Silent c l))

theorem Reach.routes {c : Config} (h : Reach Relied c) : Routes c.st (· ∈ c.work) := by
  refine Machine.Reach.invariant' (I := fun c => Routes c.st (· ∈ c.work)) ?_
    (fun c l c' hr hc hg hl => ?_) h
  · intro v hv
    exact (routes_init v hv).frame rfl rfl rfl False.elim fun q hq _ => (by cases hq)
  · have hboth := step_keeps (I := fun st todo => Members st todo ∧ Routes st todo) hl
      ⟨Reach.members hr fun _ _ h => h.2, hc⟩ (fun i ch m r P hl' hm hex hin => ?_)
      fun e st o acts P hl' he hin => ?_
    · exact hboth.2
    · subst hl'
      exact ⟨hin.1.exec hex fun x hx => hg.2 m hm x (by rw [hx]; rfl),
        hin.2.exec hex hg.1 hin.1⟩
    · subst hl'
      exact ⟨hin.1.begin he fun x hx => hg.2 x (by rw [hx]; rfl), hin.2.begin he⟩

/-- **Routing converges**: in every reachable state in which nothing is outstanding, the room's
tracks are those of connected peers, and every voice peer without a pending offer has all of
them but its own in its slots and one subscription in each. -/
theorem converges {c : Config} (h : Reach Relied c) (hq : Quiet c) : Routed c.st := by
  have hmem := Reach.members h fun _ _ h => h.2
  have hroutes := Reach.routes h
  obtain ⟨hwork, hserving⟩ := hq
  rw [hwork] at hmem hroutes
  have hnone : ∀ {a : Act}, ¬a ∈ ([] : List Act) := List.not_mem_nil
  refine ⟨fun t ht => ?_, fun v p hp hv hpend => ?_⟩
  · -- a track's owner is served, so it is in the room
    obtain ⟨-, -, ho⟩ := hmem.owner t (c.st.tracks.mem_values.mp ht)
    have hs : t.owner ∈ c.st.serving := ho.resolve_right (by simp)
    by_contra hpeer
    have hc := (hmem.gone _ hs (Option.not_isSome_iff_eq_none.mp hpeer)).resolve_right hnone
    rw [hserving _ hs] at hc
    cases hc
  · have hs : v ∈ c.st.serving := (hmem.serving v p hp).resolve_right hnone
    have hc := hserving v hs
    -- the PC of a connected peer is open
    have hclosed : (c.st.audio v).closed = false := by
      by_contra hx
      have hdead := (hmem.dead v (Bool.eq_true_of_not_eq_false hx)).resolve_right hnone
      rw [hc] at hdead
      cases hdead
    have hf := hroutes v hclosed
    have hfree : (c.st.audio v).holder = none :=
      Option.not_isSome_iff_eq_none.mp fun hx => hnone (hf.held hx)
    have hsub := hf.subscribed
    have hsettles := hf.settles p hp hv hc hpend
    rw [hfree] at hsub hsettles
    have hperm : (carried (c.st.audio v).sync.slots).Perm (want v c.st.tracks) := by
      rcases hsettles with (hx | ⟨x, hx⟩ | hx) | ⟨s, hs, -⟩ | hperm
      · -- each sign that something is to come is a pending act
        exact absurd hx hnone
      · exact absurd hx hnone
      · exact absurd hx hnone
      · cases hs
      · exact hperm
    exact ⟨hperm, fun t => hsub.settled.trans (if_congr hperm.mem_iff rfl rfl)⟩

/-- Two voice peers join and answer their offers, and one publishes its track. -/
def heard : List Label :=
  [.event (.join ⟨"v", "", false⟩)] ++ runs 10 0 ++ [.event (.answer "v" true)] ++ runs 4 1 ++
  [.event (.join ⟨"x", "", false⟩)] ++ runs 15 2 ++ [.event (.answer "x" true)] ++ runs 4 3 ++
  [.event (.publish "x")] ++ runs 1 4 ++ runs 12 5

theorem converges_heard :
    carried ((after heard).st.audio "v").sync.slots = [⟨0, "x"⟩] ∧ Routed (after heard).st :=
  ⟨by decide +kernel,
    converges (Machine.Reach.of_isSome (by decide +kernel) (by decide +kernel))
      ⟨by decide +kernel, List.forall_mem_cons.mpr ⟨by decide +kernel, by decide +kernel⟩⟩⟩

end VoiceHub.Sfu.Audio
