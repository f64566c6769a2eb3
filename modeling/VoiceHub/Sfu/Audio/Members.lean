import Mathlib
import VoiceHub.Sfu.Audio.Room

/-!
Who is in the room, and whose tracks are.

A peer that is out of the room, or whose PC is closed, is cancelled or about to be. A track
in the room has an owner that still serves its socket or is on its way through
`AudioPeer::close`, which takes the track out.
-/

namespace VoiceHub.Sfu.Audio

open VoiceHub.Lib
open VoiceHub.Sfu.Room (Peer Outbox)

/-- Whose PC a step closes. -/
def Act.closes : Act → Option PeerId
  | .closePc id => some id
  | _ => none

/-- Whose first packet comes. -/
def Event.publishes : Event → Option PeerId
  | .publish id => some id
  | _ => none

/-- A PC delivers nothing once its `close` has returned. -/
def Silent (c : Config) : Label → Prop
  | .run i _ => ∀ a ∈ c.head? i, ∀ id ∈ a.closes, (c.st.audio id).delivering = none
  | .event e => ∀ id ∈ e.publishes, (c.st.audio id).shut = false

instance (c : Config) : ∀ l, Decidable (Silent c l)
  | .run i _ => inferInstanceAs
      (Decidable (∀ a ∈ c.head? i, ∀ id ∈ a.closes, (c.st.audio id).delivering = none))
  | .event e => inferInstanceAs (Decidable (∀ id ∈ e.publishes, (c.st.audio id).shut = false))

structure Members (st : State) (todo : Act → Prop) : Prop where
  seen : ∀ x p, st.peers.get x = some p → st.seen x = some p
  serving : ∀ x p, st.peers.get x = some p → x ∈ st.serving ∨ todo (.removePeer x)
  gone : ∀ x ∈ st.serving, st.peers.get x = none → st.cancelled x ∨ todo (.cancel x)
  dead : ∀ x, (st.audio x).closed → st.cancelled x ∨ todo (.cancel x)
  shut : ∀ x, (st.audio x).shut → (st.audio x).closed ∧ (st.audio x).delivering = none
  leaving : ∀ x, st.voice x → ¬(st.audio x).shut → x ∈ st.serving ∨ todo (.closePc x)
  unpublishing : ∀ x, todo (.unpublish x) → (st.audio x).shut
  dropping : ∀ x, todo (.dropSubs x) → (st.audio x).shut
  delivering : ∀ x t, (st.audio x).delivering = some t →
    todo (.published x) ∧ (st.audio x).track = none
  owner : ∀ t, st.tracks.get t.owner = some t →
    st.voice t.owner ∧
      ((st.audio t.owner).track = some t ∨ (st.audio t.owner).delivering = some t) ∧
      (t.owner ∈ st.serving ∨ todo (.closePc t.owner) ∨ todo (.unpublish t.owner))

variable {st st' : State} {todo todo' : Act → Prop} {ch : Choice} {r : Effect} {m : Act}
  {id : PeerId}

lemma members_init : Members .init fun _ => False where
  seen _ _ h := by cases h
  serving _ _ h := by cases h
  gone _ h := by cases h
  dead _ h := by cases h
  shut _ h := by cases h
  leaving _ h := by cases h
  unpublishing _ h := h.elim
  dropping _ h := h.elim
  delivering _ _ h := by cases h
  owner _ h := by cases h

/-- The acts that a membership waits for. -/
def Act.awaited : Act → Bool
  | .removePeer _ | .cancel _ | .published _ | .closePc _ | .unpublish _ => true
  | _ => false

/-- Those, and the one that comes only once the PC is shut. -/
def Act.major : Act → Bool
  | .dropSubs _ => true
  | a => a.awaited

lemma Members.frame (h : Members st todo) (hp : st'.peers = st.peers) (hs : st'.seen = st.seen)
    (hv : st'.serving = st.serving) (ht : st'.tracks = st.tracks)
    (hc : ∀ x, st.cancelled x → st'.cancelled x)
    (ha : ∀ x, (st'.audio x).closed = (st.audio x).closed ∧
      (st'.audio x).shut = (st.audio x).shut ∧ (st'.audio x).track = (st.audio x).track ∧
      (st'.audio x).delivering = (st.audio x).delivering)
    (hpos : ∀ a, a.awaited → todo a → todo' a)
    (hneg : ∀ x, todo' (.unpublish x) ∨ todo' (.dropSubs x) → (st.audio x).shut) :
    Members st' todo' := by
  have hvoice : ∀ x, st'.voice x = st.voice x := fun x => by rw [State.voice, State.voice, hs]
  refine ⟨?_, ?_, ?_, ?_, ?_, ?_, ?_, ?_, ?_, ?_⟩
  · rw [hp, hs]; exact h.seen
  · intro x p
    rw [hp, hv]
    exact fun hx => (h.serving x p hx).imp_right (hpos _ rfl)
  · intro x
    rw [hp, hv]
    exact fun hx hg => (h.gone x hx hg).imp (hc x) (hpos _ rfl)
  · intro x
    rw [(ha x).1]
    exact fun hx => (h.dead x hx).imp (hc x) (hpos _ rfl)
  · intro x
    rw [(ha x).1, (ha x).2.1, (ha x).2.2.2]
    exact h.shut x
  · intro x
    rw [hvoice, (ha x).2.1, hv]
    exact fun hx hn => (h.leaving x hx hn).imp_right (hpos _ rfl)
  · intro x hx
    rw [(ha x).2.1]
    exact hneg x (.inl hx)
  · intro x hx
    rw [(ha x).2.1]
    exact hneg x (.inr hx)
  · intro x t
    rw [(ha x).2.2.2, (ha x).2.2.1]
    exact fun hx => (h.delivering x t hx).imp_left (hpos _ rfl)
  · intro t
    rw [ht, hvoice, (ha _).2.2.1, (ha _).2.2.2, hv]
    intro hx
    obtain ⟨hvo, hk, ho⟩ := h.owner t hx
    exact ⟨hvo, hk, ho.imp_right (.imp (hpos _ rfl) (hpos _ rfl))⟩

lemma Members.pending (h : Members st todo) (hpos : ∀ a, a.awaited → todo a → todo' a)
    (hneg : ∀ x, todo' (.unpublish x) ∨ todo' (.dropSubs x) → (st.audio x).shut) :
    Members st todo' :=
  h.frame rfl rfl rfl rfl (fun _ hx => hx) (fun _ => ⟨rfl, rfl, rfl, rfl⟩) hpos hneg

lemma Members.addPeer {ord : Order} {p : Peer} (hr : st.addPeer ord p = some r)
    (h : Members st todo) :
    Members r.st fun a => (a ∈ r.next ∨ a ∈ r.spawned.flatten) ∨ todo a := by
  obtain ⟨hnew, hst, hsp, hnext⟩ := addPeer_spec hr
  simp only [hst, hsp, hnext, List.flatten_nil, List.not_mem_nil, or_false]
  have hvoice : ∀ x, x ≠ p.id → (st.joined ord p).voice x = st.voice x := fun x hx => by
    simp only [State.voice, seen_joined, if_neg hx]
  have hnot : st.voice p.id = false := by simp [State.voice, hnew]
  have hserve : ∀ x, x ∈ (st.joined ord p).serving ↔ x = p.id ∨ x ∈ st.serving := fun x =>
    List.mem_cons
  refine ⟨?_, ?_, ?_, ?_, h.shut, ?_, ?_, ?_, ?_, ?_⟩
  · intro x q hx
    rw [peers_joined] at hx
    rw [seen_joined]
    split_ifs at hx ⊢
    · exact hx
    · exact h.seen x q hx
  · -- the new peer is served by its own `serve_ws`
    intro x q hx
    rw [peers_joined] at hx
    rw [hserve]
    split_ifs at hx with hp
    · exact .inl (.inl hp)
    · exact (h.serving x q hx).imp .inr .inr
  · intro x hx hg
    rw [peers_joined] at hg
    rw [hserve] at hx
    split_ifs at hg with hp hev
    · -- an evicted one has its cancellation to come
      exact .inr (.inl (.inl ⟨x, hev, .inl rfl⟩))
    · exact (h.gone x (hx.resolve_left hp) hg).imp_right .inr
  · intro x hx
    rcases h.dead x hx with hx | hx
    · exact .inl hx
    · exact .inr (.inr hx)
  · intro x hv hx
    rw [hserve]
    by_cases hp : x = p.id
    · exact .inl (.inl hp)
    · rw [hvoice x hp] at hv
      exact (h.leaving x hv hx).imp .inr .inr
  · intro x hx
    exact h.unpublishing x (by simpa using hx)
  · intro x hx
    exact h.dropping x (by simpa using hx)
  · intro x t hx
    exact ⟨.inr (h.delivering x t hx).1, (h.delivering x t hx).2⟩
  · intro t ht
    have ht' : st.tracks.get t.owner = some t := by
      rw [tracks_joined] at ht
      split_ifs at ht
      exact ht
    obtain ⟨hv, hk, ho⟩ := h.owner t ht'
    -- the new peer has no track yet
    have hp : t.owner ≠ p.id := by
      intro hp
      rw [hp, hnot] at hv
      cases hv
    rw [hserve, hvoice _ hp]
    exact ⟨hv, hk, ho.imp .inr (.imp .inr .inr)⟩

lemma Members.removePeer {ord : Order}
    (h : Members st fun a => a = .removePeer id ∨ todo a) :
    Members (st.removePeer ord id).st fun a =>
      (a ∈ (st.removePeer ord id).next ∨ a ∈ (st.removePeer ord id).spawned.flatten) ∨ todo a := by
  -- the peer is gone already
  rcases hp : st.peers.get id with _ | p
  · rw [removePeer_absent hp]
    refine ⟨h.seen, fun x q hx => ?_, fun x hx hg => ?_, fun x hx => ?_, h.shut,
      fun x hv hx => ?_, fun x hx => ?_, fun x hx => ?_, fun x t hx => ?_, fun t ht => ?_⟩
    · have hne : x ≠ id := by
        rintro rfl
        rw [go_st, hp] at hx
        cases hx
      simpa [hne] using h.serving x q hx
    · simpa using h.gone x hx hg
    · simpa using h.dead x hx
    · simpa using h.leaving x hv hx
    · exact h.unpublishing x (by simpa using hx)
    · exact h.dropping x (by simpa using hx)
    · simpa using h.delivering x t hx
    · simpa using h.owner t ht
  obtain ⟨hst, hsp, hnext⟩ := @removePeer_spec st ord p id hp
  simp only [hst, hsp, hnext, List.flatten_nil, List.not_mem_nil, or_false]
  have hin : ∀ x, (st.without [id]).peers.get x = if x = id then none else st.peers.get x :=
    fun x => by rw [peers_without]; simp
  refine ⟨fun x q hx => ?_, fun x q hx => ?_, fun x hx hg => ?_, fun x hx => ?_, h.shut,
    fun x hv hx => ?_, fun x hx => ?_, fun x hx => ?_, fun x t hx => ?_, fun t ht => ?_⟩
  · rw [hin] at hx
    split_ifs at hx
    exact h.seen x q hx
  · rw [hin] at hx
    split_ifs at hx with hne
    exact (h.serving x q hx).imp_right fun ha => .inr (ha.resolve_left (by simp [hne]))
  · rw [hin] at hg
    split_ifs at hg with he
    · -- its `cancel` comes next
      exact .inr (.inl (.inl (by rw [he])))
    · exact (h.gone x hx hg).imp_right fun ha => .inr (ha.resolve_left (by simp))
  · exact (h.dead x hx).imp_right fun ha => .inr (ha.resolve_left (by simp))
  · exact (h.leaving x hv hx).imp_right fun ha => .inr (ha.resolve_left (by simp))
  · exact h.unpublishing x (.inr (by simpa using hx))
  · exact h.dropping x (.inr (by simpa using hx))
  · exact ⟨.inr ((h.delivering x t hx).1.resolve_left (by simp)), (h.delivering x t hx).2⟩
  · have ht' : st.tracks.get t.owner = some t := by
      rw [tracks_without] at ht
      split_ifs at ht
      exact ht
    obtain ⟨hv, hk, ho⟩ := h.owner t ht'
    refine ⟨hv, hk, ho.imp_right fun ho => ho.imp (fun ha => .inr ?_) fun ha => .inr ?_⟩
    · exact ha.resolve_left (by simp)
    · exact ha.resolve_left (by simp)

lemma Members.cancel (h : Members st fun a => a = .cancel id ∨ todo a) :
    Members (st.cancel id) todo := by
  have hc : ∀ x, (st.cancelled x ∨ (Act.cancel x = .cancel id ∨ todo (.cancel x))) →
      (st.cancel id).cancelled x ∨ todo (.cancel x) := by
    intro x hx
    simp only [State.cancelled, State.cancel, State.setOutbox, Function.update_apply] at hx ⊢
    split_ifs with hid
    · exact .inl rfl
    · rcases hx with hx | hx | hx
      · exact .inl hx
      · cases hx
        exact absurd rfl hid
      · exact .inr hx
  refine ⟨h.seen, fun x p hx => ?_, fun x hx hg => hc x (h.gone x hx hg),
    fun x hx => hc x (h.dead x hx), h.shut, fun x hv hx => ?_,
    fun x hx => h.unpublishing x (.inr hx), fun x hx => h.dropping x (.inr hx), fun x t hx => ?_,
    fun t ht => ?_⟩
  · exact (h.serving x p hx).imp_right fun ha => ha.resolve_left (by simp)
  · exact (h.leaving x hv hx).imp_right fun ha => ha.resolve_left (by simp)
  · exact (h.delivering x t hx).imp_left fun ha => ha.resolve_left (by simp)
  · obtain ⟨hv, hk, ho⟩ := h.owner t ht
    refine ⟨hv, hk, ho.imp_right fun ho => ho.imp (fun ha => ?_) fun ha => ?_⟩
    · exact ha.resolve_left (by simp)
    · exact ha.resolve_left (by simp)

lemma audio_setAudio {f : AudioPeer → AudioPeer} (x : PeerId) :
    (st.setAudio id f).audio x = if x = id then f (st.audio id) else st.audio x :=
  Function.update_apply ..

lemma Members.setAudio (h : Members st todo) {f : AudioPeer → AudioPeer}
    (hpos : ∀ a : Act, a.awaited → a ≠ .published id → a ≠ .closePc id → todo a → todo' a)
    (hneg : ∀ x ≠ id, todo' (.unpublish x) ∨ todo' (.dropSubs x) → (st.audio x).shut)
    (hdead : (f (st.audio id)).closed → st.cancelled id ∨ todo' (.cancel id))
    (hshut : (f (st.audio id)).shut →
      (f (st.audio id)).closed ∧ (f (st.audio id)).delivering = none)
    (hleaving : st.voice id → ¬(f (st.audio id)).shut → id ∈ st.serving ∨ todo' (.closePc id))
    (hown : todo' (.unpublish id) ∨ todo' (.dropSubs id) → (f (st.audio id)).shut)
    (hdel : ∀ t, (f (st.audio id)).delivering = some t →
      todo' (.published id) ∧ (f (st.audio id)).track = none)
    (howner : ∀ t : AudioTrack, t.owner = id → st.tracks.get t.owner = some t →
      ((f (st.audio id)).track = some t ∨ (f (st.audio id)).delivering = some t) ∧
        (id ∈ st.serving ∨ todo' (.closePc id) ∨ todo' (.unpublish id))) :
    Members (st.setAudio id f) todo' := by
  refine ⟨h.seen, fun x q hx => ?_, fun x hx hg => ?_, fun x hx => ?_, fun x hx => ?_,
    fun x hv hx => ?_, fun x hx => ?_, fun x hx => ?_, fun x t hx => ?_, fun t ht => ?_⟩
  · exact (h.serving x q hx).imp_right (hpos _ rfl (by simp) (by simp))
  · exact (h.gone x hx hg).imp_right (hpos _ rfl (by simp) (by simp))
  · rw [audio_setAudio] at hx
    split_ifs at hx with hid
    · exact hid ▸ hdead hx
    · exact (h.dead x hx).imp_right (hpos _ rfl (by simp) (by simp))
  · rw [audio_setAudio] at hx ⊢
    split_ifs at hx ⊢
    · exact hshut hx
    · exact h.shut x hx
  · rw [audio_setAudio] at hx
    split_ifs at hx with hid
    · exact hid ▸ hleaving (hid ▸ hv) hx
    · exact (h.leaving x hv hx).imp_right (hpos _ rfl (by simp) (by simpa using hid))
  · rw [audio_setAudio]
    split_ifs with hid
    · exact hown (hid ▸ .inl hx)
    · exact hneg x hid (.inl hx)
  · rw [audio_setAudio]
    split_ifs with hid
    · exact hown (hid ▸ .inr hx)
    · exact hneg x hid (.inr hx)
  · rw [audio_setAudio] at hx ⊢
    split_ifs at hx ⊢ with hid
    · exact hid ▸ hdel t hx
    · exact (h.delivering x t hx).imp_left (hpos _ rfl (by simpa using hid) (by simp))
  · obtain ⟨hv, hk, ho⟩ := h.owner t ht
    rw [audio_setAudio]
    refine ⟨hv, ?_⟩
    split_ifs with hid
    · exact hid ▸ howner t hid ht
    · exact ⟨hk, ho.imp_right (.imp (hpos _ rfl (by simp) (by simpa using hid))
        (hpos _ rfl (by simp) (by simp)))⟩

lemma Members.published (hr : st.published id = some r)
    (h : Members st fun a => a = .published id ∨ todo a) :
    Members r.st fun a => (a ∈ r.next ∨ a ∈ r.spawned.flatten) ∨ todo a := by
  unfold State.published at hr
  split at hr
  · cases hr
  next t ht =>
  obtain rfl := Option.some.inj hr
  have hnone := (h.delivering id t ht).2
  dsimp only
  refine h.setAudio (fun a _ hne _ ha => .inr (ha.resolve_left hne)) (fun x _ hx => ?_)
    (fun hx => ?_) (fun hx => ?_) (fun hv hx => ?_) (fun hx => ?_) (fun t hx => (by cases hx))
    (fun u hu htu => ?_)
  · rcases hx with hx | hx
    · exact h.unpublishing x (by simpa using hx)
    · exact h.dropping x (by simpa using hx)
  · exact (h.dead id hx).imp_right fun ha => .inr (by simpa using ha)
  · exact ⟨(h.shut id hx).1, rfl⟩
  · exact (h.leaving id hv hx).imp_right fun ha => .inr (by simpa using ha)
  · rcases hx with hx | hx
    · exact h.unpublishing id (by simpa using hx)
    · exact h.dropping id (by simpa using hx)
  · -- the track in delivery becomes the track
    obtain ⟨-, hk, ho⟩ := h.owner u htu
    rw [hu] at hk ho
    refine ⟨.inl ?_, ho.imp_right (.imp (fun ha => .inr (by simpa using ha))
      fun ha => .inr (by simpa using ha))⟩
    rw [hnone, ht] at hk
    exact hk.resolve_left (by simp)

lemma Members.closePc (hr : st.closePc id = some r) (hnone : (st.audio id).delivering = none)
    (h : Members st fun a => a = .closePc id ∨ todo a) :
    Members r.st fun a => (a ∈ r.next ∨ a ∈ r.spawned.flatten) ∨ todo a := by
  obtain ⟨next, rfl, hnext⟩ := closePc_spec hr
  have hunpublish : .unpublish id ∈ next := by obtain ⟨-, rfl⟩ | rfl := hnext <;> simp
  have hother : ∀ x ≠ id, .unpublish x ∉ next := by
    obtain ⟨-, rfl⟩ | rfl := hnext <;> simp
  have hdrop : ∀ x, .dropSubs x ∉ next := by obtain ⟨-, rfl⟩ | rfl := hnext <;> simp
  simp only [go_st, go_next, go_spawned]
  refine h.setAudio (fun a _ _ hne ha => .inr (ha.resolve_left hne)) (fun x hne hx => ?_)
    (fun _ => ?_) (fun _ => ⟨rfl, hnone⟩) (fun _ hx => absurd rfl hx) (fun _ => rfl)
    (fun t hx => (by rw [hnone] at hx; cases hx))
    (fun t ht htt => ⟨ht ▸ (h.owner t htt).2.1, .inr (.inr (.inl (.inl hunpublish)))⟩)
  · rcases hx with hx | hx
    · exact h.unpublishing x (by simpa [hother x hne] using hx)
    · exact h.dropping x (by simpa [hdrop x] using hx)
  · obtain ⟨hclosed, -⟩ | rfl := hnext
    · exact (h.dead id hclosed).imp_right fun ha => .inr (by simpa using ha)
    · exact .inr (by simp)

lemma Members.unpublish (h : Members st fun a => a = .unpublish id ∨ todo a) :
    Members (st.unpublish id).st fun a =>
      (a ∈ (st.unpublish id).next ∨ a ∈ (st.unpublish id).spawned.flatten) ∨ todo a := by
  have hshut : (st.audio id).shut := h.unpublishing id (.inl rfl)
  have hnone := (h.shut id hshut).2
  have hgone : ∀ t, st.tracks.get t.owner = some t → t.owner = id →
      (st.audio id).track = some t := fun t ht ho => by
    have hk := ho ▸ (h.owner t ht).2.1
    rw [hnone] at hk
    exact hk.resolve_right (by simp)
  obtain ⟨tracks, next, spawned, hr, htracks, hnext, hspawned⟩ : ∃ tracks next spawned,
      st.unpublish id = ⟨{ st with tracks := tracks }, next, spawned⟩ ∧
      (∀ t, tracks.get t.owner = some t → st.tracks.get t.owner = some t ∧ t.owner ≠ id) ∧
      next = [.dropSubs id] ∧ ∀ a ∈ spawned.flatten, a = .collect := by
    unfold State.unpublish
    split
    · -- it never had a track
      next hn =>
      refine ⟨st.tracks, _, _, rfl, fun t ht => ⟨ht, fun ho => ?_⟩, rfl, by simp⟩
      rw [hgone t ht ho] at hn
      cases hn
    · next t ht =>
      split_ifs with hin
      · -- its track goes
        refine ⟨_, _, _, rfl, fun u hu => ?_, rfl, by simp⟩
        rw [Keyed.get_remove] at hu
        split_ifs at hu with hne
        refine ⟨hu, fun ho => hne ?_⟩
        have heq := (hgone u hu ho).symm.trans ht
        rw [Option.some.inj heq]
      · -- the track in the room is another one
        refine ⟨st.tracks, _, _, rfl, fun u hu => ⟨hu, fun ho => hin ?_⟩, rfl, by simp⟩
        have heq := (hgone u hu ho).symm.trans ht
        exact Option.some.inj heq ▸ hu
  have hpos : ∀ a : Act, a ≠ .unpublish id → (a = .unpublish id ∨ todo a) →
      (a ∈ next ∨ a ∈ spawned.flatten) ∨ todo a := fun a hne ha => .inr (ha.resolve_left hne)
  have hneg : ∀ a : Act, (a ∈ next ∨ a ∈ spawned.flatten) ∨ todo a →
      a = .dropSubs id ∨ a = .collect ∨ todo a := by
    rintro a ((ha | ha) | ha)
    · rw [hnext] at ha
      exact .inl (List.mem_singleton.mp ha)
    · exact .inr (.inl (hspawned a ha))
    · exact .inr (.inr ha)
  rw [hr]
  refine ⟨h.seen, fun x q hx => (h.serving x q hx).imp_right (hpos _ (by simp)),
    fun x hx hg => (h.gone x hx hg).imp_right (hpos _ (by simp)),
    fun x hx => (h.dead x hx).imp_right (hpos _ (by simp)), h.shut,
    fun x hv hx => (h.leaving x hv hx).imp_right (hpos _ (by simp)), fun x hx => ?_,
    fun x hx => ?_, fun x t hx => (h.delivering x t hx).imp_left (hpos _ (by simp)),
    fun t ht => ?_⟩
  · rcases hneg _ hx with hx | hx | hx
    · cases hx
    · cases hx
    · exact h.unpublishing x (.inr hx)
  · -- what is to be done next is `dropSubs`
    rcases hneg _ hx with hx | hx | hx
    · cases hx
      exact hshut
    · cases hx
    · exact h.dropping x (.inr hx)
  · obtain ⟨ht, hne⟩ := htracks t ht
    obtain ⟨hv, hk, ho⟩ := h.owner t ht
    exact ⟨hv, hk, ho.imp_right (.imp (hpos _ (by simp)) (hpos _ (by simpa using hne)))⟩

lemma Members.minor (hm : m.major = false) (hn : ∀ a ∈ r.next, a.major = false)
    (hs : ∀ a ∈ r.spawned.flatten, a.major = false)
    (h : Members st fun a => a = m ∨ todo a) :
    Members st fun a => (a ∈ r.next ∨ a ∈ r.spawned.flatten) ∨ todo a := by
  refine h.pending (fun a ha hin => .inr (hin.resolve_left ?_)) fun x hx => ?_
  · rintro rfl
    cases a <;> simp [Act.major, Act.awaited] at hm ha
  · have hminor : ∀ a : Act, a.major → (a ∈ r.next ∨ a ∈ r.spawned.flatten) ∨ todo a →
        a = m ∨ todo a := by
      rintro a ha ((hin | hin) | hin)
      · rw [hn a hin] at ha
        cases ha
      · rw [hs a hin] at ha
        cases ha
      · exact .inr hin
    rcases hx with hx | hx
    · exact h.unpublishing x (hminor _ rfl hx)
    · exact h.dropping x (hminor _ rfl hx)

/-- A lock is taken or a message queued: nobody comes or goes. -/
structure Still (st st' : State) : Prop where
  peers : st'.peers = st.peers
  seen : st'.seen = st.seen
  serving : st'.serving = st.serving
  tracks : st'.tracks = st.tracks
  cancelled : ∀ x, st.cancelled x → st'.cancelled x
  audio : ∀ x, (st'.audio x).closed = (st.audio x).closed ∧
    (st'.audio x).shut = (st.audio x).shut ∧ (st'.audio x).track = (st.audio x).track ∧
    (st'.audio x).delivering = (st.audio x).delivering

lemma Still.refl : Still st st := ⟨rfl, rfl, rfl, rfl, fun _ h => h, fun _ => ⟨rfl, rfl, rfl, rfl⟩⟩

lemma Still.trans {st'' : State} (h : Still st st') (h' : Still st' st'') : Still st st'' :=
  ⟨h'.peers.trans h.peers, h'.seen.trans h.seen, h'.serving.trans h.serving,
    h'.tracks.trans h.tracks, fun x hx => h'.cancelled x (h.cancelled x hx),
    fun x => ⟨(h'.audio x).1.trans (h.audio x).1, (h'.audio x).2.1.trans (h.audio x).2.1,
      (h'.audio x).2.2.1.trans (h.audio x).2.2.1, (h'.audio x).2.2.2.trans (h.audio x).2.2.2⟩⟩

lemma Still.setAudio {f : AudioPeer → AudioPeer} (hf : ∀ a, (f a).closed = a.closed ∧
    (f a).shut = a.shut ∧ (f a).track = a.track ∧ (f a).delivering = a.delivering) :
    Still st (st.setAudio id f) := by
  refine ⟨rfl, rfl, rfl, rfl, fun _ h => h, fun x => ?_⟩
  rw [audio_setAudio]
  split_ifs with hx
  · exact hx ▸ hf _
  · exact ⟨rfl, rfl, rfl, rfl⟩

lemma Still.setSync {f : SyncState → SyncState} : Still st (st.setSync id f) :=
  .setAudio fun _ => ⟨rfl, rfl, rfl, rfl⟩

lemma Still.hold {steps : List Step} : Still st (st.hold id steps) :=
  .setAudio fun _ => ⟨rfl, rfl, rfl, rfl⟩

lemma Still.release : Still st (st.setAudio id ({ · with holder := none })) :=
  .setAudio fun _ => ⟨rfl, rfl, rfl, rfl⟩

lemma Still.setOutbox {f : Outbox Msg → Outbox Msg}
    (hf : (st.outbox id).cancelled → (f (st.outbox id)).cancelled) :
    Still st (st.setOutbox id f) := by
  refine ⟨rfl, rfl, rfl, rfl, fun x hx => ?_, fun _ => ⟨rfl, rfl, rfl, rfl⟩⟩
  simp only [State.cancelled, State.setOutbox, Function.update_apply] at hx ⊢
  split_ifs with hid
  · exact hf (hid ▸ hx)
  · exact hx

lemma Still.send (m : Msg) : Still st (st.send id m) :=
  .setOutbox fun hx => by simp [Outbox.send, hx]

lemma Still.locked (applied : Bool) (rest : List Step) (s : Step) :
    Still st (st.locked applied id rest s).1 := by
  cases s <;> simp only [State.locked]
  case check | send m => exact .refl
  case read | offer n => exact .setSync
  case removeSub t | addSub t slot =>
    exact ⟨rfl, rfl, rfl, rfl, fun _ h => h, fun _ => ⟨rfl, rfl, rfl, rfl⟩⟩
  case post m => exact .send m

lemma Still.members (hs : Still st st') (h : Members st todo) : Members st' todo :=
  h.frame hs.peers hs.seen hs.serving hs.tracks hs.cancelled hs.audio (fun _ _ ha => ha)
    fun x hx => hx.elim (h.unpublishing x) (h.dropping x)

lemma Members.exec (hr : exec ch m st = some r)
    (hs : ∀ x, m = .closePc x → (st.audio x).delivering = none)
    (h : Members st fun a => a = m ∨ todo a) :
    Members r.st fun a => (a ∈ r.next ∨ a ∈ r.spawned.flatten) ∨ todo a := by
  cases m <;> simp only [VoiceHub.Sfu.Audio.exec, Option.some.injEq] at hr
  case addPeer p =>
    refine Members.addPeer hr (h.pending (fun a ha hin => hin.resolve_left ?_) fun x hx => ?_)
    · rintro rfl
      cases ha
    · exact hx.elim (fun hx => h.unpublishing x (.inr hx)) fun hx => h.dropping x (.inr hx)
  case removePeer id => exact hr ▸ h.removePeer
  case cancel id =>
    obtain rfl := hr
    have hc := h.cancel
    exact hc.pending (fun a _ ha => .inr ha) fun x hx =>
      hx.elim (fun hx => hc.unpublishing x (by simpa using hx))
        fun hx => hc.dropping x (by simpa using hx)
  case send id m =>
    obtain rfl := hr
    exact (Still.send m).members (h.minor rfl (by simp) (by simp))
  case collect =>
    obtain rfl := hr
    refine h.minor rfl (fun a ha => ?_) (by simp [State.collect])
    obtain ⟨p, -, rfl⟩ := List.mem_map.mp ha
    rfl
  case renegotiate id =>
    obtain rfl := hr
    refine h.minor rfl (fun a ha => ?_) (by simp [State.renegotiate])
    simp only [State.renegotiate, go_next] at ha
    split_ifs at ha
    · rw [List.mem_singleton.mp ha]
      rfl
    · cases ha
  case sync id =>
    simp only [State.sync] at hr
    split_ifs at hr <;> obtain rfl := Option.some.inj hr
    · exact h.minor rfl (by simp) (by simp)
    · exact Still.hold.members (h.minor rfl (by simp [Act.major, Act.awaited]) (by simp))
  case acceptAnswer id ok =>
    simp only [State.acceptAnswer] at hr
    split_ifs at hr <;> obtain rfl := Option.some.inj hr
    · exact (Still.setSync.trans .hold).members
        (h.minor rfl (by simp [Act.major, Act.awaited]) (by simp))
    · exact h.minor rfl (by simp) (by simp)
  case held id =>
    rcases held_spec hr with ⟨s, rest, -, rfl⟩ | ⟨-, rfl⟩
    · exact ((Still.locked ..).trans .hold).members
        (h.minor rfl (by simp [Act.major, Act.awaited]) (by simp))
    · exact Still.release.members (h.minor rfl (by simp) (by simp))
  case published id => exact Members.published hr h
  case closePc id => exact Members.closePc hr (hs id rfl) h
  case unpublish id => exact hr ▸ h.unpublish
  case dropSubs id =>
    simp only [State.dropSubs] at hr
    split_ifs at hr
    obtain rfl := Option.some.inj hr
    refine Still.hold.members
      (h.pending (fun a ha hin => .inr (hin.resolve_left ?_)) fun x hx => ?_)
    · rintro rfl
      cases ha
    · exact hx.elim (fun hx => h.unpublishing x (.inr (by simpa using hx)))
        fun hx => h.dropping x (.inr (by simpa using hx))

lemma Members.starts {acts : List Act} (h : Members st todo)
    (hn : ∀ a ∈ acts, ∀ x, a ≠ .unpublish x ∧ a ≠ .dropSubs x) :
    Members st fun a => todo a ∨ a ∈ acts := by
  refine h.pending (fun a _ ha => .inl ha) fun x hx => ?_
  rcases hx with (hx | hx) | hx | hx
  · exact h.unpublishing x hx
  · exact absurd rfl (hn _ hx x).1
  · exact h.dropping x hx
  · exact absurd rfl (hn _ hx x).2

lemma Members.leave {acts : List Act} (h : Members st todo)
    (hacts : acts = .removePeer id :: if st.voice id then [.closePc id] else []) :
    Members { st with serving := st.serving.filter (· ≠ id) } fun a => todo a ∨ a ∈ acts := by
  have hout : ∀ x ∈ st.serving, x ∈ st.serving.filter (· ≠ id) ∨ x = id := fun x hx => by
    by_cases hid : x = id
    · exact .inr hid
    · exact .inl (List.mem_filter.mpr ⟨hx, decide_eq_true hid⟩)
  have hclose : st.voice id → .closePc id ∈ acts := fun hv => by simp [hacts, hv]
  have hneg : ∀ a ∈ acts, ∀ x, a ≠ .unpublish x ∧ a ≠ .dropSubs x := by
    intro a ha x
    rw [hacts] at ha
    rcases List.mem_cons.mp ha with rfl | ha
    · exact ⟨by simp, by simp⟩
    · split_ifs at ha
      · rw [List.mem_singleton.mp ha]
        exact ⟨by simp, by simp⟩
      · cases ha
  have h' := h.starts hneg
  refine ⟨h'.seen, fun x q hx => ?_, fun x hx hg => h'.gone x (List.mem_of_mem_filter hx) hg,
    h'.dead, h'.shut, fun x hv hx => ?_, h'.unpublishing, h'.dropping, h'.delivering,
    fun t ht => ?_⟩
  · rcases h'.serving x q hx with hs | ha
    · rcases hout x hs with hs | rfl
      · exact .inl hs
      · exact .inr (.inr (by simp [hacts]))
    · exact .inr ha
  · rcases h'.leaving x hv hx with hs | ha
    · rcases hout x hs with hs | rfl
      · exact .inl hs
      · exact .inr (.inr (hclose hv))
    · exact .inr ha
  · obtain ⟨hv, hk, ho⟩ := h'.owner t ht
    refine ⟨hv, hk, ?_⟩
    rcases ho with hs | ha
    · rcases hout _ hs with hs | hid
      · exact .inl hs
      · rw [hid] at hv ⊢
        exact .inr (.inl (.inr (hclose hv)))
    · exact .inr ha

lemma Members.pcDied (h : Members st todo) :
    Members (st.setAudio id ({ · with closed := true })) fun a => todo a ∨ a ∈ [.cancel id] := by
  have h' : Members st fun a => todo a ∨ a ∈ [.cancel id] := h.starts (by simp)
  exact h'.setAudio (fun _ _ _ _ ha => ha)
    (fun x _ hx => hx.elim (h'.unpublishing x) (h'.dropping x)) (fun _ => .inr (.inr (by simp)))
    (fun hx => ⟨rfl, (h'.shut id hx).2⟩) (h'.leaving id)
    (fun hx => hx.elim (h'.unpublishing id) (h'.dropping id)) (h'.delivering id)
    fun t ht htt => ht ▸ (h'.owner t htt).2

lemma Members.publish (he : st.publish id = some st') (hshut : (st.audio id).shut = false)
    (h : Members st todo) :
    Members st' fun a => todo a ∨ a ∈ [.published id] := by
  unfold State.publish at he
  simp only at he
  split_ifs at he with hin
  obtain ⟨hv, hdel, htrack⟩ := hin
  obtain rfl := Option.some.inj he
  have h' : Members st fun a => todo a ∨ a ∈ [.published id] := h.starts (by simp)
  have haudio : ∀ x, Function.update st.audio id
      { st.audio id with delivering := some ⟨st.next, id⟩ } x =
        if x = id then { st.audio id with delivering := some ⟨st.next, id⟩ } else st.audio x :=
    fun x => Function.update_apply ..
  refine ⟨h'.seen, h'.serving, h'.gone, fun x hx => ?_, fun x hx => ?_, fun x hxv hx => ?_,
    fun x hx => ?_, fun x hx => ?_, fun x t hx => ?_, fun t hx => ?_⟩
  all_goals simp only [haudio] at hx ⊢
  · -- no PC is closed by this
    split_ifs at hx with hid
    · exact hid ▸ h'.dead id hx
    · exact h'.dead x hx
  · split_ifs at hx
    · exact absurd hx (by simp [hshut])
    · rw [if_neg ‹_›]
      exact h'.shut x hx
  · split_ifs at hx with hid
    · exact hid ▸ h'.leaving id hv (by simp [hshut])
    · exact h'.leaving x hxv hx
  · have hx := h'.unpublishing x hx
    split_ifs with hid
    · exact hid ▸ hx
    · exact hx
  · have hx := h'.dropping x hx
    split_ifs with hid
    · exact hid ▸ hx
    · exact hx
  · -- the new track is the one in delivery
    split_ifs at hx with hid
    · rw [if_pos hid]
      exact ⟨.inr (by simp [hid]), htrack⟩
    · rw [if_neg hid]
      exact h'.delivering x t hx
  · -- it is the one in the room, with its `published` to come
    rw [Keyed.get_insert] at hx
    split_ifs at hx with hid
    · obtain rfl := Option.some.inj hx
      exact ⟨hv, .inr (by simp), (h'.leaving id hv (by simp [hshut])).imp_right .inl⟩
    · rw [if_neg hid]
      exact h'.owner t hx

lemma Members.begin {e : Event} {o : Option PeerId} {acts : List Act}
    (he : st.begin e = some (st', o, acts))
    (hs : ∀ x, e = .publish x → (st.audio x).shut = false) (h : Members st todo) :
    Members st' fun a => todo a ∨ a ∈ acts := by
  cases e <;> simp only [State.begin] at he
  case join p =>
    cases he
    exact h.starts (by simp)
  case leave id =>
    split at he <;> cases he
    exact h.leave rfl
  case answer id ok | renegotiate id =>
    split at he <;> cases he
    exact h.starts (by simp)
  case cancel id =>
    cases he
    exact (Still.setOutbox fun _ => rfl).members (h.starts (by simp))
  case pcDied id =>
    split at he <;> cases he
    exact h.pcDied
  case publish id =>
    obtain ⟨st', hp, heq⟩ := Option.map_eq_some_iff.mp he
    cases heq
    exact h.publish hp (hs id rfl)
  case sweep t =>
    cases he
    have hstill : Still st (st.setSubs t (·.filter fun s => !(st.audio s.pc).closed)) :=
      ⟨rfl, rfl, rfl, rfl, fun _ h => h, fun _ => ⟨rfl, rfl, rfl, rfl⟩⟩
    exact hstill.members (h.starts (by simp))
  case drain id =>
    cases he
    exact (Still.setOutbox fun hx => hx).members (h.starts (by simp))
  case other id =>
    cases he
    exact (Still.send _).members (h.starts (by simp))

theorem Reach.members {G : Config → Label → Prop} {c : Config} (h : Reach G c)
    (hG : ∀ c l, G c l → Silent c l) : Members c.st (· ∈ c.work) := by
  refine Machine.Reach.invariant' (I := fun c => Members c.st (· ∈ c.work)) ?_
    (fun c l c' _ hc hg hl => ?_) h
  · exact members_init.pending (fun a _ ha => ha.elim) fun x hx => by
      rcases hx with hx | hx <;> cases hx
  · refine step_keeps hl hc (fun i ch m r P hl hm hr hin => hin.exec hr fun x hx => ?_)
      fun e st o acts P hl he hin => hin.begin he fun x hx => ?_
    · subst hl hx
      exact hG _ _ hg _ hm x rfl
    · subst hl hx
      exact hG _ _ hg x rfl

end VoiceHub.Sfu.Audio
