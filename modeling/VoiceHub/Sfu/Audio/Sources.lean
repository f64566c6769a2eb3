import Mathlib
import VoiceHub.Sfu.Audio.Routing
import VoiceHub.Sfu.Audio.SlotPool

/-!
Whose track a slot is subscribed to.

While a `reconcile` is under way the slots already say what they are to carry, and the tracks
still list the subscriptions they had before. Every subscription that goes does so before the
first one comes, so that no two tracks ever list one slot. What `forward` still writes through an
older copy of a list is another matter.
-/

namespace VoiceHub.Sfu.Audio

open VoiceHub.Lib
open VoiceHub.Sfu.Room (Peer Outbox)

/-- A slot carries a track. -/
def Carries (slots : List Slot) (slot : String) (t : AudioTrack) : Prop :=
  ∃ s ∈ slots, s.streamId = slot ∧ s.track = some t

/-- Open slots, and behind them those of a pending offer. -/
def Laid (slots : List Slot) : Prop :=
  ∃ front back, slots = front ++ back ∧ (∀ s ∈ front, s.opened = true) ∧
    ∀ s ∈ back, s.opened = false ∧ s.track = none

/-- No subscription goes after one has come. -/
def GoesFirst (steps : List Step) : Prop :=
  steps.Pairwise fun a b => a.added ≠ none → b.removed = none

section Slots

variable {slots : List Slot} {slot : String} {t u : AudioTrack} {new : List AudioTrack}
  {self : PeerId} {tracks : Tracks} {s : Slot}

lemma Carries.mem (h : Carries slots slot t) : t ∈ carried slots := by
  obtain ⟨s, hs, -, ht⟩ := h
  exact List.mem_filterMap.mpr ⟨s, hs, ht⟩

lemma Carries.unique (hn : Numbered slots) (h : Carries slots slot t) (h' : Carries slots slot u) :
    t = u := by
  obtain ⟨s, hs, hid, ht⟩ := h
  obtain ⟨s', hs', hid', hu⟩ := h'
  obtain rfl := List.inj_on_of_nodup_map hn.nodup hs hs' (hid.trans hid'.symm)
  exact Option.some.inj (ht.symm.trans hu)

lemma laid_of_opened (h : ∀ s ∈ slots, s.opened = true) : Laid slots :=
  ⟨slots, [], (List.append_nil slots).symm, h, fun s hs => by cases hs⟩

lemma mem_give (hs : s ∈ slots) (ht : s.track = some t) : s ∈ (give slots new).slots := by
  induction slots generalizing new with
  | nil => cases hs
  | cons s' slots ih =>
    cases new with
    | nil => exact hs
    | cons u new =>
      cases h : s'.track with
      | some w =>
        rw [give_cons_some h]
        rcases List.mem_cons.mp hs with rfl | hs
        · exact List.mem_cons_self
        · exact List.mem_cons_of_mem _ (ih hs)
      | none =>
        rw [give_cons_none h]
        rcases List.mem_cons.mp hs with rfl | hs
        · rw [h] at ht
          cases ht
        · exact List.mem_cons_of_mem _ (ih hs)

lemma carries_give (h : (slot, t) ∈ (give slots new).given) :
    Carries (give slots new).slots slot t := by
  induction slots generalizing new with
  | nil => cases h
  | cons s slots ih =>
    cases new with
    | nil => cases h
    | cons u new =>
      cases hs : s.track with
      | some w =>
        rw [give_cons_some hs] at h ⊢
        obtain ⟨s', hs', hid, ht⟩ := ih h
        exact ⟨s', List.mem_cons_of_mem _ hs', hid, ht⟩
      | none =>
        rw [give_cons_none hs] at h ⊢
        rcases List.mem_cons.mp h with heq | h
        · obtain ⟨rfl, rfl⟩ := Prod.mk.inj heq
          exact ⟨_, List.mem_cons_self, rfl, rfl⟩
        · obtain ⟨s', hs', hid, ht⟩ := ih h
          exact ⟨s', List.mem_cons_of_mem _ hs', hid, ht⟩

lemma Carries.plan (h : Carries slots slot t) : Carries (plan self tracks slots).slots slot t ∨
    t ∈ (plan self tracks slots).freed.map Prod.snd := by
  by_cases hwant : t ∈ want self tracks
  · obtain ⟨s, hs, hid, ht⟩ := h
    have hfree : (s.free (want self tracks)).track = some t := by
      simp [Slot.free, ht, Option.filter, hwant]
    exact .inl ⟨_, mem_give (List.mem_map_of_mem hs) hfree, hid, hfree⟩
  · right
    rw [plan_freed, List.mem_filter, decide_eq_true_eq]
    exact ⟨h.mem, hwant⟩

lemma others_plan (h : ∀ t ∈ carried slots, t.owner ≠ self) :
    ∀ t ∈ carried (plan self tracks slots).slots, t.owner ≠ self := by
  intro t ht
  rcases List.mem_append.mp (plan_carried.mem_iff.mp ht) with ht | ht
  · exact h t (List.mem_of_mem_filter ht)
  · exact (mem_want.mp (plan_given ht).1).2

lemma addSub_mem_steps {p : Plan} (h : .addSub t slot ∈ p.steps) : (slot, t) ∈ p.given := by
  unfold Plan.steps at h
  split_ifs at h <;> simpa [eq_comm] using h

lemma goesFirst_steps (p : Plan) : GoesFirst p.steps := by
  have hplain {l : List Step} (h : ∀ a ∈ l, a.removed = none) : GoesFirst l :=
    List.pairwise_of_forall_mem_list fun a _ b hb _ => h b hb
  rw [GoesFirst, Plan.steps, List.append_assoc, List.append_assoc, List.pairwise_append]
  refine ⟨?_, hplain ?_, ?_⟩
  · refine List.pairwise_map.mpr (List.pairwise_of_forall fun x y hx => ?_)
    exact absurd rfl hx
  · intro a ha
    rcases List.mem_append.mp ha with ha | ha
    · split_ifs at ha
      · cases ha
      · rw [List.mem_singleton.mp ha]
        rfl
    rcases List.mem_append.mp ha with ha | ha
    · obtain ⟨x, -, rfl⟩ := List.mem_map.mp ha
      rfl
    · split_ifs at ha
      · cases ha
      · rw [List.mem_singleton.mp ha]
        rfl
  · intro a ha b hb hadded
    obtain ⟨x, -, rfl⟩ := List.mem_map.mp ha
    exact absurd rfl hadded

end Slots

/-! ### One peer's slots and the tracks that list them -/

/-- A peer's slots, what is left to do under its lock, and which track lists which slot. -/
structure Placed (v : PeerId) (sync : SyncState) (steps : List Step)
    (listed : AudioTrack → String → Prop) : Prop where
  laid : Laid sync.slots
  numbered : Numbered sync.slots
  opened : sync.pending = false → ∀ s ∈ sync.slots, s.opened = true
  stage : Stage sync.pending steps
  carriedOnce : (carried sync.slots).Nodup
  others : ∀ t ∈ carried sync.slots, t.owner ≠ v
  foreign : ∀ t slot, listed t slot → t.owner ≠ v
  source : ∀ t slot, listed t slot → Carries sync.slots slot t ∨ t ∈ removes steps
  single : ∀ t u slot, listed t slot → listed u slot → t = u
  heard : ∀ t slot slot', listed t slot → listed t slot' → slot = slot'
  coming : ∀ t slot, .addSub t slot ∈ steps →
    Carries sync.slots slot t ∧ ∀ slot', ¬listed t slot'
  once : (adds steps).Nodup
  order : GoesFirst steps

namespace Placed

variable {v : PeerId} {sync : SyncState} {steps rest : List Step}
  {listed listed' : AudioTrack → String → Prop} {t : AudioTrack} {slot : String}
  {tracks : Tracks} {k : ℕ}

lemma start (listed : AudioTrack → String → Prop) (h : ∀ t slot, ¬listed t slot) :
    Placed v ⟨false, []⟩ [] listed where
  laid := laid_of_opened fun s hs => by cases hs
  numbered := rfl
  opened _ s hs := by cases hs
  stage := trivial
  carriedOnce := List.nodup_nil
  others t ht := by cases ht
  foreign t slot hw := absurd hw (h t slot)
  source t slot hw := absurd hw (h t slot)
  single t u slot hw := absurd hw (h t slot)
  heard t slot slot' hw := absurd hw (h t slot)
  coming t slot ht := by cases ht
  once := List.nodup_nil
  order := List.Pairwise.nil

lemma restep {steps' : List Step} (h : Placed v sync steps listed)
    (hr : ∀ t ∈ removes steps, t ∈ removes steps') (ha : adds steps' = [])
    (hs : Stage sync.pending steps') (ho : GoesFirst steps') : Placed v sync steps' listed where
  laid := h.laid
  numbered := h.numbered
  opened := h.opened
  stage := hs
  carriedOnce := h.carriedOnce
  others := h.others
  foreign := h.foreign
  source t slot hw := (h.source t slot hw).imp_right (hr t)
  single := h.single
  heard := h.heard
  coming t slot ht := by
    have hmem : t ∈ adds steps' := List.mem_filterMap.mpr ⟨_, ht, rfl⟩
    rw [ha] at hmem
    cases hmem
  once := by
    rw [ha]
    exact List.nodup_nil
  order := ho

lemma skip {s : Step} (h : Placed v sync (s :: rest) listed) (hr : s.removed = none)
    (ha : s.added = none) (hs : Stage sync.pending rest) : Placed v sync rest listed where
  laid := h.laid
  numbered := h.numbered
  opened := h.opened
  stage := hs
  carriedOnce := h.carriedOnce
  others := h.others
  foreign := h.foreign
  source t slot hw := by
    have hsource := h.source t slot hw
    rwa [removes, List.filterMap_cons_none hr] at hsource
  single := h.single
  heard := h.heard
  coming t slot ht := h.coming t slot (List.mem_cons_of_mem s ht)
  once := by
    have honce := h.once
    rwa [adds, List.filterMap_cons_none ha] at honce
  order := h.order.of_cons

lemma drop (h : Placed v sync [] listed) (ts : List AudioTrack) :
    Placed v sync (ts.map .removeSub) listed := by
  refine h.restep (fun t ht => by cases ht) ?_ ?_ ?_
  · simp [adds, Step.added, List.filterMap_map, Function.comp_def]
  · rw [← List.append_nil (ts.map _), stage_append]
    · trivial
    · intro s hs
      obtain ⟨t, -, rfl⟩ := List.mem_map.mp hs
      exact ⟨rfl, by simp⟩
  · exact List.pairwise_map.mpr (List.pairwise_of_forall fun t u ht => absurd rfl ht)

lemma mono (h : Placed v sync steps listed) (hw : ∀ t slot, listed' t slot → listed t slot) :
    Placed v sync steps listed' where
  laid := h.laid
  numbered := h.numbered
  opened := h.opened
  stage := h.stage
  carriedOnce := h.carriedOnce
  others := h.others
  foreign t slot ht := h.foreign t slot (hw t slot ht)
  source t slot ht := h.source t slot (hw t slot ht)
  single t u slot ht hu := h.single t u slot (hw t slot ht) (hw u slot hu)
  heard t slot slot' ht ht' := h.heard t slot slot' (hw t slot ht) (hw t slot' ht')
  coming t slot ht := by
    obtain ⟨hc, hnot⟩ := h.coming t slot ht
    exact ⟨hc, fun slot' ht' => hnot slot' (hw t slot' ht')⟩
  once := h.once
  order := h.order

lemma post (h : Placed v sync rest listed) (m : Msg) :
    Placed v sync (.post m :: rest) listed where
  laid := h.laid
  numbered := h.numbered
  opened := h.opened
  stage := h.stage
  carriedOnce := h.carriedOnce
  others := h.others
  foreign := h.foreign
  source := h.source
  single := h.single
  heard := h.heard
  coming t slot ht := h.coming t slot ((List.mem_cons.mp ht).resolve_left (by simp))
  once := h.once
  order := List.pairwise_cons.mpr ⟨fun s _ ha => absurd rfl ha, h.order⟩

lemma removeSub (h : Placed v sync (.removeSub t :: rest) listed)
    (hw : ∀ u slot, listed' u slot ↔ u ≠ t ∧ listed u slot) : Placed v sync rest listed' where
  laid := h.laid
  numbered := h.numbered
  opened := h.opened
  stage := h.stage
  carriedOnce := h.carriedOnce
  others := h.others
  foreign u slot hu := h.foreign u slot ((hw u slot).mp hu).2
  source u slot hu := by
    obtain ⟨hne, hu⟩ := (hw u slot).mp hu
    exact (h.source u slot hu).imp_right fun hmem => (List.mem_cons.mp hmem).resolve_left hne
  single u u' slot hu hu' := h.single u u' slot ((hw u slot).mp hu).2 ((hw u' slot).mp hu').2
  heard u slot slot' hu hu' :=
    h.heard u slot slot' ((hw u slot).mp hu).2 ((hw u slot').mp hu').2
  coming u slot hu := by
    obtain ⟨hc, hnot⟩ := h.coming u slot (List.mem_cons_of_mem _ hu)
    exact ⟨hc, fun slot' hu' => hnot slot' ((hw u slot').mp hu').2⟩
  once := h.once
  order := h.order.of_cons

lemma addSub (h : Placed v sync (.addSub t slot :: rest) listed)
    (hw : ∀ u slot', listed' u slot' ↔ listed u slot' ∨ u = t ∧ slot' = slot) :
    Placed v sync rest listed' := by
  obtain ⟨hcarries, hsilent⟩ := h.coming t slot List.mem_cons_self
  have hgone : removes rest = [] := by
    refine List.filterMap_eq_nil_iff.mpr fun s hs => ?_
    exact (List.pairwise_cons.mp h.order).1 s hs (Option.some_ne_none t)
  have hsource u slot' (hu : listed u slot') : Carries sync.slots slot' u := by
    refine (h.source u slot' hu).resolve_right fun hmem => ?_
    have hmem : u ∈ removes rest := hmem
    rw [hgone] at hmem
    cases hmem
  obtain ⟨hlast, honce⟩ := List.nodup_cons.mp (show (t :: adds rest).Nodup from h.once)
  refine ⟨h.laid, h.numbered, h.opened, h.stage, h.carriedOnce, h.others, ?_, ?_, ?_, ?_, ?_, honce,
    h.order.of_cons⟩
  · intro u slot' hu
    rcases (hw u slot').mp hu with hu | ⟨rfl, rfl⟩
    · exact h.foreign u slot' hu
    · exact h.others u hcarries.mem
  · intro u slot' hu
    rcases (hw u slot').mp hu with hu | ⟨rfl, rfl⟩
    · exact .inl (hsource u slot' hu)
    · exact .inl hcarries
  · intro u u' slot' hu hu'
    rcases (hw u slot').mp hu with hu | ⟨rfl, rfl⟩
    · rcases (hw u' slot').mp hu' with hu' | ⟨rfl, rfl⟩
      · exact h.single u u' slot' hu hu'
      · exact (hsource u slot' hu).unique h.numbered hcarries
    · rcases (hw u' slot').mp hu' with hu' | ⟨rfl, -⟩
      · exact hcarries.unique h.numbered (hsource u' slot' hu')
      · rfl
  · intro u slot₁ slot₂ h₁ h₂
    rcases (hw u slot₁).mp h₁ with h₁ | ⟨rfl, rfl⟩
    · rcases (hw u slot₂).mp h₂ with h₂ | ⟨rfl, rfl⟩
      · exact h.heard u slot₁ slot₂ h₁ h₂
      · exact absurd h₁ (hsilent slot₁)
    · rcases (hw u slot₂).mp h₂ with h₂ | ⟨-, rfl⟩
      · exact absurd h₂ (hsilent slot₂)
      · rfl
  · intro u slot' hu
    obtain ⟨hc, hnot⟩ := h.coming u slot' (List.mem_cons_of_mem _ hu)
    refine ⟨hc, fun slot'' hu'' => ?_⟩
    rcases (hw u slot'').mp hu'' with hu'' | ⟨rfl, -⟩
    · exact hnot slot'' hu''
    · exact hlast (List.mem_filterMap.mpr ⟨_, hu, rfl⟩)

lemma read (h : Placed v sync [.read] listed) :
    Placed v { sync with slots := (plan v tracks sync.slots).slots }
      (plan v tracks sync.slots).steps listed := by
  have hpending : sync.pending = false := h.stage.2
  have hopened : ∀ s ∈ (plan v tracks sync.slots).slots, s.opened = true :=
    plan_opened (h.opened hpending)
  have hsource t slot (hw : listed t slot) : Carries sync.slots slot t :=
    (h.source t slot hw).resolve_right List.not_mem_nil
  refine ⟨laid_of_opened hopened, h.numbered.congr (plan_map fun _ _ => rfl), fun _ => hopened,
    hpending ▸ stage_steps, ?_, others_plan h.others, h.foreign, ?_, h.single, h.heard, ?_, ?_,
    goesFirst_steps _⟩
  · refine plan_carried.nodup_iff.mpr
      (List.Nodup.append (h.carriedOnce.filter _) plan_given_nodup ?_)
    exact fun t ht hgiven => (plan_given hgiven).2 (List.mem_of_mem_filter ht)
  · intro t slot hw
    rw [removes_steps]
    exact (hsource t slot hw).plan
  · intro t slot ht
    have hgiven := addSub_mem_steps ht
    refine ⟨carries_give hgiven, fun slot' hw => ?_⟩
    exact (plan_given (List.mem_map_of_mem hgiven)).2 (hsource t slot' hw).mem
  · rw [adds_steps]
    exact plan_given_nodup

lemma carried_offered (sync : SyncState) (k : ℕ) :
    carried ((List.range k).map fun i => newSlot (sync.slots.length + i)) = [] := by
  simp [carried, newSlot, List.filterMap_map]

lemma offer (h : Placed v sync [.offer k] listed) (applied : Bool) :
    Placed v (sync.offer applied k) (if applied then [.send .offer] else []) listed := by
  have hpending : sync.pending = false := h.stage.2
  have hopened := h.opened hpending
  cases applied with
  | false =>
    have hsame : sync.offer false k = sync := by
      rw [SyncState.offer, if_neg Bool.false_ne_true, List.filter_eq_self.mpr hopened]
    rw [hsame]
    exact h.skip rfl rfl trivial
  | true =>
    have hcarried : carried (sync.offer true k).slots = carried sync.slots := by
      rw [SyncState.offer, if_pos rfl, carried_append, carried_offered, List.append_nil]
    refine ⟨⟨_, _, rfl, hopened, fun s hs => ?_⟩, h.numbered.grow k, (fun hp => by cases hp),
      trivial, hcarried ▸ h.carriedOnce, hcarried ▸ h.others, h.foreign,
      fun t slot hw => ?_, h.single, h.heard, fun t slot ht => ?_, List.nodup_nil, List.pairwise_singleton _ _⟩
    · obtain ⟨i, -, rfl⟩ := List.mem_map.mp hs
      exact ⟨rfl, rfl⟩
    · obtain ⟨s, hs, hid⟩ := (h.source t slot hw).resolve_right List.not_mem_nil
      exact .inl ⟨s, List.mem_append_left _ hs, hid⟩
    · cases List.mem_singleton.mp ht

lemma answered (h : Placed v sync [] listed) (ok : Bool) :
    Placed v (sync.answered ok) [.check, .read] listed := by
  obtain ⟨front, back, hslots, hfront, hback⟩ := h.laid
  have hsource t slot (hw : listed t slot) : Carries sync.slots slot t :=
    (h.source t slot hw).resolve_right List.not_mem_nil
  have hnil : carried back = [] :=
    List.filterMap_eq_nil_iff.mpr fun s hs => (hback s hs).2
  have hkept : sync.slots.filter Slot.opened = front := by
    rw [hslots, List.filter_append, List.filter_eq_self.mpr hfront,
      List.filter_eq_nil_iff.mpr fun s hs => by simp [(hback s hs).1], List.append_nil]
  have hnumbered := h.numbered
  have hcarried : carried sync.slots = carried front := by
    rw [hslots, carried_append, hnil, List.append_nil]
  cases ok with
  | true =>
    have hsame : carried (sync.answered true).slots = carried sync.slots :=
      carried_map fun _ _ => rfl
    have hopened : ∀ s ∈ (sync.answered true).slots, s.opened = true := by
      intro s hs
      obtain ⟨s, -, rfl⟩ := List.mem_map.mp hs
      rfl
    refine ⟨laid_of_opened hopened, hnumbered.congr ?_, fun _ => hopened, ⟨rfl, rfl⟩,
      hsame ▸ h.carriedOnce, hsame ▸ h.others, h.foreign, fun t slot hw => ?_, h.single, h.heard,
      (fun t slot ht => by simp at ht), List.nodup_nil, by simp [GoesFirst, Step.added]⟩
    · simp [SyncState.answered]
    · obtain ⟨s, hs, hid⟩ := hsource t slot hw
      exact .inl ⟨_, List.mem_map_of_mem hs, hid⟩
  | false =>
    have hsame : (sync.answered false).slots = front := hkept
    refine ⟨laid_of_opened (hsame ▸ hfront), ?_, fun _ => hsame ▸ hfront, ⟨rfl, rfl⟩, ?_, ?_,
      h.foreign, fun t slot hw => ?_, h.single, h.heard,
      (fun t slot ht => by simp at ht), List.nodup_nil, by simp [GoesFirst, Step.added]⟩
    · rw [hsame]
      rw [hslots] at hnumbered
      exact hnumbered.of_append
    · rw [hsame, ← hcarried]
      exact h.carriedOnce
    · rw [hsame, ← hcarried]
      exact h.others
    · obtain ⟨s, hs, hid, ht⟩ := hsource t slot hw
      rw [hslots] at hs
      left
      rw [hsame]
      rcases List.mem_append.mp hs with hs | hs
      · exact ⟨s, hs, hid, ht⟩
      · rw [(hback s hs).2] at ht
        cases ht

end Placed

/-! ### All the peers -/

/-- A track lists a subscription of a peer's slot. -/
def State.listed (st : State) (v : PeerId) (t : AudioTrack) (slot : String) : Prop :=
  ⟨v, slot⟩ ∈ st.subs t

structure Listings (st : State) : Prop where
  placed : ∀ v, Placed v (st.audio v).sync ((st.audio v).holder.getD []) (st.listed v)
  nodup : ∀ t, (st.subs t).Nodup

variable {st st' : State} {ch : Choice} {r : Effect} {m : Act} {v id : PeerId}

lemma listings_init : Listings .init where
  placed v := .start _ fun t slot hw => by cases hw
  nodup _ := List.nodup_nil

lemma Listings.frame (h : Listings st) (ha : ∀ x, (st'.audio x).sync = (st.audio x).sync ∧
    (st'.audio x).holder = (st.audio x).holder) (hs : st'.subs = st.subs) : Listings st' where
  placed v := by
    have hw : st'.listed v = st.listed v := by
      ext t slot
      rw [State.listed, hs, State.listed]
    rw [(ha v).1, (ha v).2, hw]
    exact h.placed v
  nodup t := hs ▸ h.nodup t

lemma Listings.ofPeer (h : Listings st) (id : PeerId) (ha : ∀ x ≠ id, st'.audio x = st.audio x)
    (hw : ∀ x ≠ id, ∀ t slot, st'.listed x t slot ↔ st.listed x t slot)
    (hp : Placed id (st'.audio id).sync ((st'.audio id).holder.getD []) (st'.listed id))
    (hn : ∀ t, (st'.subs t).Nodup) : Listings st' where
  placed v := by
    by_cases hv : v = id
    · exact hv ▸ hp
    · have hsame : st'.listed v = st.listed v := by
        ext t slot
        exact hw v hv t slot
      rw [ha v hv, hsame]
      exact h.placed v
  nodup := hn

lemma listed_removed (t u : AudioTrack) (slot : String) :
    (st.setSubs t (·.filter fun s => s.pc ≠ id)).listed v u slot ↔
      ¬(v = id ∧ u = t) ∧ st.listed v u slot := by
  simp only [State.listed, State.setSubs, Function.update_apply]
  split_ifs with hu
  · subst hu
    simp [and_comm]
  · simp [hu]

lemma listed_added (t u : AudioTrack) (slot slot' : String) :
    (st.setSubs t (· ++ [⟨id, slot⟩])).listed v u slot' ↔
      st.listed v u slot' ∨ v = id ∧ u = t ∧ slot' = slot := by
  simp only [State.listed, State.setSubs, Function.update_apply]
  split_ifs with hu
  · subst hu
    simp
  · simp [hu]

lemma listed_locked {applied : Bool} {rest : List Step} (s : Step) (hv : v ≠ id)
    (t : AudioTrack) (slot : String) :
    (st.locked applied id rest s).1.listed v t slot ↔ st.listed v t slot := by
  cases s <;> simp only [State.locked] <;> try rfl
  · exact (listed_removed ..).trans (by simp [hv])
  · exact (listed_added ..).trans (by simp [hv])

lemma placed_locked {applied : Bool} {s : Step} {rest : List Step}
    (h : Placed id (st.audio id).sync (s :: rest) (st.listed id)) :
    Placed id ((st.locked applied id rest s).1.audio id).sync (st.locked applied id rest s).2
      ((st.locked applied id rest s).1.listed id) := by
  have hsync (f : SyncState → SyncState) :
      ((st.setSync id f).audio id).sync = f (st.audio id).sync := by
    rw [State.setSync, audio_setAudio, if_pos rfl]
  cases s with
  | check =>
    obtain ⟨rfl, hpend⟩ := h.stage
    simp only [State.locked]
    split_ifs
    · exact h.restep (fun t ht => by cases ht) rfl trivial List.Pairwise.nil
    · exact h.skip rfl rfl ⟨rfl, hpend⟩
  | read =>
    obtain ⟨rfl, -⟩ := h.stage
    simp only [State.locked, hsync, List.append_nil]
    exact h.read
  | removeSub t => exact h.removeSub fun u slot => (listed_removed t u slot).trans (by simp)
  | addSub t slot => exact h.addSub fun u slot' => (listed_added t u slot slot').trans (by simp)
  | offer n =>
    obtain ⟨rfl, -⟩ := h.stage
    simp only [State.locked, hsync]
    exact h.offer applied
  | send m =>
    simp only [State.locked]
    split_ifs
    · exact (h.skip rfl rfl h.stage).post m
    · exact h.skip rfl rfl h.stage
  | post m => exact h.skip rfl rfl h.stage

lemma nodup_locked {applied : Bool} {s : Step} {rest : List Step} (h : Listings st)
    (hs : (st.audio id).holder = some (s :: rest)) (t : AudioTrack) :
    ((st.locked applied id rest s).1.subs t).Nodup := by
  have hp := h.placed id
  rw [hs] at hp
  have hn := h.nodup t
  cases s with
  | removeSub u =>
    simp only [State.locked, State.setSubs, Function.update_apply]
    split_ifs with ht
    · exact (h.nodup u).filter _
    · exact hn
  | addSub u slot =>
    simp only [State.locked, State.setSubs, Function.update_apply]
    split_ifs with ht
    · refine List.nodup_append.mpr ⟨h.nodup u, List.nodup_singleton _, fun x hx y hy => ?_⟩
      obtain rfl := List.mem_singleton.mp hy
      rintro rfl
      exact (hp.coming u slot List.mem_cons_self).2 slot hx
    · exact hn
  | check | read | offer n | send m | post m => exact hn

lemma Listings.held {applied : Bool} (h : Listings st) (hr : st.held applied id = some r) :
    Listings r.st := by
  rcases held_spec hr with ⟨s, rest, hs, rfl⟩ | ⟨hs, rfl⟩
  · have hp := h.placed id
    rw [hs] at hp
    refine h.ofPeer id (fun x hx => ?_) (fun x hx => listed_locked s hx) ?_
      fun t => nodup_locked h hs t
    · exact (Function.update_of_ne hx ..).trans (audio_locked s hx)
    · rw [go_st, State.hold, audio_setAudio, if_pos rfl]
      exact placed_locked hp
  · have hp := h.placed id
    rw [hs] at hp
    refine h.ofPeer id (fun x hx => Function.update_of_ne hx ..) (fun _ _ _ _ => .rfl) ?_ h.nodup
    rw [go_st, audio_setAudio, if_pos rfl]
    exact hp

lemma Listings.hold (h : Listings st) (hfree : (st.audio id).holder.isSome = false)
    {sync : SyncState} {steps : List Step}
    (hp : Placed id (st.audio id).sync [] (st.listed id) → Placed id sync steps (st.listed id)) :
    Listings ((st.setSync id fun _ => sync).hold id steps) := by
  have hnone : (st.audio id).holder = none := by simpa using hfree
  have hbefore := h.placed id
  rw [hnone] at hbefore
  refine h.ofPeer id (fun x hx => ?_) (fun _ _ _ _ => .rfl) ?_ h.nodup
  · exact (Function.update_of_ne hx ..).trans (Function.update_of_ne hx ..)
  · rw [State.hold, audio_setAudio, if_pos rfl, State.setSync, audio_setAudio, if_pos rfl]
    exact hp hbefore

lemma setSync_self (st : State) (id : PeerId) :
    (st.setSync id fun _ => (st.audio id).sync) = st := by
  rw [State.setSync, State.setAudio, Function.update_eq_self]

theorem Listings.exec (h : Listings st) (hr : VoiceHub.Sfu.Audio.exec ch m st = some r) :
    Listings r.st := by
  have hsame : ∀ x, (st.audio x).sync = (st.audio x).sync ∧
      (st.audio x).holder = (st.audio x).holder := fun _ => ⟨rfl, rfl⟩
  cases m <;> simp only [VoiceHub.Sfu.Audio.exec, Option.some.injEq] at hr
  case addPeer p =>
    obtain ⟨-, hst, -, -⟩ := addPeer_spec hr
    rw [hst]
    exact h.frame hsame rfl
  case removePeer id =>
    obtain rfl := hr
    unfold State.removePeer
    split
    · exact h
    · exact h.frame hsame rfl
  case cancel | send | collect | renegotiate =>
    obtain rfl := hr
    exact h.frame hsame rfl
  case sync id =>
    unfold State.sync at hr
    split_ifs at hr with hfree hpend <;> obtain rfl := Option.some.inj hr
    · exact h
    · have hpending : (st.audio id).sync.pending = false := by simpa using hpend
      have hheld := @Listings.hold st id h (by simpa using hfree) (st.audio id).sync [.check, .read]
        fun hp => hp.restep (fun t ht => by cases ht) rfl ⟨rfl, hpending⟩
          (by simp [GoesFirst, Step.added])
      rwa [setSync_self] at hheld
  case acceptAnswer id ok =>
    unfold State.acceptAnswer at hr
    split_ifs at hr with hfree hpend <;> obtain rfl := Option.some.inj hr
    · exact h.hold (by simpa using hfree) fun hp => hp.answered ok
    · exact h
  case held id => exact h.held hr
  case published id =>
    unfold State.published at hr
    split at hr <;> cases hr
    refine h.frame (fun x => ?_) rfl
    dsimp only
    rw [audio_setAudio]
    split_ifs with hx
    · exact hx ▸ ⟨rfl, rfl⟩
    · exact ⟨rfl, rfl⟩
  case closePc id =>
    obtain ⟨next, rfl, -⟩ := closePc_spec hr
    refine h.frame (fun x => ?_) rfl
    rw [go_st, audio_setAudio]
    split_ifs with hx
    · exact hx ▸ ⟨rfl, rfl⟩
    · exact ⟨rfl, rfl⟩
  case unpublish id =>
    obtain rfl := hr
    unfold State.unpublish
    split
    · exact h
    · split
      · exact h.frame hsame rfl
      · exact h
  case dropSubs id =>
    simp only [State.dropSubs] at hr
    split_ifs at hr with hfree
    obtain rfl := Option.some.inj hr
    have hheld := @Listings.hold st id h (by simpa using hfree) (st.audio id).sync
      ((carried (st.audio id).sync.slots).map .removeSub) fun hp => hp.drop _
    rwa [setSync_self] at hheld

lemma Listings.begin {e : Event} {o : Option PeerId} {acts : List Act} (h : Listings st)
    (he : st.begin e = some (st', o, acts)) : Listings st' := by
  have hsame : ∀ x, (st.audio x).sync = (st.audio x).sync ∧
      (st.audio x).holder = (st.audio x).holder := fun _ => ⟨rfl, rfl⟩
  cases e <;> simp only [State.begin] at he
  case join p =>
    cases he
    exact h
  case leave id | answer id ok | renegotiate id =>
    split at he <;> cases he
    exact h.frame hsame rfl
  case cancel id | drain id | other id =>
    cases he
    exact h.frame hsame rfl
  case pcDied id =>
    split at he <;> cases he
    refine h.frame (fun x => ?_) rfl
    rw [audio_setAudio]
    split_ifs with hx
    · exact hx ▸ ⟨rfl, rfl⟩
    · exact ⟨rfl, rfl⟩
  case publish id =>
    obtain ⟨st', hpub, heq⟩ := Option.map_eq_some_iff.mp he
    cases heq
    unfold State.publish at hpub
    simp only at hpub
    split_ifs at hpub
    obtain rfl := Option.some.inj hpub
    refine h.frame (fun x => ?_) rfl
    simp only [Function.update_apply]
    split_ifs with hx
    · exact hx ▸ ⟨rfl, rfl⟩
    · exact ⟨rfl, rfl⟩
  case sweep t =>
    cases he
    have hlisted (v : PeerId) (u : AudioTrack) (slot : String) :
        (st.setSubs t (·.filter fun s => !(st.audio s.pc).closed)).listed v u slot →
          st.listed v u slot := by
      simp only [State.listed, State.setSubs, Function.update_apply]
      split_ifs with hu
      · subst hu
        exact List.mem_of_mem_filter
      · exact id
    refine ⟨fun v => (h.placed v).mono (hlisted v), fun u => ?_⟩
    simp only [State.setSubs, Function.update_apply]
    split_ifs
    · exact (h.nodup t).filter _
    · exact h.nodup u

theorem Reach.listings {G : Config → Label → Prop} {c : Config} (h : Reach G c) : Listings c.st :=
  Machine.Reach.invariant (I := fun c => Listings c.st) listings_init
    (fun _ _ _ hc _ hl => step_keeps (I := fun st _ => Listings st) hl hc
      (fun _ _ _ _ _ _ _ hex hm => hm.exec hex) fun _ _ _ _ _ _ he hm => hm.begin he) h

/-- **A slot is subscribed to one track.** At every moment, also in the middle of a `reconcile`, at
most one track lists a slot of a viewer, a track lists at most one slot of a viewer and only once,
and nobody's own track lists theirs. -/
theorem one_source {G : Config → Label → Prop} {c : Config} (h : Reach G c) (v : PeerId) :
    (∀ t u slot, ⟨v, slot⟩ ∈ c.st.subs t → ⟨v, slot⟩ ∈ c.st.subs u → t = u) ∧
    (∀ t, (c.st.subs t).countP (fun s => s.pc = v) ≤ 1) ∧
    ∀ t slot, ⟨v, slot⟩ ∈ c.st.subs t → t.owner ≠ v := by
  have hp := h.listings.placed v
  refine ⟨hp.single, fun t => ?_, hp.foreign⟩
  have hn : ((c.st.subs t).filter fun s => s.pc = v).Nodup := (h.listings.nodup t).filter _
  rw [List.countP_eq_length_filter, ← List.toFinset_card_of_nodup hn, Finset.card_le_one]
  have hmem : ∀ s ∈ ((c.st.subs t).filter fun s => s.pc = v).toFinset,
      ∃ slot, s = ⟨v, slot⟩ ∧ ⟨v, slot⟩ ∈ c.st.subs t := by
    intro s hs
    obtain ⟨hin, rfl⟩ : s ∈ c.st.subs t ∧ s.pc = v := by simpa using hs
    exact ⟨s.slot, rfl, hin⟩
  intro s hs s' hs'
  obtain ⟨slot, rfl, hslot⟩ := hmem s hs
  obtain ⟨slot', rfl, hslot'⟩ := hmem s' hs'
  rw [hp.heard t slot slot' hslot hslot']

theorem one_source_heard :
    (after heard).st.subs ⟨0, "x"⟩ ≠ [] ∧
    (∀ t u slot, ⟨"v", slot⟩ ∈ (after heard).st.subs t → ⟨"v", slot⟩ ∈ (after heard).st.subs u →
      t = u) ∧
    (∀ t, ((after heard).st.subs t).countP (fun s => s.pc = "v") ≤ 1) ∧
    ∀ t slot, ⟨"v", slot⟩ ∈ (after heard).st.subs t → t.owner ≠ "v" :=
  ⟨by decide +kernel, one_source
    (show Reach Machine.free (after heard) from
      Machine.Reach.of_isSome (Machine.meets_free _ _) (by decide +kernel)) "v"⟩

end VoiceHub.Sfu.Audio
