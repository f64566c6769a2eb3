import Mathlib
import VoiceHub.Sfu.Audio.Room

/-!
The subscriptions of one peer's PC, counted.

Under the sync lock the slots change at once, and the tracks' subscriptions one after the
other. What the holder has still to add or to take away makes up the difference, so that the
count comes out whenever the lock is free.
-/

namespace VoiceHub.Sfu.Audio

open VoiceHub.Lib

/-! ### What the holder of a lock has still to do -/

def Step.removed : Step → Option AudioTrack
  | .removeSub t => some t
  | _ => none

def Step.added : Step → Option AudioTrack
  | .addSub t _ => some t
  | _ => none

/-- The slots are still to be pointed at the room's tracks, or more are still to be offered. -/
def Step.decides : Step → Bool
  | .read | .offer _ => true
  | _ => false

def removes (steps : List Step) : List AudioTrack := steps.filterMap Step.removed

def adds (steps : List Step) : List AudioTrack := steps.filterMap Step.added

/-- Who has the lock looks, then reads the tracks, and offers last of all; no offer is pending
until then. -/
def Stage (pending : Bool) : List Step → Prop
  | [] => True
  | .check :: rest => rest = [.read] ∧ pending = false
  | .read :: rest | .offer _ :: rest => rest = [] ∧ pending = false
  | .removeSub _ :: rest | .addSub _ _ :: rest | .send _ :: rest | .post _ :: rest =>
    Stage pending rest

section Steps

variable {p : Plan} {steps rest : List Step} {pending : Bool} {self : PeerId} {tracks : Tracks}
  {slots : List Slot}

lemma removes_append : removes (steps ++ rest) = removes steps ++ removes rest :=
  List.filterMap_append ..

lemma adds_append : adds (steps ++ rest) = adds steps ++ adds rest := List.filterMap_append ..

lemma removes_steps : removes p.steps = p.freed.map Prod.snd := by
  simp only [Plan.steps, removes_append]
  have hfreed : removes (p.freed.map fun x => .removeSub x.2) = p.freed.map Prod.snd := by
    simp [removes, Step.removed, List.filterMap_map, Function.comp_def]
  have hgiven : removes (p.given.map fun x => .addSub x.2 x.1) = [] := by
    simp [removes, Step.removed, List.filterMap_map, Function.comp_def]
  rw [hfreed, hgiven]
  split_ifs <;> simp [removes, Step.removed]

lemma adds_steps : adds p.steps = p.given.map Prod.snd := by
  simp only [Plan.steps, adds_append]
  have hfreed : adds (p.freed.map fun x => .removeSub x.2) = [] := by
    simp [adds, Step.added, List.filterMap_map, Function.comp_def]
  have hgiven : adds (p.given.map fun x => .addSub x.2 x.1) = p.given.map Prod.snd := by
    simp [adds, Step.added, List.filterMap_map, Function.comp_def]
  rw [hfreed, hgiven]
  split_ifs <;> simp [adds, Step.added, List.filterMap_cons]

lemma stage_append (h : ∀ s ∈ steps, s.decides = false ∧ s ≠ .check) :
    Stage pending (steps ++ rest) ↔ Stage pending rest := by
  induction steps with
  | nil => rfl
  | cons s steps ih =>
    obtain ⟨hs, hc⟩ := h s List.mem_cons_self
    rw [← ih fun s hs => h s (List.mem_cons_of_mem _ hs)]
    cases s
    case check => exact absurd rfl hc
    case read | offer n => cases hs
    all_goals rfl

lemma stage_steps : Stage false p.steps := by
  unfold Plan.steps
  rw [List.append_assoc, List.append_assoc, stage_append, stage_append, stage_append]
  · split_ifs
    · trivial
    · exact ⟨rfl, rfl⟩
  · intro s hs
    obtain ⟨x, -, rfl⟩ := List.mem_map.mp hs
    exact ⟨rfl, by simp⟩
  · split_ifs <;> simp [Step.decides]
  · intro s hs
    obtain ⟨x, -, rfl⟩ := List.mem_map.mp hs
    exact ⟨rfl, by simp⟩

lemma decides_steps : p.steps.any Step.decides = decide (p.grow ≠ 0) := by
  unfold Plan.steps
  split_ifs with ha hg hg <;> simp [Step.decides, hg]

end Steps

/-! ### The count of one peer's subscriptions -/

/-- The slots of a peer, what is left to do under its lock, and how often each track has its PC
among the subscribers. -/
structure Subscribed (sync : SyncState) (steps : List Step) (n : AudioTrack → ℕ) : Prop where
  opened : sync.pending = false → ∀ s ∈ sync.slots, s.opened = true
  unopened : ∀ s ∈ sync.slots, s.opened = false → s.track = none
  stage : Stage sync.pending steps
  once : (carried sync.slots ++ removes steps).Nodup
  adding : ∀ t ∈ adds steps, t ∈ carried sync.slots
  count : ∀ t, n t + (adds steps).count t = (carried sync.slots).count t + (removes steps).count t

namespace Subscribed

variable {sync : SyncState} {steps rest : List Step} {n n' : AudioTrack → ℕ} {self : PeerId}
  {tracks : Tracks} {t : AudioTrack} {slot : String} {k : ℕ}

lemma settled (h : Subscribed sync [] n) : n t = if t ∈ carried sync.slots then 1 else 0 := by
  have hn : (carried sync.slots).Nodup := by
    have h := h.once
    rwa [removes, List.filterMap_nil, List.append_nil] at h
  have hcount := h.count t
  rw [adds, removes, List.filterMap_nil, List.filterMap_nil, List.count_nil, Nat.add_zero,
    Nat.add_zero] at hcount
  rw [hcount, List.Nodup.count hn]

lemma restep {steps' : List Step} (h : Subscribed sync steps n)
    (hr : removes steps' = removes steps) (ha : adds steps' = adds steps)
    (hs : Stage sync.pending steps') : Subscribed sync steps' n :=
  ⟨h.opened, h.unopened, hs, hr ▸ h.once, ha ▸ h.adding, hr ▸ ha ▸ h.count⟩

lemma removeSub (h : Subscribed sync (.removeSub t :: rest) n)
    (hn : ∀ u, n' u = if u = t then 0 else n u) : Subscribed sync rest n' := by
  have honce : (carried sync.slots ++ t :: removes rest).Nodup := h.once
  have hcarried : t ∉ carried sync.slots := fun hc =>
    List.disjoint_of_nodup_append honce hc List.mem_cons_self
  have hremoves : t ∉ removes rest := (List.nodup_cons.mp honce.of_append_right).1
  refine ⟨h.opened, h.unopened, h.stage, ?_, h.adding, fun u => ?_⟩
  · exact honce.sublist ((List.sublist_cons_self t _).append_left _)
  · have hcount : n u + (adds rest).count u =
        (carried sync.slots).count u + (t :: removes rest).count u := h.count u
    rw [hn]
    split_ifs with hu
    · subst hu
      have hadds : u ∉ adds rest := fun hu => hcarried (h.adding u hu)
      rw [List.count_eq_zero_of_not_mem hadds, List.count_eq_zero_of_not_mem hcarried,
        List.count_eq_zero_of_not_mem hremoves]
    · rw [hcount, List.count_cons_of_ne (Ne.symm hu)]

lemma addSub (h : Subscribed sync (.addSub t slot :: rest) n)
    (hn : ∀ u, n' u = n u + if u = t then 1 else 0) : Subscribed sync rest n' := by
  refine ⟨h.opened, h.unopened, h.stage, h.once,
    fun u hu => h.adding u (List.mem_cons_of_mem t hu), fun u => ?_⟩
  have hcount : n u + (t :: adds rest).count u =
      (carried sync.slots).count u + (removes rest).count u := h.count u
  rw [hn, ← hcount]
  split_ifs with hu
  · rw [hu, List.count_cons_self]
    omega
  · rw [List.count_cons_of_ne (Ne.symm hu), Nat.add_zero]

lemma read (h : Subscribed sync [.read] n) :
    Subscribed { sync with slots := (plan self tracks sync.slots).slots }
      (plan self tracks sync.slots).steps n := by
  have hpending : sync.pending = false := h.stage.2
  have hopened : ∀ s ∈ (plan self tracks sync.slots).slots, s.opened = true :=
    plan_opened (h.opened hpending)
  have hmoved : (carried (plan self tracks sync.slots).slots ++
      removes (plan self tracks sync.slots).steps).Perm
        (carried sync.slots ++ (plan self tracks sync.slots).given.map Prod.snd) := by
    rw [removes_steps, plan_freed]
    refine (plan_carried.append_right _).trans ?_
    rw [List.append_assoc]
    refine (List.perm_append_comm.append_left _).trans ?_
    rw [← List.append_assoc]
    refine List.Perm.append_right _ ?_
    convert List.filter_append_perm (· ∈ want self tracks) (carried sync.slots) using 3
    simp
  refine ⟨fun _ => hopened, fun s hs ho => ?_, hpending ▸ stage_steps, ?_, fun t ht => ?_,
    fun t => ?_⟩
  · rw [hopened s hs] at ho
    cases ho
  · refine hmoved.nodup_iff.mpr (List.Nodup.append h.once.of_append_left plan_given_nodup ?_)
    exact fun t ht hgiven => (plan_given hgiven).2 ht
  · rw [adds_steps] at ht
    exact plan_carried.mem_iff.mpr (List.mem_append_right _ ht)
  · have hcount := h.count t
    have hall := hmoved.count_eq t
    rw [List.count_append, List.count_append] at hall
    rw [adds_steps, hall]
    exact congrArg (· + _) hcount

lemma offer (h : Subscribed sync (.offer k :: rest) n) :
    Subscribed (sync.offer true k) [.send .offer] n := by
  have hrest : rest = [] := h.stage.1
  subst hrest
  have hcarried : carried (sync.offer true k).slots = carried sync.slots := by
    have hnew : carried ((List.range k).map fun i => newSlot (sync.slots.length + i)) = [] := by
      simp [carried, newSlot, List.filterMap_map]
    rw [SyncState.offer, if_pos rfl, carried_append, hnew, List.append_nil]
  refine ⟨fun hp => (by cases hp), fun s hs ho => ?_, trivial, ?_, fun t ht => ?_, fun t => ?_⟩
  · rcases List.mem_append.mp hs with hs | hs
    · exact h.unopened s hs ho
    · obtain ⟨i, -, rfl⟩ := List.mem_map.mp hs
      rfl
  · rw [hcarried]
    exact h.once
  · cases ht
  · rw [hcarried]
    exact h.count t

lemma answered (h : Subscribed sync [] n) (ok : Bool) :
    Subscribed (sync.answered ok) [.check, .read] n := by
  have hcarried : carried (sync.answered ok).slots = carried sync.slots := by
    cases ok with
    | true => exact carried_map fun _ _ => rfl
    | false =>
      have hu := h.unopened
      show carried (sync.slots.filter Slot.opened) = _
      generalize sync.slots = slots at hu
      induction slots with
      | nil => rfl
      | cons s slots ih =>
        have ih := ih fun s hs => hu s (List.mem_cons_of_mem _ hs)
        rw [List.filter_cons]
        split_ifs with ho
        · rw [carried_cons, carried_cons, ih]
        · rw [carried_cons, hu s List.mem_cons_self (Bool.eq_false_of_not_eq_true ho), ih]
          rfl
  have hopened : ∀ s ∈ (sync.answered ok).slots, s.opened = true := by
    intro s hs
    cases ok with
    | true =>
      obtain ⟨s, -, rfl⟩ := List.mem_map.mp hs
      rfl
    | false => exact (List.mem_filter.mp hs).2
  refine ⟨fun _ => hopened, fun s hs ho => ?_, ⟨rfl, rfl⟩, ?_, fun t ht => ?_, fun t => ?_⟩
  · rw [hopened s hs] at ho
    cases ho
  · rw [hcarried]
    exact h.once
  · cases ht
  · rw [hcarried]
    exact h.count t

end Subscribed

end VoiceHub.Sfu.Audio
