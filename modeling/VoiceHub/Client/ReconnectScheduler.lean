import Mathlib
import VoiceHub.Lib.Machine

/-!
The scheduler of reconnect attempts, with its timer, its counter and the attempts that are on
their way.

It knows of the timer but not of an attempt that is on its way: it may start a second one, and
an attempt that a reset overtook still schedules the next when it fails.
-/

namespace VoiceHub.Client.ReconnectScheduler

open VoiceHub.Lib.Machine

/-- The attempt that the timer is set for, and the counter. -/
structure Scheduler where
  timer : Option ℕ
  attempt : ℕ
  deriving DecidableEq

namespace Scheduler

def new : Scheduler := ⟨none, 0⟩

/-- Cancels any pending timer and resets the counter. -/
def reset (_ : Scheduler) : Scheduler := ⟨none, 0⟩

variable (delays : List ℕ) (isLeaving : Bool) (s : Scheduler)

/-- Schedules the next attempt, after its delay; a no-op while one is already pending. Past the
last delay it only tells that the attempts are exhausted. -/
def schedule : Scheduler :=
  if isLeaving ∨ s.timer ≠ none then s
  else if delays.length ≤ s.attempt then s
  else ⟨some s.attempt, s.attempt + 1⟩

/-- It has no next attempt to schedule. -/
def Idle : Prop := isLeaving ∨ s.timer ≠ none ∨ delays.length ≤ s.attempt

instance : Decidable (s.Idle delays isLeaving) := inferInstanceAs (Decidable (_ ∨ _ ∨ _))

variable {delays isLeaving s}

lemma schedule_idle (h : s.Idle delays isLeaving) : s.schedule delays isLeaving = s := by
  unfold schedule
  rcases h with h | h | h
  · exact if_pos (.inl h)
  · exact if_pos (.inr h)
  · rw [if_pos h, ite_self]

end Scheduler

/-- An attempt on its way, and how many resets there had been when it began. -/
structure Flight where
  attempt : ℕ
  resets : ℕ
  deriving DecidableEq

/-- The scheduler and what goes on around it. -/
structure World where
  sched : Scheduler
  isLeaving : Bool
  inFlight : List Flight
  resets : ℕ
  deriving DecidableEq

inductive Op
  | schedule
  | reset
  | leave (isLeaving : Bool)
  /-- the timer goes off -/
  | fire
  /-- the promise of attempt `i` of those on their way is resolved, or rejected -/
  | settle (i : ℕ) (ok : Bool)

namespace World

def new : World := ⟨.new, false, [], 0⟩

variable (delays : List ℕ)

/-- An attempt may call `reset` itself: that is a step after it began. -/
def step (w : World) : Op → Option World
  | .schedule => some { w with sched := w.sched.schedule delays w.isLeaving }
  | .reset => some { w with sched := w.sched.reset, resets := w.resets + 1 }
  | .leave isLeaving => some { w with isLeaving }
  | .fire =>
    match w.sched.timer with
    | none => none
    | some attempt =>
      let w := { w with sched := { w.sched with timer := none } }
      if w.isLeaving then some w
      else some { w with inFlight := w.inFlight ++ [⟨attempt, w.resets⟩] }
  | .settle i ok =>
    match w.inFlight[i]? with
    | none => none
    | some _ =>
      let w := { w with inFlight := w.inFlight.eraseIdx i }
      if ok then some { w with sched := { w.sched with attempt := 0 } }
      else some { w with sched := w.sched.schedule delays w.isLeaving }

/-- There has been a reset since attempt `i` began. -/
def Overtaken (w : World) (i : ℕ) : Prop := ∃ f ∈ w.inFlight[i]?, f.resets < w.resets

/-- `schedule` takes effect only while no attempt is on its way, and not for an attempt that was
overtaken. -/
def Calm (w : World) : Op → Prop
  | .schedule => w.inFlight = [] ∨ w.sched.Idle delays w.isLeaving
  | .settle i false => w.Overtaken i → w.sched.Idle delays w.isLeaving
  | _ => True

variable {delays : List ℕ} {w w' : World} {op : Op}

/-- At most one attempt is on its way, none while the timer is set, and the counter stays at
zero under one that was overtaken. -/
structure Single (w : World) : Prop where
  one : w.inFlight.length ≤ 1
  timer : w.sched.timer ≠ none → w.inFlight = []
  attempt : ∀ f ∈ w.inFlight, f.resets < w.resets → w.sched.attempt = 0

lemma single_new : Single new := ⟨Nat.zero_le _, fun _ => rfl, by simp [new]⟩

lemma Single.of_nil (h : w.inFlight = []) : Single w where
  one := by rw [h]; exact Nat.zero_le _
  timer _ := h
  attempt := by simp [h]

lemma Single.eraseIdx (h : Single w) {i : ℕ} {f : Flight} (hi : w.inFlight[i]? = some f) :
    w.inFlight.eraseIdx i = [] := by
  have hlt := (List.getElem?_eq_some_iff.mp hi).1
  have hone := h.one
  refine List.eq_nil_of_length_eq_zero ?_
  rw [List.length_eraseIdx_of_lt hlt]
  omega

lemma Single.step (h : Single w) (hc : w.Calm delays op) (hs : w.step delays op = some w') :
    Single w' := by
  cases op with
  | schedule =>
    obtain rfl := Option.some.inj hs
    rcases hc with hnil | hidle
    · exact .of_nil hnil
    · rw [Scheduler.schedule_idle hidle]
      exact h
  | reset =>
    obtain rfl := Option.some.inj hs
    exact ⟨h.one, fun htimer => absurd rfl htimer, fun _ _ _ => rfl⟩
  | leave isLeaving =>
    obtain rfl := Option.some.inj hs
    exact ⟨h.one, h.timer, h.attempt⟩
  | fire =>
    rw [World.step] at hs
    split at hs
    · cases hs
    · next attempt htimer =>
      have hnil : w.inFlight = [] := h.timer (by rw [htimer]; exact Option.some_ne_none attempt)
      dsimp only at hs
      split_ifs at hs with hleaving
      · obtain rfl := Option.some.inj hs
        exact .of_nil hnil
      · obtain rfl := Option.some.inj hs
        refine ⟨by simp [hnil], fun hne => absurd rfl hne, fun f hf hlt => ?_⟩
        -- the attempt that begins has not been overtaken
        rw [hnil, List.nil_append, List.mem_singleton] at hf
        rw [hf] at hlt
        exact absurd hlt (Nat.lt_irrefl _)
  | settle i ok =>
    rw [World.step] at hs
    split at hs
    · cases hs
    · next f hi =>
      have hnil := h.eraseIdx hi
      dsimp only at hs
      split_ifs at hs
      · obtain rfl := Option.some.inj hs
        exact .of_nil hnil
      · obtain rfl := Option.some.inj hs
        exact .of_nil hnil

/-- The settlement of an attempt that was overtaken changes nothing. -/
lemma Single.settle (h : Single w) {i : ℕ} {ok : Bool} (ho : w.Overtaken i)
    (hc : w.Calm delays (.settle i ok)) (hs : w.step delays (.settle i ok) = some w') :
    w'.sched = w.sched := by
  obtain ⟨f, hf, hlt⟩ := ho
  have hzero : w.sched.attempt = 0 := h.attempt f (List.mem_of_getElem? hf) hlt
  rw [World.step, Option.mem_def.mp hf] at hs
  cases ok with
  | true =>
    obtain rfl := Option.some.inj hs
    change { w.sched with attempt := 0 } = w.sched
    rw [← hzero]
  | false =>
    obtain rfl := Option.some.inj hs
    exact Scheduler.schedule_idle (hc ⟨f, hf, hlt⟩)

/-- **One attempt at a time**: in a run where `schedule` takes effect only while no attempt is on
its way, and not for one that was overtaken, there is never a second attempt on its way, and what
was overtaken leaves the scheduler as it is. -/
theorem one_attempt (h : Reach (step delays) (Calm delays) new w) :
    w.inFlight.length ≤ 1 ∧ ∀ i ok w', w.Overtaken i → w.Calm delays (.settle i ok) →
      w.step delays (.settle i ok) = some w' → w'.sched = w.sched := by
  have hsingle : Single w :=
    Reach.invariant single_new (fun _ _ _ hw hc hs => hw.step hc hs) h
  exact ⟨hsingle.one, fun i ok w' ho hc hs => hsingle.settle ho hc hs⟩

instance (w : World) (i : ℕ) : Decidable (w.Overtaken i) :=
  match h : w.inFlight[i]? with
  | none => isFalse (by simp [Overtaken, h])
  | some f => decidable_of_iff (f.resets < w.resets) (by simp [Overtaken, h])

instance (w : World) : ∀ op, Decidable (w.Calm delays op)
  | .schedule => inferInstanceAs (Decidable (_ ∨ _))
  | .settle _ false => inferInstanceAs (Decidable (_ → _))
  | .settle _ true | .reset | .leave _ | .fire => inferInstanceAs (Decidable True)

/-- An attempt that fails, and one that is reset before the user leaves. -/
def leavingRun : List Op := [.schedule, .fire, .settle 0 false, .fire, .reset, .leave true]

theorem one_attempt_leaving :
    let w := (run (step [1000, 2000]) new leavingRun).getD new
    w.inFlight = [⟨1, 0⟩] ∧ w.inFlight.length ≤ 1 ∧ w.Overtaken 0 ∧
      ∃ w', w.step [1000, 2000] (.settle 0 false) = some w' ∧ w'.sched = w.sched := by
  intro w
  have h := one_attempt (show Reach (step [1000, 2000]) (Calm [1000, 2000]) new w from
    Reach.of_isSome (by decide) (by decide))
  exact ⟨by decide, h.1, by decide, _, rfl, h.2 0 false _ (by decide) (by decide) rfl⟩

/-- A `schedule` while an attempt is on its way. -/
def doubleRun : List Op := [.schedule, .fire, .schedule, .fire]

/-- A reset while an attempt is on its way. -/
def overtakenRun : List Op := [.schedule, .fire, .reset]

/-- **Not in every run**: two attempts may be on their way, and an attempt that was reset sets the
timer when it fails. -/
theorem two_attempts :
    (∃ w, Reach (step [1000, 2000]) free new w ∧ w.inFlight = [⟨0, 0⟩, ⟨1, 0⟩]) ∧
    ∃ w w', Reach (step [1000, 2000]) free new w ∧ w.Overtaken 0 ∧
      w.step [1000, 2000] (.settle 0 false) = some w' ∧
      w.sched = ⟨none, 0⟩ ∧ w'.sched = ⟨some 0, 1⟩ := by
  refine ⟨⟨(run (step [1000, 2000]) new doubleRun).getD new,
    Reach.of_isSome (meets_free _ _) (by decide), by decide⟩, ?_⟩
  exact ⟨(run (step [1000, 2000]) new overtakenRun).getD new, ⟨⟨some 0, 1⟩, false, [], 1⟩,
    Reach.of_isSome (meets_free _ _) (by decide), by decide, by decide, by decide, by decide⟩

end World

end VoiceHub.Client.ReconnectScheduler
