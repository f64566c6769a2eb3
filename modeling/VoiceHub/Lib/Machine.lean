import Mathlib

/-!
Machines that take labelled steps, and the states their runs reach.

A guard restricts a run to the steps it allows; the guard `⊤` leaves every run in. What
every step preserves holds in every state a run reaches, and a list of labels is checked
by running it.
-/

namespace VoiceHub.Lib.Machine

variable {S L : Type*} (step : S → L → Option S)

/-- The states reached from `s₀` by steps that all meet the guard `G`. -/
inductive Reach (G : S → L → Prop) (s₀ : S) : S → Prop
  | init : Reach G s₀ s₀
  | tail {s s' : S} (l : L) : Reach G s₀ s → G s l → step s l = some s' → Reach G s₀ s'

/-- Every step is allowed. -/
def free : S → L → Prop := fun _ _ => True

/-- Runs a list of labels, if every step is possible. -/
def run (s : S) : List L → Option S
  | [] => some s
  | l :: ls => (step s l).bind fun s' => run s' ls

/-- Every step of a run meets the guard. -/
def Meets (G : S → L → Prop) (s : S) : List L → Prop
  | [] => True
  | l :: ls => G s l ∧ ∀ s' ∈ step s l, Meets G s' ls

variable {step} {G H : S → L → Prop} {s₀ s s' : S}

instance Meets.decidable [∀ s l, Decidable (G s l)] (s : S) :
    ∀ ls : List L, Decidable (Meets step G s ls)
  | [] => inferInstanceAs (Decidable True)
  | l :: ls =>
    match h : step s l with
    | none => decidable_of_iff (G s l) (by simp [Meets, h])
    | some s' =>
      have := Meets.decidable s' ls
      decidable_of_iff (G s l ∧ Meets step G s' ls) (by simp [Meets, h])

theorem meets_free (s : S) (ls : List L) : Meets step free s ls := by
  induction ls generalizing s with
  | nil => trivial
  | cons l ls ih => exact ⟨trivial, fun s' _ => ih s'⟩

/-- **The invariant rule.** -/
theorem Reach.invariant {I : S → Prop} (h₀ : I s₀)
    (hs : ∀ s l s', I s → G s l → step s l = some s' → I s') (h : Reach step G s₀ s) : I s := by
  induction h with
  | init => exact h₀
  | tail l _ hg hl ih => exact hs _ l _ ih hg hl

/-- The invariant rule, where the step may use what earlier invariants say. -/
theorem Reach.invariant' {I : S → Prop} (h₀ : I s₀)
    (hs : ∀ s l s', Reach step G s₀ s → I s → G s l → step s l = some s' → I s')
    (h : Reach step G s₀ s) : I s := by
  induction h with
  | init => exact h₀
  | tail l hr hg hl ih => exact hs _ l _ hr ih hg hl

theorem Reach.mono (hGH : ∀ s l, G s l → H s l) (h : Reach step G s₀ s) :
    Reach step H s₀ s := by
  induction h with
  | init => exact .init
  | tail l _ hg hl ih => exact .tail l ih (hGH _ _ hg) hl

theorem Reach.to_free (h : Reach step G s₀ s) : Reach step free s₀ s :=
  h.mono fun _ _ _ => trivial

theorem Reach.trans (h : Reach step G s₀ s) (h' : Reach step G s s') : Reach step G s₀ s' := by
  induction h' with
  | init => exact h
  | tail l _ hg hl ih => exact .tail l ih hg hl

theorem run_append (s : S) (ls ls' : List L) :
    run step s (ls ++ ls') = (run step s ls).bind fun s' => run step s' ls' := by
  induction ls generalizing s with
  | nil => rfl
  | cons l ls ih =>
    simp only [List.cons_append, run, Option.bind_assoc]
    exact congrArg _ (funext ih)

/-- A list of labels that runs, meeting the guard, shows where it ends to be reached. -/
theorem Reach.of_run (h : Reach step G s₀ s) :
    ∀ {ls : List L}, Meets step G s ls → run step s ls = some s' → Reach step G s₀ s' := by
  intro ls
  induction ls generalizing s with
  | nil => intro _ hr; cases hr; exact h
  | cons l ls ih =>
    intro hm hr
    obtain ⟨t, ht, hr'⟩ := Option.bind_eq_some_iff.mp hr
    exact ih (.tail l h hm.1 ht) (hm.2 t ht) hr'

theorem Reach.of_isSome {ls : List L} (hm : Meets step G s₀ ls)
    (h : (run step s₀ ls).isSome) : Reach step G s₀ ((run step s₀ ls).getD s₀) := by
  obtain ⟨s, hs⟩ := Option.isSome_iff_exists.mp h
  rw [hs]
  exact Reach.init.of_run hm hs

end VoiceHub.Lib.Machine
