import Mathlib

/-!
Machines that answer every input with an output.

Two of them, run on the same inputs, give the same outputs exactly when they answer alike
after every part of the inputs; a relation between their states that every input keeps
turns that into a statement about one input.
-/

namespace VoiceHub.Lib.Transducer

variable {S T I O P : Type*}

/-- The state after some inputs. -/
def after (f : S → I → S × O) (s : S) : List I → S
  | [] => s
  | i :: is => after f (f s i).1 is

/-- The answers to some inputs. -/
def outputs (f : S → I → S × O) (s : S) : List I → List O
  | [] => []
  | i :: is => (f s i).2 :: outputs f (f s i).1 is

variable {f : S → I → S × O} {g : T → I → T × O} {s : S} {t : T}

@[simp] lemma after_nil : after f s [] = s := rfl
@[simp] lemma after_cons (i : I) (is : List I) : after f s (i :: is) = after f (f s i).1 is := rfl

lemma after_append (s : S) (is js : List I) :
    after f s (is ++ js) = after f (after f s is) js := by
  induction is generalizing s with
  | nil => rfl
  | cons i is ih => exact ih _

lemma outputs_append (s : S) (is js : List I) :
    outputs f s (is ++ js) = outputs f s is ++ outputs f (after f s is) js := by
  induction is generalizing s with
  | nil => rfl
  | cons i is ih => exact congrArg (_ :: ·) (ih _)

/-- What every input keeps holds after any inputs. -/
theorem after_keeps {K : S → Prop} (hs : K s) (hf : ∀ s i, K s → K (f s i).1) (is : List I) :
    K (after f s is) := by
  induction is generalizing s with
  | nil => exact hs
  | cons i is ih => exact ih (hf s i hs)

/-- Related machines stay related. -/
theorem after_related {R : S → T → Prop} (hst : R s t)
    (hfg : ∀ s t i, R s t → R (f s i).1 (g t i).1) (is : List I) :
    R (after f s is) (after g t is) := by
  induction is generalizing s t with
  | nil => exact hst
  | cons i is ih => exact ih (hfg s t i hst)

lemma mem_outputs {o : O} {is : List I} (h : o ∈ outputs f s is) :
    ∃ pre i, pre ++ [i] <+: is ∧ (f (after f s pre) i).2 = o := by
  induction is generalizing s with
  | nil => cases h
  | cons i is ih =>
    rcases List.mem_cons.mp h with rfl | h
    · exact ⟨[], i, by simp, rfl⟩
    · obtain ⟨pre, j, hpre, ho⟩ := ih h
      exact ⟨i :: pre, j, by simpa using hpre, ho⟩

/-- Two machines answer alike throughout exactly when they do after each part of the inputs. -/
theorem outputs_eq_iff (is : List I) :
    outputs f s is = outputs g t is ↔
      ∀ pre i, pre ++ [i] <+: is → (f (after f s pre) i).2 = (g (after g t pre) i).2 := by
  induction is generalizing s t with
  | nil => simp [outputs]
  | cons i is ih =>
    simp only [outputs, List.cons.injEq, ih]
    constructor
    · rintro ⟨h₀, h⟩ pre j hpre
      cases pre with
      | nil =>
        obtain rfl : j = i := by simpa using hpre
        exact h₀
      | cons k pre =>
        obtain ⟨rfl, hrest⟩ : k = i ∧ pre ++ [j] <+: is := by simpa using hpre
        exact h pre j hrest
    · intro h
      refine ⟨h [] i (by simp), fun pre j hpre => ?_⟩
      exact h (i :: pre) j (by simpa using hpre)

end VoiceHub.Lib.Transducer
