import Mathlib

/-!
How many of a list of moments lie in an interval.
-/

namespace VoiceHub.Lib.Window

variable {T : Type*} [LinearOrder T]

def within (ts : List T) (a b : T) : ℕ := ts.countP fun t => a ≤ t ∧ t ≤ b

variable {ts : List T} {t a b c : T}

@[simp] lemma within_nil : within [] a b = 0 := rfl

lemma within_append_singleton :
    within (ts ++ [t]) a b = within ts a b + if a ≤ t ∧ t ≤ b then 1 else 0 := by
  rw [within, within, List.countP_append, List.countP_singleton]
  simp only [decide_eq_true_eq]

lemma within_eq_zero (h : ∀ t ∈ ts, t < a) : within ts a b = 0 := by
  refine List.countP_eq_zero.mpr fun t ht => ?_
  simp only [decide_eq_true_eq, not_and]
  exact fun hat => absurd (h t ht) (not_lt.mpr hat)

lemma within_of_le (h : ∀ t ∈ ts, t ≤ b) (hbc : b ≤ c) : within ts a c = within ts a b := by
  refine List.countP_congr fun t ht => ?_
  simp only [decide_eq_true_eq]
  exact and_congr_right fun _ => ⟨fun _ => h t ht, fun hb => hb.trans hbc⟩

end VoiceHub.Lib.Window
