import Mathlib

/-!
Keys given to owners, and what is known about each key.

A function that sends every owner to what is known about its key joins the two. It stays
a join when a key is freed, given or learned about, in whatever order these come, as long
as no owner ever has two keys.
-/

namespace VoiceHub.Lib.Join

variable {K P M : Type*}

/-- `f` sends each owner to what `media` has for a key of it. -/
def Joins (owner : K → Option P) (media : K → Option M) (f : P → Option M) : Prop :=
  ∀ p m, f p = some m ↔ ∃ k, owner k = some p ∧ media k = some m

/-- No owner has two keys. -/
def Single (owner : K → Option P) : Prop :=
  ∀ k l p, owner k = some p → owner l = some p → k = l

variable [DecidableEq K] {owner : K → Option P} {media : K → Option M}
variable {f : P → Option M} {k : K} {p : P} {m : M}

lemma Single.free (h : Single owner) (k : K) :
    Single (Function.update owner k none) := by
  intro a b q ha hb
  rcases eq_or_ne a k with rfl | hak
  · simp at ha
  rcases eq_or_ne b k with rfl | hbk
  · simp at hb
  rw [Function.update_of_ne hak] at ha
  rw [Function.update_of_ne hbk] at hb
  exact h a b q ha hb

lemma Single.give (h : Single owner) (k : K) (hp : ∀ l, owner l ≠ some p) :
    Single (Function.update owner k (some p)) := by
  intro a b q ha hb
  by_cases hak : a = k
  · by_cases hbk : b = k
    · rw [hak, hbk]
    · rw [hak, Function.update_self] at ha
      rw [Function.update_of_ne hbk, ← ha] at hb
      exact absurd hb (hp b)
  · rw [Function.update_of_ne hak] at ha
    by_cases hbk : b = k
    · rw [hbk, Function.update_self] at hb
      rw [← hb] at ha
      exact absurd ha (hp a)
    · rw [Function.update_of_ne hbk] at hb
      exact h a b q ha hb

section Owner

variable [DecidableEq P]

lemma Joins.free (h : Joins owner media f) (hs : Single owner) (hk : owner k = some p) :
    Joins (Function.update owner k none) media (Function.update f p none) := by
  intro q n
  rcases eq_or_ne q p with rfl | hq
  · rw [Function.update_self]
    refine ⟨nofun, ?_⟩
    rintro ⟨l, hl, -⟩
    rcases eq_or_ne l k with rfl | hlk
    · simp at hl
    · rw [Function.update_of_ne hlk] at hl
      exact absurd (hs l k q hl hk) hlk
  · rw [Function.update_of_ne hq, h q n]
    refine exists_congr fun l => and_congr_left fun _ => ?_
    rcases eq_or_ne l k with rfl | hlk
    · simp [hk, Ne.symm hq]
    · rw [Function.update_of_ne hlk]

lemma Joins.give (h : Joins owner media f) (hk : owner k = none)
    (hp : ∀ l, owner l ≠ some p) (hm : media k = some m) :
    Joins (Function.update owner k (some p)) media (Function.update f p (some m)) := by
  intro q n
  rcases eq_or_ne q p with rfl | hq
  · rw [Function.update_self, Option.some.injEq]
    constructor
    · rintro rfl
      exact ⟨k, Function.update_self .., hm⟩
    · rintro ⟨l, hl, hn⟩
      rcases eq_or_ne l k with rfl | hlk
      · exact Option.some.inj (hm.symm.trans hn)
      · rw [Function.update_of_ne hlk] at hl
        exact absurd hl (hp l)
  · rw [Function.update_of_ne hq, h q n]
    refine exists_congr fun l => and_congr_left fun _ => ?_
    rcases eq_or_ne l k with rfl | hlk
    · simp [hk, Ne.symm hq]
    · rw [Function.update_of_ne hlk]

lemma Joins.learn (h : Joins owner media f) (hs : Single owner) (hk : owner k = some p) :
    Joins owner (Function.update media k (some m)) (Function.update f p (some m)) := by
  intro q n
  rcases eq_or_ne q p with rfl | hq
  · rw [Function.update_self, Option.some.injEq]
    constructor
    · rintro rfl
      exact ⟨k, hk, Function.update_self ..⟩
    · rintro ⟨l, hl, hn⟩
      rw [hs l k q hl hk, Function.update_self] at hn
      exact Option.some.inj hn
  · rw [Function.update_of_ne hq, h q n]
    refine exists_congr fun l => and_congr_right fun hl => ?_
    have hlk : l ≠ k := fun hlk => hq (Option.some.inj (hl.symm.trans (hlk ▸ hk)))
    rw [Function.update_of_ne hlk]

end Owner

lemma Joins.give_unknown (h : Joins owner media f) (hk : owner k = none)
    (hm : media k = none) : Joins (Function.update owner k (some p)) media f := by
  intro q n
  rw [h q n]
  refine exists_congr fun l => ?_
  rcases eq_or_ne l k with rfl | hlk
  · simp [hk, hm]
  · rw [Function.update_of_ne hlk]

lemma Joins.learn_unowned (h : Joins owner media f) (hk : owner k = none) :
    Joins owner (Function.update media k (some m)) f := by
  intro q n
  rw [h q n]
  refine exists_congr fun l => and_congr_right fun hl => ?_
  have hlk : l ≠ k := by
    rintro rfl
    rw [hk] at hl
    cases hl
  rw [Function.update_of_ne hlk]

end VoiceHub.Lib.Join
