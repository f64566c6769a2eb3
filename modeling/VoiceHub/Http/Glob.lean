import Mathlib

/-!
Patterns of allowed origins, with stars and question marks.

The matcher goes back to the last star only. What stands between two stars has as many slashes
wherever it matches, so the first place where it does is as good as any later one: the run of
the second star would begin with the bytes in between, and none of them is a slash.
-/

namespace VoiceHub.Http.Glob

abbrev STAR : UInt8 := 0x2A
abbrev ANY : UInt8 := 0x3F
abbrev SLASH : UInt8 := 0x2F

/-- `p[pi] == b'?' && s[si] != b'/' || p[pi] == s[si] && p[pi] != b'*'`. -/
def Fits (c b : UInt8) : Prop := c = ANY ∧ b ≠ SLASH ∨ c = b ∧ c ≠ STAR

instance (c b : UInt8) : Decidable (Fits c b) := inferInstanceAs (Decidable (_ ∨ _))

/-- The loop. `p` and `s` are what is left of the two strings, from `pi` and from `si` on, and
`star` has what they were after the last star: `p` from `sp + 1` on and `s` from `ss` on. -/
def globLoop (p s : List UInt8) (star : Option (List UInt8 × List UInt8))
    (hstar : ∀ x ∈ star, s.length ≤ x.2.length) : Bool :=
  match s with
  | [] => (p.dropWhile (· = STAR)).isEmpty
  | b :: rest =>
    if hfits : ∃ c ∈ p.head?, Fits c b then
      globLoop p.tail rest star fun x hx => (Nat.le_succ _).trans (hstar x hx)
    else if hnew : p.head? = some STAR then
      globLoop p.tail (b :: rest) (some (p.tail, b :: rest)) (by simp)
    else
      match star with
      | some (q, d :: t) => if d = SLASH then false else globLoop q t (some (q, t)) (by simp)
      | _ => false
termination_by (star.elim (s.length + 1) fun x => x.2.length, p.length)
decreasing_by
  · obtain ⟨c, hc, -⟩ := hfits
    obtain ⟨p', rfl⟩ := List.head?_eq_some_iff.mp hc
    cases star with
    | none => exact .left _ _ (Nat.lt_succ_self _)
    | some x => exact .right _ (Nat.lt_succ_self _)
  · obtain ⟨p', rfl⟩ := List.head?_eq_some_iff.mp hnew
    cases star with
    | none => exact .left _ _ (Nat.lt_succ_self _)
    | some x =>
      rcases (hstar x rfl).lt_or_eq with hlt | heq
      · exact .left _ _ hlt
      · exact Prod.lex_def.mpr (.inr ⟨heq, Nat.lt_succ_self _⟩)
  · exact .left _ _ (Nat.lt_succ_self _)

/-- `glob_match`, a subset of `path.Match`. -/
def globMatch (pat s : List UInt8) : Bool := globLoop pat s none (by simp)

/-! ### What a pattern matches -/

/-- A star is any run of bytes but slashes, a question mark one byte but a slash, and any other
byte is itself. -/
inductive Matches : List UInt8 → List UInt8 → Prop
  | nil : Matches [] []
  | star {p s : List UInt8} (run : List UInt8) (hrun : SLASH ∉ run) (h : Matches p s) :
    Matches (STAR :: p) (run ++ s)
  | any {b : UInt8} {p s : List UInt8} (hb : b ≠ SLASH) (h : Matches p s) :
    Matches (ANY :: p) (b :: s)
  | byte {c : UInt8} {p s : List UInt8} (hstar : c ≠ STAR) (hany : c ≠ ANY) (h : Matches p s) :
    Matches (c :: p) (c :: s)

variable {b c d : UInt8} {p q s t A T U : List UInt8}

lemma Fits.ne_star (h : Fits c b) : c ≠ STAR := by
  rcases h with ⟨rfl, -⟩ | ⟨-, h⟩
  · decide
  · exact h

lemma Fits.matches_cons (hfits : Fits c b) (h : Matches p s) : Matches (c :: p) (b :: s) := by
  by_cases hany : c = ANY
  · subst hany
    rcases hfits with ⟨-, hb⟩ | ⟨rfl, -⟩
    · exact .any hb h
    · exact .any (by decide) h
  · rcases hfits with ⟨h', -⟩ | ⟨rfl, hstar⟩
    · exact absurd h' hany
    · exact .byte hstar hany h

lemma Matches.uncons (h : Matches (c :: p) t) (hc : c ≠ STAR) :
    ∃ b s, t = b :: s ∧ Fits c b ∧ Matches p s := by
  cases h with
  | star run hrun h => exact absurd rfl hc
  | any hb h => exact ⟨_, _, rfl, .inl ⟨rfl, hb⟩, h⟩
  | byte hstar hany h => exact ⟨_, _, rfl, .inr ⟨rfl, hstar⟩, h⟩

lemma Matches.of_star (h : Matches (STAR :: p) t) :
    ∃ run s, t = run ++ s ∧ SLASH ∉ run ∧ Matches p s := by
  cases h with
  | star run hrun h => exact ⟨run, _, rfl, hrun, h⟩
  | byte hstar hany h => exact absurd rfl hstar

lemma matches_cons_iff (hfits : Fits c b) : Matches (c :: p) (b :: s) ↔ Matches p s := by
  refine ⟨fun h => ?_, hfits.matches_cons⟩
  obtain ⟨b', s', heq, -, h'⟩ := h.uncons hfits.ne_star
  cases heq
  exact h'

lemma matches_append_iff (hfits : List.Forall₂ Fits A T) :
    Matches (A ++ p) (T ++ s) ↔ Matches p s := by
  induction hfits with
  | nil => rfl
  | cons hc _ ih => exact (matches_cons_iff hc).trans ih

lemma Matches.of_append (hA : STAR ∉ A) (h : Matches (A ++ p) t) :
    ∃ T s, t = T ++ s ∧ List.Forall₂ Fits A T ∧ Matches p s := by
  induction A generalizing t with
  | nil => exact ⟨[], t, rfl, .nil, h⟩
  | cons c A ih =>
    obtain ⟨hc, hA⟩ := not_or.mp (List.mem_cons.not.mp hA)
    obtain ⟨b, t', rfl, hfits, h'⟩ := h.uncons (Ne.symm hc)
    obtain ⟨T, s, rfl, hT, hs⟩ := ih hA h'
    exact ⟨b :: T, s, rfl, .cons hfits hT, hs⟩

lemma star_not_mem (hfits : List.Forall₂ Fits A T) : STAR ∉ A := by
  induction hfits with
  | nil => exact List.not_mem_nil
  | cons hc _ ih => exact fun h => (List.mem_cons.mp h).elim (Ne.symm hc.ne_star) ih

lemma fits_slash (hfits : Fits c b) : b = SLASH ↔ c = SLASH := by
  rcases hfits with ⟨rfl, hb⟩ | ⟨rfl, -⟩
  · exact iff_of_false hb (by decide)
  · rfl

/-- **The slashes of a part.** Wherever it matches, it matches as many. -/
lemma count_slash (hfits : List.Forall₂ Fits A T) : T.count SLASH = A.count SLASH := by
  induction hfits with
  | nil => rfl
  | cons hc _ ih =>
    rw [List.count_cons, List.count_cons, ih]
    simp only [beq_iff_eq, fits_slash hc]

lemma matches_nil_iff : Matches p [] ↔ p.dropWhile (· = STAR) = [] := by
  constructor
  · intro h
    generalize hs : ([] : List UInt8) = s at h
    induction h with
    | nil => rfl
    | star run hrun h ih =>
      rw [List.dropWhile_cons_of_pos (by simp)]
      obtain ⟨rfl, rfl⟩ := List.append_eq_nil_iff.mp hs.symm
      exact ih rfl
    | any hb h => cases hs
    | byte hstar hany h => cases hs
  · intro h
    induction p with
    | nil => exact .nil
    | cons c p ih =>
      by_cases hc : c = STAR
      · subst hc
        rw [List.dropWhile_cons_of_pos (by simp)] at h
        exact .star [] List.not_mem_nil (ih h)
      · rw [List.dropWhile_cons_of_neg (by simpa using hc)] at h
        cases h

/-- **The last star is enough.** Where a part was matched at the first place possible and a star
follows, whatever matches does so with the part at that place. -/
lemma later_star (hfits : List.Forall₂ Fits A T) :
    Matches (STAR :: (A ++ STAR :: p)) (T ++ s) ↔ Matches (STAR :: p) s := by
  constructor
  · intro h
    obtain ⟨run, t, heq, hrun, hpart⟩ := h.of_star
    obtain ⟨T', t', rfl, hT', hlater⟩ := hpart.of_append (star_not_mem hfits)
    obtain ⟨run', s', rfl, hrun', hrest⟩ := hlater.of_star
    rw [← List.append_assoc] at heq
    -- what lies between the two places at which the part matches
    have hlen : T.length ≤ (run ++ T').length := by
      rw [List.length_append, ← hfits.length_eq, ← hT'.length_eq]
      exact Nat.le_add_left _ _
    obtain ⟨U, hU⟩ := List.prefix_of_prefix_length_le (List.prefix_append T s)
      (heq ▸ List.prefix_append (run ++ T') (run' ++ s')) hlen
    have hcount : U.count SLASH = 0 := by
      have hsum := congrArg (List.count SLASH) hU
      rw [List.count_append, List.count_append, count_slash hfits, count_slash hT',
        List.count_eq_zero_of_not_mem hrun] at hsum
      omega
    have hs : s = (U ++ run') ++ s' := by
      rw [← hU, List.append_assoc] at heq
      rw [List.append_cancel_left heq, List.append_assoc]
    rw [hs]
    refine .star _ (fun hmem => ?_) hrest
    rcases List.mem_append.mp hmem with hmem | hmem
    · exact List.count_eq_zero.mp hcount hmem
    · exact hrun' hmem
  · intro h
    exact .star [] List.not_mem_nil ((matches_append_iff hfits).mpr h)

lemma longer_run (hno : ¬ Matches q (d :: t)) :
    Matches (STAR :: q) (d :: t) ↔ d ≠ SLASH ∧ Matches (STAR :: q) t := by
  constructor
  · intro h
    obtain ⟨run, s, heq, hrun, hrest⟩ := h.of_star
    cases run with
    | nil =>
      rw [List.nil_append] at heq
      exact absurd (heq ▸ hrest) hno
    | cons e run =>
      obtain ⟨rfl, rfl⟩ := List.cons.inj heq
      obtain ⟨hd, hrun⟩ := not_or.mp (List.mem_cons.not.mp hrun)
      exact ⟨Ne.symm hd, .star run hrun hrest⟩
  · rintro ⟨hd, h⟩
    obtain ⟨run, s, rfl, hrun, hrest⟩ := h.of_star
    exact .star (d :: run) (fun hmem => (List.mem_cons.mp hmem).elim (Ne.symm hd) hrun) hrest

lemma short_rest (hfits : List.Forall₂ Fits A T) :
    Matches (STAR :: (A ++ p)) T ↔ Matches p [] := by
  constructor
  · intro h
    obtain ⟨run, t, heq, -, hpart⟩ := h.of_star
    obtain ⟨T', s, rfl, hT', hrest⟩ := hpart.of_append (star_not_mem hfits)
    have hlen := congrArg List.length heq
    rw [List.length_append, List.length_append, ← hfits.length_eq, ← hT'.length_eq] at hlen
    have hs : s = [] := List.length_eq_zero_iff.mp (by omega)
    exact hs ▸ hrest
  · intro h
    have hpart := (matches_append_iff (s := []) hfits).mpr h
    rw [List.append_nil] at hpart
    exact .star [] List.not_mem_nil hpart

/-! ### The loop -/

/-- What the loop looks for: a match from the last star on. -/
def Sought (p s : List UInt8) : Option (List UInt8 × List UInt8) → Prop
  | none => Matches p s
  | some (q, t) => Matches (STAR :: q) t

/-- What was read since the last star fits the pattern there. -/
def Fitting (p s : List UInt8) (star : Option (List UInt8 × List UInt8)) : Prop :=
  ∀ q t, star = some (q, t) → ∃ A T, q = A ++ p ∧ t = T ++ s ∧ List.Forall₂ Fits A T

variable {rest : List UInt8} {star : Option (List UInt8 × List UInt8)}

lemma Fitting.self : Fitting p s (some (p, s)) := by
  rintro q t ⟨⟩
  exact ⟨[], [], rfl, rfl, .nil⟩

lemma Fitting.cons (h : Fitting (c :: p) (b :: s) star) (hfits : Fits c b) :
    Fitting p s star := by
  intro q t hstar
  obtain ⟨A, T, rfl, rfl, hA⟩ := h q t hstar
  exact ⟨A ++ [c], T ++ [b], by simp, by simp, List.rel_append hA (.cons hfits .nil)⟩

lemma sought_cons (hfits : Fits c b) : Sought (c :: p) (b :: s) star ↔ Sought p s star := by
  cases star with
  | none => exact matches_cons_iff hfits
  | some x => rfl

lemma sought_star (h : Fitting (STAR :: p) s star) :
    Sought (STAR :: p) s star ↔ Matches (STAR :: p) s := by
  cases star with
  | none => rfl
  | some x =>
    obtain ⟨A, T, hq, ht, hA⟩ := h x.1 x.2 rfl
    rw [Sought, hq, ht]
    exact later_star hA

lemma not_matches (hfits : ¬ ∃ c ∈ p.head?, Fits c b) (hnew : p.head? ≠ some STAR) :
    ¬ Matches p (b :: s) := by
  intro h
  cases p with
  | nil => cases h
  | cons c p =>
    obtain ⟨b', s', heq, hc, -⟩ := h.uncons fun heq => hnew (congrArg some heq)
    cases heq
    exact hfits ⟨c, rfl, hc⟩

/-- **What the loop finds.** -/
lemma globLoop_iff (p s : List UInt8) (star : Option (List UInt8 × List UInt8))
    (hstar : ∀ x ∈ star, s.length ≤ x.2.length) (h : Fitting p s star) :
    globLoop p s star hstar = true ↔ Sought p s star := by
  fun_induction globLoop p s star hstar with
  | case1 p star hstar =>
    rw [List.isEmpty_iff, ← matches_nil_iff]
    cases star with
    | none => rfl
    | some x =>
      obtain ⟨A, T, hq, ht, hA⟩ := h x.1 x.2 rfl
      rw [Sought, hq, ht, List.append_nil]
      exact (short_rest hA).symm
  | case2 p star b rest hstar hfits hstar' ih =>
    obtain ⟨c, hc, hfits⟩ := hfits
    obtain ⟨p', rfl⟩ := List.head?_eq_some_iff.mp hc
    exact (ih (h.cons hfits)).trans (sought_cons hfits).symm
  | case3 p star b rest hstar hfits hnew hstar' ih =>
    obtain ⟨p', rfl⟩ := List.head?_eq_some_iff.mp hnew
    exact (ih .self).trans (sought_star h).symm
  | case4 p b rest hfits hnew q t hstar hstar' =>
    obtain ⟨A, T, rfl, ht, hA⟩ := h q _ rfl
    have hno : ¬ Matches (A ++ p) (SLASH :: t) := by
      rw [ht, matches_append_iff hA]
      exact not_matches hfits hnew
    exact iff_of_false Bool.false_ne_true fun hm => ((longer_run hno).mp hm).1 rfl
  | case5 p b rest hfits hnew q d t hstar hd hstar' ih =>
    obtain ⟨A, T, rfl, ht, hA⟩ := h q _ rfl
    have hno : ¬ Matches (A ++ p) (d :: t) := by
      rw [ht, matches_append_iff hA]
      exact not_matches hfits hnew
    rw [ih .self, Sought, Sought, longer_run hno]
    exact (and_iff_right hd).symm
  | case6 p star b rest hfits hnew hstar hnone =>
    cases star with
    | none => exact iff_of_false Bool.false_ne_true (not_matches hfits hnew)
    | some x =>
      obtain ⟨q, t⟩ := x
      cases t with
      | nil => exact absurd (hstar _ rfl) (by simp)
      | cons d t => exact (hnone q d t hstar rfl .rfl).elim

/-- **`glob_match` is what patterns mean.** -/
theorem globMatch_iff (pat s : List UInt8) : globMatch pat s = true ↔ Matches pat s :=
  globLoop_iff pat s none (by simp) fun _ _ h => by cases h

end VoiceHub.Http.Glob
