import Mathlib

/-!
Readers that take some input off what is left and return a value.

`Reads rest m xs a` says that `m` takes exactly `xs` and returns `a`, whatever comes after;
`rest` is what a state of the reader has left. Readers in sequence read the inputs in
sequence, and so do readers that are repeated.
-/

namespace VoiceHub.Lib.Reader

variable {σ ε α β γ B : Type} (rest : σ → List B)

/-- `m` takes `xs` and returns `a`. -/
def Reads (m : StateT σ (Except ε) α) (xs : List B) (a : α) : Prop :=
  ∀ s tail, rest s = xs ++ tail → ∃ s', m s = .ok (a, s') ∧ rest s' = tail

/-- Runs a reader `n` times. -/
def times (m : StateT σ (Except ε) α) : ℕ → StateT σ (Except ε) (List α)
  | 0 => pure []
  | n + 1 => do
    let a ← m
    let as ← times m n
    pure (a :: as)

/-- Runs a reader if its part is there. Without it, nothing is taken and the value is `a`. -/
def optionally (present : Bool) (m : StateT σ (Except ε) α) (a : α) : StateT σ (Except ε) α :=
  if present then m else pure a

variable {rest} {m : StateT σ (Except ε) α} {xs ys : List B} {a : α} {b : β}

theorem Reads.pure (a : α) : Reads rest (Pure.pure a : StateT σ (Except ε) α) [] a :=
  fun s _ h => ⟨s, rfl, h⟩

/-- **Readers in sequence.** -/
theorem Reads.bind {f : α → StateT σ (Except ε) β} (hm : Reads rest m xs a)
    (hf : Reads rest (f a) ys b) : Reads rest (m >>= f) (xs ++ ys) b := by
  intro s tail h
  rw [List.append_assoc] at h
  obtain ⟨s₁, hm', h₁⟩ := hm s _ h
  obtain ⟨s₂, hf', h₂⟩ := hf s₁ tail h₁
  refine ⟨s₂, ?_, h₂⟩
  have hrun : (m >>= f) s = (m s).bind fun p => f p.1 p.2 := rfl
  rw [hrun, hm']
  exact hf'

/-- A reader whose value is mapped. -/
theorem Reads.map {f : α → β} (hm : Reads rest m xs a) : Reads rest (f <$> m) xs (f a) := by
  intro s tail h
  obtain ⟨s', hm', h'⟩ := hm s tail h
  refine ⟨s', ?_, h'⟩
  have hrun : (f <$> m) s = (m s).map fun p => (f p.1, p.2) := rfl
  rw [hrun, hm']
  rfl

/-- The last reader of a sequence. -/
theorem Reads.bind_pure {f : α → β} (hm : Reads rest m xs a) :
    Reads rest (m >>= fun a => Pure.pure (f a)) xs (f a) := by
  have h : Reads rest (m >>= fun a => Pure.pure (f a)) (xs ++ []) (f a) :=
    hm.bind (Reads.pure (f a))
  rwa [List.append_nil] at h

/-- **A repeated reader** reads the inputs of as many values, one after the other. -/
theorem Reads.times {cs : List γ} {f : γ → α} {enc : γ → List B}
    (h : ∀ c ∈ cs, Reads rest m (enc c) (f c)) :
    Reads rest (times m cs.length) (cs.flatMap enc) (cs.map f) := by
  induction cs with
  | nil => exact Reads.pure []
  | cons c cs ih =>
    have hc := h c (List.mem_cons_self ..)
    have hcs := ih fun c hc => h c (List.mem_cons_of_mem _ hc)
    exact hc.bind hcs.bind_pure

/-- A part that is there or not. -/
theorem Reads.optionally {part : Option γ} {f : γ → α} {enc : γ → List B}
    (h : ∀ c ∈ part, Reads rest m (enc c) (f c)) (a : α) :
    Reads rest (optionally part.isSome m a) (part.elim [] enc) (part.elim a f) := by
  cases part with
  | none => exact Reads.pure a
  | some c => exact h c rfl

/-- A reader for each value of a list. -/
theorem Reads.mapM {cs : List γ} {g : γ → β} {r : β → StateT σ (Except ε) α} {f : γ → α}
    {enc : γ → List B} (h : ∀ c ∈ cs, Reads rest (r (g c)) (enc c) (f c)) :
    Reads rest ((cs.map g).mapM r) (cs.flatMap enc) (cs.map f) := by
  induction cs with
  | nil => exact Reads.pure []
  | cons c cs ih =>
    have hc := h c (List.mem_cons_self ..)
    have hcs := ih fun c hc => h c (List.mem_cons_of_mem _ hc)
    rw [List.map_cons, List.mapM_cons]
    exact hc.bind hcs.bind_pure

end VoiceHub.Lib.Reader
