import Mathlib
import VoiceHub.Lib.Reader

/-!
Arithmetic on machine words and access to arrays that may panic.

A checked program fails with the errors of its own, and it stops where an operation panics or
where its loops have no turns left. `Agrees` relates it to a program on natural numbers that
has no such operations: where they agree, the checked one does neither.
-/

namespace VoiceHub.Lib.Checked

/-- Why a checked program gives no value. -/
inductive Stop (ε : Type)
  /-- An index out of range or an arithmetic overflow. -/
  | panic
  /-- A loop that goes on. -/
  | spins
  | err (e : ε)
deriving DecidableEq, Repr

variable {ε α β σ : Type}

section Operations

variable {w a b n i : ℕ}

/-- `a + b`, of `w` bits. -/
def add (w a b : ℕ) : Except (Stop ε) ℕ := if a + b < 2 ^ w then .ok (a + b) else .error .panic

def sub (a b : ℕ) : Except (Stop ε) ℕ := if b ≤ a then .ok (a - b) else .error .panic

def mul (w a b : ℕ) : Except (Stop ε) ℕ := if a * b < 2 ^ w then .ok (a * b) else .error .panic

/-- `a << n`: bits may be lost, but there must be as many. -/
def shl (w a n : ℕ) : Except (Stop ε) ℕ :=
  if n < w then .ok ((a <<< n) % 2 ^ w) else .error .panic

def shr (w a n : ℕ) : Except (Stop ε) ℕ := if n < w then .ok (a >>> n) else .error .panic

/-- `xs[i]`. -/
def index (xs : List α) (i : ℕ) : Except (Stop ε) α :=
  match xs[i]? with
  | some a => .ok a
  | none => .error .panic

/-- An operation, in a program that has a state. -/
def op (x : Except (Stop ε) α) : StateT σ (Except (Stop ε)) α := fun s => x.map fun a => (a, s)

lemma op_ok_bind (a : α) (f : α → StateT σ (Except (Stop ε)) β) : (op (.ok a) >>= f) = f a := rfl

lemma add_ok (h : a + b < 2 ^ w) : (add w a b : Except (Stop ε) ℕ) = .ok (a + b) := if_pos h

lemma sub_ok (h : b ≤ a) : (sub a b : Except (Stop ε) ℕ) = .ok (a - b) := if_pos h

lemma mul_ok (h : a * b < 2 ^ w) : (mul w a b : Except (Stop ε) ℕ) = .ok (a * b) := if_pos h

lemma shl_ok (h : n < w) : (shl w a n : Except (Stop ε) ℕ) = .ok ((a <<< n) % 2 ^ w) := if_pos h

lemma shr_ok (h : n < w) : (shr w a n : Except (Stop ε) ℕ) = .ok (a >>> n) := if_pos h

lemma index_ok {xs : List α} {x : α} (h : xs[i]? = some x) :
    (index xs i : Except (Stop ε) α) = .ok x := by
  rw [index, h]

end Operations

section Agreement

/-- A result of the program without checks, as one of the checked program. -/
def lift : Except ε α → Except (Stop ε) α := Except.mapError .err

@[simp] lemma lift_ok (a : α) : lift (.ok a : Except ε α) = .ok a := rfl

@[simp] lemma lift_error (e : ε) : lift (.error e : Except ε α) = .error (.err e) := rfl

lemma lift_safe (x : Except ε α) : lift x ≠ .error .panic ∧ lift x ≠ .error .spins := by
  cases x <;> simp

/-- From `s` the checked program does what the other one does, and a value and the state after
it are as `Q` says. -/
structure Agrees (mc : StateT σ (Except (Stop ε)) α) (m : StateT σ (Except ε) α) (s : σ)
    (Q : α → σ → Prop) : Prop where
  eq : mc s = lift (m s)
  post : ∀ a s', m s = .ok (a, s') → Q a s'

variable {mc : StateT σ (Except (Stop ε)) α} {m : StateT σ (Except ε) α} {s : σ}
  {Q R : α → σ → Prop}

theorem Agrees.post_checked (h : Agrees mc m s Q) {a : α} {s' : σ} (hrun : mc s = .ok (a, s')) :
    Q a s' := by
  refine h.post a s' ?_
  rw [h.eq] at hrun
  cases hm : m s with
  | ok p =>
    rw [hm] at hrun
    rw [Except.ok.inj hrun]
  | error e =>
    rw [hm] at hrun
    cases hrun

theorem Agrees.imp (h : Agrees mc m s Q) (hQ : ∀ a s', Q a s' → R a s') : Agrees mc m s R :=
  ⟨h.eq, fun a s' hm => hQ a s' (h.post a s' hm)⟩

theorem Agrees.pure {a : α} (h : Q a s) :
    Agrees (Pure.pure a : StateT σ (Except (Stop ε)) α) (Pure.pure a) s Q := by
  refine ⟨rfl, fun b s' hm => ?_⟩
  obtain ⟨rfl, rfl⟩ := Prod.mk.inj (Except.ok.inj hm)
  exact h

theorem Agrees.throw (e : ε) :
    Agrees (throw (.err e) : StateT σ (Except (Stop ε)) α) (throw e) s Q :=
  ⟨rfl, fun _ _ hm => by injection hm⟩

/-- **One program after the other.** -/
theorem Agrees.bind {fc : α → StateT σ (Except (Stop ε)) β} {f : α → StateT σ (Except ε) β}
    {R : β → σ → Prop} (h : Agrees mc m s Q) (hf : ∀ a s', Q a s' → Agrees (fc a) (f a) s' R) :
    Agrees (mc >>= fc) (m >>= f) s R := by
  have hrunc : (mc >>= fc) s = (mc s).bind fun p => fc p.1 p.2 := rfl
  have hrun : (m >>= f) s = (m s).bind fun p => f p.1 p.2 := rfl
  cases hm : m s with
  | error e =>
    refine ⟨?_, fun b s' hb => ?_⟩
    · rw [hrunc, hrun, h.eq, hm]
      rfl
    · rw [hrun, hm] at hb
      cases hb
  | ok p =>
    have hnext := hf p.1 p.2 (h.post p.1 p.2 hm)
    refine ⟨?_, fun b s' hb => hnext.post b s' ?_⟩
    · rw [hrunc, hrun, h.eq, hm]
      exact hnext.eq
    · rw [hrun, hm] at hb
      exact hb

/-- An operation that does not panic. -/
theorem Agrees.op {x : Except (Stop ε) β} {b : β} {fc : β → StateT σ (Except (Stop ε)) α}
    (hx : x = .ok b) (h : Agrees (fc b) m s Q) : Agrees (op x >>= fc) m s Q := by
  rw [hx]
  exact h

theorem Agrees.op_last {x : Except (Stop ε) α} {a : α} (hx : x = .ok a) (h : Q a s) :
    Agrees (Checked.op x) (Pure.pure a) s Q := by
  rw [hx]
  exact .pure h

theorem Agrees.map {f : α → β} (h : Agrees mc m s Q) :
    Agrees (f <$> mc) (f <$> m) s fun b s' => ∃ a, Q a s' ∧ f a = b := by
  rw [map_eq_pure_bind, map_eq_pure_bind]
  exact h.bind fun a s' ha => .pure ⟨a, ha, rfl⟩

theorem Agrees.ite {p : Prop} [Decidable p] {mc' : StateT σ (Except (Stop ε)) α}
    {m' : StateT σ (Except ε) α} (h : p → Agrees mc m s Q) (h' : ¬ p → Agrees mc' m' s Q) :
    Agrees (if p then mc else mc') (if p then m else m') s Q := by
  by_cases hp : p
  · rw [if_pos hp, if_pos hp]
    exact h hp
  · rw [if_neg hp, if_neg hp]
    exact h' hp

/-- A part that is run or not. -/
theorem Agrees.optionally {present : Bool} {a : α} (h : Agrees mc m s Q) (ha : Q a s) :
    Agrees (Reader.optionally present mc a) (Reader.optionally present m a) s Q :=
  .ite (fun _ => h) fun _ => .pure ha

variable {I : σ → Prop} {K : α → Prop}

/-- A repeated program keeps what each of its turns keeps. -/
theorem Agrees.times (h : ∀ s, I s → Agrees mc m s fun a s' => I s' ∧ K a) (n : ℕ) (hs : I s) :
    Agrees (Reader.times mc n) (Reader.times m n) s fun as s' =>
      I s' ∧ as.length = n ∧ ∀ a ∈ as, K a := by
  induction n generalizing s with
  | zero => exact .pure ⟨hs, rfl, by simp⟩
  | succ n ih =>
    refine (h s hs).bind fun a s₁ ⟨hs₁, ha⟩ => (ih hs₁).bind fun as s₂ ⟨hs₂, hlen, has⟩ => ?_
    exact .pure ⟨hs₂, congrArg (· + 1) hlen, List.forall_mem_cons.mpr ⟨ha, has⟩⟩

/-- A program for each value of a list. -/
theorem Agrees.mapM {L : β → Prop} {fc : β → StateT σ (Except (Stop ε)) α}
    {f : β → StateT σ (Except ε) α}
    (h : ∀ b s, L b → I s → Agrees (fc b) (f b) s fun a s' => I s' ∧ K a) {bs : List β}
    (hbs : ∀ b ∈ bs, L b) (hs : I s) :
    Agrees (bs.mapM fc) (bs.mapM f) s fun as s' =>
      I s' ∧ as.length = bs.length ∧ ∀ a ∈ as, K a := by
  induction bs generalizing s with
  | nil => exact .pure ⟨hs, rfl, by simp⟩
  | cons b bs ih =>
    rw [List.mapM_cons, List.mapM_cons]
    have hb := h b s (hbs b List.mem_cons_self) hs
    refine hb.bind fun a s₁ ⟨hs₁, ha⟩ =>
      (ih (fun b hb => hbs b (List.mem_cons_of_mem _ hb)) hs₁).bind
        fun as s₂ ⟨hs₂, hlen, has⟩ => ?_
    exact .pure ⟨hs₂, congrArg (· + 1) hlen, List.forall_mem_cons.mpr ⟨ha, has⟩⟩

end Agreement

end VoiceHub.Lib.Checked
