import Mathlib
import VoiceHub.Lib.Machine

/-!
Operations that take and release locks, and when they can never block one another for good.

An operation is a list of instructions. A lock is taken exclusively, or shared with others
that share it. If every operation that waits holds only locks of a lower rank than the one it
waits for, no set of operations can be waiting among themselves.
-/

namespace VoiceHub.Lib.Locks

variable {O L : Type}

inductive Mode
  | shared
  | exclusive
  deriving DecidableEq

inductive Instr (L : Type)
  | acquire (l : L) (m : Mode)
  | release (l : L)
  deriving DecidableEq

/-- An operation under way: the locks it holds, and what is left of it. -/
structure Thread (O L : Type) where
  op : O
  held : List (L × Mode)
  todo : List (Instr L)
  deriving DecidableEq

/-- Some hold of a lock is in the way of taking it. -/
def Mode.conflicts : Mode → Mode → Bool
  | .shared, .shared => false
  | _, _ => true

def Instr.apply [DecidableEq L] (held : List (L × Mode)) : Instr L → List (L × Mode)
  | .acquire l m => (l, m) :: held
  | .release l => held.filter fun x => x.1 ≠ l

abbrev Config (O L : Type) := List (Thread O L)

inductive Label (O : Type)
  /-- an operation begins -/
  | start (op : O)
  | run (i : ℕ)
  deriving DecidableEq

section Step

variable [DecidableEq L] (prog : O → List (Instr L))

/-- Nobody's hold is in the way. -/
def Config.grants (cfg : Config O L) : Instr L → Bool
  | .acquire l m => cfg.all fun t => t.held.all fun x => !(decide (x.1 = l) && m.conflicts x.2)
  | .release _ => true

def step (cfg : Config O L) : Label O → Option (Config O L)
  | .start op => some (cfg ++ [⟨op, [], prog op⟩])
  | .run i =>
    match cfg[i]? with
    | some ⟨op, held, instr :: todo⟩ =>
      if cfg.grants instr then some (cfg.set i ⟨op, instr.apply held, todo⟩) else none
    | _ => none

end Step

/-! ### Waiting for one another -/

/-- What the operation does next is to take this lock. -/
def Thread.Wants (t : Thread O L) (l : L) (m : Mode) : Prop := t.todo.head? = some (.acquire l m)

instance [DecidableEq L] (t : Thread O L) (l : L) (m : Mode) : Decidable (t.Wants l m) :=
  inferInstanceAs (Decidable (_ = _))

/-- It wants a lock that the other one holds. -/
def Thread.WaitsFor (t u : Thread O L) : Prop :=
  ∃ l m, t.Wants l m ∧ ∃ m', (l, m') ∈ u.held ∧ m.conflicts m'

/-- Some unfinished operations each wait for another of them. -/
def Deadlock (cfg : Config O L) : Prop :=
  ∃ S : Finset ℕ, S.Nonempty ∧ ∀ i ∈ S, ∃ j ∈ S, j ≠ i ∧
    ∃ t u, cfg[i]? = some t ∧ cfg[j]? = some u ∧ t.WaitsFor u

/-- **Lock ranking**: if whoever waits holds only locks of a lower rank than the one it waits
for, there is no deadlock. -/
theorem not_deadlock_of_rank {cfg : Config O L} (rank : L → ℕ)
    (h : ∀ t ∈ cfg, ∀ l m, t.Wants l m → ∀ x ∈ t.held, rank x.1 < rank l) : ¬ Deadlock cfg := by
  rintro ⟨S, hne, hS⟩
  have hwants : ∀ i ∈ S, ∃ l, ∃ t m, cfg[i]? = some t ∧ t.Wants l m := fun i hi => by
    obtain ⟨j, -, -, t, u, ht, -, l, m, hw, -⟩ := hS i hi
    exact ⟨l, t, m, ht, hw⟩
  choose l hl using hwants
  -- look at one that wants a lock of the highest rank
  obtain ⟨⟨i, hi⟩, -, hmax⟩ :=
    Finset.exists_max_image S.attach (fun i => rank (l i.1 i.2)) hne.attach
  obtain ⟨j, hj, -, t, u, ht, hu, k, m, hw, m', hheld, -⟩ := hS i hi
  obtain ⟨t', n, ht', hw'⟩ := hl i hi
  obtain ⟨u', n', hu', hwu⟩ := hl j hj
  obtain rfl : t' = t := Option.some.inj (ht'.symm.trans ht)
  obtain rfl : u' = u := Option.some.inj (hu'.symm.trans hu)
  obtain rfl : l i hi = k := (Instr.acquire.inj (Option.some.inj (hw'.symm.trans hw))).1
  have hlt : rank (l i hi) < rank (l j hj) :=
    h u' (List.mem_of_getElem? hu) _ _ hwu _ hheld
  exact absurd (hmax ⟨j, hj⟩ (Finset.mem_attach S _)) (not_le.mpr hlt)

/-! ### What holds along a program -/

variable [DecidableEq L] {prog : O → List (Instr L)}

/-- A property of every instruction of a program, of the locks held before it, and of the
instruction that follows. -/
def Along (P : List (L × Mode) → Instr L → Option (Instr L) → Prop) :
    List (L × Mode) → List (Instr L) → Prop
  | _, [] => True
  | held, instr :: rest => P held instr rest.head? ∧ Along P (instr.apply held) rest

lemma Along.brief {P : List (L × Mode) → Instr L → Option (Instr L) → Prop}
    {held : List (L × Mode)} {l : L} {m : Mode} {rest : List (Instr L)}
    (hheld : ∀ x ∈ held, x.1 ≠ l) (ha : P held (.acquire l m) (some (.release l)))
    (hr : P ((l, m) :: held) (.release l) rest.head?) (h : Along P held rest) :
    Along P held (.acquire l m :: .release l :: rest) := by
  refine ⟨ha, hr, ?_⟩
  have hsame : (Instr.release l).apply ((l, m) :: held) = held := by
    rw [Instr.apply, List.filter_cons_of_neg (by simp)]
    exact List.filter_eq_self.mpr fun x hx => decide_eq_true (hheld x hx)
  rw [Instr.apply, hsame]
  exact h

lemma step_cases {cfg cfg' : Config O L} {lab : Label O} (h : step prog cfg lab = some cfg') :
    (∃ op, lab = .start op ∧ cfg' = cfg ++ [⟨op, [], prog op⟩]) ∨
    ∃ i op held instr todo, lab = .run i ∧ cfg[i]? = some ⟨op, held, instr :: todo⟩ ∧
      cfg.grants instr = true ∧ cfg' = cfg.set i ⟨op, instr.apply held, todo⟩ := by
  cases lab with
  | start op => exact .inl ⟨op, rfl, (Option.some.inj h).symm⟩
  | run i =>
    right
    simp only [step] at h
    split at h
    · next op held instr todo hi =>
      split_ifs at h with hg
      exact ⟨i, op, held, instr, todo, rfl, hi, hg, (Option.some.inj h).symm⟩
    · cases h

/-- What holds along every program holds along what is left of every operation of a run. -/
theorem along_of_reach {G : Config O L → Label O → Prop} {cfg : Config O L}
    {P : O → List (L × Mode) → Instr L → Option (Instr L) → Prop}
    (hp : ∀ op, Along (P op) [] (prog op)) (hr : Machine.Reach (step prog) G [] cfg) :
    ∀ t ∈ cfg, Along (P t.op) t.held t.todo := by
  refine hr.invariant (I := fun cfg => ∀ t ∈ cfg, Along (P t.op) t.held t.todo)
    (fun t ht => (by cases ht)) fun cfg lab cfg' hI _ hs t ht => ?_
  rcases step_cases hs with ⟨op, -, rfl⟩ | ⟨i, op, held, instr, todo, -, hi, -, rfl⟩
  · rcases List.mem_append.mp ht with ht | ht
    · exact hI t ht
    · rw [List.mem_singleton.mp ht]
      exact hp op
  · rcases List.mem_or_eq_of_mem_set ht with ht | rfl
    · exact hI t ht
    · exact (hI _ (List.mem_of_getElem? hi)).2

end VoiceHub.Lib.Locks
