import Mathlib

/-!
Threads that interleave over a shared state.

A thread is the list of steps it has still to take. A step may change the shared state,
put further steps at the front of its own thread (what follows depends on what the step
saw) and start new threads. What is pending in a pool is the steps of all its threads, in
no particular order; most invariants are about that collection only.
-/

namespace VoiceHub.Lib

variable {σ ω μ : Type*}

/-- What one step does. -/
structure Outcome (σ μ : Type*) where
  st : σ
  next : List μ
  spawned : List (List μ)

structure Thread (ω μ : Type*) where
  owner : ω
  todo : List μ

structure Pool (σ ω μ : Type*) where
  st : σ
  threads : List (Thread ω μ)

namespace Pool

/-- The steps some thread has still to take. -/
def work (c : Pool σ ω μ) : List μ := c.threads.flatMap Thread.todo

/-- Nothing is half-done. -/
def Quiet (c : Pool σ ω μ) : Prop := c.work = []

instance [DecidableEq μ] (c : Pool σ ω μ) : Decidable c.Quiet :=
  inferInstanceAs (Decidable (c.work = []))

/-- No unfinished thread belongs to `o`. -/
def Free (c : Pool σ ω μ) (o : ω) : Prop := ∀ t ∈ c.threads, t.owner = o → t.todo = []

instance [DecidableEq ω] (c : Pool σ ω μ) (o : ω) : Decidable (c.Free o) :=
  decidable_of_iff (∀ t ∈ c.threads, t.owner = o → t.todo.isEmpty) (by simp [Free])

/-- The `i`-th thread takes its next step, if the step is possible. Threads it starts
belong to `anon`. -/
def advance (exec : μ → σ → Option (Outcome σ μ)) (anon : ω) (c : Pool σ ω μ) (i : ℕ) :
    Option (Pool σ ω μ) :=
  match c.threads[i]? with
  | some ⟨o, m :: rest⟩ =>
    (exec m c.st).map fun r =>
      ⟨r.st, c.threads.set i ⟨o, r.next ++ rest⟩ ++ r.spawned.map (⟨anon, ·⟩)⟩
  | _ => none

/-- A new thread. -/
def launch (c : Pool σ ω μ) (s : σ) (o : ω) (todo : List μ) : Pool σ ω μ :=
  ⟨s, c.threads ++ [⟨o, todo⟩]⟩

/-- The step the `i`-th thread is about to take. -/
def head? (c : Pool σ ω μ) (i : ℕ) : Option μ := c.threads[i]?.bind (·.todo.head?)

variable {exec : μ → σ → Option (Outcome σ μ)} {anon : ω} {c c' : Pool σ ω μ} {i : ℕ}

/-- What an advance does: thread `i` had `m` in front, and `m` did `r`. -/
theorem advance_cases (h : c.advance exec anon i = some c') :
    ∃ pre post o m rest r, c.threads = pre ++ ⟨o, m :: rest⟩ :: post ∧ pre.length = i ∧
      exec m c.st = some r ∧
      c' = ⟨r.st, pre ++ ⟨o, r.next ++ rest⟩ :: post ++ r.spawned.map (⟨anon, ·⟩)⟩ := by
  unfold advance at h
  split at h
  · next o m rest hi =>
    obtain ⟨r, hr, rfl⟩ := Option.map_eq_some_iff.mp h
    obtain ⟨hlt, hget⟩ := List.getElem?_eq_some_iff.mp hi
    have hsplit : c.threads = c.threads.take i ++ ⟨o, m :: rest⟩ :: c.threads.drop (i + 1) := by
      rw [← hget, List.getElem_cons_drop, List.take_append_drop]
    refine ⟨_, _, o, m, rest, r, hsplit, by simp; omega, hr, ?_⟩
    rw [List.set_eq_take_append_cons_drop, if_pos hlt]
  · cases h

/-- The same, for the pending steps: `m` is replaced by what it brought. -/
theorem advance_work (h : c.advance exec anon i = some c') :
    ∃ m r W, c.head? i = some m ∧ exec m c.st = some r ∧ c'.st = r.st ∧
      c.work.Perm (m :: W) ∧ c'.work.Perm (r.next ++ r.spawned.flatten ++ W) := by
  obtain ⟨pre, post, o, m, rest, r, hth, hi, hr, rfl⟩ := advance_cases h
  refine ⟨m, r, pre.flatMap Thread.todo ++ (rest ++ post.flatMap Thread.todo), ?_, hr, rfl, ?_, ?_⟩
  · simp [head?, hth, ← hi]
  · simp only [work, hth, List.flatMap_append, List.flatMap_cons, List.cons_append]
    exact List.perm_middle
  · have hsp : (r.spawned.map fun t => (⟨anon, t⟩ : Thread ω μ)).flatMap Thread.todo
        = r.spawned.flatten := by
      induction r.spawned with
      | nil => rfl
      | cons t ts ih => simp [ih]
    rw [← Multiset.coe_eq_coe]
    simp only [work, List.flatMap_append, List.flatMap_cons, hsp, ← Multiset.coe_add]
    abel

@[simp] theorem work_launch (s : σ) (o : ω) (todo : List μ) :
    (c.launch s o todo).work = c.work ++ todo := by
  simp [launch, work]

@[simp] theorem st_launch (s : σ) (o : ω) (todo : List μ) : (c.launch s o todo).st = s := rfl

/-! ### One step at a time -/

section OneAtATime

variable {ι : Type*}

/-- No two pending steps have one label, and each belongs to the owner of its label. -/
structure OneAtATime (f : μ → Option ι) (owner : ι → ω) (c : Pool σ ω μ) : Prop where
  owned : ∀ t ∈ c.threads, ∀ m ∈ t.todo, ∀ i, f m = some i → t.owner = owner i
  nodup : (c.work.filterMap f).Nodup

variable {f : μ → Option ι} {owner : ι → ω}

lemma OneAtATime.advance (hc : c.OneAtATime f owner) (h : c.advance exec anon i = some c')
    (hnext : ∀ m r, exec m c.st = some r → (r.next.filterMap f).Sublist (f m).toList)
    (hsp : ∀ m r, exec m c.st = some r → ∀ b ∈ r.spawned.flatten, f b = none) :
    c'.OneAtATime f owner where
  owned := by
    obtain ⟨pre, post, o, m, rest, r, hth, -, hr, rfl⟩ := advance_cases h
    intro t ht b hb j hj
    have hold : ∀ t ∈ pre ++ ⟨o, m :: rest⟩ :: post, ∀ b ∈ t.todo, ∀ j, f b = some j →
        t.owner = owner j := hth ▸ hc.owned
    simp only [List.append_assoc, List.mem_append, List.cons_append, List.mem_cons,
      List.mem_map] at ht
    rcases ht with ht | rfl | ht | ⟨todo, htodo, rfl⟩
    · exact hold t (by simp [ht]) b hb j hj
    · rcases List.mem_append.mp hb with hb | hb
      · -- a labelled step comes only from one of the same label
        have hmem : j ∈ r.next.filterMap f := List.mem_filterMap.mpr ⟨b, hb, hj⟩
        have hfm : f m = some j := by simpa using (hnext m r hr).subset hmem
        exact hold ⟨o, m :: rest⟩ (by simp) m (by simp) j hfm
      · exact hold ⟨o, m :: rest⟩ (by simp) b (by simp [hb]) j hj
    · exact hold t (by simp [ht]) b hb j hj
    · have hnone := hsp m r hr b (List.mem_flatten.mpr ⟨todo, htodo, hb⟩)
      rw [hnone] at hj
      cases hj
  nodup := by
    obtain ⟨m, r, W, -, hr, -, hw, hw'⟩ := advance_work h
    have hz : r.spawned.flatten.filterMap f = [] := List.filterMap_eq_nil_iff.mpr (hsp m r hr)
    have hold : ((f m).toList ++ W.filterMap f).Nodup := by
      have := (hw.filterMap f).nodup_iff.mp hc.nodup
      rw [List.filterMap_cons] at this
      rcases hfm : f m with _ | j <;> simpa [hfm] using this
    refine (hw'.filterMap f).nodup_iff.mpr ?_
    rw [List.filterMap_append, List.filterMap_append, hz, List.append_nil]
    exact hold.sublist ((hnext m r hr).append (List.Sublist.refl _))

lemma OneAtATime.launch (hc : c.OneAtATime f owner) {s : σ} {o : ω} {todo : List μ}
    (hfree : ∀ m ∈ todo, ∀ j, f m = some j → o = owner j ∧ c.Free o)
    (hone : (todo.filterMap f).Nodup) : (c.launch s o todo).OneAtATime f owner where
  owned t ht m hm j hj := by
    rcases List.mem_append.mp ht with ht | ht
    · exact hc.owned t ht m hm j hj
    · rw [List.mem_singleton] at ht
      subst ht
      exact (hfree m hm j hj).1
  nodup := by
    rw [work_launch, List.filterMap_append]
    refine hc.nodup.append hone fun j hold hnew => ?_
    -- the new thread's owner had nothing to do, so nothing pending has its label
    obtain ⟨m, hm, hj⟩ := List.mem_filterMap.mp hnew
    obtain ⟨rfl, hf⟩ := hfree m hm j hj
    obtain ⟨b, hb, hbj⟩ := List.mem_filterMap.mp hold
    obtain ⟨t, ht, hbt⟩ := List.mem_flatMap.mp hb
    rw [hf t ht (hc.owned t ht b hbt j hbj)] at hbt
    cases hbt

/-- While a step with a label is taken no other is pending. -/
lemma OneAtATime.sole (hc : c.OneAtATime f owner) {m : μ} {W : List μ} {j : ι}
    (hw : c.work.Perm (m :: W)) (hm : f m = some j) : ∀ b ∈ W, f b ≠ some j := by
  intro b hb hj
  have hnd := (hw.filterMap f).nodup_iff.mp hc.nodup
  rw [List.filterMap_cons_some hm, List.nodup_cons] at hnd
  exact hnd.1 (List.mem_filterMap.mpr ⟨b, hb, hj⟩)

end OneAtATime

end Pool

end VoiceHub.Lib
