import Mathlib
import VoiceHub.Lib.Locks

/-!
The locks of the UDP mux: two of every peer connection and two of the socket, and the dispatch
lock that a connection's deliveries wait for.

What a branch depends on is left open. A dying connection takes the two `ufrag` locks in one
order and an ICE restart in the other; everything else takes them by rank.
-/

namespace VoiceHub.Sfu.Net

open VoiceHub.Lib
open VoiceHub.Lib.Locks (Instr Mode)

abbrev PcId := ℕ

inductive Lock
  | dispatch (pc : PcId)
  | rtc (pc : PcId)
  | ufrag (pc : PcId)
  | routes
  | ufrags
  deriving DecidableEq

abbrev Code := List (Instr Lock)

/-- A guard that lives while `body` runs. -/
def guarded (l : Lock) (m : Mode) (body : Code) : Code := .acquire l m :: body ++ [.release l]

/-- How `deliver` ends: without a handler, or with the connection alive or found dead. -/
inductive Ending
  | orphaned
  | alive
  | dead
  deriving DecidableEq

namespace Pc

/-- `poll`, under the lock of `rtc`, with this many new destinations. -/
def sends (destinations : ℕ) : Code :=
  (List.replicate destinations (guarded .routes .exclusive [])).flatten

/-- The argument of `remove` is evaluated under the lock of the map. -/
def unregister (pc : PcId) : Code :=
  guarded (.rtc pc) .exclusive [] ++ guarded .routes .exclusive [] ++
    guarded .ufrags .exclusive (guarded (.ufrag pc) .exclusive [])

def deliver (pc : PcId) (events : ℕ) : Ending → Code
  | .orphaned => []
  | .alive => (List.replicate (events + 2) (guarded (.rtc pc) .exclusive [])).flatten
  | .dead => (List.replicate (events + 2) (guarded (.rtc pc) .exclusive [])).flatten ++
      unregister pc

/-- `with`, around `poll` and `deliver`. -/
def drive (pc : PcId) (destinations events : ℕ) (ending : Ending) : Code :=
  guarded (.dispatch pc) .exclusive
    (guarded (.rtc pc) .exclusive (sends destinations) ++ deliver pc events ending)

/-- `changed` is whether the ufrag is another one now. -/
def refreshUfrag (pc : PcId) (changed : Bool) : Code :=
  guarded (.rtc pc) .exclusive [] ++
    guarded (.ufrag pc) .exclusive (if changed then guarded .ufrags .exclusive [] else [])

end Pc

namespace MuxSocket

def learn (pc : PcId) (known : Bool) : Code :=
  guarded .routes .shared [] ++
    if known then [] else guarded .routes .exclusive [] ++ guarded (.rtc pc) .exclusive []

/-- The lookups of `recv_loop`. -/
def byUfrag : Code := guarded .ufrags .shared []

def bySource : Code := guarded .routes .shared []

end MuxSocket

inductive MuxOp
  | drive (pc : PcId) (destinations events : ℕ) (ending : Ending)
  | refreshUfrag (pc : PcId) (changed : Bool)
  | learn (pc : PcId) (known : Bool)
  | byUfrag
  | bySource
  deriving DecidableEq

namespace MuxOp

def code : MuxOp → Code
  | .drive pc destinations events ending => Pc.drive pc destinations events ending
  | .refreshUfrag pc changed => Pc.refreshUfrag pc changed
  | .learn pc known => MuxSocket.learn pc known
  | .byUfrag => MuxSocket.byUfrag
  | .bySource => MuxSocket.bySource

/-- The connection that it finds dead and unregisters. -/
def kills : MuxOp → Option PcId
  | .drive pc _ _ .dead => some pc
  | _ => none

/-- The connection that it gives another ufrag. -/
def restarts : MuxOp → Option PcId
  | .refreshUfrag pc true => some pc
  | _ => none

end MuxOp

abbrev MuxConfig := Locks.Config MuxOp Lock

def muxStep : MuxConfig → Locks.Label MuxOp → Option MuxConfig := Locks.step MuxOp.code

/-- `unregister` takes the map's lock only while no ICE restart of its connection is about to,
and an ICE restart takes the connection's only while no `unregister` of it is about to. -/
def Apart (cfg : MuxConfig) : Locks.Label MuxOp → Prop
  | .start _ => True
  | .run i => ∀ t ∈ cfg[i]?, ∀ u ∈ cfg,
    (∀ pc ∈ t.op.kills, pc ∈ u.op.restarts → t.Wants .ufrags .exclusive →
      ¬ u.Wants .ufrags .exclusive) ∧
    ∀ pc ∈ t.op.restarts, pc ∈ u.op.kills → t.Wants (.ufrag pc) .exclusive →
      ¬ u.Wants (.ufrag pc) .exclusive

instance (cfg : MuxConfig) : ∀ lab, Decidable (Apart cfg lab)
  | .start _ => inferInstanceAs (Decidable True)
  | .run i => by unfold Apart; infer_instance

/-! ### How the operations take their locks -/

/-- The order in which everything takes its locks, but for the end of `unregister`. -/
def Lock.rank : Lock → ℕ
  | .dispatch _ => 0
  | .rtc _ | .ufrag _ => 1
  | .routes | .ufrags => 2

lemma Lock.rank_lt_three (l : Lock) : l.rank < 3 := by
  cases l <;> simp [Lock.rank]

/-- A lock is among those held. -/
def Holds (held : List (Lock × Mode)) (l : Lock) : Prop := ∃ m, (l, m) ∈ held

/-- What every instruction of an operation keeps to. -/
structure Lawful (op : MuxOp) (held : List (Lock × Mode)) (instr : Instr Lock)
    (next : Option (Instr Lock)) : Prop where
  ranked : ∀ l m, instr = .acquire l m →
    (∀ x ∈ held, x.1.rank < l.rank) ∨ ∃ pc, l = .ufrag pc ∧ Holds held .ufrags
  waits : ∀ pc l m, instr = .acquire l m → Holds held (.ufrag pc) →
    pc ∈ op.restarts ∧ l = .ufrags ∧ m = .exclusive
  lasts : ∀ pc m, instr = .acquire (.ufrag pc) m → Holds held .ufrags →
    pc ∈ op.kills ∧ m = .exclusive
  holds : ∀ pc l m, Holds (instr.apply held) (.ufrag pc) → next = some (.acquire l m) →
    pc ∈ op.restarts ∧ instr = .acquire (.ufrag pc) .exclusive
  raises : ∀ pc m, Holds (instr.apply held) .ufrags → next = some (.acquire (.ufrag pc) m) →
    pc ∈ op.kills ∧ instr = .acquire .ufrags .exclusive

/-- None of the two `ufrag` locks. -/
def Lock.plain : Lock → Bool
  | .dispatch _ | .rtc _ | .routes => true
  | _ => false

section Plain

variable {op : MuxOp} {held : List (Lock × Mode)} {l : Lock} {m : Mode}
  {next : Option (Instr Lock)} {rest : Code}

lemma not_holds (h : ∀ x ∈ held, x.1.plain = true) (hl : l.plain = false) : ¬ Holds held l := by
  rintro ⟨m, hm⟩
  have hp := h _ hm
  rw [hl] at hp
  cases hp

lemma plain_apply {instr : Instr Lock} (h : ∀ x ∈ held, x.1.plain = true)
    (hi : ∀ l m, instr = .acquire l m → l.plain = true) :
    ∀ x ∈ instr.apply held, x.1.plain = true := by
  intro x hx
  cases instr with
  | acquire l m =>
    rcases List.mem_cons.mp hx with rfl | hx
    · exact hi l m rfl
    · exact h x hx
  | release l => exact h x (List.mem_of_mem_filter hx)

lemma lawful_plain {instr : Instr Lock} (h : ∀ x ∈ held, x.1.plain = true)
    (hi : ∀ l m, instr = .acquire l m → l.plain = true ∧
      ∀ x ∈ held, x.1.rank < l.rank) : Lawful op held instr next := by
  have happly := plain_apply h fun l m hl => (hi l m hl).1
  exact ⟨fun l m hl => .inl (hi l m hl).2, fun pc l m _ hh => absurd hh (not_holds h rfl),
    fun pc m _ hh => absurd hh (not_holds h rfl),
    fun pc l m hh => absurd hh (not_holds happly rfl),
    fun pc m hh => absurd hh (not_holds happly rfl)⟩

lemma along_brief (h : ∀ x ∈ held, x.1.plain = true)
    (hl : ∀ x ∈ held, x.1.rank < l.rank)
    (hrest : Locks.Along (Lawful op) held rest) :
    Locks.Along (Lawful op) held (guarded l m [] ++ rest) := by
  have hne : ∀ x ∈ held, x.1 ≠ l := fun x hx heq => lt_irrefl _ (heq ▸ hl x hx)
  have hsame : (Instr.release l).apply ((l, m) :: held) = held := by
    rw [Instr.apply, List.filter_cons_of_neg (by simp)]
    exact List.filter_eq_self.mpr fun x hx => decide_eq_true (hne x hx)
  refine Locks.Along.brief hne ?_ ?_ hrest
  · exact ⟨fun k n hk => .inl ((Instr.acquire.inj hk).1 ▸ hl),
      fun pc k n _ hh => absurd hh (not_holds h rfl), fun pc n _ hh => absurd hh (not_holds h rfl),
      fun pc k n _ hn => (by cases hn), fun pc n _ hn => (by cases hn)⟩
  · refine ⟨fun k n hk => (by cases hk), fun pc k n hk => (by cases hk),
      fun pc n hk => (by cases hk), fun pc k n hh => ?_, fun pc n hh => ?_⟩
    · rw [hsame] at hh
      exact absurd hh (not_holds h rfl)
    · rw [hsame] at hh
      exact absurd hh (not_holds h rfl)

lemma along_briefs (h : ∀ x ∈ held, x.1.plain = true)
    (hl : ∀ x ∈ held, x.1.rank < l.rank) (n : ℕ)
    (hrest : Locks.Along (Lawful op) held rest) :
    Locks.Along (Lawful op) held ((List.replicate n (guarded l m [])).flatten ++ rest) := by
  induction n with
  | zero => exact hrest
  | succ n ih =>
    rw [List.replicate_succ, List.flatten_cons, List.append_assoc]
    exact along_brief h hl ih

end Plain

lemma lawful_release {op : MuxOp} {held : List (Lock × Mode)} {l : Lock}
    {next : Option (Instr Lock)} (h : ∀ x ∈ held, x.1.plain = true) :
    Lawful op held (.release l) next :=
  lawful_plain h fun _ _ hl => (by cases hl)

lemma along_unregister {op : MuxOp} {pc : PcId} (hk : pc ∈ op.kills) :
    Locks.Along (Lawful op) [(.dispatch pc, .exclusive)]
      (Pc.unregister pc ++ [.release (.dispatch pc)]) := by
  have hd : ∀ x ∈ [((.dispatch pc : Lock), Mode.exclusive)], x.1.plain = true := by
    simp [Lock.plain]
  unfold Pc.unregister
  rw [List.append_assoc, List.append_assoc]
  refine along_brief hd (by simp [Lock.rank]) (along_brief hd (by simp [Lock.rank]) ?_)
  refine ⟨?_, ?_, ?_, ?_, ?_, trivial⟩
  all_goals constructor <;> simp [guarded, Lock.rank, Holds, Option.mem_def.mp hk, Instr.apply]

lemma along_code (op : MuxOp) : Locks.Along (Lawful op) [] op.code := by
  have hnil : ∀ x ∈ ([] : List (Lock × Mode)), x.1.plain = true := by simp
  cases op with
  | drive pc destinations events ending =>
    have hd : ∀ x ∈ [((.dispatch pc : Lock), Mode.exclusive)], x.1.plain = true := by
      simp [Lock.plain]
    have hr : ∀ x ∈ [((.rtc pc : Lock), Mode.exclusive), (.dispatch pc, .exclusive)],
        x.1.plain = true := by
      simp [Lock.plain]
    have hend : Locks.Along (Lawful (.drive pc destinations events ending))
        [(.dispatch pc, .exclusive)] (Pc.deliver pc events ending ++ [.release (.dispatch pc)]) := by
      have hlast : Locks.Along (Lawful (.drive pc destinations events ending))
          [(.dispatch pc, .exclusive)] [.release (.dispatch pc)] := ⟨lawful_release hd, trivial⟩
      cases ending with
      | orphaned => exact hlast
      | alive => exact along_briefs hd (by simp [Lock.rank]) _ hlast
      | dead =>
        rw [Pc.deliver, List.append_assoc]
        refine along_briefs hd (by simp [Lock.rank]) _ (along_unregister ?_)
        rfl
    simp only [MuxOp.code, Pc.drive, guarded, List.cons_append, List.append_assoc]
    refine ⟨lawful_plain hnil (by simp [Lock.plain]),
      lawful_plain hd (by simp [Lock.plain, Lock.rank, Instr.apply]),
      along_briefs hr (by simp [Lock.rank]) _ ⟨lawful_release hr, ?_⟩⟩
    simpa [Instr.apply] using hend
  | refreshUfrag pc changed =>
    refine along_brief hnil (by simp) ?_
    cases changed
    · refine ⟨?_, ?_, trivial⟩
      all_goals constructor <;> simp [Lock.rank, Holds, Instr.apply]
    · refine ⟨?_, ?_, ?_, ?_, trivial⟩
      all_goals
        constructor <;>
          simp [guarded, Lock.rank, Holds, Instr.apply, MuxOp.restarts]
  | learn pc known =>
    refine along_brief hnil (by simp) ?_
    cases known
    · refine along_brief hnil (by simp) ?_
      rw [← List.append_nil (guarded (.rtc pc) .exclusive [])]
      exact along_brief hnil (by simp) trivial
    · exact trivial
  | byUfrag =>
    refine ⟨?_, ?_, trivial⟩
    all_goals constructor <;> simp [Lock.rank, Holds, Instr.apply]
  | bySource =>
    refine ⟨?_, ?_, trivial⟩
    all_goals constructor <;> simp [Lock.rank, Holds, Instr.apply]

/-! ### No deadlock -/

/-- An `unregister` of the connection has the lock of the map and wants that of the ufrag. -/
def Raised (cfg : MuxConfig) (pc : PcId) : Prop :=
  ∃ t ∈ cfg, Holds t.held .ufrags ∧ ∃ m, t.Wants (.ufrag pc) m

/-- Then nobody who has the ufrag's lock waits. -/
def Unclashed (cfg : MuxConfig) : Prop :=
  ∀ pc, Raised cfg pc → ∀ u ∈ cfg, Holds u.held (.ufrag pc) → ∀ l m, ¬ u.Wants l m

variable {cfg cfg' : MuxConfig} {lab : Locks.Label MuxOp} {t u : Locks.Thread MuxOp Lock} {l : Lock}
  {m : Mode} {pc : PcId}

/-- What is known of the next instruction of an operation. -/
lemma lawful_next (h : Locks.Along (Lawful t.op) t.held t.todo) (hw : t.Wants l m) :
    ∃ next, Lawful t.op t.held (.acquire l m) next := by
  unfold Locks.Thread.Wants at hw
  cases ht : t.todo with
  | nil => rw [ht] at hw; cases hw
  | cons instr rest =>
    rw [ht] at hw h
    obtain rfl := Option.some.inj hw
    exact ⟨_, h.1⟩

lemma Unclashed.step (hc : Unclashed cfg)
    (ha : ∀ t ∈ cfg, Locks.Along (Lawful t.op) t.held t.todo) (hg : Apart cfg lab)
    (hs : muxStep cfg lab = some cfg') : Unclashed cfg' := by
  rcases Locks.step_cases hs with ⟨op, -, rfl⟩ | ⟨i, op, held, instr, todo, rfl, hi, -, rfl⟩
  · -- an operation that begins holds nothing
    have hold : ∀ t ∈ cfg ++ [⟨op, [], op.code⟩], ∀ l, Holds t.held l → t ∈ cfg := by
      rintro t ht l ⟨m, hm⟩
      rcases List.mem_append.mp ht with ht | ht
      · exact ht
      · rw [List.mem_singleton.mp ht] at hm
        cases hm
    rintro pc ⟨t, ht, hh, hw⟩ u hu hu'
    exact hc pc ⟨t, hold t ht _ hh, hh, hw⟩ u (hold u hu _ hu') hu'
  · have hlaw := (ha _ (List.mem_of_getElem? hi)).1
    rintro pc ⟨t, ht, hh, n, hw⟩ u hu hhu l m hwu
    rcases List.mem_or_eq_of_mem_set ht with ht' | rfl <;>
      rcases List.mem_or_eq_of_mem_set hu with hu' | rfl
    · exact hc pc ⟨t, ht', hh, n, hw⟩ u hu' hhu l m hwu
    · -- a restart takes the ufrag's lock while an `unregister` wants it
      obtain ⟨hrestarts, rfl⟩ := hlaw.holds pc l m hhu hwu
      obtain ⟨next, hl⟩ := lawful_next (ha t ht') hw
      obtain ⟨hkills, rfl⟩ := hl.lasts pc n rfl hh
      exact (hg _ hi t ht').2 pc hrestarts hkills rfl hw
    · -- an `unregister` takes the map's lock while a restart wants it
      obtain ⟨hkills, rfl⟩ := hlaw.raises pc n hh hw
      obtain ⟨next, hl⟩ := lawful_next (ha u hu') hwu
      obtain ⟨hrestarts, rfl, rfl⟩ := hl.waits pc l m rfl hhu
      exact (hg _ hi u hu').1 pc hkills hrestarts rfl hwu
    · obtain ⟨-, hinstr⟩ := hlaw.raises pc n hh hw
      obtain ⟨-, hinstr'⟩ := hlaw.holds pc l m hhu hwu
      rw [hinstr] at hinstr'
      cases hinstr'

/-- **No deadlock in the mux**, in every run in which the two orders of the `ufrag` locks of a
connection keep apart. -/
theorem no_deadlock (h : Machine.Reach muxStep Apart [] cfg) : ¬ Locks.Deadlock cfg := by
  have ha := Locks.along_of_reach along_code h
  have hc : Unclashed cfg := by
    refine Machine.Reach.invariant' (I := Unclashed) (fun pc ⟨t, ht, _⟩ => (by cases ht))
      (fun s l s' hr hc hg hs => hc.step (Locks.along_of_reach along_code hr) hg hs) h
  classical
  -- the ufrag that an `unregister` wants comes last, any other before the map
  refine Locks.not_deadlock_of_rank
    (fun l => if ∃ pc, l = .ufrag pc ∧ Raised cfg pc then 3 else l.rank) fun t ht l m hw x hx => ?_
  have hlow : ¬ ∃ pc, x.1 = .ufrag pc ∧ Raised cfg pc := by
    rintro ⟨pc, hx', hraised⟩
    exact hc pc hraised t ht ⟨x.2, hx' ▸ hx⟩ l m hw
  simp only [if_neg hlow]
  split_ifs with hlast
  · exact x.1.rank_lt_three
  · obtain ⟨next, hlaw⟩ := lawful_next (ha t ht) hw
    rcases hlaw.ranked l m rfl with hranked | ⟨pc, rfl, hufrags⟩
    · exact hranked x hx
    · exact absurd ⟨pc, rfl, t, ht, hufrags, m, hw⟩ hlast

/-- An ICE restart of a connection, and a delivery that finds it dead. -/
def bothStarted : List (Locks.Label MuxOp) :=
  [.start (.refreshUfrag 0 true), .start (.drive 0 1 1 .dead)]

/-- The restart is through before the dead connection takes the map's lock. -/
def restartFirst : List (Locks.Label MuxOp) :=
  bothStarted ++ List.replicate 3 (.run 0) ++ List.replicate 15 (.run 1) ++
    List.replicate 3 (.run 0) ++ List.replicate 2 (.run 1)

theorem no_deadlock_restart_first :
    ¬ Locks.Deadlock ((Machine.run muxStep [] restartFirst).getD []) :=
  no_deadlock (Machine.Reach.of_isSome (by decide +kernel) (by decide +kernel))

/-- Each has one of the two `ufrag` locks. -/
def crossed : List (Locks.Label MuxOp) :=
  bothStarted ++ List.replicate 3 (.run 0) ++ List.replicate 16 (.run 1)

def restarting : Locks.Thread MuxOp Lock where
  op := .refreshUfrag 0 true
  held := [(.ufrag 0, .exclusive)]
  todo := [.acquire .ufrags .exclusive, .release .ufrags, .release (.ufrag 0)]

def dying : Locks.Thread MuxOp Lock where
  op := .drive 0 1 1 .dead
  held := [(.ufrags, .exclusive), (.dispatch 0, .exclusive)]
  todo := [.acquire (.ufrag 0) .exclusive, .release (.ufrag 0), .release .ufrags,
    .release (.dispatch 0)]

theorem not_no_deadlock :
    ¬ ∀ cfg, Machine.Reach muxStep Machine.free [] cfg → ¬ Locks.Deadlock cfg := by
  intro h
  have hrun : Machine.run muxStep [] crossed = some [restarting, dying] := by decide +kernel
  refine h _ (Machine.Reach.init.of_run (Machine.meets_free _ _) hrun) ⟨{0, 1}, by simp, ?_⟩
  intro i hi
  rcases Finset.mem_insert.mp hi with rfl | hi
  · exact ⟨1, by simp, by simp, restarting, dying, rfl, rfl,
      .ufrags, .exclusive, rfl, .exclusive, by simp [dying], rfl⟩
  · obtain rfl := Finset.mem_singleton.mp hi
    exact ⟨0, by simp, by simp, dying, restarting, rfl, rfl,
      .ufrag 0, .exclusive, rfl, .exclusive, by simp [restarting], rfl⟩

end VoiceHub.Sfu.Net
