import Mathlib
import VoiceHub.Lib.Machine

/-!
The timer of a peer connection.

Whoever holds the connection's lock may move the deadline, and notifies the timer when it
becomes earlier. The loop reads the deadline without the lock and parks until the time it made
of it; what it has missed by then is told by a permit.
-/

namespace VoiceHub.Sfu.Net

open VoiceHub.Lib.Machine

abbrev Instant := ℕ

def WATCHDOG : ℕ := 10 ^ 9

/-- What `write`, `poll` and `deliver` do to the timer. `notify_one` stores at most one
permit; a loop that is parked takes it. -/
structure Pc where
  deadline : UInt64
  permit : Bool
  closed : Bool
  deriving DecidableEq

namespace Pc

def spawn : Pc := ⟨0, false, false⟩

def notifyOne (pc : Pc) : Pc := { pc with permit := true }

/-- `write`, at `now` under the lock. -/
def write (pc : Pc) (now : Instant) : Pc :=
  let now := max (UInt64.ofNat now) 1
  if pc.deadline = 0 ∨ now < pc.deadline then { pc with deadline := now }.notifyOne else pc

/-- `poll`, up to the timeout it is asked for; without one the connection is dead. -/
def poll (pc : Pc) : Option Instant → Pc
  | some t =>
    let ns := UInt64.ofNat t
    let prev := pc.deadline
    let pc := { pc with deadline := ns }
    if ns < prev ∨ prev = 0 then pc.notifyOne else pc
  | none => pc

/-- `deliver` finds the connection dead. -/
def close (pc : Pc) : Pc := if pc.closed then pc else { pc with closed := true }.notifyOne

end Pc

/-- Where `timer_loop` stands. -/
inductive TimerLoop
  | top
  /-- with the deadline it read -/
  | loaded (ns : UInt64)
  /-- with the time to wake up at -/
  | timed (w : Instant)
  | parked (w : Instant)
  | woken
  /-- about to drive the connection -/
  | driving
  | returned
  deriving DecidableEq

structure Timer where
  pc : Pc
  loop : TimerLoop
  deriving DecidableEq

/-- A section of any thread, or a step of the loop; `now` is what it reads off the clock. -/
inductive TimerOp
  | write (now : Instant)
  | poll (timeout : Option Instant)
  | close
  | load
  | time (now : Instant)
  | park (now : Instant)
  /-- `sleep_until` is over -/
  | slept
  /-- `notified` takes the permit -/
  | notified
  | check
  | drive (timeout : Option Instant)
  deriving DecidableEq

/-- The time to wake up at: the deadline, or the next turn of the watchdog. -/
def wakeAt (ns : UInt64) (now : Instant) : Instant :=
  if ns = 0 then now + WATCHDOG else min ns.toNat (now + WATCHDOG)

namespace Timer

def start : Timer := ⟨.spawn, .top⟩

def step (t : Timer) : TimerOp → Option Timer
  | .write now => some { t with pc := t.pc.write now }
  | .poll timeout => some { t with pc := t.pc.poll timeout }
  | .close => some { t with pc := t.pc.close }
  | .load =>
    if t.loop = .top then
      some { t with loop := if t.pc.closed then .returned else .loaded t.pc.deadline }
    else none
  | .time now =>
    match t.loop with
    | .loaded ns => some { t with loop := .timed (wakeAt ns now) }
    | _ => none
  | .park now =>
    match t.loop with
    -- a deadline that is due yields instead
    | .timed w => some { t with loop := if now < w then .parked w else .woken }
    | _ => none
  | .slept =>
    match t.loop with
    | .parked _ => some { t with loop := .woken }
    | _ => none
  | .notified =>
    match t.loop with
    | .parked _ =>
      if t.pc.permit then some ⟨{ t.pc with permit := false }, .woken⟩ else none
    | _ => none
  | .check =>
    if t.loop = .woken then some { t with loop := if t.pc.closed then .returned else .driving }
    else none
  | .drive timeout =>
    if t.loop = .driving then some ⟨t.pc.poll timeout, .top⟩ else none

end Timer

/-! ### What the deadline does -/

/-- The loop goes by a deadline of `ns`, or none when that is zero: whatever has become earlier
since then left a permit. -/
def Noticed (pc : Pc) (ns : UInt64) : Prop :=
  pc.permit = true ∨ pc.deadline = 0 ∨ ns ≠ 0 ∧ ns ≤ pc.deadline

lemma Noticed.load (pc : Pc) : Noticed pc pc.deadline := by
  by_cases h : pc.deadline = 0
  · exact .inr (.inl h)
  · exact .inr (.inr ⟨h, UInt64.le_refl _⟩)

section

variable {pc : Pc} {ns : UInt64}

lemma Noticed.write (h : Noticed pc ns) (now : Instant) : Noticed (pc.write now) ns := by
  unfold Pc.write
  dsimp only
  split_ifs
  · exact .inl rfl
  · exact h

lemma Noticed.poll (h : Noticed pc ns) (timeout : Option Instant) :
    Noticed (pc.poll timeout) ns := by
  cases timeout with
  | none => exact h
  | some t =>
    unfold Pc.poll
    dsimp only
    split_ifs with hn
    · exact .inl rfl
    · rw [not_or, UInt64.not_lt] at hn
      rcases h with hp | h0 | ⟨h1, h2⟩
      · exact .inl hp
      · exact absurd h0 hn.2
      · -- the deadline has only moved later
        exact .inr (.inr ⟨h1, UInt64.le_trans h2 hn.1⟩)

lemma Noticed.close (h : Noticed pc ns) : Noticed pc.close ns := by
  unfold Pc.close
  split_ifs
  · exact h
  · exact .inl rfl

lemma wakeAt_le (h : ns ≠ 0) (now : Instant) : wakeAt ns now ≤ ns.toNat := by
  rw [wakeAt, if_neg h]
  exact min_le_left _ _

end

/-- What the loop goes by is a deadline it noticed. -/
def Awake (t : Timer) : Prop :=
  match t.loop with
  | .loaded ns => Noticed t.pc ns
  | .timed w | .parked w => ∃ ns now, Noticed t.pc ns ∧ w = wakeAt ns now
  | _ => True

lemma Awake.of_pc {t : Timer} {pc : Pc} (h : Awake t)
    (hpc : ∀ ns, Noticed t.pc ns → Noticed pc ns) : Awake { t with pc := pc } := by
  obtain ⟨old, loop⟩ := t
  cases loop with
  | loaded ns => exact hpc ns h
  | timed w | parked w =>
    obtain ⟨ns, now, hn, hw⟩ := h
    exact ⟨ns, now, hpc ns hn, hw⟩
  | _ => trivial

lemma Awake.step {t t' : Timer} {op : TimerOp} (h : Awake t) (hs : t.step op = some t') :
    Awake t' := by
  cases op with
  | write now =>
    cases hs
    exact h.of_pc fun _ hn => hn.write now
  | poll timeout =>
    cases hs
    exact h.of_pc fun _ hn => hn.poll timeout
  | close =>
    cases hs
    exact h.of_pc fun _ hn => hn.close
  | load =>
    simp only [Timer.step] at hs
    split_ifs at hs with htop hclosed <;> cases hs
    · trivial
    · exact .load t.pc
  | time now =>
    obtain ⟨pc, loop⟩ := t
    cases loop <;> cases hs
    exact ⟨_, now, h, rfl⟩
  | park now =>
    obtain ⟨pc, loop⟩ := t
    cases loop <;> cases hs
    dsimp only
    split_ifs
    · exact h
    · trivial
  | slept | notified | check | drive =>
    simp only [Timer.step] at hs
    repeat' split at hs
    all_goals cases hs
    all_goals trivial

/-- **No wake-up is lost**: a loop that is parked without a permit wakes up by the deadline. -/
theorem no_lost_wakeup {t : Timer} (hr : Reach Timer.step free .start t) {w : Instant}
    (hw : t.loop = .parked w) (hp : t.pc.permit = false) (hd : t.pc.deadline ≠ 0) :
    w ≤ t.pc.deadline.toNat := by
  have hstart : Awake .start := trivial
  have h : Awake t := hr.invariant hstart fun _ _ _ h _ hs => h.step hs
  unfold Awake at h
  rw [hw] at h
  obtain ⟨ns, now, hn, rfl⟩ := h
  rcases hn with hperm | hzero | ⟨hns, hle⟩
  · rw [hp] at hperm
    cases hperm
  · exact absurd hzero hd
  · calc wakeAt ns now ≤ ns.toNat := wakeAt_le hns now
      _ ≤ t.pc.deadline.toNat := UInt64.le_iff_toNat_le.mp hle

/-- The loop drives the connection, which asks for a timeout, and parks; a later timeout is set
while it is. -/
def parked : List TimerOp :=
  [.write 5, .load, .time 6, .park 6, .check, .drive (some 900), .load, .time 7, .park 7,
    .notified, .check, .drive (some 950), .load, .time 8, .park 8, .poll (some 970)]

theorem no_lost_wakeup_parked :
    ((run Timer.step .start parked).getD .start).loop = .parked 950 ∧
      950 ≤ ((run Timer.step .start parked).getD .start).pc.deadline.toNat := by
  have hloop : ((run Timer.step .start parked).getD .start).loop = .parked 950 := by
    decide +kernel
  exact ⟨hloop, no_lost_wakeup (Reach.of_isSome (meets_free _ _) (by decide +kernel)) hloop
    (by decide +kernel) (by decide +kernel)⟩

end VoiceHub.Sfu.Net
