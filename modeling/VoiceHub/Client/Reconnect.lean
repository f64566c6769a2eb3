import Mathlib
import VoiceHub.Lib.Machine

/-!
The connection attempts of one client, which may overlap.

All attempts share the client's socket and peer connection. A new attempt detaches what the
last one installed but not its ten-second timer, and when that goes off the attempt's cleanup
closes whatever is installed by then.
-/

namespace VoiceHub.Client.Reconnect

open VoiceHub.Lib.Machine

/-- What rejects the promise runs `catch` some microtasks later. -/
inductive Promise
  | pending
  | rejected
  | settled
  deriving DecidableEq

structure Attempt where
  /-- Whether `connect` made it; its `catch` disconnects. -/
  first : Bool
  resolved : Bool
  timer : Bool
  /-- Whether its socket still has its handlers. -/
  attached : Bool
  /-- A `welcome` is being handled. -/
  greeted : Bool
  promise : Promise
  deriving DecidableEq

namespace Attempt

/-- One that has not started. -/
def idle : Attempt := ⟨false, true, false, false, false, .settled⟩

/-- `if (!resolved) { resolved = true; reject(..) }` -/
def reject (a : Attempt) : Attempt :=
  if a.resolved then a
  else { a with
    resolved := true
    promise := if a.promise = .pending then .rejected else a.promise }

lemma reject_promise {a : Attempt} (h : a.reject.promise = .rejected) :
    a.promise = .pending ∨ a.promise = .rejected := by
  unfold reject at h
  split_ifs at h with hr hp
  · exact .inr h
  · exact .inl hp
  · exact .inr h

end Attempt

/-- A client, by the attempts whose socket and peer connection it has installed. Attempts are
numbered as they start; `closings` are those whose `catch` closed something, with the attempt it
had been installed by. -/
structure SFUClient where
  ws : Option ℕ
  pc : Option ℕ
  stopped : Bool
  attempts : ℕ → Attempt
  next : ℕ
  closings : List (ℕ × ℕ)

namespace SFUClient

def new : SFUClient :=
  { ws := none, pc := none, stopped := false, attempts := fun _ => .idle, next := 0
    closings := [] }

def modify (c : SFUClient) (n : ℕ) (f : Attempt → Attempt) : SFUClient :=
  { c with attempts := Function.update c.attempts n (f (c.attempts n)) }

def detachAudioAndWS (c : SFUClient) : SFUClient :=
  let c := match c.ws with
    | some n => c.modify n ({ · with attached := false })
    | none => c
  { c with ws := none, pc := none }

/-- `disconnect`, which leaves the socket its handlers. -/
def disconnect (c : SFUClient) : SFUClient := { c with stopped := true, ws := none, pc := none }

/-- `setupAudioAndWS`. When the socket cannot be made the promise is rejected at once, with the
timer still running. -/
def setupAudioAndWS (c : SFUClient) (first socket : Bool) : SFUClient :=
  { c with
    pc := some c.next
    ws := if socket then some c.next else c.ws
    attempts := Function.update c.attempts c.next
      ⟨first, false, true, socket, false, if socket then .pending else .rejected⟩
    next := c.next + 1 }

/-- Attempt `n` closes what is installed. -/
def close (c : SFUClient) (n : ℕ) : SFUClient :=
  { c with closings := c.closings ++ (c.ws.toList ++ c.pc.toList).map fun m => (n, m) }

/-- The `catch` of attempt `n`. -/
def cleanup (c : SFUClient) (n : ℕ) : SFUClient :=
  let c := (c.modify n ({ · with promise := .settled })).close n
  if (c.attempts n).first then c.disconnect else c.detachAudioAndWS

end SFUClient

inductive Op
  | connect (socket : Bool)
  | reconnect (socket : Bool)
  | disconnect
  /-- `socket.onerror` -/
  | error (n : ℕ)
  /-- `socket.onmessage` with a `welcome`, up to its `await` -/
  | welcome (n : ℕ)
  /-- and after it -/
  | welcomed (n : ℕ)
  | timeout (n : ℕ)
  | rejected (n : ℕ)
  deriving DecidableEq

namespace SFUClient

def step (c : SFUClient) : Op → Option SFUClient
  | .connect socket =>
    if c.ws.isSome ∨ c.pc.isSome then some c
    else some ({ c with stopped := false }.setupAudioAndWS true socket)
  | .reconnect socket =>
    if c.stopped then some c else some (c.detachAudioAndWS.setupAudioAndWS false socket)
  | .disconnect => some c.disconnect
  | .error n =>
    if (c.attempts n).attached then
      some (c.modify n fun a => { a with timer := a.timer && a.resolved }.reject)
    else none
  | .welcome n =>
    if (c.attempts n).attached then some (c.modify n ({ · with greeted := true })) else none
  | .welcomed n =>
    if (c.attempts n).greeted then
      some (c.modify n fun a =>
        if a.resolved then { a with greeted := false }
        else { a with
          greeted := false
          resolved := true
          timer := false
          promise := if a.promise = .pending then .settled else a.promise })
    else none
  | .timeout n =>
    if (c.attempts n).timer then some (c.modify n fun a => { a with timer := false }.reject)
    else none
  | .rejected n => if (c.attempts n).promise = .rejected then some (c.cleanup n) else none

/-- Nothing of an attempt after `n` is installed. -/
def Latest (c : SFUClient) (n : ℕ) : Prop := ∀ m, c.ws = some m ∨ c.pc = some m → m ≤ n

/-- No attempt is rejected with its `catch` still to run. -/
def Caught (c : SFUClient) : Prop := ∀ n < c.next, (c.attempts n).promise ≠ .rejected

/-- An attempt is rejected only while nothing of a later one is installed, and none starts
before the `catch` of a rejected one has run. -/
def Settled (c : SFUClient) : Op → Prop
  | .connect _ => c.ws.isSome ∨ c.pc.isSome ∨ c.Caught
  | .reconnect _ => c.stopped ∨ c.Caught
  | .error n | .timeout n => (c.attempts n).promise = .pending → c.Latest n
  | _ => True

/-- No attempt has closed what a later one installed. -/
def LaterLeftAlone (c : SFUClient) : Prop := ∀ x ∈ c.closings, x.2 ≤ x.1

/-- Whatever a rejected attempt can still close was installed by it or before it. -/
structure Fits (c : SFUClient) : Prop where
  idle : ∀ n, c.next ≤ n → c.attempts n = .idle
  latest : ∀ n, (c.attempts n).promise = .rejected → c.Latest n
  closings : c.LaterLeftAlone

variable {c c' : SFUClient} {n : ℕ} {o : Op}

namespace Fits

lemma new : Fits .new :=
  ⟨fun _ _ => rfl, fun _ h => (by cases h), fun _ h => (by cases h)⟩

/-- What is not idle takes any step, as long as a rejection leaves nothing later installed. -/
lemma modify (hf : Fits c) {f : Attempt → Attempt} (hi : c.attempts n = .idle → f .idle = .idle)
    (h : (f (c.attempts n)).promise = .rejected → c.Latest n) : Fits (c.modify n f) := by
  refine ⟨fun m hm => ?_, fun m hm => ?_, hf.closings⟩
  · show Function.update c.attempts n (f (c.attempts n)) m = .idle
    by_cases hmn : m = n
    · subst hmn
      rw [Function.update_self, hf.idle m hm]
      exact hi (hf.idle m hm)
    · rw [Function.update_of_ne hmn]
      exact hf.idle m hm
  · change (Function.update c.attempts n (f (c.attempts n)) m).promise = .rejected at hm
    by_cases hmn : m = n
    · subst hmn
      rw [Function.update_self] at hm
      exact h hm
    · rw [Function.update_of_ne hmn] at hm
      exact hf.latest m hm

lemma disconnect (hf : Fits c) : Fits c.disconnect :=
  ⟨hf.idle, fun _ _ _ h => (by rcases h with h | h <;> cases h), hf.closings⟩

lemma detachAudioAndWS (hf : Fits c) : Fits c.detachAudioAndWS := by
  unfold SFUClient.detachAudioAndWS
  cases hw : c.ws with
  | none => exact ⟨hf.idle, fun _ _ _ h => (by rcases h with h | h <;> cases h), hf.closings⟩
  | some m =>
    have hm : Fits (c.modify m ({ · with attached := false })) :=
      hf.modify (fun _ => rfl) (hf.latest m)
    exact ⟨hm.idle, fun _ _ _ h => (by rcases h with h | h <;> cases h), hm.closings⟩

lemma setupAudioAndWS (hf : Fits c) (hc : c.Caught) (hw : c.ws = none) (first socket : Bool) :
    Fits (c.setupAudioAndWS first socket) := by
  refine ⟨fun m hm => ?_, fun m hm k hk => ?_, hf.closings⟩
  · change c.next + 1 ≤ m at hm
    exact (Function.update_of_ne (by omega) _ _).trans (hf.idle m (by omega))
  · have hkn : k = c.next := by
      rcases hk with hk | hk
      · cases socket
        · exact absurd (hw.symm.trans hk) (Option.some_ne_none k).symm
        · exact (Option.some.inj hk).symm
      · exact (Option.some.inj hk).symm
    change (Function.update c.attempts c.next _ m).promise = .rejected at hm
    by_cases hmn : m = c.next
    · omega
    · rw [Function.update_of_ne hmn] at hm
      have hlt : ¬ m < c.next := fun hlt => hc m hlt hm
      rw [hf.idle m (by omega)] at hm
      cases hm

lemma cleanup (hf : Fits c) (hn : (c.attempts n).promise = .rejected) : Fits (c.cleanup n) := by
  have hm : Fits ((c.modify n ({ · with promise := .settled })).close n) := by
    have h : Fits (c.modify n ({ · with promise := .settled })) :=
      hf.modify (fun _ => rfl) fun h => Promise.noConfusion h
    refine ⟨h.idle, h.latest, fun x hx => ?_⟩
    rcases List.mem_append.mp hx with hx | hx
    · exact hf.closings x hx
    · obtain ⟨m, hm, rfl⟩ := List.mem_map.mp hx
      rw [List.mem_append, Option.mem_toList, Option.mem_toList] at hm
      exact hf.latest n hn m hm
  simp only [SFUClient.cleanup]
  split
  · exact hm.disconnect
  · exact hm.detachAudioAndWS

end Fits

lemma detachAudioAndWS_none : c.detachAudioAndWS.ws = none ∧
    c.detachAudioAndWS.next = c.next := by
  unfold detachAudioAndWS
  cases c.ws <;> exact ⟨rfl, rfl⟩

lemma detachAudioAndWS_promise (n : ℕ) :
    (c.detachAudioAndWS.attempts n).promise = (c.attempts n).promise := by
  unfold detachAudioAndWS
  cases hw : c.ws with
  | none => rfl
  | some m =>
    change (Function.update c.attempts m _ n).promise = _
    by_cases hn : n = m
    · subst hn
      rw [Function.update_self]
    · rw [Function.update_of_ne hn]

lemma Caught.detach (hc : c.Caught) : c.detachAudioAndWS.Caught := by
  intro n hn
  rw [detachAudioAndWS_promise]
  exact hc n (detachAudioAndWS_none.2 ▸ hn)

lemma Fits.settle (hf : Fits c) {f : Attempt → Attempt} (hi : c.attempts n ≠ .idle)
    (h : (f (c.attempts n)).promise = .rejected → (c.attempts n).promise = .rejected) :
    Fits (c.modify n f) :=
  hf.modify (fun h => absurd h hi) fun hr => hf.latest n (h hr)

lemma Fits.reject (hf : Fits c) {f : Attempt → Attempt} (hi : c.attempts n ≠ .idle)
    (hp : (f (c.attempts n)).promise = (c.attempts n).promise)
    (hs : (c.attempts n).promise = .pending → c.Latest n) :
    Fits (c.modify n fun a => (f a).reject) := by
  refine hf.modify (fun h => absurd h hi) fun hr => ?_
  rcases Attempt.reject_promise hr with hr | hr
  · exact hs (hp.symm.trans hr)
  · exact hf.latest n (hp.symm.trans hr)

lemma Fits.step (hf : Fits c) (hs : c.Settled o) (h : c.step o = some c') : Fits c' := by
  cases o <;> simp only [SFUClient.step, Option.ite_none_right_eq_some, Option.some.injEq] at h
  case connect socket =>
    split_ifs at h with hc <;> cases h
    · exact hf
    · obtain ⟨hw, hp⟩ := not_or.mp hc
      have hca : c.Caught := (hs.resolve_left hw).resolve_left hp
      have hf' : Fits { c with stopped := false } := ⟨hf.idle, hf.latest, hf.closings⟩
      exact hf'.setupAudioAndWS hca (Option.not_isSome_iff_eq_none.mp hw) true socket
  case reconnect socket =>
    split_ifs at h with hc <;> cases h
    · exact hf
    · exact hf.detachAudioAndWS.setupAudioAndWS (hs.resolve_left hc).detach
        detachAudioAndWS_none.1 false socket
  case disconnect =>
    cases h
    exact hf.disconnect
  case error n =>
    obtain ⟨ha, rfl⟩ := h
    have hi : c.attempts n ≠ .idle := fun hi => by rw [hi] at ha; cases ha
    exact hf.reject (f := fun a => { a with timer := a.timer && a.resolved }) hi rfl hs
  case welcome n =>
    obtain ⟨ha, rfl⟩ := h
    exact hf.settle (fun hi => by rw [hi] at ha; cases ha) id
  case welcomed n =>
    obtain ⟨ha, rfl⟩ := h
    refine hf.settle (fun hi => by rw [hi] at ha; cases ha) fun hr => ?_
    split_ifs at hr <;> exact hr
  case timeout n =>
    obtain ⟨ha, rfl⟩ := h
    have hi : c.attempts n ≠ .idle := fun hi => by rw [hi] at ha; cases ha
    exact hf.reject (f := fun a => { a with timer := false }) hi rfl hs
  case rejected n =>
    obtain ⟨hr, rfl⟩ := h
    exact hf.cleanup hr

/-- **A later attempt is left alone**: in a run where an attempt is rejected only while nothing
of a later one is installed, a rejected attempt closes nothing that a later one installed. -/
theorem later_left_alone (h : Reach step Settled new c) : c.LaterLeftAlone :=
  (Reach.invariant Fits.new (fun _ _ _ hf hs hl => hf.step hs hl) h).closings

instance (c : SFUClient) (n : ℕ) : Decidable (c.Latest n) :=
  decidable_of_iff ((∀ m ∈ c.ws, m ≤ n) ∧ ∀ m ∈ c.pc, m ≤ n)
    ⟨fun h m hm => hm.elim (h.1 m) (h.2 m),
      fun h => ⟨fun m hm => h m (.inl hm), fun m hm => h m (.inr hm)⟩⟩

instance (c : SFUClient) : Decidable c.Caught := Nat.decidableBallLT _ _

instance (c : SFUClient) : ∀ o, Decidable (c.Settled o)
  | .connect _ => inferInstanceAs (Decidable (_ ∨ _ ∨ _))
  | .reconnect _ => inferInstanceAs (Decidable (_ ∨ _))
  | .error _ | .timeout _ => inferInstanceAs (Decidable (_ → _))
  | .disconnect | .welcome _ | .welcomed _ | .rejected _ => inferInstanceAs (Decidable True)

/-- An attempt that times out, and one after it that is welcomed. -/
def quietRun : List Op :=
  [.reconnect true, .timeout 0, .rejected 0, .reconnect true, .welcome 1, .welcomed 1]

theorem later_left_alone_quiet :
    ((run step new quietRun).getD new).closings = [(0, 0), (0, 0)] ∧
      ((run step new quietRun).getD new).LaterLeftAlone :=
  ⟨by decide +kernel,
    later_left_alone (Reach.of_isSome (by decide +kernel) (by decide +kernel))⟩

/-- The timer of an attempt that was replaced goes off after its successor is welcomed. -/
def lateRun : List Op :=
  [.reconnect true, .reconnect true, .welcome 1, .welcomed 1, .timeout 0, .rejected 0]

/-- **It is not left alone in every run**: a timer that outlives its attempt closes the
connection of the next. -/
theorem later_closed : ¬ ∀ c, Reach step free new c → c.LaterLeftAlone := by
  intro h
  have hc : (0, 1) ∈ ((run step new lateRun).getD new).closings := by decide +kernel
  exact absurd (h _ (Reach.of_isSome (meets_free _ _) (by decide +kernel)) _ hc) (by decide)

end SFUClient

end VoiceHub.Client.Reconnect
