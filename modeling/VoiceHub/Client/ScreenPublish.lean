import Mathlib
import VoiceHub.Lib.Machine

/-!
A client that shares its screen. Starting a share waits four times: for the user to pick what is
captured, for the capture's constraints, for the offer and for the server's answer. Meanwhile the
share may be stopped, and a new one started.

`screenPubPC`, `screenPubStream` and `screenPubVideoSender` are set and cleared together. How the
capture is encoded is left out, and the resuming of a share, which starts and stops none.
-/

namespace VoiceHub.Client.ScreenPublish

open VoiceHub.Lib.Machine

/-- What a `startScreenShare` waits for. -/
inductive Stage
  | asking
  | constraining
  | offering
  | waiting
  /-- for its `catch`, some microtasks after the promise is rejected -/
  | rejected
  /-- for its `finally`, after the promise is resolved -/
  | answered
  | over
  deriving DecidableEq

/-- Neither captured nor let go again. -/
def Stage.Picking (s : Stage) : Prop := s = .asking ∨ s = .constraining

instance : DecidablePred Stage.Picking := fun _ => inferInstanceAs (Decidable (_ ∨ _))

structure Start where
  stage : Stage
  /-- The capture is on. -/
  live : Bool
  /-- The publisher connection is open. -/
  pcOpen : Bool
  aborted : Bool
  /-- The end of the capture stops the share. -/
  listening : Bool
  deriving DecidableEq

/-- One that has not started. -/
def Start.idle : Start := ⟨.over, false, false, false, false⟩

/-- `signal.addEventListener('abort', ..)` rejects the promise. -/
def Start.abort (a : Start) : Start :=
  { a with aborted := true, stage := if a.stage = .waiting then .rejected else a.stage }

/-- The same, but that the capture may be off. -/
structure Start.Like (a' a : Start) : Prop where
  stage : a'.stage = a.stage
  pcOpen : a'.pcOpen = a.pcOpen
  aborted : a'.aborted = a.aborted
  live : a.live = false → a'.live = false

lemma Start.Like.of_eq {a a' : Start} (h : a' = a) : a'.Like a :=
  ⟨congrArg _ h, congrArg _ h, congrArg _ h, fun hl => h ▸ hl⟩

/-- It is left with nothing, and knows or is about to find out. -/
structure Start.Shut (a : Start) : Prop where
  pcOpen : a.pcOpen = false
  live : a.live = false
  offering : a.stage = .offering → a.aborted = true
  waiting : a.stage ≠ .waiting
  picking : ¬ a.stage.Picking

/-- `screen-share-start` and `screen-share-stop`, which does not say whose share it stops. -/
inductive Frame
  | start (n : ℕ)
  | stop (n : ℕ)
  deriving DecidableEq

/-- Starts are numbered; `frames` is what the socket was sent about shares, last first. -/
structure SFUClient where
  /-- The socket is open. -/
  ws : Bool
  screenPub : Option ℕ
  screenPubAbort : Option ℕ
  /-- There is a `screenPubToken`. -/
  token : Bool
  starts : ℕ → Start
  next : ℕ
  frames : List Frame

/-- How the section after `applyConstraints` goes. -/
inductive Install
  | done
  /-- `RTCPeerConnection` throws -/
  | noConnection
  /-- a track or a codec is refused -/
  | throws
  deriving DecidableEq

inductive Op
  | start
  /-- `getDisplayMedia` rejects -/
  | refused (n : ℕ)
  | captured (n : ℕ) (video : Bool)
  | constrained (n : ℕ) (how : Install)
  /-- `setLocalDescription` settles -/
  | described (n : ℕ) (ok : Bool)
  /-- `signalingState` becomes `stable` -/
  | stable (n : ℕ)
  | timeout (n : ℕ)
  | caught (n : ℕ)
  | finished (n : ℕ)
  | stop
  /-- the capture ends -/
  | ended (n : ℕ)
  /-- the publisher connection fails -/
  | failed (n : ℕ)
  /-- `screen-share-started` -/
  | started
  /-- `screen-share-ended` for the own share -/
  | shareEnded
  /-- `screen-share-error` for a start -/
  | shareError
  /-- a new socket opens -/
  | connected
  | closed
  deriving DecidableEq

namespace SFUClient

def new : SFUClient := ⟨true, none, none, false, fun _ => .idle, 0, []⟩

def modify (c : SFUClient) (n : ℕ) (f : Start → Start) : SFUClient :=
  { c with starts := Function.update c.starts n (f (c.starts n)) }

def send (c : SFUClient) (f : Frame) : SFUClient :=
  { c with frames := if c.ws then f :: c.frames else c.frames }

def stopScreenShare (c : SFUClient) : SFUClient :=
  match c.screenPub with
  | none => c
  | some n =>
    let c := match c.screenPubAbort with
      | some m => c.modify m Start.abort
      | none => c
    { (c.send (.stop n)).modify n ({ · with live := false, pcOpen := false }) with
      screenPub := none
      screenPubAbort := none
      token := false }

/-- `if (screenPubAbort === abort) screenPubAbort = null` -/
def unsetAbort (c : SFUClient) (n : ℕ) : SFUClient :=
  if c.screenPubAbort = some n then { c with screenPubAbort := none } else c

/-- The `catch` of start `n`, and its `finally`. -/
def cleanup (c : SFUClient) (n : ℕ) : SFUClient :=
  let c := c.modify n ({ · with live := false })
  let c := if c.screenPubAbort = some n then c.stopScreenShare else c
  (c.unsetAbort n).modify n ({ · with stage := .over })

/-- The connection, the capture and the abort controller of start `n`. -/
def install (c : SFUClient) (n : ℕ) : SFUClient :=
  { c.modify n ({ · with stage := .offering, pcOpen := true, listening := true }) with
    screenPub := some n
    screenPubAbort := some n }

def step (c : SFUClient) : Op → Option SFUClient
  | .start =>
    if c.screenPub.isSome then some c
    else some { c.modify c.next ({ · with stage := .asking }) with next := c.next + 1 }
  | .refused n =>
    if (c.starts n).stage = .asking then some (c.modify n ({ · with stage := .over })) else none
  | .captured n video =>
    if (c.starts n).stage = .asking then
      some (c.modify n fun a =>
        if video then { a with stage := .constraining, live := true }
        else { a with stage := .over })
    else none
  | .constrained n how =>
    if (c.starts n).stage = .constraining then
      match how with
      | .done => some (c.install n)
      | .noConnection => some (c.cleanup n)
      | .throws => some ((c.install n).cleanup n)
    else none
  | .described n ok =>
    if (c.starts n).stage = .offering then
      if ok && !(c.starts n).aborted then
        some ((c.send (.start n)).modify n ({ · with stage := .waiting }))
      else some (c.cleanup n)
    else none
  | .stable n =>
    if (c.starts n).pcOpen then
      some (c.modify n fun a =>
        if a.stage = .waiting then { a with stage := .answered } else a)
    else none
  | .timeout n =>
    if (c.starts n).stage = .waiting then some (c.modify n ({ · with stage := .rejected }))
    else none
  | .caught n => if (c.starts n).stage = .rejected then some (c.cleanup n) else none
  | .finished n =>
    if (c.starts n).stage = .answered then
      some ((c.modify n ({ · with stage := .over })).unsetAbort n)
    else none
  | .stop | .shareError => some c.stopScreenShare
  | .ended n =>
    if (c.starts n).live then
      let c := c.modify n ({ · with live := false })
      some (if (c.starts n).listening then c.stopScreenShare else c)
    else none
  | .failed n => if (c.starts n).pcOpen then some c.stopScreenShare else none
  | .started => some { c with token := true }
  | .shareEnded => some (if c.token then c.stopScreenShare else c)
  | .connected => some { c with ws := true, frames := [] }
  | .closed => some { c with ws := false }

/-- No share is started while another still waits for its capture. -/
def Single (c : SFUClient) : Op → Prop
  | .start => c.screenPub.isSome ∨ ∀ n < c.next, ¬ (c.starts n).stage.Picking
  | _ => True

end SFUClient

/-- Every share is started and stopped once at most, in this order, and between two starts is the
stop of the first; last first. -/
def Orderly : List Frame → Prop
  | [] => True
  | .start n :: fs => .start n ∉ fs ∧ .stop n ∉ fs ∧ (∀ m, fs.head? ≠ some (.start m)) ∧ Orderly fs
  | .stop n :: fs => .stop n ∉ fs ∧ (∀ m, fs.head? = some (.start m) → m = n) ∧ Orderly fs

namespace SFUClient

/-! ### What every start holds -/

/-- What start `n` set up is there. -/
structure Installed (c : SFUClient) (n : ℕ) : Prop where
  screenPub : c.screenPub = some n
  screenPubAbort : c.screenPubAbort = some n
  pcOpen : (c.starts n).pcOpen = true
  aborted : (c.starts n).aborted = false
  unstopped : .stop n ∉ c.frames

/-- The share that start `n` has started is on. -/
structure Runs (c : SFUClient) (n : ℕ) : Prop where
  screenPub : c.screenPub = some n
  screenPubAbort : c.screenPubAbort = none
  pcOpen : (c.starts n).pcOpen = true
  aborted : (c.starts n).aborted = false
  unstopped : .stop n ∉ c.frames

/-- Start `n` has let everything go. -/
structure Gone (c : SFUClient) (n : ℕ) : Prop where
  screenPub : c.screenPub ≠ some n
  screenPubAbort : c.screenPubAbort ≠ some n
  pcOpen : (c.starts n).pcOpen = false
  live : (c.starts n).live = false

/-- Start `n` has set up nothing yet. -/
structure Unset (c : SFUClient) (n : ℕ) : Prop where
  screenPub : c.screenPub = none
  screenPubAbort : c.screenPubAbort = none
  pcOpen : (c.starts n).pcOpen = false
  aborted : (c.starts n).aborted = false
  unstarted : .start n ∉ c.frames
  unstopped : .stop n ∉ c.frames

/-- What start `n` holds, by what it waits for. -/
def Stands (c : SFUClient) (n : ℕ) : Prop :=
  match (c.starts n).stage with
  | .asking => c.Unset n ∧ (c.starts n).live = false
  | .constraining => c.Unset n
  | .offering => c.Installed n ∧ .start n ∉ c.frames ∨ c.Gone n ∧ (c.starts n).aborted = true
  | .waiting => c.Installed n
  | .rejected | .answered => c.Installed n ∨ c.Gone n
  | .over => c.Runs n ∨ c.Gone n

structure Fits (c : SFUClient) : Prop where
  stands : ∀ n, c.Stands n
  idle : ∀ n, c.next ≤ n → c.starts n = .idle
  single : ∀ n m, (c.starts n).stage.Picking → (c.starts m).stage.Picking → n = m
  framed : ∀ n, .start n ∈ c.frames ∨ .stop n ∈ c.frames → n < c.next
  orderly : Orderly c.frames
  /-- The server of an open socket that was told of a share has yet to be told that it ended. -/
  told : c.ws = true → ∀ n, c.frames.head? = some (.start n) → c.screenPub = some n

variable {c c' : SFUClient} {n m : ℕ} {o : Op} {f : Start → Start}

@[simp] lemma modify_self (c : SFUClient) (n : ℕ) (f : Start → Start) :
    (c.modify n f).starts n = f (c.starts n) := Function.update_self ..

lemma modify_of_ne (c : SFUClient) (h : m ≠ n) (f : Start → Start) :
    (c.modify n f).starts m = c.starts m := Function.update_of_ne h ..

lemma not_picking_over : ¬ Stage.over.Picking := by decide

lemma picking_modify (hf : (f (c.starts m)).stage.Picking → (c.starts m).stage.Picking)
    (h : ((c.modify m f).starts n).stage.Picking) : (c.starts n).stage.Picking := by
  rcases eq_or_ne n m with rfl | hne
  · rw [modify_self] at h
    exact hf h
  · rwa [modify_of_ne c hne] at h

/-- Start `n` has nothing, and is not to have anything. -/
structure Away (c : SFUClient) (n : ℕ) : Prop where
  screenPub : c.screenPub ≠ some n
  screenPubAbort : c.screenPubAbort ≠ some n
  shut : (c.starts n).Shut

lemma Away.gone (h : c.Away n) : c.Gone n :=
  ⟨h.screenPub, h.screenPubAbort, h.shut.pcOpen, h.shut.live⟩

lemma Away.stands (h : c.Away n) : c.Stands n := by
  rw [Stands]
  split
  · next hs => exact absurd (.inl hs) h.shut.picking
  · next hs => exact absurd (.inr hs) h.shut.picking
  · next hs => exact .inr ⟨h.gone, h.shut.offering hs⟩
  · next hs => exact absurd hs h.shut.waiting
  · exact .inr h.gone
  · exact .inr h.gone
  · exact .inr h.gone

lemma Away.congr (h : c.Away n) (hstart : c'.starts n = c.starts n) (hpub : c'.screenPub ≠ some n)
    (habort : c'.screenPubAbort ≠ some n) : c'.Away n :=
  ⟨hpub, habort, hstart ▸ h.shut⟩

/-- A start whose share is not the current one is away, or still waits for its capture. -/
lemma Stands.away (h : c.Stands n) (hpub : c.screenPub ≠ some n) :
    c.Away n ∨ (c.starts n).stage.Picking ∧ c.Unset n := by
  rw [Stands] at h
  split at h
  · next hs => exact .inr ⟨.inl hs, h.1⟩
  · next hs => exact .inr ⟨.inr hs, h⟩
  · next hs =>
    obtain ⟨hi, -⟩ | ⟨hg, ha⟩ := h
    · exact absurd hi.screenPub hpub
    · exact .inl ⟨hg.screenPub, hg.screenPubAbort, hg.pcOpen, hg.live, fun _ => ha,
        by rw [hs]; decide, by rw [hs]; decide⟩
  · exact absurd h.screenPub hpub
  all_goals
    next hs =>
      obtain hi | hg := h
      · exact absurd hi.screenPub hpub
      · refine .inl ⟨hg.screenPub, hg.screenPubAbort, hg.pcOpen, hg.live, fun ho => ?_,
          by rw [hs]; decide, by rw [hs]; decide⟩
        rw [hs] at ho
        cases ho

lemma Stands.current (h : c.Stands n) (hpub : c.screenPub = some n) :
    c.Installed n ∨ c.Runs n ∧ (c.starts n).stage = .over := by
  rw [Stands] at h
  split at h
  · exact absurd (h.1.screenPub.symm.trans hpub) (by simp)
  · exact absurd (h.screenPub.symm.trans hpub) (by simp)
  · exact .inl (h.resolve_right fun hg => hg.1.screenPub hpub).1
  · exact .inl h
  · exact .inl (h.resolve_right fun hg => hg.screenPub hpub)
  · exact .inl (h.resolve_right fun hg => hg.screenPub hpub)
  · next hs => exact .inr ⟨h.resolve_right fun hg => hg.screenPub hpub, hs⟩

lemma Stands.aborting (h : c.Stands n) (habort : c.screenPubAbort = some n) : c.Installed n := by
  by_cases hpub : c.screenPub = some n
  · refine (h.current hpub).resolve_right ?_
    rintro ⟨hr, -⟩
    rw [hr.screenPubAbort] at habort
    cases habort
  · obtain ha | ⟨-, hu⟩ := h.away hpub
    · exact absurd habort ha.gone.screenPubAbort
    · rw [hu.screenPubAbort] at habort
      cases habort

lemma Stands.congr (h : c.Stands n) (hstart : (c'.starts n).Like (c.starts n))
    (hpub : c'.screenPub = c.screenPub) (habort : c'.screenPubAbort = c.screenPubAbort)
    (hframes : ∀ f ∈ c'.frames, f = .start n ∨ f = .stop n → f ∈ c.frames) : c'.Stands n := by
  have hstarted : .start n ∉ c.frames → .start n ∉ c'.frames :=
    mt fun hf => hframes _ hf (.inl rfl)
  have hstopped : .stop n ∉ c.frames → .stop n ∉ c'.frames :=
    mt fun hf => hframes _ hf (.inr rfl)
  have hunset (hu : c.Unset n) : c'.Unset n :=
    ⟨hpub.trans hu.screenPub, habort.trans hu.screenPubAbort, hstart.pcOpen.trans hu.pcOpen,
      hstart.aborted.trans hu.aborted, hstarted hu.unstarted, hstopped hu.unstopped⟩
  have hinst (hi : c.Installed n) : c'.Installed n :=
    ⟨hpub.trans hi.screenPub, habort.trans hi.screenPubAbort, hstart.pcOpen.trans hi.pcOpen,
      hstart.aborted.trans hi.aborted, hstopped hi.unstopped⟩
  have hruns (hr : c.Runs n) : c'.Runs n :=
    ⟨hpub.trans hr.screenPub, habort.trans hr.screenPubAbort, hstart.pcOpen.trans hr.pcOpen,
      hstart.aborted.trans hr.aborted, hstopped hr.unstopped⟩
  have hgone (hg : c.Gone n) : c'.Gone n :=
    ⟨hpub ▸ hg.screenPub, habort ▸ hg.screenPubAbort, hstart.pcOpen.trans hg.pcOpen,
      hstart.live hg.live⟩
  rw [Stands, hstart.stage]
  rw [Stands] at h
  split at h
  · exact ⟨hunset h.1, hstart.live h.2⟩
  · exact hunset h
  · exact h.imp (fun h => ⟨hinst h.1, hstarted h.2⟩)
      fun h => ⟨hgone h.1, hstart.aborted.trans h.2⟩
  · exact hinst h
  · exact h.imp hinst hgone
  · exact h.imp hinst hgone
  · exact h.imp hruns hgone

namespace Fits

lemma new : Fits .new where
  stands n := Or.inr ⟨by simp [SFUClient.new], by simp [SFUClient.new], rfl, rfl⟩
  idle _ _ := rfl
  single n _ hn := by rcases hn with hn | hn <;> cases hn
  framed n hn := by rcases hn with hn | hn <;> cases hn
  orderly := trivial
  told _ n hn := by cases hn

variable (hf : c.Fits)

include hf

lemma lt_next (h : c.starts n ≠ .idle) : n < c.next :=
  Nat.lt_of_not_le fun hle => h (hf.idle n hle)

lemma lt_next_of_stage (h : (c.starts n).stage ≠ .over) : n < c.next :=
  hf.lt_next fun hi => h (by rw [hi]; rfl)

lemma abort_none (hpub : c.screenPub = none) : c.screenPubAbort = none := by
  refine Option.eq_none_iff_forall_ne_some.mpr fun k hk => ?_
  have hi := (hf.stands k).aborting hk
  exact absurd (hpub.symm.trans hi.screenPub) (by simp)

lemma modify (hn : n < c.next) (hstands : (c.modify n f).Stands n)
    (hpick : (f (c.starts n)).stage.Picking → (c.starts n).stage.Picking) :
    (c.modify n f).Fits where
  stands m := by
    rcases eq_or_ne m n with rfl | hm
    · exact hstands
    · exact (hf.stands m).congr (.of_eq (modify_of_ne c hm f)) rfl rfl fun _ hin _ => hin
  idle m hm := (modify_of_ne c (show m ≠ n by have hle : c.next ≤ m := hm; omega) f).trans
    (hf.idle m hm)
  single k m hk hm := hf.single k m (picking_modify hpick hk) (picking_modify hpick hm)
  framed := hf.framed
  orderly := hf.orderly
  told := hf.told

lemma pick_stands (hp : (c.starts n).stage.Picking) : c.Unset n := by
  have hstands := hf.stands n
  rw [Stands] at hstands
  rcases hp with hp | hp <;> rw [hp] at hstands
  · exact hstands.1
  · exact hstands

lemma stopScreenShare_eq (hpub : c.screenPub = some n) : ∃ f, (f (c.starts n)).Shut ∧
    c.stopScreenShare = { (c.send (.stop n)).modify n f with
      screenPub := none, screenPubAbort := none, token := false } := by
  have hpick : ¬ (c.starts n).stage.Picking := fun hp =>
    absurd ((hf.pick_stands hp).screenPub.symm.trans hpub) (by simp)
  rcases (hf.stands n).current hpub with hi | ⟨hr, hover⟩
  · refine ⟨fun a => { a.abort with live := false, pcOpen := false }, ?_, ?_⟩
    · refine ⟨rfl, rfl, fun _ => rfl, ?_, ?_⟩ <;> simp only [Start.abort] <;> split_ifs with hw
      · decide
      · exact hw
      · decide
      · exact hpick
    · simp only [SFUClient.stopScreenShare, hpub, hi.screenPubAbort, SFUClient.modify, send,
        Function.update_self, Function.update_idem]
  · refine ⟨({ · with live := false, pcOpen := false }), ?_, ?_⟩
    · refine ⟨rfl, rfl, fun ho => absurd (hover.symm.trans ho) (by decide), ?_, hpick⟩
      rw [hover]
      decide
    · simp only [SFUClient.stopScreenShare, hpub, hr.screenPubAbort]

lemma stopScreenShare_next : c.stopScreenShare.next = c.next := by
  cases hpub : c.screenPub with
  | none => rw [SFUClient.stopScreenShare, hpub]
  | some n =>
    obtain ⟨f, -, heq⟩ := hf.stopScreenShare_eq hpub
    rw [heq]
    rfl

lemma stopScreenShare_away (hpub : c.screenPub = some n) : c.stopScreenShare.Away n := by
  obtain ⟨f, hshut, heq⟩ := hf.stopScreenShare_eq hpub
  rw [heq]
  exact ⟨by simp, by simp, (modify_self (c.send (.stop n)) n f).symm ▸ hshut⟩

lemma stopScreenShare : c.stopScreenShare.Fits := by
  cases hpub : c.screenPub with
  | none =>
    rw [SFUClient.stopScreenShare, hpub]
    exact hf
  | some n =>
    have haway := hf.stopScreenShare_away hpub
    obtain ⟨f, hshut, heq⟩ := hf.stopScreenShare_eq hpub
    have hcur := (hf.stands n).current hpub
    have hstop : .stop n ∉ c.frames := hcur.elim (·.unstopped) (·.1.unstopped)
    have hn : n < c.next := hf.lt_next fun hi => by
      have hopen : (c.starts n).pcOpen = true := hcur.elim (·.pcOpen) (·.1.pcOpen)
      rw [hi] at hopen
      cases hopen
    rw [heq] at haway ⊢
    have hold {m} (hm : m ≠ n) : ((c.send (.stop n)).modify n f).starts m = c.starts m :=
      modify_of_ne _ hm f
    have hframes {g : Frame} (hg : g ∈ (c.send (.stop n)).frames) :
        g = .stop n ∨ g ∈ c.frames := by
      simp only [send] at hg
      split_ifs at hg
      · exact List.mem_cons.mp hg
      · exact .inr hg
    refine ⟨fun m => ?_, fun m hm => ?_, fun k m hk hm => ?_, fun m hm => ?_, ?_,
      fun hws m hm => ?_⟩
    · -- the share stopped was the current one, and no other stands for it
      rcases eq_or_ne m n with rfl | hm
      · exact haway.stands
      · have hother : c.screenPub ≠ some m := fun h =>
          hm (Option.some.inj (h.symm.trans hpub))
        obtain ha | ⟨-, hu⟩ := (hf.stands m).away hother
        · exact Away.stands (ha.congr (hold hm) (by simp) (by simp))
        · exact absurd (hu.screenPub.symm.trans hpub) (by simp)
    · have hle : c.next ≤ m := hm
      exact (hold (by omega)).trans (hf.idle m hm)
    · have hback {j} : (((c.send (.stop n)).modify n f).starts j).stage.Picking →
          (c.starts j).stage.Picking := picking_modify fun hp => absurd hp hshut.picking
      exact hf.single k m (hback hk) (hback hm)
    · rcases hm with hm | hm
      · exact hf.framed m (.inl ((hframes hm).resolve_left (by simp)))
      · rcases hframes hm with heq | hm
        · obtain rfl := Frame.stop.inj heq
          exact hn
        · exact hf.framed m (.inr hm)
    · -- the end of a share is told after its beginning
      change Orderly (if c.ws then .stop n :: c.frames else c.frames)
      split_ifs with hws
      · refine ⟨hstop, fun m hm => ?_, hf.orderly⟩
        exact Option.some.inj ((hf.told hws m hm).symm.trans hpub)
      · exact hf.orderly
    · replace hws : c.ws = true := hws
      change (if c.ws then .stop n :: c.frames else c.frames).head? = some (.start m) at hm
      rw [if_pos hws] at hm
      cases hm

lemma dead (hn : n < c.next) : (c.modify n ({ · with live := false })).Fits := by
  refine hf.modify hn ((hf.stands n).congr ?_ rfl rfl fun _ hin _ => hin) id
  rw [modify_self]
  exact ⟨rfl, rfl, rfl, fun _ => rfl⟩

lemma ends (hn : n < c.next) (hg : c.Gone n) : (c.modify n ({ · with stage := .over })).Fits := by
  refine hf.modify hn ?_ fun hp => ?_
  · rw [Stands, modify_self]
    exact .inr ⟨hg.screenPub, hg.screenPubAbort, by rw [modify_self]; exact hg.pcOpen,
      by rw [modify_self]; exact hg.live⟩
  · rcases hp with hp | hp <;> cases hp

lemma cleanup (hstage : (c.starts n).stage = .constraining ∨ (c.starts n).stage = .offering ∨
    (c.starts n).stage = .rejected) : (c.cleanup n).Fits := by
  have hn : n < c.next := hf.lt_next fun hi => by
    rw [hi] at hstage
    rcases hstage with h | h | h <;> cases h
  have hd := hf.dead hn
  rw [SFUClient.cleanup]
  split_ifs with habort
  · -- the share is still its own
    have hpub := ((hd.stands n).aborting habort).screenPub
    have haway := hd.stopScreenShare_away hpub
    rw [unsetAbort, if_neg haway.screenPubAbort]
    exact hd.stopScreenShare.ends (by rw [hd.stopScreenShare_next]; exact hn) haway.gone
  · rw [unsetAbort, if_neg habort]
    refine hd.ends hn ?_
    by_cases hpub : (c.modify n ({ · with live := false })).screenPub = some n
    · obtain hi | ⟨-, hover⟩ := (hd.stands n).current hpub
      · exact absurd hi.screenPubAbort habort
      · rw [modify_self] at hover
        rcases hstage with h | h | h <;> rw [h] at hover <;> cases hover
    · obtain ha | ⟨-, hu⟩ := (hd.stands n).away hpub
      · exact ha.gone
      · exact ⟨hpub, habort, hu.pcOpen, by rw [modify_self]⟩

lemma install (hstage : (c.starts n).stage = .constraining) : (c.install n).Fits := by
  have hpick : (c.starts n).stage.Picking := .inr hstage
  have hu := hf.pick_stands hpick
  have hn : n < c.next := hf.lt_next_of_stage (by rw [hstage]; decide)
  have hold {m} (hm : m ≠ n) : (c.install n).starts m = c.starts m :=
    modify_of_ne c hm ({ · with stage := .offering, pcOpen := true, listening := true })
  refine ⟨fun m => ?_, fun m hm => ?_, fun k m hk hm => ?_, hf.framed, hf.orderly,
    fun hws m hm => ?_⟩
  · rcases eq_or_ne m n with rfl | hm
    · rw [Stands, SFUClient.install, modify_self]
      exact .inl ⟨⟨rfl, rfl, by rw [modify_self], by rw [modify_self]; exact hu.aborted,
        hu.unstopped⟩, hu.unstarted⟩
    · have hne : some n ≠ some m := fun h => hm (Option.some.inj h).symm
      obtain ha | ⟨hp, -⟩ := (hf.stands m).away (by rw [hu.screenPub]; simp)
      · exact Away.stands (ha.congr (hold hm) hne hne)
      · -- two starts would be picking at once
        exact absurd (hf.single m n hp hpick) hm
  · have hle : c.next ≤ m := hm
    exact (hold (by omega)).trans (hf.idle m hm)
  · have hback {j} : ((c.install n).starts j).stage.Picking → (c.starts j).stage.Picking :=
      @picking_modify c j n ({ · with stage := .offering, pcOpen := true, listening := true })
        fun _ => hpick
    exact hf.single k m (hback hk) (hback hm)
  · exact absurd ((hf.told hws m hm).symm.trans hu.screenPub) (by simp)

lemma described (hstage : (c.starts n).stage = .offering) (hlive : (c.starts n).aborted = false) :
    ((c.send (.start n)).modify n ({ · with stage := .waiting })).Fits := by
  have hn : n < c.next := hf.lt_next_of_stage (by rw [hstage]; decide)
  have hstands := hf.stands n
  rw [Stands, hstage] at hstands
  obtain ⟨hi, hunsent⟩ := hstands.resolve_right fun h => by
    rw [h.2] at hlive
    cases hlive
  have hframes {g : Frame} (hg : g ∈ (c.send (.start n)).frames) : g = .start n ∨ g ∈ c.frames := by
    simp only [send] at hg
    split_ifs at hg
    · exact List.mem_cons.mp hg
    · exact .inr hg
  refine ⟨fun m => ?_, fun m hm => ?_, fun k m hk hm => ?_, fun m hm => ?_, ?_, fun hws m hm => ?_⟩
  · rcases eq_or_ne m n with rfl | hm
    · rw [Stands, modify_self]
      refine ⟨hi.screenPub, hi.screenPubAbort, by rw [modify_self]; exact hi.pcOpen,
        by rw [modify_self]; exact hi.aborted, fun hin => ?_⟩
      exact hi.unstopped ((hframes hin).resolve_left (by simp))
    · refine (hf.stands m).congr (.of_eq (modify_of_ne _ hm _)) rfl rfl fun g hg hgm => ?_
      refine (hframes hg).resolve_left fun heq => ?_
      rcases hgm with rfl | rfl
      · exact hm (Frame.start.inj heq)
      · cases heq
  · have hle : c.next ≤ m := hm
    exact (modify_of_ne _ (show m ≠ n by omega) _).trans (hf.idle m hm)
  · have hback {j} : (((c.send (.start n)).modify n ({ · with stage := .waiting })).starts j
        ).stage.Picking → (c.starts j).stage.Picking := picking_modify fun hp => by
      rcases hp with hp | hp <;> cases hp
    exact hf.single k m (hback hk) (hback hm)
  · rcases hm with hm | hm
    · rcases hframes hm with heq | hm
      · obtain rfl := Frame.start.inj heq
        exact hn
      · exact hf.framed m (.inl hm)
    · exact hf.framed m (.inr ((hframes hm).resolve_left (by simp)))
  · change Orderly (if c.ws then .start n :: c.frames else c.frames)
    split_ifs with hws
    · refine ⟨hunsent, hi.unstopped, fun m hm => ?_, hf.orderly⟩
      -- what the server was told last is of the current share, and this is another
      obtain rfl : m = n := Option.some.inj ((hf.told hws m hm).symm.trans hi.screenPub)
      exact hunsent (List.mem_of_mem_head? hm)
    · exact hf.orderly
  · replace hws : c.ws = true := hws
    change (if c.ws then .start n :: c.frames else c.frames).head? = some (.start m) at hm
    rw [if_pos hws] at hm
    obtain rfl : n = m := Frame.start.inj (Option.some.inj hm)
    exact hi.screenPub

lemma finished (hstage : (c.starts n).stage = .answered) :
    ((c.modify n ({ · with stage := .over })).unsetAbort n).Fits := by
  have hn : n < c.next := hf.lt_next_of_stage (by rw [hstage]; decide)
  have hstands := hf.stands n
  rw [Stands, hstage] at hstands
  rcases hstands with hi | hg
  · -- it is still the current share
    have hold {m} (hm : m ≠ n) : (c.modify n ({ · with stage := .over })).starts m = c.starts m :=
      modify_of_ne c hm _
    rw [unsetAbort, if_pos (show (c.modify n _).screenPubAbort = some n from hi.screenPubAbort)]
    refine ⟨fun m => ?_, fun m hm => ?_, fun k m hk hm => ?_, hf.framed, hf.orderly, hf.told⟩
    · rcases eq_or_ne m n with rfl | hm
      · rw [Stands, modify_self]
        exact .inl ⟨hi.screenPub, rfl, by rw [modify_self]; exact hi.pcOpen,
          by rw [modify_self]; exact hi.aborted, hi.unstopped⟩
      · have hother : c.screenPub ≠ some m := fun h =>
          hm (Option.some.inj (h.symm.trans hi.screenPub))
        obtain ha | ⟨-, hu⟩ := (hf.stands m).away hother
        · exact Away.stands (ha.congr (hold hm) hother (by simp))
        · exact absurd (hu.screenPub.symm.trans hi.screenPub) (by simp)
    · have hle : c.next ≤ m := hm
      exact (hold (by omega)).trans (hf.idle m hm)
    · have hback {j} : ((c.modify n ({ · with stage := .over })).starts j).stage.Picking →
          (c.starts j).stage.Picking := picking_modify fun hp => absurd hp not_picking_over
      exact hf.single k m (hback hk) (hback hm)
  · -- it was stopped meanwhile
    rw [unsetAbort, if_neg (show (c.modify n _).screenPubAbort ≠ some n from hg.screenPubAbort)]
    exact hf.ends hn hg

lemma begins (hpub : c.screenPub = none) (hs : ∀ n < c.next, ¬ (c.starts n).stage.Picking) :
    ({ c.modify c.next ({ · with stage := .asking }) with next := c.next + 1 } :
      SFUClient).Fits := by
  have hidle := hf.idle c.next le_rfl
  have hold {m} (hm : m ≠ c.next) :
      (c.modify c.next ({ · with stage := .asking })).starts m = c.starts m := modify_of_ne c hm _
  have hunsent (h : .start c.next ∈ c.frames ∨ .stop c.next ∈ c.frames) : False :=
    Nat.lt_irrefl _ (hf.framed c.next h)
  refine ⟨fun m => ?_, fun m hm => ?_, fun k m hk hm => ?_,
    fun m hm => Nat.lt_succ_of_lt (hf.framed m hm), hf.orderly, hf.told⟩
  · rcases eq_or_ne m c.next with rfl | hm
    · rw [Stands, modify_self, hidle]
      exact ⟨⟨hpub, hf.abort_none hpub, by rw [modify_self, hidle]; rfl,
        by rw [modify_self, hidle]; rfl, fun h => hunsent (.inl h), fun h => hunsent (.inr h)⟩, rfl⟩
    · exact (hf.stands m).congr (.of_eq (hold hm)) rfl rfl fun _ hin _ => hin
  · have hle : c.next + 1 ≤ m := hm
    exact (hold (by omega)).trans (hf.idle m (by omega))
  · -- no other start is picking
    have hnew {j} (hj : ((c.modify c.next ({ · with stage := .asking })).starts j).stage.Picking) :
        j = c.next := by
      by_contra hne
      rw [hold hne] at hj
      refine hs j (hf.lt_next fun hi => ?_) hj
      rw [hi] at hj
      rcases hj with hj | hj <;> cases hj
    exact (hnew hk).trans (hnew hm).symm

lemma step (hs : c.Single o) (h : c.step o = some c') : c'.Fits := by
  cases o <;> simp only [SFUClient.step, Option.ite_none_right_eq_some, Option.some.injEq] at h
  case start =>
    split_ifs at h with hpub <;> cases h
    · -- something is shared already
      exact hf
    · rw [Option.not_isSome_iff_eq_none] at hpub
      exact hf.begins hpub (hs.resolve_left (by rw [hpub]; simp))
  case refused n =>
    obtain ⟨hstage, rfl⟩ := h
    have hstands := hf.stands n
    rw [Stands, hstage] at hstands
    obtain ⟨hu, hlive⟩ := hstands
    have hn := hf.lt_next_of_stage (by rw [hstage]; decide)
    refine hf.ends hn ⟨?_, ?_, hu.pcOpen, hlive⟩
    · rw [hu.screenPub]
      simp
    · rw [hu.screenPubAbort]
      simp
  case captured n video =>
    obtain ⟨hstage, rfl⟩ := h
    have hn : n < c.next := hf.lt_next_of_stage (by rw [hstage]; decide)
    have hstands := hf.stands n
    rw [Stands, hstage] at hstands
    obtain ⟨hu, hlive⟩ := hstands
    cases video with
    | true =>
      -- what was picked has a picture
      refine hf.modify hn ?_ fun _ => .inl hstage
      rw [Stands, modify_self]
      exact ⟨hu.screenPub, hu.screenPubAbort, by rw [modify_self]; exact hu.pcOpen,
        by rw [modify_self]; exact hu.aborted, hu.unstarted, hu.unstopped⟩
    | false =>
      -- there is no picture to share
      refine hf.ends hn ⟨?_, ?_, hu.pcOpen, hlive⟩
      · rw [hu.screenPub]
        simp
      · rw [hu.screenPubAbort]
        simp
  case constrained n how =>
    obtain ⟨hstage, h⟩ := h
    cases how with
    | done =>
      obtain rfl := Option.some.inj h
      exact hf.install hstage
    | noConnection =>
      obtain rfl := Option.some.inj h
      exact hf.cleanup (.inl hstage)
    | throws =>
      obtain rfl := Option.some.inj h
      refine (hf.install hstage).cleanup (.inr (.inl ?_))
      rw [SFUClient.install, modify_self]
  case described n ok =>
    obtain ⟨hstage, h⟩ := h
    split_ifs at h with hok <;> cases h
    · rw [Bool.and_eq_true, Bool.not_eq_true'] at hok
      exact hf.described hstage hok.2
    · exact hf.cleanup (.inr (.inl hstage))
  case stable n =>
    obtain ⟨hopen, rfl⟩ := h
    have hn : n < c.next := hf.lt_next fun hi => by
      rw [hi] at hopen
      cases hopen
    -- an answer is of use only to a start that waits for one
    by_cases hstage : (c.starts n).stage = .waiting
    · have hstands := hf.stands n
      rw [Stands, hstage] at hstands
      refine hf.modify hn ?_ ?_
      · rw [Stands, modify_self, if_pos hstage]
        exact .inl ⟨hstands.screenPub, hstands.screenPubAbort,
          by rw [modify_self, if_pos hstage]; exact hstands.pcOpen,
          by rw [modify_self, if_pos hstage]; exact hstands.aborted, hstands.unstopped⟩
      · rw [if_pos hstage]
        intro hp
        rcases hp with hp | hp <;> cases hp
    · refine hf.modify hn ((hf.stands n).congr ?_ rfl rfl fun _ hin _ => hin) ?_
      · rw [modify_self, if_neg hstage]
        exact .of_eq rfl
      · rw [if_neg hstage]
        exact id
  case timeout n =>
    obtain ⟨hstage, rfl⟩ := h
    have hstands := hf.stands n
    rw [Stands, hstage] at hstands
    refine hf.modify (hf.lt_next_of_stage (by rw [hstage]; decide)) ?_ fun hp => ?_
    · rw [Stands, modify_self]
      exact .inl ⟨hstands.screenPub, hstands.screenPubAbort,
        by rw [modify_self]; exact hstands.pcOpen, by rw [modify_self]; exact hstands.aborted,
        hstands.unstopped⟩
    · rcases hp with hp | hp <;> cases hp
  case caught n =>
    obtain ⟨hstage, rfl⟩ := h
    exact hf.cleanup (.inr (.inr hstage))
  case finished n =>
    obtain ⟨hstage, rfl⟩ := h
    exact hf.finished hstage
  case stop | shareError =>
    cases h
    exact hf.stopScreenShare
  case ended n =>
    obtain ⟨hlive, rfl⟩ := h
    have hd := hf.dead (hf.lt_next fun hi => by rw [hi] at hlive; cases hlive)
    -- a start that listens stops the share
    split_ifs
    · exact hd.stopScreenShare
    · exact hd
  case failed n =>
    obtain ⟨-, rfl⟩ := h
    exact hf.stopScreenShare
  case started =>
    cases h
    exact ⟨fun m => (hf.stands m).congr (.of_eq rfl) rfl rfl fun _ hin _ => hin, hf.idle, hf.single,
      hf.framed, hf.orderly, hf.told⟩
  case shareEnded =>
    split_ifs at h <;> cases h
    · exact hf.stopScreenShare
    · exact hf
  case connected =>
    cases h
    -- a new socket has been told nothing
    refine ⟨fun m => (hf.stands m).congr (.of_eq rfl) rfl rfl fun _ hin _ => ?_, hf.idle, hf.single,
      fun m hm => ?_, trivial, fun _ m hm => ?_⟩
    · cases hin
    · rcases hm with hm | hm <;> cases hm
    · cases hm
  case closed =>
    cases h
    exact ⟨fun m => (hf.stands m).congr (.of_eq rfl) rfl rfl fun _ hin _ => hin, hf.idle, hf.single,
      hf.framed, hf.orderly, fun hws => by cases hws⟩

end Fits

/-! ### What is on at any time -/

/-- Nothing is on but what the current share needs, and the server is told as much. -/
structure Tidy (c : SFUClient) : Prop where
  captures : ∀ n, (c.starts n).live = true →
    c.screenPub = some n ∨ (c.starts n).stage = .constraining
  connections : ∀ n, (c.starts n).pcOpen = true ↔ c.screenPub = some n
  frames : Orderly c.frames
  told : c.ws = true → ∀ n, c.frames.head? = some (.start n) → c.screenPub = some n
  /-- A start whose abort fired has nothing, and waits for no answer. -/
  stopped : ∀ n, (c.starts n).aborted = true → (c.starts n).stage ≠ .waiting ∧
    c.screenPub ≠ some n ∧ (c.starts n).live = false ∧ (c.starts n).pcOpen = false

/-- Start `n` has its capture or will not have it, and has the current share only if it `may`. -/
structure Picked (may : Prop) (c : SFUClient) (n : ℕ) : Prop where
  lt : n < c.next
  picking : ¬ (c.starts n).stage.Picking
  screenPub : c.screenPub = some n → may

section Picked

variable {may : Prop}

lemma picking_stopScreenShare (h : (c.stopScreenShare.starts n).stage.Picking) :
    (c.starts n).stage.Picking := by
  have hlet {d : SFUClient} {k : ℕ} (hd : ((d.modify k
      ({ · with live := false, pcOpen := false })).starts n).stage.Picking) :
      (d.starts n).stage.Picking := picking_modify (fun hp => hp) hd
  cases hpub : c.screenPub with
  | none =>
    rw [SFUClient.stopScreenShare, hpub] at h
    exact h
  | some k =>
    cases habort : c.screenPubAbort with
    | none =>
      simp only [SFUClient.stopScreenShare, hpub, habort] at h
      exact @hlet (c.send (.stop k)) k h
    | some m =>
      simp only [SFUClient.stopScreenShare, hpub, habort] at h
      -- an abort moves only a start that waits for the server
      refine picking_modify (fun hp => ?_) (@hlet ((c.modify m Start.abort).send (.stop k)) k h)
      simp only [Start.abort] at hp
      split_ifs at hp
      · rcases hp with hp | hp <;> cases hp
      · exact hp

lemma screenPub_stopScreenShare (h : c.stopScreenShare.screenPub = some n) :
    c.screenPub = some n := by
  unfold SFUClient.stopScreenShare at h
  split at h
  · exact h
  · cases h

lemma next_stopScreenShare : c.stopScreenShare.next = c.next := by
  unfold SFUClient.stopScreenShare
  split
  · rfl
  · split <;> rfl

lemma Picked.stopScreenShare (h : Picked may c n) : Picked may c.stopScreenShare n :=
  ⟨next_stopScreenShare.symm ▸ h.lt, mt picking_stopScreenShare h.picking,
    fun hpub => h.screenPub (screenPub_stopScreenShare hpub)⟩

lemma Picked.modify (h : Picked may c n)
    (hf : (f (c.starts m)).stage.Picking → (c.starts m).stage.Picking) : Picked may (c.modify m f) n :=
  ⟨h.lt, mt (picking_modify hf) h.picking, h.screenPub⟩

lemma Picked.unsetAbort (h : Picked may c n) (m : ℕ) : Picked may (c.unsetAbort m) n := by
  unfold SFUClient.unsetAbort
  split
  · exact ⟨h.lt, h.picking, h.screenPub⟩
  · exact h

lemma Picked.cleanup (h : Picked may c n) (m : ℕ) : Picked may (c.cleanup m) n := by
  unfold SFUClient.cleanup
  refine Picked.modify (Picked.unsetAbort ?_ m) fun hp => absurd hp not_picking_over
  split
  · exact (h.modify id).stopScreenShare
  · exact h.modify id

lemma Picked.install (h : Picked may c n) (hstage : (c.starts m).stage = .constraining) :
    Picked may (c.install m) n := by
  have hne : m ≠ n := by
    rintro rfl
    exact h.picking (.inr hstage)
  refine ⟨h.lt, ?_, fun hpub => absurd (Option.some.inj hpub) hne⟩
  rw [SFUClient.install, modify_of_ne c hne.symm]
  exact h.picking

lemma Picked.send (h : Picked may c n) (g : Frame) : Picked may (c.send g) n := ⟨h.lt, h.picking, h.screenPub⟩

lemma Picked.step (h : Picked may c n) (hs : c.step o = some c') : Picked may c' n := by
  cases o <;> simp only [SFUClient.step, Option.ite_none_right_eq_some, Option.some.injEq] at hs
  case start =>
    split_ifs at hs <;> cases hs
    · exact h
    · have hne : n ≠ c.next := h.lt.ne
      -- the number is a new one
      exact ⟨Nat.lt_succ_of_lt h.lt, by rw [modify_of_ne c hne]; exact h.picking, h.screenPub⟩
  case refused m =>
    obtain ⟨-, rfl⟩ := hs
    exact h.modify fun hp => absurd hp not_picking_over
  case captured m video =>
    obtain ⟨hstage, rfl⟩ := hs
    exact h.modify fun _ => .inl hstage
  case constrained m how =>
    obtain ⟨hstage, hs⟩ := hs
    cases how <;> obtain rfl := Option.some.inj hs
    · exact h.install hstage
    · exact h.cleanup m
    · exact (h.install hstage).cleanup m
  case described m ok =>
    obtain ⟨-, hs⟩ := hs
    split_ifs at hs <;> obtain rfl := Option.some.inj hs
    · exact (h.send _).modify fun hp => by rcases hp with hp | hp <;> cases hp
    · exact h.cleanup m
  case stable m =>
    obtain ⟨-, rfl⟩ := hs
    refine h.modify fun hp => ?_
    split_ifs at hp
    · rcases hp with hp | hp <;> cases hp
    · exact hp
  case timeout m =>
    obtain ⟨-, rfl⟩ := hs
    exact h.modify fun hp => by rcases hp with hp | hp <;> cases hp
  case caught m =>
    obtain ⟨-, rfl⟩ := hs
    exact h.cleanup m
  case finished m =>
    obtain ⟨-, rfl⟩ := hs
    exact Picked.unsetAbort (h.modify fun hp => absurd hp not_picking_over) m
  case stop | shareError =>
    cases hs
    exact h.stopScreenShare
  case ended m =>
    obtain ⟨-, rfl⟩ := hs
    split_ifs
    · exact Picked.stopScreenShare (h.modify id)
    · exact h.modify id
  case failed m =>
    obtain ⟨-, rfl⟩ := hs
    exact h.stopScreenShare
  case shareEnded =>
    split_ifs at hs <;> cases hs
    · exact h.stopScreenShare
    · exact h
  case started | connected | closed =>
    cases hs
    exact ⟨h.lt, h.picking, h.screenPub⟩

end Picked

instance (c : SFUClient) : ∀ o, Decidable (c.Single o)
  | .start => inferInstanceAs (Decidable (_ ∨ ∀ n < c.next, ¬ _))
  | .refused _ | .captured .. | .constrained .. | .described .. | .stable _ | .timeout _ | .caught _
  | .finished _ | .stop | .ended _ | .failed _ | .started | .shareEnded | .shareError | .connected
  | .closed => inferInstanceAs (Decidable True)

/-- Two shares wait for their captures at once. -/
def twoPickers : List Op :=
  [.start, .start, .captured 0 true, .captured 1 true, .constrained 0 .done, .constrained 1 .done]

/-- **They do get mixed up in some runs**: of two shares that wait for their captures at once, the
first is never closed. -/
theorem share_untidy : ¬ ∀ c, Reach step free new c → c.Tidy := by
  intro h
  have htidy := h _ (Reach.of_isSome (meets_free _ twoPickers) (by decide +kernel))
  have hopen : (((run step new twoPickers).getD new).starts 0).pcOpen = true := by decide +kernel
  have hpub := (htidy.connections 0).mp hopen
  exact absurd hpub (by decide +kernel)

end SFUClient

end VoiceHub.Client.ScreenPublish
