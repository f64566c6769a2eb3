import Mathlib
import VoiceHub.Lib.Transducer
import VoiceHub.Hotkey.Keys

/-!
The recorder of a keyboard binding.

It keeps the codes of the keys that are held and the largest set of labels seen; the
release of the last held key commits that set. A binding it commits is made of labels of
keys, and of at least one.
-/

namespace VoiceHub.Hotkey.Capture

open VoiceHub.Lib.Transducer VoiceHub.Hotkey.Keys

structure CaptureState where
  pressedCodes : List String
  peakKeys : List String
deriving DecidableEq

def CaptureState.new : CaptureState := ⟨[], []⟩

def recompute (s : CaptureState) : CaptureState :=
  let keys := canonicalizeKeys (s.pressedCodes.filterMap labelFromCode)
  if s.peakKeys.length ≤ keys.length then { s with peakKeys := keys } else s

/-- `pressedCodes.add(code)`, on a set that keeps the order of insertion. -/
def addCode (s : CaptureState) (code : String) : CaptureState :=
  if code ∈ s.pressedCodes then s else { s with pressedCodes := s.pressedCodes ++ [code] }

def onKeyDown (s : CaptureState) (code : String) (isRepeat : Bool) : CaptureState :=
  if isRepeat then s else recompute (addCode s code)

def onKeyUp (s : CaptureState) (code : String) : CaptureState × Option InputBinding :=
  let s := recompute { s with pressedCodes := s.pressedCodes.filter (· ≠ code) }
  (s, if s.pressedCodes = [] ∧ s.peakKeys ≠ [] then some (.Keyboard s.peakKeys) else none)

inductive CaptureEvent
  | keyDown (k : Key) (isRepeat : Bool)
  | keyUp (k : Key)
  | blur

/-- What the recorder does on an event, and the binding it commits. -/
def capture (s : CaptureState) : CaptureEvent → CaptureState × Option InputBinding
  | .keyDown k isRepeat => (onKeyDown s k.code isRepeat, none)
  | .keyUp k => onKeyUp s k.code
  | .blur => (.new, none)

/-- Some use of the keyboard makes the recorder commit these keys. -/
def Recorded (keys : List String) : Prop :=
  ∃ events, some (.Keyboard keys) ∈ outputs capture .new events

/-! ## What is recorded -/

/-- The codes held are codes of keys, and so are the labels kept. -/
structure FromKeys (s : CaptureState) : Prop where
  code : ∀ code ∈ s.pressedCodes, ∃ k : Key, k.code = code
  label : ∀ l ∈ s.peakKeys, ∃ k : Key, k.label = some l

lemma mem_canonicalizeKeys {keys : List String} {l : String} (h : l ∈ canonicalizeKeys keys) :
    l ∈ keys := by
  rcases List.mem_append.mp h with h | h
  · simpa using (List.mem_filter.mp h).2
  · exact (List.mem_filter.mp h).1

lemma FromKeys.new : FromKeys .new :=
  ⟨by simp [CaptureState.new], by simp [CaptureState.new]⟩

lemma FromKeys.recompute {s : CaptureState} (h : FromKeys s) : FromKeys (recompute s) := by
  simp only [Capture.recompute]
  split
  · refine ⟨h.code, fun l hl => ?_⟩
    obtain ⟨code, hcode, hl⟩ := List.mem_filterMap.mp (mem_canonicalizeKeys hl)
    obtain ⟨k, rfl⟩ := h.code code hcode
    exact ⟨k, hl⟩
  · exact h

lemma FromKeys.addCode {s : CaptureState} (h : FromKeys s) (k : Key) :
    FromKeys (addCode s k.code) := by
  unfold Capture.addCode
  split
  · exact h
  · refine ⟨fun code hcode => ?_, h.label⟩
    rcases List.mem_append.mp hcode with hcode | hcode
    · exact h.code code hcode
    · exact ⟨k, (List.mem_singleton.mp hcode).symm⟩

lemma FromKeys.capture {s : CaptureState} (h : FromKeys s) (e : CaptureEvent) :
    FromKeys (capture s e).1 := by
  cases e with
  | keyDown k isRepeat =>
    simp only [Capture.capture, onKeyDown]
    split
    · exact h
    · exact (h.addCode k).recompute
  | keyUp k =>
    have hs : FromKeys { s with pressedCodes := s.pressedCodes.filter (· ≠ k.code) } :=
      ⟨fun code hcode => h.code code (List.mem_filter.mp hcode).1, h.label⟩
    exact hs.recompute
  | blur => exact .new

lemma fromKeys_after (events : List CaptureEvent) : FromKeys (after capture .new events) :=
  after_keeps .new (fun _ e h => h.capture e) events

lemma capture_commit {s : CaptureState} {e : CaptureEvent} {keys : List String}
    (h : (capture s e).2 = some (.Keyboard keys)) :
    (capture s e).1.peakKeys = keys ∧ keys ≠ [] := by
  cases e with
  | keyDown k isRepeat => cases h
  | keyUp k =>
    simp only [capture, onKeyUp] at h ⊢
    split at h
    · next hpeak =>
      obtain rfl := InputBinding.Keyboard.inj (Option.some.inj h)
      exact ⟨rfl, hpeak.2⟩
    · cases h
  | blur => cases h

variable {keys : List String}

/-- **What can be recorded.** A recorded binding has a key, and is made of labels of keys. -/
theorem Recorded.labels (h : Recorded keys) :
    keys ≠ [] ∧ ∀ l ∈ keys, ∃ k : Key, k.label = some l := by
  obtain ⟨events, h⟩ := h
  obtain ⟨pre, e, _, ho⟩ := mem_outputs h
  obtain ⟨hpeak, hne⟩ := capture_commit ho
  refine ⟨hne, fun l hl => ?_⟩
  have hk := (fromKeys_after pre).capture e
  exact hk.label l (by rwa [hpeak])

end VoiceHub.Hotkey.Capture
