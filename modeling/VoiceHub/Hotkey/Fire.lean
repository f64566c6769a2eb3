import Mathlib
import VoiceHub.Lib.Transducer
import VoiceHub.Hotkey.Keys
import VoiceHub.Hotkey.Capture

/-!
When a keyboard binding fires: in the desktop listener and on the web page.

Both are machines over presses and releases. The listener keeps the keys that are down; the
page keeps their labels, and reads the modifiers off the event. Cooldown and focus are left
out of the runs: the listener counts as unfocused, the page as focused.
-/

namespace VoiceHub.Hotkey.Fire

open VoiceHub.Lib.Transducer VoiceHub.Hotkey.Keys VoiceHub.Hotkey.Capture

/-! ## The listener -/

structure ListenerState where
  current : Option InputBinding
  capturing : Bool
  pressed : Finset Key
  windowFocused : Bool
deriving DecidableEq

def ListenerState.new (current : Option InputBinding) : ListenerState :=
  { current, capturing := false, pressed := ∅, windowFocused := false }

inductive EventType
  | KeyPress (k : Key)
  | KeyRelease (k : Key)
  | ButtonPress (b : Button)
  | other

/-- What the listener emits. -/
inductive Emit
  | toggleMute
  | inputCaptured (binding : InputBinding)
deriving DecidableEq

def isModifierOnlyBinding (b : Option InputBinding) : Bool :=
  match b with
  | some (.Keyboard keys) => !keys.isEmpty && keys.all isModifierLabel
  | _ => false

def matchesKeyboard (binding : Option InputBinding) (pressed : Finset Key) : Bool :=
  match binding with
  | some (.Keyboard keys) =>
    let modifiersMatch := MODIFIERS.all fun (name, variants) =>
      keys.any (· = name) == variants.any (· ∈ pressed)
    modifiersMatch && (keys.filter fun label => !isModifierLabel label).all fun label =>
      (labelToKey label).any (· ∈ pressed)
  | _ => false

def buttonLabel (b : Button) : Option String :=
  match b with
  | .Right => some "Right"
  | .Middle => some "Middle"
  | .Unknown n => some ("Side" ++ toString n)
  | .Left => none

def matchesMouse (current : Option InputBinding) (btn : Button) : Bool :=
  match current with
  | some (.Mouse button) => buttonLabel btn = some button
  | _ => false

def captureMouse (s : ListenerState) (btn : Button) : ListenerState × Option Emit :=
  match buttonLabel btn with
  | none => (s, none)
  | some label =>
    let binding := InputBinding.Mouse label
    ({ s with current := some binding, pressed := ∅, capturing := false },
      some (.inputCaptured binding))

def handleEvent (s : ListenerState) : EventType → ListenerState × Option Emit
  | .KeyPress k =>
    if k ∈ s.pressed then (s, none)
    else
      let s := { s with pressed := insert k s.pressed }
      if s.capturing || s.windowFocused then (s, none)
      else if (isModifier k == isModifierOnlyBinding s.current) &&
          matchesKeyboard s.current s.pressed then
        (s, some .toggleMute)
      else (s, none)
  | .KeyRelease k => ({ s with pressed := s.pressed.erase k }, none)
  | .ButtonPress b =>
    if s.capturing then captureMouse s b
    else if matchesMouse s.current b then (s, some .toggleMute)
    else (s, none)
  | .other => (s, none)

/-! ## The page -/

structure KeyboardEvent where
  code : String
  isRepeat : Bool
  ctrlKey : Bool
  shiftKey : Bool
  altKey : Bool
  metaKey : Bool

structure HookState where
  shortcut : Option InputBinding
  capturing : Bool
  joined : Bool
  focused : Bool
  pressed : Finset String
deriving DecidableEq

def HookState.new (shortcut : Option InputBinding) : HookState :=
  { shortcut, capturing := false, joined := true, focused := true, pressed := ∅ }

/-- The label of an event, where the hook takes it for true. -/
def eventLabel (e : KeyboardEvent) : Option String := (labelFromCode e.code).filter (· ≠ "")

/-- The checks of `onKeyDown` on the binding. -/
def requiredMet (required : List String) (e : KeyboardEvent) (pressed : Finset String) : Bool :=
  (required.contains "Ctrl" == e.ctrlKey) &&
  (required.contains "Shift" == e.shiftKey) &&
  (required.contains "Alt" == e.altKey) &&
  (required.contains "Meta" == e.metaKey) &&
  (eventLabel e).any required.contains &&
  required.all fun k => k ∈ ["Ctrl", "Shift", "Alt", "Meta"] || k ∈ pressed

/-- `onKeyDown`, and whether it calls `onTrigger`. -/
def onKeyDown (s : HookState) (e : KeyboardEvent) : HookState × Bool :=
  if e.isRepeat then (s, false)
  else
    let s := match eventLabel e with
      | some label => { s with pressed := insert label s.pressed }
      | none => s
    if !s.focused then (s, false)
    else
      match s.shortcut with
      | some (.Keyboard required) =>
        if s.capturing || !s.joined then (s, false)
        else (s, requiredMet required e s.pressed)
      | _ => (s, false)

def onKeyUp (s : HookState) (e : KeyboardEvent) : HookState :=
  match eventLabel e with
  | some label => { s with pressed := s.pressed.erase label }
  | none => s

/-! ## One keyboard, seen by both -/

/-- What happens to a key. The press of a key that is down is the repeat the system makes of
one that is held. -/
inductive KeyEvent
  | press (k : Key)
  | release (k : Key)

/-- The keys down after an event. -/
def hold (held : Finset Key) : KeyEvent → Finset Key
  | .press k => insert k held
  | .release k => held.erase k

/-- The keys down after some events. -/
def heldAfter (events : List KeyEvent) : Finset Key := events.foldl hold ∅

/-- What the listener gets. -/
def KeyEvent.type : KeyEvent → EventType
  | .press k => .KeyPress k
  | .release k => .KeyRelease k

/-- What the page gets for a key while `held` were down before and `now` are: a modifier's
flag is up while one of its keys is down, the key of the event included. -/
def keyboardEvent (held now : Finset Key) (k : Key) : KeyboardEvent where
  code := k.code
  isRepeat := k ∈ held
  ctrlKey := .ControlLeft ∈ now || .ControlRight ∈ now
  shiftKey := .ShiftLeft ∈ now || .ShiftRight ∈ now
  altKey := .Alt ∈ now || .AltGr ∈ now
  metaKey := .MetaLeft ∈ now || .MetaRight ∈ now

/-- The listener on what happens to the keys, and whether it fires. -/
def native (s : ListenerState) (e : KeyEvent) : ListenerState × Bool :=
  let (s, emitted) := handleEvent s e.type
  (s, emitted = some .toggleMute)

/-- The keyboard in front of the page, and the hook on it. -/
structure Page where
  held : Finset Key
  hook : HookState
deriving DecidableEq

/-- The hook on what happens to the keys, and whether it fires. -/
def web (s : Page) (e : KeyEvent) : Page × Bool :=
  let now := hold s.held e
  match e with
  | .press k =>
    let (hook, fired) := onKeyDown s.hook (keyboardEvent s.held now k)
    (⟨now, hook⟩, fired)
  | .release k => (⟨now, onKeyUp s.hook (keyboardEvent s.held now k)⟩, false)

/-- On which of the events the listener fires. -/
def nativeFires (keys : List String) (events : List KeyEvent) : List Bool :=
  outputs native (.new (some (.Keyboard keys))) events

/-- On which of the events the page fires. -/
def webFires (keys : List String) (events : List KeyEvent) : List Bool :=
  outputs web ⟨∅, .new (some (.Keyboard keys))⟩ events

/-! ## The complete combination -/

/-- Of the modifiers exactly the bound ones are down, and all the bound keys are. -/
structure Complete (keys : List String) (held : Finset Key) : Prop where
  modifier : ∀ k ∈ held, isModifier k = true → ∃ l ∈ keys, k.label = some l
  bound : ∀ l ∈ keys, ∃ k ∈ held, k.label = some l

/-- The key is one of the binding's. -/
def Bound (keys : List String) (k : Key) : Prop := ∃ l ∈ keys, k.label = some l

/-- The binding is of modifiers only, or the key is its trigger: bound, and no modifier. -/
def Triggers (keys : List String) (k : Key) : Prop :=
  (∀ l ∈ keys, isModifierLabel l = true) ∨ (isModifier k = false ∧ Bound keys k)

variable {keys : List String} {held now : Finset Key} {k : Key} {pressed : Finset String}

lemma beq_eq_true_iff (a b : Bool) : (a == b) = true ↔ (a = true ↔ b = true) := by
  cases a <;> cases b <;> simp

lemma complete_iff : Complete keys held ↔
    (∀ m ∈ MODIFIERS, m.1 ∈ keys ↔ ∃ v ∈ m.2, v ∈ held) ∧
      ∀ l ∈ keys, isModifierLabel l = false → ∃ k ∈ held, k.label = some l := by
  constructor
  · intro h
    refine ⟨fun m hm => ⟨fun hkeys => ?_, ?_⟩, fun l hl _ => h.bound l hl⟩
    · obtain ⟨k, hk, hl⟩ := h.bound m.1 hkeys
      exact ⟨k, (mem_variants hm k).mpr hl, hk⟩
    · rintro ⟨v, hv, hheld⟩
      have hlabel : v.label = some m.1 := (mem_variants hm v).mp hv
      have hmod : isModifier v = true :=
        (isModifier_iff v).mpr ⟨m.1, hlabel, (isModifierLabel_iff m.1).mpr ⟨m, hm, rfl⟩⟩
      obtain ⟨l, hl, hl'⟩ := h.modifier v hheld hmod
      obtain rfl : m.1 = l := Option.some.inj (hlabel.symm.trans hl')
      exact hl
  · rintro ⟨hmods, hrest⟩
    refine ⟨fun k hk hmod => ?_, fun l hl => ?_⟩
    · obtain ⟨l, hl, hml⟩ := (isModifier_iff k).mp hmod
      obtain ⟨m, hm, rfl⟩ := (isModifierLabel_iff l).mp hml
      exact ⟨m.1, (hmods m hm).mpr ⟨k, (mem_variants hm k).mpr hl, hk⟩, hl⟩
    · rcases hml : isModifierLabel l with _ | _
      · exact hrest l hl hml
      · obtain ⟨m, hm, rfl⟩ := (isModifierLabel_iff l).mp hml
        obtain ⟨v, hv, hheld⟩ := (hmods m hm).mp hl
        exact ⟨v, hheld, (mem_variants hm v).mp hv⟩

lemma labelToKey_held {l : String} (hl : ∃ k : Key, k.label = some l)
    (hm : isModifierLabel l = false) :
    (labelToKey l).any (· ∈ held) = true ↔ ∃ k ∈ held, k.label = some l := by
  obtain ⟨k, hk⟩ := hl
  rw [labelToKey_label hk hm]
  simp only [Option.any_some, decide_eq_true_eq]
  constructor
  · intro hheld
    exact ⟨k, hheld, hk⟩
  · rintro ⟨k', hheld, hk'⟩
    obtain rfl := label_inj hk hk' hm
    exact hheld

lemma matchesKeyboard_iff (h : ∀ l ∈ keys, ∃ k : Key, k.label = some l) :
    matchesKeyboard (some (.Keyboard keys)) held = true ↔ Complete keys held := by
  have hmods : (MODIFIERS.all fun m => keys.any (· = m.1) == m.2.any (· ∈ held)) = true ↔
      ∀ m ∈ MODIFIERS, m.1 ∈ keys ↔ ∃ v ∈ m.2, v ∈ held := by
    rw [List.all_eq_true]
    refine forall₂_congr fun m _ => ?_
    rw [beq_eq_true_iff]
    simp
  have hrest : ((keys.filter fun l => !isModifierLabel l).all fun l =>
        (labelToKey l).any (· ∈ held)) = true ↔
      ∀ l ∈ keys, isModifierLabel l = false → ∃ k ∈ held, k.label = some l := by
    simp only [List.all_eq_true, List.mem_filter, Bool.not_eq_true', and_imp]
    exact forall₃_congr fun l hl hm => labelToKey_held (h l hl) hm
  rw [complete_iff, ← hmods, ← hrest, ← Bool.and_eq_true]
  rfl

lemma eventLabel_keyboardEvent : eventLabel (keyboardEvent held now k) = k.label := by
  have : labelFromCode k.code = k.label := rfl
  simp only [eventLabel, keyboardEvent, this]
  rcases hl : k.label with _ | l
  · rfl
  · have : l ≠ "" := by
      rintro rfl
      exact label_ne_empty k hl
    simp [this]

/-- The labels the page keeps, where they are not of modifiers: those of the keys down. -/
def Tracks (pressed : Finset String) (held : Finset Key) : Prop :=
  ∀ k l, k.label = some l → isModifierLabel l = false → (l ∈ pressed ↔ k ∈ held)

lemma requiredMet_iff (h : ∀ l ∈ keys, ∃ k : Key, k.label = some l) (ht : Tracks pressed now) :
    requiredMet keys (keyboardEvent held now k) pressed = true ↔
      Complete keys now ∧ Bound keys k := by
  have hmods : (∀ m ∈ MODIFIERS, m.1 ∈ keys ↔ ∃ v ∈ m.2, v ∈ now) ↔
      (keys.contains "Ctrl" == (keyboardEvent held now k).ctrlKey) = true ∧
      (keys.contains "Shift" == (keyboardEvent held now k).shiftKey) = true ∧
      (keys.contains "Alt" == (keyboardEvent held now k).altKey) = true ∧
      (keys.contains "Meta" == (keyboardEvent held now k).metaKey) = true := by
    simp only [beq_eq_true_iff]
    simp [keyboardEvent, MODIFIERS]
  have hbound : (eventLabel (keyboardEvent held now k)).any keys.contains = true ↔
      Bound keys k := by
    rw [eventLabel_keyboardEvent, Bound]
    cases k.label <;> simp
  have hrest : (keys.all fun l => l ∈ ["Ctrl", "Shift", "Alt", "Meta"] || l ∈ pressed) = true ↔
      ∀ l ∈ keys, isModifierLabel l = false → ∃ k ∈ now, k.label = some l := by
    rw [List.all_eq_true]
    refine forall₂_congr fun l hl => ?_
    have hlabel : l ∈ ["Ctrl", "Shift", "Alt", "Meta"] ↔ isModifierLabel l = true := by
      simp [@eq_comm _ l, isModifierLabel, MODIFIERS]
    obtain ⟨k, hk⟩ := h l hl
    rcases hm : isModifierLabel l with _ | _
    · have hheld : (∃ k ∈ now, k.label = some l) ↔ k ∈ now := by
        rw [← labelToKey_held ⟨k, hk⟩ hm, labelToKey_label hk hm]
        simp
      rw [hheld, ← ht k l hk hm, Bool.or_eq_true, decide_eq_true_eq, decide_eq_true_eq, hlabel]
      simp [hm]
    · rw [Bool.or_eq_true, decide_eq_true_eq, hlabel]
      simp [hm]
  rw [complete_iff, hmods, ← hrest, ← hbound]
  simp only [requiredMet, Bool.and_eq_true]
  tauto

/-! ## One press -/

/-- The states of the two sides while `held` are down. -/
structure Alike (keys : List String) (s : ListenerState) (p : Page) : Prop where
  current : s.current = some (.Keyboard keys)
  listening : s.capturing = false ∧ s.windowFocused = false
  shortcut : p.hook.shortcut = some (.Keyboard keys)
  active : p.hook.capturing = false ∧ p.hook.joined = true ∧ p.hook.focused = true
  held : s.pressed = p.held
  tracks : Tracks p.hook.pressed p.held

lemma Tracks.press (ht : Tracks pressed held) (k : Key) :
    Tracks (match k.label with
      | some label => insert label pressed
      | none => pressed) (insert k held) := by
  intro k' l hl hm
  have ih := ht k' l hl hm
  by_cases hk : k' = k
  · subst hk
    simp [hl]
  · rcases hl' : k.label with _ | l'
    · simp [hk, ih]
    · have hne : l ≠ l' := by
        rintro rfl
        exact hk (label_inj hl hl' hm)
      simp [hk, hne, ih]

lemma Tracks.release (ht : Tracks pressed held) (k : Key) :
    Tracks (match k.label with
      | some label => pressed.erase label
      | none => pressed) (held.erase k) := by
  intro k' l hl hm
  have ih := ht k' l hl hm
  by_cases hk : k' = k
  · subst hk
    simp [hl]
  · rcases hl' : k.label with _ | l'
    · simp [hk, ih]
    · have hne : l ≠ l' := by
        rintro rfl
        exact hk (label_inj hl hl' hm)
      simp [hk, hne, ih]

lemma onKeyDown_eq {hook : HookState} (hs : hook.shortcut = some (.Keyboard keys))
    (ha : hook.capturing = false ∧ hook.joined = true ∧ hook.focused = true) (hk : k ∉ held) :
    onKeyDown hook (keyboardEvent held now k) =
      let pressed := match k.label with
        | some label => insert label hook.pressed
        | none => hook.pressed
      ({ hook with pressed }, requiredMet keys (keyboardEvent held now k) pressed) := by
  obtain ⟨shortcut, capturing, joined, focused, pressed⟩ := hook
  obtain ⟨rfl, rfl, rfl⟩ := ha
  obtain rfl := hs
  have hr : (keyboardEvent held now k).isRepeat = false := decide_eq_false hk
  simp only [onKeyDown, hr, eventLabel_keyboardEvent]
  cases k.label <;> rfl

lemma onKeyUp_eq (hook : HookState) :
    onKeyUp hook (keyboardEvent held now k) =
      { hook with pressed := match k.label with
        | some label => hook.pressed.erase label
        | none => hook.pressed } := by
  simp only [onKeyUp, eventLabel_keyboardEvent]
  cases k.label <;> rfl

variable {s : ListenerState} {p : Page} {e : KeyEvent}

lemma press_held (h : Alike keys s p) (hk : k ∈ p.held) :
    native s (.press k) = (s, false) ∧ web p (.press k) = (p, false) := by
  have hk' : k ∈ s.pressed := h.held ▸ hk
  constructor
  · simp [native, handleEvent, KeyEvent.type, hk']
  · simp [web, hold, onKeyDown, keyboardEvent, hk]

lemma native_press (h : Alike keys s p) (hk : k ∉ p.held) :
    native s (.press k) = ({ s with pressed := insert k s.pressed },
      (isModifier k == isModifierOnlyBinding (some (.Keyboard keys))) &&
        matchesKeyboard (some (.Keyboard keys)) (insert k p.held)) := by
  obtain ⟨hc, hw⟩ := h.listening
  simp only [native, handleEvent, KeyEvent.type, h.held, if_neg hk, hc, hw, h.current,
    Bool.or_self, Bool.false_eq_true, if_false]
  split
  · next hfire => simp [hfire]
  · next hfire => simp [Bool.eq_false_of_not_eq_true hfire]

lemma web_press (h : Alike keys s p) (hk : k ∉ p.held) :
    web p (.press k) =
      let pressed := match k.label with
        | some label => insert label p.hook.pressed
        | none => p.hook.pressed
      (⟨insert k p.held, { p.hook with pressed }⟩,
        requiredMet keys (keyboardEvent p.held (insert k p.held) k) pressed) := by
  simp only [web, hold, onKeyDown_eq h.shortcut h.active hk]

lemma Alike.step (h : Alike keys s p) (e : KeyEvent) : Alike keys (native s e).1 (web p e).1 := by
  cases e with
  | press k =>
    by_cases hk : k ∈ p.held
    · obtain ⟨hn, hw⟩ := press_held h hk
      rw [hn, hw]
      exact h
    · rw [native_press h hk, web_press h hk]
      exact { h with
        held := by simp [h.held]
        tracks := h.tracks.press k }
  | release k =>
    simp only [native, handleEvent, KeyEvent.type, web, hold, onKeyUp_eq]
    exact { h with
      held := by simp [h.held]
      tracks := h.tracks.release k }

/-- On the press of a key that was up, the two sides do the same unless the combination is
complete and the key does not trigger it. -/
lemma press_alike_iff (hne : keys ≠ []) (hl : ∀ l ∈ keys, ∃ k : Key, k.label = some l)
    (h : Alike keys s p) (hk : k ∉ p.held) :
    (native s (.press k)).2 = (web p (.press k)).2 ↔
      (Complete keys (insert k p.held) → Triggers keys k) := by
  have hmatches : matchesKeyboard (some (.Keyboard keys)) (insert k p.held) = true ↔ _ :=
    matchesKeyboard_iff hl
  have hrequired : requiredMet keys (keyboardEvent p.held (insert k p.held) k) _ = true ↔ _ :=
    requiredMet_iff hl (h.tracks.press k)
  have honly : isModifierOnlyBinding (some (.Keyboard keys)) = true ↔
      ∀ l ∈ keys, isModifierLabel l = true := by
    simp [isModifierOnlyBinding, hne]
  rw [native_press h hk, web_press h hk]
  rw [Bool.eq_iff_iff, Bool.and_eq_true, beq_eq_true_iff, hmatches, hrequired, honly]
  by_cases hc : Complete keys (insert k p.held)
  · have hbound : isModifier k = true → Bound keys k :=
      hc.modifier k (Finset.mem_insert_self k _)
    have hmod : (∀ l ∈ keys, isModifierLabel l = true) → Bound keys k → isModifier k = true := by
      rintro hall ⟨l, hl, hkl⟩
      exact (isModifier_iff k).mpr ⟨l, hkl, hall l hl⟩
    simp only [Triggers, hc, and_true, true_and, true_implies]
    rcases hm : isModifier k with _ | _ <;> simp only [hm] at * <;> tauto
  · simp [hc]

/-! ## Whole runs -/

lemma web_held (p : Page) (e : KeyEvent) : (web p e).1.held = hold p.held e := by
  cases e <;> rfl

lemma after_web_held (events : List KeyEvent) (p : Page) :
    (after web p events).held = events.foldl hold p.held := by
  induction events generalizing p with
  | nil => rfl
  | cons e events ih =>
    rw [after_cons, ih, web_held]
    rfl

lemma alike_new : Alike keys (.new (some (.Keyboard keys))) ⟨∅, .new (some (.Keyboard keys))⟩ where
  current := rfl
  listening := ⟨rfl, rfl⟩
  shortcut := rfl
  active := ⟨rfl, rfl, rfl⟩
  held := rfl
  tracks := fun k l _ _ => by simp [HookState.new]

lemma alike_after (events : List KeyEvent) :
    Alike keys (after native (.new (some (.Keyboard keys))) events)
      (after web ⟨∅, .new (some (.Keyboard keys))⟩ events) :=
  after_related alike_new (fun _ _ e h => h.step e) events

/-- **When the listener and the page fire alike.** For a binding that can be recorded they fire
on the same events of a run exactly when every press, of a key that was up, that leaves the
combination complete is one that triggers it. -/
theorem fires_alike_iff (h : Recorded keys) (events : List KeyEvent) :
    nativeFires keys events = webFires keys events ↔
      ∀ pre k, pre ++ [.press k] <+: events → k ∉ heldAfter pre →
        Complete keys (insert k (heldAfter pre)) → Triggers keys k := by
  obtain ⟨hne, hl⟩ := h.labels
  have hheld (pre : List KeyEvent) :
      (after web ⟨∅, .new (some (.Keyboard keys))⟩ pre).held = heldAfter pre :=
    after_web_held pre _
  rw [nativeFires, webFires, outputs_eq_iff]
  constructor
  · intro hout pre k hpre hk
    rw [← hheld pre] at hk ⊢
    exact (press_alike_iff hne hl (alike_after pre) hk).mp (hout pre _ hpre)
  · intro htrigger pre e hpre
    have halike : Alike keys _ _ := alike_after pre
    cases e with
    | press k =>
      by_cases hk : k ∈ heldAfter pre
      · obtain ⟨hn, hw⟩ := press_held halike (hheld pre ▸ hk)
        rw [hn, hw]
      · have hk' := hk
        have hpress := htrigger pre k hpre hk
        rw [← hheld pre] at hk' hpress
        exact (press_alike_iff hne hl halike hk').mpr hpress
    | release k => rfl

lemma recorded_ctrl_m : Recorded ["Ctrl", "M"] :=
  ⟨[.keyDown .ControlLeft false, .keyDown .KeyM false, .keyUp .KeyM, .keyUp .ControlLeft],
    by decide +kernel⟩

theorem fires_alike_iff_ctrl_m :
    nativeFires ["Ctrl", "M"] [.press .ControlLeft, .press .KeyM] =
        webFires ["Ctrl", "M"] [.press .ControlLeft, .press .KeyM] ↔
      ∀ pre k, pre ++ [.press k] <+: [.press .ControlLeft, .press .KeyM] → k ∉ heldAfter pre →
        Complete ["Ctrl", "M"] (insert k (heldAfter pre)) → Triggers ["Ctrl", "M"] k :=
  fires_alike_iff recorded_ctrl_m _

/-- With Ctrl+M held, X makes the listener fire again; with M held first, Ctrl makes the page
fire. -/
theorem fires_apart :
    Recorded ["Ctrl", "M"] ∧
      nativeFires ["Ctrl", "M"] [.press .ControlLeft, .press .KeyM, .press .KeyX] ≠
        webFires ["Ctrl", "M"] [.press .ControlLeft, .press .KeyM, .press .KeyX] ∧
      nativeFires ["Ctrl", "M"] [.press .KeyM, .press .ControlLeft] ≠
        webFires ["Ctrl", "M"] [.press .KeyM, .press .ControlLeft] :=
  ⟨recorded_ctrl_m, by decide +kernel, by decide +kernel⟩

end VoiceHub.Hotkey.Fire
