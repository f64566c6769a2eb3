import Mathlib

/-!
Keys and their labels, as the desktop listener and the web page each name them.

A key has one name in the listener (`Key`) and one on the page (`code`); a label is what a
binding is made of. The two sides agree on labels: a modifier's label stands for its left
and its right key, any other label for one key.
-/

namespace VoiceHub.Hotkey.Keys

/-- The keys the listener tells apart; one it has no name for comes as a number. -/
inductive Key
  | Alt | AltGr | ControlLeft | ControlRight | MetaLeft | MetaRight | ShiftLeft | ShiftRight
  | KeyA | KeyB | KeyC | KeyD | KeyE | KeyF | KeyG | KeyH | KeyI | KeyJ | KeyK | KeyL | KeyM
  | KeyN | KeyO | KeyP | KeyQ | KeyR | KeyS | KeyT | KeyU | KeyV | KeyW | KeyX | KeyY | KeyZ
  | Num0 | Num1 | Num2 | Num3 | Num4 | Num5 | Num6 | Num7 | Num8 | Num9 | F1 | F2 | F3 | F4 | F5
  | F6 | F7 | F8 | F9 | F10 | F11 | F12 | Space | Tab | Return | Backspace | Delete | Escape
  | Insert | Home | End | PageUp | PageDown | UpArrow | DownArrow | LeftArrow | RightArrow
  | CapsLock | NumLock | ScrollLock | Pause | PrintScreen | Minus | Equal | LeftBracket
  | RightBracket | BackSlash | SemiColon | Quote | Comma | Dot | Slash | BackQuote | Kp0 | Kp1
  | Kp2 | Kp3 | Kp4 | Kp5 | Kp6 | Kp7 | Kp8 | Kp9 | KpPlus | KpMinus | KpMultiply | KpDivide
  | KpReturn | KpDelete | IntlBackslash | Function
  | Unknown (n : UInt32)
deriving DecidableEq

/-- The mouse's buttons. -/
inductive Button
  | Left | Middle | Right
  | Unknown (n : UInt8)
deriving DecidableEq

inductive InputBinding
  | Keyboard (keys : List String)
  | Mouse (button : String)
deriving DecidableEq

/-! ## The listener's names -/

def MODIFIERS : List (String × List Key) :=
  [("Ctrl", [.ControlLeft, .ControlRight]),
   ("Shift", [.ShiftLeft, .ShiftRight]),
   ("Alt", [.Alt, .AltGr]),
   ("Meta", [.MetaLeft, .MetaRight])]

def isModifier (k : Key) : Bool := MODIFIERS.any fun (_, keys) => k ∈ keys

def isModifierLabel (label : String) : Bool := MODIFIERS.any fun (name, _) => name = label

/-- The arms of `label_to_key`. -/
def labelKeys : List (String × Key) :=
  [("A", .KeyA), ("B", .KeyB), ("C", .KeyC), ("D", .KeyD), ("E", .KeyE), ("F", .KeyF),
   ("G", .KeyG), ("H", .KeyH), ("I", .KeyI), ("J", .KeyJ), ("K", .KeyK), ("L", .KeyL),
   ("M", .KeyM), ("N", .KeyN), ("O", .KeyO), ("P", .KeyP), ("Q", .KeyQ), ("R", .KeyR),
   ("S", .KeyS), ("T", .KeyT), ("U", .KeyU), ("V", .KeyV), ("W", .KeyW), ("X", .KeyX),
   ("Y", .KeyY), ("Z", .KeyZ),
   ("0", .Num0), ("1", .Num1), ("2", .Num2), ("3", .Num3), ("4", .Num4), ("5", .Num5),
   ("6", .Num6), ("7", .Num7), ("8", .Num8), ("9", .Num9),
   ("F1", .F1), ("F2", .F2), ("F3", .F3), ("F4", .F4), ("F5", .F5), ("F6", .F6), ("F7", .F7),
   ("F8", .F8), ("F9", .F9), ("F10", .F10), ("F11", .F11), ("F12", .F12),
   ("Space", .Space), ("Tab", .Tab), ("Enter", .Return), ("Backspace", .Backspace),
   ("Delete", .Delete), ("Escape", .Escape), ("Insert", .Insert), ("Home", .Home), ("End", .End),
   ("PageUp", .PageUp), ("PageDown", .PageDown), ("Up", .UpArrow), ("Down", .DownArrow),
   ("Left", .LeftArrow), ("Right", .RightArrow), ("CapsLock", .CapsLock), ("NumLock", .NumLock),
   ("ScrollLock", .ScrollLock), ("Pause", .Pause), ("PrintScreen", .PrintScreen),
   ("-", .Minus), ("=", .Equal), ("[", .LeftBracket), ("]", .RightBracket), ("\\", .BackSlash),
   (";", .SemiColon), ("'", .Quote), (",", .Comma), (".", .Dot), ("/", .Slash), ("`", .BackQuote),
   ("Num0", .Kp0), ("Num1", .Kp1), ("Num2", .Kp2), ("Num3", .Kp3), ("Num4", .Kp4), ("Num5", .Kp5),
   ("Num6", .Kp6), ("Num7", .Kp7), ("Num8", .Kp8), ("Num9", .Kp9), ("Num+", .KpPlus),
   ("Num-", .KpMinus), ("Num*", .KpMultiply), ("Num/", .KpDivide), ("NumEnter", .KpReturn),
   ("Num.", .KpDelete)
  ]

def labelToKey (label : String) : Option Key := labelKeys.lookup label

/-! ## The page's names -/

def modifierLabelFromCode (code : String) : Option String :=
  match code with
  | "ControlLeft" | "ControlRight" => some "Ctrl"
  | "ShiftLeft" | "ShiftRight" => some "Shift"
  | "AltLeft" | "AltRight" => some "Alt"
  | "MetaLeft" | "MetaRight" => some "Meta"
  | _ => none

/-- `code.slice(n)`. -/
def slice (code : String) (n : ℕ) : String := String.ofList (code.toList.drop n)

/-- What `labelFromCode` makes of the rest of a code that starts with `Numpad`. -/
def numpadLabel (tail : String) : Option String :=
  match tail with
  | "Add" => some "Num+"
  | "Subtract" => some "Num-"
  | "Multiply" => some "Num*"
  | "Divide" => some "Num/"
  | "Enter" => some "NumEnter"
  | "Decimal" => some "Num."
  | _ =>
    match tail.toList with
    | [c] => if c.isDigit then some ("Num" ++ tail) else none
    | _ => none

/-- The codes that are their own labels. -/
def ownLabels : List String :=
  ["Space", "Tab", "Enter", "Backspace", "Delete", "Escape", "Insert", "Home", "End", "PageUp",
   "PageDown", "CapsLock", "NumLock", "ScrollLock", "Pause", "PrintScreen", "F1", "F2", "F3",
   "F4", "F5", "F6", "F7", "F8", "F9", "F10", "F11", "F12"]

/-- The codes that have another label. -/
def otherLabels : List (String × String) :=
  [("ArrowUp", "Up"), ("ArrowDown", "Down"), ("ArrowLeft", "Left"), ("ArrowRight", "Right"),
   ("Minus", "-"), ("Equal", "="), ("BracketLeft", "["), ("BracketRight", "]"),
   ("Backslash", "\\"), ("Semicolon", ";"), ("Quote", "'"), ("Comma", ","), ("Period", "."),
   ("Slash", "/"), ("Backquote", "`")]

def labelFromCode (code : String) : Option String :=
  match modifierLabelFromCode code with
  | some label => some label
  | none =>
    if code.startsWith "Key" then some (slice code 3)
    else if code.startsWith "Digit" then some (slice code 5)
    else if code.startsWith "Numpad" then numpadLabel (slice code 6)
    else if code ∈ ownLabels then some code
    else otherLabels.lookup code

/-- Modifiers first, left and right as one; the rest as they came. -/
def canonicalizeKeys (keys : List String) : List String :=
  let order := ["Ctrl", "Shift", "Alt", "Meta"]
  (order.filter fun m => m ∈ keys) ++ keys.filter fun k => k ∉ order

/-- The code the page sees for a key. A key that the listener has no name for has none of the
codes that get a label. -/
def Key.code : Key → String
  | .Alt => "AltLeft" | .AltGr => "AltRight"
  | .ControlLeft => "ControlLeft" | .ControlRight => "ControlRight"
  | .MetaLeft => "MetaLeft" | .MetaRight => "MetaRight"
  | .ShiftLeft => "ShiftLeft" | .ShiftRight => "ShiftRight"
  | .KeyA => "KeyA" | .KeyB => "KeyB" | .KeyC => "KeyC" | .KeyD => "KeyD" | .KeyE => "KeyE"
  | .KeyF => "KeyF" | .KeyG => "KeyG" | .KeyH => "KeyH" | .KeyI => "KeyI" | .KeyJ => "KeyJ"
  | .KeyK => "KeyK" | .KeyL => "KeyL" | .KeyM => "KeyM" | .KeyN => "KeyN" | .KeyO => "KeyO"
  | .KeyP => "KeyP" | .KeyQ => "KeyQ" | .KeyR => "KeyR" | .KeyS => "KeyS" | .KeyT => "KeyT"
  | .KeyU => "KeyU" | .KeyV => "KeyV" | .KeyW => "KeyW" | .KeyX => "KeyX" | .KeyY => "KeyY"
  | .KeyZ => "KeyZ"
  | .Num0 => "Digit0" | .Num1 => "Digit1" | .Num2 => "Digit2" | .Num3 => "Digit3"
  | .Num4 => "Digit4" | .Num5 => "Digit5" | .Num6 => "Digit6" | .Num7 => "Digit7"
  | .Num8 => "Digit8" | .Num9 => "Digit9"
  | .F1 => "F1" | .F2 => "F2" | .F3 => "F3" | .F4 => "F4" | .F5 => "F5" | .F6 => "F6"
  | .F7 => "F7" | .F8 => "F8" | .F9 => "F9" | .F10 => "F10" | .F11 => "F11" | .F12 => "F12"
  | .Space => "Space" | .Tab => "Tab" | .Return => "Enter" | .Backspace => "Backspace"
  | .Delete => "Delete" | .Escape => "Escape" | .Insert => "Insert" | .Home => "Home"
  | .End => "End" | .PageUp => "PageUp" | .PageDown => "PageDown" | .UpArrow => "ArrowUp"
  | .DownArrow => "ArrowDown" | .LeftArrow => "ArrowLeft" | .RightArrow => "ArrowRight"
  | .CapsLock => "CapsLock" | .NumLock => "NumLock" | .ScrollLock => "ScrollLock"
  | .Pause => "Pause" | .PrintScreen => "PrintScreen"
  | .Minus => "Minus" | .Equal => "Equal" | .LeftBracket => "BracketLeft"
  | .RightBracket => "BracketRight" | .BackSlash => "Backslash" | .SemiColon => "Semicolon"
  | .Quote => "Quote" | .Comma => "Comma" | .Dot => "Period" | .Slash => "Slash"
  | .BackQuote => "Backquote"
  | .Kp0 => "Numpad0" | .Kp1 => "Numpad1" | .Kp2 => "Numpad2" | .Kp3 => "Numpad3"
  | .Kp4 => "Numpad4" | .Kp5 => "Numpad5" | .Kp6 => "Numpad6" | .Kp7 => "Numpad7"
  | .Kp8 => "Numpad8" | .Kp9 => "Numpad9" | .KpPlus => "NumpadAdd" | .KpMinus => "NumpadSubtract"
  | .KpMultiply => "NumpadMultiply" | .KpDivide => "NumpadDivide" | .KpReturn => "NumpadEnter"
  | .KpDelete => "NumpadDecimal"
  | .IntlBackslash => "IntlBackslash" | .Function => "Fn"
  | .Unknown _ => "Unidentified"

/-- The label of a key, as the page computes it. -/
def Key.label (k : Key) : Option String := labelFromCode k.code

/-! ## The two sides agree -/

/-- The keys that have a name. -/
def Key.named : List Key :=
  [.Alt, .AltGr, .IntlBackslash, .Function] ++
    MODIFIERS.flatMap (fun m => m.2) ++ labelKeys.map (fun e => e.2)

lemma Key.named_or (k : Key) : k ∈ Key.named ∨ ∃ n, k = .Unknown n := by
  cases k with
  | Unknown n => exact .inr ⟨n, rfl⟩
  | _ => exact .inl (by decide)

lemma label_unknown (n : UInt32) : (Key.Unknown n).label = none := by
  have : labelFromCode "Unidentified" = none := by decide +kernel
  exact this

lemma Key.forall_of {p : Key → Prop} (h : ∀ k ∈ Key.named, p k)
    (h' : ∀ k, k.label = none → isModifier k = false → p k) (k : Key) : p k := by
  rcases k.named_or with hk | ⟨n, rfl⟩
  · exact h k hk
  · exact h' _ (label_unknown n) rfl

lemma mem_variants {m : String × List Key} (hm : m ∈ MODIFIERS) (k : Key) :
    k ∈ m.2 ↔ k.label = some m.1 := by
  have named : ∀ k ∈ Key.named, ∀ m ∈ MODIFIERS, k ∈ m.2 ↔ k.label = some m.1 := by
    decide +kernel
  refine Key.forall_of (fun k hk => named k hk m hm) (fun k hl hk => ?_) k
  have : k ∉ m.2 := by
    intro hmem
    simp only [isModifier, List.any_eq_false, decide_eq_true_eq] at hk
    exact hk m hm hmem
  simp [hl, this]

lemma isModifierLabel_iff (l : String) : isModifierLabel l = true ↔ ∃ m ∈ MODIFIERS, m.1 = l := by
  simp [isModifierLabel]

lemma isModifier_iff (k : Key) :
    isModifier k = true ↔ ∃ l, k.label = some l ∧ isModifierLabel l = true := by
  simp only [isModifier, List.any_eq_true, decide_eq_true_eq, isModifierLabel_iff]
  constructor
  · rintro ⟨m, hm, hk⟩
    exact ⟨m.1, (mem_variants hm k).mp hk, m, hm, rfl⟩
  · rintro ⟨l, hl, m, hm, rfl⟩
    exact ⟨m, hm, (mem_variants hm k).mpr hl⟩

/-- Any other label is the label of the key the listener takes it for, and of no other. -/
lemma labelToKey_label {k : Key} {l : String} (hl : k.label = some l)
    (hm : isModifierLabel l = false) : labelToKey l = some k := by
  have named : ∀ k ∈ Key.named,
      isModifier k = true ∨ k.label.bind labelToKey = k.label.map fun _ => k := by
    decide +kernel
  have hk : isModifier k = true ∨ k.label.bind labelToKey = k.label.map fun _ => k :=
    Key.forall_of named (fun k hl _ => .inr (by simp [hl])) k
  rcases hk with hk | hk
  · obtain ⟨l', hl', hm'⟩ := (isModifier_iff k).mp hk
    obtain rfl : l = l' := by simpa [hl] using hl'
    simp [hm] at hm'
  · simpa [hl] using hk

lemma label_inj {k k' : Key} {l : String} (hl : k.label = some l) (hl' : k'.label = some l)
    (hm : isModifierLabel l = false) : k = k' :=
  Option.some.inj ((labelToKey_label hl hm).symm.trans (labelToKey_label hl' hm))

lemma label_ne_empty (k : Key) : k.label ≠ some "" :=
  Key.forall_of (p := fun k => k.label ≠ some "") (by decide +kernel)
    (fun k hl _ => by simp [hl]) k

end VoiceHub.Hotkey.Keys
