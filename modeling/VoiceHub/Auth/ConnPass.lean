import Mathlib
import VoiceHub.Lib.Machine
import VoiceHub.Lib.Text

/-!
Connection passwords: up to 16 labelled entries, individually rotatable and expirable, kept
in memory and in a file.

Every operation changes the entries in memory and then writes them all out. What it draws
at random (an id, a password and its hash) and whether the write goes through are given to
it.
-/

namespace VoiceHub.Auth.ConnPass

open VoiceHub.Lib VoiceHub.Lib.Machine

def MAX_ENTRIES : ℕ := 16
def MAX_LABEL_LEN : ℕ := 64

abbrev SystemTime := ℤ

inductive Error
  | notFound
  | tooManyEntries
  | io (msg : String)
deriving DecidableEq, Repr

structure Entry where
  id : String
  label : String
  hash : String
  generation : UInt64
  createdAt : SystemTime
  expiresAt : Option SystemTime
deriving DecidableEq, Repr

/-- One row of the snapshot returned to the admin. -/
structure EntryStatus where
  id : String
  label : String
  generation : UInt64
  createdAt : SystemTime
  expiresAt : Option SystemTime
  expired : Bool
deriving DecidableEq, Repr

/-- Entry lifetime as requested by the admin API, in nanoseconds. -/
inductive Ttl
  | never
  | disabled
  | lasting (d : ℕ)
deriving DecidableEq, Repr

def expiryFor (now : SystemTime) : Ttl → Option SystemTime
  | .never => none
  | .disabled => some (now - 1000000000)
  | .lasting d => some (now + d)

/-- The longest run of leading characters that takes up at most `n` bytes. -/
def cut : ℕ → List Char → List Char
  | _, [] => []
  | n, c :: cs => if c.utf8Size ≤ n then c :: cut (n - c.utf8Size) cs else []

def normalizeLabel (label : String) : String :=
  .ofList (cut MAX_LABEL_LEN (Text.trim label.toList))

namespace Entry

def isExpired (e : Entry) (now : SystemTime) : Bool := e.expiresAt.any (· ≤ now)

def status (e : Entry) (now : SystemTime) : EntryStatus :=
  ⟨e.id, e.label, e.generation, e.createdAt, e.expiresAt, e.isExpired now⟩

/-- A fresh entry. -/
def new (label : String) (ttl : Ttl) (id hash : String) (now : SystemTime) : Entry :=
  ⟨id, normalizeLabel label, hash, 1, now, expiryFor now ttl⟩

def setTtl (ttl : Ttl) (now : SystemTime) (e : Entry) : Entry :=
  { e with expiresAt := expiryFor now ttl }

/-- The generation wraps, as in a release build. -/
def rotate (hash : String) (now : SystemTime) (e : Entry) : Entry :=
  { e with hash := hash, generation := e.generation + 1, createdAt := now }

def rename (label : String) (e : Entry) : Entry := { e with label := normalizeLabel label }

end Entry

/-- Two lowercase digits a byte. -/
def hex (bytes : List UInt8) : String :=
  .ofList (bytes.flatMap fun b => [(b.toNat / 16).digitChar, (b.toNat % 16).digitChar])

/-- The entries in memory, and those in the file, if there is one. -/
structure Store where
  state : List Entry
  file : Option (List Entry)
deriving DecidableEq, Repr

/-- Changes the first entry with the id. -/
def change (id : String) (f : Entry → Entry) : List Entry → List Entry
  | [] => []
  | e :: es => if e.id = id then f e :: es else e :: change id f es

/-- Takes the first entry with the id out. -/
def remove (id : String) : List Entry → List Entry
  | [] => []
  | e :: es => if e.id = id then es else e :: remove id es

def lookup (id : String) (es : List Entry) : Option Entry := es.find? (·.id = id)

namespace Store

def load (file : Option (List Entry)) : Store := ⟨file.getD [], file⟩

/-- What `load` would find. -/
def held (s : Store) : List Entry := s.file.getD []

/-- Generation of the entry, or none when it is gone or expired. -/
def entryGeneration (s : Store) (id : String) (now : SystemTime) : Option UInt64 :=
  if id.isEmpty then none
  else ((lookup id s.state).filter fun e => !e.isExpired now).map Entry.generation

/-- Checks `plain` against every live entry. -/
def verify (check : String → String → Bool) (s : Store) (plain : String) (now : SystemTime) :
    Option (String × UInt64) :=
  ((s.state.filter fun e => !e.isExpired now).find? fun e => check e.hash plain).map fun e =>
    (e.id, e.generation)

/-- Writes the entries out, unless the write fails, which leaves the file as it was. -/
def persist (s : Store) : Option String → Store × Except Error Unit
  | none => ({ s with file := some s.state }, .ok ())
  | some msg => (s, .error (.io msg))

def create (s : Store) (label : String) (ttl : Ttl) (bytes : Vector UInt8 6) (plain hash : String)
    (now : SystemTime) (failure : Option String) : Store × Except Error (EntryStatus × String) :=
  if MAX_ENTRIES ≤ s.state.length then (s, .error .tooManyEntries)
  else
    let entry := Entry.new label ttl (hex bytes.toList) hash now
    let (s, r) := { s with state := s.state ++ [entry] }.persist failure
    (s, r.map fun _ => (entry.status now, plain))

def mutate (s : Store) (id : String) (f : Entry → Entry) (failure : Option String) :
    Store × Except Error Entry :=
  match lookup id s.state with
  | none => (s, .error .notFound)
  | some e =>
    let (s, r) := { s with state := change id f s.state }.persist failure
    (s, r.map fun _ => f e)

/-- Updates the expiry without rotating the plaintext. -/
def setTtl (s : Store) (id : String) (ttl : Ttl) (now : SystemTime) (failure : Option String) :
    Store × Except Error EntryStatus :=
  let (s, r) := s.mutate id (Entry.setTtl ttl now) failure
  (s, r.map fun e => e.status now)

/-- Replaces the plaintext and bumps the generation. Expiry is preserved. -/
def rotate (s : Store) (id plain hash : String) (now : SystemTime) (failure : Option String) :
    Store × Except Error (EntryStatus × String) :=
  let (s, r) := s.mutate id (Entry.rotate hash now) failure
  (s, r.map fun e => (e.status now, plain))

def revoke (s : Store) (id : String) (failure : Option String) : Store × Except Error Unit :=
  match lookup id s.state with
  | none => (s, .error .notFound)
  | some _ => { s with state := remove id s.state }.persist failure

def rename (s : Store) (id label : String) (failure : Option String) :
    Store × Except Error Unit :=
  let (s, r) := s.mutate id (Entry.rename label) failure
  (s, r.map fun _ => ())

end Store

/-- An operation with what it draws at random. -/
inductive Op
  | create (label : String) (ttl : Ttl) (bytes : Vector UInt8 6) (plain hash : String)
  | setTtl (id : String) (ttl : Ttl)
  | rotate (id plain hash : String)
  | rename (id label : String)
  | revoke (id : String)
deriving DecidableEq, Repr

/-- An operation, when it is called, and how its write fails, if it does. -/
structure Call where
  op : Op
  now : SystemTime
  failure : Option String
deriving DecidableEq, Repr

/-- Runs one call; of what it returns only the error is kept. -/
def Store.exec (s : Store) (c : Call) : Store × Option Error :=
  let err {α : Type} (r : Store × Except Error α) : Store × Option Error :=
    (r.1, match r.2 with | .ok _ => none | .error e => some e)
  match c.op with
  | .create label ttl bytes plain hash =>
    err (s.create label ttl bytes plain hash c.now c.failure)
  | .setTtl id ttl => err (s.setTtl id ttl c.now c.failure)
  | .rotate id plain hash => err (s.rotate id plain hash c.now c.failure)
  | .rename id label => err (s.rename id label c.failure)
  | .revoke id => err (s.revoke id c.failure)

def Store.step (s : Store) (c : Call) : Option Store := some (s.exec c).1

/-! ### What the operations do -/

/-- What an operation changes the entries to, if it does not refuse. -/
def Op.changed (es : List Entry) (now : SystemTime) : Op → Except Error (List Entry)
  | .create label ttl bytes _ hash =>
    if MAX_ENTRIES ≤ es.length then .error .tooManyEntries
    else .ok (es ++ [Entry.new label ttl (hex bytes.toList) hash now])
  | .setTtl id ttl =>
    if lookup id es = none then .error .notFound else .ok (change id (Entry.setTtl ttl now) es)
  | .rotate id _ hash =>
    if lookup id es = none then .error .notFound else .ok (change id (Entry.rotate hash now) es)
  | .rename id label =>
    if lookup id es = none then .error .notFound else .ok (change id (Entry.rename label) es)
  | .revoke id => if lookup id es = none then .error .notFound else .ok (remove id es)

/-- Every operation refuses, or writes out what it has changed the entries to. -/
theorem exec_eq (s : Store) (c : Call) : s.exec c =
    match c.op.changed s.state c.now with
    | .error e => (s, some e)
    | .ok es =>
      match c.failure with
      | none => (⟨es, some es⟩, none)
      | some msg => (⟨es, s.file⟩, some (.io msg)) := by
  obtain ⟨op, now, failure⟩ := c
  cases op with
  | create label ttl bytes plain hash =>
    simp only [Store.exec, Store.create, Op.changed]
    split
    · rfl
    · cases failure <;> rfl
  | setTtl id ttl =>
    simp only [Store.exec, Store.setTtl, Store.mutate, Op.changed]
    cases lookup id s.state with
    | none => rfl
    | some e => cases failure <;> rfl
  | rotate id plain hash =>
    simp only [Store.exec, Store.rotate, Store.mutate, Op.changed]
    cases lookup id s.state with
    | none => rfl
    | some e => cases failure <;> rfl
  | rename id label =>
    simp only [Store.exec, Store.rename, Store.mutate, Op.changed]
    cases lookup id s.state with
    | none => rfl
    | some e => cases failure <;> rfl
  | revoke id =>
    simp only [Store.exec, Store.revoke, Op.changed]
    cases lookup id s.state with
    | none => rfl
    | some e => cases failure <;> rfl

section Entries

variable {id : String} {f : Entry → Entry} {es : List Entry}

lemma change_eq_self : change id f es = es ↔ ∀ e ∈ lookup id es, f e = e := by
  induction es with
  | nil => simp [change, lookup]
  | cons e es ih =>
    by_cases he : e.id = id
    · simp [change, lookup, he]
    · simpa [change, lookup, he] using ih

lemma length_remove (h : lookup id es ≠ none) : (remove id es).length + 1 = es.length := by
  induction es with
  | nil => exact absurd rfl h
  | cons e es ih =>
    by_cases he : e.id = id
    · simp [remove, he]
    · rw [lookup, List.find?_cons_of_neg (by simpa using he)] at h
      simp [remove, he, ih h]

lemma lookup_change (hf : ∀ e, (f e).id = e.id) (a : String) : lookup a (change id f es) =
    if a = id then (lookup a es).map f else lookup a es := by
  induction es with
  | nil => simp [change, lookup]
  | cons e es ih =>
    by_cases he : e.id = id
    · by_cases ha : id = a
      · simp [change, lookup, hf, he, ha]
      · simp [change, lookup, hf, he, ha, Ne.symm ha]
    · by_cases ha : e.id = a
      · have : a ≠ id := fun h => he (ha.trans h)
        simp [change, lookup, ha, this]
      · simpa [change, lookup, he, ha] using ih

lemma ids_change (hf : ∀ e, (f e).id = e.id) :
    (change id f es).map Entry.id = es.map Entry.id := by
  induction es with
  | nil => rfl
  | cons e es ih =>
    by_cases he : e.id = id
    · simp [change, hf, he]
    · simp [change, he, ih]

lemma lookup_eq_none : lookup id es = none ↔ id ∉ es.map Entry.id := by
  simp [lookup, List.find?_eq_none]

lemma ids_remove : ((remove id es).map Entry.id).Sublist (es.map Entry.id) := by
  induction es with
  | nil => exact .slnil
  | cons e es ih =>
    by_cases he : e.id = id
    · simp [remove, he]
    · simpa [remove, he] using ih

lemma lookup_remove (hn : (es.map Entry.id).Nodup) (a : String) : lookup a (remove id es) =
    if a = id then none else lookup a es := by
  induction es with
  | nil => simp [remove, lookup]
  | cons e es ih =>
    rw [List.map_cons, List.nodup_cons] at hn
    by_cases he : e.id = id
    · rw [remove, if_pos he]
      split
      · next ha => exact lookup_eq_none.mpr (ha ▸ he ▸ hn.1)
      · next ha =>
        have hne : e.id ≠ a := fun h => ha (h.symm.trans he)
        simp [lookup, hne]
    · by_cases ha : e.id = a
      · have : a ≠ id := fun h => he (ha.trans h)
        simp [remove, lookup, ha, this]
      · simpa [remove, lookup, he, ha] using ih hn.2

lemma mem_ids_of_lookup {e : Entry} (h : lookup id es = some e) : e ∈ es ∧ e.id = id := by
  have hid := List.find?_some h
  exact ⟨List.mem_of_find?_eq_some h, by simpa using hid⟩

lemma lookup_of_mem (hn : (es.map Entry.id).Nodup) {e : Entry} (he : e ∈ es) :
    lookup e.id es = some e := by
  induction es with
  | nil => simp at he
  | cons d es ih =>
    rw [List.map_cons, List.nodup_cons] at hn
    rcases List.mem_cons.mp he with rfl | he
    · simp [lookup]
    · have hne : d.id ≠ e.id := fun h => hn.1 (h ▸ List.mem_map_of_mem he)
      rw [lookup, List.find?_cons_of_neg (by simpa using hne)]
      exact ih hn.2 he

end Entries

/-! ### Failing to write -/

/-- The operation leaves the entries as they are: it refuses, or it sets what is set. -/
def Op.Idle (es : List Entry) (now : SystemTime) : Op → Prop
  | .create _ _ _ _ _ => MAX_ENTRIES ≤ es.length
  | .setTtl id ttl => ∀ e ∈ lookup id es, e.expiresAt = expiryFor now ttl
  | .rotate id _ _ => lookup id es = none
  | .rename id label => ∀ e ∈ lookup id es, e.label = normalizeLabel label
  | .revoke id => lookup id es = none

/-- The write goes through, or nothing has changed. -/
def Safe (s : Store) (c : Call) : Prop := c.failure = none ∨ c.op.Idle s.state c.now

/-- An error leaves memory alone, and memory agrees with the file afterwards. -/
def Atomic (s : Store) (c : Call) : Prop :=
  ((s.exec c).2 ≠ none → (s.exec c).1.state = s.state) ∧
    (s.exec c).1.state = (s.exec c).1.held

lemma change_idle (id : String) (f : Entry → Entry) (es : List Entry) :
    (∀ es', (if lookup id es = none then .error .notFound else .ok (change id f es) :
      Except Error (List Entry)) = .ok es' → es' = es) ↔ ∀ e ∈ lookup id es, f e = e := by
  cases h : lookup id es with
  | none => simp
  | some e =>
    have := @change_eq_self id f es
    simp [h] at this
    simp [this]

lemma generation_succ_ne (g : UInt64) : g + 1 ≠ g := by
  intro h
  have := congrArg UInt64.toNat h
  rw [UInt64.toNat_add] at this
  simp only [UInt64.reduceToNat] at this
  have := g.toNat_lt
  omega

lemma rotate_ne (hash : String) (now : SystemTime) (e : Entry) : e.rotate hash now ≠ e :=
  fun h => generation_succ_ne e.generation (congrArg Entry.generation h)

lemma idle_iff (op : Op) (es : List Entry) (now : SystemTime) :
    op.Idle es now ↔ ∀ es', op.changed es now = .ok es' → es' = es := by
  cases op with
  | create label ttl bytes plain hash =>
    by_cases h : MAX_ENTRIES ≤ es.length <;> simp [Op.Idle, Op.changed, h]
  | setTtl id ttl =>
    refine Iff.trans ?_ (change_idle id (Entry.setTtl ttl now) es).symm
    refine forall₂_congr fun e _ => ?_
    constructor
    · intro h
      rw [Entry.setTtl, ← h]
    · intro h
      rw [← h]
      rfl
  | rotate id plain hash =>
    refine Iff.trans ?_ (change_idle id (Entry.rotate hash now) es).symm
    rw [Op.Idle, Option.eq_none_iff_forall_not_mem]
    exact forall₂_congr fun e _ => iff_of_false not_false (rotate_ne hash now e)
  | rename id label =>
    refine Iff.trans ?_ (change_idle id (Entry.rename label) es).symm
    refine forall₂_congr fun e _ => ?_
    constructor
    · intro h
      rw [Entry.rename, ← h]
    · intro h
      rw [← h]
      rfl
  | revoke id =>
    rw [Op.Idle]
    constructor
    · intro h
      simp [Op.changed, h]
    · intro h
      by_contra hne
      have heq := h (remove id es) (by simp [Op.changed, hne])
      have := length_remove hne
      rw [heq] at this
      omega

/-- One call is atomic exactly if it is safe. -/
lemma atomic_iff_safe {s : Store} (h : s.state = s.held) (c : Call) : Atomic s c ↔ Safe s c := by
  rw [Atomic, Safe, idle_iff, exec_eq]
  cases hch : c.op.changed s.state c.now with
  | error e => simp [h]
  | ok es =>
    cases hf : c.failure with
    | none => simp [Store.held]
    | some msg =>
      simp only [ne_eq, reduceCtorEq, not_false_eq_true, forall_const, Except.ok.injEq,
        forall_eq', false_or, and_iff_left_iff_imp]
      rintro rfl
      exact h

/-- **Atomicity.** -/
theorem atomic_iff (file : Option (List Entry)) (cs : List Call) :
    Meets Store.step Atomic (.load file) cs ↔ Meets Store.step Safe (.load file) cs := by
  have h : (Store.load file).state = (Store.load file).held := rfl
  generalize Store.load file = s at h
  induction cs generalizing s with
  | nil => rfl
  | cons c cs ih =>
    rw [Machine.Meets, Machine.Meets, atomic_iff_safe h]
    refine and_congr_right fun hsafe => forall₂_congr fun t ht => ih t ?_
    cases ht
    exact ((atomic_iff_safe h c).mpr hsafe).2

/-- A password whose file could not be written is there until the next start. -/
theorem not_atomic : ¬∀ file cs, Meets Store.step Atomic (.load file) cs := by
  intro h
  have := (h none [⟨.create "" .never (.replicate 6 0) "p" "h", 0, some "disk full"⟩]).1.2
  exact absurd this (by decide +kernel)

end VoiceHub.Auth.ConnPass
