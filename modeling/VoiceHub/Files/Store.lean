import Mathlib
import VoiceHub.Lib.HashMap
import VoiceHub.Lib.Machine

/-!
The transient store of chat attachments: files that are kept for a short while, and longer when
they are downloaded, up to a budget.

The sizes are counted in 64 bits, which wrap.
-/

namespace VoiceHub.Files

open VoiceHub.Lib

abbrev SystemTime := ℤ

abbrev PathBuf := String

/-- What the files on disk hold. -/
abbrev Disk := PathBuf → Option (List UInt8)

structure Entry where
  uploadId : String
  roomId : String
  name : String
  mime : String
  size : UInt64
  tempPath : PathBuf
  createdAt : SystemTime
  expiresAt : SystemTime
  deriving DecidableEq

structure Config where
  /-- How long a fresh upload survives without a download. -/
  ttl : ℕ
  /-- Lifetime bound from creation regardless of how often it is extended. -/
  ttlHardCap : ℕ
  maxUploadBytes : ℕ
  /-- 0 means unbounded. -/
  maxTotalBytes : UInt64

/-- `BudgetExceeded`. -/
inductive StoreError
  | budgetExceeded
  deriving DecidableEq

structure State where
  entries : HashMap String Entry
  total : UInt64

def State.empty : State := ⟨∅, 0⟩

def Entry.expired (e : Entry) (now : SystemTime) : Bool := decide (e.expiresAt < now)

/-- What a download makes of an entry. -/
def Entry.touch (cfg : Config) (now : SystemTime) (e : Entry) : Entry :=
  if e.expired now then e
  else
    let extended := min (now + cfg.ttl) (e.createdAt + cfg.ttlHardCap)
    if e.expiresAt < extended then { e with expiresAt := extended } else e

namespace State

variable (cfg : Config) (st : State)

/-- Under the id `uploadId`, a fresh ULID. -/
def storeAt (roomId name mime : String) (size : UInt64) (tempPath : PathBuf) (now : SystemTime)
    (uploadId : String) : State × Except StoreError Entry :=
  if 0 < cfg.maxTotalBytes ∧ cfg.maxTotalBytes < st.total + size then (st, .error .budgetExceeded)
  else
    let entry : Entry := ⟨uploadId, roomId, name, mime, size, tempPath, now, now + cfg.ttl⟩
    (⟨AList.insert uploadId entry st.entries, st.total + size⟩, .ok entry)

/-- An expired entry reads as absent. -/
def getAt (id : String) (now : SystemTime) : Option Entry :=
  (st.entries.lookup id).filter fun e => now ≤ e.expiresAt

def touchAt (id : String) (now : SystemTime) : State :=
  { st with entries := HashMap.modify id (Entry.touch cfg now) st.entries }

/-- The entries that a sweep takes out. -/
def stale (now : SystemTime) : List Entry :=
  HashMap.values (HashMap.retain (fun _ e => e.expired now) st.entries)

def freed (now : SystemTime) : UInt64 := (st.stale now).foldl (fun freed e => freed + e.size) 0

/-- Also the files that are to be removed. -/
def sweep (now : SystemTime) : State × List PathBuf :=
  (⟨HashMap.retain (fun _ e => !e.expired now) st.entries, st.total - st.freed now⟩,
    (st.stale now).map Entry.tempPath)

end State

/-- `std::fs::remove_file` of each. -/
def Disk.removeAll (disk : Disk) (paths : List PathBuf) : Disk := fun path =>
  if path ∈ paths then none else disk path

/-- The store and the files. -/
structure Store where
  st : State
  disk : Disk

def Store.new : Store := ⟨.empty, fun _ => none⟩

inductive Op
  /-- somebody writes a file -/
  | write (path : PathBuf) (content : List UInt8)
  | store (roomId name mime : String) (size : UInt64) (tempPath : PathBuf) (now : SystemTime)
      (uploadId : String)
  | get (id : String) (now : SystemTime)
  | touch (id : String) (now : SystemTime)
  | sweep (now : SystemTime)

def Store.step (cfg : Config) (s : Store) : Op → Option Store
  | .write path content => some { s with disk := Function.update s.disk path (some content) }
  | .store roomId name mime size tempPath now uploadId =>
    some { s with st := (s.st.storeAt cfg roomId name mime size tempPath now uploadId).1 }
  | .get _ _ => some s
  | .touch id now => some { s with st := s.st.touchAt cfg id now }
  | .sweep now => some ⟨(s.st.sweep now).1, s.disk.removeAll (s.st.sweep now).2⟩

/-- The bytes of the stored entries. -/
def State.stored (st : State) : ℕ := HashMap.sum (fun e => e.size.toNat) st.entries

/-- An upload's id is its own. -/
def Unique (s : Store) : Op → Prop
  | .store _ _ _ _ _ _ uploadId => s.st.entries.lookup uploadId = none
  | _ => True

/-- All the entries, the new one too, have less than `2 ^ 64` bytes. -/
def Fits (s : Store) : Op → Prop
  | .store _ _ _ size _ _ _ => s.st.stored + size.toNat < 2 ^ 64
  | _ => True

instance (s : Store) : ∀ op, Decidable (Unique s op)
  | .store .. => inferInstanceAs (Decidable (_ = _))
  | .write .. | .get .. | .touch .. | .sweep .. => inferInstanceAs (Decidable True)

instance (s : Store) : ∀ op, Decidable (Fits s op)
  | .store .. => inferInstanceAs (Decidable (_ < _))
  | .write .. | .get .. | .touch .. | .sweep .. => inferInstanceAs (Decidable True)

/-! ### The operations -/

variable {cfg : Config} {st : State} {s s' : Store} {now : SystemTime} {id : String} {e : Entry}
  {op : Op}

/-- As late as an entry may ever expire. -/
def Entry.latest (cfg : Config) (e : Entry) : SystemTime :=
  e.createdAt + max cfg.ttl cfg.ttlHardCap

lemma touch_expiresAt (cfg : Config) (now : SystemTime) (e : Entry) :
    e.expiresAt ≤ (e.touch cfg now).expiresAt := by
  unfold Entry.touch
  dsimp only
  split_ifs with hexp hlt
  · exact le_rfl
  · exact hlt.le
  · exact le_rfl

lemma touch_le_latest (h : e.expiresAt ≤ e.latest cfg) :
    (e.touch cfg now).expiresAt ≤ e.latest cfg := by
  unfold Entry.touch
  dsimp only
  split_ifs with hexp hlt
  · exact h
  · calc min (now + cfg.ttl) (e.createdAt + cfg.ttlHardCap)
        ≤ e.createdAt + cfg.ttlHardCap := min_le_right _ _
      _ ≤ e.latest cfg := Int.add_le_add_left (Int.ofNat_le.mpr (le_max_right _ _)) _
  · exact h

lemma touch_size (cfg : Config) (now : SystemTime) (e : Entry) :
    (e.touch cfg now).size = e.size := by
  unfold Entry.touch
  dsimp only
  split_ifs <;> rfl

lemma touch_createdAt (cfg : Config) (now : SystemTime) (e : Entry) :
    (e.touch cfg now).createdAt = e.createdAt := by
  unfold Entry.touch
  dsimp only
  split_ifs <;> rfl

lemma foldl_size (l : List Entry) (init : UInt64)
    (h : init.toNat + (l.map fun e => e.size.toNat).sum < 2 ^ 64) :
    (l.foldl (fun freed e => freed + e.size) init).toNat =
      init.toNat + (l.map fun e => e.size.toNat).sum := by
  induction l generalizing init with
  | nil => rfl
  | cons e l ih =>
    rw [List.map_cons, List.sum_cons] at h ⊢
    have hadd : (init + e.size).toNat = init.toNat + e.size.toNat := by
      rw [UInt64.toNat_add]
      exact Nat.mod_eq_of_lt (by omega)
    rw [List.foldl_cons, ih (init + e.size) (by omega), hadd]
    omega

lemma stored_sweep (st : State) (now : SystemTime) :
    (st.sweep now).1.stored + ((st.stale now).map fun e => e.size.toNat).sum = st.stored := by
  have hsplit := HashMap.sum_retain (f := fun e : Entry => e.size.toNat)
    (fun _ e => e.expired now) st.entries
  rw [State.stored, State.stored, ← hsplit, add_comm]
  rfl

/-- The total is the sum of the sizes, it is within the budget, and nothing outlives its
bound. -/
structure Accounted (cfg : Config) (st : State) : Prop where
  total : st.total.toNat = st.stored
  budget : 0 < cfg.maxTotalBytes → st.total ≤ cfg.maxTotalBytes
  latest : ∀ id e, st.entries.lookup id = some e → e.expiresAt ≤ e.latest cfg

lemma Accounted.freed_toNat (h : Accounted cfg st) (now : SystemTime) :
    (st.freed now).toNat = ((st.stale now).map fun e => e.size.toNat).sum := by
  have hsplit := stored_sweep st now
  have hlt := st.total.toNat_lt
  rw [State.freed, foldl_size _ _ (by rw [UInt64.toNat_zero]; have := h.total; omega),
    UInt64.toNat_zero, Nat.zero_add]

lemma Accounted.freed_le (h : Accounted cfg st) (now : SystemTime) : st.freed now ≤ st.total := by
  rw [UInt64.le_iff_toNat_le, h.freed_toNat, h.total, ← stored_sweep st now]
  exact Nat.le_add_left _ _

lemma Accounted.sweep (h : Accounted cfg st) (now : SystemTime) :
    Accounted cfg (st.sweep now).1 where
  total := by
    have hsub : (st.total - st.freed now).toNat = st.total.toNat - (st.freed now).toNat :=
      UInt64.toNat_sub_of_le _ _ (h.freed_le now)
    have hsplit := stored_sweep st now
    have hfreed := h.freed_toNat now
    have htotal := h.total
    change (st.total - st.freed now).toNat = _
    omega
  budget hmax := by
    have hle : st.total - st.freed now ≤ st.total := by
      rw [UInt64.le_iff_toNat_le, UInt64.toNat_sub_of_le _ _ (h.freed_le now)]
      exact Nat.sub_le _ _
    exact UInt64.le_trans hle (h.budget hmax)
  latest id e he := by
    rw [State.sweep, HashMap.lookup_retain] at he
    exact h.latest id e (Option.filter_eq_some_iff.mp he).1

lemma Accounted.touch (h : Accounted cfg st) (id : String) (now : SystemTime) :
    Accounted cfg (st.touchAt cfg id now) where
  total := by
    have hsum : (st.touchAt cfg id now).stored = st.stored :=
      HashMap.sum_modify fun e => congrArg UInt64.toNat (touch_size cfg now e)
    rw [hsum]
    exact h.total
  budget := h.budget
  latest k e he := by
    rw [State.touchAt, HashMap.lookup_modify] at he
    split_ifs at he with hk
    · obtain ⟨e₀, he₀, rfl⟩ := Option.map_eq_some_iff.mp he
      rw [Entry.latest, touch_createdAt]
      exact touch_le_latest (h.latest id e₀ he₀)
    · exact h.latest k e he

lemma Accounted.store (h : Accounted cfg st) {roomId name mime : String} {size : UInt64}
    {tempPath : PathBuf} {uploadId : String} (hfresh : st.entries.lookup uploadId = none)
    (hfits : st.stored + size.toNat < 2 ^ 64) :
    Accounted cfg (st.storeAt cfg roomId name mime size tempPath now uploadId).1 := by
  unfold State.storeAt
  split_ifs with hbudget
  · exact h
  · have hadd : (st.total + size).toNat = st.total.toNat + size.toNat := by
      rw [UInt64.toNat_add]
      have htotal := h.total
      exact Nat.mod_eq_of_lt (by omega)
    refine ⟨?_, fun hmax => ?_, fun k e he => ?_⟩
    · rw [State.stored, HashMap.sum_insert_of_none hfresh, hadd, h.total, State.stored, add_comm]
    · exact UInt64.not_lt.mp fun hlt => hbudget ⟨hmax, hlt⟩
    · rw [HashMap.lookup_insert] at he
      split_ifs at he
      · obtain rfl := Option.some.inj he
        exact Int.add_le_add_left (Int.ofNat_le.mpr (le_max_left _ _)) _
      · exact h.latest k e he

lemma Accounted.step (h : Accounted cfg s.st) (hu : Unique s op) (hf : Fits s op)
    (hs : s.step cfg op = some s') : Accounted cfg s'.st := by
  cases op with
  | store roomId name mime size tempPath now uploadId =>
    obtain rfl := Option.some.inj hs
    exact h.store hu hf
  | touch id now =>
    obtain rfl := Option.some.inj hs
    exact h.touch id now
  | sweep now =>
    obtain rfl := Option.some.inj hs
    exact h.sweep now
  | write path content | get id now =>
    obtain rfl := Option.some.inj hs
    exact h

/-- What the operations promise at a state. -/
structure Keeps (cfg : Config) (s : Store) : Prop where
  total : s.st.total.toNat = s.st.stored
  budget : 0 < cfg.maxTotalBytes → s.st.total ≤ cfg.maxTotalBytes
  no_underflow : ∀ now, s.st.freed now ≤ s.st.total
  rejected : ∀ roomId name mime size tempPath now uploadId err,
    (s.st.storeAt cfg roomId name mime size tempPath now uploadId).2 = .error err →
      (s.st.storeAt cfg roomId name mime size tempPath now uploadId).1 = s.st
  touched : ∀ touchedId now id e, s.st.entries.lookup id = some e →
    ∃ e', (s.st.touchAt cfg touchedId now).entries.lookup id = some e' ∧
      e.expiresAt ≤ e'.expiresAt ∧
      e'.createdAt = e.createdAt ∧ e'.expiresAt ≤ e.latest cfg
  unexpired : ∀ id now e, s.st.getAt id now = some e ↔
    s.st.entries.lookup id = some e ∧ now ≤ e.expiresAt
  kept : ∀ now id e, (s.st.sweep now).1.entries.lookup id = some e ↔
    s.st.entries.lookup id = some e ∧ now ≤ e.expiresAt
  removed : ∀ now s', s.step cfg (.sweep now) = some s' → ∀ path,
    ((∃ id e, s.st.entries.lookup id = some e ∧ e.expiresAt < now ∧ e.tempPath = path) ∧
      s'.disk path = none) ∨
    ((∀ id e, s.st.entries.lookup id = some e → e.expiresAt < now → e.tempPath ≠ path) ∧
      s'.disk path = s.disk path)

lemma mem_stale : e ∈ st.stale now ↔
    ∃ id, st.entries.lookup id = some e ∧ e.expiresAt < now := by
  simp only [State.stale, HashMap.mem_values, HashMap.lookup_retain, Option.filter_eq_some_iff,
    Entry.expired, decide_eq_true_eq]

lemma Accounted.keeps (h : Accounted cfg s.st) : Keeps cfg s where
  total := h.total
  budget := h.budget
  no_underflow := h.freed_le
  rejected roomId name mime size tempPath now uploadId err herr := by
    unfold State.storeAt at herr ⊢
    split_ifs at herr ⊢ with hbudget
    rfl
  touched touchedId now id e he := by
    rw [State.touchAt, HashMap.lookup_modify]
    split_ifs with hk
    · rw [← hk, he]
      exact ⟨_, rfl, touch_expiresAt cfg now e, touch_createdAt cfg now e,
        touch_le_latest (h.latest id e he)⟩
    · exact ⟨e, he, le_rfl, rfl, h.latest id e he⟩
  unexpired id now e := by
    rw [State.getAt, Option.filter_eq_some_iff, decide_eq_true_eq]
  kept now id e := by
    rw [State.sweep, HashMap.lookup_retain, Option.filter_eq_some_iff, Entry.expired,
      Bool.not_eq_true', decide_eq_false_iff_not, not_lt]
  removed now s' hs path := by
    obtain rfl := Option.some.inj hs
    by_cases hpath : path ∈ (s.st.stale now).map Entry.tempPath
    · obtain ⟨e, he, hp⟩ := List.mem_map.mp hpath
      obtain ⟨id, hid, hexp⟩ := mem_stale.mp he
      exact .inl ⟨⟨id, e, hid, hexp, hp⟩, if_pos hpath⟩
    · refine .inr ⟨fun id e hid hexp hp => hpath ?_, if_neg hpath⟩
      exact List.mem_map.mpr ⟨e, mem_stale.mpr ⟨id, hid, hexp⟩, hp⟩

/-- **The store's accounting**, in every run in which what is stored has less than `2 ^ 64`
bytes. -/
theorem accounting (h : Machine.Reach (Store.step cfg) (fun s op => Unique s op ∧ Fits s op)
    .new s) : Keeps cfg s := by
  have hnew : Accounted cfg Store.new.st :=
    ⟨rfl, fun _ => UInt64.le_iff_toNat_le.mpr (Nat.zero_le _), fun _ _ he => (by cases he)⟩
  exact (h.invariant (I := fun s => Accounted cfg s.st) hnew
    fun _ _ _ hI hg hs => hI.step hg.1 hg.2 hs).keeps

def minutes (n : ℕ) : ℕ := n * 60 * 1000000000

/-- Two uploads, the first of them downloaded once, and a sweep when the second has expired. -/
def twoUploads : List Op :=
  [.write "up-1" [1, 2], .store "room1" "a" "text/plain" 2 "up-1" 0 "A",
    .write "up-2" [3], .store "room1" "b" "text/plain" 1 "up-2" 0 "B",
    .touch "A" (minutes 4), .sweep (minutes 6)]

theorem accounting_twoUploads :
    Keeps ⟨minutes 5, minutes 30, 100, 10⟩
      ((Machine.run (Store.step ⟨minutes 5, minutes 30, 100, 10⟩) .new twoUploads).getD .new) :=
  accounting (Machine.Reach.of_isSome (by decide +kernel) (by decide +kernel))

/-- Without a budget the total wraps. -/
theorem total_wraps : ¬ ∀ (cfg : Config) (s : Store),
    Machine.Reach (Store.step cfg) Unique .new s → s.st.total.toNat = s.st.stored := by
  intro h
  have hwrap := h ⟨0, 0, 0, 0⟩
    ((Machine.run (Store.step ⟨0, 0, 0, 0⟩) .new
      [.store "room1" "a" "" (2 ^ 63) "up-1" 0 "A",
        .store "room1" "b" "" (2 ^ 63) "up-2" 0 "B"]).getD .new)
    (Machine.Reach.of_isSome (by decide +kernel) (by decide +kernel))
  exact absurd hwrap (by decide +kernel)

end VoiceHub.Files
