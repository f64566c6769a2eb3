import Mathlib
import VoiceHub.Lib.Machine
import VoiceHub.Auth.ConnPass
import VoiceHub.Auth.SessionCookie

/-!
Sessions over the life of the connection passwords they were issued for.

The admin's operations, users' logins and the clock come in any order. A cookie is for an
entry and its generation at the login; a successful rotation moves the generation on and a
successful revocation takes the entry away, and nothing brings either back, short of the
generation's 64 bits coming round.
-/

namespace VoiceHub.Auth.Revocation

open VoiceHub.Lib VoiceHub.Lib.Machine VoiceHub.Auth.ConnPass VoiceHub.Auth.SessionCookie

/-- A user cookie handed out at a login, and how many operations had succeeded by then. -/
structure Mint where
  entryId : String
  generation : UInt64
  exp : Int64
  since : ℕ
deriving DecidableEq

/-- The passwords, the clock, the operations that have succeeded and the cookies handed
out. -/
structure World where
  store : Store
  now : SystemTime
  done : List Op
  minted : List Mint
deriving DecidableEq

inductive Event
  | op (op : Op)
  | login (plain : String)
  | validate (headers : List (List Char))
  | tick (d : ℕ)

def World.init (now : SystemTime) : World := ⟨.load none, now, [], []⟩

section Model

variable (check : String → String → Bool)

/-- The cookie a login with the password gets, if any. -/
def login (w : World) (plain : String) : Option Mint :=
  (w.store.verify check plain w.now).map fun (id, gen) =>
    ⟨id, gen, unixSecs (w.now + SESSION_TTL), w.done.length⟩

/-- One event. Writes go through. Validating changes nothing. -/
def step (w : World) : Event → Option World
  | .op op =>
    let (store, error) := w.store.exec ⟨op, w.now, none⟩
    some { w with store := store, done := if error.isNone then w.done ++ [op] else w.done }
  | .login plain => some { w with minted := w.minted ++ (login check w plain).toList }
  | .validate _ => some w
  | .tick d => some { w with now := w.now + d }

end Model

/-- The cookie itself. -/
def Mint.cookie (m : Mint) (k : Signer) : List Char :=
  encodeAt k .user m.generation "" m.entryId m.exp

/-- The operation rotates the entry. -/
def rotates (id : String) : Op → Bool
  | .rotate id' _ _ => id' = id
  | _ => false

/-- The operation revokes the entry. -/
def revokes (id : String) : Op → Bool
  | .revoke id' => id' = id
  | _ => false

/-- The id of the entry the operation creates. -/
def createdId : Op → Option String
  | .create _ _ bytes _ _ => some (hex bytes.toList)
  | _ => none

/-- The operation creates the entry. -/
def creates (id : String) (op : Op) : Bool := createdId op = some id

/-- What has succeeded since the login. -/
def World.after (w : World) (m : Mint) : List Op := w.done.drop m.since

/-- A fresh id is one that no entry has had. -/
def Fresh (w : World) : Event → Prop
  | .op op => ∀ id ∈ createdId op, ∀ d ∈ w.done, ¬creates id d
  | _ => True

instance (w : World) : (e : Event) → Decidable (Fresh w e)
  | .op op => inferInstanceAs (Decidable (∀ id ∈ createdId op, ∀ d ∈ w.done, ¬creates id d))
  | .login _ => inferInstanceAs (Decidable True)
  | .validate _ => inferInstanceAs (Decidable True)
  | .tick _ => inferInstanceAs (Decidable True)

/-! ### The generation of one entry -/

/-- What an operation that succeeds makes of the generation of the entry with the id; none
is no entry. -/
def advance (id : String) (gen : Option UInt64) (op : Op) : Option UInt64 :=
  if creates id op then some 1
  else if rotates id op then gen.map (· + 1)
  else if revokes id op then none
  else gen

def generation (id : String) (es : List Entry) : Option UInt64 :=
  (lookup id es).map Entry.generation

section Advance

variable {id : String} {ops : List Op}

lemma foldl_advance_none (h : ∀ op ∈ ops, ¬creates id op) :
    ops.foldl (advance id) none = none := by
  induction ops with
  | nil => rfl
  | cons op ops ih =>
    have hop : advance id none op = none := by
      simp [advance, h op List.mem_cons_self]
    rw [List.foldl_cons, hop, ih fun op hop => h op (List.mem_cons_of_mem _ hop)]

/-- An entry that is not created again counts its rotations until it is revoked. -/
lemma foldl_advance (h : ∀ op ∈ ops, ¬creates id op) (g : UInt64) :
    ops.foldl (advance id) (some g) =
      if ops.any (revokes id) then none else some (g + .ofNat (ops.countP (rotates id))) := by
  induction ops generalizing g with
  | nil => simp
  | cons op ops ih =>
    have hops : ∀ op ∈ ops, ¬creates id op := fun op hop => h op (List.mem_cons_of_mem _ hop)
    have hop : ¬creates id op := h op List.mem_cons_self
    rw [List.foldl_cons, advance, if_neg hop]
    by_cases hrot : rotates id op
    · have hrev : revokes id op = false := by
        cases op <;> simp_all [rotates, revokes]
      have hnext : ∀ n, g + 1 + UInt64.ofNat n = g + UInt64.ofNat (n + 1) := by
        intro n
        rw [UInt64.ofNat_add, UInt64.add_assoc, UInt64.add_comm 1]
        rfl
      rw [if_pos hrot, Option.map_some, ih hops, List.any_cons, hrev, Bool.false_or,
        List.countP_cons_of_pos hrot, hnext]
    · rw [if_neg hrot, List.any_cons, List.countP_cons_of_neg hrot]
      cases hrev : revokes id op with
      | true => rw [if_pos rfl, foldl_advance_none hops, Bool.true_or, if_pos rfl]
      | false => rw [if_neg Bool.false_ne_true, ih hops, Bool.false_or]

end Advance

lemma generation_change {id : String} {f : Entry → Entry} (hf : ∀ e, (f e).id = e.id)
    (es : List Entry) (a : String) : generation a (change id f es) =
      if a = id then (lookup a es).map fun e => (f e).generation else generation a es := by
  rw [generation, lookup_change hf]
  split
  · rw [Option.map_map]
    rfl
  · rfl

lemma generation_changed {op : Op} {es es' : List Entry} {now : SystemTime}
    (h : op.changed es now = .ok es') (hn : (es.map Entry.id).Nodup)
    (hnew : ∀ id, creates id op → lookup id es = none) (a : String) :
    generation a es' = advance a (generation a es) op := by
  cases op with
  | create label ttl bytes plain hash =>
    have hes : es' = es ++ [Entry.new label ttl (hex bytes.toList) hash now] := by
      simp only [Op.changed] at h
      split at h <;> cases h
      rfl
    subst hes
    rw [generation, lookup, List.find?_append]
    by_cases ha : hex bytes.toList = a
    · have hnone : es.find? (fun e => e.id = a) = none := hnew a (by simp [creates, createdId, ha])
      rw [hnone]
      simp [advance, creates, createdId, Entry.new, ha]
    · simp [advance, creates, createdId, rotates, revokes, Entry.new, ha, generation, lookup]
  | setTtl id ttl =>
    simp only [Op.changed] at h
    split at h <;> cases h
    rw [generation_change (f := Entry.setTtl ttl now) fun _ => rfl]
    split <;> rfl
  | rotate id plain hash =>
    simp only [Op.changed] at h
    split at h <;> cases h
    rw [generation_change (f := Entry.rotate hash now) fun _ => rfl]
    by_cases ha : a = id
    · simp [advance, creates, createdId, rotates, ha, generation, Entry.rotate, Function.comp_def]
    · simp [advance, creates, createdId, rotates, revokes, ha, Ne.symm ha]
  | rename id label =>
    simp only [Op.changed] at h
    split at h <;> cases h
    rw [generation_change (f := Entry.rename label) fun _ => rfl]
    split <;> rfl
  | revoke id =>
    simp only [Op.changed] at h
    split at h <;> cases h
    rw [generation, lookup_remove hn]
    by_cases ha : a = id
    · simp [advance, creates, createdId, rotates, revokes, ha]
    · simp [advance, creates, createdId, rotates, revokes, ha, Ne.symm ha, generation]

/-! ### Every run -/

/-- What holds between the entries, the operations that made them and the cookies. -/
structure Kept (w : World) : Prop where
  ids : (w.store.state.map Entry.id).Nodup
  created : ∀ e ∈ w.store.state, ∃ op ∈ w.done, creates e.id op
  minted : ∀ m ∈ w.minted, m.since ≤ w.done.length ∧ (∃ op ∈ w.done, creates m.entryId op) ∧
    m.entryId ≠ "" ∧ (∀ op ∈ w.after m, ¬creates m.entryId op) ∧
    generation m.entryId w.store.state =
      (w.after m).foldl (advance m.entryId) (some m.generation)

section Steps

variable {check : String → String → Bool} {w w' : World}

lemma init_kept (now : SystemTime) : Kept (.init now) := by
  constructor <;> simp [World.init, Store.load]

lemma hex_ne_empty (bytes : Vector UInt8 6) : hex bytes.toList ≠ "" := by
  intro h
  have hnil := congrArg String.toList h
  rw [hex, String.toList_ofList, String.toList_empty, List.flatMap_eq_nil_iff] at hnil
  have hmem : bytes[0] ∈ bytes.toList := by simp
  exact absurd (hnil _ hmem) (by simp)

lemma creates_ne_empty {id : String} {op : Op} (h : creates id op) : id ≠ "" := by
  cases op with
  | create label ttl bytes plain hash =>
    have hid : hex bytes.toList = id := by simpa [creates, createdId] using h
    exact hid ▸ hex_ne_empty bytes
  | _ => simp [creates, createdId] at h

lemma changed_ids {op : Op} {es es' : List Entry} {now : SystemTime}
    (h : op.changed es now = .ok es') (hn : (es.map Entry.id).Nodup)
    (hnew : ∀ id, creates id op → lookup id es = none) :
    (es'.map Entry.id).Nodup ∧ ∀ e ∈ es', e.id ∈ es.map Entry.id ∨ creates e.id op := by
  have hsame {ds : List Entry} (hd : ds.map Entry.id = es.map Entry.id) :
      (ds.map Entry.id).Nodup ∧ ∀ e ∈ ds, e.id ∈ es.map Entry.id ∨ creates e.id op := by
    rw [hd]
    exact ⟨hn, fun e he => .inl (hd ▸ List.mem_map_of_mem he)⟩
  cases op with
  | create label ttl bytes plain hash =>
    simp only [Op.changed] at h
    split at h <;> cases h
    have hid := lookup_eq_none.mp (hnew (hex bytes.toList) (by simp [creates, createdId]))
    constructor
    · rw [List.map_append, List.nodup_append]
      refine ⟨hn, List.nodup_singleton _, ?_⟩
      intro a ha b hb
      have hb : b = hex bytes.toList := List.mem_singleton.mp hb
      rintro rfl
      exact hid (hb ▸ ha)
    · intro e he
      rcases List.mem_append.mp he with he | he
      · exact .inl (List.mem_map_of_mem he)
      · rw [List.mem_singleton.mp he]
        exact .inr (by simp [creates, createdId, Entry.new])
  | setTtl id ttl =>
    simp only [Op.changed] at h
    split at h <;> cases h
    exact hsame (ids_change fun _ => rfl)
  | rotate id plain hash =>
    simp only [Op.changed] at h
    split at h <;> cases h
    exact hsame (ids_change fun _ => rfl)
  | rename id label =>
    simp only [Op.changed] at h
    split at h <;> cases h
    exact hsame (ids_change fun _ => rfl)
  | revoke id =>
    simp only [Op.changed] at h
    split at h <;> cases h
    exact ⟨hn.sublist ids_remove, fun e he => .inl (ids_remove.subset (List.mem_map_of_mem he))⟩

lemma Kept.fresh (h : Kept w) {op : Op} (hf : Fresh w (.op op)) {id : String}
    (hc : creates id op) : lookup id w.store.state = none ∧ ∀ op ∈ w.done, ¬creates id op := by
  have hdone : ∀ op ∈ w.done, ¬creates id op := hf id (by simpa [creates] using hc)
  refine ⟨lookup_eq_none.mpr fun hmem => ?_, hdone⟩
  obtain ⟨e, he, rfl⟩ := List.mem_map.mp hmem
  obtain ⟨d, hd, hcd⟩ := h.created e he
  exact hdone d hd hcd

lemma Kept.op (h : Kept w) {op : Op} (hf : Fresh w (.op op))
    (hs : step check w (.op op) = some w') : Kept w' := by
  simp only [Revocation.step, exec_eq] at hs
  cases hch : op.changed w.store.state w.now with
  | error e =>
    rw [hch] at hs
    cases hs
    exact ⟨h.ids, h.created, h.minted⟩
  | ok es =>
    rw [hch] at hs
    cases hs
    have hnew : ∀ id, creates id op → lookup id w.store.state = none :=
      fun id hc => (h.fresh hf hc).1
    obtain ⟨hids, hmem⟩ := changed_ids hch h.ids hnew
    refine ⟨hids, ?_, ?_⟩
    · intro e he
      rcases hmem e he with hold | hcreate
      · obtain ⟨d, hd, hde⟩ := List.mem_map.mp hold
        obtain ⟨c, hc, hcd⟩ := h.created d hd
        exact ⟨c, List.mem_append_left _ hc, hde ▸ hcd⟩
      · exact ⟨op, List.mem_append_right _ List.mem_cons_self, hcreate⟩
    · intro m hm
      obtain ⟨hle, ⟨c, hc, hcm⟩, hne, hafter, hgen⟩ := h.minted m hm
      have hop : ¬creates m.entryId op := fun ho => (h.fresh hf ho).2 c hc hcm
      have happ : (w.done ++ [op]).drop m.since = w.after m ++ [op] :=
        List.drop_append_of_le_length hle
      refine ⟨?_, ⟨c, List.mem_append_left _ hc, hcm⟩, hne, ?_, ?_⟩
      · simp only [Option.isNone_none, if_true, List.length_append]
        omega
      · change ∀ d ∈ (w.done ++ [op]).drop m.since, _
        rw [happ]
        intro d hd
        rcases List.mem_append.mp hd with hd | hd
        · exact hafter d hd
        · rw [List.mem_singleton.mp hd]
          exact hop
      · change generation m.entryId es = ((w.done ++ [op]).drop m.since).foldl _ _
        rw [happ, List.foldl_append, ← hgen]
        exact generation_changed hch h.ids hnew m.entryId

lemma Kept.login (h : Kept w) {plain : String} (hs : step check w (.login plain) = some w') :
    Kept w' := by
  cases hs
  refine ⟨h.ids, h.created, fun m hm => ?_⟩
  rcases List.mem_append.mp hm with hm | hm
  · exact h.minted m hm
  rw [Option.mem_toList, Revocation.login, Store.verify, Option.map_map] at hm
  obtain ⟨e, he, rfl⟩ := Option.map_eq_some_iff.mp hm
  have hmem : e ∈ w.store.state := List.mem_of_mem_filter (List.mem_of_find?_eq_some he)
  obtain ⟨c, hc, hce⟩ := h.created e hmem
  have hafter : w.done.drop w.done.length = [] := List.drop_length
  refine ⟨le_rfl, ⟨c, hc, hce⟩, creates_ne_empty hce, ?_, ?_⟩
  · change ∀ d ∈ w.done.drop w.done.length, _
    rw [hafter]
    exact fun d hd => absurd hd List.not_mem_nil
  · change generation e.id w.store.state = (w.done.drop w.done.length).foldl _ _
    rw [hafter, generation, lookup_of_mem h.ids hmem]
    rfl

lemma Kept.step (h : Kept w) {e : Event} (hf : Fresh w e) (hs : step check w e = some w') :
    Kept w' := by
  cases e with
  | op op => exact h.op hf hs
  | login plain => exact h.login hs
  | validate headers =>
    cases hs
    exact h
  | tick d =>
    cases hs
    exact ⟨h.ids, h.created, h.minted⟩

end Steps

section Valid

variable {check : String → String → Bool} {now : SystemTime} {w : World} {k : Signer} {m : Mint}
  {headers : List (List Char)} {adminVer : String} {t : SystemTime}

lemma kept_of_reach (hreach : Reach (step check) Fresh (.init now) w) : Kept w :=
  Machine.Reach.invariant (I := Kept) (init_kept now) (fun _ _ _ h hf hs => h.step hf hs) hreach

lemma validSession_cookie (hc : cookieValue headers COOKIE_NAME = some (m.cookie k)) :
    (validSession k w.store adminVer headers t).isSome ↔ unixSecs t ≤ m.exp ∧
      w.store.entryGeneration m.entryId t = some m.generation := by
  rw [validSession, fromHeaders, hc, Option.bind_some, Mint.cookie,
    decode_encodeAt .user m.generation (by decide) m.entryId m.exp t]
  by_cases hexp : m.exp < unixSecs t
  · simp [hexp, Int64.not_le.mpr hexp]
  · simp [hexp, Int64.not_lt.mp hexp]

lemma entryGeneration_eq (h : Kept w) (hm : m ∈ w.minted) :
    w.store.entryGeneration m.entryId t = some m.generation ↔
      ∃ e ∈ w.store.state, e.id = m.entryId ∧ e.isExpired t = false ∧
        e.generation = m.generation := by
  obtain ⟨-, -, hne, -, -⟩ := h.minted m hm
  have hempty : m.entryId.isEmpty = false := by simpa using hne
  rw [Store.entryGeneration, hempty, if_neg Bool.false_ne_true, Option.map_eq_some_iff]
  refine exists_congr fun e => ?_
  rw [Option.filter_eq_some_iff]
  constructor
  · rintro ⟨⟨hl, hlive⟩, hgen⟩
    obtain ⟨he, hid⟩ := mem_ids_of_lookup hl
    exact ⟨he, hid, by simpa using hlive, hgen⟩
  · rintro ⟨he, hid, hlive, hgen⟩
    exact ⟨⟨hid ▸ lookup_of_mem h.ids he, by simpa using hlive⟩, hgen⟩

/-- The entry has been revoked, or rotated and not so often that the generation came round. -/
def Cut (w : World) (m : Mint) : Prop :=
  (∃ op ∈ w.after m, revokes m.entryId op) ∨
    (∃ op ∈ w.after m, rotates m.entryId op) ∧ (w.after m).countP (rotates m.entryId) < 2 ^ 64

lemma Kept.generation_ne (h : Kept w) (hm : m ∈ w.minted) (hcut : Cut w m) :
    generation m.entryId w.store.state ≠ some m.generation := by
  obtain ⟨-, -, -, hafter, hgen⟩ := h.minted m hm
  rw [hgen, foldl_advance hafter]
  split
  · nofun
  · next hrev =>
    obtain ⟨op, hop, hrv⟩ | ⟨⟨op, hop, hrot⟩, hfew⟩ := hcut
    · exact absurd (List.any_eq_true.mpr ⟨op, hop, hrv⟩) hrev
    · have hpos : 0 < (w.after m).countP (rotates m.entryId) :=
        List.countP_pos_iff.mpr ⟨op, hop, hrot⟩
      intro heq
      have := congrArg UInt64.toNat (Option.some.inj heq)
      rw [UInt64.toNat_add, UInt64.toNat_ofNat_of_lt' hfew] at this
      have := m.generation.toNat_lt
      omega

lemma Kept.not_valid (h : Kept w) (hm : m ∈ w.minted)
    (hc : cookieValue headers COOKIE_NAME = some (m.cookie k)) (hcut : Cut w m) :
    validSession k w.store adminVer headers t = none := by
  rw [← Option.not_isSome_iff_eq_none, validSession_cookie hc, entryGeneration_eq h hm]
  rintro ⟨-, e, he, hid, -, hgen⟩
  refine h.generation_ne hm hcut ?_
  rw [generation, ← hid, lookup_of_mem h.ids he, Option.map_some, hgen]

end Valid

/-- **Revocation is final.** -/
theorem revocation_final {check : String → String → Bool} {now : SystemTime} {w : World}
    (hreach : Reach (step check) Fresh (.init now) w) {m : Mint} (hm : m ∈ w.minted) {k : Signer}
    {headers : List (List Char)} (hc : cookieValue headers COOKIE_NAME = some (m.cookie k))
    (adminVer : String) (t : SystemTime) :
    ((validSession k w.store adminVer headers t).isSome ↔ unixSecs t ≤ m.exp ∧
      ∃ e ∈ w.store.state, e.id = m.entryId ∧ e.isExpired t = false ∧
        e.generation = m.generation) ∧
    (Cut w m → validSession k w.store adminVer headers t = none) := by
  have h := kept_of_reach hreach
  refine ⟨?_, h.not_valid hm hc⟩
  rw [validSession_cookie hc, entryGeneration_eq h hm]

section Examples

/-- A signature that is the same for every payload. -/
def anySigner : Signer where
  sign := fun _ => List.replicate 43 'A'
  clean := fun _ h => absurd (List.eq_of_mem_replicate h) (by decide)

/-- The id whose six bytes are all zero. -/
def id0 : String := hex (List.replicate 6 0)

def created : Op := .create "friends" .never (.replicate 6 0) "old" "old"

/-- A login with the only password, which is rotated afterwards. -/
def loggedIn : List Event := [.op created, .login "old"]

def mint0 : Mint := ⟨id0, 1, unixSecs SESSION_TTL, 1⟩

def request (m : Mint) : List (List Char) := [COOKIE_NAME ++ '=' :: m.cookie anySigner]

lemma loggedIn_run : run (step (· = ·)) (.init 0) loggedIn = some
    { store := ⟨[Entry.new "friends" .never id0 "old" 0],
        some [Entry.new "friends" .never id0 "old" 0]⟩
      now := 0, done := [created], minted := [mint0] } := by
  decide +kernel

lemma request_value : cookieValue (request mint0) COOKIE_NAME = some (mint0.cookie anySigner) := by
  decide +kernel

/-- The password is rotated once after the login. -/
def rotatedOnce : List Event := loggedIn ++ [.op (.rotate id0 "new" "new")]

theorem revocation_final_rotatedOnce : ∃ w, run (step (· = ·)) (.init 0) rotatedOnce = some w ∧
    mint0 ∈ w.minted ∧ validSession anySigner w.store "" (request mint0) 0 = none := by
  obtain ⟨w, hw⟩ := Option.isSome_iff_exists.mp
    (show (run (step (· = ·)) (.init 0) rotatedOnce).isSome from by decide +kernel)
  have hmeets : Meets (step (· = ·)) Fresh (.init 0) rotatedOnce := by decide +kernel
  have hreach : Reach (step (· = ·)) Fresh (.init 0) w := .of_run .init hmeets hw
  have hfields : (run (step (· = ·)) (.init 0) rotatedOnce).map (fun w => (w.minted, w.done)) =
      some ([mint0], [created, .rotate id0 "new" "new"]) := by decide +kernel
  simp only [hw, Option.map_some, Option.some.injEq, Prod.mk.injEq] at hfields
  obtain ⟨hminted, hdone⟩ := hfields
  have hm : mint0 ∈ w.minted := by simp [hminted]
  have hafter : w.after mint0 = [.rotate id0 "new" "new"] := by
    rw [World.after, hdone]
    rfl
  refine ⟨w, hw, hm, (revocation_final hreach hm request_value "" 0).2 (.inr ⟨?_, ?_⟩)⟩
  · exact ⟨_, hafter ▸ List.mem_cons_self, by decide +kernel⟩
  · rw [hafter]
    decide +kernel

lemma rotate_many {w : World} (hreach : Reach (step (· = ·)) Fresh (.init 0) w) {e : Entry}
    (he : w.store.state = [e]) (n : ℕ) : ∃ w' e', Reach (step (· = ·)) Fresh (.init 0) w' ∧
      w'.minted = w.minted ∧ w'.done = w.done ++ List.replicate n (.rotate e.id "" "") ∧
      w'.store.state = [e'] ∧ e'.id = e.id ∧ e'.expiresAt = e.expiresAt ∧
      e'.generation = e.generation + .ofNat n := by
  induction n with
  | zero => exact ⟨w, e, hreach, rfl, by simp, he, rfl, rfl, by simp⟩
  | succ n ih =>
    obtain ⟨w', e', hr, hm, hd, hs, hid, hexp, hgen⟩ := ih
    have hstep : step (· = ·) w' (.op (.rotate e.id "" "")) = some
        { w' with store := ⟨[e'.rotate "" w'.now], some [e'.rotate "" w'.now]⟩,
                  done := w'.done ++ [.rotate e.id "" ""] } := by
      simp [step, exec_eq, Op.changed, hs, lookup, change, hid]
    refine ⟨_, e'.rotate "" w'.now, .tail _ hr (fun id hid => by cases hid) hstep, hm, ?_, rfl,
      hid, hexp, ?_⟩
    · rw [List.replicate_succ', ← List.append_assoc, ← hd]
    · rw [Entry.rotate, hgen, UInt64.ofNat_add, UInt64.add_assoc]
      rfl

/-- After `2 ^ 64` rotations the cookie of the first generation is let in again. -/
theorem generation_comes_round : ¬∀ (check : String → String → Bool) (now : SystemTime) (w : World),
    Reach (step check) Fresh (.init now) w → ∀ m ∈ w.minted, ∀ (k : Signer)
      (headers : List (List Char)), cookieValue headers COOKIE_NAME = some (m.cookie k) →
      ∀ (adminVer : String) (t : SystemTime),
      (∃ op ∈ w.after m, rotates m.entryId op ∨ revokes m.entryId op) →
      validSession k w.store adminVer headers t = none := by
  intro h
  have hreach : Reach (step (· = ·)) Fresh (.init 0) _ :=
    .of_run .init (by decide +kernel) loggedIn_run
  obtain ⟨w, e, hr, hm, hd, hs, hid, hexp, hgen⟩ := rotate_many hreach rfl (2 ^ 64)
  have hmint : mint0 ∈ w.minted := by simp [hm]
  have hafter : w.after mint0 = List.replicate (2 ^ 64) (.rotate id0 "" "") := by
    rw [World.after, hd]
    rfl
  have hcut : ∃ op ∈ w.after mint0, rotates mint0.entryId op ∨ revokes mint0.entryId op := by
    rw [hafter]
    exact ⟨_, List.mem_replicate.mpr ⟨by decide, rfl⟩, .inl (by decide +kernel)⟩
  have hnone := h _ 0 w hr mint0 hmint anySigner _ request_value "" 0 hcut
  rw [← Option.not_isSome_iff_eq_none, validSession_cookie request_value,
    entryGeneration_eq (kept_of_reach hr) hmint] at hnone
  refine hnone ⟨by decide +kernel, e, by simp [hs], hid, ?_, ?_⟩
  · simp only [Entry.isExpired, hexp]
    rfl
  · rw [hgen]
    decide +kernel

end Examples

end VoiceHub.Auth.Revocation
