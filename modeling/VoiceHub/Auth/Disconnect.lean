import Mathlib
import VoiceHub.Lib.Machine
import VoiceHub.Lib.HashMap
import VoiceHub.Auth.ConnPass
import VoiceHub.Auth.SessionCookie
import VoiceHub.Auth.Revocation

/-!
The live connections of users, and cutting them off after their password is gone.

A connection is let in by one step, which looks at its session, and becomes known to the
registry by a later one. An admin revokes or rotates a password and then disconnects the
users; disconnecting takes the tokens of the connections the registry knows and cancels
them one after another, outside the lock.
-/

namespace VoiceHub.Auth.Disconnect

open VoiceHub.Lib VoiceHub.Lib.Machine VoiceHub.Auth.ConnPass VoiceHub.Auth.SessionCookie
open VoiceHub.Auth.Revocation

/-- Live connections with their role and their token. -/
structure WsRegistry where
  next : UInt64
  entries : HashMap UInt64 (Role × ℕ)

namespace WsRegistry

def add (r : WsRegistry) (role : Role) (cancel : ℕ) : WsRegistry × UInt64 :=
  (⟨r.next + 1, r.entries.insert (r.next + 1) (role, cancel)⟩, r.next + 1)

def remove (r : WsRegistry) (id : UInt64) : WsRegistry := { r with entries := r.entries.erase id }

/-- What `disconnect_users` collects under the lock. -/
def users (r : WsRegistry) : List ℕ :=
  ((HashMap.values r.entries).filter fun e => e.1 = .user).map Prod.snd

end WsRegistry

inductive Kind
  | ws
  | presence
deriving DecidableEq, Repr

inductive Phase
  | checked
  | spawned
  | registered (id : UInt64)
  | closed
deriving DecidableEq, Repr

/-- A request that has been let in, and how many cuts had begun by then. Its token has its
number. -/
structure Conn where
  kind : Kind
  headers : List (List Char)
  sess : Session
  checked : ℕ
  phase : Phase

/-- A password that was revoked, or rotated past a generation, and what is left to cancel
once the users are being disconnected. -/
structure Cut where
  entryId : String
  generation : Option UInt64
  pending : Option (List ℕ)
deriving DecidableEq, Repr

/-- The session is one of the password, or of its generation before the rotation. -/
def Cut.kills (cut : Cut) (sess : Session) : Bool :=
  sess.role = .user && sess.entryId = cut.entryId && cut.generation.all (· = sess.generation)

structure World where
  auth : Revocation.World
  conns : HashMap ℕ Conn
  registry : WsRegistry
  cancelled : List ℕ
  cuts : List Cut

def World.init (now : SystemTime) : World := ⟨.init now, ∅, ⟨0, ∅⟩, [], []⟩

inductive Event
  /-- Anything else that happens to the passwords, a login, or time that passes. -/
  | auth (e : Revocation.Event)
  | check (c : ℕ) (kind : Kind) (headers : List (List Char))
  | spawn (c : ℕ)
  | add (c : ℕ)
  | remove (c : ℕ)
  /-- The admin revokes or rotates a password, to disconnect the users next. -/
  | ban (op : Op)
  | disconnect (i : ℕ)
  | cancel (i : ℕ) (c : ℕ)

section Model

variable (check : String → String → Bool) (k : Signer) (adminVer : String)

/-- The request is let in if its session is valid. -/
def World.letIn (w : World) (c : ℕ) (kind : Kind) (headers : List (List Char)) : World :=
  match validSession k w.auth.store adminVer headers w.auth.now with
  | none => w
  | some sess =>
    { w with conns := w.conns.insert c ⟨kind, headers, sess, w.cuts.length, .checked⟩ }

/-- The role a connection is registered with: `/api/presence` reads it off the cookie again. -/
def World.role (w : World) (conn : Conn) : Role :=
  match conn.kind with
  | .ws => conn.sess.role
  | .presence => ((fromHeaders k conn.headers w.auth.now).map Session.role).getD .user

/-- The step before `WsRegistry::add`. -/
def Kind.ready : Kind → Phase
  | .ws => .spawned
  | .presence => .checked

def World.add (w : World) (c : ℕ) (conn : Conn) : World :=
  let (registry, id) := w.registry.add (w.role k conn) c
  { w with registry, conns := w.conns.insert c { conn with phase := .registered id } }

/-- The sessions that an operation ends. -/
def cutOf (es : List Entry) : Op → Option Cut
  | .revoke id => some ⟨id, none, none⟩
  | .rotate id _ _ => some ⟨id, generation id es, none⟩
  | _ => none

def step (w : World) : Event → Option World
  | .auth e => (Revocation.step check w.auth e).map fun auth => { w with auth }
  | .check c kind headers =>
    if (w.conns.lookup c).isSome then none else some (w.letIn k adminVer c kind headers)
  | .spawn c => do
    let conn ← w.conns.lookup c
    if conn.kind = .ws ∧ conn.phase = .checked then
      some { w with conns := w.conns.insert c { conn with phase := .spawned } }
    else none
  | .add c => do
    let conn ← w.conns.lookup c
    if conn.phase = conn.kind.ready then some (w.add k c conn) else none
  | .remove c => do
    let conn ← w.conns.lookup c
    match conn.phase with
    | .registered id =>
      some { w with registry := w.registry.remove id,
                    conns := w.conns.insert c { conn with phase := .closed } }
    | _ => none
  | .ban op => do
    let cut ← cutOf w.auth.store.state op
    let auth ← Revocation.step check w.auth (.op op)
    let error := (w.auth.store.exec ⟨op, w.auth.now, none⟩).2
    some { w with auth, cuts := if error.isNone then w.cuts ++ [cut] else w.cuts }
  | .disconnect i => do
    let cut ← w.cuts[i]?
    if cut.pending = none then
      some { w with cuts := w.cuts.set i { cut with pending := some w.registry.users } }
    else none
  | .cancel i c => do
    let cut ← w.cuts[i]?
    let pending ← cut.pending
    if c ∈ pending then
      some { w with cancelled := c :: w.cancelled,
                    cuts := w.cuts.set i { cut with pending := some (pending.erase c) } }
    else none

end Model

/-- No rotation takes a password back to a generation that has been cut. -/
def Onward (w : World) (op : Op) : Prop :=
  ∀ cut ∈ w.cuts, rotates cut.entryId op → ∀ g ∈ cut.generation,
    (generation cut.entryId w.auth.store.state).map (· + 1) ≠ some g

/-- A connection of a password that was cut after its session was looked at is registered
before the users are disconnected. -/
def InTime (w : World) (c : ℕ) : Prop :=
  ∀ conn ∈ w.conns.lookup c, ∀ i < w.cuts.length, ∀ cut ∈ w.cuts[i]?,
    cut.pending.isSome → cut.kills conn.sess → i < conn.checked

def Orderly (w : World) : Event → Prop
  | .auth e => Fresh w.auth e ∧ ∀ op, e = .op op → Onward w op
  | .ban op => Onward w op
  | .add c => InTime w c
  | _ => True

instance (w : World) (op : Op) : Decidable (Onward w op) :=
  inferInstanceAs (Decidable (∀ cut ∈ w.cuts, rotates cut.entryId op → ∀ g ∈ cut.generation,
    (generation cut.entryId w.auth.store.state).map (· + 1) ≠ some g))

instance (w : World) (c : ℕ) : Decidable (InTime w c) :=
  inferInstanceAs (Decidable (∀ conn ∈ w.conns.lookup c, ∀ i < w.cuts.length, ∀ cut ∈ w.cuts[i]?,
    cut.pending.isSome → cut.kills conn.sess → i < conn.checked))

instance (w : World) : (e : Event) → Decidable (Orderly w e)
  | .auth (.op op) => decidable_of_iff (Fresh w.auth (.op op) ∧ Onward w op) (by simp [Orderly])
  | .auth (.login plain) => decidable_of_iff (Fresh w.auth (.login plain)) (by simp [Orderly])
  | .auth (.validate hs) => decidable_of_iff (Fresh w.auth (.validate hs)) (by simp [Orderly])
  | .auth (.tick d) => decidable_of_iff (Fresh w.auth (.tick d)) (by simp [Orderly])
  | .ban op => inferInstanceAs (Decidable (Onward w op))
  | .add c => inferInstanceAs (Decidable (InTime w c))
  | .check _ _ _ => inferInstanceAs (Decidable True)
  | .spawn _ => inferInstanceAs (Decidable True)
  | .remove _ => inferInstanceAs (Decidable True)
  | .disconnect _ => inferInstanceAs (Decidable True)
  | .cancel _ _ => inferInstanceAs (Decidable True)

/-- Nothing that a cut should have disconnected is connected once it has returned. -/
def NoneLeft (w : World) : Prop :=
  ∀ cut ∈ w.cuts, cut.pending = some [] → ∀ id role c,
    w.registry.entries.lookup id = some (role, c) → ∀ conn, w.conns.lookup c = some conn →
      cut.kills conn.sess → c ∈ w.cancelled

/-! ### Sessions and passwords -/

section Sessions

variable {k : Signer} {headers : List (List Char)} {now t : SystemTime} {sess : Session}
  {store : Store} {adminVer : String}

lemma decode_eq {value : List Char} {sess' : Session} (h : decode k value now = some sess)
    (h' : decode k value t = some sess') : sess' = sess := by
  simp only [decode, Option.bind_eq_bind, Option.bind_eq_some_iff] at h h'
  obtain ⟨⟨payload, sig⟩, hsplit, h⟩ := h
  obtain ⟨⟨payload', sig'⟩, hsplit', h'⟩ := h'
  rw [hsplit, Option.some.injEq, Prod.mk.injEq] at hsplit'
  obtain ⟨rfl, rfl⟩ := hsplit'
  split at h
  · cases h
  next hsig =>
  rw [if_neg hsig] at h'
  split at h
  · next exp role gen adminVer entryId hparts =>
    rw [hparts] at h'
    simp only [Option.bind_eq_some_iff] at h h'
    obtain ⟨_, hexp, _, hrole, _, hgen, h⟩ := h
    obtain ⟨_, hexp', _, hrole', _, hgen', h'⟩ := h'
    rw [hrole, Option.some.injEq] at hrole'
    rw [hgen, Option.some.injEq] at hgen'
    subst hrole' hgen'
    split at h <;> cases h
    split at h' <;> cases h'
    rfl
  · cases h

lemma validSession_user (h : validSession k store adminVer headers now = some sess)
    (hrole : sess.role = .user) : generation sess.entryId store.state = some sess.generation := by
  obtain ⟨-, hlive⟩ := Option.filter_eq_some_iff.mp h
  have hlive : store.entryGeneration sess.entryId now = some sess.generation := by
    simpa [hrole] using hlive
  rw [Store.entryGeneration] at hlive
  split at hlive
  · cases hlive
  · obtain ⟨e, he, hgen⟩ := Option.map_eq_some_iff.mp hlive
    rw [generation, (Option.filter_eq_some_iff.mp he).1, Option.map_some, hgen]

lemma role_user {w : World} {conn : Conn} (hrole : conn.sess.role = .user)
    (hread : fromHeaders k conn.headers now = some conn.sess) : w.role k conn = .user := by
  unfold World.role
  split
  · exact hrole
  · cases hnow : fromHeaders k conn.headers w.auth.now with
    | none => rfl
    | some sess =>
      obtain ⟨value, hvalue, hdecode⟩ := Option.bind_eq_some_iff.mp hread
      rw [fromHeaders, hvalue, Option.bind_some] at hnow
      rw [decode_eq hdecode hnow]
      exact hrole

end Sessions

/-! ### Every run -/

/-- What holds between the passwords, the registry and the cuts. -/
structure Cuttable (k : Signer) (w : World) : Prop where
  kept : Kept w.auth
  existed : ∀ cut ∈ w.cuts, ∃ op ∈ w.auth.done, creates cut.entryId op
  dead : ∀ cut ∈ w.cuts, ∀ g, generation cut.entryId w.auth.store.state = some g →
    cut.generation.all (· = g) = false
  checked : ∀ c conn, w.conns.lookup c = some conn → conn.checked ≤ w.cuts.length
  late : ∀ c conn, w.conns.lookup c = some conn → ∀ (i : ℕ) (cut : Cut), w.cuts[i]? = some cut →
    i < conn.checked → cut.kills conn.sess = false
  read : ∀ c conn, w.conns.lookup c = some conn →
    ∃ now, fromHeaders k conn.headers now = some conn.sess
  known : ∀ id role c, w.registry.entries.lookup id = some (role, c) →
    ∃ conn, w.conns.lookup c = some conn ∧ (conn.sess.role = .user → role = .user)
  covered : ∀ (i : ℕ) (cut : Cut), w.cuts[i]? = some cut → ∀ pending,
    cut.pending = some pending → ∀ id role c, w.registry.entries.lookup id = some (role, c) →
      ∀ conn, w.conns.lookup c = some conn → cut.kills conn.sess →
        c ∈ pending ∨ c ∈ w.cancelled

section Steps

variable {check : String → String → Bool} {k : Signer} {adminVer : String} {w w' : World}

lemma init_cuttable (now : SystemTime) : Cuttable k (.init now) where
  kept := init_kept now
  existed := by simp [World.init]
  dead := by simp [World.init]
  checked := by simp [World.init]
  late := by simp [World.init]
  read := by simp [World.init]
  known := by simp [World.init]
  covered := by simp [World.init]

lemma auth_step {a a' : Revocation.World} {e : Revocation.Event} (h : Kept a) (hf : Fresh a e)
    (hs : Revocation.step check a e = some a') : Kept a' ∧ ∀ id, (∃ op ∈ a.done, creates id op) →
      (∃ op ∈ a'.done, creates id op) ∧
      (generation id a'.store.state = generation id a.store.state ∨ ∃ op, e = .op op ∧
        creates id op = false ∧
        generation id a'.store.state = advance id (generation id a.store.state) op) := by
  refine ⟨h.step hf hs, fun id ⟨c, hc, hcid⟩ => ?_⟩
  cases e with
  | op op =>
    simp only [Revocation.step, exec_eq] at hs
    cases hch : op.changed a.store.state a.now with
    | error e =>
      rw [hch] at hs
      cases hs
      exact ⟨⟨c, hc, hcid⟩, .inl rfl⟩
    | ok es =>
      rw [hch] at hs
      cases hs
      have hop : creates id op = false := by
        rw [← Bool.not_eq_true]
        exact fun hop => (h.fresh hf hop).2 c hc hcid
      refine ⟨⟨c, List.mem_append_left _ hc, hcid⟩, .inr ⟨op, rfl, hop, ?_⟩⟩
      exact generation_changed hch h.ids (fun id hc => (h.fresh hf hc).1) id
  | login plain =>
    cases hs
    exact ⟨⟨c, hc, hcid⟩, .inl rfl⟩
  | validate headers =>
    cases hs
    exact ⟨⟨c, hc, hcid⟩, .inl rfl⟩
  | tick d =>
    cases hs
    exact ⟨⟨c, hc, hcid⟩, .inl rfl⟩

/-- What has been cut stays dead, if no rotation comes back to it. -/
lemma advance_dead {cut : Cut} {gen : Option UInt64} {op : Op}
    (hdead : ∀ g, gen = some g → cut.generation.all (· = g) = false)
    (hop : creates cut.entryId op = false)
    (honward : rotates cut.entryId op → ∀ g ∈ cut.generation, gen.map (· + 1) ≠ some g) :
    ∀ g, advance cut.entryId gen op = some g → cut.generation.all (· = g) = false := by
  intro g hg
  rw [advance, hop, if_neg Bool.false_ne_true] at hg
  split at hg
  · next hrot =>
    cases hcut : cut.generation with
    | none =>
      obtain ⟨g', hg', -⟩ := Option.map_eq_some_iff.mp hg
      have := hdead g' hg'
      simp [hcut] at this
    | some d =>
      have hne := honward hrot d hcut
      rw [hg] at hne
      simpa using fun h : d = g => hne (congrArg some h.symm)
  · split at hg
    · cases hg
    · exact hdead g hg

lemma Cuttable.auth (h : Cuttable k w) {e : Revocation.Event} {a : Revocation.World}
    (hf : Fresh w.auth e) (honward : ∀ op, e = .op op → Onward w op)
    (hs : Revocation.step check w.auth e = some a) : Cuttable k { w with auth := a } := by
  obtain ⟨hkept, hids⟩ := auth_step h.kept hf hs
  refine ⟨hkept, fun cut hcut => (hids _ (h.existed cut hcut)).1, ?_, h.checked, h.late, h.read,
    h.known, h.covered⟩
  intro cut hcut g hg
  obtain hsame | ⟨op, heq, hop, hadv⟩ := (hids _ (h.existed cut hcut)).2
  · exact h.dead cut hcut g (hsame ▸ hg)
  · exact advance_dead (h.dead cut hcut) hop (honward op heq cut hcut) g (hadv ▸ hg)

lemma Cuttable.update (h : Cuttable k w) {c : ℕ} {conn conn' : Conn}
    (hc : w.conns.lookup c = some conn) (hsess : conn'.sess = conn.sess)
    (hheaders : conn'.headers = conn.headers) (hchecked : conn'.checked = conn.checked) :
    Cuttable k { w with conns := w.conns.insert c conn' } := by
  have hold : ∀ a d, (w.conns.insert c conn').lookup a = some d → ∃ d', w.conns.lookup a = some d' ∧
      d.sess = d'.sess ∧ d.headers = d'.headers ∧ d.checked = d'.checked := by
    intro a d hd
    rw [HashMap.lookup_insert] at hd
    split at hd
    · next hac =>
      cases hd
      exact ⟨conn, hac ▸ hc, hsess, hheaders, hchecked⟩
    · exact ⟨d, hd, rfl, rfl, rfl⟩
  have hnew : ∀ a d, w.conns.lookup a = some d →
      ∃ d', (w.conns.insert c conn').lookup a = some d' ∧ d'.sess = d.sess := by
    intro a d hd
    rw [HashMap.lookup_insert]
    split
    · next hac =>
      rw [hac, hc, Option.some.injEq] at hd
      exact ⟨conn', rfl, hd ▸ hsess⟩
    · exact ⟨d, hd, rfl⟩
  refine ⟨h.kept, h.existed, h.dead, ?_, ?_, ?_, ?_, ?_⟩
  · intro a d hd
    obtain ⟨d', hd', -, -, hch⟩ := hold a d hd
    exact hch ▸ h.checked a d' hd'
  · intro a d hd i cut hcut hi
    obtain ⟨d', hd', hs, -, hch⟩ := hold a d hd
    exact hs ▸ h.late a d' hd' i cut hcut (hch ▸ hi)
  · intro a d hd
    obtain ⟨d', hd', hs, hh, -⟩ := hold a d hd
    rw [hs, hh]
    exact h.read a d' hd'
  · intro id role a ha
    obtain ⟨d, hd, hrole⟩ := h.known id role a ha
    obtain ⟨d', hd', hs⟩ := hnew a d hd
    exact ⟨d', hd', hs ▸ hrole⟩
  · intro i cut hcut pending hp id role a ha d hd hkills
    obtain ⟨d', hd', hs, -, -⟩ := hold a d hd
    exact h.covered i cut hcut pending hp id role a ha d' hd' (hs ▸ hkills)

lemma Cuttable.letIn (h : Cuttable k w) {c : ℕ} (hc : w.conns.lookup c = none) (kind : Kind)
    (headers : List (List Char)) : Cuttable k (w.letIn k adminVer c kind headers) := by
  unfold World.letIn
  split
  · exact h
  next sess hsess =>
  have hlookup : ∀ a d, (w.conns.insert c ⟨kind, headers, sess, w.cuts.length, .checked⟩).lookup a =
      some d → d = ⟨kind, headers, sess, w.cuts.length, .checked⟩ ∨ w.conns.lookup a = some d := by
    intro a d hd
    rw [HashMap.lookup_insert] at hd
    split at hd
    · exact .inl (Option.some.inj hd).symm
    · exact .inr hd
  have hknown : ∀ id role a, w.registry.entries.lookup id = some (role, a) → a ≠ c := by
    rintro id role a ha rfl
    obtain ⟨d, hd, -⟩ := h.known id role a ha
    rw [hc] at hd
    cases hd
  have hkeep : ∀ a, a ≠ c →
      (w.conns.insert c ⟨kind, headers, sess, w.cuts.length, .checked⟩).lookup a =
        w.conns.lookup a := fun a ha => AList.lookup_insert_ne ha
  refine ⟨h.kept, h.existed, h.dead, ?_, ?_, ?_, ?_, ?_⟩
  · intro a d hd
    rcases hlookup a d hd with rfl | hd
    · exact le_rfl
    · exact h.checked a d hd
  · intro a d hd i cut hcut hi
    rcases hlookup a d hd with rfl | hd
    · cases hk : cut.kills sess with
      | false => rfl
      | true =>
        simp only [Cut.kills, Bool.and_eq_true, decide_eq_true_eq] at hk
        obtain ⟨⟨hrole, hid⟩, hgen⟩ := hk
        have hlive := validSession_user hsess hrole
        rw [h.dead cut (List.mem_of_getElem? hcut) _ (hid ▸ hlive)] at hgen
        cases hgen
    · exact h.late a d hd i cut hcut hi
  · intro a d hd
    rcases hlookup a d hd with rfl | hd
    · exact ⟨_, (Option.filter_eq_some_iff.mp hsess).1⟩
    · exact h.read a d hd
  · intro id role a ha
    obtain ⟨d, hd, hrole⟩ := h.known id role a ha
    exact ⟨d, (hkeep a (hknown id role a ha)).trans hd, hrole⟩
  · intro i cut hcut pending hp id role a ha d hd
    rw [hkeep a (hknown id role a ha)] at hd
    exact h.covered i cut hcut pending hp id role a ha d hd

lemma Cuttable.add (h : Cuttable k w) {c : ℕ} {conn : Conn} (hc : w.conns.lookup c = some conn)
    (htime : InTime w c) : Cuttable k (w.add k c conn) := by
  have hu : Cuttable k { w with
      conns := w.conns.insert c { conn with phase := .registered (w.registry.next + 1) } } :=
    h.update hc rfl rfl rfl
  have hentry : ∀ id role a,
      (w.registry.entries.insert (w.registry.next + 1) (w.role k conn, c)).lookup id =
        some (role, a) → (role = w.role k conn ∧ a = c) ∨
          w.registry.entries.lookup id = some (role, a) := by
    intro id role a ha
    rw [HashMap.lookup_insert] at ha
    split at ha
    · cases ha
      exact .inl ⟨rfl, rfl⟩
    · exact .inr ha
  refine ⟨hu.kept, hu.existed, hu.dead, hu.checked, hu.late, hu.read, ?_, ?_⟩
  · intro id role a ha
    rcases hentry id role a ha with ⟨rfl, rfl⟩ | ha
    · refine ⟨_, AList.lookup_insert _, fun hrole => ?_⟩
      obtain ⟨t, ht⟩ := h.read a conn hc
      exact role_user hrole ht
    · exact hu.known id role a ha
  · intro i cut hcut pending hp id role a ha d hd hkills
    rcases hentry id role a ha with ⟨rfl, rfl⟩ | ha
    · have hd : (w.conns.insert a _).lookup a = some d := hd
      rw [AList.lookup_insert, Option.some.injEq] at hd
      subst hd
      have hlt : i < w.cuts.length := (List.getElem?_eq_some_iff.mp hcut).1
      have hi := htime conn hc i hlt cut hcut (hp ▸ rfl) hkills
      rw [h.late a conn hc i cut hcut hi] at hkills
      cases hkills
    · exact hu.covered i cut hcut pending hp id role a ha d hd hkills

lemma Cuttable.remove (h : Cuttable k w) {c : ℕ} {conn : Conn} (hc : w.conns.lookup c = some conn)
    (id : UInt64) : Cuttable k { w with
      registry := w.registry.remove id
      conns := w.conns.insert c { conn with phase := .closed } } := by
  have hu : Cuttable k { w with conns := w.conns.insert c { conn with phase := .closed } } :=
    h.update hc rfl rfl rfl
  have hentry : ∀ a e, (w.registry.entries.erase id).lookup a = some e →
      w.registry.entries.lookup a = some e := by
    intro a e he
    rw [HashMap.lookup_erase] at he
    split at he
    · cases he
    · exact he
  exact ⟨hu.kept, hu.existed, hu.dead, hu.checked, hu.late, hu.read,
    fun a role b hb => hu.known a role b (hentry a _ hb),
    fun i cut hcut pending hp a role b hb =>
      hu.covered i cut hcut pending hp a role b (hentry a _ hb)⟩

lemma Cuttable.set (h : Cuttable k w) {i : ℕ} {cut : Cut} (hcut : w.cuts[i]? = some cut)
    (pending : List ℕ) {cancelled : List ℕ} (hmono : ∀ c ∈ w.cancelled, c ∈ cancelled)
    (hgood : ∀ id role c, w.registry.entries.lookup id = some (role, c) →
      ∀ conn, w.conns.lookup c = some conn → cut.kills conn.sess → c ∈ pending ∨ c ∈ cancelled) :
    Cuttable k { w with
      cancelled := cancelled, cuts := w.cuts.set i { cut with pending := some pending } } := by
  have hold : ∀ (j : ℕ) (d : Cut),
      (w.cuts.set i { cut with pending := some pending })[j]? = some d →
      (j = i ∧ d = { cut with pending := some pending }) ∨ w.cuts[j]? = some d := by
    intro j d hd
    rw [List.getElem?_set] at hd
    split at hd
    · next hij =>
      split at hd
      · cases hd
        exact .inl ⟨hij.symm, rfl⟩
      · cases hd
    · exact .inr hd
  have hmem : ∀ d ∈ w.cuts.set i { cut with pending := some pending },
      ∃ d' ∈ w.cuts, d.entryId = d'.entryId ∧ d.generation = d'.generation := by
    intro d hd
    obtain ⟨j, hj⟩ := List.mem_iff_getElem?.mp hd
    rcases hold j d hj with ⟨rfl, rfl⟩ | hj
    · exact ⟨cut, List.mem_of_getElem? hcut, rfl, rfl⟩
    · exact ⟨d, List.mem_of_getElem? hj, rfl, rfl⟩
  refine ⟨h.kept, ?_, ?_, ?_, ?_, h.read, h.known, ?_⟩
  · intro d hd
    obtain ⟨d', hd', hid, -⟩ := hmem d hd
    exact hid ▸ h.existed d' hd'
  · intro d hd
    obtain ⟨d', hd', hid, hgen⟩ := hmem d hd
    rw [hid, hgen]
    exact h.dead d' hd'
  · intro c conn hc
    rw [List.length_set]
    exact h.checked c conn hc
  · intro c conn hc j d hd hj
    rcases hold j d hd with ⟨rfl, rfl⟩ | hd
    · exact h.late c conn hc j cut hcut hj
    · exact h.late c conn hc j d hd hj
  · intro j d hd l hl id role c hid conn hconn hkills
    rcases hold j d hd with ⟨rfl, rfl⟩ | hd
    · cases hl
      exact hgood id role c hid conn hconn hkills
    · exact (h.covered j d hd l hl id role c hid conn hconn hkills).imp_right (hmono c)

lemma Cuttable.disconnect (h : Cuttable k w) {i : ℕ} {cut : Cut} (hcut : w.cuts[i]? = some cut) :
    Cuttable k { w with cuts := w.cuts.set i { cut with pending := some w.registry.users } } := by
  refine h.set hcut w.registry.users (fun _ hc => hc) fun id role c hid conn hconn hkills => .inl ?_
  obtain ⟨d, hd, hrole⟩ := h.known id role c hid
  rw [hconn, Option.some.injEq] at hd
  subst hd
  simp only [Cut.kills, Bool.and_eq_true, decide_eq_true_eq] at hkills
  refine List.mem_map.mpr ⟨(role, c), List.mem_filter.mpr ⟨?_, ?_⟩, rfl⟩
  · exact HashMap.mem_values.mpr ⟨id, hid⟩
  · simpa using hrole hkills.1.1

lemma Cuttable.cancel (h : Cuttable k w) {i c : ℕ} {cut : Cut} {pending : List ℕ}
    (hcut : w.cuts[i]? = some cut) (hp : cut.pending = some pending) :
    Cuttable k { w with
      cancelled := c :: w.cancelled,
      cuts := w.cuts.set i { cut with pending := some (pending.erase c) } } := by
  refine h.set hcut _ (fun _ hc => List.mem_cons_of_mem _ hc) fun id role d hid conn hconn hk => ?_
  rcases h.covered i cut hcut pending hp id role d hid conn hconn hk with hd | hd
  · by_cases hdc : d = c
    · exact .inr (hdc ▸ List.mem_cons_self)
    · exact .inl ((List.mem_erase_of_ne hdc).mpr hd)
  · exact .inr (List.mem_cons_of_mem _ hd)

lemma cutOf_fresh {es : List Entry} {op : Op} {cut : Cut} (hcut : cutOf es op = some cut)
    (a : Revocation.World) : Fresh a (.op op) := by
  intro id hid
  cases op with
  | revoke _ => cases hid
  | rotate _ _ _ => cases hid
  | _ => cases hcut

/-- A cut is of an entry that was there, whose sessions the operation ends. -/
lemma cutOf_spec {a : Revocation.World} (hk : Kept a) {op : Op} {cut : Cut} {es : List Entry}
    (hcut : cutOf a.store.state op = some cut) (hch : op.changed a.store.state a.now = .ok es) :
    cut.pending = none ∧ (∃ e ∈ a.store.state, e.id = cut.entryId) ∧
      ∀ g, generation cut.entryId es = some g → cut.generation.all (· = g) = false := by
  have hgone : ∀ id, (¬lookup id a.store.state = none) → ∃ e ∈ a.store.state, e.id = id := by
    intro id hl
    obtain ⟨e, he⟩ := Option.ne_none_iff_exists'.mp hl
    exact ⟨e, mem_ids_of_lookup he⟩
  have hnew : createdId op = none → ∀ id, creates id op → lookup id a.store.state = none := by
    intro h id hc
    simp [creates, h] at hc
  cases op with
  | revoke id =>
    cases hcut
    have hgen := generation_changed hch hk.ids (hnew rfl) id
    simp only [Op.changed] at hch
    split at hch <;> cases hch
    next hl =>
    refine ⟨rfl, hgone id hl, fun g hg => ?_⟩
    rw [hgen] at hg
    simp [advance, creates, createdId, rotates, revokes] at hg
  | rotate id plain hash =>
    cases hcut
    have hgen := generation_changed hch hk.ids (hnew rfl) id
    simp only [Op.changed] at hch
    split at hch <;> cases hch
    next hl =>
    obtain ⟨e, he⟩ := Option.ne_none_iff_exists'.mp hl
    refine ⟨rfl, hgone id hl, fun g hg => ?_⟩
    rw [hgen] at hg
    have hg : e.generation + 1 = g := by
      simpa [advance, creates, createdId, rotates, generation, he] using hg
    simp only [generation, he, Option.map_some, Option.all_some, decide_eq_false_iff_not]
    exact fun hne => generation_succ_ne e.generation (hg.trans hne.symm)
  | _ => cases hcut

lemma Cuttable.ban (h : Cuttable k w) {op : Op} {cut : Cut} {a : Revocation.World}
    (hcut : cutOf w.auth.store.state op = some cut) (honward : Onward w op)
    (hs : Revocation.step check w.auth (.op op) = some a)
    (hok : (w.auth.store.exec ⟨op, w.auth.now, none⟩).2 = none) :
    Cuttable k { w with auth := a, cuts := w.cuts ++ [cut] } := by
  have hs' := hs
  simp only [Revocation.step, exec_eq] at hs hok
  cases hch : op.changed w.auth.store.state w.auth.now with
  | error e =>
    rw [hch] at hok
    cases hok
  | ok es =>
  rw [hch] at hs
  cases hs
  obtain ⟨hpending, ⟨e, he, hid⟩, hdead⟩ := cutOf_spec h.kept hcut hch
  have ha :=
    h.auth (cutOf_fresh hcut w.auth) (fun _ heq => Revocation.Event.op.inj heq ▸ honward) hs'
  have hold : ∀ (i : ℕ) (d : Cut), (w.cuts ++ [cut])[i]? = some d →
      w.cuts[i]? = some d ∨ (i = w.cuts.length ∧ d = cut) := by
    intro i d hd
    rcases lt_or_ge i w.cuts.length with hi | hi
    · rw [List.getElem?_append_left hi] at hd
      exact .inl hd
    · rw [List.getElem?_append_right hi, List.getElem?_singleton] at hd
      split at hd
      · next hz =>
        cases hd
        exact .inr ⟨by omega, rfl⟩
      · cases hd
  refine ⟨ha.kept, ?_, ?_, ?_, ?_, h.read, h.known, ?_⟩
  · intro d hd
    rcases List.mem_append.mp hd with hd | hd
    · exact ha.existed d hd
    · rw [List.mem_singleton.mp hd, ← hid]
      obtain ⟨c, hc, hce⟩ := h.kept.created e he
      exact ⟨c, List.mem_append_left _ hc, hce⟩
  · intro d hd
    rcases List.mem_append.mp hd with hd | hd
    · exact ha.dead d hd
    · rw [List.mem_singleton.mp hd]
      exact hdead
  · intro c conn hc
    have := h.checked c conn hc
    rw [List.length_append]
    omega
  · intro c conn hc i d hd hi
    rcases hold i d hd with hd | ⟨rfl, -⟩
    · exact h.late c conn hc i d hd hi
    · have := h.checked c conn hc
      omega
  · intro i d hd pending hp id role c hid conn hconn hkills
    rcases hold i d hd with hd | ⟨-, rfl⟩
    · exact h.covered i d hd pending hp id role c hid conn hconn hkills
    · rw [hpending] at hp
      cases hp

lemma Cuttable.step (h : Cuttable k w) {e : Event} (ho : Orderly w e)
    (hs : step check k adminVer w e = some w') : Cuttable k w' := by
  cases e with
  | auth e =>
    obtain ⟨a, ha, rfl⟩ := Option.map_eq_some_iff.mp hs
    exact h.auth ho.1 ho.2 ha
  | check c kind headers =>
    simp only [Disconnect.step] at hs
    split at hs <;> cases hs
    next hc => exact h.letIn (by simpa using hc) kind headers
  | spawn c =>
    obtain ⟨conn, hc, hs⟩ := Option.bind_eq_some_iff.mp hs
    split at hs <;> cases hs
    exact h.update hc rfl rfl rfl
  | add c =>
    obtain ⟨conn, hc, hs⟩ := Option.bind_eq_some_iff.mp hs
    split at hs <;> cases hs
    exact h.add hc ho
  | remove c =>
    obtain ⟨conn, hc, hs⟩ := Option.bind_eq_some_iff.mp hs
    split at hs <;> cases hs
    next id _ => exact h.remove hc id
  | ban op =>
    obtain ⟨cut, hcut, hs⟩ := Option.bind_eq_some_iff.mp hs
    obtain ⟨a, ha, hs⟩ := Option.bind_eq_some_iff.mp hs
    cases hs
    cases hok : (w.auth.store.exec ⟨op, w.auth.now, none⟩).2 with
    | none => exact h.ban hcut ho ha hok
    | some e =>
      exact h.auth (cutOf_fresh hcut w.auth) (fun _ heq => Revocation.Event.op.inj heq ▸ ho) ha
  | disconnect i =>
    obtain ⟨cut, hcut, hs⟩ := Option.bind_eq_some_iff.mp hs
    split at hs <;> cases hs
    exact h.disconnect hcut
  | cancel i c =>
    obtain ⟨cut, hcut, hs⟩ := Option.bind_eq_some_iff.mp hs
    obtain ⟨pending, hp, hs⟩ := Option.bind_eq_some_iff.mp hs
    split at hs <;> cases hs
    exact h.cancel hcut hp

end Steps

/-- **Cutting users off.** -/
theorem none_left {check : String → String → Bool} {k : Signer} {adminVer : String}
    {now : SystemTime} {w : World} (hreach : Reach (step check k adminVer) Orderly (.init now) w) :
    NoneLeft w := by
  have h : Cuttable k w := Machine.Reach.invariant (I := Cuttable k) (init_cuttable now)
    (fun _ _ _ h ho hs => h.step ho hs) hreach
  intro cut hcut hp id role c hid conn hconn hkills
  obtain ⟨i, hi⟩ := List.mem_iff_getElem?.mp hcut
  rcases h.covered i cut hi [] hp id role c hid conn hconn hkills with hc | hc
  · exact absurd hc List.not_mem_nil
  · exact hc

/-- A user with a password is on the way in. -/
def arriving : List Event :=
  [.auth (.op created), .auth (.login "old"), .check 0 .ws (request mint0), .spawn 0]

/-- The connection registers before the password is rotated, and is cut. -/
def cutInTime : List Event :=
  arriving ++ [.add 0, .ban (.rotate id0 "new" "new"), .disconnect 0, .cancel 0 0]

theorem none_left_cutInTime : ∃ w, run (step (· = ·) anySigner "") (.init 0) cutInTime = some w ∧
    w.cancelled = [0] ∧ NoneLeft w := by
  have hmeets : Meets (step (· = ·) anySigner "") Orderly (.init 0) cutInTime := by decide +kernel
  obtain ⟨w, hw⟩ := Option.isSome_iff_exists.mp
    (show (run (step (· = ·) anySigner "") (.init 0) cutInTime).isSome from by decide +kernel)
  have hcancelled : (run (step (· = ·) anySigner "") (.init 0) cutInTime).map World.cancelled =
      some [0] := by decide +kernel
  rw [hw, Option.map_some, Option.some.injEq] at hcancelled
  have hreach : Reach (step (· = ·) anySigner "") Orderly (.init 0) w := .of_run .init hmeets hw
  exact ⟨w, hw, hcancelled, none_left hreach⟩

/-- The connection registers after the users have been disconnected. -/
def missed : List Event := arriving ++ [.ban (.revoke id0), .disconnect 0, .add 0]

/-- A connection whose session was looked at before the password was revoked, and that
registers after the users have been disconnected, stays. -/
theorem one_left : ¬∀ (check : String → String → Bool) (k : Signer) (adminVer : String)
    (now : SystemTime) (w : World),
    Reach (step check k adminVer) free (.init now) w → NoneLeft w := by
  intro h
  obtain ⟨w, hw⟩ := Option.isSome_iff_exists.mp
    (show (run (step (· = ·) anySigner "") (.init 0) missed).isSome from by decide +kernel)
  have hreach : Reach (step (· = ·) anySigner "") free (.init 0) w :=
    .of_run .init (meets_free _ _) hw
  have hfields : (run (step (· = ·) anySigner "") (.init 0) missed).map (fun w => (w.cuts,
      w.registry.entries.lookup 1, (w.conns.lookup 0).map Conn.sess, w.cancelled)) =
        some ([⟨id0, none, some []⟩], some (.user, 0), some ⟨.user, 1, "", id0⟩, []) := by
    decide +kernel
  simp only [hw, Option.map_some, Option.some.injEq, Prod.mk.injEq] at hfields
  obtain ⟨hcuts, hentry, hconn, hcancelled⟩ := hfields
  obtain ⟨conn, hc, hsess⟩ := Option.map_eq_some_iff.mp hconn
  have hkills : Cut.kills ⟨id0, none, some []⟩ conn.sess := by
    rw [hsess]
    decide +kernel
  have := h _ _ _ _ w hreach ⟨id0, none, some []⟩ (by simp [hcuts]) rfl 1 .user 0 hentry conn hc
    hkills
  rw [hcancelled] at this
  exact List.not_mem_nil this

end VoiceHub.Auth.Disconnect
