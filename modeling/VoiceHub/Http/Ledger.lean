import Mathlib
import VoiceHub.Auth.Revocation
import VoiceHub.Http.Server

/-!
What the server's sessions, entries and requests under way have to do with each other.

A cookie stands for a password that was given when it was handed out. Whatever becomes of the
entries since then, a cookie that is let in stands for one that is right now.
-/

namespace VoiceHub.Http

open VoiceHub.Lib VoiceHub.Lib.Machine VoiceHub.Lib.Text
open VoiceHub.Auth VoiceHub.Auth.ConnPass VoiceHub.Auth.SessionCookie
open VoiceHub.Auth.Revocation (creates createdId changed_ids)

/-! ### What is taken for granted -/

/-- A payload that comes with its signature is one that the server has signed. -/
def Unforged (env : Env) (w : World) (req : Request) : Prop :=
  ∀ p ∈ (cookieValue (req.cookies.filterMap toStr) COOKIE_NAME).bind (rsplitOnce '.'),
    p.2 = env.signer.sign p.1 → p.1 ∈ w.signed

instance (env : Env) (w : World) (req : Request) : Decidable (Unforged env w req) :=
  decidable_of_iff
    (∀ p ∈ (cookieValue (req.cookies.filterMap toStr) COOKIE_NAME).bind (rsplitOnce '.'),
      p.2 = env.signer.sign p.1 → w.signed.contains p.1 = true)
    (by simp [Unforged])

/-- Cookies are not forged, ids that are drawn are fresh, no generation comes round and no two
admin's hashes have one fingerprint. A restart finds in the file what was in memory. -/
def Fair (env : Env) (w : World) : Event → Prop
  | .request _ req _ => Unforged env w req
  | .resume _ d => hex d.bytes.toList ∉ w.ids ∧ ∀ e ∈ w.store.state, e.generation + 1 ≠ 0
  | .restart adminHash => w.store.held = w.store.state ∧
      ∀ h ∈ w.hashes, env.adminPasswordVersion h = env.adminPasswordVersion adminHash →
        h = adminHash
  | _ => True

instance (env : Env) (w : World) : (e : Event) → Decidable (Fair env w e)
  | .request _ req _ => inferInstanceAs (Decidable (Unforged env w req))
  | .resume _ _ => inferInstanceAs (Decidable (_ ∧ _))
  | .hangUp _ => inferInstanceAs (Decidable True)
  | .tick _ _ => inferInstanceAs (Decidable True)
  | .restart _ => inferInstanceAs (Decidable (_ ∧ _))

/-! ### What passwords and entries have to do with each other -/

/-- What has the id now has the hash, or a later generation. -/
def Since (es : List Entry) (id : String) (gen : UInt64) (hash : String) : Prop :=
  ∀ e ∈ es, e.id = id → gen < e.generation ∨ (e.generation = gen ∧ e.hash = hash)

section Entries

variable {op : Op} {es es' : List Entry} {now : SystemTime} {id hash : String} {gen : UInt64}

lemma mem_change {f : Entry → Entry} {e' : Entry} (h : e' ∈ change id f es) :
    e' ∈ es ∨ ∃ e ∈ es, e' = f e := by
  induction es with
  | nil => exact absurd h List.not_mem_nil
  | cons e es ih =>
    rw [change] at h
    split_ifs at h
    · rcases List.mem_cons.mp h with rfl | h
      · exact .inr ⟨e, List.mem_cons_self, rfl⟩
      · exact .inl (List.mem_cons_of_mem e h)
    · rcases List.mem_cons.mp h with rfl | h
      · exact .inl List.mem_cons_self
      · rcases ih h with h | ⟨d, hd, rfl⟩
        · exact .inl (List.mem_cons_of_mem e h)
        · exact .inr ⟨d, List.mem_cons_of_mem e hd, rfl⟩

lemma mem_remove {e : Entry} (h : e ∈ remove id es) : e ∈ es := by
  induction es with
  | nil => exact absurd h List.not_mem_nil
  | cons d es ih =>
    rw [remove] at h
    split_ifs at h
    · exact List.mem_cons_of_mem d h
    · rcases List.mem_cons.mp h with rfl | h
      · exact List.mem_cons_self
      · exact List.mem_cons_of_mem d (ih h)

lemma mem_changed (h : op.changed es now = .ok es') {e' : Entry} (he : e' ∈ es') :
    (∃ e ∈ es, e.id = e'.id ∧ ((e'.generation = e.generation ∧ e'.hash = e.hash) ∨
      e'.generation = e.generation + 1)) ∨ creates e'.id op = true := by
  have hkept {e : Entry} (he : e ∈ es) : (∃ d ∈ es, d.id = e.id ∧
      ((e.generation = d.generation ∧ e.hash = d.hash) ∨ e.generation = d.generation + 1)) ∨
        creates e.id op = true := .inl ⟨e, he, rfl, .inl ⟨rfl, rfl⟩⟩
  cases op with
  | create label ttl bytes plain hash =>
    simp only [Op.changed] at h
    split at h <;> cases h
    rcases List.mem_append.mp he with he | he
    · exact hkept he
    · rw [List.mem_singleton.mp he]
      exact .inr (by simp [creates, createdId, Entry.new])
  | setTtl id ttl =>
    simp only [Op.changed] at h
    split at h <;> cases h
    rcases mem_change he with he | ⟨d, hd, rfl⟩
    · exact hkept he
    · exact .inl ⟨d, hd, rfl, .inl ⟨rfl, rfl⟩⟩
  | rotate id plain hash =>
    simp only [Op.changed] at h
    split at h <;> cases h
    rcases mem_change he with he | ⟨d, hd, rfl⟩
    · exact hkept he
    · exact .inl ⟨d, hd, rfl, .inr rfl⟩
  | rename id label =>
    simp only [Op.changed] at h
    split at h <;> cases h
    rcases mem_change he with he | ⟨d, hd, rfl⟩
    · exact hkept he
    · exact .inl ⟨d, hd, rfl, .inl ⟨rfl, rfl⟩⟩
  | revoke id =>
    simp only [Op.changed] at h
    split at h <;> cases h
    exact hkept (mem_remove he)

lemma lt_succ_of_ne_zero {g : UInt64} (h : g + 1 ≠ 0) : g < g + 1 := by
  have hne : (g + 1).toNat ≠ 0 := fun h0 => h (UInt64.toNat_inj.mp h0)
  rw [UInt64.toNat_add] at hne
  rw [UInt64.lt_iff_toNat_lt, UInt64.toNat_add]
  have hlt := g.toNat_lt
  have hone : (1 : UInt64).toNat = 1 := rfl
  rw [hone] at hne ⊢
  omega

/-- An operation leaves an id's history behind it. -/
lemma Since.changed (h : Since es id gen hash) (hop : op.changed es now = .ok es')
    (hnew : ¬ creates id op) (hwrap : ∀ e ∈ es, e.generation + 1 ≠ 0) :
    Since es' id gen hash := by
  rintro e' he' rfl
  rcases mem_changed hop he' with ⟨e, he, hid, hsame | hnext⟩ | hcreate
  · rw [hsame.1, hsame.2]
    exact h e he hid
  · have hlt := lt_succ_of_ne_zero (hwrap e he)
    rw [hnext]
    rcases h e he hid with hgen | ⟨hgen, -⟩
    · exact .inl (UInt64.lt_trans hgen hlt)
    · exact .inl (hgen ▸ hlt)
  · exact absurd hcreate hnew

end Entries

/-! ### The invariant -/

/-- The password was right for the id's entry when it was of the generation. -/
def Known (env : Env) (es : List Entry) (ids : List String) (id : String) (gen : UInt64)
    (pass : String) : Prop :=
  id ∈ ids ∧ ∃ hash, env.check hash pass = true ∧ Since es id gen hash

def Login.Sound (env : Env) (es : List Entry) (ids hashes : List String) (l : Login) : Prop :=
  match l.role with
  | .user => l.adminVersion = "" ∧ Known env es ids l.entryId l.generation l.pass
  | .admin => l.generation = 0 ∧ l.entryId = "" ∧
      ∃ h ∈ hashes, l.adminVersion = env.adminPasswordVersion h ∧ env.check h l.pass = true

/-- An admin who was let in then. -/
def Entitled (env : Env) (adminHash : String) (logins : List Login) (since : SystemTime) : Prop :=
  ∃ l ∈ logins, l.role = .admin ∧ env.check adminHash l.pass = true ∧ unixSecs since ≤ l.exp

def Job.Sound (env : Env) (es : List Entry) (ids : List String) (adminHash : String)
    (logins : List Login) : Job → Prop
  | .login _ _ => True
  | .verify _ _ entries _ => ∀ e ∈ entries, e.id ∈ ids ∧ Since es e.id e.generation e.hash
  | .admin _ _ _ since => Entitled env adminHash logins since

structure Kept (env : Env) (w : World) : Prop where
  nodup : (w.store.state.map Entry.id).Nodup
  drawn : ∀ e ∈ w.store.state, e.id ∈ w.ids
  ids : ∀ id ∈ w.ids, ∃ bytes : Vector UInt8 6, id = hex bytes.toList
  current : w.adminHash ∈ w.hashes
  versions : ∀ h ∈ w.hashes, ∀ h' ∈ w.hashes,
    env.adminPasswordVersion h = env.adminPasswordVersion h' → h = h'
  signed : ∀ p ∈ w.signed, (∃ h, p = adminPayload h) ∨ ∃ l ∈ w.logins, p = l.payload
  logins : ∀ l ∈ w.logins, l.Sound env w.store.state w.ids w.hashes
  jobs : ∀ n job, w.jobs.lookup n = some job →
    job.Sound env w.store.state w.ids w.adminHash w.logins
  given : ∀ n entry plain, (n, .plaintext entry plain) ∈ w.replies →
    Known env w.store.state w.ids entry.id entry.generation plain

section Frames

variable {env : Env} {w : World} {es es' : List Entry} {ids ids' hashes hashes' : List String}
  {id pass : String} {gen : UInt64} {logins logins' : List Login}

lemma Login.Sound.mono {l : Login} (h : l.Sound env es ids hashes) (hhashes : hashes ⊆ hashes')
    (hknown : ∀ id gen pass, Known env es ids id gen pass → Known env es' ids' id gen pass) :
    l.Sound env es' ids' hashes' := by
  unfold Login.Sound at h ⊢
  cases hrole : l.role with
  | user =>
    rw [hrole] at h
    exact ⟨h.1, hknown _ _ _ h.2⟩
  | admin =>
    rw [hrole] at h
    obtain ⟨hgen, hid, a, ha, hver, hcheck⟩ := h
    exact ⟨hgen, hid, a, hhashes ha, hver, hcheck⟩

lemma Job.Sound.mono {job : Job} {adminHash : String} (h : job.Sound env es ids adminHash logins)
    (hlogins : logins ⊆ logins') : job.Sound env es ids adminHash logins' := by
  cases job with
  | login ip req => trivial
  | verify ip pass entries taken => exact h
  | admin method rest req since =>
    obtain ⟨l, hl, hall⟩ := h
    exact ⟨l, hlogins hl, hall⟩

lemma Kept.answer (h : Kept env w) (n : ℕ) {r : Reply}
    (hr : ∀ entry plain, r = .plaintext entry plain →
      Known env w.store.state w.ids entry.id entry.generation plain) :
    Kept env (w.answer n r) where
  nodup := h.nodup
  drawn := h.drawn
  ids := h.ids
  current := h.current
  versions := h.versions
  signed := h.signed
  logins := h.logins
  jobs m job hjob := by
    rw [World.answer, HashMap.lookup_erase] at hjob
    split_ifs at hjob
    exact h.jobs m job hjob
  given m entry plain hmem := by
    rcases List.mem_append.mp hmem with hmem | hmem
    · exact h.given m entry plain hmem
    · exact hr entry plain (Prod.mk.inj (List.mem_singleton.mp hmem)).2.symm

lemma Kept.insert (h : Kept env w) (n : ℕ) {job : Job}
    (hjob : job.Sound env w.store.state w.ids w.adminHash w.logins) :
    Kept env { w with jobs := AList.insert n job w.jobs } :=
  { h with
    jobs m job' hlook := by
      rw [HashMap.lookup_insert] at hlook
      split_ifs at hlook
      · rw [← Option.some.inj hlook]
        exact hjob
      · exact h.jobs m job' hlook }

lemma Kept.issue (h : Kept env w) (n : ℕ) {role : Role} {adminVer entryId : String}
    (hl : Login.Sound env w.store.state w.ids w.hashes
      ⟨role, pass, gen, adminVer, entryId, w.now⟩) :
    Kept env (w.issue env n role pass gen adminVer entryId) := by
  have hsub : w.logins ⊆ w.logins ++
      [⟨role, pass, gen, adminVer, entryId, w.now⟩] :=
    List.subset_append_left ..
  refine Kept.answer (w := { w with logins := _, signed := _ }) ?_ n (by rintro _ _ ⟨⟩)
  exact
    { h with
      signed p hp := by
        rcases List.mem_append.mp hp with hp | hp
        · rcases h.signed p hp with hadmin | ⟨l, hl, hpl⟩
          · exact .inl hadmin
          · exact .inr ⟨l, hsub hl, hpl⟩
        · exact .inr ⟨_, List.mem_append_right _ (List.mem_singleton_self _),
            List.mem_singleton.mp hp⟩
      logins l hmem := by
        rcases List.mem_append.mp hmem with hmem | hmem
        · exact h.logins l hmem
        · rw [List.mem_singleton.mp hmem]
          exact hl
      jobs m job hjob := (h.jobs m job hjob).mono hsub }

lemma Kept.store (h : Kept env w) {store : Store} {more : List String}
    (hnodup : (store.state.map Entry.id).Nodup)
    (hdrawn : ∀ e ∈ store.state, e.id ∈ w.ids ++ more)
    (hmore : ∀ id ∈ more, ∃ bytes : Vector UInt8 6, id = hex bytes.toList)
    (hsince : ∀ id ∈ w.ids, ∀ gen hash, Since w.store.state id gen hash →
      Since store.state id gen hash) :
    Kept env { w with store := store, ids := w.ids ++ more } := by
  have hknown (id) (gen) (pass) (hk : Known env w.store.state w.ids id gen pass) :
      Known env store.state (w.ids ++ more) id gen pass := by
    obtain ⟨hid, hash, hcheck, hs⟩ := hk
    exact ⟨List.mem_append_left _ hid, hash, hcheck, hsince id hid gen hash hs⟩
  exact
    { h with
      nodup := hnodup
      drawn := hdrawn
      ids id hid := by
        rcases List.mem_append.mp hid with hid | hid
        · exact h.ids id hid
        · exact hmore id hid
      logins l hl := (h.logins l hl).mono (List.Subset.refl _) hknown
      jobs n job hjob := by
        have hsound := h.jobs n job hjob
        cases job with
        | login ip req => trivial
        | verify ip pass entries taken =>
          intro e he
          obtain ⟨hid, hs⟩ := hsound e he
          exact ⟨List.mem_append_left _ hid, hsince e.id hid _ _ hs⟩
        | admin method rest req since => exact hsound
      given n entry plain hmem := hknown _ _ _ (h.given n entry plain hmem) }

end Frames

/-! ### Every step keeps it -/

section Steps

variable {env : Env} {w w' : World} {n : ℕ} {d : Draw}

lemma Kept.exec (h : Kept env w) (op : Op) (hdraw : ∀ id, creates id op → id ∉ w.ids)
    (hwrap : ∀ e ∈ w.store.state, e.generation + 1 ≠ 0) (now : SystemTime)
    (failure : Option String) :
    Kept env { w with
      store := (w.store.exec ⟨op, now, failure⟩).1, ids := w.ids ++ (createdId op).toList } := by
  have hmore : ∀ id ∈ (createdId op).toList, ∃ bytes : Vector UInt8 6, id = hex bytes.toList := by
    intro id hid
    cases op with
    | create label ttl bytes plain hash =>
      exact ⟨bytes, (Option.some.inj (Option.mem_toList.mp hid)).symm⟩
    | _ => cases hid
  have hfresh (id) (hc : creates id op) : lookup id w.store.state = none := by
    rw [lookup_eq_none]
    intro hmem
    obtain ⟨e, he, rfl⟩ := List.mem_map.mp hmem
    exact hdraw _ hc (h.drawn e he)
  have hstate : (w.store.exec ⟨op, now, failure⟩).1.state = w.store.state ∨
      op.changed w.store.state now = .ok (w.store.exec ⟨op, now, failure⟩).1.state := by
    rw [exec_eq]
    cases hop : op.changed w.store.state now with
    | error e => exact .inl rfl
    | ok es => cases failure <;> exact .inr rfl
  rcases hstate with hsame | hop
  · refine h.store (hsame ▸ h.nodup) (fun e he => ?_) hmore fun id _ gen hash hs => hsame ▸ hs
    exact List.mem_append_left _ (h.drawn e (hsame ▸ he))
  · obtain ⟨hnodup, hids⟩ := changed_ids hop h.nodup hfresh
    refine h.store hnodup (fun e he => ?_) hmore fun id hid gen hash hs =>
      hs.changed hop (fun hc => hdraw id hc hid) hwrap
    rcases hids e he with hold | hnew
    · obtain ⟨d, hd, hde⟩ := List.mem_map.mp hold
      exact List.mem_append_left _ (hde ▸ h.drawn d hd)
    · refine List.mem_append_right _ (Option.mem_toList.mpr ?_)
      simpa [creates] using hnew

lemma ask_plaintext {what : String} {r : Except ConnPass.Error (EntryStatus × String)}
    {entry : EntryStatus} {plain : String}
    (h : ask what (fun r => .plaintext r.1 r.2) r = .plaintext entry plain) :
    r = .ok (entry, plain) := by
  cases r with
  | ok a =>
    cases h
    rfl
  | error e => cases e <;> cases h

lemma create_ok {s : Store} {label : String} {ttl : Ttl} {bytes : Vector UInt8 6}
    {plain hash : String} {now : SystemTime} {failure : Option String} {entry : EntryStatus}
    {p : String} (h : (s.create label ttl bytes plain hash now failure).2 = .ok (entry, p)) :
    entry = (Entry.new label ttl (hex bytes.toList) hash now).status now ∧ p = plain ∧
      (s.create label ttl bytes plain hash now failure).1.state =
        s.state ++ [Entry.new label ttl (hex bytes.toList) hash now] := by
  rw [Store.create] at h ⊢
  split_ifs at h ⊢
  cases failure with
  | none =>
    cases h
    exact ⟨rfl, rfl, rfl⟩
  | some msg => cases h

lemma rotate_ok {s : Store} {id plain hash : String} {now : SystemTime} {failure : Option String}
    {entry : EntryStatus} {p : String}
    (h : (s.rotate id plain hash now failure).2 = .ok (entry, p)) :
    ∃ e, lookup id s.state = some e ∧ entry = (e.rotate hash now).status now ∧ p = plain ∧
      (s.rotate id plain hash now failure).1.state = change id (Entry.rotate hash now) s.state := by
  rw [Store.rotate, Store.mutate] at h ⊢
  cases hlook : lookup id s.state with
  | none =>
    rw [hlook] at h
    cases h
  | some e =>
    rw [hlook] at h
    cases failure with
    | none =>
      cases h
      exact ⟨e, rfl, rfl, rfl, rfl⟩
    | some msg => cases h

lemma check_hash {salt : Vector UInt8 Password.ARGON_SALT_LEN} {plain : String}
    {hash : List Char} (h : Password.hash env.argon2 salt plain.toList = some hash) :
    env.check (.ofList hash) plain = true := by
  rw [Env.check, String.toList_ofList]
  exact (Password.verify_iff h plain.toList).mpr rfl

lemma Kept.create (h : Kept env w) (hdraw : hex d.bytes.toList ∉ w.ids)
    (hwrap : ∀ e ∈ w.store.state, e.generation + 1 ≠ 0) (label : String) (ttl : Ttl)
    {hash : List Char} (hhash : Password.hash env.argon2 d.salt d.plain.toList = some hash) :
    Kept env ({ w with ids := w.ids ++ [hex d.bytes.toList] }.operate n "create"
      (fun r : EntryStatus × String => .plaintext r.1 r.2)
      (w.store.create label ttl d.bytes d.plain (.ofList hash) w.now d.failure)) := by
  have hexec := h.exec (.create label ttl d.bytes d.plain (.ofList hash))
    (fun id hc => (by simpa [creates, createdId] using hc : hex d.bytes.toList = id) ▸ hdraw)
    hwrap w.now d.failure
  refine Kept.answer hexec n fun entry plain hask => ?_
  obtain ⟨rfl, rfl, hstate⟩ := create_ok (ask_plaintext hask)
  refine ⟨List.mem_append_right _ (List.mem_singleton_self _), _, check_hash hhash, ?_⟩
  intro e he (hid : e.id = hex d.bytes.toList)
  rcases List.mem_append.mp (hstate ▸ he) with he | he
  · exact absurd (hid ▸ h.drawn e he) hdraw
  · rw [List.mem_singleton.mp he]
    exact .inr ⟨rfl, rfl⟩

lemma Kept.rotate (h : Kept env w) (hwrap : ∀ e ∈ w.store.state, e.generation + 1 ≠ 0)
    (id : String) {hash : List Char}
    (hhash : Password.hash env.argon2 d.salt d.plain.toList = some hash) :
    Kept env (w.operate n "rotate" (fun r : EntryStatus × String => .plaintext r.1 r.2)
      (w.store.rotate id d.plain (.ofList hash) w.now d.failure)) := by
  have hexec := h.exec (.rotate id d.plain (.ofList hash)) (fun id hc => by cases hc) hwrap
    w.now d.failure
  have hids : w.ids ++ (createdId (.rotate id d.plain (.ofList hash))).toList = w.ids :=
    List.append_nil _
  rw [hids] at hexec
  refine Kept.answer hexec n fun entry plain hask => ?_
  obtain ⟨e, hlook, rfl, rfl, hstate⟩ := rotate_ok (ask_plaintext hask)
  obtain ⟨he, hid⟩ := mem_ids_of_lookup hlook
  refine ⟨hid ▸ h.drawn e he, _, check_hash hhash, fun e' he' hid' => ?_⟩
  -- there is one entry with the id
  have hfound := lookup_of_mem hexec.nodup he'
  rw [hid'] at hfound
  have hchanged : lookup id (change id (Entry.rotate (.ofList hash) w.now) w.store.state) =
      some (e.rotate (.ofList hash) w.now) := by
    rw [lookup_change (f := Entry.rotate (.ofList hash) w.now) fun _ => rfl, if_pos rfl, hlook,
      Option.map_some]
  have heq : e' = e.rotate (.ofList hash) w.now := by
    have hboth : some e' = some (e.rotate (.ofList hash) w.now) := by
      rw [← hfound, ← hchanged, ← hstate]
      exact congrArg (fun a => lookup a _) hid
    exact Option.some.inj hboth
  rw [heq]
  exact .inr ⟨rfl, rfl⟩

lemma Kept.operate (h : Kept env w) (op : Op) {α : Type} {what : String} {ok : α → Reply}
    {r : Store × Except ConnPass.Error α} (hnew : createdId op = none)
    (hwrap : ∀ e ∈ w.store.state, e.generation + 1 ≠ 0)
    (hr : r.1 = (w.store.exec ⟨op, w.now, d.failure⟩).1)
    (hok : ∀ a entry plain, ok a ≠ .plaintext entry plain) : Kept env (w.operate n what ok r) := by
  have hexec := h.exec op (fun id hc => by simp [creates, hnew] at hc) hwrap w.now d.failure
  rw [hnew, Option.toList_none, List.append_nil, ← hr] at hexec
  refine Kept.answer hexec n fun entry plain hask => ?_
  cases hr2 : r.2 with
  | ok a =>
    rw [hr2] at hask
    exact absurd hask (hok a entry plain)
  | error e =>
    rw [hr2] at hask
    cases e <;> cases hask

lemma Kept.hashed (h : Kept env w) {k : String → World}
    (hk : ∀ hash, Password.hash env.argon2 d.salt d.plain.toList = some hash →
      Kept env (k (.ofList hash))) : Kept env (w.hashed env n d k) := by
  rw [World.hashed]
  cases hhash : Password.hash env.argon2 d.salt d.plain.toList with
  | none => exact h.answer n (by rintro _ _ ⟨⟩)
  | some hash => exact hk hash hhash

lemma Kept.admin (h : Kept env w) (hdraw : hex d.bytes.toList ∉ w.ids)
    (hwrap : ∀ e ∈ w.store.state, e.generation + 1 ≠ 0) (method : Method) (rest : List String)
    (body : AdminBody) : Kept env (w.admin env n method rest body d) := by
  unfold World.admin
  split
  · exact h.answer n (by rintro _ _ ⟨⟩)
  · exact h.answer n (by rintro _ _ ⟨⟩)
  · exact h.hashed fun hash hhash => h.create hdraw hwrap _ _ hhash
  · exact h.answer n (by rintro _ _ ⟨⟩)
  · exact h.hashed fun hash hhash => h.rotate hwrap _ hhash
  · next id => exact h.operate (.rename id body.label) rfl hwrap rfl (by rintro _ _ _ ⟨⟩)
  · next id =>
    exact h.operate (.setTtl id (ttlFromSeconds body.ttlSeconds)) rfl hwrap rfl
      (by rintro _ _ _ ⟨⟩)
  · next id => exact h.operate (.revoke id) rfl hwrap rfl (by rintro _ _ _ ⟨⟩)
  · exact h.answer n (by rintro _ _ ⟨⟩)

lemma Kept.limited (h : Kept env w) (limiter : Limiter.Inner) (buckets : Ratelimit.Buckets)
    (now : SystemTime) (clock : ℕ) :
    Kept env { w with limiter := limiter, buckets := buckets, now := now, clock := clock } :=
  { h with }

lemma Kept.login (h : Kept env w) (ip : String) (req : Request) :
    Kept env (w.login env n ip req) := by
  unfold World.login
  split
  · exact h.answer n (by rintro _ _ ⟨⟩)
  · next form _ =>
    dsimp only
    split_ifs with hempty hadmin
    · exact (h.limited _ w.buckets w.now w.clock).answer n (by rintro _ _ ⟨⟩)
    · exact (h.limited _ w.buckets w.now w.clock).issue n
        ⟨rfl, rfl, w.adminHash, h.current, rfl, hadmin⟩
    · refine h.insert n fun e he => ⟨h.drawn e he, fun e' he' hid => .inr ?_⟩
      have hsame : some e' = some e := by
        rw [← lookup_of_mem h.nodup he', ← lookup_of_mem h.nodup he, hid]
      rw [Option.some.inj hsame]
      exact ⟨rfl, rfl⟩

lemma Kept.verify (h : Kept env w) (ip : String) {pass : String} {entries : List Entry}
    {taken : SystemTime}
    (hjob : ∀ e ∈ entries, e.id ∈ w.ids ∧ Since w.store.state e.id e.generation e.hash) :
    Kept env (w.verify env n ip pass entries taken) := by
  unfold World.verify
  split
  · next entryId gen hverify =>
    rw [Store.verify, Option.map_eq_some_iff] at hverify
    obtain ⟨e, hfind, hfields⟩ := hverify
    obtain ⟨rfl, rfl⟩ := Prod.mk.inj hfields
    obtain ⟨hid, hsince⟩ := hjob e (List.mem_of_mem_filter (List.mem_of_find?_eq_some hfind))
    exact (h.limited _ w.buckets w.now w.clock).issue n
      ⟨rfl, hid, e.hash, by simpa using List.find?_some hfind, hsince⟩
  · exact (h.limited _ w.buckets w.now w.clock).answer n (by rintro _ _ ⟨⟩)

end Steps

/-! ### Whose session it is -/

section Sessions

variable {env : Env} {w : World} {req : Request} {sess : Session} {l : Login}

/-- The password that a cookie was handed out for is right now. -/
def Login.Right (env : Env) (w : World) (l : Login) : Prop :=
  match l.role with
  | .user => ∃ e ∈ w.store.state, e.id = l.entryId ∧ e.isExpired w.now = false ∧
      env.check e.hash l.pass = true
  | .admin => env.check w.adminHash l.pass = true

lemma colon_not_mem_version (h : String) : ':' ∉ (env.adminPasswordVersion h).toList := by
  rw [Env.adminPasswordVersion, String.toList_ofList]
  exact colon_not_mem_sign _

lemma Login.Sound.colon {es : List Entry} {ids hashes : List String}
    (h : l.Sound env es ids hashes) : ':' ∉ l.adminVersion.toList := by
  unfold Login.Sound at h
  cases hrole : l.role with
  | user =>
    rw [hrole] at h
    rw [h.1]
    exact List.not_mem_nil
  | admin =>
    rw [hrole] at h
    obtain ⟨-, -, a, -, hver, -⟩ := h
    rw [hver]
    exact colon_not_mem_version a

lemma decode_adminPayload (k : Signer) (h : String) (now : SystemTime) :
    decode k (adminPayload h ++ '.' :: k.sign (adminPayload h)) now = none := by
  have hsplit : ∃ rest, splitN ':' 5 (adminPayload h) = "admin-password".toList :: rest := by
    have hcolon : adminPayload h = "admin-password".toList ++ ':' :: ("v2:".toList ++ h.toList) :=
      rfl
    rw [hcolon, splitN_append (by decide)]
    exact ⟨_, rfl⟩
  obtain ⟨rest, hsplit⟩ := hsplit
  have hexp : parseI64 "admin-password".toList = none := by decide
  rw [decode, rsplitOnce_append (k.clean _)]
  simp only [Option.bind_eq_bind, Option.bind_some, ne_eq, not_true_eq_false, if_false]
  rw [hsplit]
  split
  · next heq =>
    rw [← (List.cons.inj heq).1, hexp, Option.bind_none]
  · rfl

lemma Kept.session (h : Kept env w) (hun : Unforged env w req)
    (hsess : w.session env req = some sess) : ∃ l ∈ w.logins,
      sess = ⟨l.role, l.generation, l.adminVersion, l.entryId⟩ ∧ unixSecs w.now ≤ l.exp := by
  rw [World.session, validSession, Option.filter_eq_some_iff, fromHeaders,
    Option.bind_eq_some_iff] at hsess
  obtain ⟨⟨value, hvalue, hdecode⟩, -⟩ := hsess
  have hdecode' := hdecode
  rw [decode, Option.bind_eq_bind, Option.bind_eq_some_iff] at hdecode
  obtain ⟨⟨p, sig⟩, hsplit, hrest⟩ := hdecode
  have hsig : sig = env.signer.sign p := by
    by_contra hne
    simp only [ne_eq, hne, not_false_eq_true, if_true] at hrest
    cases hrest
  rw [Unforged, hvalue, Option.bind_some, hsplit] at hun
  have hp := hun _ rfl hsig
  rw [rsplitOnce_eq hsplit, hsig] at hdecode'
  rcases h.signed p hp with ⟨a, rfl⟩ | ⟨l, hl, rfl⟩
  · rw [decode_adminPayload] at hdecode'
    cases hdecode'
  · have hcookie := decode_encodeAt (k := env.signer) l.role l.generation (h.logins l hl).colon
      l.entryId l.exp w.now
    rw [encodeAt_eq] at hcookie
    rw [Login.payload, hcookie] at hdecode'
    split_ifs at hdecode' with hexp
    exact ⟨l, hl, (Option.some.inj hdecode').symm, Int64.not_lt.mp hexp⟩

/-- **Whoever has a session gave a password that is right now**, thirty days ago at most. -/
lemma Kept.session_right (h : Kept env w) (hun : Unforged env w req)
    (hsess : w.session env req = some sess) : ∃ l ∈ w.logins,
      l.role = sess.role ∧ l.entryId = sess.entryId ∧ unixSecs w.now ≤ l.exp ∧ l.Right env w := by
  obtain ⟨l, hl, rfl, hexp⟩ := h.session hun hsess
  refine ⟨l, hl, rfl, rfl, hexp, ?_⟩
  rw [World.session, validSession, Option.filter_eq_some_iff] at hsess
  have hlive := hsess.2
  have hsound := h.logins l hl
  unfold Login.Sound at hsound
  unfold Login.Right
  cases hrole : l.role with
  | user =>
    simp only [hrole, decide_eq_true_eq] at hlive hsound
    obtain ⟨-, -, hash, hcheck, hsince⟩ := hsound
    rw [Store.entryGeneration] at hlive
    split_ifs at hlive
    obtain ⟨e, hfound, hgen⟩ := Option.map_eq_some_iff.mp hlive
    obtain ⟨hlook, hexpired⟩ := Option.filter_eq_some_iff.mp hfound
    obtain ⟨he, hid⟩ := mem_ids_of_lookup hlook
    refine ⟨e, he, hid, by simpa using hexpired, ?_⟩
    rcases hsince e he hid with hlt | ⟨-, rfl⟩
    · exact absurd (hgen ▸ hlt) (UInt64.lt_irrefl _)
    · exact hcheck
  | admin =>
    simp only [hrole, decide_eq_true_eq] at hlive hsound
    obtain ⟨-, -, a, ha, hver, hcheck⟩ := hsound
    have heq : a = w.adminHash := h.versions a ha _ h.current (hver ▸ hlive)
    exact heq ▸ hcheck

end Sessions

/-! ### Requests that come in -/

/-- Handlers that are only for who has signed in. -/
def Guarded (path : List Char) : Handler → Prop
  | .presence | .ws _ | .appConfig | .upload | .download _ => True
  | .staticFiles => publicPath path = false
  | _ => False

/-- A guarded handler gets the request's session, and nothing is disclosed right away. -/
def Reply.Safe (env : Env) (w : World) (req : Request) : Reply → Prop
  | .handed target sess => Guarded req.target.path target →
      sess.isSome ∧ sess = w.session env req
  | r => ¬ r.Disclosed

/-- What is left to be done for a request that is let in. -/
def Job.Let (env : Env) (w : World) (req : Request) (job : Job) : Prop :=
  (∃ ip, job = .login ip req) ∨
    ∃ rest, job = .admin req.method rest req w.now ∧ w.isAdmin env req = true

section Requests

variable {env : Env} {w w' : World} {req : Request} {path : List Char} {target : Handler}
  {ord : Order}

lemma staticFiles_safe (w : World) (req : Request) :
    (w.staticFiles env req req.target.path).Safe env w req := by
  unfold World.staticFiles
  split_ifs with hconnect hguard hindex
  · exact not_false
  · exact not_false
  · exact not_false
  · intro hpublic
    refine ⟨?_, rfl⟩
    have hpublic : publicPath req.target.path = false := hpublic
    rw [hpublic] at hguard
    simpa [Option.isSome_iff_ne_none] using hguard

lemma handler_cases (w : World) (req : Request) (target : Handler) :
    (∃ inner, (w.handler env req req.target.path target).1 = { w with limiter := inner }) ∧
      Sum.elim (Reply.Safe env w req) (Job.Let env w req)
        (w.handler env req req.target.path target).2 := by
  cases target with
  | login =>
    simp only [World.handler]
    split
    · next inner _ => exact ⟨⟨inner, rfl⟩, not_false⟩
    · next inner _ => exact ⟨⟨inner, rfl⟩, .inl ⟨_, rfl⟩⟩
  | logout => exact ⟨⟨w.limiter, rfl⟩, not_false⟩
  | presence | ws | appConfig | upload | download =>
    simp only [World.handler]
    cases hsess : w.session env req with
    | none => exact ⟨⟨w.limiter, rfl⟩, not_false⟩
    | some sess => exact ⟨⟨w.limiter, rfl⟩, fun _ => ⟨rfl, hsess.symm⟩⟩
  | admin rest =>
    simp only [World.handler]
    split_ifs with hadmin
    · exact ⟨⟨w.limiter, rfl⟩, .inr ⟨_, rfl, hadmin⟩⟩
    · exact ⟨⟨w.limiter, rfl⟩, not_false⟩
  | staticFiles => exact ⟨⟨w.limiter, rfl⟩, staticFiles_safe w req⟩
  | desktopManifest | desktopDownloadWindows | desktopFile | health | version =>
    exact ⟨⟨w.limiter, rfl⟩, fun h => absurd h not_false⟩

variable (env) in
lemma route_cases (w : World) (req : Request) :
    (∃ inner, (w.route env req).1 = { w with limiter := inner }) ∧
      Sum.elim (Reply.Safe env w req) (Job.Let env w req) (w.route env req).2 := by
  unfold World.route
  cases hroute : Http.route req.method req.target with
  | redirect loc => exact ⟨⟨w.limiter, rfl⟩, not_false⟩
  | panics => exact ⟨⟨w.limiter, rfl⟩, not_false⟩
  | dispatch path target =>
    have hpath : path = req.target.path := by
      rw [Http.route] at hroute
      split_ifs at hroute
      · split at hroute <;> cases hroute
      · split at hroute <;> cases hroute
        rfl
    exact hpath ▸ handler_cases w req target

variable (env) in
lemma handle_cases (w : World) (req : Request) (ord : Order) :
    (∃ inner buckets,
      (w.handle env req ord).1 = { w with limiter := inner, buckets := buckets }) ∧
      Sum.elim (Reply.Safe env w req) (Job.Let env w req) (w.handle env req ord).2 := by
  unfold World.handle
  split_ifs
  · split
    · next buckets _ =>
      obtain ⟨⟨inner, hinner⟩, hsafe⟩ := route_cases env { w with buckets := buckets } req
      refine ⟨⟨inner, buckets, hinner⟩, ?_⟩
      cases hres : (World.route env { w with buckets := buckets } req).2 with
      | inl r =>
        rw [hres] at hsafe
        exact hsafe
      | inr job =>
        rw [hres] at hsafe
        exact hsafe
    · next buckets _ _ => exact ⟨⟨w.limiter, buckets, rfl⟩, not_false⟩
  · obtain ⟨⟨inner, hinner⟩, hsafe⟩ := route_cases env w req
    exact ⟨⟨inner, w.buckets, hinner⟩, hsafe⟩

lemma Kept.let_sound (h : Kept env w) (hun : Unforged env w req) {job : Job}
    (hjob : job.Let env w req) :
    job.Sound env w.store.state w.ids w.adminHash w.logins := by
  rcases hjob with ⟨ip, rfl⟩ | ⟨rest, rfl, hadmin⟩
  · trivial
  · rw [World.isAdmin, Option.any_eq_true] at hadmin
    obtain ⟨sess, hsess, hrole⟩ := hadmin
    obtain ⟨l, hl, hlrole, -, hexp, hright⟩ := h.session_right hun hsess
    have hl_admin : l.role = .admin := hlrole.trans (of_decide_eq_true hrole)
    rw [Login.Right, hl_admin] at hright
    exact ⟨l, hl, hl_admin, hright, hexp⟩

lemma Kept.request (h : Kept env w) (hun : Unforged env w req) {n : ℕ}
    (hs : w.step env (.request n req ord) = some w') : Kept env w' := by
  obtain ⟨⟨inner, buckets, hw⟩, hsafe⟩ := handle_cases env w req ord
  simp only [World.step] at hs
  split_ifs at hs
  have hkept : Kept env (w.handle env req ord).1 :=
    hw ▸ h.limited inner buckets w.now w.clock
  cases hres : w.handle env req ord with
  | mk w₁ res =>
    rw [hres] at hs hsafe hkept hw
    cases res with
    | inl r =>
      cases hs
      refine hkept.answer n fun entry plain hr => ?_
      rw [hr] at hsafe
      exact absurd trivial hsafe
    | inr job =>
      cases hs
      refine hkept.insert n ?_
      rw [hw]
      exact h.let_sound hun hsafe

end Requests

/-! ### Runs -/

section Runs

variable {env : Env} {w w' : World} {e : Event} {adminHash : String} {now : SystemTime}

lemma init_kept (env : Env) (adminHash : String) (now : SystemTime) :
    Kept env (.init adminHash now) where
  nodup := List.nodup_nil
  drawn e he := absurd he List.not_mem_nil
  ids id hid := absurd hid List.not_mem_nil
  current := List.mem_singleton_self _
  versions h hh h' hh' _ := (List.mem_singleton.mp hh).trans (List.mem_singleton.mp hh').symm
  signed p hp := .inl ⟨adminHash, List.mem_singleton.mp hp⟩
  logins l hl := absurd hl List.not_mem_nil
  jobs n job hjob := by cases hjob
  given n entry plain hmem := absurd hmem List.not_mem_nil

lemma Kept.resume (h : Kept env w) {n : ℕ} {d : Draw} (hf : Fair env w (.resume n d))
    (hs : w.step env (.resume n d) = some w') : Kept env w' := by
  simp only [World.step] at hs
  cases hjob : w.jobs.lookup n with
  | none =>
    rw [hjob] at hs
    cases hs
  | some job =>
    rw [hjob] at hs
    cases job with
    | login ip req =>
      cases hs
      exact h.login ip req
    | verify ip pass entries taken =>
      cases hs
      exact h.verify ip (h.jobs n _ hjob)
    | admin method rest req since =>
      cases hs
      exact h.admin hf.1 hf.2 method rest _

lemma Kept.restart (h : Kept env w) (hf : Fair env w (.restart adminHash))
    (hs : w.step env (.restart adminHash) = some w') : Kept env w' := by
  cases hs
  obtain ⟨hheld, hversion⟩ := hf
  have hstate : (Store.load w.store.file).state = w.store.state := hheld
  have hhashes : w.hashes ⊆ w.hashes ++ [adminHash] := List.subset_append_left ..
  exact
    { nodup := hstate ▸ h.nodup
      drawn := fun e he => h.drawn e (hstate ▸ he)
      ids := h.ids
      current := List.mem_append_right _ (List.mem_singleton_self _)
      versions := by
        intro a ha b hb hab
        rcases List.mem_append.mp ha with hold | hnew <;>
          rcases List.mem_append.mp hb with hold' | hnew'
        · exact h.versions a hold b hold' hab
        · have hb : b = adminHash := List.mem_singleton.mp hnew'
          exact (hversion a hold (hb ▸ hab)).trans hb.symm
        · have ha : a = adminHash := List.mem_singleton.mp hnew
          exact ha.trans (hversion b hold' (ha ▸ hab.symm)).symm
        · rw [List.mem_singleton.mp hnew, List.mem_singleton.mp hnew']
      signed := by
        intro p hp
        rcases List.mem_append.mp hp with hp | hp
        · exact h.signed p hp
        · exact .inl ⟨adminHash, List.mem_singleton.mp hp⟩
      logins := fun l hl => (h.logins l hl).mono hhashes fun id gen pass hk => hstate ▸ hk
      jobs := fun n job hjob => by cases hjob
      given := fun n entry plain hmem => hstate ▸ h.given n entry plain hmem }

lemma Kept.step (h : Kept env w) (hf : Fair env w e) (hs : w.step env e = some w') :
    Kept env w' := by
  cases e with
  | request n req ord => exact h.request hf hs
  | resume n d => exact h.resume hf hs
  | hangUp n =>
    cases hs
    exact
      { h with
        jobs m job hjob := by
          rw [HashMap.lookup_erase] at hjob
          split_ifs at hjob
          exact h.jobs m job hjob }
  | tick now d =>
    cases hs
    exact h.limited w.limiter w.buckets now _
  | restart adminHash => exact h.restart hf hs

lemma kept_of_reach (h : Reach (World.step env) (Fair env) (.init adminHash now) w) :
    Kept env w :=
  h.invariant (I := Kept env) (init_kept env adminHash now) fun _ _ _ hI hf hs => hI.step hf hs

end Runs

end VoiceHub.Http
