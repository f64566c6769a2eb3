import Mathlib
import VoiceHub.Http.Ledger

/-!
Who gets to the handlers behind the login, and who changes the connection passwords.
-/

namespace VoiceHub.Http

open VoiceHub.Lib VoiceHub.Lib.Machine VoiceHub.Lib.Text
open VoiceHub.Auth VoiceHub.Auth.ConnPass VoiceHub.Auth.SessionCookie

section Quiet

variable {env : Env} {w w' : World} {e : Event}

lemma answer_replies (w : World) (n : ℕ) (r : Reply) :
    (w.answer n r).replies = w.replies ++ [(n, r)] := rfl

/-- A step that changes no entries and discloses nothing. -/
def Quiet (w w' : World) : Prop :=
  w'.store.state = w.store.state ∧
    ∀ n r, w'.replies = w.replies ++ [(n, r)] → ¬ r.Disclosed

lemma quiet_answer (w : World) (n : ℕ) {r : Reply} (hr : ¬ r.Disclosed) :
    Quiet w (w.answer n r) := by
  refine ⟨rfl, fun m r' h => ?_⟩
  rw [answer_replies] at h
  rw [← (Prod.mk.inj (List.singleton_inj.mp (List.append_cancel_left h))).2]
  exact hr

lemma quiet_same (h : w'.store.state = w.store.state) (hr : w'.replies = w.replies) :
    Quiet w w' := by
  refine ⟨h, fun n r h => ?_⟩
  rw [hr] at h
  exact absurd (List.self_eq_append_right.mp h) (by simp)

lemma quiet_login (w : World) (n : ℕ) (ip : String) (req : Request) :
    Quiet w (w.login env n ip req) := by
  unfold World.login
  split
  · exact quiet_answer w n not_false
  · dsimp only
    split_ifs
    · exact quiet_answer { w with limiter := _ } n not_false
    · exact quiet_answer { w with limiter := _, logins := _, signed := _ } n not_false
    · exact quiet_same rfl rfl

lemma quiet_verify (w : World) (n : ℕ) (ip pass : String) (entries : List Entry)
    (taken : SystemTime) : Quiet w (w.verify env n ip pass entries taken) := by
  unfold World.verify
  split
  · exact quiet_answer { w with limiter := _, logins := _, signed := _ } n not_false
  · exact quiet_answer { w with limiter := _ } n not_false

lemma quiet_request {n : ℕ} {req : Request} {ord : Order}
    (hs : w.step env (.request n req ord) = some w') : Quiet w w' := by
  obtain ⟨⟨inner, buckets, hw⟩, hsafe⟩ := handle_cases env w req ord
  simp only [World.step] at hs
  split_ifs at hs
  cases hres : w.handle env req ord with
  | mk w₁ res =>
    rw [hres] at hs hsafe hw
    obtain rfl : w₁ = { w with limiter := inner, buckets := buckets } := hw
    cases res with
    | inl r =>
      cases hs
      refine quiet_answer { w with limiter := inner, buckets := buckets } n ?_
      cases r with
      | handed target sess => exact not_false
      | _ => exact hsafe
    | inr job =>
      cases hs
      exact quiet_same rfl rfl

/-- Only an operation of the admin's is not quiet. -/
lemma quiet_or_admin (hf : Fair env w e) (hs : w.step env e = some w') :
    Quiet w w' ∨ ∃ n d method rest req since, e = .resume n d ∧
      w.jobs.lookup n = some (.admin method rest req since) := by
  cases e with
  | request n req ord => exact .inl (quiet_request hs)
  | resume n d =>
    simp only [World.step] at hs
    cases hjob : w.jobs.lookup n with
    | none =>
      rw [hjob] at hs
      cases hs
    | some job =>
      rw [hjob] at hs
      cases job with
      | login ip req =>
        cases hs
        exact .inl (quiet_login w n ip req)
      | verify ip pass entries taken =>
        cases hs
        exact .inl (quiet_verify w n ip pass entries taken)
      | admin method rest req since => exact .inr ⟨n, d, method, rest, req, since, rfl, hjob⟩
  | hangUp n =>
    cases hs
    exact .inl (quiet_same rfl rfl)
  | tick now d =>
    cases hs
    exact .inl (quiet_same rfl rfl)
  | restart adminHash =>
    cases hs
    exact .inl (quiet_same hf.1 rfl)

end Quiet

/-! ### A server -/

/-- The admin's password is `dev`. -/
def devEnv : Env where
  argon2 := Password.devArgon2
  mac bytes := List.replicate 32 (bytes.foldl (fun h b => h * 31 + b) 7)
  httpDate _ := "Sat, 31 Jan 1970 00:00:00 GMT".toList
  cookieSecure := true
  trustedProxies := loopback
  limiter := ⟨10, 900000000000⟩
  apiLimiter := ⟨5, 60, 3600, 65536, by decide, by decide⟩
  multer _ _ := none
  json _ := none

def devStart : World := .init (.ofList Password.devHash) 0

def devRequest : Request where
  method := .post
  target := .origin "api/login".toList none
  peer := .v4 0x7f000001#32
  xForwardedFor := none
  cookies := []
  contentType := some (Percent.utf8 "application/x-www-form-urlencoded".toList)
  body := some (loginForm "dev".toList)

def devDraw : Draw := ⟨.replicate 6 0, "", .replicate _ 0, none⟩

/-- After the login. -/
def devSignedIn : World :=
  (run (World.step devEnv) devStart [.request 0 devRequest .plain, .resume 0 devDraw]).getD devStart

/-- What the browser asks for next. -/
def devConfig : Request where
  method := .get
  target := .origin "api/config".toList none
  peer := .v4 0x7f000001#32
  xForwardedFor := none
  cookies := devSignedIn.logins.map fun l => sent (l.setCookie devEnv)
  contentType := none
  body := none

/-- The handler that a request was handed on to. -/
def handedTo : Reply ⊕ Job → Option (Handler × Option Session)
  | .inl (.handed target sess) => some (target, sess)
  | _ => none

lemma handedTo_eq {r : Reply ⊕ Job} {target : Handler} {sess : Option Session}
    (h : handedTo r = some (target, sess)) : r = .inl (.handed target sess) := by
  unfold handedTo at h
  split at h
  · obtain ⟨rfl, rfl⟩ := Prod.mk.inj (Option.some.inj h)
    rfl
  · cases h

/-- **The login stands before everything that is not public.** Whoever gets to a guarded handler
gave, in the thirty days before, a password that is still right: the admin's, or that of an entry
that is there, has not expired and has not been rotated since. The entries change, and are shown,
only for an admin who had such a session when asking for it, and whose password is still right. -/
theorem mediated {env : Env} {adminHash : String} {now : SystemTime} {w : World}
    (h : Reach (World.step env) (Fair env) (.init adminHash now) w) :
    (∀ req ord target sess, Unforged env w req →
      (w.handle env req ord).2 = .inl (.handed target sess) → Guarded req.target.path target →
      ∃ l ∈ w.logins, unixSecs w.now ≤ unixSecs (l.since + SESSION_TTL) ∧ l.Right env w) ∧
    ∀ e w', Fair env w e → w.step env e = some w' →
      (w'.store.state ≠ w.store.state ∨
        ∃ n r, w'.replies = w.replies ++ [(n, r)] ∧ r.Disclosed) →
      ∃ n d method rest req since, e = .resume n d ∧
        w.jobs.lookup n = some (.admin method rest req since) ∧
        ∃ l ∈ w.logins, l.role = .admin ∧ unixSecs since ≤ unixSecs (l.since + SESSION_TTL) ∧
          l.Right env w := by
  have hkept := kept_of_reach h
  refine ⟨fun req ord target sess hun hhanded hguarded => ?_, fun e w' hf hs hloud => ?_⟩
  · have hsafe := (handle_cases env w req ord).2
    rw [hhanded] at hsafe
    obtain ⟨hsome, rfl⟩ := hsafe hguarded
    obtain ⟨sess, hsess⟩ := Option.isSome_iff_exists.mp hsome
    obtain ⟨l, hl, -, -, hexp, hright⟩ := hkept.session_right hun hsess
    exact ⟨l, hl, hexp, hright⟩
  · rcases quiet_or_admin hf hs with hquiet | ⟨n, d, method, rest, req, since, rfl, hjob⟩
    · rcases hloud with hstate | ⟨n, r, hreplies, hdisclosed⟩
      · exact absurd hquiet.1 hstate
      · exact absurd hdisclosed (hquiet.2 n r hreplies)
    · obtain ⟨l, hl, hrole, hcheck, hexp⟩ := hkept.jobs n _ hjob
      refine ⟨n, d, method, rest, req, since, rfl, hjob, l, hl, hrole, hexp, ?_⟩
      rw [Login.Right, hrole]
      exact hcheck

theorem mediated_config : ∃ l ∈ devSignedIn.logins,
    unixSecs devSignedIn.now ≤ unixSecs (l.since + SESSION_TTL) ∧ l.Right devEnv devSignedIn := by
  have hreach : Reach (World.step devEnv) (Fair devEnv) devStart devSignedIn :=
    .of_isSome (by decide +kernel) (by decide +kernel)
  have hhanded : handedTo (devSignedIn.handle devEnv devConfig .plain).2 =
      some (.appConfig, devSignedIn.session devEnv devConfig) := by decide +kernel
  exact (mediated hreach).1 devConfig .plain _ _ (by decide +kernel) (handedTo_eq hhanded) trivial

/-! ### Logging in -/

/-- The password opens the door: it is the admin's or a live entry's, such as the one that the
admin was given for the entry as it is. -/
def Opens (env : Env) (w : World) (pass : String) : Prop :=
  env.check w.adminHash pass = true ∨ ∃ e ∈ w.store.state, e.isExpired w.now = false ∧
    (env.check e.hash pass = true ∨ ∃ n entry, (n, .plaintext entry pass) ∈ w.replies ∧
      entry.id = e.id ∧ entry.generation = e.generation)

/-- What the login page asks for. -/
structure LoginRequest (req : Request) (pass : List Char) : Prop where
  method : req.method = .post
  path : req.target.path = "/api/login".toList
  contentType : req.contentType = some (Percent.utf8 "application/x-www-form-urlencoded".toList)
  body : req.body = some (loginForm pass)
  fits : (loginForm pass).length ≤ MAX_FORM_BYTES

/-- No limiter turns the request away. -/
structure Admitted (env : Env) (w : World) (req : Request) (ord : Order) : Prop where
  allowed : (Ratelimit.allowAt env.apiLimiter ord w.buckets (env.ip req)
    (w.clock / 1000000000)).2 = .ok ()
  unblocked : (Limiter.blockedAt env.limiter w.limiter (env.ip req) w.clock).2 = false

/-- What the session of a login is good for. -/
def Login.Lasts (env : Env) (w : World) (l : Login) : Prop :=
  unixSecs w.now ≤ l.exp ∧
    match l.role with
    | .user => ∃ e ∈ w.store.state, e.id = l.entryId ∧ e.isExpired w.now = false ∧
        e.generation = l.generation
    | .admin => w.adminVersion env = l.adminVersion

section Logins

variable {env : Env} {w w' : World} {req : Request} {ord : Order} {pass : List Char} {l : Login}
  {n : ℕ}

lemma route_login (hmethod : req.method = .post) (hpath : req.target.path = "/api/login".toList) :
    Http.route req.method req.target = .dispatch "/api/login".toList .login := by
  have hclean : cleanPath req.target.path = req.target.path := by
    rw [hpath]
    decide +kernel
  rw [route_dispatch (.inl hclean), hpath, hmethod]
  decide +kernel

variable (env) in
lemma step_loginRequest (hreq : LoginRequest req pass) (hadm : Admitted env w req ord)
    (hn : w.jobs.lookup n = none) : ∃ inner buckets,
      w.step env (.request n req ord) = some { w with
        limiter := inner, buckets := buckets
        jobs := AList.insert n (.login (env.ip req) req) w.jobs } := by
  obtain ⟨buckets, res, hallow⟩ : ∃ buckets res, Ratelimit.allowAt env.apiLimiter ord w.buckets
      (env.ip req) (w.clock / 1000000000) = (buckets, res) := ⟨_, _, rfl⟩
  obtain ⟨inner, blocked, hblock⟩ : ∃ inner blocked, Limiter.blockedAt env.limiter w.limiter
      (env.ip req) w.clock = (inner, blocked) := ⟨_, _, rfl⟩
  have hok : res = .ok () := by
    have := hadm.allowed
    rwa [hallow] at this
  have hopen : blocked = false := by
    have := hadm.unblocked
    rwa [hblock] at this
  subst hok hopen
  have hapi : "/api/".toList.isPrefixOf req.target.path = true := by
    rw [hreq.path]
    decide
  refine ⟨inner, buckets, ?_⟩
  simp only [World.step, hn, Option.isSome_none, Bool.false_eq_true, if_false, World.handle, hapi,
    if_true, hallow, World.route, route_login hreq.method hreq.path, World.handler, hblock]

lemma login_or_verify (hreq : LoginRequest req pass) (hpass : pass ≠ []) (ip : String) :
    (∃ limiter, w.login env n ip req = World.issue env { w with limiter := limiter } n .admin
        (.ofList pass) 0 (w.adminVersion env) "") ∨
      (env.check w.adminHash (.ofList pass) = false ∧ w.login env n ip req = { w with
        jobs := AList.insert n (.verify ip (.ofList pass) w.store.state w.now) w.jobs }) := by
  obtain ⟨form, hform, hlook⟩ := postForm_loginForm env hreq.contentType hreq.body hreq.fits
  rw [World.login, hform]
  simp only [hlook, Option.getD_some, if_neg hpass]
  cases hadmin : env.check w.adminHash (.ofList pass) with
  | true => exact .inl ⟨_, if_pos rfl⟩
  | false => exact .inr ⟨rfl, if_neg Bool.false_ne_true⟩

lemma verify_live (hlive : ∃ e ∈ w.store.state, e.isExpired w.now = false ∧
      env.check e.hash (.ofList pass) = true) (ip : String) :
    ∃ limiter, ∃ e ∈ w.store.state, e.isExpired w.now = false ∧
      w.verify env n ip (.ofList pass) w.store.state w.now =
        World.issue env { w with limiter := limiter } n .user (.ofList pass) e.generation "" e.id := by
  obtain ⟨d, hd, hexpired, hcheck⟩ := hlive
  have hfound : ((w.store.state.filter fun e => !e.isExpired w.now).find? fun e =>
      env.check e.hash (.ofList pass)).isSome := by
    rw [List.find?_isSome]
    exact ⟨d, List.mem_filter.mpr ⟨hd, by simpa using hexpired⟩, hcheck⟩
  obtain ⟨e, hfind⟩ := Option.isSome_iff_exists.mp hfound
  obtain ⟨he, hlive⟩ := List.mem_filter.mp (List.mem_of_find?_eq_some hfind)
  have hverify : Store.verify env.check ⟨w.store.state, none⟩ (.ofList pass) w.now =
      some (e.id, e.generation) := by
    rw [Store.verify, hfind, Option.map_some]
  rw [World.verify, hverify]
  exact ⟨_, e, he, by simpa using hlive, rfl⟩

lemma Kept.opens (h : Kept env w) {p : String} (hopens : Opens env w p) :
    env.check w.adminHash p = true ∨ ∃ e ∈ w.store.state, e.isExpired w.now = false ∧
      env.check e.hash p = true := by
  rcases hopens with hadmin | ⟨e, he, hlive, hcheck | ⟨m, entry, hmem, hid, hgen⟩⟩
  · exact .inl hadmin
  · exact .inr ⟨e, he, hlive, hcheck⟩
  · obtain ⟨-, hash, hcheck, hsince⟩ := h.given m entry p hmem
    refine .inr ⟨e, he, hlive, ?_⟩
    rcases hsince e he hid.symm with hlt | ⟨-, rfl⟩
    · exact absurd (hgen ▸ hlt) (UInt64.lt_irrefl _)
    · exact hcheck

lemma Kept.plain_entryId (h : Kept env w) (hl : l ∈ w.logins) :
    (∀ c ∈ l.adminVersion.toList, Plain c) ∧ ∀ c ∈ l.entryId.toList, Plain c := by
  have hsound := h.logins l hl
  unfold Login.Sound at hsound
  cases hrole : l.role with
  | user =>
    rw [hrole] at hsound
    obtain ⟨hver, hid, -⟩ := hsound
    obtain ⟨bytes, hbytes⟩ := h.ids _ hid
    exact ⟨by simp [hver], hbytes ▸ plain_hex bytes.toList⟩
  | admin =>
    rw [hrole] at hsound
    obtain ⟨-, hid, a, -, hver, -⟩ := hsound
    refine ⟨?_, by simp [hid]⟩
    rw [hver, Env.adminPasswordVersion, String.toList_ofList]
    exact plain_sign _

/-- **The cookie that was set is let in** just as long as it is meant to be. -/
lemma Kept.session_sent (h : Kept env w) (hl : l ∈ w.logins)
    (hreq : req.cookies = [sent (l.setCookie env)]) :
    (w.session env req).isSome ↔ l.Lasts env w := by
  obtain ⟨hver, hid⟩ := h.plain_entryId hl
  have hvalue : cookieValue (req.cookies.filterMap toStr) COOKIE_NAME =
      some (encodeAt env.signer l.role l.generation l.adminVersion l.entryId l.exp) := by
    rw [hreq]
    exact cookieValue_sent (plain_encodeAt l.role l.generation l.exp hver hid) _
  rw [World.session, validSession, fromHeaders, hvalue, Option.bind_some,
    decode_encodeAt l.role l.generation (h.logins l hl).colon, Login.Lasts]
  by_cases hexp : l.exp < unixSecs w.now
  · rw [if_pos hexp]
    exact iff_of_false Bool.false_ne_true fun hlasts => Int64.not_le.mpr hexp hlasts.1
  rw [if_neg hexp]
  have hsound := h.logins l hl
  unfold Login.Sound at hsound
  cases hrole : l.role with
  | user =>
    rw [hrole] at hsound
    obtain ⟨-, hdrawn, -⟩ := hsound
    obtain ⟨bytes, hbytes⟩ := h.ids _ hdrawn
    have hne : l.entryId.isEmpty = false := by
      rw [hbytes]
      simpa using Revocation.hex_ne_empty bytes
    have hgen : w.store.entryGeneration l.entryId w.now = some l.generation ↔
        ∃ e ∈ w.store.state, e.id = l.entryId ∧ e.isExpired w.now = false ∧
          e.generation = l.generation := by
      rw [Store.entryGeneration, hne, if_neg Bool.false_ne_true, Option.map_eq_some_iff]
      refine exists_congr fun e => ?_
      rw [Option.filter_eq_some_iff]
      constructor
      · rintro ⟨⟨hlook, hlive⟩, hgen⟩
        obtain ⟨he, hid⟩ := mem_ids_of_lookup hlook
        exact ⟨he, hid, by simpa using hlive, hgen⟩
      · rintro ⟨he, hid, hlive, hgen⟩
        exact ⟨⟨hid ▸ lookup_of_mem h.nodup he, by simpa using hlive⟩, hgen⟩
    simp [hgen, Int64.not_lt.mp hexp]
  | admin => simp [Int64.not_lt.mp hexp, eq_comm]

lemma logins_step {e : Event} (hs : w.step env e = some w') (hl : l ∈ w.logins) :
    l ∈ w'.logins := by
  cases e with
  | request n req ord =>
    obtain ⟨⟨inner, buckets, hw⟩, -⟩ := handle_cases env w req ord
    simp only [World.step] at hs
    split_ifs at hs
    cases hres : w.handle env req ord with
    | mk w₁ res =>
      rw [hres] at hs hw
      obtain rfl : w₁ = { w with limiter := inner, buckets := buckets } := hw
      cases res <;> cases hs <;> exact hl
  | resume n d =>
    simp only [World.step] at hs
    cases hjob : w.jobs.lookup n with
    | none =>
      rw [hjob] at hs
      cases hs
    | some job =>
      rw [hjob] at hs
      cases job with
      | login ip req =>
        cases hs
        unfold World.login
        split
        · exact hl
        · dsimp only
          split_ifs
          · exact hl
          · exact List.mem_append_left _ hl
          · exact hl
      | verify ip pass entries taken =>
        cases hs
        unfold World.verify
        split
        · exact List.mem_append_left _ hl
        · exact hl
      | admin method rest req since =>
        cases hs
        have hhashed {k : String → World} (hk : ∀ hash, l ∈ (k hash).logins) :
            l ∈ (w.hashed env n d k).logins := by
          unfold World.hashed
          split
          · exact hl
          · exact hk _
        unfold World.admin
        split
        case h_3 => exact hhashed fun _ => hl
        case h_5 => exact hhashed fun _ => hl
        all_goals exact hl
  | hangUp n | tick now d | restart adminHash =>
    cases hs
    exact hl

lemma unixSecs_mono {a b : ℤ} (hab : a ≤ b) (hb : b < 2 ^ 63 * 1000000000) :
    unixSecs a ≤ unixSecs b := by
  have hfit {t : ℤ} (ht : t ≤ b) : (unixSecs t).toInt = max t 0 / 1000000000 := by
    rw [unixSecs, Int64.toInt_ofInt_of_le (by omega) (by omega)]
  rw [Int64.le_iff_toInt_le, hfit hab, hfit le_rfl]
  omega

lemma Kept.issued {role : Role} {p adminVer entryId : String} {gen : UInt64}
    (hkept : Kept env (w.issue env n role p gen adminVer entryId))
    (hclock : w.now + SESSION_TTL < 2 ^ 63 * 1000000000)
    (hentry : match role with
      | .user => ∃ e ∈ w.store.state, e.id = entryId ∧ e.isExpired w.now = false ∧
          e.generation = gen
      | .admin => w.adminVersion env = adminVer) :
    ∃ l : Login, (w.issue env n role p gen adminVer entryId).replies =
        w.replies ++ [(n, .noContent (some (l.setCookie env)))] ∧
      l.pass = p ∧ l.since = w.now ∧ l.Lasts env (w.issue env n role p gen adminVer entryId) ∧
      ∀ w'', Reach (World.step env) (Fair env) (w.issue env n role p gen adminVer entryId) w'' →
        ∀ req', req'.cookies = [sent (l.setCookie env)] →
          ((w''.session env req').isSome ↔ l.Lasts env w'') := by
  refine ⟨⟨role, p, gen, adminVer, entryId, w.now⟩, rfl, rfl, rfl, ⟨?_, hentry⟩, ?_⟩
  · exact unixSecs_mono (le_add_of_nonneg_right (Int.natCast_nonneg _)) hclock
  · intro w'' hreach req' hreq'
    obtain ⟨hkept'', hl⟩ : Kept env w'' ∧
        (⟨role, p, gen, adminVer, entryId, w.now⟩ : Login) ∈ w''.logins := by
      refine hreach.invariant (I := fun w => Kept env w ∧ _ ∈ w.logins)
        ⟨hkept, List.mem_append_right _ (List.mem_singleton_self _)⟩ ?_
      rintro s e s' ⟨hk, hl⟩ hf hs
      exact ⟨hk.step hf hs, logins_step hs hl⟩
    exact hkept''.session_sent hl hreq'

end Logins

/-- **The right password lets its owner in.** Posted by the login page while no limiter turns it
away, the admin's password or that of a live entry is answered with a cookie. Sent back by the
browser, whatever happens in between, the cookie is let in exactly while it has not expired and
the entry is there, live and of that generation, or the admin's password is the same. -/
theorem login_admits {env : Env} {adminHash : String} {now : SystemTime} {w : World}
    (h : Reach (World.step env) (Fair env) (.init adminHash now) w) {n : ℕ} {req : Request}
    {ord : Order} {pass : List Char} (hreq : LoginRequest req pass) (hadm : Admitted env w req ord)
    (hn : w.jobs.lookup n = none) (hpass : pass ≠ []) (hopens : Opens env w (.ofList pass))
    (hclock : w.now + SESSION_TTL < 2 ^ 63 * 1000000000) (d : Draw) :
    ∃ k w', run (World.step env) w
        (.request n req ord :: List.replicate k (.resume n d)) = some w' ∧
      ∃ l : Login, w'.replies = w.replies ++ [(n, .noContent (some (l.setCookie env)))] ∧
        l.pass = .ofList pass ∧ l.since = w.now ∧ l.Lasts env w' ∧
        ∀ w'', Reach (World.step env) (Fair env) w' w'' → ∀ req', req'.cookies =
          [sent (l.setCookie env)] → ((w''.session env req').isSome ↔ l.Lasts env w'') := by
  have hkept := kept_of_reach h
  have hright := hkept.opens hopens
  obtain ⟨inner, buckets, hstep⟩ := step_loginRequest env hreq hadm hn
  obtain ⟨w₁, hw₁⟩ : ∃ w₁, w₁ = { w with
      limiter := inner, buckets := buckets
      jobs := AList.insert n (.login (env.ip req) req) w.jobs } := ⟨_, rfl⟩
  have hkept₁ : Kept env w₁ :=
    hw₁ ▸ (hkept.limited inner buckets w.now w.clock).insert n trivial
  have hresume : w₁.step env (.resume n d) = some (w₁.login env n (env.ip req) req) := by
    rw [hw₁, World.step, AList.lookup_insert]
  have hrun (k : ℕ) (w' : World) (hk : run (World.step env) w₁
      (List.replicate k (.resume n d)) = some w') : run (World.step env) w
        (.request n req ord :: List.replicate k (.resume n d)) = some w' := by
    rw [run, hstep, Option.bind_some, ← hw₁, hk]
  have hsame : w₁.replies = w.replies ∧ w₁.now = w.now ∧ w₁.store = w.store ∧
      w₁.adminHash = w.adminHash := by
    rw [hw₁]
    exact ⟨rfl, rfl, rfl, rfl⟩
  obtain ⟨hreplies, hnow, hstore, hhash⟩ := hsame
  rw [← hreplies, ← hnow]
  rcases @login_or_verify env w₁ req pass n hreq hpass (env.ip req) with
    ⟨limiter, hlogin⟩ | ⟨hnot, hlogin⟩
  · rw [hlogin] at hresume
    refine ⟨1, _, hrun 1 _ (by rw [List.replicate_one, run, hresume, Option.bind_some, run]), ?_⟩
    exact Kept.issued (w := { w₁ with limiter := limiter }) (hlogin ▸ hkept₁.login _ _)
      (hnow ▸ hclock) rfl
  · -- the admin's hash does not match, so a live entry's does
    have hlive : ∃ e ∈ w₁.store.state, e.isExpired w₁.now = false ∧
        env.check e.hash (.ofList pass) = true := by
      rw [hstore, hnow]
      rw [hhash] at hnot
      exact hright.resolve_left (by rw [hnot]; exact Bool.false_ne_true)
    obtain ⟨w₂, hw₂⟩ : ∃ w₂, w₂ = { w₁ with
        jobs := AList.insert n (.verify (env.ip req) (.ofList pass) w₁.store.state w₁.now)
          w₁.jobs } := ⟨_, rfl⟩
    rw [← hw₂] at hlogin
    have hkept₂ : Kept env w₂ := hlogin ▸ hkept₁.login _ _
    have hjob : w₂.jobs.lookup n =
        some (.verify (env.ip req) (.ofList pass) w₂.store.state w₂.now) := by
      rw [hw₂, AList.lookup_insert]
    have hlive₂ : ∃ e ∈ w₂.store.state, e.isExpired w₂.now = false ∧
        env.check e.hash (.ofList pass) = true := by
      rw [hw₂]
      exact hlive
    obtain ⟨limiter, e, he, hexpired, hverify⟩ := @verify_live env w₂ pass n hlive₂ (env.ip req)
    have hresume₂ : w₂.step env (.resume n d) =
        some (w₂.verify env n (env.ip req) (.ofList pass) w₂.store.state w₂.now) := by
      rw [World.step, hjob]
    have hnow₂ : w₂.now = w₁.now := by rw [hw₂]
    have hreplies₂ : w₂.replies = w₁.replies := by rw [hw₂]
    rw [hlogin] at hresume
    rw [← hnow₂, ← hreplies₂]
    have hrun₂ : run (World.step env) w₁ (List.replicate 2 (.resume n d)) =
        some (w₂.verify env n (env.ip req) (.ofList pass) w₂.store.state w₂.now) := by
      rw [List.replicate_succ, run, hresume, Option.bind_some, List.replicate_one, run, hresume₂,
        Option.bind_some, run]
    refine ⟨2, _, hrun 2 _ hrun₂, ?_⟩
    rw [hverify]
    refine Kept.issued (w := { w₂ with limiter := limiter })
      (hverify ▸ hkept₂.verify _ (hkept₂.jobs n _ hjob)) ?_ ⟨e, he, rfl, hexpired, rfl⟩
    rw [hnow] at hnow₂
    exact hnow₂ ▸ hclock

theorem login_admits_dev : ∃ k w', run (World.step devEnv) devStart
      (.request 0 devRequest .plain :: List.replicate k (.resume 0 devDraw)) = some w' ∧
    ∃ l : Login, l.pass = "dev" ∧ l.Lasts devEnv w' := by
  have hreq : LoginRequest devRequest "dev".toList :=
    ⟨rfl, by decide, rfl, rfl, by decide +kernel⟩
  have hadm : Admitted devEnv devStart devRequest .plain := ⟨by decide +kernel, by decide +kernel⟩
  obtain ⟨k, w', hrun, l, -, hpass, -, hlasts, -⟩ := login_admits .init hreq hadm rfl (by decide)
    (.inl (by decide +kernel)) (by decide) devDraw
  exact ⟨k, w', hrun, l, hpass, hlasts⟩

end VoiceHub.Http
