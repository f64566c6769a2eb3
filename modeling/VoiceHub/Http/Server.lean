import Mathlib
import VoiceHub.Http.Handlers
import VoiceHub.Lib.Machine

/-!
The server's requests, from their arrival to the handler they are for or to their answer.

Logging in and the admin's operations read a body first, and a password takes its time to be
checked: other requests run in between, and the clock goes on.
-/

namespace VoiceHub.Http

open VoiceHub.Lib VoiceHub.Lib.Machine VoiceHub.Lib.Text
open VoiceHub.Auth VoiceHub.Auth.ConnPass VoiceHub.Auth.SessionCookie

/-! ### The state -/

/-- `dropped` is a request that dies with its task. One that is handed on has a handler of its
own. -/
inductive Reply
  | error (status : ℕ) (msg : String) (retryAfter : Option ℕ)
  | redirect (status : ℕ) (loc : List Char)
  | noContent (setCookie : Option (List Char))
  | status (entries : List EntryStatus)
  | plaintext (entry : EntryStatus) (password : String)
  | entry (entry : EntryStatus)
  | handed (target : Handler) (sess : Option Session)
  | dropped

def notFound : Reply := .error 404 "404 page not found" none

/-- Only the admin gets to see it. -/
def Reply.Disclosed : Reply → Prop
  | .status _ | .plaintext _ _ | .entry _ => True
  | _ => False

/-- What a cookie was handed out for. -/
structure Login where
  role : Role
  pass : String
  generation : UInt64
  adminVersion : String
  entryId : String
  since : SystemTime

def Login.exp (l : Login) : Int64 := unixSecs (l.since + SESSION_TTL)

/-- A request that waits for its body, or for the hashes of the connection passwords as they
were. -/
inductive Job
  | login (ip : String) (req : Request)
  | verify (ip : String) (pass : String) (entries : List Entry) (taken : SystemTime)
  | admin (method : Method) (rest : List String) (req : Request) (since : SystemTime)

/-- `signed`, `ids`, `hashes`, `logins` and `replies` only keep track: of the payloads that were
signed, the ids that were drawn, the admin's password hashes, the cookies and the answers. -/
structure World where
  adminHash : String
  store : Store
  limiter : Limiter.Inner
  buckets : Ratelimit.Buckets
  now : SystemTime
  /-- In nanoseconds. -/
  clock : ℕ
  jobs : HashMap ℕ Job
  signed : List (List Char)
  ids : List String
  hashes : List String
  logins : List Login
  replies : List (ℕ × Reply)

def World.init (adminHash : String) (now : SystemTime) : World :=
  ⟨adminHash, .load none, ⟨∅, none⟩, ∅, now, 0, ∅, [adminPayload adminHash], [], [adminHash], [], []⟩

/-- What an operation draws at random, and how its write fails, if it does. -/
structure Draw where
  bytes : Vector UInt8 6
  plain : String
  salt : Vector UInt8 Password.ARGON_SALT_LEN
  failure : Option String

inductive Event
  | request (n : ℕ) (req : Request) (ord : Order)
  /-- the request's task goes on -/
  | resume (n : ℕ) (d : Draw)
  /-- the connection goes away, and with it the rest of the task -/
  | hangUp (n : ℕ)
  | tick (now : SystemTime) (d : ℕ)
  | restart (adminHash : String)

/-! ### One request -/

def Env.ip (env : Env) (req : Request) : String :=
  .ofList (clientIp req.peer req.xForwardedFor env.trustedProxies)

/-- One segment, percent-decoded if it can be. -/
def param (s : String) : String :=
  ((Percent.decode (Percent.utf8 s.toList)).map fun b =>
    String.ofList (Form.fromUtf8Lossy b)).getD s

/-- Pages that need no cookie. -/
def publicPath (path : List Char) : Bool :=
  ["/login.html".toList, "/login.js".toList, "/favicon.ico".toList, "/favicon.svg".toList,
    "/favicon.png".toList, "/apple-touch-icon.png".toList, "/manifest.webmanifest".toList,
    "/sw.js".toList].contains path ||
  "/assets/".toList.isPrefixOf path || "/vendor/".toList.isPrefixOf path

def Login.payload (l : Login) : List Char :=
  SessionCookie.payload l.role l.generation l.adminVersion l.entryId l.exp

def connpassError (what : String) : ConnPass.Error → Reply
  | .notFound => .error 404 "not found" none
  | .tooManyEntries => .error 409 "too many entries" none
  | .io _ => .error 500 (what ++ " failed") none

def Login.setCookie (env : Env) (l : Login) : List Char :=
  sessionCookie env l.role l.generation l.adminVersion l.entryId l.since

def ask {α : Type} (what : String) (ok : α → Reply) : Except ConnPass.Error α → Reply
  | .ok a => ok a
  | .error e => connpassError what e

namespace World

section Source

variable (env : Env) (w : World)

def adminVersion : String := env.adminPasswordVersion w.adminHash

def session (req : Request) : Option Session :=
  validSession env.signer w.store (w.adminVersion env) (req.cookies.filterMap toStr) w.now

def isAdmin (req : Request) : Bool := (w.session env req).any fun s => s.role = .admin

/-- Answers, and is done. -/
def answer (n : ℕ) (r : Reply) : World :=
  { w with jobs := AList.erase n w.jobs, replies := w.replies ++ [(n, r)] }

/-- Hands out a session. -/
def issue (n : ℕ) (role : Role) (pass : String) (gen : UInt64) (adminVer entryId : String) :
    World :=
  let l : Login := ⟨role, pass, gen, adminVer, entryId, w.now⟩
  { w with logins := w.logins ++ [l], signed := w.signed ++ [l.payload] }.answer n
    (.noContent (some (l.setCookie env)))

/-- Admin password first, then any connection password. -/
def login (n : ℕ) (ip : String) (req : Request) : World :=
  match postForm env req with
  | none => w.answer n (.error 400 "bad request" none)
  | some form =>
    let pass := (form.lookup "password".toList).getD []
    if pass = [] then
      { w with limiter := Limiter.failAt env.limiter w.limiter ip w.clock }.answer n
        (.error 401 "unauthorized" none)
    else if env.check w.adminHash (.ofList pass) then
      { w with limiter := Limiter.success w.limiter ip }.issue env n .admin (.ofList pass) 0
        (w.adminVersion env) ""
    else
      { w with jobs := AList.insert n (.verify ip (.ofList pass) w.store.state w.now) w.jobs }

/-- The entries are those from before the checking. -/
def verify (n : ℕ) (ip : String) (pass : String) (entries : List Entry) (taken : SystemTime) :
    World :=
  match Store.verify env.check ⟨entries, none⟩ pass taken with
  | some (entryId, gen) =>
    { w with limiter := Limiter.success w.limiter ip }.issue env n .user pass gen "" entryId
  | none =>
    { w with limiter := Limiter.failAt env.limiter w.limiter ip w.clock }.answer n
      (.error 401 "unauthorized" none)

/-- An operation on the connection passwords. -/
def operate (n : ℕ) {α : Type} (what : String) (ok : α → Reply)
    (r : Store × Except ConnPass.Error α) : World :=
  { w with store := r.1 }.answer n (ask what ok r.2)

/-- Hashing panics when the parameters are not valid. -/
def hashed (n : ℕ) (d : Draw) (k : String → World) : World :=
  match Password.hash env.argon2 d.salt d.plain.toList with
  | none => w.answer n .dropped
  | some hash => k (.ofList hash)

/-- Disconnecting users is for the registry of connections. -/
def admin (n : ℕ) (method : Method) (rest : List String) (body : AdminBody) (d : Draw) : World :=
  match method, rest with
  | .get, [] | .head, [] => w.answer n (.status (w.store.state.map (·.status w.now)))
  | .post, [] => w.hashed env n d fun hash =>
    { w with ids := w.ids ++ [hex d.bytes.toList] }.operate n "create"
      (fun r : EntryStatus × String => .plaintext r.1 r.2)
      (w.store.create body.label (ttlFromSeconds body.ttlSeconds) d.bytes d.plain hash w.now
        d.failure)
  | .post, ["disconnect-users"] => w.answer n (.noContent none)
  | .post, [id, "rotate"] => w.hashed env n d fun hash =>
    w.operate n "rotate" (fun r : EntryStatus × String => .plaintext r.1 r.2)
      (w.store.rotate id d.plain hash w.now d.failure)
  | .post, [id, "rename"] =>
    w.operate n "rename" (fun _ => .noContent none) (w.store.rename id body.label d.failure)
  | .post, [id, "ttl"] =>
    w.operate n "set ttl" .entry
      (w.store.setTtl id (ttlFromSeconds body.ttlSeconds) w.now d.failure)
  | .delete, [id] => w.operate n "revoke" (fun _ => .noContent none) (w.store.revoke id d.failure)
  | _, _ => w.answer n notFound

/-- Public assets pass without a cookie; anything else redirects to the login page. -/
def staticFiles (req : Request) (path : List Char) : Reply :=
  if path = "/connect.html".toList then notFound
  else if ¬ publicPath path ∧ (w.session env req).isNone then .redirect 303 "/login.html".toList
  else if "/index.html".toList.isSuffixOf path then .redirect 301 "./".toList
  else .handed .staticFiles (w.session env req)

/-- The handler, or what it leaves to be done. -/
def handler (req : Request) (path : List Char) (target : Handler) : World × (Reply ⊕ Job) :=
  match target with
  | .login =>
    match Limiter.blockedAt env.limiter w.limiter (env.ip req) w.clock with
    | (inner, true) =>
      ({ w with limiter := inner }, .inl (.error 429 "too many failed attempts" (some 900)))
    | (inner, false) => ({ w with limiter := inner }, .inr (.login (env.ip req) req))
  | .logout => (w, .inl (.noContent (some (clearCookie env))))
  | .presence | .ws _ | .appConfig | .upload | .download _ =>
    match w.session env req with
    | none => (w, .inl (.error 401 "unauthorized" none))
    | some sess => (w, .inl (.handed target (some sess)))
  | .admin rest =>
    if ¬ w.isAdmin env req then (w, .inl (.error 403 "forbidden" none))
    else (w, .inr (.admin req.method (rest.map param) req w.now))
  | .staticFiles => (w, .inl (w.staticFiles env req path))
  | .desktopManifest | .desktopDownloadWindows | .desktopFile _ | .health | .version =>
    (w, .inl (.handed target none))

def route (req : Request) : World × (Reply ⊕ Job) :=
  match Http.route req.method req.target with
  | .redirect loc => (w, .inl (.redirect 301 loc))
  | .panics => (w, .inl .dropped)
  | .dispatch path target => w.handler env req path target

/-- The /api rate limit, then routing. -/
def handle (req : Request) (ord : Order) : World × (Reply ⊕ Job) :=
  if "/api/".toList.isPrefixOf req.target.path then
    match Ratelimit.allowAt env.apiLimiter ord w.buckets (env.ip req) (w.clock / 1000000000) with
    | (buckets, .ok ()) => { w with buckets := buckets }.route env req
    | (buckets, .error retry) =>
      ({ w with buckets := buckets },
        .inl (.error 429 "rate limited" (if retry = 0 then none else some (max ⌈retry⌉.toNat 1))))
  else w.route env req

/-- A restart reads the file again. -/
def step : Event → Option World
  | .request n req ord =>
    if (w.jobs.lookup n).isSome then none
    else
      match w.handle env req ord with
      | (w, .inl r) => some (w.answer n r)
      | (w, .inr job) => some { w with jobs := AList.insert n job w.jobs }
  | .resume n d =>
    match w.jobs.lookup n with
    | none => none
    | some (.login ip req) => some (w.login env n ip req)
    | some (.verify ip pass entries taken) => some (w.verify env n ip pass entries taken)
    | some (.admin method rest req _) => some (w.admin env n method rest (adminBody env req) d)
  | .hangUp n => some { w with jobs := AList.erase n w.jobs }
  | .tick now d => some { w with now := now, clock := w.clock + d }
  | .restart adminHash =>
    some { w with
      adminHash := adminHash, store := .load w.store.file, limiter := ⟨∅, none⟩, buckets := ∅
      jobs := ∅, signed := w.signed ++ [adminPayload adminHash], hashes := w.hashes ++ [adminHash] }

end Source

end World

end VoiceHub.Http
