import Mathlib
import VoiceHub.Auth.Limiter
import VoiceHub.Auth.Password
import VoiceHub.Auth.SessionCookie
import VoiceHub.Http.ClientIp
import VoiceHub.Http.Ratelimit
import VoiceHub.Http.Route
import VoiceHub.Lib.Form

/-!
What the login and the admin's handlers read of a request, and the cookies they set.
-/

namespace VoiceHub.Http

open VoiceHub.Lib VoiceHub.Lib.Form VoiceHub.Lib.Text VoiceHub.Lib.Percent
open VoiceHub.Auth VoiceHub.Auth.ConnPass VoiceHub.Auth.SessionCookie

/-! ### Requests -/

structure Request where
  method : Method
  target : Target
  peer : Ip.IpAddr
  xForwardedFor : Option (List UInt8)
  /-- The `Cookie` headers. -/
  cookies : List (List UInt8)
  contentType : Option (List UInt8)
  /-- None where reading it fails. -/
  body : Option (List UInt8)

/-- A part of a multipart form. -/
structure Part where
  fileName : Option (List Char)
  name : Option (List Char)
  text : List Char

structure AdminBody where
  label : String
  ttlSeconds : Int64
  deriving DecidableEq

instance : Inhabited AdminBody := ⟨⟨"", 0⟩⟩

/-- What the server is given: its settings, and what other libraries do. -/
structure Env where
  argon2 : Password.Argon2
  /-- HMAC-SHA256 under the session secret. -/
  mac : List UInt8 → List UInt8
  httpDate : SystemTime → List Char
  cookieSecure : Bool
  trustedProxies : List Prefix
  limiter : Limiter.AuthLimiter
  apiLimiter : Ratelimit.Config
  /-- The parts of a multipart body of a content type, up to `MAX_FORM_BYTES`. -/
  multer : List Char → Option (List UInt8) → Option (List Part)
  json : List UInt8 → Option AdminBody

/-- Go's cap on urlencoded bodies. -/
def MAX_FORM_BYTES : ℕ := 10 <<< 20

/-- In nanoseconds. -/
def MAX_CONN_PASS_TTL : ℕ := 366 * 24 * 3600 * 1000000000

def readBody (req : Request) (limit : ℕ) : Option (List UInt8) :=
  req.body.filter fun body => body.length ≤ limit

def contentType (req : Request) : List Char := (req.contentType.bind toStr).getD []

/-- The first value of each field that is not a file. -/
def addPart (out : Pairs) (part : Part) : Pairs :=
  if part.fileName.isSome then out
  else if (out.lookup (part.name.getD [])).isSome then out
  else AList.insert (part.name.getD []) part.text out

section Source

variable (env : Env)

/-- Urlencoded and multipart bodies. -/
def postForm (req : Request) : Option Pairs :=
  let ct := contentType req
  let media := (trim ((ct.splitOn ';').headD [])).map Char.toLower
  if media = "application/x-www-form-urlencoded".toList then
    (readBody req MAX_FORM_BYTES).map fun body => parseForm (fromUtf8Lossy body)
  else if media = "multipart/form-data".toList then
    (env.multer ct req.body).map fun parts => parts.foldl addPart ∅
  else some ∅

/-- JSON or a form. Malformed input yields defaults. -/
def adminBody (req : Request) : AdminBody :=
  if "application/json".toList.isPrefixOf (contentType req) then
    (env.json ((readBody req MAX_FORM_BYTES).getD [])).getD default
  else
    let form := (postForm env req).getD ∅
    ⟨.ofList ((form.lookup "label".toList).getD []),
      ((form.lookup "ttl_seconds".toList).bind parseI64).getD 0⟩

/-- 0 is never, and less is disabled now. -/
def ttlFromSeconds (s : Int64) : Ttl :=
  if s = 0 then .never
  else if s < 0 then .disabled
  else .lasting (min (s.toInt.toNat * 1000000000) MAX_CONN_PASS_TTL)

/-! ### Cookies -/

def Env.signer : Signer where
  sign payload := Base64.encode Base64.url (env.mac (utf8 payload))
  clean _ h := by
    have hchars : '.' ∉ Base64.url.chars := by decide +kernel
    exact hchars (Base64.mem_encode h)

def adminPayload (passwordHash : String) : List Char :=
  "admin-password:v2:".toList ++ passwordHash.toList

/-- Fingerprint of the admin's password hash. -/
def Env.adminPasswordVersion (passwordHash : String) : String :=
  .ofList (env.signer.sign (adminPayload passwordHash))

def cookieHeader (value lifetime : List Char) : List Char :=
  COOKIE_NAME ++ '=' :: value ++ "; Path=/; ".toList ++ lifetime ++ "; HttpOnly".toList ++
    (if env.cookieSecure then "; Secure".toList else []) ++ "; SameSite=Strict".toList

/-- `Set-Cookie` value for a fresh session. -/
def sessionCookie (role : Role) (gen : UInt64) (adminVer entryId : String) (now : SystemTime) :
    List Char :=
  cookieHeader env (encode env.signer role gen adminVer entryId now)
    ("Expires=".toList ++ env.httpDate (now + SESSION_TTL) ++ "; Max-Age=".toList ++
      formatNat (SESSION_TTL / 1000000000))

/-- `Set-Cookie` that clears the session. -/
def clearCookie : List Char := cookieHeader env [] "Max-Age=0".toList

/-- `password::verify(hash, plain)`. -/
def Env.check (hash plain : String) : Bool := Password.verify env.argon2 hash.toList plain.toList

end Source

/-! ### A cookie goes to the browser and comes back -/

/-- The pair a browser keeps of a `Set-Cookie`, and sends. -/
def sent (setCookie : List Char) : List UInt8 := utf8 (setCookie.takeWhile (· ≠ ';'))

/-- A character that is visible, and means nothing in a cookie. -/
def Plain (c : Char) : Prop := 0x21 ≤ c.toNat ∧ c.toNat < 0x7f ∧ c ≠ ';' ∧ c ≠ quote

instance : DecidablePred Plain := fun _ => inferInstanceAs (Decidable (_ ∧ _))

section Lemmas

variable {env : Env} {s value : List Char} {c : Char}

lemma Plain.byte (h : Plain c) : String.utf8EncodeChar c = [.ofNat c.toNat] ∧
    visibleAscii (.ofNat c.toNat) = true ∧ Percent.char (.ofNat c.toNat) = c ∧
    isWhitespace c = false := by
  have htable : ∀ n < 0x7f, 0x21 ≤ n → String.utf8EncodeChar (.ofNat n) = [.ofNat n] ∧
      visibleAscii (.ofNat n) = true ∧ Percent.char (.ofNat n) = .ofNat n ∧
      isWhitespace (.ofNat n) = false := by
    decide +kernel
  have hc := htable c.toNat h.2.1 h.1
  rwa [Char.ofNat_toNat] at hc

lemma toStr_utf8 (h : ∀ c ∈ s, Plain c) : toStr (utf8 s) = some s := by
  have hboth : (utf8 s).all visibleAscii = true ∧ text (utf8 s) = s := by
    induction s with
    | nil => exact ⟨rfl, rfl⟩
    | cons c s ih =>
      obtain ⟨hbyte, hvis, hchar, -⟩ := (h c List.mem_cons_self).byte
      obtain ⟨hall, htext⟩ := ih fun c hc => h c (List.mem_cons_of_mem _ hc)
      rw [utf8_cons, hbyte]
      refine ⟨?_, ?_⟩
      · rw [List.singleton_append, List.all_cons, hvis, hall, Bool.and_self]
      · rw [text, List.singleton_append, List.map_cons, hchar]
        exact congrArg _ htext
  rw [toStr, if_pos hboth.1, hboth.2]

lemma plain_of_all (h : s.all (fun c => decide (Plain c)) = true) : ∀ c ∈ s, Plain c :=
  fun c hc => of_decide_eq_true (List.all_eq_true.mp h c hc)

lemma plain_name : ∀ c ∈ COOKIE_NAME, Plain c := plain_of_all rfl

lemma plain_pair (h : ∀ c ∈ value, Plain c) : ∀ c ∈ COOKIE_NAME ++ '=' :: value, Plain c := by
  intro c hc
  rcases List.mem_append.mp hc with hc | hc
  · exact plain_name c hc
  · rcases List.mem_cons.mp hc with rfl | hc
    · decide
    · exact h c hc

lemma cookieValue_pair (h : ∀ c ∈ value, Plain c) :
    cookieValue [COOKIE_NAME ++ '=' :: value] COOKIE_NAME = some value := by
  have hplain := plain_pair h
  have hsplit : (COOKIE_NAME ++ '=' :: value).splitOn ';' = [COOKIE_NAME ++ '=' :: value] :=
    List.splitOn_eq_singleton fun hmem => (hplain _ hmem).2.2.1 rfl
  have htrim : trim (COOKIE_NAME ++ '=' :: value) = COOKIE_NAME ++ '=' :: value :=
    trim_of_forall fun c hc => (hplain c hc).byte.2.2.2
  have honce : splitOnce '=' (COOKIE_NAME ++ '=' :: value) = some (COOKIE_NAME, value) :=
    splitOnce_append (by decide)
  have hquote (s : List Char) (hs : ∀ c ∈ s, Plain c) :
      s.dropWhile (fun c => decide (c = quote)) = s := by
    cases s with
    | nil => rfl
    | cons c s =>
      have hc : c ≠ quote := (hs c List.mem_cons_self).2.2.2
      rw [List.dropWhile_cons_of_neg (by simpa using hc)]
  simp only [cookieValue, List.flatMap_cons, List.flatMap_nil, List.append_nil, hsplit,
    List.filterMap_cons, htrim, honce, List.filterMap_nil]
  rw [List.find?_cons_of_pos (by simp), Option.map_some, hquote _ h,
    hquote _ fun c hc => h c (List.mem_reverse.mp hc), List.reverse_reverse]

/-- **A plain value comes back** from the browser as it was set. -/
lemma cookieValue_sent (h' : ∀ c ∈ value, Plain c) (lifetime : List Char) :
    cookieValue ([sent (cookieHeader env value lifetime)].filterMap toStr) COOKIE_NAME =
      some value := by
  have hpath : "; Path=/; ".toList = ';' :: " Path=/; ".toList := by decide
  have htake : (cookieHeader env value lifetime).takeWhile (· ≠ ';') =
      COOKIE_NAME ++ '=' :: value := by
    rw [cookieHeader, hpath, List.append_assoc, List.append_assoc, List.append_assoc,
      List.append_assoc, List.cons_append]
    exact takeWhile_sep fun h => (plain_pair h' _ h).2.2.1 rfl
  rw [sent, htake, List.filterMap_cons_some (toStr_utf8 (plain_pair h')), List.filterMap_nil,
    cookieValue_pair h']

lemma plain_sign (payload : List Char) : ∀ c ∈ env.signer.sign payload, Plain c := by
  have hchars : ∀ c ∈ Base64.url.chars, Plain c := plain_of_all rfl
  exact fun c hc => hchars c (Base64.mem_encode hc)

lemma colon_not_mem_sign (payload : List Char) : ':' ∉ env.signer.sign payload := by
  have hchars : ':' ∉ Base64.url.chars := by decide +kernel
  exact fun h => hchars (Base64.mem_encode h)

lemma plain_digit (h : c.isDigit) : Plain c := by
  rw [Char.isDigit, Bool.and_eq_true, decide_eq_true_eq, decide_eq_true_eq] at h
  have hlo : 48 ≤ c.toNat := h.1
  have hhi : c.toNat ≤ 57 := h.2
  have htable : ∀ n ≤ 57, 48 ≤ n → Plain (.ofNat n) := by decide
  have hc := htable c.toNat hhi hlo
  rwa [Char.ofNat_toNat] at hc

lemma plain_formatI64 (i : Int64) : ∀ c ∈ formatI64 i, Plain c := by
  intro c hc
  rw [formatI64] at hc
  split_ifs at hc
  · rcases List.mem_cons.mp hc with rfl | hc
    · decide
    · exact plain_digit (isDigit_formatNat hc)
  · exact plain_digit (isDigit_formatNat hc)

lemma plain_hex (bytes : List UInt8) : ∀ c ∈ (hex bytes).toList, Plain c := by
  have hdigits : ∀ n < 16, Plain n.digitChar := by decide
  intro c hc
  rw [hex, String.toList_ofList] at hc
  obtain ⟨b, -, hb⟩ := List.mem_flatMap.mp hc
  have hlt := b.toNat_lt
  rcases List.mem_cons.mp hb with rfl | hb
  · exact hdigits _ (by omega)
  · rw [List.mem_singleton.mp hb]
    exact hdigits _ (by omega)

lemma plain_encodeAt (role : Role) (gen : UInt64) {adminVer entryId : String} (exp : Int64)
    (hver : ∀ c ∈ adminVer.toList, Plain c) (hid : ∀ c ∈ entryId.toList, Plain c) :
    ∀ c ∈ encodeAt env.signer role gen adminVer entryId exp, Plain c := by
  have hrole : ∀ c ∈ role.asStr, Plain c := by
    cases role <;> exact plain_of_all rfl
  have hgen : ∀ c ∈ formatU64 gen, Plain c := fun c hc => plain_digit (isDigit_formatNat hc)
  have hpayload : ∀ c ∈ payload role gen adminVer entryId exp, Plain c := by
    simp only [payload, List.forall_mem_append, List.forall_mem_cons]
    have hcolon : Plain ':' := by decide
    exact ⟨plain_formatI64 exp, hcolon, hrole, hcolon, hgen, hcolon, hver, hcolon, hid⟩
  rw [encodeAt_eq]
  simp only [List.forall_mem_append, List.forall_mem_cons]
  exact ⟨hpayload, by decide, plain_sign _⟩

end Lemmas

/-! ### The login form -/

/-- What the login page posts for a password. -/
def loginForm (pass : List Char) : List UInt8 := utf8 (serialize [("password".toList, pass)])

lemma postForm_loginForm (env : Env) {req : Request} {pass : List Char}
    (hct : req.contentType = some (utf8 "application/x-www-form-urlencoded".toList))
    (hbody : req.body = some (loginForm pass)) (hlen : (loginForm pass).length ≤ MAX_FORM_BYTES) :
    ∃ form, postForm env req = some form ∧ form.lookup "password".toList = some pass := by
  have hread : readBody req MAX_FORM_BYTES = some (loginForm pass) := by
    rw [readBody, hbody, Option.filter_some, if_pos (by simpa using hlen)]
  have hmedia : (trim (((contentType req).splitOn ';').headD [])).map Char.toLower =
      "application/x-www-form-urlencoded".toList := by
    rw [contentType, hct]
    decide +kernel
  refine ⟨parseForm (serialize [("password".toList, pass)]), ?_, ?_⟩
  · rw [postForm, if_pos hmedia, hread, Option.map_some, loginForm, fromUtf8Lossy_utf8]
  · rw [lookup_parseForm, List.lookup_cons_self]

end VoiceHub.Http
