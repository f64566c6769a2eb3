import Mathlib
import VoiceHub.Lib.Text
import VoiceHub.Auth.ConnPass

/-!
Signed session cookies, `<exp>:<role>:<gen>:<adminVer>:<entryID>.<sig>`, and when a request
that carries one is let in.
-/

namespace VoiceHub.Auth.SessionCookie

open VoiceHub.Lib.Text VoiceHub.Auth.ConnPass

def COOKIE_NAME : List Char := "vh_session".toList

/-- In nanoseconds. -/
def SESSION_TTL : ℕ := 30 * 24 * 3600 * 1000000000

inductive Role
  | admin
  | user
deriving DecidableEq, Repr

def Role.asStr : Role → List Char
  | .admin => "admin".toList
  | .user => "user".toList

structure Session where
  role : Role
  generation : UInt64
  adminVersion : String
  entryId : String
deriving DecidableEq, Repr

/-- `sign` under some secret: base64url, which has no dots. -/
structure Signer where
  sign : List Char → List Char
  clean : ∀ payload, '.' ∉ sign payload

/-- Whole seconds since the epoch, none before it. -/
def unixSecs (t : SystemTime) : Int64 := .ofInt (max t 0 / 1000000000)

/-- The double quote. -/
def quote : Char := .ofNat 34

section Cookie

variable (k : Signer)

/-- Encodes with an absolute expiry. -/
def encodeAt (role : Role) (gen : UInt64) (adminVer entryId : String) (exp : Int64) : List Char :=
  let payload := formatI64 exp ++ ':' :: (role.asStr ++ ':' :: (formatU64 gen ++ ':' ::
    (adminVer.toList ++ ':' :: entryId.toList)))
  payload ++ '.' :: k.sign payload

def encode (role : Role) (gen : UInt64) (adminVer entryId : String) (now : SystemTime) :
    List Char :=
  encodeAt k role gen adminVer entryId (unixSecs (now + SESSION_TTL))

def Role.parse (s : List Char) : Option Role :=
  if s = "admin".toList then some .admin else if s = "user".toList then some .user else none

/-- The comparison of signatures in constant time is equality. -/
def decode (value : List Char) (now : SystemTime) : Option Session := do
  let (payload, sig) ← rsplitOnce '.' value
  if sig ≠ k.sign payload then none
  else
    match splitN ':' 5 payload with
    | [exp, role, gen, adminVer, entryId] =>
      let exp ← parseI64 exp
      let role ← Role.parse role
      let generation ← parseU64 gen
      if exp < unixSecs now then none
      else some ⟨role, generation, .ofList adminVer, .ofList entryId⟩
    | _ => none

/-- A cookie's value in a list of raw `Cookie` headers. -/
def cookieValue (headers : List (List Char)) (name : List Char) : Option (List Char) :=
  let kvs := (headers.flatMap (List.splitOn ';')).filterMap fun kv => splitOnce '=' (trim kv)
  (kvs.find? fun kv => kv.1 = name).map fun kv =>
    ((kv.2.dropWhile (· = quote)).reverse.dropWhile (· = quote)).reverse

def fromHeaders (headers : List (List Char)) (now : SystemTime) : Option Session :=
  (cookieValue headers COOKIE_NAME).bind fun value => decode k value now

/-- The request's session if it is valid and not stale. -/
def validSession (connPass : Store) (adminVer : String) (headers : List (List Char))
    (now : SystemTime) : Option Session :=
  (fromHeaders k headers now).filter fun sess =>
    match sess.role with
    | .user => connPass.entryGeneration sess.entryId now = some sess.generation
    | .admin => sess.adminVersion = adminVer

end Cookie

section Lemmas

variable {k : Signer}

@[simp] lemma Role.parse_asStr (role : Role) : Role.parse role.asStr = some role := by
  cases role <;> decide

lemma colon_not_mem_asStr (role : Role) : ':' ∉ role.asStr := by
  cases role <;> decide

/-- What is signed. -/
def payload (role : Role) (gen : UInt64) (adminVer entryId : String) (exp : Int64) : List Char :=
  formatI64 exp ++ ':' :: (role.asStr ++ ':' :: (formatU64 gen ++ ':' ::
    (adminVer.toList ++ ':' :: entryId.toList)))

lemma encodeAt_eq (role : Role) (gen : UInt64) (adminVer entryId : String) (exp : Int64) :
    encodeAt k role gen adminVer entryId exp = payload role gen adminVer entryId exp ++
      '.' :: k.sign (payload role gen adminVer entryId exp) := rfl

lemma splitN_payload (role : Role) (gen : UInt64) {adminVer : String}
    (hver : ':' ∉ adminVer.toList) (entryId : String) (exp : Int64) :
    splitN ':' 5 (payload role gen adminVer entryId exp) =
      [formatI64 exp, role.asStr, formatU64 gen, adminVer.toList, entryId.toList] := by
  have hexp : ':' ∉ formatI64 exp := not_mem_formatI64 (by decide) (by decide) exp
  have hgen : ':' ∉ formatU64 gen := not_mem_formatU64 (by decide) gen
  rw [payload, splitN_append hexp, splitN_append (colon_not_mem_asStr role), splitN_append hgen,
    splitN_append hver, splitN]

/-- A cookie is read back as it was issued, until it expires. -/
theorem decode_encodeAt (role : Role) (gen : UInt64) {adminVer : String}
    (hver : ':' ∉ adminVer.toList) (entryId : String) (exp : Int64) (now : SystemTime) :
    decode k (encodeAt k role gen adminVer entryId exp) now =
      if exp < unixSecs now then none else some ⟨role, gen, adminVer, entryId⟩ := by
  rw [decode, encodeAt_eq, rsplitOnce_append (k.clean _)]
  simp only [Option.bind_eq_bind, Option.bind_some, ne_eq, not_true_eq_false, if_false]
  rw [splitN_payload role gen hver]
  simp only [parseI64_format, Role.parse_asStr, parseU64_format, Option.bind_some,
    String.ofList_toList]

lemma payload_inj {role role' : Role} {gen gen' : UInt64} {adminVer adminVer' : String}
    (hver : ':' ∉ adminVer.toList) (hver' : ':' ∉ adminVer'.toList) {entryId entryId' : String}
    {exp exp' : Int64}
    (h : payload role gen adminVer entryId exp = payload role' gen' adminVer' entryId' exp') :
    (role, gen, adminVer, entryId, exp) = (role', gen', adminVer', entryId', exp') := by
  have hfields := congrArg (splitN ':' 5) h
  rw [splitN_payload role gen hver, splitN_payload role' gen' hver'] at hfields
  simp only [List.cons.injEq, and_true] at hfields
  obtain ⟨hexp, hrole, hgen, hadmin, hentry⟩ := hfields
  have hexp' : exp = exp' := by
    have := congrArg parseI64 hexp
    rw [parseI64_format, parseI64_format] at this
    exact Option.some.inj this
  have hrole' : role = role' := by
    have := congrArg Role.parse hrole
    rw [Role.parse_asStr, Role.parse_asStr] at this
    exact Option.some.inj this
  have hgen' : gen = gen' := by
    have := congrArg parseU64 hgen
    rw [parseU64_format, parseU64_format] at this
    exact Option.some.inj this
  rw [hexp', hrole', hgen', String.toList_inj.mp hadmin, String.toList_inj.mp hentry]

lemma payload_of_encodeAt {k' : Signer} {role role' : Role} {gen gen' : UInt64}
    {adminVer adminVer' entryId entryId' : String} {exp exp' : Int64}
    (h : encodeAt k role gen adminVer entryId exp =
      encodeAt k' role' gen' adminVer' entryId' exp') :
    payload role gen adminVer entryId exp = payload role' gen' adminVer' entryId' exp' := by
  have hsplit := congrArg (rsplitOnce '.') h
  rw [encodeAt_eq, encodeAt_eq, rsplitOnce_append (k.clean _), rsplitOnce_append (k'.clean _)]
    at hsplit
  exact (Prod.mk.inj (Option.some.inj hsplit)).1

/-- **Cookies round-trip**: an unexpired one is read back as it was issued, and no two that
were issued with different fields are the same or have the same payload. -/
theorem round_trip (k : Signer) (role : Role) (gen : UInt64) {adminVer : String}
    (hver : ':' ∉ adminVer.toList) (entryId : String) {exp : Int64} {now : SystemTime}
    (hexp : unixSecs now ≤ exp) :
    decode k (encodeAt k role gen adminVer entryId exp) now =
        some ⟨role, gen, adminVer, entryId⟩ ∧
      ∀ (k' : Signer) (role' : Role) (gen' : UInt64) (adminVer' entryId' : String) (exp' : Int64),
        ':' ∉ adminVer'.toList →
        (payload role gen adminVer entryId exp = payload role' gen' adminVer' entryId' exp' ∨
          encodeAt k role gen adminVer entryId exp =
            encodeAt k' role' gen' adminVer' entryId' exp') →
        (role, gen, adminVer, entryId, exp) = (role', gen', adminVer', entryId', exp') := by
  refine ⟨?_, fun k' role' gen' adminVer' entryId' exp' hver' h => ?_⟩
  · rw [decode_encodeAt role gen hver, if_neg (Int64.not_lt.mpr hexp)]
  · rcases h with h | h
    · exact payload_inj hver hver' h
    · exact payload_inj hver hver' (payload_of_encodeAt h)

/-- The entry's id has both separators in it. -/
theorem round_trip_separators :
    decode ⟨fun p => [if p.length % 2 = 0 then 'A' else 'B'], fun p => by split <;> decide⟩
        (encodeAt ⟨fun p => [if p.length % 2 = 0 then 'A' else 'B'], fun p => by split <;> decide⟩
          .user 7 "av" "a:b.c" 100) 100000000000 =
      some ⟨.user, 7, "av", "a:b.c"⟩ :=
  (round_trip _ .user 7 (by decide) "a:b.c" (by decide)).1

end Lemmas

end VoiceHub.Auth.SessionCookie
