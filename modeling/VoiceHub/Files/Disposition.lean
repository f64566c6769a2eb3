import Mathlib
import VoiceHub.Lib.HashMap
import VoiceHub.Lib.Percent
import VoiceHub.Lib.Text

/-!
The file name in a `Content-Disposition` header: how downloads and the frontend's uploads
write it, and how an upload reads it.

A header may hold the name twice, in ASCII and percent-encoded; the encoded form is the one
that counts.
-/

namespace VoiceHub.Files

open VoiceHub.Lib VoiceHub.Lib.Text

/-- The double quote. -/
def dquote : Char := .ofNat 0x22

def backslash : Char := .ofNat 0x5c

/-- The single quote. -/
def squote : Char := .ofNat 0x27

/-! ### Writing a name -/

def goQuoteChar (c : Char) : List Char :=
  if c = dquote then [backslash, dquote]
  else if c = backslash then [backslash, backslash]
  else if c = '\n' then [backslash, 'n']
  else if c = '\r' then [backslash, 'r']
  else if c = '\t' then [backslash, 't']
  else if c.toNat < 0x20 ∨ c.toNat = 0x7f then
    [backslash, 'x', Nat.digitChar (c.toNat / 16), Nat.digitChar (c.toNat % 16)]
  else [c]

/-- `strconv.Quote` for the characters that matter in header values. -/
def goQuote (s : List Char) : List Char := dquote :: (s.flatMap goQuoteChar ++ [dquote])

def alphanumeric (c : UInt8) : Bool :=
  (0x30 ≤ c && c ≤ 0x39) || (0x41 ≤ c && c ≤ 0x5a) || (0x61 ≤ c && c ≤ 0x7a)

/-- The byte of an ASCII character of `marks`. -/
def mark (marks : String) (c : UInt8) : Bool := (Percent.utf8 marks.toList).contains c

def pathKeep (c : UInt8) : Bool := alphanumeric c || mark "-_.~$&+=:@" c

/-- `url.PathEscape`: escapes everything outside unreserved and a few sub-delims. -/
def pathEscape (s : List Char) : List Char := Percent.escape pathKeep (Percent.utf8 s)

def asciiChar (c : Char) : Char :=
  if c.toNat < 0x20 ∨ 0x7e < c.toNat ∨ c = dquote ∨ c = backslash then '_' else c

/-- ASCII-safe filename plus the RFC 5987 UTF-8 form. -/
def contentDisposition (disposition filename : List Char) : List Char :=
  if filename = [] then disposition
  else disposition ++ "; filename=".toList ++ goQuote (filename.map asciiChar) ++
    "; filename*=UTF-8".toList ++ [squote, squote] ++ pathEscape filename

/-- Of the frontend. -/
def uriKeep (c : UInt8) : Bool := alphanumeric c || mark "-_.!~*'()" c

def encodeURIComponent (s : List Char) : List Char := Percent.escape uriKeep (Percent.utf8 s)

/-- The header of the frontend's `uploadFile`. -/
def uploadHeader (name : List Char) : List Char :=
  "attachment; filename*=UTF-8".toList ++ [squote, squote] ++ encodeURIComponent name

/-! ### Reading it -/

/-- The scan that splits a header at its semicolons. -/
structure Split where
  out : List (List Char)
  cur : List Char
  quoted : Bool
  escaped : Bool

def Split.step (s : Split) (c : Char) : Split :=
  if s.escaped then { s with cur := s.cur ++ [c], escaped := false }
  else if c = backslash ∧ s.quoted then { s with cur := s.cur ++ [c], escaped := true }
  else if c = dquote then { s with cur := s.cur ++ [c], quoted := !s.quoted }
  else if c = ';' ∧ !s.quoted then { s with out := s.out ++ [s.cur], cur := [] }
  else { s with cur := s.cur ++ [c] }

def splitParams (s : List Char) : Option (List (List Char)) :=
  let e := s.foldl Split.step ⟨[], [], false, false⟩
  if e.quoted then none else some (e.out ++ [e.cur])

def unescapeQuoted : List Char → List Char
  | [] => []
  | c :: s =>
    if c = backslash then
      match s with
      | [] => []
      | c :: s => c :: unescapeQuoted s
    else c :: unescapeQuoted s

def toAsciiLowercase (s : List Char) : List Char := s.map Char.toLower

/-- `charset'lang'percent-encoded` (RFC 2231). Only UTF-8 and US-ASCII. -/
def decodeExt (v : List Char) : Option (List Char) :=
  match splitN squote 3 v with
  | [charset, _lang, enc] => do
    let bytes ← Percent.decode (Percent.utf8 enc)
    if toAsciiLowercase charset ∈ ["utf-8".toList, "us-ascii".toList, []] then
      Percent.fromUtf8 bytes
    else none
  | _ => none

/-- `s.strip_prefix(c)`. -/
def stripPrefix (c : Char) : List Char → Option (List Char)
  | a :: s => if a = c then some s else none
  | [] => none

/-- `s.strip_suffix(c)`. -/
def stripSuffix (c : Char) (s : List Char) : Option (List Char) :=
  if s.getLast? = some c then some s.dropLast else none

/-- The value without its quotes. -/
def unquote (v : List Char) : List Char :=
  match (stripPrefix dquote v).bind (stripSuffix dquote) with
  | some inner => unescapeQuoted inner
  | none => v

abbrev Params := HashMap (List Char) (List Char)

/-- One parameter is read into the `plain` or the `ext` ones. -/
def parseParam (m : Params × Params) (p : List Char) : Option (Params × Params) :=
  let p := trim p
  if p = [] then some m
  else do
    let (k, v) ← splitOnce '=' p
    let k := toAsciiLowercase (trim k)
    let v := unquote (trim v)
    match stripSuffix '*' k with
    | some base =>
      let v ← decodeExt v
      return (m.1, AList.insert base v m.2)
    | none => return (AList.insert k v m.1, m.2)

def parseParams (header : List Char) : Option Params := do
  match ← splitParams header with
  | [] => none
  | media :: parts =>
    if trim media = [] then none
    else
      let m ← parts.foldlM parseParam (∅, ∅)
      return m.2 ∪ m.1

/-- The `filename` of a header. Malformed headers have the empty name. -/
def filenameFromContentDisposition (header : List Char) : List Char :=
  ((parseParams header).bind fun p => p.lookup "filename".toList).getD []

/-- Strips any path component so a name can't escape or mislead. -/
def sanitizeName (name : List Char) : List Char :=
  let name := (trim name).rtakeWhile fun c => c ≠ '/' ∧ c ≠ backslash
  if name = [] then "file".toList else name

/-! ### What is written -/

/-- Printable ASCII. -/
def Printable (c : Char) : Prop := 0x20 ≤ c.toNat ∧ c.toNat ≤ 0x7e

instance : DecidablePred Printable := fun _ => inferInstanceAs (Decidable (_ ∧ _))

/-- What a header's value may hold. -/
def HeaderValue (s : List Char) : Prop := ∀ c ∈ s, Printable c

instance : DecidablePred HeaderValue := List.decidableBAll _

/-- What may stand between quotes: every quote in it is escaped, and no escape is left open. -/
inductive Escaped : List Char → Prop
  | nil : Escaped []
  | char {c : Char} {s : List Char} (hq : c ≠ dquote) (hb : c ≠ backslash) (hs : Escaped s) :
    Escaped (c :: s)
  | escape (c : Char) {s : List Char} (hs : Escaped s) : Escaped (backslash :: c :: s)

/-- Neither blank nor a mark that the header's own syntax uses. -/
def Token (c : Char) : Prop :=
  Printable c ∧ c ≠ ' ' ∧ c ≠ ';' ∧ c ≠ dquote

instance : DecidablePred Token := fun _ => inferInstanceAs (Decidable (_ ∧ _))

/-- A text of such characters. -/
def Plain (s : List Char) : Prop := ∀ c ∈ s, Token c

instance : DecidablePred Plain := List.decidableBAll _

section Written

variable {c : Char} {s name : List Char}

lemma Escaped.append {t : List Char} (hs : Escaped s) (ht : Escaped t) : Escaped (s ++ t) := by
  induction hs with
  | nil => exact ht
  | char hq hb _ ih => exact .char hq hb ih
  | escape c _ ih => exact .escape c ih

lemma escaped_digits (n : ℕ) (h : n < 128) :
    Escaped [Nat.digitChar (n / 16), Nat.digitChar (n % 16)] := by
  have hplain : ∀ n < 16, Nat.digitChar n ≠ dquote ∧ Nat.digitChar n ≠ backslash := by
    decide +kernel
  obtain ⟨hq, hb⟩ := hplain (n / 16) (by omega)
  obtain ⟨hq', hb'⟩ := hplain (n % 16) (by omega)
  exact .char hq hb (.char hq' hb' .nil)

lemma escaped_goQuoteChar (c : Char) : Escaped (goQuoteChar c) := by
  unfold goQuoteChar
  split_ifs with hq hb _ _ _ hx
  · exact .escape _ .nil
  · exact .escape _ .nil
  · exact .escape _ .nil
  · exact .escape _ .nil
  · exact .escape _ .nil
  · exact .escape _ (escaped_digits _ (by omega))
  · exact .char hq hb .nil

/-- Whatever is quoted, its quotes are escaped. -/
theorem escaped_goQuote (s : List Char) : Escaped (s.flatMap goQuoteChar) := by
  induction s with
  | nil => exact .nil
  | cons c s ih =>
    rw [List.flatMap_cons]
    exact (escaped_goQuoteChar c).append ih

lemma printable_asciiChar (c : Char) : Printable (asciiChar c) := by
  unfold asciiChar
  split_ifs with h
  · decide
  · push Not at h
    exact ⟨h.1, h.2.1⟩

lemma goQuoteChar_asciiChar (c : Char) : goQuoteChar (asciiChar c) = [asciiChar c] := by
  obtain ⟨hlo, hhi⟩ := printable_asciiChar c
  have hq : asciiChar c ≠ dquote := by
    unfold asciiChar
    split_ifs with h
    · decide
    · exact fun hc => h (.inr (.inr (.inl hc)))
  have hb : asciiChar c ≠ backslash := by
    unfold asciiChar
    split_ifs with h
    · decide
    · exact fun hc => h (.inr (.inr (.inr hc)))
  have hctl (d : Char) (hd : d.toNat < 0x20) : asciiChar c ≠ d := by
    rintro rfl
    omega
  rw [goQuoteChar, if_neg hq, if_neg hb, if_neg (hctl _ (by decide)), if_neg (hctl _ (by decide)),
    if_neg (hctl _ (by decide)), if_neg (by omega)]

lemma flatMap_asciiChar (s : List Char) :
    (s.map asciiChar).flatMap goQuoteChar = s.map asciiChar := by
  induction s with
  | nil => rfl
  | cons c s ih =>
    rw [List.map_cons, List.flatMap_cons, ih, goQuoteChar_asciiChar, List.singleton_append]

lemma keepable_of_lt {keep : UInt8 → Bool}
    (h : ∀ n < 256, keep (.ofNat n) → n < 128 ∧ n ≠ 0x25) : Percent.Keepable keep where
  ascii b hb := by
    have hn := h b.toNat b.toNat_lt
    rw [UInt8.ofNat_toNat] at hn
    exact UInt8.lt_iff_toNat_lt.mpr (hn hb).1
  percent := by
    by_contra hne
    exact (h 0x25 (by decide) (by simpa using hne)).2 rfl

lemma keepable_path : Percent.Keepable pathKeep := keepable_of_lt (by decide +kernel)

lemma keepable_uri : Percent.Keepable uriKeep := keepable_of_lt (by decide +kernel)

lemma plain_escape {keep : UInt8 → Bool} {bytes : List UInt8}
    (h : ∀ n < 256, keep (.ofNat n) → Token (Percent.char (.ofNat n))) :
    Plain (Percent.escape keep bytes) := by
  refine Percent.forall_mem_escape (fun b hb => ?_) (by decide) (by decide +kernel)
  have hn := h b.toNat b.toNat_lt
  rw [UInt8.ofNat_toNat] at hn
  exact hn hb

lemma plain_pathEscape (name : List Char) : Plain (pathEscape name) :=
  plain_escape (by decide +kernel)

lemma plain_encodeURIComponent (name : List Char) : Plain (encodeURIComponent name) :=
  plain_escape (by decide +kernel)

lemma Plain.append {t : List Char} (hs : Plain s) (ht : Plain t) : Plain (s ++ t) := by
  intro c hc
  rcases List.mem_append.mp hc with h | h
  · exact hs c h
  · exact ht c h

lemma Plain.not_blank (h : Plain s) : ∀ c ∈ s, isWhitespace c = false := by
  intro c hc
  obtain ⟨⟨hlo, hhi⟩, hsp, -⟩ := h c hc
  have hne : c.toNat ≠ 0x20 := fun hn => hsp (Char.toNat_inj.mp hn)
  simp [isWhitespace]
  omega

end Written

/-! ### What is read -/

section Read

variable {c : Char} {s d enc name : List Char} {out : List (List Char)} {cur : List Char}

/-- Neither ends a parameter nor starts a quoted string. -/
def Bare (s : List Char) : Prop := ∀ c ∈ s, c ≠ ';' ∧ c ≠ dquote

instance : DecidablePred Bare := List.decidableBAll _

lemma Bare.append {t : List Char} (hs : Bare s) (ht : Bare t) : Bare (s ++ t) := by
  intro c hc
  rcases List.mem_append.mp hc with h | h
  · exact hs c h
  · exact ht c h

lemma Plain.bare (h : Plain s) : Bare s := fun c hc => ⟨(h c hc).2.2.1, (h c hc).2.2.2⟩

lemma foldl_bare (h : Bare s) (cur : List Char) :
    s.foldl Split.step ⟨out, cur, false, false⟩ = ⟨out, cur ++ s, false, false⟩ := by
  induction s generalizing cur with
  | nil => rw [List.foldl_nil, List.append_nil]
  | cons c s ih =>
    obtain ⟨hsemi, hq⟩ := h c List.mem_cons_self
    have hstep : Split.step ⟨out, cur, false, false⟩ c = ⟨out, cur ++ [c], false, false⟩ := by
      simp [Split.step, hsemi, hq]
    rw [List.foldl_cons, hstep, ih fun a ha => h a (List.mem_cons_of_mem c ha),
      List.append_assoc, List.singleton_append]

lemma foldl_escaped (h : Escaped s) (cur : List Char) :
    s.foldl Split.step ⟨out, cur, true, false⟩ = ⟨out, cur ++ s, true, false⟩ := by
  induction h generalizing cur with
  | nil => rw [List.foldl_nil, List.append_nil]
  | @char c s hq hb _ ih =>
    have hstep : Split.step ⟨out, cur, true, false⟩ c = ⟨out, cur ++ [c], true, false⟩ := by
      simp [Split.step, hq, hb]
    rw [List.foldl_cons, hstep, ih, List.append_assoc, List.singleton_append]
  | @escape c s _ ih =>
    have hopen : Split.step ⟨out, cur, true, false⟩ backslash =
        ⟨out, cur ++ [backslash], true, true⟩ := by
      simp [Split.step]
    have hclose : Split.step ⟨out, cur ++ [backslash], true, true⟩ c =
        ⟨out, cur ++ [backslash] ++ [c], true, false⟩ := by
      simp [Split.step]
    rw [List.foldl_cons, hopen, List.foldl_cons, hclose, ih]
    simp

lemma foldl_goQuote (s cur : List Char) :
    (goQuote s).foldl Split.step ⟨out, cur, false, false⟩ =
      ⟨out, cur ++ goQuote s, false, false⟩ := by
  have hopen : Split.step ⟨out, cur, false, false⟩ dquote =
      ⟨out, cur ++ [dquote], true, false⟩ := by
    simp [Split.step]
  have hclose (cur : List Char) : Split.step ⟨out, cur, true, false⟩ dquote =
      ⟨out, cur ++ [dquote], false, false⟩ := by
    have hne : dquote ≠ backslash := by decide
    simp [Split.step, hne]
  rw [goQuote, List.foldl_cons, hopen, List.foldl_append, foldl_escaped (escaped_goQuote s),
    List.foldl_cons, hclose, List.foldl_nil]
  simp

lemma step_semicolon : Split.step ⟨out, cur, false, false⟩ ';' =
    ⟨out ++ [cur], [], false, false⟩ := by
  have hq : (';' : Char) ≠ dquote := by decide
  simp [Split.step, hq]

/-- The parameter with the quoted name. -/
def plainParam (s : List Char) : List Char := ' ' :: ("filename=".toList ++ goQuote s)

/-- The parameter with the encoded name. -/
def extParam (enc : List Char) : List Char :=
  ' ' :: ("filename*=UTF-8".toList ++ [squote, squote] ++ enc)

lemma contentDisposition_eq (hn : name ≠ []) : contentDisposition d name =
    d ++ ';' :: (plainParam (name.map asciiChar) ++ ';' :: extParam (pathEscape name)) := by
  have hplain : "; filename=".toList = ';' :: ' ' :: "filename=".toList := rfl
  have hext : "; filename*=UTF-8".toList = ';' :: ' ' :: "filename*=UTF-8".toList := rfl
  rw [contentDisposition, if_neg hn, hplain, hext]
  simp only [plainParam, extParam, List.append_assoc, List.cons_append]

lemma uploadHeader_eq (name : List Char) :
    uploadHeader name = "attachment".toList ++ ';' :: extParam (encodeURIComponent name) := by
  have hext : "attachment; filename*=UTF-8".toList =
      "attachment".toList ++ ';' :: ' ' :: "filename*=UTF-8".toList := rfl
  unfold uploadHeader extParam
  rw [hext]
  simp only [List.append_assoc, List.cons_append]

lemma bare_extParam (h : Bare enc) : Bare (extParam enc) := by
  have hhead : Bare (' ' :: ("filename*=UTF-8".toList ++ [squote, squote])) := by decide
  exact hhead.append h

lemma foldl_plainParam (s cur : List Char) :
    (plainParam s).foldl Split.step ⟨out, cur, false, false⟩ =
      ⟨out, cur ++ plainParam s, false, false⟩ := by
  have hbare : Bare (' ' :: "filename=".toList) := by decide
  have happ : plainParam s = (' ' :: "filename=".toList) ++ goQuote s := rfl
  rw [happ, List.foldl_append, foldl_bare hbare, foldl_goQuote, List.append_assoc]

lemma splitParams_one (hd : Bare d) (henc : Bare enc) :
    splitParams (d ++ ';' :: extParam enc) = some [d, extParam enc] := by
  simp [splitParams, foldl_bare hd, step_semicolon, foldl_bare (bare_extParam henc)]

lemma splitParams_two (hd : Bare d) (s : List Char) (henc : Bare enc) :
    splitParams (d ++ ';' :: (plainParam s ++ ';' :: extParam enc)) =
      some [d, plainParam s, extParam enc] := by
  simp [splitParams, foldl_bare hd, step_semicolon, foldl_plainParam,
    foldl_bare (bare_extParam henc)]

lemma parseParam_plain (m : Params × Params) (s : List Char) : ∃ v,
    parseParam m (plainParam s) = some (AList.insert "filename".toList v m.1, m.2) := by
  have htrim : trim (plainParam s) = "filename".toList ++ '=' :: goQuote s := by
    have hends : "filename".toList ++ '=' :: goQuote s =
        'f' :: (("ilename=".toList ++ dquote :: s.flatMap goQuoteChar) ++ [dquote]) := by
      simp [goQuote]
    have happ : "filename=".toList ++ goQuote s = "filename".toList ++ '=' :: goQuote s := by
      simp
    rw [plainParam, trim_space (by decide), happ, hends, trim_ends (by decide) (by decide)]
  have hkey : toAsciiLowercase (trim "filename".toList) = "filename".toList := by decide
  have hsuffix : stripSuffix '*' "filename".toList = none := by decide
  refine ⟨unquote (trim (goQuote s)), ?_⟩
  have hne : "filename".toList ++ '=' :: goQuote s ≠ [] := by simp
  simp only [parseParam, htrim, if_neg hne, splitOnce_append (by decide : '=' ∉ "filename".toList),
    Option.bind_eq_bind, Option.bind_some, hkey, hsuffix]
  rfl

lemma decodeExt_utf8 (h : Percent.decode (Percent.utf8 enc) = some (Percent.utf8 name)) :
    decodeExt ("UTF-8".toList ++ squote :: squote :: enc) = some name := by
  have hparts : splitN squote 3 ("UTF-8".toList ++ squote :: squote :: enc) =
      ["UTF-8".toList, [], enc] := by
    rw [splitN_append (by decide), ← List.nil_append (squote :: enc), splitN_append (by simp),
      splitN]
  have hcharset : toAsciiLowercase "UTF-8".toList ∈ ["utf-8".toList, "us-ascii".toList, []] := by
    decide
  simp only [decodeExt, hparts, h, Option.bind_eq_bind, Option.bind_some, if_pos hcharset,
    Percent.fromUtf8_utf8]

lemma parseParam_ext (ht : Plain enc)
    (h : Percent.decode (Percent.utf8 enc) = some (Percent.utf8 name)) (m : Params × Params) :
    parseParam m (extParam enc) = some (m.1, AList.insert "filename".toList name m.2) := by
  have hvalue : Plain ("UTF-8".toList ++ squote :: squote :: enc) := by
    have hhead : Plain ("UTF-8".toList ++ [squote, squote]) := by decide
    have happ : "UTF-8".toList ++ squote :: squote :: enc =
        ("UTF-8".toList ++ [squote, squote]) ++ enc := by
      simp
    rw [happ]
    exact hhead.append ht
  have hpart : "filename*=UTF-8".toList ++ [squote, squote] ++ enc =
      "filename*".toList ++ '=' :: ("UTF-8".toList ++ squote :: squote :: enc) := by
    simp
  have hall : Plain ("filename*".toList ++ '=' :: ("UTF-8".toList ++ squote :: squote :: enc)) := by
    have hkey : Plain ("filename*".toList ++ ['=']) := by decide
    rw [List.append_cons]
    exact hkey.append hvalue
  have htrim : trim (extParam enc) =
      "filename*".toList ++ '=' :: ("UTF-8".toList ++ squote :: squote :: enc) := by
    rw [extParam, trim_space (by decide), hpart, trim_of_forall hall.not_blank]
  have hne : "filename*".toList ++ '=' :: ("UTF-8".toList ++ squote :: squote :: enc) ≠ [] := by
    simp
  have hkey : stripSuffix '*' (toAsciiLowercase (trim "filename*".toList)) =
      some "filename".toList := by
    decide
  have hquote : unquote ("UTF-8".toList ++ squote :: squote :: enc) =
      "UTF-8".toList ++ squote :: squote :: enc := by
    have hU : 'U' ≠ dquote := by decide
    simp [unquote, stripPrefix, hU]
  have hv : trim ("UTF-8".toList ++ squote :: squote :: enc) =
      "UTF-8".toList ++ squote :: squote :: enc :=
    trim_of_forall hvalue.not_blank
  simp only [parseParam, htrim, if_neg hne,
    splitOnce_append (by decide : '=' ∉ "filename*".toList), Option.bind_eq_bind,
    Option.bind_some, hkey, hv, hquote, decodeExt_utf8 h]
  rfl

lemma filename_eq {p : Params} {v : List Char} (hparse : parseParams s = some p)
    (hname : p.lookup "filename".toList = some v) : filenameFromContentDisposition s = v := by
  rw [filenameFromContentDisposition, hparse, Option.bind_some, hname, Option.getD_some]

end Read

/-- The dispositions that are written. -/
def dispositions : List (List Char) := ["inline".toList, "attachment".toList]

section Header

variable {d name : List Char}

lemma bare_disposition (hd : d ∈ dispositions) : Bare d ∧ trim d ≠ [] ∧ HeaderValue d := by
  have hplain : Plain d := by
    rcases List.mem_pair.mp hd with rfl | rfl
    · decide
    · decide
  have hne : d ≠ [] := by
    rcases List.mem_pair.mp hd with rfl | rfl
    · decide
    · decide
  exact ⟨hplain.bare, by rwa [trim_of_forall hplain.not_blank], fun c hc => (hplain c hc).1⟩

lemma parseParams_upload (name : List Char) : ∃ m : Params,
    parseParams (uploadHeader name) = some m ∧ m.lookup "filename".toList = some name := by
  have hplain := plain_encodeURIComponent name
  obtain ⟨hbare, hne, -⟩ := bare_disposition (d := "attachment".toList) (by decide)
  have hext := parseParam_ext hplain (Percent.decode_escape keepable_uri _) (∅, ∅)
  refine ⟨AList.insert "filename".toList name ∅ ∪ ∅, ?_, ?_⟩
  · simp only [parseParams, uploadHeader_eq, splitParams_one hbare hplain.bare,
      Option.bind_eq_bind, Option.bind_some, if_neg hne, List.foldlM_cons, List.foldlM_nil, hext]
    rfl
  · rw [AList.lookup_union_left (AList.mem_insert _ |>.mpr (.inl rfl)), AList.lookup_insert]

lemma parseParams_contentDisposition (hn : name ≠ []) (hd : d ∈ dispositions) : ∃ m : Params,
    parseParams (contentDisposition d name) = some m ∧
      m.lookup "filename".toList = some name := by
  have hplain := plain_pathEscape name
  obtain ⟨hbare, hne, -⟩ := bare_disposition hd
  obtain ⟨v, hquoted⟩ := parseParam_plain (∅, ∅) (name.map asciiChar)
  have hext := parseParam_ext hplain (Percent.decode_escape keepable_path _)
    (AList.insert "filename".toList v ∅, ∅)
  refine ⟨AList.insert "filename".toList name ∅ ∪ AList.insert "filename".toList v ∅, ?_, ?_⟩
  · simp only [parseParams, contentDisposition_eq hn, splitParams_two hbare _ hplain.bare,
      Option.bind_eq_bind, Option.bind_some, if_neg hne, List.foldlM_cons, List.foldlM_nil,
      hquoted, hext]
    rfl
  · rw [AList.lookup_union_left (AList.mem_insert _ |>.mpr (.inl rfl)), AList.lookup_insert]

lemma contentDisposition_quoted (hn : name ≠ []) : contentDisposition d name =
    d ++ "; filename=".toList ++ dquote :: (name.map asciiChar ++ dquote ::
      ("; filename*=UTF-8".toList ++ [squote, squote] ++ pathEscape name)) := by
  rw [contentDisposition, if_neg hn, goQuote, flatMap_asciiChar]
  simp only [List.append_assoc, List.cons_append, List.nil_append]

lemma headerValue_contentDisposition (hn : name ≠ []) (hd : d ∈ dispositions) :
    HeaderValue (contentDisposition d name) := by
  obtain ⟨-, -, hdisp⟩ := bare_disposition hd
  have hascii : HeaderValue (name.map asciiChar) := by
    intro c hc
    obtain ⟨a, -, rfl⟩ := List.mem_map.mp hc
    exact printable_asciiChar a
  have hescaped : HeaderValue (pathEscape name) := fun c hc => (plain_pathEscape name c hc).1
  have hquote : Printable dquote := by decide
  have hfirst : HeaderValue "; filename=".toList := by decide
  have hsecond : HeaderValue ("; filename*=UTF-8".toList ++ [squote, squote]) := by decide
  rw [contentDisposition_quoted hn]
  refine List.forall_mem_append.mpr ⟨List.forall_mem_append.mpr ⟨hdisp, hfirst⟩, ?_⟩
  refine List.forall_mem_cons.mpr ⟨hquote, List.forall_mem_append.mpr ⟨hascii, ?_⟩⟩
  exact List.forall_mem_cons.mpr ⟨hquote, List.forall_mem_append.mpr ⟨hsecond, hescaped⟩⟩

/-- **The name comes through.** Both headers are read as the name they were written for. What is
written for a download is printable, with every quote between the quotes escaped. -/
theorem disposition_round_trip (hn : name ≠ []) (hd : d ∈ dispositions) :
    filenameFromContentDisposition (contentDisposition d name) = name ∧
    filenameFromContentDisposition (uploadHeader name) = name ∧
    HeaderValue (contentDisposition d name) ∧
    ∃ inner, Escaped inner ∧ contentDisposition d name =
      d ++ "; filename=".toList ++ dquote :: (inner ++ dquote ::
        ("; filename*=UTF-8".toList ++ [squote, squote] ++ pathEscape name)) := by
  obtain ⟨m, hparse, hname⟩ := parseParams_contentDisposition hn hd
  obtain ⟨m', hparse', hname'⟩ := parseParams_upload name
  have hinner : Escaped (name.map asciiChar) := by
    rw [← flatMap_asciiChar]
    exact escaped_goQuote _
  exact ⟨filename_eq hparse hname, filename_eq hparse' hname', headerValue_contentDisposition hn hd,
    name.map asciiChar, hinner, contentDisposition_quoted hn⟩

/-- A name with a quote, a backslash, a percent sign and a control character, between blanks. -/
theorem disposition_round_trip_marks :
    let name := [' ', dquote, backslash, '%', .ofNat 7, squote, .ofNat 0x444, ';', ' ']
    filenameFromContentDisposition (contentDisposition "inline".toList name) = name ∧
    filenameFromContentDisposition (uploadHeader name) = name ∧
    HeaderValue (contentDisposition "inline".toList name) ∧
    ∃ inner, Escaped inner ∧ contentDisposition "inline".toList name =
      "inline".toList ++ "; filename=".toList ++ dquote :: (inner ++ dquote ::
        ("; filename*=UTF-8".toList ++ [squote, squote] ++ pathEscape name)) :=
  disposition_round_trip (List.cons_ne_nil _ _) List.mem_cons_self

end Header

end VoiceHub.Files
