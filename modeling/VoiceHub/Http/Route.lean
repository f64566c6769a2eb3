import Mathlib
import VoiceHub.Lib.Text

/-!
Which handler a request goes to, by its method and the segments of its path.

A path that is not in its canonical form is redirected there first, so that the handlers see
canonical paths only.
-/

namespace VoiceHub.Http

open VoiceHub.Lib

inductive Method
  | get
  | head
  | post
  | delete
  | connect
  | other (name : String)
  deriving DecidableEq

/-- What a request asks for. A path that is given starts with a slash, also the empty one after
an authority. -/
inductive Target
  | origin (rest : List Char) (query : Option (List Char))
  | absolute (authority rest : List Char) (query : Option (List Char))
  | asterisk
  | authority (authority : List Char)

/-- `uri.path()`. -/
def Target.path : Target → List Char
  | .origin rest _ | .absolute _ rest _ => '/' :: rest
  | .asterisk => ['*']
  | .authority _ => []

/-- `uri.query()`. -/
def Target.query : Target → Option (List Char)
  | .origin _ query | .absolute _ _ query => query
  | .asterisk | .authority _ => none

/-! ### The canonical path -/

def pushSeg (parts : List (List Char)) (seg : List Char) : List (List Char) :=
  if seg = [] ∨ seg = ['.'] then parts
  else if seg = ['.', '.'] then parts.dropLast
  else parts ++ [seg]

/-- A slash and the segments between slashes. -/
def rooted (parts : List (List Char)) : List Char := '/' :: ['/'].intercalate parts

/-- Go's `path.Clean` for URL paths (always rooted). -/
def cleanPath (p : List Char) : List Char :=
  let out := rooted ((p.splitOn '/').foldl pushSeg [])
  if p.getLast? = some '/' ∧ out ≠ ['/'] then out ++ ['/'] else out

/-- Starts with a slash and has no dot segments, and no empty segment but the one after a
trailing slash. -/
structure Canonical (p : List Char) : Prop where
  slash : p.head? = some '/'
  no_dots : ∀ seg ∈ p.tail.splitOn '/', seg ≠ ['.'] ∧ seg ≠ ['.', '.']
  no_empty : ∀ seg ∈ (p.tail.splitOn '/').dropLast, seg ≠ []

/-- What a canonical path is made of. -/
structure Proper (seg : List Char) : Prop where
  nonempty : seg ≠ []
  dot : seg ≠ ['.']
  dotdot : seg ≠ ['.', '.']
  slash : '/' ∉ seg

section CleanPath

variable {p seg last : List Char} {segs parts : List (List Char)}

lemma Proper.pushSeg (h : Proper seg) (parts : List (List Char)) :
    pushSeg parts seg = parts ++ [seg] := by
  rw [Http.pushSeg, if_neg (not_or.mpr ⟨h.nonempty, h.dot⟩), if_neg h.dotdot]

lemma foldl_proper (h : ∀ seg ∈ segs, Proper seg) (parts : List (List Char)) :
    segs.foldl pushSeg parts = parts ++ segs := by
  induction segs generalizing parts with
  | nil => rw [List.foldl_nil, List.append_nil]
  | cons seg segs ih =>
    rw [List.foldl_cons, (h seg List.mem_cons_self).pushSeg,
      ih fun s hs => h s (List.mem_cons_of_mem seg hs), List.append_assoc, List.singleton_append]

lemma proper_pushSeg (hslash : '/' ∉ seg) (h : ∀ part ∈ parts, Proper part) :
    ∀ part ∈ pushSeg parts seg, Proper part := by
  unfold pushSeg
  split_ifs with hskip hup
  · exact h
  · exact fun part hpart => h part (List.dropLast_subset parts hpart)
  · intro part hpart
    rcases List.mem_append.mp hpart with hpart | hpart
    · exact h part hpart
    · obtain rfl := List.mem_singleton.mp hpart
      exact ⟨fun h => hskip (.inl h), fun h => hskip (.inr h), hup, hslash⟩

lemma proper_foldl (hslash : ∀ seg ∈ segs, '/' ∉ seg) (h : ∀ part ∈ parts, Proper part) :
    ∀ part ∈ segs.foldl pushSeg parts, Proper part := by
  induction segs generalizing parts with
  | nil => exact h
  | cons seg segs ih =>
    exact ih (fun s hs => hslash s (List.mem_cons_of_mem seg hs))
      (proper_pushSeg (hslash seg List.mem_cons_self) h)

lemma rooted_snoc (parts : List (List Char)) (last : List Char) :
    rooted (parts ++ [last]) = (if parts = [] then [] else rooted parts) ++ '/' :: last := by
  split_ifs with h
  · rw [h, rooted, List.nil_append, List.intercalate_singleton, List.nil_append]
  · rw [rooted, Text.intercalate_snoc h, rooted, List.cons_append]

lemma canonical_rooted (hne : segs ≠ []) (hslash : ∀ seg ∈ segs, '/' ∉ seg)
    (hdots : ∀ seg ∈ segs, seg ≠ ['.'] ∧ seg ≠ ['.', '.'])
    (hempty : ∀ seg ∈ segs.dropLast, seg ≠ []) : Canonical (rooted segs) := by
  have hsplit : (rooted segs).tail.splitOn '/' = segs := List.splitOn_intercalate '/' hslash hne
  refine ⟨rfl, ?_, ?_⟩
  · rwa [hsplit]
  · rwa [hsplit]

lemma rooted_ne_root (hne : parts ≠ []) (h : ∀ part ∈ parts, Proper part) :
    rooted parts ≠ ['/'] := by
  intro hroot
  have hnil : ['/'].intercalate parts = [] := (List.cons.inj hroot).2
  have hsplit := List.splitOn_intercalate '/' (fun part hpart => (h part hpart).slash) hne
  rw [hnil, List.splitOn_nil] at hsplit
  exact (h [] (hsplit ▸ List.mem_singleton_self _)).nonempty rfl

lemma getLast?_rooted_snoc (hne : last ≠ []) (hslash : '/' ∉ last) :
    (rooted (parts ++ [last])).getLast? ≠ some '/' := by
  intro h
  rw [rooted_snoc, List.append_cons, List.getLast?_append_of_ne_nil _ hne] at h
  exact hslash (List.mem_of_getLast? h)

/-- **The result is canonical.** -/
theorem canonical_cleanPath (p : List Char) : Canonical (cleanPath p) := by
  obtain ⟨parts, hparts⟩ : ∃ parts, (p.splitOn '/').foldl pushSeg [] = parts := ⟨_, rfl⟩
  have hproper : ∀ part ∈ parts, Proper part := by
    rw [← hparts]
    exact proper_foldl (fun seg hseg => Text.not_mem_of_mem_splitOn hseg) (by simp)
  rw [cleanPath, hparts]
  by_cases hnil : parts = []
  · have hroot : rooted parts = ['/'] := by rw [hnil]; rfl
    rw [if_neg fun h => h.2 hroot, hroot]
    exact @canonical_rooted [[]] (by simp) (by simp) (by simp) (by simp)
  split_ifs with htrail
  · have hsnoc : rooted parts ++ ['/'] = rooted (parts ++ [[]]) := by
      rw [rooted_snoc, if_neg hnil]
    rw [hsnoc]
    refine canonical_rooted (by simp) (fun seg hseg => ?_) (fun seg hseg => ?_) ?_
    · rcases List.mem_append.mp hseg with h | h
      · exact (hproper seg h).slash
      · simp [List.mem_singleton.mp h]
    · rcases List.mem_append.mp hseg with h | h
      · exact ⟨(hproper seg h).dot, (hproper seg h).dotdot⟩
      · simp [List.mem_singleton.mp h]
    · rw [List.dropLast_concat]
      exact fun seg hseg => (hproper seg hseg).nonempty
  · exact canonical_rooted hnil (fun seg hseg => (hproper seg hseg).slash)
      (fun seg hseg => ⟨(hproper seg hseg).dot, (hproper seg hseg).dotdot⟩)
      fun seg hseg => (hproper seg (List.dropLast_subset parts hseg)).nonempty

/-- **A canonical path stays as it is.** -/
theorem cleanPath_of_canonical (h : Canonical p) : cleanPath p = p := by
  obtain ⟨rest, rfl⟩ : ∃ rest, p = '/' :: rest := by
    cases p with
    | nil => cases h.slash
    | cons c rest => exact ⟨rest, by rw [Option.some.inj h.slash]⟩
  obtain ⟨init, last, hsegs⟩ : ∃ init last, rest.splitOn '/' = init ++ [last] :=
    ⟨_, _, (List.dropLast_append_getLast (List.splitOn_ne_nil '/' rest)).symm⟩
  have hdots := h.no_dots
  have hempty := h.no_empty
  rw [List.tail_cons, hsegs] at hdots hempty
  rw [List.dropLast_concat] at hempty
  have hslash (seg) (hseg : seg ∈ init ++ [last]) : '/' ∉ seg :=
    Text.not_mem_of_mem_splitOn (hsegs ▸ hseg)
  have hproper : ∀ seg ∈ init, Proper seg := fun seg hseg =>
    have hmem := List.mem_append_left [last] hseg
    ⟨hempty seg hseg, (hdots seg hmem).1, (hdots seg hmem).2, hslash seg hmem⟩
  have hp : '/' :: rest = rooted (init ++ [last]) := by
    rw [rooted, ← hsegs, List.intercalate_splitOn]
  have hsplit : ('/' :: rest).splitOn '/' = [] :: (init ++ [last]) := by
    rw [← hsegs]
    exact List.splitOn_append_cons_self_of_not_mem List.not_mem_nil rest
  have hfold : ([] :: (init ++ [last])).foldl pushSeg [] = pushSeg init last := by
    rw [List.foldl_cons, List.foldl_append]
    have hskip : pushSeg [] [] = [] := if_pos (.inl rfl)
    rw [hskip, foldl_proper hproper, List.nil_append, List.foldl_cons, List.foldl_nil]
  rw [cleanPath, hsplit, hfold, hp]
  by_cases hlast : last = []
  · have hpush : pushSeg init last = init := if_pos (.inl hlast)
    rw [hpush, rooted_snoc, hlast]
    by_cases hnil : init = []
    · rw [if_pos hnil, hnil]
      exact if_neg fun h => h.2 rfl
    · rw [if_neg hnil, if_pos ⟨List.getLast?_concat, rooted_ne_root hnil hproper⟩]
  · have hmem : last ∈ init ++ [last] := List.mem_append_right init (List.mem_singleton_self last)
    have hlastProper : Proper last :=
      ⟨hlast, (hdots last hmem).1, (hdots last hmem).2, hslash last hmem⟩
    rw [hlastProper.pushSeg]
    exact if_neg fun h => getLast?_rooted_snoc hlast hlastProper.slash h.1

theorem canonical_iff : Canonical p ↔ cleanPath p = p :=
  ⟨cleanPath_of_canonical, fun h => h ▸ canonical_cleanPath p⟩

end CleanPath

/-! ### Routing -/

/-- Names in it are still percent-encoded. Whether the caller is signed in is not looked at
here. -/
inductive Handler
  | desktopManifest
  | desktopDownloadWindows
  | desktopFile (name : String)
  | health
  | version
  | login
  | logout
  | presence
  | ws (roomId : String)
  | appConfig
  | upload
  | download (uploadId : String)
  | admin (rest : List String)
  | staticFiles
  deriving DecidableEq

/-- `GET`, or `HEAD` in its place. -/
def Method.isGet (method : Method) : Bool := method = .get ∨ method = .head

def adminRoute (method : Method) : List String → Bool
  | [] => method.isGet ∨ method = .post
  | ["disconnect-users"] => method = .post
  | [id] => method = .delete ∧ id ≠ ""
  | [id, action] => action ∈ ["rotate", "rename", "ttl"] ∧ method = .post ∧ id ≠ ""
  | _ => false

/-- What no handler takes is a static file. -/
def handler (method : Method) (segs : List String) : Handler :=
  let when (b : Bool) (h : Handler) : Handler := if b then h else .staticFiles
  match segs with
  | ["desktop", "latest.json"] => when method.isGet .desktopManifest
  | ["desktop", "download", "windows"] => when method.isGet .desktopDownloadWindows
  | ["desktop", "files", name] => when (method.isGet ∧ name ≠ "") (.desktopFile name)
  | ["healthz"] => when method.isGet .health
  | ["api", "version"] => when method.isGet .version
  | ["api", "login"] => when (method = .post) .login
  | ["api", "logout"] => when (method = .post) .logout
  | ["api", "presence"] => when method.isGet .presence
  | ["ws", roomId] => when (method.isGet ∧ roomId ≠ "") (.ws roomId)
  | ["api", "config"] => when method.isGet .appConfig
  | ["api", "upload"] => when (method = .post) .upload
  | ["api", "file", uploadId] => when (method.isGet ∧ uploadId ≠ "") (.download uploadId)
  | "api" :: "admin" :: "connection-passwords" :: rest =>
    when (adminRoute method rest) (.admin rest)
  | _ => .staticFiles

/-- `path[1..]`, out of range where no character of one byte comes first. -/
def afterFirst : List Char → Option (List Char)
  | [] => none
  | c :: rest => if c.utf8Size = 1 then some rest else none

inductive Outcome
  | redirect (loc : List Char)
  | panics
  | dispatch (path : List Char) (target : Handler)
  deriving DecidableEq

def route (method : Method) (target : Target) : Outcome :=
  let path := target.path
  let cleaned := cleanPath path
  if cleaned ≠ path ∧ method ≠ .connect then
    match target.query with
    | some q => .redirect (cleaned ++ '?' :: q)
    | none => .redirect cleaned
  else
    match afterFirst path with
    | none => .panics
    | some rest => .dispatch path (handler method ((rest.splitOn '/').map String.ofList))

/-- What is dispatched is canonical, and nothing panics. -/
def Outcome.Safe : Outcome → Prop
  | .redirect _ => True
  | .panics => False
  | .dispatch path _ => Canonical path

section Route

variable {method : Method} {target : Target}

lemma route_redirect (hdirty : cleanPath target.path ≠ target.path) (hm : method ≠ .connect) :
    ∃ loc, route method target = .redirect loc := by
  rw [route, if_pos ⟨hdirty, hm⟩]
  cases target.query with
  | none => exact ⟨_, rfl⟩
  | some q => exact ⟨_, rfl⟩

lemma route_dispatch (h : cleanPath target.path = target.path ∨ method = .connect) :
    route method target = match afterFirst target.path with
      | none => .panics
      | some rest =>
        .dispatch target.path (handler method ((rest.splitOn '/').map String.ofList)) := by
  rw [route, if_neg]
  rintro ⟨hdirty, hm⟩
  rcases h with h | h
  · exact hdirty h
  · exact hm h

lemma Canonical.afterFirst {p : List Char} (h : Canonical p) :
    ∃ rest, Http.afterFirst p = some rest := by
  cases p with
  | nil => cases h.slash
  | cons c rest =>
    obtain rfl : c = '/' := Option.some.inj h.slash
    exact ⟨rest, rfl⟩

lemma route_clean (method : Method) (h : cleanPath target.path = target.path) :
    ∃ handled, route method target = .dispatch target.path handled := by
  obtain ⟨rest, hrest⟩ := (canonical_iff.mpr h).afterFirst
  rw [route_dispatch (.inl h), hrest]
  exact ⟨_, rfl⟩

/-- **Routing is safe but for `CONNECT`.** A path that is not redirected is canonical and is
sliced in range, just when the method is not `CONNECT` or the path was canonical already. -/
theorem route_safe_iff (method : Method) (target : Target) :
    (route method target).Safe ↔
      method ≠ .connect ∨ cleanPath target.path = target.path := by
  by_cases hclean : cleanPath target.path = target.path
  · obtain ⟨handled, hroute⟩ := route_clean method hclean
    rw [hroute]
    exact iff_of_true (canonical_iff.mpr hclean) (.inr hclean)
  by_cases hm : method = .connect
  · refine iff_of_false (fun hsafe => ?_) (not_or.mpr ⟨not_not_intro hm, hclean⟩)
    rw [route_dispatch (.inr hm)] at hsafe
    cases hfirst : afterFirst target.path with
    | none =>
      rw [hfirst] at hsafe
      exact hsafe
    | some rest =>
      rw [hfirst] at hsafe
      exact hclean (canonical_iff.mp hsafe)
  · obtain ⟨loc, hloc⟩ := route_redirect hclean hm
    rw [hloc]
    exact iff_of_true trivial (.inl hm)

/-- `CONNECT host:443`. -/
theorem route_connect : ¬ (route .connect (.authority "host:443".toList)).Safe := fun h => h

/-- Only `CONNECT` panics, and only on an authority. -/
theorem route_panics_iff : route method target = .panics ↔
    method = .connect ∧ ∃ authority, target = .authority authority := by
  constructor
  · intro h
    by_cases hclean : cleanPath target.path = target.path
    · obtain ⟨handled, hroute⟩ := route_clean method hclean
      rw [hroute] at h
      cases h
    by_cases hm : method = .connect
    · rw [route_dispatch (.inr hm)] at h
      cases target with
      | authority authority => exact ⟨hm, authority, rfl⟩
      | origin rest query | absolute authority rest query | asterisk => cases h
    · obtain ⟨loc, hloc⟩ := route_redirect hclean hm
      rw [hloc] at h
      cases h
  · rintro ⟨rfl, authority, rfl⟩
    exact route_dispatch (.inr rfl)

lemma Canonical.not_slash {rest : List Char} (h : Canonical ('/' :: rest)) :
    rest.head? ≠ some '/' := by
  intro hhead
  obtain ⟨more, rfl⟩ : ∃ more, rest = '/' :: more := by
    cases rest with
    | nil => cases hhead
    | cons c more => exact ⟨more, by rw [Option.some.inj hhead]⟩
  have hsplit : ('/' :: more).splitOn '/' = [] :: more.splitOn '/' :=
    List.splitOn_append_cons_self_of_not_mem List.not_mem_nil more
  have hempty := h.no_empty
  rw [List.tail_cons, hsplit, List.dropLast_cons_of_ne_nil (List.splitOn_ne_nil '/' more)] at hempty
  exact hempty [] List.mem_cons_self rfl

lemma exists_cleanPath (p : List Char) : ∃ rest, cleanPath p = '/' :: rest := by
  have hslash := (canonical_cleanPath p).slash
  cases hclean : cleanPath p with
  | nil =>
    rw [hclean] at hslash
    cases hslash
  | cons c rest =>
    rw [hclean] at hslash
    exact ⟨rest, by rw [Option.some.inj hslash]⟩

/-- **The clean path**: it begins with one slash, has no dot segments and no empty ones but after
a trailing slash, and is clean. A redirect goes to such a path, which is not redirected again. -/
theorem cleanPath_clean (p : List Char) :
    (∃ rest, cleanPath p = '/' :: rest ∧ rest.head? ≠ some '/') ∧
    (∀ seg ∈ (cleanPath p).tail.splitOn '/', seg ≠ ['.'] ∧ seg ≠ ['.', '.']) ∧
    (∀ seg ∈ ((cleanPath p).tail.splitOn '/').dropLast, seg ≠ []) ∧
    cleanPath (cleanPath p) = cleanPath p ∧
    ∀ method target loc, target.path = p → route method target = .redirect loc →
      ∃ rest, rest.head? ≠ some '/' ∧
        loc = '/' :: rest ++ (target.query.map ('?' :: ·)).getD [] ∧
        ∀ method' loc', route method' (.origin rest target.query) ≠ .redirect loc' := by
  have hcanonical := canonical_cleanPath p
  have hagain := cleanPath_of_canonical hcanonical
  obtain ⟨rest, hrest⟩ := exists_cleanPath p
  have hhead : rest.head? ≠ some '/' := (hrest ▸ hcanonical).not_slash
  refine ⟨⟨rest, hrest, hhead⟩, hcanonical.no_dots, hcanonical.no_empty, hagain, ?_⟩
  rintro method target loc rfl hroute
  refine ⟨rest, hhead, ?_, fun method' loc' hloop => ?_⟩
  · rw [route] at hroute
    split_ifs at hroute with hdirty
    · cases hquery : target.query with
      | none =>
        rw [hquery, hrest] at hroute
        rw [← Outcome.redirect.inj hroute]
        exact (List.append_nil _).symm
      | some q =>
        rw [hquery, hrest] at hroute
        exact (Outcome.redirect.inj hroute).symm
    · split at hroute <;> cases hroute
  · rw [hrest] at hagain
    obtain ⟨handled, hdispatch⟩ :=
      @route_clean (.origin rest target.query) method' hagain
    rw [hdispatch] at hloop
    cases hloop

/-- `/a//./b/../` is redirected to `/a/`. -/
theorem cleanPath_clean_slashes :
    ∃ rest, rest.head? ≠ some '/' ∧ "/a/".toList = '/' :: rest ++ [] ∧
      ∀ method loc, route method (.origin rest none) ≠ .redirect loc :=
  (cleanPath_clean "/a//./b/../".toList).2.2.2.2 .get (.origin "a//./b/../".toList none) _
    (by decide) (by decide)

end Route

end VoiceHub.Http
