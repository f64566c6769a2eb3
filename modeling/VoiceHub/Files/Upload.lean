import Mathlib
import VoiceHub.Files.Disposition
import VoiceHub.Files.Sniff
import VoiceHub.Files.Store

/-!
Uploads. The body comes in chunks, is counted against the limit and written to a file of its
own; then the file is registered in the store.

The file system does not fail. What the multipart reader of another library makes of a body is
left open.
-/

namespace VoiceHub.Files

abbrev Item := Except String (List UInt8)

inductive Fail
  | badRequest
  | io (msg : String)

/-- The count of a stream that is capped, and whether it went over. -/
structure Limited where
  seen : UInt64
  tooLarge : Bool

/-- Caps the byte stream at `limit`, flagging `tooLarge` when it trips. -/
def Limited.poll (limit : UInt64) (l : Limited) : Item → Limited × Item
  | .error e => (l, .error e)
  | .ok chunk =>
    let seen := l.seen + .ofNat chunk.length
    if limit < seen then (⟨seen, true⟩, .error "request body too large")
    else ({ l with seen }, .ok chunk)

/-- What has been copied into the file, of which `head` is kept for sniffing. -/
structure Copy where
  raw : Limited
  head : List UInt8
  size : UInt64
  content : List UInt8

def Copy.start : Copy := ⟨⟨0, false⟩, [], 0, []⟩

def Copy.push (c : Copy) (chunk : List UInt8) : Copy :=
  { c with
    head :=
      if c.head.length < SNIFF_LEN then
        c.head ++ chunk.take (min (SNIFF_LEN - c.head.length) chunk.length)
      else c.head
    size := c.size + .ofNat chunk.length
    content := c.content ++ chunk }

/-- Until the stream ends or fails. -/
def Copy.run (limit : UInt64) (c : Copy) : List Item → Copy × Except Fail Unit
  | [] => (c, .ok ())
  | item :: stream =>
    match c.raw.poll limit item with
    | (raw, .error e) => ({ c with raw }, .error (.io e))
    | (raw, .ok chunk) => Copy.run limit ({ c with raw }.push chunk) stream

/-- What came of receiving a body: the files, whether it went over the limit, and its name, size
and head. -/
structure Received where
  disk : Disk
  tooLarge : Bool
  result : Except Fail (List Char × UInt64 × List UInt8)

/-- The file must be a new one. -/
def copyTo (limit : UInt64) (name : List Char) (stream : List Item) (temp : PathBuf)
    (disk : Disk) : Received :=
  if disk temp ≠ none then ⟨disk, false, .error (.io "create temp")⟩
  else
    let c := Copy.run limit .start stream
    ⟨Function.update disk temp (some c.1.content), c.1.raw.tooLarge,
      c.2.map fun _ => (name, c.1.size, c.1.head)⟩

abbrev Multipart := List Char → UInt64 → List Item → PathBuf → Disk → Received

structure UploadRequest where
  room : String
  contentType : List Char
  contentDisposition : List Char
  body : List Item

/-- The media type names a multipart body. -/
def isMultipart (ct : List Char) : Bool :=
  let media := toAsciiLowercase (Lib.Text.trim (ct.takeWhile (· ≠ ';')))
  "multipart/".toList.isPrefixOf media

inductive UploadResponse
  | created (uploadId : String)
  | notFound
  | payloadTooLarge
  | badRequest
  | uploadFailed
  | storageFull
  deriving DecidableEq

/-- What a body that could not be received is answered. -/
def Received.refuse (r : Received) : Fail → UploadResponse
  | .badRequest => if r.tooLarge then .payloadTooLarge else .badRequest
  | .io _ => if r.tooLarge then .payloadTooLarge else .uploadFailed

section Upload

variable (cfg : Config) (multipart : Multipart) (rooms : List String)

/-- Streams the body into the fresh file `temp` and registers it at `now`. Unknown rooms are
rejected so a stray upload can't occupy the budget. -/
def upload (req : UploadRequest) (temp : PathBuf) (now : SystemTime) (uploadId : String)
    (s : Store) : Store × UploadResponse :=
  if req.room = "" ∨ req.room ∉ rooms then (s, .notFound)
  else
    let limit : UInt64 := .ofNat cfg.maxUploadBytes + 1
    let r :=
      if isMultipart req.contentType then multipart req.contentType limit req.body temp s.disk
      else
        let name := filenameFromContentDisposition req.contentDisposition
        copyTo limit name req.body temp s.disk
    match r.result with
    | .error e => ({ s with disk := r.disk.removeAll [temp] }, r.refuse e)
    | .ok (name, size, head) =>
      let mime := detectContentType head
      let name := String.ofList (sanitizeName name)
      match s.st.storeAt cfg req.room name mime size temp now uploadId with
      | (st, .ok entry) => (⟨st, r.disk⟩, .created entry.uploadId)
      | (st, .error _) => (⟨st, r.disk.removeAll [temp]⟩, .storageFull)

end Upload

/-! ### Receiving a body -/

variable {cfg : Config} {s : Store} {limit : UInt64} {c : Copy} {chunk : List UInt8}
  {chunks : List (List UInt8)}

/-- The counts and the head are those of the bytes that were copied, which are within the
limit. -/
structure Copied (limit : UInt64) (c : Copy) : Prop where
  seen : c.raw.seen.toNat = c.content.length
  size : c.size.toNat = c.content.length
  head : c.head = c.content.take SNIFF_LEN
  le : c.content.length ≤ limit.toNat

lemma copied_start (limit : UInt64) : Copied limit .start := ⟨rfl, rfl, rfl, Nat.zero_le _⟩

lemma toNat_add_length {n : UInt64} (h : n.toNat + chunk.length < 2 ^ 64) :
    (n + .ofNat chunk.length).toNat = n.toNat + chunk.length := by
  rw [UInt64.toNat_add, UInt64.toNat_ofNat', Nat.mod_eq_of_lt (by omega : chunk.length < 2 ^ 64)]
  exact Nat.mod_eq_of_lt h

lemma push_head (h : c.head = c.content.take SNIFF_LEN) :
    (c.push chunk).head = (c.push chunk).content.take SNIFF_LEN := by
  have hlen : c.head.length = min SNIFF_LEN c.content.length := by
    rw [h, List.length_take]
  simp only [Copy.push, List.take_append]
  split_ifs with hlt
  · have hhead : c.head.length = c.content.length := by omega
    rw [hhead, h, ← List.take_eq_take_min]
  · have hfull : SNIFF_LEN - c.content.length = 0 := by omega
    rw [hfull, List.take_zero, List.append_nil, h]

lemma Copied.push (h : Copied limit c) (hle : c.content.length + chunk.length ≤ limit.toNat) :
    ∃ raw, c.raw.poll limit (.ok chunk) = (raw, .ok chunk) ∧
      Copied limit ({ c with raw }.push chunk) := by
  have hlt := limit.toNat_lt
  have hseen : (c.raw.seen + .ofNat chunk.length).toNat = c.content.length + chunk.length := by
    rw [toNat_add_length (by rw [h.seen]; omega), h.seen]
  have hsize : (c.size + .ofNat chunk.length).toNat = c.content.length + chunk.length := by
    rw [toNat_add_length (by rw [h.size]; omega), h.size]
  have hpass : ¬ limit < c.raw.seen + .ofNat chunk.length := by
    rw [UInt64.lt_iff_toNat_lt, hseen]
    omega
  refine ⟨_, if_neg hpass, ?_, ?_, push_head h.head, ?_⟩
  · rw [Copy.push, List.length_append]
    exact hseen
  · rw [Copy.push, List.length_append]
    exact hsize
  · rw [Copy.push, List.length_append]
    exact hle

/-- A chunk that goes over the limit ends the copying. -/
lemma Copied.trip (h : Copied limit c) (hlt : limit.toNat < c.content.length + chunk.length)
    (hwrap : limit.toNat + chunk.length < 2 ^ 64) : ∃ raw e,
    c.raw.poll limit (.ok chunk) = (raw, .error e) ∧ raw.tooLarge = true := by
  have hle := h.le
  have hseen : (c.raw.seen + .ofNat chunk.length).toNat = c.content.length + chunk.length := by
    rw [toNat_add_length (by rw [h.seen]; omega), h.seen]
  have hover : limit < c.raw.seen + .ofNat chunk.length := by
    rw [UInt64.lt_iff_toNat_lt, hseen]
    exact hlt
  exact ⟨_, _, if_pos hover, rfl⟩

lemma Copied.run (h : Copied limit c)
    (hle : c.content.length + chunks.flatten.length ≤ limit.toNat) : ∃ c',
    c.run limit (chunks.map .ok) = (c', .ok ()) ∧ Copied limit c' ∧
      c'.content = c.content ++ chunks.flatten := by
  induction chunks generalizing c with
  | nil => exact ⟨c, rfl, h, (List.append_nil _).symm⟩
  | cons chunk chunks ih =>
    rw [List.flatten_cons, List.length_append] at hle
    have hfits : c.content.length + chunk.length ≤ limit.toNat := by omega
    obtain ⟨raw, hpoll, hpush⟩ := h.push hfits
    have hcontent : ({ c with raw }.push chunk).content = c.content ++ chunk := rfl
    obtain ⟨c', hrun, hc', hall⟩ := ih hpush (by rw [hcontent, List.length_append]; omega)
    refine ⟨c', ?_, hc', ?_⟩
    · rw [List.map_cons, Copy.run, hpoll]
      exact hrun
    · rw [hall, hcontent, List.append_assoc, List.flatten_cons]

lemma Copied.run_over (h : Copied limit c)
    (hlt : limit.toNat < c.content.length + chunks.flatten.length)
    (hwrap : ∀ chunk ∈ chunks, limit.toNat + chunk.length < 2 ^ 64) : ∃ c' e,
    c.run limit (chunks.map .ok) = (c', .error (.io e)) ∧ c'.raw.tooLarge = true := by
  induction chunks generalizing c with
  | nil =>
    have hle := h.le
    rw [List.flatten_nil, List.length_nil] at hlt
    omega
  | cons chunk chunks ih =>
    rw [List.flatten_cons, List.length_append] at hlt
    rw [List.map_cons, Copy.run]
    rcases Nat.lt_or_ge limit.toNat (c.content.length + chunk.length) with hover | hfits
    · obtain ⟨raw, e, hpoll, htoo⟩ := h.trip hover (hwrap chunk List.mem_cons_self)
      rw [hpoll]
      exact ⟨_, e, rfl, htoo⟩
    · obtain ⟨raw, hpoll, hpush⟩ := h.push hfits
      have hcontent : ({ c with raw }.push chunk).content = c.content ++ chunk := rfl
      rw [hpoll]
      exact ih hpush (by rw [hcontent, List.length_append]; omega)
        fun a ha => hwrap a (List.mem_cons_of_mem _ ha)

/-! ### The limit -/

/-- The budget has room for `n` more bytes. -/
def State.Admits (cfg : Config) (st : State) (n : UInt64) : Prop :=
  ¬ (0 < cfg.maxTotalBytes ∧ cfg.maxTotalBytes < st.total + n)

instance (cfg : Config) (st : State) (n : UInt64) : Decidable (st.Admits cfg n) :=
  inferInstanceAs (Decidable (¬ _))

/-- What an upload of `bytes` is stored as. -/
def uploaded (cfg : Config) (req : UploadRequest) (bytes : List UInt8) (temp : PathBuf)
    (now : SystemTime) (uploadId : String) : Entry where
  uploadId := uploadId
  roomId := req.room
  name := String.ofList (sanitizeName (filenameFromContentDisposition req.contentDisposition))
  mime := detectContentType bytes
  size := .ofNat bytes.length
  tempPath := temp
  createdAt := now
  expiresAt := now + cfg.ttl

/-- The store with one more upload. -/
def Store.register (s : Store) (e : Entry) (bytes : List UInt8) : Store where
  st := ⟨AList.insert e.uploadId e s.st.entries, s.st.total + e.size⟩
  disk := Function.update s.disk e.tempPath (some bytes)

section Limit

variable {multipart : Multipart} {rooms : List String} {req : UploadRequest} {temp : PathBuf}
  {now : SystemTime} {uploadId : String} {r : Received}

lemma removeAll_fresh (hfresh : s.disk temp = none) (content : Option (List UInt8)) :
    Disk.removeAll (Function.update s.disk temp content) [temp] = s.disk := by
  funext path
  rw [Disk.removeAll]
  split_ifs with hpath
  · rw [List.mem_singleton.mp hpath, hfresh]
  · exact Function.update_of_ne (fun h => hpath (List.mem_singleton.mpr h)) _ _

/-- A known room and a body that is not multipart. -/
structure Raw (rooms : List String) (req : UploadRequest) : Prop where
  nonempty : req.room ≠ ""
  known : req.room ∈ rooms
  raw : isMultipart req.contentType = false

lemma upload_raw (h : Raw rooms req) : upload cfg multipart rooms req temp now uploadId s =
    let r := copyTo (.ofNat cfg.maxUploadBytes + 1)
      (filenameFromContentDisposition req.contentDisposition) req.body temp s.disk
    match r.result with
    | .error e => ({ s with disk := r.disk.removeAll [temp] }, r.refuse e)
    | .ok (name, size, head) =>
      match s.st.storeAt cfg req.room (String.ofList (sanitizeName name))
        (detectContentType head) size temp now uploadId with
      | (st, .ok entry) => (⟨st, r.disk⟩, .created entry.uploadId)
      | (st, .error _) => (⟨st, r.disk.removeAll [temp]⟩, .storageFull) := by
  have hknown : ¬ (req.room = "" ∨ req.room ∉ rooms) := not_or.mpr ⟨h.nonempty, not_not.mpr h.known⟩
  simp only [upload, if_neg hknown, h.raw, Bool.false_eq_true, if_false]

lemma limit_toNat (hmax : cfg.maxUploadBytes + 1 < 2 ^ 64) :
    (UInt64.ofNat cfg.maxUploadBytes + 1).toNat = cfg.maxUploadBytes + 1 := by
  have hone : (1 : UInt64).toNat = 1 := rfl
  rw [UInt64.toNat_add, UInt64.toNat_ofNat', hone]
  omega

lemma upload_over (h : Raw rooms req) (hbody : req.body = chunks.map .ok)
    (hfresh : s.disk temp = none) (hmax : cfg.maxUploadBytes + 1 < 2 ^ 64)
    (hcount : ∀ chunk ∈ chunks, cfg.maxUploadBytes + 1 + chunk.length < 2 ^ 64)
    (hover : cfg.maxUploadBytes + 1 < chunks.flatten.length) :
    upload cfg multipart rooms req temp now uploadId s = (s, .payloadTooLarge) := by
  have hlimit := limit_toNat hmax
  have hlt : (UInt64.ofNat cfg.maxUploadBytes + 1).toNat <
      Copy.start.content.length + chunks.flatten.length := by
    rw [hlimit]
    simpa [Copy.start] using hover
  obtain ⟨c, e, hrun, htoo⟩ := (copied_start _).run_over hlt (by rw [hlimit]; exact hcount)
  rw [upload_raw h, copyTo, if_neg (not_not_intro hfresh), hbody, hrun]
  simp only [Except.map, Received.refuse, htoo, if_true, removeAll_fresh hfresh]

lemma upload_fits (h : Raw rooms req) (hbody : req.body = chunks.map .ok)
    (hfresh : s.disk temp = none) (hmax : cfg.maxUploadBytes + 1 < 2 ^ 64)
    (hfits : chunks.flatten.length ≤ cfg.maxUploadBytes + 1) :
    upload cfg multipart rooms req temp now uploadId s =
      if s.st.Admits cfg (.ofNat chunks.flatten.length) then
        (s.register (uploaded cfg req chunks.flatten temp now uploadId) chunks.flatten,
          .created uploadId)
      else (s, .storageFull) := by
  have hlimit := limit_toNat hmax
  have hle : Copy.start.content.length + chunks.flatten.length ≤
      (UInt64.ofNat cfg.maxUploadBytes + 1).toNat := by
    rw [hlimit]
    simpa [Copy.start] using hfits
  obtain ⟨c, hrun, hc, hcontent⟩ := (copied_start _).run hle
  replace hcontent : c.content = chunks.flatten := hcontent
  have hsize : c.size = .ofNat chunks.flatten.length := by
    rw [← hcontent, ← hc.size, UInt64.ofNat_toNat]
  have hmime : detectContentType c.head = detectContentType chunks.flatten := by
    rw [hc.head, detectContentType_take, hcontent]
  rw [upload_raw h, copyTo, if_neg (not_not_intro hfresh), hbody, hrun]
  simp only [Except.map, hsize, hmime, hcontent, State.storeAt]
  by_cases hfull : 0 < cfg.maxTotalBytes ∧
      cfg.maxTotalBytes < s.st.total + .ofNat chunks.flatten.length
  · have hnot : ¬ s.st.Admits cfg (.ofNat chunks.flatten.length) := not_not_intro hfull
    simp only [if_pos hfull, if_neg hnot, removeAll_fresh hfresh]
  · rw [if_neg hfull, if_pos (show s.st.Admits cfg _ from hfull)]
    rfl

/-- **The limit is that of the whole body.** An upload is stored just when its bytes, however
they are cut into chunks, are at most one more than `maxUploadBytes` and the budget has room for
them; what is stored is told by the bytes alone, and else nothing is left behind. -/
theorem upload_limit (cfg : Config) (s : Store) (chunks : List (List UInt8)) (h : Raw rooms req)
    (hbody : req.body = chunks.map .ok) (hfresh : s.disk temp = none)
    (hmax : cfg.maxUploadBytes + 1 < 2 ^ 64)
    (hcount : ∀ chunk ∈ chunks, cfg.maxUploadBytes + 1 + chunk.length < 2 ^ 64) :
    let bytes := chunks.flatten
    let entry := uploaded cfg req bytes temp now uploadId
    let stored := upload cfg multipart rooms req temp now uploadId s
    (bytes.length ≤ cfg.maxUploadBytes + 1 ∧ s.st.Admits cfg entry.size →
      stored = (s.register entry bytes, .created uploadId) ∧
        entry.size.toNat = bytes.length) ∧
    (¬ (bytes.length ≤ cfg.maxUploadBytes + 1 ∧ s.st.Admits cfg entry.size) →
      stored.1 = s ∧ ∀ id, stored.2 ≠ .created id) := by
  intro bytes entry stored
  refine ⟨fun hin => ⟨?_, ?_⟩, fun hout => ?_⟩
  · exact (upload_fits h hbody hfresh hmax hin.1).trans (if_pos hin.2)
  · have hle := hin.1
    exact UInt64.toNat_ofNat_of_lt' (Nat.lt_of_le_of_lt hle hmax)
  · rcases Nat.lt_or_ge (cfg.maxUploadBytes + 1) bytes.length with hover | hfits
    · have heq : stored = (s, .payloadTooLarge) := upload_over h hbody hfresh hmax hcount hover
      rw [heq]
      exact ⟨rfl, fun id => UploadResponse.noConfusion⟩
    · have heq : stored = (s, .storageFull) :=
        (upload_fits h hbody hfresh hmax hfits).trans (if_neg fun hadmits => hout ⟨hfits, hadmits⟩)
      rw [heq]
      exact ⟨rfl, fun id => UploadResponse.noConfusion⟩

/-- No multipart reader. -/
def noMultipart : Multipart := fun _ _ _ _ disk => ⟨disk, false, .error .badRequest⟩

/-- A limit of `max` bytes, an unbounded store. -/
def limited (max : ℕ) : Config := ⟨300, 1800, max, 0⟩

/-- A request with `body` as its chunks. -/
def rawRequest (body : List (List UInt8)) : UploadRequest := ⟨"r", [], [], body.map .ok⟩

theorem upload_limit_chunks :
    let entry := uploaded (limited 2) (rawRequest [[1], [2, 3]]) [1, 2, 3] "up" 0 "id"
    let stored := upload (limited 2) noMultipart ["r"] (rawRequest [[1], [2, 3]]) "up" 0 "id" .new
    (3 ≤ 2 + 1 ∧ State.Admits (limited 2) .empty entry.size →
      stored = (Store.new.register entry [1, 2, 3], .created "id") ∧ entry.size.toNat = 3) ∧
    (¬ (3 ≤ 2 + 1 ∧ State.Admits (limited 2) .empty entry.size) →
      stored.1 = .new ∧ ∀ id, stored.2 ≠ .created id) :=
  upload_limit (limited 2) .new [[1], [2, 3]]
    ⟨by decide, List.mem_singleton_self _, by decide⟩ rfl rfl (by decide) (by decide)

/-- One byte more than `maxUploadBytes` is stored, and the largest `maxUploadBytes` lets nothing
through. -/
theorem upload_one_over :
    (upload (limited 1) noMultipart ["r"] (rawRequest [[1, 2]]) "up" 0 "id" .new).2 =
      .created "id" ∧
    (upload (limited (2 ^ 64 - 1)) noMultipart ["r"] (rawRequest [[1]]) "up" 0 "id" .new).2 =
      .payloadTooLarge := by
  decide +kernel

end Limit

end VoiceHub.Files
