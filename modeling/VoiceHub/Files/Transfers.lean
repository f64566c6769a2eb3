import Mathlib
import VoiceHub.Files.Upload

/-!
Uploads and downloads at the same time, and the sweeps in between.

Every request takes its steps on its own: the others, and the janitor, run between any two of
them. What a request is answered when it fails is not repeated here.
-/

namespace VoiceHub.Files

open VoiceHub.Lib

/-! ### The bodies -/

/-- What is handed on of a body. -/
def Limited.stream (limit : UInt64) (l : Limited) : List Item → List Item
  | [] => []
  | item :: body => (l.poll limit item).2 :: Limited.stream limit (l.poll limit item).1 body

/-- The multipart reader of another library: the name of the first part that has one, and what
is handed on of the part. -/
abbrev Multer := List Char → List Item → Option (List Char × List Item)

/-- The name of an upload, and what is to be copied. -/
def source (multer : Multer) (limit : UInt64) (req : UploadRequest) :
    Option (List Char × List Item) :=
  let raw := Limited.stream limit ⟨0, false⟩ req.body
  if isMultipart req.contentType then multer req.contentType raw
  else some (filenameFromContentDisposition req.contentDisposition, raw)

/-- What `ServeFile` goes by: the request, and when the file was last written. -/
structure FileRequest where
  method : String
  headers : List (String × String)
  modified : SystemTime
  deriving DecidableEq

structure FileResponse where
  status : ℕ
  body : List UInt8
  deriving DecidableEq

/-- The `ServeFile` of another library: what it makes of the bytes of a file. Ranges, conditions
and `HEAD` are its own. -/
abbrev ServeFile := FileRequest → List UInt8 → FileResponse

/-! ### The requests -/

/-- Of an upload: before its file is opened, while it is written, and when it is to be
removed. -/
inductive Phase
  | opening
  | copying (c : Copy)
  | removing

structure Uploading where
  req : UploadRequest
  name : List Char
  /-- What is still to be copied. -/
  rest : List Item
  phase : Phase

/-- An upload that was stored. -/
structure Sent where
  id : String
  req : UploadRequest
  name : List Char
  bytes : List UInt8

/-- Of a download: the entry was found, its file was there, and it is open. An open file can
still be read when it is removed. -/
inductive Stage
  | found
  | checked
  | opened (bytes : List UInt8)

structure Download where
  room : String
  id : String
  req : FileRequest
  entry : Entry
  stage : Stage

/-- A download that was not answered with 404. -/
structure Served where
  room : String
  id : String
  req : FileRequest
  contentType : String
  contentDisposition : List Char
  response : FileResponse
  deriving DecidableEq

/-- The uploads go by their files; `sent` and `orphans`, the files of uploads whose connection
went away, only keep track. -/
structure Server where
  st : State
  disk : Disk
  uploads : HashMap PathBuf Uploading
  downloads : HashMap ℕ Download
  /-- The files a sweep has still to remove. -/
  janitor : List PathBuf
  sent : HashMap PathBuf Sent
  orphans : List PathBuf
  served : List Served

def Server.new : Server := ⟨.empty, fun _ => none, ∅, ∅, [], ∅, [], []⟩

inductive Event
  | upload (temp : PathBuf) (req : UploadRequest)
  /-- `open_temp` -/
  | create (temp : PathBuf)
  | chunk (temp : PathBuf)
  /-- the body has ended; the id is a fresh ULID -/
  | finish (temp : PathBuf) (now : SystemTime) (uploadId : String)
  | remove (temp : PathBuf)
  /-- the connection goes away, and with it the rest of the upload -/
  | drop (temp : PathBuf)
  | download (h : ℕ) (room id : String) (req : FileRequest) (now : SystemTime)
  | exists (h : ℕ)
  | serve (h : ℕ)
  | answer (h : ℕ) (now : SystemTime)
  | hangUp (h : ℕ)
  | sweep (now : SystemTime)
  /-- the janitor removes its next file -/
  | unlink

/-- Images are shown inline. -/
def dispositionOf (mime : String) : List Char :=
  if "image/".toList.isPrefixOf mime.toList then "inline".toList else "attachment".toList

/-- The response of `ServeFile`, with two of its headers set. -/
def Download.answer (d : Download) (response : FileResponse) : Served where
  room := d.room
  id := d.id
  req := d.req
  contentType := d.entry.mime
  contentDisposition := contentDisposition (dispositionOf d.entry.mime) d.entry.name.toList
  response := response

namespace Server

def setUpload (s : Server) (temp : PathBuf) (u : Uploading) : Server :=
  { s with uploads := AList.insert temp u s.uploads }

def write (s : Server) (path : PathBuf) (content : Option (List UInt8)) : Server :=
  { s with disk := Function.update s.disk path content }

@[simp] lemma setUpload_disk (s : Server) (temp : PathBuf) (u : Uploading) :
    (s.setUpload temp u).disk = s.disk := rfl

@[simp] lemma write_same (s : Server) (path : PathBuf) (content : Option (List UInt8)) :
    (s.write path content).disk path = content := Function.update_self ..

lemma write_of_ne (s : Server) {path other : PathBuf} (h : other ≠ path)
    (content : Option (List UInt8)) : (s.write path content).disk other = s.disk other :=
  Function.update_of_ne h ..

lemma write_disk (s : Server) (path : PathBuf) : s.write path (s.disk path) = s := by
  rw [write, Function.update_eq_self]

/-- The upload is over. -/
def endUpload (s : Server) (temp : PathBuf) : Server :=
  { s with uploads := AList.erase temp s.uploads }

def setDownload (s : Server) (h : ℕ) (d : Download) : Server :=
  { s with downloads := AList.insert h d s.downloads }

/-- The download is over. -/
def endDownload (s : Server) (h : ℕ) : Server := { s with downloads := AList.erase h s.downloads }

section Step

variable (cfg : Config) (multer : Multer) (serveFile : ServeFile) (rooms : List String)

def limit : UInt64 := .ofNat cfg.maxUploadBytes + 1

/-- The steps of the upload to the file `temp`. -/
def stepUpload (s : Server) (temp : PathBuf) (u : Uploading) : Event → Option Server
  | .create _ =>
    match u.phase with
    | .opening =>
      if s.disk temp = none then
        some ((s.setUpload temp { u with phase := .copying .start }).write temp (some []))
      else some (s.setUpload temp { u with phase := .removing })
    | _ => none
  | .chunk _ =>
    match u.phase, u.rest with
    | .copying _, .error _ :: _ => some (s.setUpload temp { u with phase := .removing })
    | .copying c, .ok chunk :: rest =>
      some ((s.setUpload temp { u with rest, phase := .copying (c.push chunk) }).write temp
        (some (c.push chunk).content))
    | _, _ => none
  | .finish _ now uploadId =>
    match u.phase, u.rest with
    | .copying c, [] =>
      let name := String.ofList (sanitizeName u.name)
      match s.st.storeAt cfg u.req.room name (detectContentType c.head) c.size temp now
          uploadId with
      | (st, .ok entry) =>
        some { s.endUpload temp with
          st
          sent := AList.insert temp ⟨entry.uploadId, u.req, u.name, c.content⟩ s.sent }
      | (st, .error _) => some { s.setUpload temp { u with phase := .removing } with st }
    | _, _ => none
  | .remove _ =>
    match u.phase with
    | .removing => some ((s.write temp none).endUpload temp)
    | _ => none
  | .drop _ =>
    match u.phase with
    | .removing => none
    | _ => some { s.endUpload temp with orphans := temp :: s.orphans }
  | _ => none

/-- The steps of the download `h`. -/
def stepDownload (s : Server) (h : ℕ) (d : Download) : Event → Option Server
  | .exists _ =>
    match d.stage with
    | .found =>
      if s.disk d.entry.tempPath = none then some (s.endDownload h)
      else some (s.setDownload h { d with stage := .checked })
    | _ => none
  | .serve _ =>
    match d.stage with
    | .checked =>
      match s.disk d.entry.tempPath with
      | none => some (s.endDownload h)
      | some bytes => some (s.setDownload h { d with stage := .opened bytes })
    | _ => none
  | .answer _ now =>
    match d.stage with
    | .opened bytes =>
      let response := serveFile d.req bytes
      if response.status = 404 then some (s.endDownload h)
      else
        some { s.endDownload h with
          st := s.st.touchAt cfg d.id now
          served := d.answer response :: s.served }
    | _ => none
  | .hangUp _ => some (s.endDownload h)
  | _ => none

def step (s : Server) (e : Event) : Option Server :=
  match e with
  | .upload temp req =>
    if s.uploads.lookup temp ≠ none then none
    else if req.room = "" ∨ req.room ∉ rooms then some s
    else
      match source multer (limit cfg) req with
      | none => some (s.setUpload temp ⟨req, [], [], .removing⟩)
      | some (name, rest) => some (s.setUpload temp ⟨req, name, rest, .opening⟩)
  | .create temp | .chunk temp | .finish temp _ _ | .remove temp | .drop temp =>
    (s.uploads.lookup temp).bind fun u => s.stepUpload cfg temp u e
  | .download h room id req now =>
    if s.downloads.lookup h ≠ none then none
    else
      match (s.st.getAt id now).filter (·.roomId = room) with
      | none => some s
      | some entry => some (s.setDownload h ⟨room, id, req, entry, .found⟩)
  | .exists h | .serve h | .answer h _ | .hangUp h =>
    (s.downloads.lookup h).bind fun d => s.stepDownload cfg serveFile h d e
  | .sweep now =>
    match s.janitor with
    | [] => some { s with st := (s.st.sweep now).1, janitor := (s.st.sweep now).2 }
    | _ => none
  | .unlink =>
    match s.janitor with
    | [] => none
    | path :: janitor => some { s.write path none with janitor }

end Step

end Server

/-- The random name of a file is none that is in use, and the random id of an upload is its
own. -/
def Fresh (s : Server) : Event → Prop
  | .upload temp _ => s.sent.lookup temp = none ∧ temp ∉ s.orphans
  | .finish _ _ uploadId => uploadId ∉ (HashMap.values s.sent).map Sent.id
  | _ => True

instance (s : Server) : ∀ e, Decidable (Fresh s e)
  | .upload .. => inferInstanceAs (Decidable (_ ∧ _))
  | .finish .. => inferInstanceAs (Decidable (¬ _))
  | .create _ | .chunk _ | .remove _ | .drop _ | .download .. | .exists _ | .serve _
  | .answer .. | .hangUp _ | .sweep _ | .unlink => inferInstanceAs (Decidable True)

/-! ### What is kept -/

section Kept

variable {cfg : Config} {multer : Multer} {serveFile : ServeFile} {rooms : List String}
  {limit : UInt64} {s s' : Server} {temp path : PathBuf} {u : Uploading} {e : Event} {now : SystemTime} {h : ℕ} {d : Download}
  {file : Option (List UInt8)}

/-- Its bytes are the whole of what its request brought. -/
def Sent.Whole (multer : Multer) (limit : UInt64) (u : Sent) : Prop :=
  ∃ chunks : List (List UInt8), source multer limit u.req = some (u.name, chunks.map .ok) ∧
    u.bytes = chunks.flatten

/-- `e` is the entry of the upload `u`. -/
structure Sent.Of (u : Sent) (e : Entry) : Prop where
  id : e.uploadId = u.id
  room : e.roomId = u.req.room
  name : e.name = String.ofList (sanitizeName u.name)
  mime : e.mime = detectContentType u.bytes

/-- What the file of an upload holds. -/
def Uploading.Kept (multer : Multer) (limit : UInt64) (u : Uploading)
    (file : Option (List UInt8)) : Prop :=
  match u.phase with
  | .opening => source multer limit u.req = some (u.name, u.rest)
  | .copying c => file = some c.content ∧ c.head = c.content.take SNIFF_LEN ∧
    ∃ chunks : List (List UInt8),
      source multer limit u.req = some (u.name, chunks.map .ok ++ u.rest) ∧
        c.content = chunks.flatten
  | .removing => True

/-- The file of the upload `u`, served under its own name and type to its own room. -/
structure Served.Of (serveFile : ServeFile) (r : Served) (u : Sent) : Prop where
  id : r.id = u.id
  room : r.room = u.req.room
  response : r.response = serveFile r.req u.bytes
  contentType : r.contentType = detectContentType u.bytes
  disposition : r.contentDisposition =
    Files.contentDisposition (dispositionOf r.contentType) (sanitizeName u.name)

/-- Every file has one owner, and holds what it should. -/
structure Server.Kept (multer : Multer) (serveFile : ServeFile) (limit : UInt64) (s : Server) : Prop where
  uploads : ∀ temp u, s.uploads.lookup temp = some u →
    u.Kept multer limit (s.disk temp) ∧ s.sent.lookup temp = none ∧ temp ∉ s.orphans
  orphans : ∀ temp ∈ s.orphans, s.sent.lookup temp = none
  ids : ∀ temp u temp' u', s.sent.lookup temp = some u → s.sent.lookup temp' = some u' →
    u.id = u'.id → temp = temp'
  sent : ∀ temp u, s.sent.lookup temp = some u → u.Whole multer limit
  entries : ∀ id e, s.st.entries.lookup id = some e →
    ∃ u, s.sent.lookup e.tempPath = some u ∧ u.id = id ∧ u.Of e ∧ s.disk e.tempPath = some u.bytes
  gone : ∀ temp u, s.sent.lookup temp = some u → s.disk temp = none ∨ s.disk temp = some u.bytes
  janitor : ∀ path ∈ s.janitor, s.sent.lookup path ≠ none ∧
    ∀ id e, s.st.entries.lookup id = some e → e.tempPath ≠ path
  downloads : ∀ h d, s.downloads.lookup h = some d →
    ∃ u, s.sent.lookup d.entry.tempPath = some u ∧ u.id = d.id ∧ u.req.room = d.room ∧
      u.Of d.entry ∧ ∀ bytes, d.stage = .opened bytes → bytes = u.bytes
  files : ∀ path, s.disk path ≠ none → (∃ u, s.uploads.lookup path = some u) ∨
    path ∈ s.orphans ∨ path ∈ s.janitor ∨
      ∃ id e, s.st.entries.lookup id = some e ∧ e.tempPath = path
  served : ∀ r ∈ s.served, ∃ temp u, s.sent.lookup temp = some u ∧ r.Of serveFile u

namespace Server.Kept

lemma new : Server.new.Kept multer serveFile limit where
  uploads _ _ hu := by cases hu
  orphans _ ht := by cases ht
  ids _ _ _ _ hu := by cases hu
  sent _ _ hu := by cases hu
  entries _ _ he := by cases he
  gone _ _ hu := by cases hu
  janitor _ hp := by cases hp
  downloads _ _ hd := by cases hd
  files _ hp := absurd rfl hp
  served _ hr := by cases hr

variable (hk : s.Kept multer serveFile limit)

/-! ### Uploads -/

include hk in
lemma put (hsent : s.sent.lookup temp = none) (horphan : temp ∉ s.orphans)
    (hu : u.Kept multer limit file) :
    ((s.setUpload temp u).write temp file).Kept multer serveFile limit where
  uploads t w hw := by
    change (AList.insert temp u s.uploads).lookup t = some w at hw
    rw [HashMap.lookup_insert] at hw
    split_ifs at hw with ht
    · obtain rfl := Option.some.inj hw
      rw [ht, write_same]
      exact ⟨hu, hsent, horphan⟩
    · rw [write_of_ne _ ht]
      exact hk.uploads t w hw
  orphans := hk.orphans
  ids := hk.ids
  sent := hk.sent
  entries id e he := by
    obtain ⟨v, hv, hid, hof, hfile⟩ := hk.entries id e he
    have hne : e.tempPath ≠ temp := ne_of_apply_ne s.sent.lookup (by rw [hv, hsent]; simp)
    exact ⟨v, hv, hid, hof, (write_of_ne _ hne _).trans hfile⟩
  gone t v hv := by
    replace hv : s.sent.lookup t = some v := hv
    have hne : t ≠ temp := ne_of_apply_ne s.sent.lookup (by rw [hv, hsent]; simp)
    rw [write_of_ne _ hne]
    exact hk.gone t v hv
  janitor := hk.janitor
  downloads := hk.downloads
  files path hpath := by
    rcases eq_or_ne path temp with rfl | hne
    · exact .inl ⟨u, AList.lookup_insert _⟩
    · rw [write_of_ne _ hne] at hpath
      refine (hk.files path hpath).imp_left ?_
      rintro ⟨w, hw⟩
      exact ⟨w, (AList.lookup_insert_ne hne).trans hw⟩
  served := hk.served

include hk in
lemma setUpload (hsent : s.sent.lookup temp = none) (horphan : temp ∉ s.orphans)
    (hu : u.Kept multer limit (s.disk temp)) : (s.setUpload temp u).Kept multer serveFile limit := by
  have hput := hk.put hsent horphan hu
  rwa [← setUpload_disk s temp u, write_disk] at hput

include hk in
lemma endUpload (hu : s.uploads.lookup temp = some u) {orphans : List PathBuf}
    (hfile : file = none ∧ orphans = s.orphans ∨ orphans = temp :: s.orphans) :
    ({ (s.write temp file).endUpload temp with orphans } : Server).Kept multer serveFile limit := by
  obtain ⟨-, hsent, -⟩ := hk.uploads temp u hu
  have hne {t v} (hv : s.sent.lookup t = some v) : t ≠ temp :=
    ne_of_apply_ne s.sent.lookup (by rw [hv, hsent]; simp)
  have hmem {t} (ht : t ∈ orphans) : t ∈ s.orphans ∨ t = temp := by
    rcases hfile with ⟨-, rfl⟩ | rfl
    · exact .inl ht
    · exact (List.mem_cons.mp ht).symm
  have hold {t} (ht : t ∈ s.orphans) : t ∈ orphans := by
    rcases hfile with ⟨-, rfl⟩ | rfl
    · exact ht
    · exact List.mem_cons_of_mem _ ht
  refine ⟨fun t w hw => ?_, fun t ht => ?_, hk.ids, hk.sent, fun id e he => ?_, fun t v hv => ?_,
    hk.janitor, hk.downloads, fun path hpath => ?_, hk.served⟩
  · change (AList.erase temp s.uploads).lookup t = some w at hw
    rw [HashMap.lookup_erase] at hw
    split_ifs at hw with ht
    obtain ⟨hkept, hs, ho⟩ := hk.uploads t w hw
    exact ⟨(write_of_ne s ht file).symm ▸ hkept, hs, fun h => (hmem h).elim ho ht⟩
  · rcases hmem ht with ht | rfl
    · exact hk.orphans t ht
    · exact hsent
  · obtain ⟨v, hv, hid, hof, hdisk⟩ := hk.entries id e he
    exact ⟨v, hv, hid, hof, (write_of_ne s (hne hv) file).trans hdisk⟩
  · have hgone := hk.gone t v hv
    rwa [← write_of_ne s (hne hv) file] at hgone
  · change (s.write temp file).disk path ≠ none at hpath
    rcases eq_or_ne path temp with rfl | hpne
    · rw [write_same] at hpath
      rcases hfile with ⟨hnone, -⟩ | rfl
      · exact absurd hnone hpath
      · exact .inr (.inl List.mem_cons_self)
    · rw [write_of_ne _ hpne] at hpath
      rcases hk.files path hpath with ⟨w, hw⟩ | ho | hrest
      · exact .inl ⟨w, (AList.lookup_erase_ne hpne).trans hw⟩
      · exact .inr (.inl (hold ho))
      · exact .inr (.inr hrest)

include hk in
lemma store {c : Copy} (hu : s.uploads.lookup temp = some u) (hphase : u.phase = .copying c)
    (hrest : u.rest = []) {uploadId : String} (hid : ∀ t v, s.sent.lookup t = some v →
      v.id ≠ uploadId) {entry : Entry} (htemp : entry.tempPath = temp)
    (hof : Sent.Of ⟨uploadId, u.req, u.name, c.content⟩ entry) (total : UInt64) :
    ({ s.endUpload temp with
      st := ⟨AList.insert uploadId entry s.st.entries, total⟩
      sent := AList.insert temp ⟨uploadId, u.req, u.name, c.content⟩ s.sent } :
        Server).Kept multer serveFile limit := by
  obtain ⟨hkept, hsent, horphan⟩ := hk.uploads temp u hu
  rw [Uploading.Kept, hphase] at hkept
  obtain ⟨hfile, -, chunks, hsource, hcontent⟩ := hkept
  rw [hrest, List.append_nil] at hsource
  have hne {t v} (hv : s.sent.lookup t = some v) : t ≠ temp :=
    ne_of_apply_ne s.sent.lookup (by rw [hv, hsent]; simp)
  have hmono {t v} (hv : s.sent.lookup t = some v) :
      (AList.insert temp ⟨uploadId, u.req, u.name, c.content⟩ s.sent).lookup t = some v :=
    (AList.lookup_insert_ne (hne hv)).trans hv
  have hcases {t v} (hv : (AList.insert temp ⟨uploadId, u.req, u.name, c.content⟩ s.sent).lookup t =
      some v) : t = temp ∧ v = ⟨uploadId, u.req, u.name, c.content⟩ ∨
        s.sent.lookup t = some v := by
    rw [HashMap.lookup_insert] at hv
    split_ifs at hv with ht
    · exact .inl ⟨ht, (Option.some.inj hv).symm⟩
    · exact .inr hv
  refine ⟨fun t w hw => ?_, fun t ht => ?_, fun t v t' v' hv hv' hids => ?_, fun t v hv => ?_,
    fun id e he => ?_, fun t v hv => ?_, fun path hpath => ⟨?_, fun id e he => ?_⟩,
    fun h d hd => ?_, fun path hpath => ?_, fun r hr => ?_⟩
  · change (AList.erase temp s.uploads).lookup t = some w at hw
    rw [HashMap.lookup_erase] at hw
    split_ifs at hw with ht
    obtain ⟨hw', hs, ho⟩ := hk.uploads t w hw
    exact ⟨hw', (AList.lookup_insert_ne ht).trans hs, ho⟩
  · have ht' : t ≠ temp := fun heq => horphan (heq ▸ ht)
    exact (AList.lookup_insert_ne ht').trans (hk.orphans t ht)
  · -- ids are fresh, so no other upload has this one
    rcases hcases hv with ⟨rfl, rfl⟩ | hold <;> rcases hcases hv' with ⟨rfl, rfl⟩ | hold'
    · rfl
    · exact absurd hids.symm (hid _ _ hold')
    · exact absurd hids (hid _ _ hold)
    · exact hk.ids _ _ _ _ hold hold' hids
  · rcases hcases hv with ⟨rfl, rfl⟩ | hold
    · exact ⟨chunks, hsource, hcontent⟩
    · exact hk.sent t v hold
  · change (AList.insert uploadId entry s.st.entries).lookup id = some e at he
    rw [HashMap.lookup_insert] at he
    split_ifs at he with heq
    · -- the new entry has the file as it was written
      obtain rfl := Option.some.inj he
      rw [htemp]
      exact ⟨_, AList.lookup_insert _, heq.symm, hof, hfile⟩
    · obtain ⟨v, hv, hrest⟩ := hk.entries id e he
      exact ⟨v, hmono hv, hrest⟩
  · rcases hcases hv with ⟨rfl, rfl⟩ | hold
    · exact .inr hfile
    · exact hk.gone t v hold
  · obtain ⟨v, hv⟩ := Option.ne_none_iff_exists'.mp (hk.janitor path hpath).1
    rw [hmono hv]
    exact Option.some_ne_none v
  · change (AList.insert uploadId entry s.st.entries).lookup id = some e at he
    rw [HashMap.lookup_insert] at he
    split_ifs at he with heq
    · obtain rfl := Option.some.inj he
      obtain ⟨v, hv⟩ := Option.ne_none_iff_exists'.mp (hk.janitor path hpath).1
      rw [htemp]
      exact (hne hv).symm
    · exact (hk.janitor path hpath).2 id e he
  · obtain ⟨v, hv, hrest⟩ := hk.downloads h d hd
    exact ⟨v, hmono hv, hrest⟩
  · rcases eq_or_ne path temp with rfl | hpne
    · exact .inr (.inr (.inr ⟨uploadId, entry, AList.lookup_insert _, htemp⟩))
    · refine (hk.files path hpath).imp ?_ (Or.imp_right (Or.imp_right ?_))
      · rintro ⟨w, hw⟩
        exact ⟨w, (AList.lookup_erase_ne hpne).trans hw⟩
      · rintro ⟨id, e, he, hp⟩
        obtain ⟨v, hv, hvid, -⟩ := hk.entries id e he
        have hidne : id ≠ uploadId := hvid ▸ hid _ v hv
        exact ⟨id, e, (AList.lookup_insert_ne hidne).trans he, hp⟩
  · obtain ⟨t, v, hv, hr'⟩ := hk.served r hr
    exact ⟨t, v, hmono hv, hr'⟩

lemma storeAt_ok {cfg : Config} {st st' : State} {roomId name mime uploadId : String}
    {size : UInt64} {entry : Entry}
    (h : st.storeAt cfg roomId name mime size temp now uploadId = (st', .ok entry)) :
    entry = ⟨uploadId, roomId, name, mime, size, temp, now, now + cfg.ttl⟩ ∧
      st' = ⟨AList.insert uploadId entry st.entries, st.total + size⟩ := by
  unfold State.storeAt at h
  split_ifs at h with hbudget
  · cases h
  · obtain ⟨rfl, hok⟩ := Prod.mk.inj h
    obtain rfl := Except.ok.inj hok
    exact ⟨rfl, rfl⟩

lemma storeAt_error {cfg : Config} {st st' : State} {roomId name mime uploadId : String}
    {size : UInt64} {err : StoreError}
    (h : st.storeAt cfg roomId name mime size temp now uploadId = (st', .error err)) :
    st' = st := by
  unfold State.storeAt at h
  split_ifs at h with hbudget
  · exact (Prod.mk.inj h).1.symm
  · cases h

include hk in
lemma stepUpload (hu : s.uploads.lookup temp = some u)
    (hid : ∀ t now uploadId, e = .finish t now uploadId →
      ∀ t' v, s.sent.lookup t' = some v → v.id ≠ uploadId)
    (hs : s.stepUpload cfg temp u e = some s') : s'.Kept multer serveFile limit := by
  obtain ⟨hkept, hsent, horphan⟩ := hk.uploads temp u hu
  rw [Uploading.Kept] at hkept
  cases e with
  | create t =>
    cases hphase : u.phase with
    | opening =>
      rw [hphase] at hkept
      simp only [Server.stepUpload, hphase] at hs
      split_ifs at hs with hfree <;> obtain rfl := Option.some.inj hs
      · -- the file is new, and empty
        exact hk.put hsent horphan ⟨rfl, rfl, [], hkept, rfl⟩
      · -- a file of that name is there already
        exact hk.setUpload hsent horphan trivial
    | copying _ | removing => simp [Server.stepUpload, hphase] at hs
  | chunk t =>
    cases hphase : u.phase with
    | copying c =>
      rw [hphase] at hkept
      obtain ⟨hfile, hhead, chunks, hsource, hcontent⟩ := hkept
      cases hrest : u.rest with
      | nil => simp [Server.stepUpload, hphase, hrest] at hs
      | cons item rest =>
        rw [hrest] at hsource
        cases item with
        | error err =>
          -- the body broke off
          simp only [Server.stepUpload, hphase, hrest, Option.some.injEq] at hs
          obtain rfl := hs
          exact hk.setUpload hsent horphan trivial
        | ok chunk =>
          -- the chunk goes to the end of the file
          simp only [Server.stepUpload, hphase, hrest, Option.some.injEq] at hs
          obtain rfl := hs
          refine hk.put hsent horphan ⟨rfl, push_head hhead, chunks ++ [chunk], ?_, ?_⟩
          · rw [List.map_append, List.append_assoc]
            exact hsource
          · rw [List.flatten_append, List.flatten_singleton, ← hcontent]
            rfl
    | opening | removing => simp [Server.stepUpload, hphase] at hs
  | finish t now uploadId =>
    cases hphase : u.phase with
    | copying c =>
      rw [hphase] at hkept
      obtain ⟨-, hhead, -⟩ := hkept
      cases hrest : u.rest with
      | cons item rest => simp [Server.stepUpload, hphase, hrest] at hs
      | nil =>
        simp only [Server.stepUpload, hphase, hrest] at hs
        split at hs
        · -- the budget allows it
          next st entry hstore =>
          obtain rfl := Option.some.inj hs
          obtain ⟨hentry, rfl⟩ := storeAt_ok hstore
          have hmime : detectContentType c.head = detectContentType c.content := by
            rw [hhead, detectContentType_take]
          subst hentry
          exact hk.store hu hphase hrest (hid t now uploadId rfl) rfl ⟨rfl, rfl, rfl, hmime⟩ _
        · -- the budget is used up
          next st err hstore =>
          obtain rfl := Option.some.inj hs
          obtain rfl := storeAt_error hstore
          exact hk.setUpload (u := ⟨u.req, u.name, [], .removing⟩) hsent horphan trivial
    | opening | removing => simp [Server.stepUpload, hphase] at hs
  | remove t =>
    cases hphase : u.phase with
    | removing =>
      simp only [Server.stepUpload, hphase, Option.some.injEq] at hs
      obtain rfl := hs
      exact hk.endUpload hu (.inl ⟨rfl, rfl⟩)
    | opening | copying _ => simp [Server.stepUpload, hphase] at hs
  | drop t =>
    -- whatever was written is left behind
    have hdrop : ({ s.endUpload temp with orphans := temp :: s.orphans } : Server).Kept
        multer serveFile limit := by
      have hend : ({ (s.write temp (s.disk temp)).endUpload temp with
          orphans := temp :: s.orphans } : Server).Kept multer serveFile limit :=
        hk.endUpload hu (.inr rfl)
      rwa [write_disk] at hend
    cases hphase : u.phase with
    | opening | copying _ =>
      simp only [Server.stepUpload, hphase, Option.some.injEq] at hs
      exact hs ▸ hdrop
    | removing => simp [Server.stepUpload, hphase] at hs
  | _ => cases hs

/-! ### Downloads and sweeps -/

include hk in
lemma setDownload {v : Sent} (hv : s.sent.lookup d.entry.tempPath = some v) (hid : v.id = d.id)
    (hroom : v.req.room = d.room) (hof : v.Of d.entry)
    (hopen : ∀ bytes, d.stage = .opened bytes → bytes = v.bytes) :
    (s.setDownload h d).Kept multer serveFile limit where
  uploads := hk.uploads
  orphans := hk.orphans
  ids := hk.ids
  sent := hk.sent
  entries := hk.entries
  gone := hk.gone
  janitor := hk.janitor
  downloads k d' hd' := by
    change (AList.insert h d s.downloads).lookup k = some d' at hd'
    rw [HashMap.lookup_insert] at hd'
    split_ifs at hd' with hkey
    · obtain rfl := Option.some.inj hd'
      exact ⟨v, hv, hid, hroom, hof, hopen⟩
    · exact hk.downloads k d' hd'
  files := hk.files
  served := hk.served

include hk in
lemma endDownload (h : ℕ) : (s.endDownload h).Kept multer serveFile limit where
  uploads := hk.uploads
  orphans := hk.orphans
  ids := hk.ids
  sent := hk.sent
  entries := hk.entries
  gone := hk.gone
  janitor := hk.janitor
  downloads k d hd := by
    change (AList.erase h s.downloads).lookup k = some d at hd
    rw [HashMap.lookup_erase] at hd
    split_ifs at hd
    exact hk.downloads k d hd
  files := hk.files
  served := hk.served

lemma touch_tempPath (cfg : Config) (now : SystemTime) (e : Entry) :
    (e.touch cfg now).tempPath = e.tempPath := by
  unfold Entry.touch
  dsimp only
  split_ifs <;> rfl

lemma touch_of {v : Sent} {e : Entry} (hof : v.Of e) : v.Of (e.touch cfg now) := by
  unfold Entry.touch
  dsimp only
  split_ifs
  · exact hof
  · exact ⟨hof.id, hof.room, hof.name, hof.mime⟩
  · exact hof

lemma lookup_touchAt {st : State} {id k : String} {e : Entry}
    (he : (st.touchAt cfg id now).entries.lookup k = some e) : ∃ e₀,
    st.entries.lookup k = some e₀ ∧ (e = e₀ ∨ e = e₀.touch cfg now) := by
  rw [State.touchAt, HashMap.lookup_modify] at he
  split_ifs at he with hkey
  · obtain ⟨e₀, he₀, rfl⟩ := Option.map_eq_some_iff.mp he
    exact ⟨e₀, hkey ▸ he₀, .inr rfl⟩
  · exact ⟨e, he, .inl rfl⟩

lemma touchAt_lookup {st : State} {k : String} {e : Entry} (he : st.entries.lookup k = some e)
    (id : String) : ∃ e', (st.touchAt cfg id now).entries.lookup k = some e' ∧
      e'.tempPath = e.tempPath := by
  rw [State.touchAt, HashMap.lookup_modify]
  split_ifs with hkey
  · rw [← hkey, he]
    exact ⟨_, rfl, touch_tempPath cfg now e⟩
  · exact ⟨e, he, rfl⟩

include hk in
lemma touchAt (id : String) :
    ({ s with st := s.st.touchAt cfg id now } : Server).Kept multer serveFile limit where
  uploads := hk.uploads
  orphans := hk.orphans
  ids := hk.ids
  sent := hk.sent
  entries k e he := by
    obtain ⟨e₀, he₀, hcase⟩ := lookup_touchAt he
    obtain ⟨v, hv, hid, hof, hfile⟩ := hk.entries k e₀ he₀
    rcases hcase with rfl | rfl
    · exact ⟨v, hv, hid, hof, hfile⟩
    · rw [touch_tempPath]
      exact ⟨v, hv, hid, touch_of hof, hfile⟩
  gone := hk.gone
  janitor path hpath := by
    refine ⟨(hk.janitor path hpath).1, fun k e he => ?_⟩
    obtain ⟨e₀, he₀, hcase⟩ := lookup_touchAt he
    have hne := (hk.janitor path hpath).2 k e₀ he₀
    rcases hcase with rfl | rfl
    · exact hne
    · rwa [touch_tempPath]
  downloads := hk.downloads
  files path hpath := by
    refine (hk.files path hpath).imp_right (Or.imp_right (Or.imp_right ?_))
    rintro ⟨k, e, he, rfl⟩
    exact ⟨k, touchAt_lookup he id⟩
  served := hk.served

lemma answer_of {v : Sent} {bytes : List UInt8} (hid : v.id = d.id) (hroom : v.req.room = d.room)
    (hof : v.Of d.entry) (hbytes : bytes = v.bytes) :
    (d.answer (serveFile d.req bytes)).Of serveFile v where
  id := hid.symm
  room := hroom.symm
  response := hbytes ▸ rfl
  contentType := hof.mime
  disposition := by rw [Download.answer, hof.name, String.toList_ofList]

include hk in
lemma stepDownload (hd : s.downloads.lookup h = some d)
    (hs : s.stepDownload cfg serveFile h d e = some s') : s'.Kept multer serveFile limit := by
  obtain ⟨v, hv, hid, hroom, hof, hopen⟩ := hk.downloads h d hd
  cases e with
  | «exists» k =>
    cases hstage : d.stage with
    | found =>
      simp only [Server.stepDownload, hstage] at hs
      split_ifs at hs with hgone <;> obtain rfl := Option.some.inj hs
      · -- the file is gone
        exact hk.endDownload h
      · exact hk.setDownload hv hid hroom hof fun _ hb => by cases hb
    | checked | opened _ => simp [Server.stepDownload, hstage] at hs
  | serve k =>
    cases hstage : d.stage with
    | checked =>
      simp only [Server.stepDownload, hstage] at hs
      split at hs
      · -- the file went between the two steps
        obtain rfl := Option.some.inj hs
        exact hk.endDownload h
      · next bytes hbytes =>
        obtain rfl := Option.some.inj hs
        refine hk.setDownload hv hid hroom hof fun b hb => ?_
        obtain rfl := Stage.opened.inj hb
        -- what was stored stays as it was while it is there
        rcases hk.gone _ v hv with hnone | hsome
        · rw [hnone] at hbytes
          cases hbytes
        · exact Option.some.inj (hbytes.symm.trans hsome)
    | found | opened _ => simp [Server.stepDownload, hstage] at hs
  | answer k now =>
    cases hstage : d.stage with
    | opened bytes =>
      simp only [Server.stepDownload, hstage] at hs
      split_ifs at hs <;> obtain rfl := Option.some.inj hs
      · -- a 404 touches no entry
        exact hk.endDownload h
      · have htouch : ({ s.endDownload h with
            st := s.st.touchAt cfg d.id now } : Server).Kept multer serveFile limit :=
          (hk.endDownload h).touchAt d.id
        refine { htouch with served := fun r hr => ?_ }
        rcases List.mem_cons.mp hr with rfl | hr
        · exact ⟨_, v, hv, answer_of hid hroom hof (hopen bytes hstage)⟩
        · exact hk.served r hr
    | found | checked => simp [Server.stepDownload, hstage] at hs
  | hangUp k =>
    obtain rfl := Option.some.inj hs
    exact hk.endDownload h
  | _ => cases hs

include hk in
lemma sweep (hj : s.janitor = []) : ({ s with
    st := (s.st.sweep now).1, janitor := (s.st.sweep now).2 } : Server).Kept multer serveFile limit where
  uploads := hk.uploads
  orphans := hk.orphans
  ids := hk.ids
  sent := hk.sent
  entries id e he := by
    rw [State.sweep, HashMap.lookup_retain] at he
    exact hk.entries id e (Option.filter_eq_some_iff.mp he).1
  gone := hk.gone
  janitor path hpath := by
    obtain ⟨e, he, rfl⟩ := List.mem_map.mp hpath
    obtain ⟨id, hid, hexp⟩ := mem_stale.mp he
    obtain ⟨v, hv, hvid, -⟩ := hk.entries id e hid
    refine ⟨by rw [hv]; exact Option.some_ne_none v, fun id' e' he' htemp => ?_⟩
    -- two entries of one file are one, and this one is taken out
    rw [State.sweep, HashMap.lookup_retain, Option.filter_eq_some_iff] at he'
    obtain ⟨hin, hkeep⟩ := he'
    obtain ⟨v', hv', hvid', -⟩ := hk.entries id' e' hin
    have hsame : v' = v := by
      rw [htemp, hv] at hv'
      exact (Option.some.inj hv').symm
    have hids : id' = id := by rw [← hvid, ← hvid', hsame]
    rw [hids, hid] at hin
    obtain rfl := Option.some.inj hin
    simp only [Entry.expired, Bool.not_eq_true', decide_eq_false_iff_not] at hkeep
    exact hkeep hexp
  downloads := hk.downloads
  files path hpath := by
    rcases hk.files path hpath with hu | ho | hjan | ⟨id, e, he, rfl⟩
    · exact .inl hu
    · exact .inr (.inl ho)
    · rw [hj] at hjan
      cases hjan
    · by_cases hexp : e.expiresAt < now
      · exact .inr (.inr (.inl (List.mem_map.mpr ⟨e, mem_stale.mpr ⟨id, he, hexp⟩, rfl⟩)))
      · refine .inr (.inr (.inr ⟨id, e, ?_, rfl⟩))
        rw [State.sweep, HashMap.lookup_retain, he, Option.filter_some, Entry.expired,
          decide_eq_false hexp]
        rfl
  served := hk.served

include hk in
lemma unlink {janitor : List PathBuf} (hj : s.janitor = path :: janitor) :
    ({ s.write path none with janitor } : Server).Kept multer serveFile limit := by
  obtain ⟨hsent, hlive⟩ := hk.janitor path (by rw [hj]; exact List.mem_cons_self)
  refine ⟨fun t w hw => ?_, hk.orphans, hk.ids, hk.sent, fun id e he => ?_, fun t v hv => ?_,
    fun p hp => hk.janitor p (by rw [hj]; exact List.mem_cons_of_mem _ hp), hk.downloads,
    fun p hp => ?_, hk.served⟩
  · obtain ⟨hkept, hs, ho⟩ := hk.uploads t w hw
    have hne : t ≠ path := fun heq => hsent (heq ▸ hs)
    exact ⟨(write_of_ne s hne none).symm ▸ hkept, hs, ho⟩
  · obtain ⟨v, hv, hid, hof, hfile⟩ := hk.entries id e he
    exact ⟨v, hv, hid, hof, (write_of_ne s (hlive id e he) none).trans hfile⟩
  · rcases eq_or_ne t path with rfl | hne
    · exact .inl (write_same s t none)
    · have hgone := hk.gone t v hv
      rwa [← write_of_ne s hne none] at hgone
  · change (s.write path none).disk p ≠ none at hp
    rcases eq_or_ne p path with rfl | hne
    · exact absurd (write_same s p none) hp
    · rw [write_of_ne _ hne] at hp
      rcases hk.files p hp with hu | ho | hjan | hlive
      · exact .inl hu
      · exact .inr (.inl ho)
      · rw [hj] at hjan
        exact .inr (.inr (.inl ((List.mem_cons.mp hjan).resolve_left hne)))
      · exact .inr (.inr (.inr hlive))

include hk in
lemma step (hf : Fresh s e) (hs : s.step cfg multer serveFile rooms e = some s')
    (hlimit : limit = Server.limit cfg) : s'.Kept multer serveFile limit := by
  cases e with
  | upload temp req =>
    simp only [Server.step] at hs
    split_ifs at hs with hused hroom
    · -- the room is unknown
      obtain rfl := Option.some.inj hs
      exact hk
    · split at hs
      · obtain rfl := Option.some.inj hs
        exact hk.setUpload hf.1 hf.2 trivial
      · next name rest hsource =>
        obtain rfl := Option.some.inj hs
        exact hk.setUpload hf.1 hf.2 (by rw [hlimit]; exact hsource)
  | finish temp now uploadId =>
    obtain ⟨u, hu, hs'⟩ := Option.bind_eq_some_iff.mp hs
    refine hk.stepUpload hu (fun _ _ _ heq t v hv hid => ?_) hs'
    injection heq with _ _ huid
    exact hf (List.mem_map.mpr ⟨v, HashMap.mem_values.mpr ⟨t, hv⟩, hid.trans huid.symm⟩)
  | create temp | chunk temp | remove temp | drop temp =>
    obtain ⟨u, hu, hs'⟩ := Option.bind_eq_some_iff.mp hs
    exact hk.stepUpload hu (fun _ _ _ heq => by cases heq) hs'
  | download h room id req now =>
    simp only [Server.step] at hs
    split_ifs at hs with hused
    split at hs
    · obtain rfl := Option.some.inj hs
      exact hk
    · next entry hget =>
      obtain rfl := Option.some.inj hs
      obtain ⟨hget', hroom⟩ := Option.filter_eq_some_iff.mp hget
      obtain ⟨hin, -⟩ := Option.filter_eq_some_iff.mp hget'
      obtain ⟨v, hv, hvid, hof, -⟩ := hk.entries id entry hin
      exact hk.setDownload (d := ⟨room, id, req, entry, .found⟩) hv hvid
        (hof.room.symm.trans (of_decide_eq_true hroom)) hof fun _ hb => by cases hb
  | «exists» h | serve h | answer h now | hangUp h =>
    obtain ⟨d, hd, hs'⟩ := Option.bind_eq_some_iff.mp hs
    exact hk.stepDownload hd hs'
  | sweep now =>
    simp only [Server.step] at hs
    split at hs
    · next hj =>
      obtain rfl := Option.some.inj hs
      exact hk.sweep hj
    · cases hs
  | unlink =>
    simp only [Server.step] at hs
    split at hs
    · cases hs
    · next hj =>
      obtain rfl := Option.some.inj hs
      exact hk.unlink hj

lemma reach (h : Machine.Reach (Server.step cfg multer serveFile rooms) Fresh .new s) :
    s.Kept multer serveFile (Server.limit cfg) :=
  h.invariant new fun _ _ _ hk hf hs => hk.step hf hs rfl

end Server.Kept

/-! ### What the clients see -/

lemma stream_ok {l : Limited} {body : List Item} {chunks : List (List UInt8)}
    (h : Limited.stream limit l body = chunks.map .ok) : body = chunks.map .ok := by
  induction body generalizing l chunks with
  | nil => rwa [Limited.stream] at h
  | cons item body ih =>
    rw [Limited.stream] at h
    obtain ⟨chunk, chunks, rfl, hitem, hrest⟩ := List.map_eq_cons_iff.mp h.symm
    rw [List.map_cons, ih hrest.symm]
    cases item with
    | error err => cases hitem
    | ok bytes =>
      rw [Limited.poll] at hitem
      split_ifs at hitem
      rw [hitem]

lemma Sent.Whole.raw {u : Sent} (h : u.Whole multer limit)
    (hraw : isMultipart u.req.contentType = false) :
    ∃ chunks : List (List UInt8), u.req.body = chunks.map .ok ∧ u.bytes = chunks.flatten := by
  obtain ⟨chunks, hsource, hbytes⟩ := h
  simp only [source, hraw, Bool.false_eq_true, if_false, Option.some.injEq, Prod.mk.injEq]
    at hsource
  exact ⟨chunks, stream_ok hsource.2, hbytes⟩

/-- **A download is of the upload.** However uploads, downloads and sweeps interleave, what is
served for an id is what `ServeFile` makes of all the bytes of the one upload that got that id, with
its name and type, and only to its own room. -/
theorem downloads_faithful
    (h : Machine.Reach (Server.step cfg multer serveFile rooms) Fresh .new s)
    {r : Served} (hr : r ∈ s.served) : ∃ temp u, s.sent.lookup temp = some u ∧ r.Of serveFile u ∧
      (∀ temp' u', s.sent.lookup temp' = some u' → u'.id = r.id → temp' = temp) ∧
      u.Whole multer (Server.limit cfg) ∧
      (isMultipart u.req.contentType = false →
        ∃ chunks : List (List UInt8), u.req.body = chunks.map .ok ∧
          r.response = serveFile r.req chunks.flatten) := by
  have hk := Server.Kept.reach h
  obtain ⟨temp, u, hu, hof⟩ := hk.served r hr
  refine ⟨temp, u, hu, hof, fun temp' u' hu' hid => ?_, hk.sent temp u hu, fun hraw => ?_⟩
  · exact hk.ids _ _ _ _ hu' hu (hid.trans hof.id)
  · obtain ⟨chunks, hbody, hbytes⟩ := (hk.sent temp u hu).raw hraw
    exact ⟨chunks, hbody, hbytes ▸ hof.response⟩

/-- The last bytes of a file, or all of them. -/
def tailOf : ServeFile := fun req bytes =>
  if req.headers = [("range", "bytes=1-")] then ⟨206, bytes.drop 1⟩ else ⟨200, bytes⟩

/-- Two uploads at once, the second of them cut off; the first is downloaded while it is swept. -/
def crossing : List Event :=
  [.upload "up-1" (rawRequest [[1], [2, 3]]), .upload "up-2" (rawRequest [[4], [5]]),
    .create "up-1", .create "up-2", .chunk "up-1", .chunk "up-2", .drop "up-2", .chunk "up-1",
    .finish "up-1" 0 "A", .download 0 "r" "A" ⟨"GET", [("range", "bytes=1-")], 0⟩ 100, .exists 0,
    .serve 0, .sweep 301, .unlink, .answer 0 302]

theorem downloads_faithful_crossing :
    let s := (Machine.run (Server.step (limited 9) (fun _ _ => none) tailOf ["r"]) .new
      crossing).getD .new
    ∃ temp u, s.sent.lookup temp = some u ∧
      Served.Of tailOf ⟨"r", "A", ⟨"GET", [("range", "bytes=1-")], 0⟩, "application/octet-stream",
        contentDisposition "attachment".toList "file".toList, ⟨206, [2, 3]⟩⟩ u ∧
      (∀ temp' u', s.sent.lookup temp' = some u' → u'.id = "A" → temp' = temp) ∧
      u.Whole (fun _ _ => none) (Server.limit (limited 9)) ∧
      (isMultipart u.req.contentType = false →
        ∃ chunks : List (List UInt8), u.req.body = chunks.map .ok ∧
          ⟨206, [2, 3]⟩ = tailOf ⟨"GET", [("range", "bytes=1-")], 0⟩ chunks.flatten) :=
  downloads_faithful
    (show Machine.Reach (Server.step (limited 9) (fun _ _ => none) tailOf ["r"]) Fresh .new _ from
      Machine.Reach.of_isSome (by decide +kernel) (by decide +kernel)) (by decide +kernel)

/-- Nothing is under way on the disk. -/
structure Server.Quiet (s : Server) : Prop where
  uploads : ∀ temp, s.uploads.lookup temp = none
  janitor : s.janitor = []

/-- The files that are there. -/
structure Server.Tidy (s : Server) : Prop where
  live : ∀ id e, s.st.entries.lookup id = some e → ∃ u, s.sent.lookup e.tempPath = some u ∧
    u.id = id ∧ s.disk e.tempPath = some u.bytes
  /-- also for a download that found the entry earlier -/
  found : ∀ h d, s.downloads.lookup h = some d → s.st.entries.lookup d.id ≠ none →
    ∃ u, s.sent.lookup d.entry.tempPath = some u ∧ u.id = d.id ∧
      s.disk d.entry.tempPath = some u.bytes
  owned : ∀ path, s.disk path ≠ none → s.uploads.lookup path ≠ none ∨ path ∈ s.orphans ∨
    path ∈ s.janitor ∨ ∃ id e, s.st.entries.lookup id = some e ∧ e.tempPath = path
  quiet : s.Quiet → ∀ path, s.disk path ≠ none ∧ path ∉ s.orphans ↔
    ∃ id e, s.st.entries.lookup id = some e ∧ e.tempPath = path

/-- **No file is lost and none is left over.** However the requests interleave, the file of an
entry is there as long as the entry is; every other file is being written, is about to be
removed or was left by an upload whose connection went away; and when nothing is under way only
the last kind and the entries' files are there. -/
theorem files_accounted (h : Machine.Reach (Server.step cfg multer serveFile rooms) Fresh .new s) :
    s.Tidy := by
  have hk := Server.Kept.reach h
  have hlive id e (he : s.st.entries.lookup id = some e) : ∃ u,
      s.sent.lookup e.tempPath = some u ∧ u.id = id ∧ s.disk e.tempPath = some u.bytes := by
    obtain ⟨u, hu, hid, -, hfile⟩ := hk.entries id e he
    exact ⟨u, hu, hid, hfile⟩
  refine ⟨hlive, fun k d hd hin => ?_, fun path hpath => ?_, fun hq path => ⟨fun hp => ?_, ?_⟩⟩
  · obtain ⟨e, he⟩ := Option.ne_none_iff_exists'.mp hin
    obtain ⟨u, hu, hid, hfile⟩ := hlive d.id e he
    obtain ⟨v, hv, hvid, -⟩ := hk.downloads k d hd
    have hpath : e.tempPath = d.entry.tempPath := hk.ids _ _ _ _ hu hv (hid.trans hvid.symm)
    rw [← hpath]
    exact ⟨u, hu, hid, hfile⟩
  · refine (hk.files path hpath).imp_left ?_
    rintro ⟨u, hu⟩
    rw [hu]
    exact Option.some_ne_none u
  · rcases hk.files path hp.1 with ⟨u, hu⟩ | ho | hjan | hentry
    · rw [hq.uploads] at hu
      cases hu
    · exact absurd ho hp.2
    · rw [hq.janitor] at hjan
      cases hjan
    · exact hentry
  · rintro ⟨id, e, he, rfl⟩
    obtain ⟨u, hu, -, hfile⟩ := hlive id e he
    refine ⟨by rw [hfile]; exact Option.some_ne_none _, fun ho => ?_⟩
    rw [hk.orphans _ ho] at hu
    cases hu

theorem files_accounted_crossing :
    ((Machine.run (Server.step (limited 9) (fun _ _ => none) tailOf ["r"]) .new crossing).getD
      .new).Tidy :=
  files_accounted
    (show Machine.Reach (Server.step (limited 9) (fun _ _ => none) tailOf ["r"]) Fresh .new _ from
      Machine.Reach.of_isSome (by decide +kernel) (by decide +kernel))

end Kept

end VoiceHub.Files
