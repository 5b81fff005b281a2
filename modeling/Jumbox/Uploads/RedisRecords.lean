import Jumbox.Domain.Isoformat
import Jumbox.Library.Transition
import Jumbox.Platform.JsonText
import Jumbox.Uploads.Cache

/-!
# The records of `RedisUploadSessionRepository`

What Redis keeps is a text under a key: the JSON text of the fields of an upload
session. The cache that the services are modelled with keeps the sessions
themselves. A store of texts that is written by `save` and `delete` alone shows the
same sessions as that cache. Nothing else writes under these keys, so of the look-ups
of `get` only those are modelled that find what `save` has written.
-/

namespace Jumbox

/-- An upload session with the two timestamps that its record has. -/
structure UploadSessionRecord where
  session : UploadSession
  createdAt : ℤ
  updatedAt : ℤ
deriving DecidableEq

/-- A value of Redis and the instant it is dropped at, if it was given one. -/
structure RedisEntry where
  value : Str
  dropAt : Option ℤ

abbrev Redis := Str → Option RedisEntry

namespace RedisUploadSessionRepository

open JsonText (Value)

/-- `_key` -/
def key (sessionId : Uuid) : Str := "cargo:upload-session:".toList ++ sessionId.str

def statusValue : UploadSessionStatus → Str
  | .active => "active".toList
  | .completed => "completed".toList
  | .expired => "expired".toList
  | .failed => "failed".toList

/-- `UploadSessionStatus(value)` -/
def readStatus (value : Str) : Option UploadSessionStatus :=
  if value = "active".toList then some .active
  else if value = "completed".toList then some .completed
  else if value = "expired".toList then some .expired
  else if value = "failed".toList then some .failed
  else none

def orNull (s : Option Str) : Value :=
  match s with
  | none => .null
  | some s => .str s

def payload (r : UploadSessionRecord) : List (Str × Value) :=
  [("id".toList, .str r.session.id.str),
    ("owner_id".toList, .str r.session.ownerId.str),
    ("folder_id".toList, orNull (r.session.folderId.map Uuid.str)),
    ("original_name".toList, .str r.session.originalName),
    ("total_size_bytes".toList, .int r.session.totalSizeBytes),
    ("temp_path".toList, .str (Path.text r.session.tempPath)),
    ("received_bytes".toList, .int r.session.receivedBytes),
    ("status".toList, .str (statusValue r.session.status)),
    ("expires_at".toList, orNull (r.session.expiresAt.map isoformat)),
    ("created_at".toList, .str (isoformat r.createdAt)),
    ("updated_at".toList, .str (isoformat r.updatedAt))]

/-- `json.dumps(payload)`, where it raises nothing. -/
def text (r : UploadSessionRecord) : Option Str := JsonText.write [' '] (.obj (payload r))

/-! ## Reading a record -/

section LookUps

variable (fields : List (Str × Value)) (name : String)

def strAt : Option Str :=
  match JsonText.lookup name.toList fields with
  | some (.str s) => some s
  | _ => none

def intAt : Option ℤ :=
  match JsonText.lookup name.toList fields with
  | some (.int n) => some n
  | _ => none

/-- `read(data[name]) if data.get(name) else None` -/
def optionalAt {α : Type} (read : Str → Option α) : Option (Option α) :=
  match JsonText.lookup name.toList fields with
  | none => some none
  | some .null => some none
  | some (.str []) => some none
  | some (.str s) => (read s).map some
  | _ => none

end LookUps

def ofFields (data : List (Str × Value)) : Option UploadSessionRecord := do
  let id ← (strAt data "id").bind Uuid.parse
  let ownerId ← (strAt data "owner_id").bind Uuid.parse
  let folderId ← optionalAt data "folder_id" Uuid.parse
  let originalName ← strAt data "original_name"
  let totalSizeBytes ← intAt data "total_size_bytes"
  let tempPath ← strAt data "temp_path"
  let receivedBytes ← intAt data "received_bytes"
  let status ← (strAt data "status").bind readStatus
  let expiresAt ← optionalAt data "expires_at" fromisoformat
  let createdAt ← (strAt data "created_at").bind fromisoformat
  let updatedAt ← (strAt data "updated_at").bind fromisoformat
  return {
    session := { id, ownerId, folderId, originalName, totalSizeBytes,
                 tempPath := Path.join [] tempPath, receivedBytes, status, expiresAt }
    createdAt, updatedAt }

/-- The record of a text. -/
def load (raw : Str) : Option UploadSessionRecord :=
  match JsonText.read raw with
  | some (.obj data) => ofFields data
  | _ => none

/-! ## The repository -/

def live (now : ℤ) (e : RedisEntry) : Bool :=
  match e.dropAt with
  | none => true
  | some t => now < t

def get (redis : Redis) (now : ℤ) (sessionId : Uuid) : Except Error (Option UploadSessionRecord) :=
  match (redis (key sessionId)).filter (live now) with
  | none => .ok none
  | some e =>
      match load e.value with
      | none => .error ⟨.valueError, "no upload session".toList⟩
      | some r => .ok (some r)

/-- `none` where `json.dumps` raises. -/
def save (redis : Redis) (now : ℤ) (r : UploadSessionRecord) : Option Redis :=
  (text r).map fun value => Function.update redis (key r.session.id)
    (some ⟨value, r.session.expiresAt.map fun t =>
      now + UploadSessionCache.ttlSeconds now t * 1000000⟩)

def delete (redis : Redis) (sessionId : Uuid) : Redis := Function.update redis (key sessionId) none

/-! ## A record is read back -/

/-- The record can be written out: its instants are `datetime`s, its path has ordinary
components, and its numbers are not longer than `str` allows. -/
structure Storable (r : UploadSessionRecord) : Prop where
  totalSizeBytes : (Decimal.write r.session.totalSizeBytes).isSome
  receivedBytes : (Decimal.write r.session.receivedBytes).isSome
  tempPath : ∀ part ∈ r.session.tempPath, Path.Plain part
  expiresAt : ∀ t ∈ r.session.expiresAt, OnClock t
  createdAt : OnClock r.createdAt
  updatedAt : OnClock r.updatedAt

theorem key_injective : Function.Injective key := by
  intro a b h
  exact Uuid.str_injective (List.append_cancel_left h)

theorem readStatus_statusValue (status : UploadSessionStatus) :
    readStatus (statusValue status) = some status := by
  cases status <;> decide

theorem append_text (part : Str) (p : Path) :
    part ++ Path.text p = ['/'].intercalate (part :: p) := by
  induction p generalizing part with
  | nil => simp [Path.text, List.intercalate]
  | cons next p ih =>
      have hnext : Path.text (next :: p) = '/' :: (next ++ Path.text p) := rfl
      rw [hnext, ih next]
      simp [List.intercalate]

theorem splitOn_text {p : Path} (h : ∀ part ∈ p, Path.Plain part) :
    (Path.text p).splitOn '/' = [] :: p := by
  have hparts : ∀ l ∈ [] :: p, '/' ∉ l := by
    intro l hl
    rcases List.mem_cons.mp hl with rfl | hl
    · exact List.not_mem_nil
    · exact (h l hl).1
  have htext : Path.text p = ['/'].intercalate ([] :: p) := append_text [] p
  rw [htext]
  exact List.splitOn_intercalate '/' hparts (by simp)

theorem foldl_child {p : Path} (h : ∀ part ∈ p, Path.Plain part) (q : Path) :
    p.foldl Path.child q = q ++ p := by
  induction p generalizing q with
  | nil => exact (List.append_nil q).symm
  | cons part p ih =>
      rw [List.foldl_cons, Path.child_of_plain (h part List.mem_cons_self),
        ih fun c hc => h c (List.mem_cons_of_mem _ hc), List.append_assoc, List.singleton_append]

/-- `Path(str(path))` -/
theorem join_text {p : Path} (h : ∀ part ∈ p, Path.Plain part) :
    Path.join [] (Path.text p) = p := by
  have hchild : Path.child [] [] = [] := rfl
  rw [Path.join, splitOn_text h, ite_self, List.foldl_cons, hchild, foldl_child h, List.nil_append]

theorem text_isSome {r : UploadSessionRecord} (h : Storable r) : ∃ value, text r = some value := by
  obtain ⟨total, htotal⟩ := Option.isSome_iff_exists.mp h.totalSizeBytes
  obtain ⟨received, hreceived⟩ := Option.isSome_iff_exists.mp h.receivedBytes
  have hfolder : ∃ t, JsonText.write [' '] (orNull (r.session.folderId.map Uuid.str)) = some t := by
    cases r.session.folderId with
    | none => exact ⟨_, rfl⟩
    | some id => exact ⟨_, rfl⟩
  have hexpires :
      ∃ t, JsonText.write [' '] (orNull (r.session.expiresAt.map isoformat)) = some t := by
    cases r.session.expiresAt with
    | none => exact ⟨_, rfl⟩
    | some t => exact ⟨_, rfl⟩
  obtain ⟨folder, hfolder⟩ := hfolder
  obtain ⟨expires, hexpires⟩ := hexpires
  rw [← Option.isSome_iff_exists]
  simp [text, payload, JsonText.write, JsonText.writeFields, htotal, hreceived, hfolder, hexpires]

/-- An optional field is read back if its text is, and is not empty. -/
theorem optionalAt_orNull {α : Type} {fields : List (Str × Value)} {name : String}
    {read : Str → Option α} (write : α → Str) {x : Option α}
    (hlookup : JsonText.lookup name.toList fields = some (orNull (x.map write)))
    (hread : ∀ a ∈ x, read (write a) = some a) (hne : ∀ a ∈ x, write a ≠ []) :
    optionalAt fields name read = some x := by
  rw [optionalAt, hlookup]
  cases x with
  | none => rfl
  | some a =>
      have hread := hread a rfl
      have hne := hne a rfl
      show (match some (Value.str (write a)) with
        | none => some none
        | some .null => some none
        | some (.str []) => some none
        | some (.str s) => (read s).map some
        | _ => none) = some (some a)
      cases htext : write a with
      | nil => exact absurd htext hne
      | cons c rest =>
          rw [htext] at hread
          show (read (c :: rest)).map some = some (some a)
          rw [hread]
          rfl

theorem isoformat_ne_nil (t : ℤ) : isoformat t ≠ [] := by
  simp [isoformat]

theorem ofFields_payload {r : UploadSessionRecord} (h : Storable r) :
    ofFields (payload r) = some r := by
  have hfolder : optionalAt (payload r) "folder_id" Uuid.parse = some r.session.folderId :=
    optionalAt_orNull Uuid.str rfl (fun id _ => Uuid.parse_str id) fun id _ hnil => by
      have hlength := Uuid.length_str id
      rw [hnil] at hlength
      cases hlength
  have hexpires : optionalAt (payload r) "expires_at" fromisoformat = some r.session.expiresAt :=
    optionalAt_orNull isoformat rfl
      (fun t ht => fromisoformat_isoformat (h.expiresAt t ht)) fun t _ => isoformat_ne_nil t
  have hid : strAt (payload r) "id" = some r.session.id.str := rfl
  have howner : strAt (payload r) "owner_id" = some r.session.ownerId.str := rfl
  have hname : strAt (payload r) "original_name" = some r.session.originalName := rfl
  have htotal : intAt (payload r) "total_size_bytes" = some r.session.totalSizeBytes := rfl
  have hpath : strAt (payload r) "temp_path" = some (Path.text r.session.tempPath) := rfl
  have hreceived : intAt (payload r) "received_bytes" = some r.session.receivedBytes := rfl
  have hstatus : strAt (payload r) "status" = some (statusValue r.session.status) := rfl
  have hcreated : strAt (payload r) "created_at" = some (isoformat r.createdAt) := rfl
  have hupdated : strAt (payload r) "updated_at" = some (isoformat r.updatedAt) := rfl
  simp only [ofFields, hid, howner, hfolder, hname, htotal, hpath, hreceived, hstatus, hexpires,
    hcreated, hupdated, Uuid.parse_str, readStatus_statusValue, join_text h.tempPath,
    fromisoformat_isoformat h.createdAt, fromisoformat_isoformat h.updatedAt, bind, pure,
    Option.bind_some]

theorem load_text {r : UploadSessionRecord} (h : Storable r) :
    ∃ value, text r = some value ∧ load value = some r := by
  obtain ⟨value, hvalue⟩ := text_isSome h
  have hread : JsonText.read value = some (.obj (payload r)) :=
    JsonText.read_write (fun c hc => by rw [List.mem_singleton.mp hc]; decide) hvalue
  refine ⟨value, hvalue, ?_⟩
  rw [load, hread]
  exact ofFields_payload h

/-! ## Runs -/

inductive Op where
  | save (r : UploadSessionRecord)
  | delete (sessionId : Uuid)

structure Event where
  now : ℤ
  op : Op

/-- The texts in Redis under the calls of `save` and `delete`. -/
def system : System Redis Event where
  step redis e :=
    match e.op with
    | .save r => save redis e.now r
    | .delete sessionId => some (delete redis sessionId)

/-- The cache of sessions under the same calls. -/
def abstractStep (cache : UploadSessionCache) (e : Event) : UploadSessionCache :=
  match e.op with
  | .save r => cache.save e.now r.session
  | .delete sessionId => cache.delete sessionId

def Event.Storable (e : Event) : Prop :=
  match e.op with
  | .save r => RedisUploadSessionRepository.Storable r
  | .delete _ => True

/-- Under each key stands the text of the session in the cache. -/
def Represents (redis : Redis) (cache : UploadSessionCache) : Prop :=
  ∀ sessionId, match cache sessionId with
    | none => redis (key sessionId) = none
    | some e => ∃ value r, redis (key sessionId) = some ⟨value, e.dropAt⟩ ∧
        load value = some r ∧ r.session = e.session

theorem Represents.step {redis redis' : Redis} {cache : UploadSessionCache} {e : Event}
    (h : Represents redis cache) (he : e.Storable) (hstep : system.step redis e = some redis') :
    Represents redis' (abstractStep cache e) := by
  obtain ⟨now, op⟩ := e
  intro sessionId
  cases op with
  | save r =>
      obtain ⟨value, hvalue, hload⟩ := load_text he
      have hsave : save redis now r = some redis' := hstep
      rw [save, hvalue, Option.map_some] at hsave
      obtain rfl := Option.some.inj hsave
      by_cases hid : sessionId = r.session.id
      · subst hid
        have hentry : abstractStep cache ⟨now, .save r⟩ r.session.id = some ⟨r.session,
            r.session.expiresAt.map fun t => now + UploadSessionCache.ttlSeconds now t * 1000000⟩ :=
          Function.update_self ..
        rw [hentry]
        exact ⟨value, r, Function.update_self .., hload, rfl⟩
      · have hother : abstractStep cache ⟨now, .save r⟩ sessionId = cache sessionId :=
          Function.update_of_ne hid _ _
        rw [hother, Function.update_of_ne fun heq => hid (key_injective heq)]
        exact h sessionId
  | delete deleted =>
      obtain rfl := Option.some.inj hstep
      by_cases hid : sessionId = deleted
      · subst hid
        have hentry : abstractStep cache ⟨now, .delete sessionId⟩ sessionId = none :=
          Function.update_self ..
        rw [hentry]
        exact Function.update_self ..
      · have hother : abstractStep cache ⟨now, .delete deleted⟩ sessionId = cache sessionId :=
          Function.update_of_ne hid _ _
        rw [hother, delete, Function.update_of_ne fun heq => hid (key_injective heq)]
        exact h sessionId

theorem Represents.run {ls : List Event} {redis redis' : Redis} {cache : UploadSessionCache}
    (h : Represents redis cache) (hls : ∀ e ∈ ls, e.Storable)
    (hrun : system.run redis ls = some redis') :
    Represents redis' (ls.foldl abstractStep cache) := by
  induction ls generalizing redis cache with
  | nil =>
      cases hrun
      exact h
  | cons e ls ih =>
      obtain ⟨t, hstep, hrun⟩ := System.run_cons_eq_some.mp hrun
      exact ih (h.step (hls e List.mem_cons_self) hstep)
        (fun f hf => hls f (List.mem_cons_of_mem e hf)) hrun

theorem Represents.get {redis : Redis} {cache : UploadSessionCache} (h : Represents redis cache)
    (now : ℤ) (sessionId : Uuid) :
    (get redis now sessionId).map (Option.map UploadSessionRecord.session) =
      .ok (cache.get now sessionId) := by
  have hentry := h sessionId
  rw [RedisUploadSessionRepository.get, UploadSessionCache.get]
  cases hcache : cache sessionId with
  | none =>
      rw [hcache] at hentry
      rw [hentry]
      rfl
  | some e =>
      rw [hcache] at hentry
      obtain ⟨value, r, hredis, hload, hsession⟩ := hentry
      have hsame : live now ⟨value, e.dropAt⟩ = UploadSessionCache.live now e := rfl
      rw [hredis, Option.filter_some, Option.filter_some, hsame]
      cases UploadSessionCache.live now e with
      | false => rfl
      | true =>
          rw [if_pos rfl, if_pos rfl]
          dsimp only
          rw [hload, Option.map_some, ← hsession]
          rfl

/-- Whatever has been saved and deleted, `get` reads from the texts in Redis the
session that the cache of the services has, and raises nothing. -/
theorem get_eq_cache_get {ls : List Event} {redis : Redis} (hls : ∀ e ∈ ls, e.Storable)
    (hrun : system.run (fun _ => none) ls = some redis) (now : ℤ) (sessionId : Uuid) :
    (get redis now sessionId).map (Option.map UploadSessionRecord.session) =
      .ok ((ls.foldl abstractStep fun _ => none).get now sessionId) :=
  Represents.get (Represents.run (show Represents _ fun _ => none from fun _ => rfl) hls hrun)
    now sessionId

/-- A file name outside of ASCII, and an hour to upload it in. -/
def sampleRecord : UploadSessionRecord where
  session :=
    { ownerId := Uuid.ofNat 7
      originalName := "ação \"1\".pdf".toList
      totalSizeBytes := 5000000
      tempPath := ["data".toList, "tmp".toList, (Uuid.ofNat 9).str ++ ".part".toList]
      id := Uuid.ofNat 9
      expiresAt := some 1700003600000000 }
  createdAt := 1700000000123456
  updatedAt := 1700000000123456

theorem storable_sampleRecord : Storable sampleRecord where
  totalSizeBytes := by decide +kernel
  receivedBytes := by decide +kernel
  tempPath := by
    unfold Path.Plain
    decide +kernel
  expiresAt := by
    unfold OnClock maxInstant
    decide +kernel
  createdAt := by
    unfold OnClock maxInstant
    decide +kernel
  updatedAt := by
    unfold OnClock maxInstant
    decide +kernel

/-- The session can be read for its hour, and no longer. -/
theorem get_eq_cache_get_hour :
    ∃ redis, system.run (fun _ => none) [⟨1700000000123456, .save sampleRecord⟩] = some redis ∧
      (get redis 1700003599000000 (Uuid.ofNat 9)).map (Option.map UploadSessionRecord.session) =
        .ok (some sampleRecord.session) ∧
      (get redis 1700003599123456 (Uuid.ofNat 9)).map (Option.map UploadSessionRecord.session) =
        .ok none := by
  have hls : ∀ e ∈ [(⟨1700000000123456, .save sampleRecord⟩ : Event)], e.Storable := by
    intro e he
    rw [List.mem_singleton.mp he]
    exact storable_sampleRecord
  have hruns :
      (system.run (fun _ => none) [⟨1700000000123456, .save sampleRecord⟩]).isSome = true := by
    decide +kernel
  obtain ⟨redis, hrun⟩ := Option.isSome_iff_exists.mp hruns
  have hget := get_eq_cache_get hls hrun
  refine ⟨redis, hrun, ?_, ?_⟩
  · rw [hget]
    decide +kernel
  · rw [hget]
    decide +kernel

end RedisUploadSessionRepository

end Jumbox
