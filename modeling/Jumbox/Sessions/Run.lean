import Jumbox.Library.Transition
import Jumbox.Sessions.Service
import Jumbox.Sessions.Cleanup

/-!
# Serial runs of the session service

A run is a list of calls, each at its own clock reading; nothing is assumed
about the readings. The run state adds to the world the identifiers `uuid4` has
returned, because a call can only be taken with one that is new. Where a call
deletes files it says which of them the operating system refuses to remove; a
sweep that meets one raises and is not a step of these runs.
-/

namespace Jumbox

namespace SessionService

inductive Call where
  | createSession (owner : AuthenticatedUser) (expiresInSeconds : ℤ) (burnAfterDownload : Bool)
      (id : Uuid) (draws : ℕ → Fin 9000 × Fin 9000)
  | burnSession (sessionId : Uuid) (unlinkFails : Path → Bool)
  | deleteSession (sessionId : Uuid) (owner : AuthenticatedUser) (unlinkFails : Path → Bool)
  | uploadItem (sessionId : Uuid) (owner : AuthenticatedUser) (filename : Str)
      (content : UploadStream) (sizeBytes : ℤ) (itemId : Uuid)
  | getSessionByCode (sessionCode : Str)
  | getSessionById (sessionId : Uuid)
  | getSessionItem (sessionCode : Str) (itemId : Uuid)
  | listMySessions (owner : AuthenticatedUser) (limit : ℕ)
  | initResumableItem (sessionId : Uuid) (owner : AuthenticatedUser) (originalName : Str)
      (totalSizeBytes : ℤ) (expectedSha256 : Option Str) (itemId : Uuid)
  | getItemOffset (sessionId itemId : Uuid) (owner : AuthenticatedUser)
  | appendItemChunk (request : ChunkRequest)
  | cleanupExpiredSessions (deadline : Option ℤ) (unlinkFails : Path → Bool)

structure Event where
  now : ℤ
  call : Call

/-- What a call returns when it raises nothing. -/
inductive Response where
  | done
  | session (s : Option TransferSession)
  | sessionItem (r : Option (TransferSession × TransferItem))
  | sessions (l : List TransferSession)
  | item (i : TransferItem)
  | offset (i : TransferItem) (n : ℕ)
  | chunk (i : Option TransferItem) (newOffset : ℕ) (completed : Bool)
  | count (n : ℕ)

/-- The sessions a response shows, itself or through one of their items. -/
def Response.sessionIds : Response → List Uuid
  | .done => []
  | .session s => s.toList.flatMap fun s => s.id :: s.items.map (·.sessionId)
  | .sessionItem r => r.toList.flatMap fun (s, i) =>
      i.sessionId :: s.id :: s.items.map (·.sessionId)
  | .sessions l => l.flatMap fun s => s.id :: s.items.map (·.sessionId)
  | .item i => [i.sessionId]
  | .offset i _ => [i.sessionId]
  | .chunk i _ _ => i.toList.map (·.sessionId)
  | .count _ => []

def respond {α : Type} (f : α → Response) (o : Outcome α) : Except Error Response × World :=
  (o.1.map f, o.2)

def exec (d : Deployment) (w : World) (e : Event) : Except Error Response × World :=
  match e.call with
  | .createSession owner secs burn id draws =>
      respond (.session ∘ some) (createSession w e.now owner secs burn id draws)
  | .burnSession sid unlinkFails => respond (fun _ => .done) (burnSession w sid unlinkFails)
  | .deleteSession sid owner unlinkFails =>
      respond (fun _ => .done) (deleteSession d w sid owner unlinkFails)
  | .uploadItem sid owner name content size itemId =>
      respond .item (uploadItem d w e.now sid owner name content size itemId)
  | .getSessionByCode code => respond .session (getSessionByCode w e.now code)
  | .getSessionById sid => respond .session (getSessionById w sid)
  | .getSessionItem code itemId => respond .sessionItem (getSessionItem w e.now code itemId)
  | .listMySessions owner limit => respond .sessions (listMySessions w owner limit)
  | .initResumableItem sid owner name size sha itemId =>
      respond .item (initResumableItem d w e.now sid owner name size sha itemId)
  | .getItemOffset sid itemId owner =>
      respond (fun r => .offset r.1 r.2) (getItemOffset d w sid itemId owner)
  | .appendItemChunk c =>
      respond (fun r => .chunk r.1 r.2.1 r.2.2) (appendItemChunk d w e.now c)
  | .cleanupExpiredSessions deadline unlinkFails =>
      respond .count (CleanupService.cleanupExpiredSessions w e.now deadline unlinkFails)

/-- The identifier a call draws. -/
def Call.newId : Call → Option Uuid
  | .createSession _ _ _ id _ => some id
  | .uploadItem _ _ _ _ _ itemId => some itemId
  | .initResumableItem _ _ _ _ _ itemId => some itemId
  | _ => none

structure State where
  world : World
  uuids : List Uuid

/-- The sweep is the one call that is not taken when it raises. -/
def Call.isSweep : Call → Bool
  | .cleanupExpiredSessions _ _ => true
  | _ => false

/-- A call that can be taken: what `uuid4` returns is new, a sweep succeeds. -/
def Taken (d : Deployment) (s : State) (e : Event) : Prop :=
  (∀ id ∈ e.call.newId, id ∉ s.uuids) ∧ (e.call.isSweep = true → (exec d s.world e).1.isOk = true)

instance (d : Deployment) (s : State) (e : Event) : Decidable (Taken d s e) :=
  inferInstanceAs (Decidable (_ ∧ _))

def system (d : Deployment) : System State Event where
  step s e :=
    if Taken d s e then some ⟨(exec d s.world e).2, e.call.newId.toList ++ s.uuids⟩ else none

/-- A new installation, on either backend. -/
def Initial (s : State) : Prop := ∃ backend, s = ⟨World.initial backend, []⟩

/-- The states serial runs lead to. -/
abbrev Reachable (d : Deployment) (s : State) : Prop := (system d).Reachable Initial s

theorem system_step {d : Deployment} {s s' : State} {e : Event} :
    (system d).step s e = some s' ↔
      Taken d s e ∧ s' = ⟨(exec d s.world e).2, e.call.newId.toList ++ s.uuids⟩ := by
  simp only [system]
  split
  · rename_i h
    simp only [h, true_and, Option.some.injEq, eq_comm (b := s')]
  · rename_i h
    simp [h]

/-! ## A run to evaluate

The witnesses and counterexamples below start from these events. -/

namespace Sample

def owner : AuthenticatedUser := ⟨Uuid.ofNat 100, "owner@example.org".toList, false⟩

def sessionId : Uuid := Uuid.ofNat 1

def itemId : Uuid := Uuid.ofNat 2

def code : Str := "1000-1000".toList

/-- A draw of the share-code generator. -/
def draw (n : ℕ) : Fin 9000 × Fin 9000 :=
  let half := Fin.ofNat 9000 n
  (half, half)

def create (burnAfterDownload : Bool) : Event :=
  ⟨0, .createSession owner 3600 burnAfterDownload sessionId fun _ => draw 0⟩

def upload (data : Bytes) : Event :=
  ⟨1, .uploadItem sessionId owner "notes.txt".toList (.ofBytes data) 0 itemId⟩

def init (totalSizeBytes : ℤ) : Event :=
  ⟨1, .initResumableItem sessionId owner "notes.txt".toList totalSizeBytes none itemId⟩

def chunk (chunkData : Bytes) (offset : ℤ) : ChunkRequest :=
  ⟨sessionId, itemId, owner, chunkData, offset⟩

def append (chunkData : Bytes) (offset : ℤ) : Event := ⟨2, .appendItemChunk (chunk chunkData offset)⟩

def run (ls : List Event) : Option State :=
  (system .default).run ⟨World.initial .sqlite, []⟩ ls

theorem reachable_start : Reachable .default ⟨World.initial .sqlite, []⟩ := .start ⟨.sqlite, rfl⟩

theorem reachable_run {ls : List Event} (h : (run ls).isSome) :
    Reachable .default ((run ls).get h) :=
  System.Reachable.of_run ⟨.sqlite, rfl⟩ h

def uploaded : List Event := [create false, upload [1, 2]]

theorem runs_uploaded : (run uploaded).isSome = true := by decide +kernel

/-- A late retry of a first chunk, for an item that is complete. -/
def reopened : List Event := uploaded ++ [append [1] 0]

theorem runs_reopened : (run reopened).isSome = true := by decide +kernel

end Sample

end SessionService

end Jumbox
