import Jumbox.Api.Routes
import Jumbox.Library.Transition

/-!
# `uploadFileResumable`

The upload function of `static/app.js`, run against the routes. It awaits one
HTTP exchange at a time, so its state is the exchange it is about to make and
the variables that are live there. Each exchange may be delivered, or lose its
request or its response; a lost one is a `fetch` that rejects. What the function
only shows the user, and how long it waits before a retry, is left out.
-/

namespace Jumbox

namespace Browser

/-- `CHUNK_SIZE` -/
def chunkSize : ℕ := 4 * 1024 * 1024

/-- `MAX_RETRIES` -/
def maxRetries : ℕ := 5

/-- The arguments of the function, the server it talks to, and the identifier
that the server draws for the item. -/
structure Upload where
  server : Api.Server
  file : Bytes
  name : Str
  sessionId : Uuid
  token : Str
  itemId : Uuid
  chunkSize : ℕ := Browser.chunkSize

inductive Fate where
  | delivered
  | requestLost
  | responseLost
deriving DecidableEq

/-- What happens to an exchange, and the clock of the server when it does. -/
structure Exchange where
  fate : Fate
  now : ℤ

/-- The exchange to be made next: `POST` to create the item, `GET` for the first
offset, `PATCH` with the chunk at an offset, `GET` for the offset after a
conflict. -/
inductive Phase where
  | init
  | probe (itemId : Uuid)
  | patch (itemId : Uuid) (offset attempt : ℕ)
  | reprobe (itemId : Uuid) (offset attempt : ℕ)
  | returned
  | failed
deriving DecidableEq

/-- What the browser gets to see of an exchange, and the world it leaves. -/
def exchange {α : Type} (x : Exchange) (w : World) (serve : World → Api.Reply α) :
    Option (Except Api.HTTPException α) × World :=
  match x.fate with
  | .requestLost => (none, w)
  | .responseLost => (none, (serve w).2)
  | .delivered => (some (serve w).1, (serve w).2)

namespace Upload

variable (u : Upload)

/-- `end` -/
def chunkEnd (offset : ℕ) : ℕ := min (offset + u.chunkSize) u.file.length

/-- `file.slice(offset, end)` -/
def chunkBlob (offset : ℕ) : Bytes := (u.file.take (u.chunkEnd offset)).drop offset

/-! ## What the function does next -/

/-- The test of the outer loop. -/
def outerLoop (itemId : Uuid) (offset : ℕ) : Phase :=
  if offset < u.file.length then .patch itemId offset 0 else .returned

/-- The `catch` clause of the inner loop. -/
def retry (itemId : Uuid) (offset attempt : ℕ) : Phase :=
  let attempt := attempt + 1
  if maxRetries ≤ attempt then .failed else .patch itemId offset attempt

def afterInit (reply : Option (Except Api.HTTPException Api.TransferItemResponse)) : Phase :=
  match reply with
  | none => .failed
  | some (.error _) => .failed
  | some (.ok initData) => if u.file.length = 0 then .returned else .probe initData.itemId

def afterProbe (itemId : Uuid) (reply : Option (Except Api.HTTPException Api.OffsetResponse)) :
    Phase :=
  match reply with
  | none => .failed
  -- an answer that is not `ok` leaves the offset at zero
  | some (.error _) => u.outerLoop itemId 0
  | some (.ok offsetData) => u.outerLoop itemId offsetData.bytesReceived

def afterPatch (itemId : Uuid) (offset attempt : ℕ)
    (reply : Option (Except Api.HTTPException Api.ChunkUploadResponse)) : Phase :=
  match reply with
  | none => retry itemId offset attempt
  | some (.ok chunkResult) => u.outerLoop itemId chunkResult.bytesReceived
  | some (.error e) =>
      if e.statusCode = 409 then .reprobe itemId offset attempt
      -- the `throw` of every other status ends in the same `catch`
      else retry itemId offset attempt

def afterReprobe (itemId : Uuid) (offset attempt : ℕ)
    (reply : Option (Except Api.HTTPException Api.OffsetResponse)) : Phase :=
  match reply with
  | none => retry itemId offset attempt
  | some (.ok offData) => u.outerLoop itemId offData.bytesReceived
  | some (.error _) => retry itemId offset attempt

/-! ## The requests -/

def post (now : ℤ) (w : World) : Api.Reply Api.TransferItemResponse :=
  Api.initResumableItem u.server w now (some u.token) u.sessionId u.name u.file.length none u.itemId

/-- The look-up of an offset carries no `Authorization` header. -/
def getOffset (now : ℤ) (itemId : Uuid) (w : World) : Api.Reply Api.OffsetResponse :=
  Api.getItemOffset u.server w now none u.sessionId itemId

def patchChunk (now : ℤ) (itemId : Uuid) (offset : ℕ) (w : World) :
    Api.Reply Api.ChunkUploadResponse :=
  Api.uploadItemChunk u.server w now (some u.token) u.sessionId itemId (.value offset)
    (u.chunkBlob offset)

/-- The chunk gets past the checks of the server and is written. -/
def appends (now : ℤ) (itemId : Uuid) (offset : ℕ) (w : World) : Bool :=
  match Api.getCurrentUser u.server now (some u.token) with
  | .error _ => false
  | .ok user =>
      match SessionService.openChunk w now ⟨u.sessionId, itemId, user, u.chunkBlob offset, offset⟩ with
      | (.error _, _) => false
      | (.ok _, w) =>
          (ChunkStorage.checkOffset u.server.deployment w.files u.sessionId itemId offset).isOk

end Upload

/-! ## The composition -/

/-- The function and the server together. `appended` lists the positions of the
file whose bytes the server has written, in order, and `lost` counts for each
chunk, by its offset, the exchanges that were lost. -/
structure State where
  phase : Phase
  world : World
  appended : List ℕ
  lost : ℕ → ℕ

def Upload.step (u : Upload) (s : State) (x : Exchange) : Option State :=
  match s.phase with
  | .init =>
      let (reply, w) := exchange x s.world (u.post x.now)
      some { s with phase := u.afterInit reply, world := w }
  | .probe itemId =>
      let (reply, w) := exchange x s.world (u.getOffset x.now itemId)
      some { s with phase := u.afterProbe itemId reply, world := w }
  | .patch itemId offset attempt =>
      let (reply, w) := exchange x s.world (u.patchChunk x.now itemId offset)
      some
        { phase := u.afterPatch itemId offset attempt reply
          world := w
          appended :=
            if x.fate ≠ .requestLost ∧ u.appends x.now itemId offset s.world = true then
              s.appended ++ List.range' offset (u.chunkBlob offset).length
            else s.appended
          lost :=
            if x.fate = .delivered then s.lost
            else Function.update s.lost offset (s.lost offset + 1) }
  | .reprobe itemId offset attempt =>
      let (reply, w) := exchange x s.world (u.getOffset x.now itemId)
      some { s with phase := u.afterReprobe itemId offset attempt reply, world := w }
  | .returned => none
  | .failed => none

def Upload.system (u : Upload) : System State Exchange := ⟨u.step⟩

/-- The function is called in the world `w`. -/
def start (w : World) : State := ⟨.init, w, [], fun _ => 0⟩

end Browser

end Jumbox
