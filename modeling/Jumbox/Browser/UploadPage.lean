import Jumbox.Api.Sessions
import Jumbox.Api.Traffic
import Jumbox.Browser.Success

/-!
# The upload page

The submit handler of `setupUploadPage` in `static/app.js`: it creates a session, shows
its code, and sends one selected file after the other with `uploadFileResumable`. Files
may be selected while it runs, and others use the server in between, which handles one
request at a time. The guards of the handler, files and a token, are part of the page,
and the form is submitted once. What it shows of speed and time is left out.
-/

namespace Jumbox

namespace Browser

/-- What `uploadFileResumable` hands to `onProgress` in one step. -/
def Upload.delta (u : Upload) (s : State) (x : Exchange) : ℤ :=
  match s.phase with
  | .patch itemId offset _ =>
      match (exchange x s.world (u.patchChunk x.now itemId offset)).1 with
      | some (.ok chunkResult) => chunkResult.bytesReceived - offset
      | _ => 0
  | _ => 0

structure SelectedFile where
  name : Str
  content : Bytes

/-- What the handler finds when the form is submitted, and what the server draws for it. -/
structure UploadPage where
  server : Api.Server
  token : Str
  selectedFiles : List SelectedFile
  selected : selectedFiles ≠ []
  payload : Api.CreateSessionRequest
  sessionId : Uuid
  draws : ℕ → Fin 9000 × Fin 9000
  itemId : ℕ → Uuid
  chunkSize : ℕ := Browser.chunkSize

namespace UploadPage

inductive Stage where
  | creating
  /-- The loop is at file `i`, which is `file`, and its upload at the phase. -/
  | uploading (sessionId : Uuid) (i : ℕ) (file : SelectedFile) (phase : Phase)
  | complete
  | failed

structure State where
  stage : Stage
  sessions : SessionService.State
  selectedFiles : List SelectedFile
  /-- `copyBtn.dataset.code` -/
  sessionCode : Option Str
  totalBytes : ℕ
  uploadedBytes : ℤ
  /-- The files whose uploads have returned. -/
  sent : List SelectedFile

/-- The sum over the files, as `reduce` makes it. -/
def totalBytes (files : List SelectedFile) : ℕ :=
  files.foldl (fun acc f => acc + f.content.length) 0

inductive Step where
  | exchange (x : Exchange)
  /-- Files are dropped, or chosen. -/
  | select (files : List SelectedFile)
  /-- What somebody else asks of the server. -/
  | other (e : Traffic.Event)

variable (page : UploadPage)

def upload (sessionId : Uuid) (i : ℕ) (file : SelectedFile) : Upload where
  server := page.server
  file := file.content
  name := file.name
  sessionId
  token := page.token
  itemId := page.itemId i
  chunkSize := page.chunkSize

/-- The upload of a file at a phase. -/
def resume (phase : Phase) (w : World) : Browser.State := ⟨phase, w, [], fun _ => 0⟩

/-- The test of the loop, and its first statement. -/
def loop (selectedFiles : List SelectedFile) (sessionId : Uuid) (i : ℕ) : Stage :=
  match selectedFiles[i]? with
  | none => .complete
  | some file => .uploading sessionId i file .init

/-- What follows a step of the upload of file `i`. -/
def proceed (selectedFiles : List SelectedFile) (sessionId : Uuid) (i : ℕ) (file : SelectedFile) :
    Phase → Stage
  | .returned => loop selectedFiles sessionId (i + 1)
  | .failed => .failed
  | phase => .uploading sessionId i file phase

/-- The identifier a request makes the server draw, if it gets there with a good token. -/
def drawn (x : Exchange) (id : Uuid) : List Uuid :=
  if x.fate ≠ .requestLost ∧ (Api.getCurrentUser page.server x.now (some page.token)).isOk then [id]
  else []

def createSession (x : Exchange) (w : World) :
    Option (Except Api.HTTPException Api.CreateSessionResponse) × World :=
  exchange x w fun w => Api.createSession page.server w x.now (some page.token) page.payload
    page.sessionId page.draws

def stepExchange (s : State) (x : Exchange) : Option State :=
  match s.stage with
  | .creating =>
      let ids := page.drawn x page.sessionId
      if ∀ id ∈ ids, id ∉ s.sessions.uuids then
        let (reply, world) := page.createSession x s.sessions.world
        let sessions : SessionService.State := ⟨world, ids ++ s.sessions.uuids⟩
        match reply with
        | some (.ok sessionData) =>
            some
              { s with
                stage := loop s.selectedFiles sessionData.sessionId 0
                sessions
                sessionCode := some sessionData.sessionCode
                totalBytes := totalBytes s.selectedFiles }
        | _ => some { s with stage := .failed, sessions }
      else none
  | .uploading sessionId i file phase =>
      let ids := if phase = .init then page.drawn x (page.itemId i) else []
      if ∀ id ∈ ids, id ∉ s.sessions.uuids then
        let u := page.upload sessionId i file
        let before := resume phase s.sessions.world
        match u.step before x with
        | none => none
        | some after =>
            some
              { s with
                -- the loop reads what is selected by now
                stage := proceed s.selectedFiles sessionId i file after.phase
                sessions := ⟨after.world, ids ++ s.sessions.uuids⟩
                uploadedBytes := s.uploadedBytes + u.delta before x
                sent := if after.phase = .returned then s.sent ++ [file] else s.sent }
      else none
  | .complete => none
  | .failed => none

def step (s : State) : Step → Option State
  | .exchange x => page.stepExchange s x
  | .select [] => none
  | .select (file :: rest) => some { s with selectedFiles := file :: rest }
  | .other e => match (Traffic.system page.server.deployment).step s.sessions e with
    | none => none
    | some sessions => some { s with sessions }

def system : System State Step := ⟨page.step⟩

/-- The form is submitted. -/
theorem stepExchange_creating {s t : State} {x : Exchange} (h : s.stage = .creating)
    (hstep : page.stepExchange s x = some t) :
    (∀ id ∈ page.drawn x page.sessionId, id ∉ s.sessions.uuids) ∧
      ((∃ sessionData, (page.createSession x s.sessions.world).1 = some (.ok sessionData) ∧
          t = ⟨loop s.selectedFiles sessionData.sessionId 0,
            ⟨(page.createSession x s.sessions.world).2,
              page.drawn x page.sessionId ++ s.sessions.uuids⟩, s.selectedFiles,
            some sessionData.sessionCode, totalBytes s.selectedFiles, s.uploadedBytes, s.sent⟩) ∨
        t = { s with
          stage := .failed
          sessions := ⟨(page.createSession x s.sessions.world).2,
            page.drawn x page.sessionId ++ s.sessions.uuids⟩ }) := by
  unfold stepExchange at hstep
  rw [h] at hstep
  dsimp only at hstep
  split at hstep
  · rename_i hfresh
    split at hstep
    · rename_i sessionData hreply
      cases hstep
      exact ⟨hfresh, .inl ⟨sessionData, hreply, rfl⟩⟩
    · cases hstep
      exact ⟨hfresh, .inr rfl⟩
  · cases hstep

theorem stepExchange_ended {s : State} (h : s.stage = .complete ∨ s.stage = .failed)
    (x : Exchange) : page.stepExchange s x = none := by
  unfold stepExchange
  rcases h with h | h
  · rw [h]
  · rw [h]

/-- A step of the upload of file `i`. -/
theorem stepExchange_uploading {s t : State} {x : Exchange} {sessionId : Uuid} {i : ℕ}
    {file : SelectedFile} {phase : Phase} (h : s.stage = .uploading sessionId i file phase) :
    page.stepExchange s x = some t ↔
      ∃ after,
        (∀ id ∈ (if phase = .init then page.drawn x (page.itemId i) else []),
          id ∉ s.sessions.uuids) ∧
        (page.upload sessionId i file).step (resume phase s.sessions.world) x = some after ∧
        t = ⟨proceed s.selectedFiles sessionId i file after.phase,
          ⟨after.world, (if phase = .init then page.drawn x (page.itemId i) else []) ++
            s.sessions.uuids⟩, s.selectedFiles, s.sessionCode, s.totalBytes,
          s.uploadedBytes +
            (page.upload sessionId i file).delta (resume phase s.sessions.world) x,
          if after.phase = .returned then s.sent ++ [file] else s.sent⟩ := by
  unfold stepExchange
  rw [h]
  dsimp only
  constructor
  · intro hstep
    by_cases hfresh : ∀ id ∈ (if phase = .init then page.drawn x (page.itemId i) else []),
        id ∉ s.sessions.uuids
    · rw [if_pos hfresh] at hstep
      cases hafter : (page.upload sessionId i file).step (resume phase s.sessions.world) x with
      | none =>
          rw [hafter] at hstep
          cases hstep
      | some after =>
          rw [hafter] at hstep
          exact ⟨after, hfresh, rfl, (Option.some.inj hstep).symm⟩
    · rw [if_neg hfresh] at hstep
      cases hstep
  · rintro ⟨after, hfresh, hafter, rfl⟩
    rw [if_pos hfresh, hafter]

theorem step_select {s t : State} {files : List SelectedFile}
    (hstep : page.step s (.select files) = some t) : t = { s with selectedFiles := files } := by
  cases files with
  | nil => cases hstep
  | cons file rest => exact (Option.some.inj hstep).symm

theorem step_other {s t : State} {e : Traffic.Event} (hstep : page.step s (.other e) = some t) :
    ∃ sessions, (Traffic.system page.server.deployment).step s.sessions e = some sessions ∧
      t = { s with sessions } := by
  unfold step at hstep
  dsimp only at hstep
  cases hsessions : (Traffic.system page.server.deployment).step s.sessions e with
  | none =>
      rw [hsessions] at hstep
      cases hstep
  | some sessions =>
      rw [hsessions] at hstep
      exact ⟨sessions, rfl, (Option.some.inj hstep).symm⟩

/-- The form is submitted while the sessions are `sessions`. -/
def start (sessions : SessionService.State) : State :=
  ⟨.creating, sessions, page.selectedFiles, none, 0, 0, []⟩

/-- The call is no chunk for file `i`. -/
def Avoids (i : ℕ) (call : SessionService.Call) : Prop :=
  ∀ c, call = .appendItemChunk c → c.itemId ≠ page.itemId i

/-- Nobody else sends chunks for the files of the page. -/
def Considerate : Step → Prop
  | .exchange _ => True
  | .select _ => True
  | .other e => ∀ call, e.call = some call → ∀ i, page.Avoids i call

/-! ## What the exchanges do to the sessions -/

section Moves

variable {page}

/-- What the server of the page does with one call, if any. -/
abbrev Moves (page : UploadPage) : (SessionService.Call → Prop) → SessionService.State →
    SessionService.State → Prop := Traffic.Moves page.server.deployment

theorem drawn_of_error {x : Exchange} {e : Api.HTTPException}
    (h : Api.getCurrentUser page.server x.now (some page.token) = .error e) (id : Uuid) :
    page.drawn x id = [] := by
  refine if_neg ?_
  rw [h]
  rintro ⟨-, hok⟩
  cases hok

theorem drawn_of_user {x : Exchange} {user : AuthenticatedUser}
    (h : Api.getCurrentUser page.server x.now (some page.token) = .ok user)
    (hsent : x.fate ≠ .requestLost) (id : Uuid) : page.drawn x id = [id] := by
  refine if_pos ⟨hsent, ?_⟩
  rw [h]
  rfl

theorem exchange_world {α : Type} {x : Exchange} (hsent : x.fate ≠ .requestLost) (w : World)
    (serve : World → Api.Reply α) : (exchange x w serve).2 = (serve w).2 := by
  obtain ⟨fate, now⟩ := x
  cases fate with
  | requestLost => exact absurd rfl hsent
  | delivered => rfl
  | responseLost => rfl

theorem exchange_lost {α : Type} {x : Exchange} (hlost : x.fate = .requestLost) (w : World)
    (serve : World → Api.Reply α) : exchange x w serve = (none, w) := by
  obtain ⟨fate, now⟩ := x
  cases hlost
  rfl

/-- An exchange whose request leads to one call with a fresh identifier, if any. -/
theorem moves_of_serve {α : Type} {P : SessionService.Call → Prop} {x : Exchange}
    {s : SessionService.State} (hs : Traffic.Inv page.server.deployment s)
    {serve : World → Api.Reply α} {ids : List Uuid} (hlost : x.fate = .requestLost → ids = [])
    (herror : ∀ e, Api.getCurrentUser page.server x.now (some page.token) = .error e →
      (serve s.world).2 = s.world ∧ ids = [])
    (huser : ∀ user, Api.getCurrentUser page.server x.now (some page.token) = .ok user →
      x.fate ≠ .requestLost → ∃ call, P call ∧ call.isSweep = false ∧ ids = call.newId.toList ∧
        (serve s.world).2 = (SessionService.exec page.server.deployment s.world ⟨x.now, call⟩).2)
    (hfresh : ∀ id ∈ ids, id ∉ s.uuids) :
    Moves page P s ⟨(exchange x s.world serve).2, ids ++ s.uuids⟩ := by
  by_cases hsent : x.fate = .requestLost
  · rw [exchange_lost hsent, hlost hsent]
    exact .refl hs P
  · rw [exchange_world hsent]
    cases hauth : Api.getCurrentUser page.server x.now (some page.token) with
    | error e =>
        obtain ⟨hworld, hids⟩ := herror e hauth
        rw [hworld, hids]
        exact .refl hs P
    | ok user =>
        obtain ⟨call, hcall, hsweep, rfl, hworld⟩ := huser user hauth hsent
        refine .inr ⟨⟨x.now, call⟩, hcall, SessionService.system_step.mpr ⟨⟨?_, ?_⟩, ?_⟩⟩
        · exact fun id hid => hfresh id (Option.mem_toList.mpr hid)
        · intro h
          exact absurd h (by rw [hsweep]; exact Bool.false_ne_true)
        · rw [hworld]

theorem drawn_of_lost {x : Exchange} (h : x.fate = .requestLost) (id : Uuid) :
    page.drawn x id = [] := if_neg fun hsent => hsent.1 h

theorem createSession_moves {x : Exchange} {s : SessionService.State}
    (hs : Traffic.Inv page.server.deployment s)
    (hfresh : ∀ id ∈ page.drawn x page.sessionId, id ∉ s.uuids) :
    Moves page (fun _ => True) s
      ⟨(page.createSession x s.world).2, page.drawn x page.sessionId ++ s.uuids⟩ := by
  refine moves_of_serve hs (drawn_of_lost · _) ?_ ?_ hfresh
  · intro e h
    exact ⟨congrArg Prod.snd (Api.withCurrentUser_of_error h _ _), drawn_of_error h _⟩
  · intro user h hsent
    exact ⟨.createSession user page.payload.expiresInSeconds page.payload.burnAfterDownload
      page.sessionId page.draws, trivial, rfl, drawn_of_user h hsent _,
      Api.createSession_world h _ _ _⟩

theorem post_moves {x : Exchange} {s : SessionService.State}
    (hs : Traffic.Inv page.server.deployment s) (i : ℕ) (file : SelectedFile)
    (hfresh : ∀ id ∈ page.drawn x (page.itemId i), id ∉ s.uuids) :
    Moves page (fun call => ∀ c, call ≠ .appendItemChunk c) s
      ⟨(exchange x s.world ((page.upload page.sessionId i file).post x.now)).2,
        page.drawn x (page.itemId i) ++ s.uuids⟩ := by
  refine moves_of_serve hs (drawn_of_lost · _) ?_ ?_ hfresh
  · intro e h
    exact ⟨congrArg Prod.snd (Api.withCurrentUser_of_error h _ _), drawn_of_error h _⟩
  · intro user h hsent
    refine ⟨.initResumableItem page.sessionId user file.name file.content.length none
      (page.itemId i), ?_, rfl, drawn_of_user h hsent _,
      Api.initResumableItem_world h _ ⟨file.name, file.content.length, none⟩ _⟩
    rintro c ⟨⟩

theorem patch_moves {x : Exchange} {s : SessionService.State}
    (hs : Traffic.Inv page.server.deployment s) (i : ℕ) (file : SelectedFile) (itemId : Uuid)
    (offset : ℕ) :
    Moves page (fun call => ∀ c, call = .appendItemChunk c → c.itemId = itemId) s
      ⟨(exchange x s.world
        ((page.upload page.sessionId i file).patchChunk x.now itemId offset)).2,
        [] ++ s.uuids⟩ := by
  refine moves_of_serve hs (fun _ => rfl) ?_ ?_ nofun
  · intro e h
    exact ⟨congrArg Prod.snd (Api.withCurrentUser_of_error h _ _), rfl⟩
  · intro user h _
    refine ⟨.appendItemChunk ⟨page.sessionId, itemId, user,
      (page.upload page.sessionId i file).chunkBlob offset, offset⟩, ?_, rfl, rfl,
      Api.uploadItemChunk_world h _ _ _ _⟩
    rintro c ⟨⟩
    rfl

theorem getOffset_moves {x : Exchange} {s : SessionService.State}
    (hs : Traffic.Inv page.server.deployment s) {P : SessionService.Call → Prop} (u : Upload)
    (itemId : Uuid) :
    Moves page P s ⟨(exchange x s.world (u.getOffset x.now itemId)).2, [] ++ s.uuids⟩ := by
  by_cases hsent : x.fate = .requestLost
  · rw [exchange_lost hsent]
    exact .refl hs P
  · rw [exchange_world hsent, getOffset_eq]
    exact .refl hs P

/-- The chunks of the call are for the item of the phase. -/
def Sends (phase : Phase) (call : SessionService.Call) : Prop :=
  ∀ c, call = .appendItemChunk c → ∃ offset attempt, phase = .patch c.itemId offset attempt

theorem upload_moves {x : Exchange} {s : SessionService.State} {i : ℕ} {file : SelectedFile}
    {phase : Phase} {after : Browser.State} (hs : Traffic.Inv page.server.deployment s)
    (hfresh : ∀ id ∈ (if phase = .init then page.drawn x (page.itemId i) else []), id ∉ s.uuids)
    (hstep : (page.upload page.sessionId i file).step (resume phase s.world) x = some after) :
    Moves page (Sends phase) s
      ⟨after.world, (if phase = .init then page.drawn x (page.itemId i) else []) ++ s.uuids⟩ := by
  cases phase with
  | init =>
      cases hstep
      exact (post_moves hs i file hfresh).mono fun call h c hc => absurd hc (h c)
  | probe itemId =>
      cases hstep
      exact getOffset_moves hs _ _
  | patch itemId offset attempt =>
      cases hstep
      refine (patch_moves hs i file itemId offset).mono fun call h c hc => ⟨offset, attempt, ?_⟩
      rw [h c hc]
  | reprobe itemId offset attempt =>
      cases hstep
      exact getOffset_moves hs _ _
  | returned => cases hstep
  | failed => cases hstep

end Moves

/-! ## What stays -/

section Stays

/-- The session of the page is there. -/
def Alive (page : UploadPage) (w : World) : Prop :=
  ∃ m ∈ w.db.sessions.rows, m.id = page.sessionId

/-- The code is the code of the session. -/
def Shows (page : UploadPage) (code : Option Str) (w : World) : Prop :=
  ∃ m ∈ w.db.sessions.rows, m.id = page.sessionId ∧ code = some m.sessionCode

/-- The server has a row of the file's name for it. -/
def Announced (page : UploadPage) (i : ℕ) (file : SelectedFile) (w : World) : Prop :=
  ∃ item ∈ w.db.items.rows, item.id = page.itemId i ∧ item.sessionId = page.sessionId ∧
    item.originalName = file.name

/-- The server has the file, or nothing to serve where the file is empty. -/
def Uploaded (page : UploadPage) (i : ℕ) (file : SelectedFile) (w : World) : Prop :=
  ∃ item ∈ w.db.items.rows, item.id = page.itemId i ∧ item.sessionId = page.sessionId ∧
    item.originalName = file.name ∧
    if file.content = [] then item.storagePath = none
    else ∃ p f, item.storagePath = some p ∧ w.files p = some f ∧ f.data = file.content

/-- Where the server has a file for file `i`, it is the file. -/
def Genuine (page : UploadPage) (i : ℕ) (file : SelectedFile) (w : World) : Prop :=
  ∀ item ∈ w.db.items.rows, item.id = page.itemId i → ∀ p, item.storagePath = some p →
    ∃ f, w.files p = some f ∧ f.data = file.content

/-- The upload of file `i` is under way. -/
structure Sending (page : UploadPage) (i : ℕ) (file : SelectedFile) (w : World) : Prop where
  serves : ∃ k, Serves (page.upload page.sessionId i file) w k
  announced : Announced page i file w
  genuine : Genuine page i file w
  distinct : ∀ j < i, page.itemId j ≠ page.itemId i

variable {page : UploadPage} {P : SessionService.Call → Prop} {s s' : SessionService.State}
  {i : ℕ} {file : SelectedFile}

theorem Moves.alive_before (h : Moves page P s s') (hissued : page.sessionId ∈ s.uuids)
    (halive : Alive page s'.world) : Alive page s.world := by
  obtain ⟨r, hr, hid⟩ := halive
  obtain ⟨m, hm, hsame⟩ := h.session_before hr (hid ▸ hissued)
  exact ⟨m, hm, hsame.id.trans hid⟩

theorem Moves.shows (h : Moves page P s s') (hissued : page.sessionId ∈ s.uuids)
    (halive : Alive page s'.world) {code : Option Str} (hshows : Shows page code s.world) :
    Shows page code s'.world := by
  obtain ⟨r, hr, hid⟩ := halive
  obtain ⟨m, hm, hsame⟩ := h.session_before hr (hid ▸ hissued)
  obtain ⟨m', hm', hid', hcode⟩ := hshows
  obtain rfl : m' = m := Table.eq_of_mem hm' hm (hid'.trans (hsame.id.trans hid).symm)
  exact ⟨r, hr, hid, hcode.trans (congrArg some hsame.sessionCode)⟩

/-- A row of the file is still of its name. -/
theorem Moves.named (h : Moves page P s s') (hs : Traffic.Inv page.server.deployment s)
    (hannounced : Announced page i file s.world) {item : TransferItem}
    (hitem : item ∈ s'.world.db.items.rows) (hid : item.id = page.itemId i) :
    item.sessionId = page.sessionId ∧ item.originalName = file.name := by
  obtain ⟨old, hold, hoid, hosid, hname⟩ := hannounced
  have hissued : item.id ∈ s.uuids :=
    (hid.trans hoid.symm) ▸ hs.sessions.issued.items old hold
  obtain ⟨k, hk, hsame⟩ := h.item_before hitem hissued
  obtain rfl : k = old := Table.eq_of_mem hk hold (hsame.id.trans (hid.trans hoid.symm))
  exact ⟨hsame.sessionId.symm.trans hosid, hsame.originalName.symm.trans hname⟩

variable (h : Moves page P s s') (hs : Traffic.Inv page.server.deployment s)
  (halive : Alive page s'.world) (havoids : ∀ call, P call → page.Avoids i call)

include h hs halive havoids

theorem Moves.uploaded (huploaded : Uploaded page i file s.world) :
    Uploaded page i file s'.world := by
  obtain ⟨item, hitem, hid, hsid, hname, hfile⟩ := huploaded
  have hother : ∀ c, P (.appendItemChunk c) → c.itemId ≠ item.id := by
    rw [hid]
    exact fun c hc => havoids _ hc c rfl
  unfold Alive at halive
  rw [← hsid] at halive
  obtain ⟨hkept, hfiles⟩ := h.item_kept hs hitem hother halive
  refine ⟨item, hkept, hid, hsid, hname, ?_⟩
  by_cases hempty : file.content = []
  · rw [if_pos hempty] at hfile ⊢
    exact hfile
  · rw [if_neg hempty] at hfile ⊢
    obtain ⟨p, f, hp, hf, hdata⟩ := hfile
    exact ⟨p, f, hp, (hfiles p hp).trans hf, hdata⟩

theorem Moves.genuine (hannounced : Announced page i file s.world)
    (hgenuine : Genuine page i file s.world) : Genuine page i file s'.world := by
  intro item hitem hid p hp
  have hsid := (h.named hs hannounced hitem hid).1
  obtain ⟨named, hnamed, hnid, -⟩ := hannounced
  have hissued : item.id ∈ s.uuids :=
    (hid.trans hnid.symm) ▸ hs.sessions.issued.items named hnamed
  have hother : ∀ c, P (.appendItemChunk c) → c.itemId ≠ item.id := by
    rw [hid]
    exact fun c hc => havoids _ hc c rfl
  have hbefore := h.item_same hitem hissued hother
  unfold Alive at halive
  rw [← hsid] at halive
  obtain ⟨f, hf, hdata⟩ := hgenuine item hbefore hid p hp
  exact ⟨f, ((h.item_kept hs hbefore hother halive).2 p hp).trans hf, hdata⟩

theorem Moves.sending (hsending : Sending page i file s.world) : Sending page i file s'.world := by
  have hother : ∀ c, P (.appendItemChunk c) → c.itemId ≠ page.itemId i :=
    fun c hc => havoids _ hc c rfl
  have hkept : ∀ item ∈ s.world.db.items.rows, item.id = page.itemId i →
      item.sessionId = page.sessionId → item ∈ s'.world.db.items.rows := by
    intro item hitem hid hsid
    unfold Alive at halive
    rw [← hsid] at halive
    exact (h.item_kept hs hitem (hid ▸ hother) halive).1
  have hgenuine := h.genuine hs halive havoids hsending.announced hsending.genuine
  obtain ⟨⟨k, hserves⟩, ⟨named, hnamed, hnid, hnsid, hname⟩, -, hdistinct⟩ := hsending
  refine ⟨⟨k, hserves.short, ?_, ?_⟩,
    ⟨named, hkept named hnamed hnid hnsid, hnid, hnsid, hname⟩, hgenuine, hdistinct⟩
  · obtain ⟨item, hitem, hid, hsid, hrest⟩ := hserves.item
    exact ⟨item, hkept item hitem hid hsid, hid, hsid, hrest⟩
  · have hpart := h.part_kept hs hother halive
    exact (Files.bytes_congr hpart).trans hserves.part

end Stays

end UploadPage

end Browser

end Jumbox
