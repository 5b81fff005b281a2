import Jumbox.Api.Traffic
import Jumbox.Browser.CodeField

/-!
# The receive page

`setupReceivePage` and `setupDirectSessionPage` of `static/app.js`, with what the browser
and the server have on their way for them: look-ups, answers, timers of "Download all",
followed links, files that the server has looked up and is about to send, and the burns
that downloads leave behind. All of it may happen in any order, downloads overlap, and
others use the server in between. The texts that the page shows are left out.
-/

namespace Jumbox

namespace Browser

namespace ReceivePage

/-- A `fetch` of `loadSession`, and its answer once the server has given one. -/
structure Lookup where
  code : Str
  answer : Option (Except Api.HTTPException Api.SessionDetailResponse)

/-- A download link that has been followed. -/
structure Link where
  code : Str
  item : Api.TransferItemResponse

/-- A download whose item has been looked up. -/
structure Serving where
  link : Link
  session : TransferSession
  item : TransferItem

structure SavedFile where
  link : Link
  response : FileResponse

structure State where
  sessions : SessionService.State
  /-- `codeInput.value`; the direct page has no such field. -/
  codeInput : Option Str
  lookups : List Lookup
  currentSession : Option Api.SessionDetailResponse
  /-- `contentWrap.hidden` -/
  hidden : Bool
  timers : List Api.TransferItemResponse
  links : List Link
  servings : List Serving
  burns : List Uuid
  saved : List SavedFile

inductive Step where
  | input (text : Str)
  | submit
  | answerLookup (n : ℕ) (now : ℤ)
  | arrive (n : ℕ)
  | loseLookup (n : ℕ)
  /-- The link of the `n`-th card is followed. -/
  | follow (n : ℕ)
  | downloadAll
  | fire (n : ℕ)
  /-- `get_session_item` of a followed link. -/
  | findItem (n : ℕ) (now : ℤ)
  /-- The rest of the route, with the answer. -/
  | serveItem (n : ℕ) (arrives : Bool)
  | loseLink (n : ℕ)
  | burn (n : ℕ) (unlinkFails : Path → Bool)
  /-- What somebody else asks of the server. -/
  | other (e : Traffic.Event)

/-! ## The server -/

/-- What the framework answers a code with that its pattern does not admit. -/
def unprocessable : Api.HTTPException := ⟨422, [], none⟩

def lookUp (w : World) (now : ℤ) (code : Str) : Api.Reply Api.SessionDetailResponse :=
  if h : RateLimiter.AdmittedCode code then Api.getSession w now ⟨code, h⟩
  else (.error unprocessable, w)

/-- `download_session_item`, up to the answer of `get_session_item`. -/
def findItem (w : World) (now : ℤ) (link : Link) : Api.Reply (TransferSession × TransferItem) :=
  if RateLimiter.AdmittedCode link.code then
    match SessionService.getSessionItem w now link.code link.item.itemId with
    | (.error _, w) => (.error Api.internalServerError, w)
    | (.ok none, w) => (.error ⟨404, "Item not found in session".toList, none⟩, w)
    | (.ok (some found), w) => (.ok found, w)
  else (.error unprocessable, w)

/-- The session that is burned once its file has been sent. -/
def burnAfter (session : TransferSession) : Option Uuid :=
  if session.burnAfterDownload then some session.id else none

/-- With nothing in between, the two parts are the route. -/
theorem downloadSessionItem_eq {link : Link} (h : RateLimiter.AdmittedCode link.code) (w : World)
    (now : ℤ) :
    Api.downloadSessionItem w now ⟨link.code, h⟩ link.item.itemId =
      match findItem w now link with
      | (.error e, w) => (.error e, w)
      | (.ok (session, item), w) =>
          match SessionService.serveItem w.files item with
          | .error e => (.error ⟨e.statusCode, e.detail, none⟩, w)
          | .ok response => (.ok (response, burnAfter session), w) := by
  unfold findItem Api.downloadSessionItem SessionService.downloadSessionItem
  rw [if_pos h]
  dsimp only
  rcases SessionService.getSessionItem w now link.code link.item.itemId with ⟨result, w'⟩
  cases result with
  | error e => rfl
  | ok found =>
      cases found with
      | none => rfl
      | some found =>
          obtain ⟨session, item⟩ := found
          dsimp only
          cases SessionService.serveItem w'.files item with
          | error e => rfl
          | ok response => rfl

/-! ## The page -/

def State.withWorld (s : State) (w : World) : State :=
  { s with sessions := ⟨w, s.sessions.uuids⟩ }

/-- `loadSession`, up to its `await`. -/
def loadSession (s : State) : Option Str → State
  | none => s
  | some cleanCode => { s with hidden := true, lookups := s.lookups ++ [⟨cleanCode, none⟩] }

/-- `loadSession`, from its `await` on. -/
def loaded (s : State) : Except Api.HTTPException Api.SessionDetailResponse → State
  | .ok session => { s with currentSession := some session, hidden := false }
  | .error _ => s

variable (d : Deployment) (upper : UpperCase)

def step (s : State) : Step → Option State
  | .input text =>
      match s.codeInput with
      | none => none
      | some _ =>
          let (value, cleanCode) := CodeField.onInput upper text
          some (loadSession { s with codeInput := some value } cleanCode)
  | .submit =>
      match s.codeInput with
      | none => none
      | some value => some (loadSession s (CodeField.cleanCode value))
  | .answerLookup n now =>
      match s.lookups[n]? with
      | some ⟨code, none⟩ =>
          let (answer, w) := lookUp s.sessions.world now code
          some { s.withWorld w with lookups := s.lookups.set n ⟨code, some answer⟩ }
      | _ => none
  | .arrive n =>
      match s.lookups[n]? with
      | some ⟨_, some answer⟩ => some (loaded { s with lookups := s.lookups.eraseIdx n } answer)
      | _ => none
  | .loseLookup n => some { s with lookups := s.lookups.eraseIdx n }
  | .follow n =>
      match s.currentSession with
      | none => none
      | some session =>
          if s.hidden then none
          else
            match session.items[n]? with
            | none => none
            | some item => some { s with links := s.links ++ [⟨session.sessionCode, item⟩] }
  | .downloadAll =>
      match s.currentSession with
      | none => none
      | some session =>
          if s.hidden then none else some { s with timers := s.timers ++ session.items }
  | .fire n =>
      -- the code is read when the timer fires, the item when the button was pressed
      match s.timers[n]?, s.currentSession with
      | some item, some session =>
          some
            { s with
              timers := s.timers.eraseIdx n
              links := s.links ++ [⟨session.sessionCode, item⟩] }
      | _, _ => none
  | .findItem n now =>
      match s.links[n]? with
      | none => none
      | some link =>
          match findItem s.sessions.world now link with
          | (.error _, w) => some { s.withWorld w with links := s.links.eraseIdx n }
          | (.ok (session, item), w) =>
              some
                { s.withWorld w with
                  links := s.links.eraseIdx n
                  servings := s.servings ++ [⟨link, session, item⟩] }
  | .serveItem n arrives =>
      match s.servings[n]? with
      | none => none
      | some ⟨link, session, item⟩ =>
          match SessionService.serveItem s.sessions.world.files item with
          | .error _ => some { s with servings := s.servings.eraseIdx n }
          | .ok response =>
              some
                { s with
                  servings := s.servings.eraseIdx n
                  burns := s.burns ++ (burnAfter session).toList
                  saved := if arrives then s.saved ++ [⟨link, response⟩] else s.saved }
  | .loseLink n => some { s with links := s.links.eraseIdx n }
  | .burn n unlinkFails =>
      match s.burns[n]? with
      | none => none
      | some sessionId =>
          some
            { s.withWorld (SessionService.burnSession s.sessions.world sessionId unlinkFails).2 with
              burns := s.burns.eraseIdx n }
  | .other e =>
      match (Traffic.system d).step s.sessions e with
      | none => none
      | some sessions => some { s with sessions }

def system : System State Step := ⟨step d upper⟩

/-- The receive page as it is opened. -/
def opened (sessions : SessionService.State) : State :=
  ⟨sessions, some [], [], none, true, [], [], [], [], []⟩

/-- The direct page of a code, which looks it up at once. -/
def openedAt (sessions : SessionService.State) (sessionCode : Str) : State :=
  ⟨sessions, none, [⟨sessionCode, none⟩], none, true, [], [], [], [], []⟩

/-! ## What a step can do -/

/-- The steps that can be taken, with what they find. -/
inductive Takes (d : Deployment) (upper : UpperCase) (s : State) : Step → State → Prop where
  | input {value : Str} (text : Str) (field : s.codeInput = some value) :
      Takes d upper s (.input text)
        (loadSession { s with codeInput := some (CodeField.onInput upper text).1 }
          (CodeField.onInput upper text).2)
  | submit {value : Str} (field : s.codeInput = some value) :
      Takes d upper s .submit (loadSession s (CodeField.cleanCode value))
  | answerLookup {n : ℕ} {code : Str} (now : ℤ) (sent : s.lookups[n]? = some ⟨code, none⟩) :
      Takes d upper s (.answerLookup n now)
        { s.withWorld (lookUp s.sessions.world now code).2 with
          lookups := s.lookups.set n ⟨code, some (lookUp s.sessions.world now code).1⟩ }
  | arrive {n : ℕ} {code : Str} {answer : Except Api.HTTPException Api.SessionDetailResponse}
      (answered : s.lookups[n]? = some ⟨code, some answer⟩) :
      Takes d upper s (.arrive n) (loaded { s with lookups := s.lookups.eraseIdx n } answer)
  | loseLookup (n : ℕ) :
      Takes d upper s (.loseLookup n) { s with lookups := s.lookups.eraseIdx n }
  | follow {n : ℕ} {session : Api.SessionDetailResponse} {item : Api.TransferItemResponse}
      (shown : s.currentSession = some session) (visible : s.hidden = false)
      (card : session.items[n]? = some item) :
      Takes d upper s (.follow n) { s with links := s.links ++ [⟨session.sessionCode, item⟩] }
  | downloadAll {session : Api.SessionDetailResponse} (shown : s.currentSession = some session)
      (visible : s.hidden = false) :
      Takes d upper s .downloadAll { s with timers := s.timers ++ session.items }
  | fire {n : ℕ} {item : Api.TransferItemResponse} {session : Api.SessionDetailResponse}
      (timer : s.timers[n]? = some item) (shown : s.currentSession = some session) :
      Takes d upper s (.fire n)
        { s with
          timers := s.timers.eraseIdx n
          links := s.links ++ [⟨session.sessionCode, item⟩] }
  | notFound {n : ℕ} {link : Link} {now : ℤ} {e : Api.HTTPException} {w : World}
      (followed : s.links[n]? = some link)
      (reply : findItem s.sessions.world now link = (.error e, w)) :
      Takes d upper s (.findItem n now) { s.withWorld w with links := s.links.eraseIdx n }
  | found {n : ℕ} {link : Link} {now : ℤ} {session : TransferSession} {item : TransferItem}
      {w : World} (followed : s.links[n]? = some link)
      (reply : findItem s.sessions.world now link = (.ok (session, item), w)) :
      Takes d upper s (.findItem n now)
        { s.withWorld w with
          links := s.links.eraseIdx n
          servings := s.servings ++ [⟨link, session, item⟩] }
  | missing {n : ℕ} {link : Link} {session : TransferSession} {item : TransferItem}
      (arrives : Bool) {e : HttpError} (looked : s.servings[n]? = some ⟨link, session, item⟩)
      (reply : SessionService.serveItem s.sessions.world.files item = .error e) :
      Takes d upper s (.serveItem n arrives) { s with servings := s.servings.eraseIdx n }
  | served {n : ℕ} {link : Link} {session : TransferSession} {item : TransferItem}
      (arrives : Bool) {response : FileResponse}
      (looked : s.servings[n]? = some ⟨link, session, item⟩)
      (reply : SessionService.serveItem s.sessions.world.files item = .ok response) :
      Takes d upper s (.serveItem n arrives)
        { s with
          servings := s.servings.eraseIdx n
          burns := s.burns ++ (burnAfter session).toList
          saved := if arrives then s.saved ++ [⟨link, response⟩] else s.saved }
  | loseLink (n : ℕ) : Takes d upper s (.loseLink n) { s with links := s.links.eraseIdx n }
  | burn {n : ℕ} {sessionId : Uuid} (unlinkFails : Path → Bool)
      (task : s.burns[n]? = some sessionId) :
      Takes d upper s (.burn n unlinkFails)
        { s.withWorld (SessionService.burnSession s.sessions.world sessionId unlinkFails).2 with
          burns := s.burns.eraseIdx n }
  | other {e : Traffic.Event} {sessions : SessionService.State}
      (call : (Traffic.system d).step s.sessions e = some sessions) :
      Takes d upper s (.other e) { s with sessions }

theorem takes_of_step {d : Deployment} {upper : UpperCase} {s t : State} {l : Step}
    (h : (system d upper).step s l = some t) : Takes d upper s l t := by
  change step d upper s l = some t at h
  unfold step at h
  split at h
  · split at h
    · cases h
    · rename_i hfield
      cases h
      exact .input _ hfield
  · split at h
    · cases h
    · rename_i hfield
      cases h
      exact .submit hfield
  · split at h
    · rename_i hsent
      cases h
      exact .answerLookup _ hsent
    · cases h
  · split at h
    · rename_i hanswered
      cases h
      exact .arrive hanswered
    · cases h
  · cases h
    exact .loseLookup _
  · split at h
    · cases h
    · rename_i hshown
      split at h
      · cases h
      · rename_i hvisible
        split at h
        · cases h
        · rename_i hcard
          cases h
          exact .follow hshown (Bool.not_eq_true _ ▸ hvisible) hcard
  · split at h
    · cases h
    · rename_i hshown
      split at h
      · cases h
      · rename_i hvisible
        cases h
        exact .downloadAll hshown (Bool.not_eq_true _ ▸ hvisible)
  · split at h
    · rename_i htimer hshown
      cases h
      exact .fire htimer hshown
    · cases h
  · split at h
    · cases h
    · rename_i hfollowed
      split at h
      · rename_i hreply
        cases h
        exact .notFound hfollowed hreply
      · rename_i hreply
        cases h
        exact .found hfollowed hreply
  · split at h
    · cases h
    · rename_i hlooked
      split at h
      · rename_i hreply
        cases h
        exact .missing _ hlooked hreply
      · rename_i hreply
        cases h
        exact .served _ hlooked hreply
  · cases h
    exact .loseLink _
  · split at h
    · cases h
    · rename_i htask
      cases h
      exact .burn _ htask
  · split at h
    · cases h
    · rename_i hcall
      cases h
      exact .other hcall

/-! ## What the steps do to the sessions -/

open SessionService (Call generateSessionCode)
open Traffic (Moves)

section Calls

variable {d : Deployment} {upper : UpperCase} {s : SessionService.State} {P : Call → Prop}

theorem moves_exec {now : ℤ} {call : Call} (hcall : P call) (hid : call.newId = none)
    (hsweep : call.isSweep = false) :
    Moves d P s ⟨(SessionService.exec d s.world ⟨now, call⟩).2, s.uuids⟩ := by
  refine .inr ⟨⟨now, call⟩, hcall, SessionService.system_step.mpr ⟨⟨?_, ?_⟩, ?_⟩⟩
  · intro id h
    rw [hid] at h
    cases h
  · intro h
    rw [hsweep] at h
    cases h
  · rw [hid]
    rfl

theorem findItem_world {link : Link} (h : RateLimiter.AdmittedCode link.code) (w : World)
    (now : ℤ) :
    (findItem w now link).2 =
      (SessionService.getSessionItem w now link.code link.item.itemId).2 := by
  unfold findItem
  rw [if_pos h]
  rcases SessionService.getSessionItem w now link.code link.item.itemId with ⟨result, w'⟩
  cases result with
  | error e => rfl
  | ok found =>
      cases found with
      | none => rfl
      | some found => rfl

/-- Neither a look-up nor a burn sends bytes. -/
theorem moves_lookUp (hs : Traffic.Inv d s)
    (hP : ∀ call, (∀ c, call ≠ .appendItemChunk c) → P call) (now : ℤ) (code : Str) :
    Moves d P s ⟨(lookUp s.world now code).2, s.uuids⟩ := by
  unfold lookUp
  split
  · rw [Api.getSession_world]
    exact @moves_exec d s P now (.getSessionByCode code) (hP _ fun c h => by cases h) rfl rfl
  · exact .refl hs P

theorem moves_findItem (hs : Traffic.Inv d s)
    (hP : ∀ call, (∀ c, call ≠ .appendItemChunk c) → P call) (now : ℤ) (link : Link) :
    Moves d P s ⟨(findItem s.world now link).2, s.uuids⟩ := by
  by_cases hcode : RateLimiter.AdmittedCode link.code
  · rw [findItem_world hcode]
    exact @moves_exec d s P now (.getSessionItem link.code link.item.itemId)
      (hP _ fun c h => by cases h) rfl rfl
  · unfold findItem
    rw [if_neg hcode]
    exact .refl hs P

theorem moves_burn (hP : ∀ call, (∀ c, call ≠ .appendItemChunk c) → P call) (sessionId : Uuid)
    (unlinkFails : Path → Bool) :
    Moves d P s ⟨(SessionService.burnSession s.world sessionId unlinkFails).2, s.uuids⟩ :=
  @moves_exec d s P 0 (.burnSession sessionId unlinkFails) (hP _ fun c h => by cases h) rfl rfl

@[simp] theorem loadSession_sessions (s : State) (code : Option Str) :
    (loadSession s code).sessions = s.sessions := by
  cases code with
  | none => rfl
  | some cleanCode => rfl

@[simp] theorem loaded_sessions (s : State)
    (answer : Except Api.HTTPException Api.SessionDetailResponse) :
    (loaded s answer).sessions = s.sessions := by
  cases answer with
  | error e => rfl
  | ok session => rfl

@[simp] theorem loadSession_servings (s : State) (code : Option Str) :
    (loadSession s code).servings = s.servings := by
  cases code with
  | none => rfl
  | some cleanCode => rfl

@[simp] theorem loaded_servings (s : State)
    (answer : Except Api.HTTPException Api.SessionDetailResponse) :
    (loaded s answer).servings = s.servings := by
  cases answer with
  | error e => rfl
  | ok session => rfl

@[simp] theorem loadSession_saved (s : State) (code : Option Str) :
    (loadSession s code).saved = s.saved := by
  cases code with
  | none => rfl
  | some cleanCode => rfl

@[simp] theorem loaded_saved (s : State)
    (answer : Except Api.HTTPException Api.SessionDetailResponse) :
    (loaded s answer).saved = s.saved := by
  cases answer with
  | error e => rfl
  | ok session => rfl

end Calls

/-- A step makes no call or one, and only others send bytes. -/
theorem Takes.moves {d : Deployment} {upper : UpperCase} {s t : State} {P : Call → Prop}
    {l : Step} (h : Takes d upper s l t) (hs : Traffic.Inv d s.sessions)
    (hP : ∀ call, (∀ c, call ≠ .appendItemChunk c) → P call)
    (hother : ∀ e, l = .other e → ∀ call, e.call = some call → P call) :
    Moves d P s.sessions t.sessions := by
  cases h with
  | input text =>
      rw [loadSession_sessions]
      exact .refl hs P
  | submit =>
      rw [loadSession_sessions]
      exact .refl hs P
  | answerLookup now => exact moves_lookUp hs hP now _
  | arrive =>
      rw [loaded_sessions]
      exact .refl hs P
  | loseLookup => exact .refl hs P
  | follow => exact .refl hs P
  | downloadAll => exact .refl hs P
  | fire => exact .refl hs P
  | @notFound n link now _ _ followed reply =>
      have hmoves : Moves d P s.sessions _ := moves_findItem hs hP now link
      rw [reply] at hmoves
      exact hmoves
  | @found n link now _ _ _ followed reply =>
      have hmoves : Moves d P s.sessions _ := moves_findItem hs hP now link
      rw [reply] at hmoves
      exact hmoves
  | missing => exact .refl hs P
  | served => exact .refl hs P
  | loseLink => exact .refl hs P
  | burn unlinkFails => exact moves_burn hP _ unlinkFails
  | @other e sessions call => exact Traffic.step_moves hs call (hother e rfl)

/-- Nothing is saved but a file that has been looked up. -/
theorem Takes.saved {d : Deployment} {upper : UpperCase} {s t : State} {l : Step}
    (h : Takes d upper s l t) {f : SavedFile} (hf : f ∈ t.saved) :
    f ∈ s.saved ∨ ∃ v ∈ s.servings, v.link = f.link ∧
      SessionService.serveItem s.sessions.world.files v.item = .ok f.response := by
  cases h with
  | input text =>
      rw [loadSession_saved] at hf
      exact .inl hf
  | submit =>
      rw [loadSession_saved] at hf
      exact .inl hf
  | arrive =>
      rw [loaded_saved] at hf
      exact .inl hf
  | served arrives looked reply =>
      dsimp only at hf
      split at hf
      · rcases List.mem_append.mp hf with hf | hf
        · exact .inl hf
        · obtain rfl := List.mem_singleton.mp hf
          exact .inr ⟨_, List.mem_of_getElem? looked, rfl, reply⟩
      · exact .inl hf
  | answerLookup => exact .inl hf
  | loseLookup => exact .inl hf
  | follow => exact .inl hf
  | downloadAll => exact .inl hf
  | fire => exact .inl hf
  | notFound => exact .inl hf
  | found => exact .inl hf
  | missing => exact .inl hf
  | loseLink => exact .inl hf
  | burn => exact .inl hf
  | other => exact .inl hf

/-- Nothing is looked up but for a followed link. -/
theorem Takes.servings {d : Deployment} {upper : UpperCase} {s t : State} {l : Step}
    (h : Takes d upper s l t) {v : Serving} (hv : v ∈ t.servings) :
    v ∈ s.servings ∨ v.link ∈ s.links ∧ ∃ now w,
      findItem s.sessions.world now v.link = (.ok (v.session, v.item), w) := by
  cases h with
  | input text =>
      rw [loadSession_servings] at hv
      exact .inl hv
  | submit =>
      rw [loadSession_servings] at hv
      exact .inl hv
  | arrive =>
      rw [loaded_servings] at hv
      exact .inl hv
  | @found n link now session item w followed reply =>
      rcases List.mem_append.mp hv with hv | hv
      · exact .inl hv
      · obtain rfl := List.mem_singleton.mp hv
        exact .inr ⟨List.mem_of_getElem? followed, now, w, reply⟩
  | missing => exact .inl (List.mem_of_mem_eraseIdx hv)
  | served => exact .inl (List.mem_of_mem_eraseIdx hv)
  | answerLookup => exact .inl hv
  | loseLookup => exact .inl hv
  | follow => exact .inl hv
  | downloadAll => exact .inl hv
  | fire => exact .inl hv
  | notFound => exact .inl hv
  | loseLink => exact .inl hv
  | burn => exact .inl hv
  | other => exact .inl hv

/-- The page shows the session, or is about to. -/
def Has (s : State) (session : Api.SessionDetailResponse) : Prop :=
  s.currentSession = some session ∨ ∃ l ∈ s.lookups, l.answer = some (.ok session)

theorem has_of_loadSession {s : State} {code : Option Str} {session : Api.SessionDetailResponse}
    (h : Has (loadSession s code) session) : Has s session := by
  cases code with
  | none => exact h
  | some cleanCode =>
      rcases h with hcurrent | ⟨l, hl, hanswer⟩
      · exact .inl hcurrent
      · rcases List.mem_append.mp hl with hl | hl
        · exact .inr ⟨l, hl, hanswer⟩
        · obtain rfl := List.mem_singleton.mp hl
          cases hanswer

/-- What the page has it had before, or the server has just answered a look-up with it. -/
theorem Takes.has {d : Deployment} {upper : UpperCase} {s t : State} {l : Step}
    (h : Takes d upper s l t) {session : Api.SessionDetailResponse} (hhas : Has t session) :
    Has s session ∨ ∃ now code, (lookUp s.sessions.world now code).1 = .ok session := by
  cases h with
  | input text =>
      have hold : Has { s with codeInput := some (CodeField.onInput upper text).1 } session :=
        has_of_loadSession hhas
      exact .inl hold
  | submit => exact .inl (has_of_loadSession hhas)
  | @answerLookup n code now sent =>
      rcases hhas with hcurrent | ⟨l, hl, hanswer⟩
      · exact .inl (.inl hcurrent)
      · rcases List.mem_or_eq_of_mem_set hl with hl | rfl
        · exact .inl (.inr ⟨l, hl, hanswer⟩)
        · exact .inr ⟨now, code, Option.some.inj hanswer⟩
  | @arrive n code answer answered =>
      have hmem := List.mem_of_getElem? answered
      left
      rcases hhas with hcurrent | ⟨l, hl, hanswer⟩
      · cases answer with
        | error e => exact .inl hcurrent
        | ok arrived =>
            obtain rfl := Option.some.inj hcurrent
            exact .inr ⟨_, hmem, rfl⟩
      · cases answer with
        | error e => exact .inr ⟨l, List.mem_of_mem_eraseIdx hl, hanswer⟩
        | ok arrived => exact .inr ⟨l, List.mem_of_mem_eraseIdx hl, hanswer⟩
  | loseLookup =>
      left
      rcases hhas with hcurrent | ⟨l, hl, hanswer⟩
      · exact .inl hcurrent
      · exact .inr ⟨l, List.mem_of_mem_eraseIdx hl, hanswer⟩
  | follow => exact .inl hhas
  | downloadAll => exact .inl hhas
  | fire => exact .inl hhas
  | notFound => exact .inl hhas
  | found => exact .inl hhas
  | missing => exact .inl hhas
  | served => exact .inl hhas
  | loseLink => exact .inl hhas
  | burn => exact .inl hhas
  | other => exact .inl hhas

/-! ## What the page knows -/

section Known

/-- What a card says of an item is so: its name and its session for good, its checksum as
long as the item is `quiet`, that is, nobody sends chunks for it. -/
structure Card (quiet : Uuid → Prop) (s : SessionService.State) (item : Api.TransferItemResponse) :
    Prop where
  issued : item.itemId ∈ s.uuids
  sessionId : ∀ i ∈ s.world.db.items.rows, i.id = item.itemId → i.sessionId = item.sessionId
  originalName : ∀ i ∈ s.world.db.items.rows, i.id = item.itemId →
    i.originalName = item.originalName
  checksum : quiet item.itemId → ∀ i ∈ s.world.db.items.rows, i.id = item.itemId →
    i.checksumSha256 = item.checksumSha256

/-- If the session is there, this is its code. -/
structure Coded (s : SessionService.State) (sessionId : Uuid) (code : Str) : Prop where
  issued : sessionId ∈ s.uuids
  sessionCode : ∀ m ∈ s.world.db.sessions.rows, m.id = sessionId → m.sessionCode = code

structure Listed (quiet : Uuid → Prop) (s : SessionService.State)
    (session : Api.SessionDetailResponse) : Prop where
  generated : ∃ draw, session.sessionCode = generateSessionCode draw
  coded : Coded s session.sessionId session.sessionCode
  sessionId : ∀ item ∈ session.items, item.sessionId = session.sessionId
  cards : ∀ item ∈ session.items, Card quiet s item

/-- The item that has been looked up is the card's, in a session that was found under the
code of the link. If it is quiet, its file is the one that the card tells of, as long as
the file is there. -/
structure Found (d : Deployment) (quiet : Uuid → Prop) (s : SessionService.State) (v : Serving) :
    Prop where
  id : v.item.id = v.link.item.itemId
  originalName : v.item.originalName = v.link.item.originalName
  coded : Coded s v.link.item.sessionId v.link.code
  issued : v.link.item.itemId ∈ s.uuids
  session : v.session.id ∈ s.uuids
  path : ∀ p, v.item.storagePath = some p → p = SessionService.itemPath d v.item
  checksum : quiet v.link.item.itemId → v.item.checksumSha256 = v.link.item.checksumSha256
  stored : quiet v.link.item.itemId → ∀ f, v.item.storagePath.bind s.world.files = some f →
    v.item.checksumSha256 = some (hexdigest f.data)

/-- The file has the name on its card, and its session was found under the code that the
link has. If the item is quiet, it has the checksum on the card and says so. -/
structure Genuine (quiet : Uuid → Prop) (s : SessionService.State) (f : SavedFile) : Prop where
  filename : f.response.filename = f.link.item.originalName
  coded : Coded s f.link.item.sessionId f.link.code
  issued : f.link.item.itemId ∈ s.uuids
  header : quiet f.link.item.itemId →
    f.response.header "X-Checksum-SHA256" = some (hexdigest f.response.body)
  checksum : quiet f.link.item.itemId →
    f.link.item.checksumSha256 = some (hexdigest f.response.body)

variable {d : Deployment} {P : Call → Prop} {quiet : Uuid → Prop} {s s' : SessionService.State}

theorem Card.kept {item : Api.TransferItemResponse} (h : Card quiet s item)
    (hmoves : Moves d P s s') (hP : ∀ c, P (.appendItemChunk c) → ¬ quiet c.itemId) :
    Card quiet s' item := by
  have hbefore : ∀ i ∈ s'.world.db.items.rows, i.id = item.itemId →
      ∃ k ∈ s.world.db.items.rows, SessionService.SameItem k i :=
    fun i hi hid => hmoves.item_before hi (hid ▸ h.issued)
  refine ⟨hmoves.issued h.issued, ?_, ?_, ?_⟩
  · intro i hi hid
    obtain ⟨k, hk, hsame⟩ := hbefore i hi hid
    exact hsame.sessionId.symm.trans (h.sessionId k hk (hsame.id.trans hid))
  · intro i hi hid
    obtain ⟨k, hk, hsame⟩ := hbefore i hi hid
    exact hsame.originalName.symm.trans (h.originalName k hk (hsame.id.trans hid))
  · intro hquiet i hi hid
    refine h.checksum hquiet i (hmoves.item_same hi (hid ▸ h.issued) ?_) hid
    intro c hc heq
    exact hP c hc (heq.trans hid ▸ hquiet)

theorem Coded.kept {sid : Uuid} {code : Str} (h : Coded s sid code) (hmoves : Moves d P s s') :
    Coded s' sid code where
  issued := hmoves.issued h.issued
  sessionCode r hr hid := by
    obtain ⟨m, hm, hsame⟩ := hmoves.session_before hr (hid ▸ h.issued)
    exact hsame.sessionCode.symm.trans (h.sessionCode m hm (hsame.id.trans hid))

theorem Listed.kept {session : Api.SessionDetailResponse} (h : Listed quiet s session)
    (hmoves : Moves d P s s') (hP : ∀ c, P (.appendItemChunk c) → ¬ quiet c.itemId) :
    Listed quiet s' session where
  generated := h.generated
  coded := h.coded.kept hmoves
  sessionId := h.sessionId
  cards item hitem := (h.cards item hitem).kept hmoves hP

/-- As long as nobody sends chunks for the item, its file stays or is removed. -/
theorem Found.kept {v : Serving} (h : Found d quiet s v) (hmoves : Moves d P s s')
    (hP : ∀ c, P (.appendItemChunk c) → ¬ quiet c.itemId) : Found d quiet s' v where
  id := h.id
  originalName := h.originalName
  coded := h.coded.kept hmoves
  issued := hmoves.issued h.issued
  session := hmoves.issued h.session
  path := h.path
  checksum := h.checksum
  stored hquiet f hf := by
    obtain ⟨p, hp, hfile⟩ := Option.bind_eq_some_iff.mp hf
    refine h.stored hquiet f (Option.bind_eq_some_iff.mpr ⟨p, hp, ?_⟩)
    have hother : ∀ c, P (.appendItemChunk c) → c.itemId ≠ v.item.id := by
      intro c hc heq
      exact hP c hc (heq.trans h.id ▸ hquiet)
    rw [h.path p hp] at hfile ⊢
    rcases hmoves.stored_or_gone (h.id ▸ h.issued) hother with hsame | hgone
    · exact hsame.symm.trans hfile
    · rw [hgone] at hfile
      cases hfile

theorem Genuine.kept {f : SavedFile} (h : Genuine quiet s f) (hmoves : Moves d P s s') :
    Genuine quiet s' f where
  filename := h.filename
  coded := h.coded.kept hmoves
  issued := hmoves.issued h.issued
  header := h.header
  checksum := h.checksum

/-- An answer lists what is there. -/
theorem listed_of_lookUp (hs : Traffic.Inv d s) {now : ℤ} {code : Str}
    {session : Api.SessionDetailResponse} (h : (lookUp s.world now code).1 = .ok session) :
    Listed quiet s session := by
  unfold lookUp at h
  split at h
  · obtain ⟨m, hm, -, hdetails⟩ := Api.getSession_ok h
    have hissued := hs.sessions.issued
    have hitems : ∀ item ∈ session.items, ∃ i ∈ s.world.db.items.rows, i.sessionId = m.id ∧
        Api.toItemResponse i = item := by
      intro item hitem
      rw [hdetails.items] at hitem
      obtain ⟨i, hi, rfl⟩ := List.mem_map.mp hitem
      obtain ⟨hi, hsid⟩ := Db.mem_itemsOf.mp hi
      exact ⟨i, hi, hsid, rfl⟩
    refine ⟨?_, ⟨?_, ?_⟩, ?_, ?_⟩
    · rw [hdetails.sessionCode]
      exact hs.codes.generated m hm
    · rw [hdetails.sessionId]
      exact hissued.sessions m hm
    · intro r hr hid
      obtain rfl := Table.eq_of_mem hr hm (hid.trans hdetails.sessionId)
      exact hdetails.sessionCode.symm
    · intro item hitem
      obtain ⟨i, -, hsid, rfl⟩ := hitems item hitem
      exact hsid.trans hdetails.sessionId.symm
    · intro item hitem
      obtain ⟨i, hi, -, rfl⟩ := hitems item hitem
      have hone : ∀ j ∈ s.world.db.items.rows, j.id = i.id → j = i :=
        fun j hj hid => Table.eq_of_mem hj hi hid
      refine ⟨hissued.items i hi, ?_, ?_, ?_⟩
      · intro j hj hid
        rw [hone j hj hid]
        rfl
      · intro j hj hid
        rw [hone j hj hid]
        rfl
      · intro _ j hj hid
        rw [hone j hj hid]
        rfl
  · cases h

/-- A code of the generator's making is its own normal form. -/
theorem normal_of_generated {code : Str} (h : ∃ draw, code = generateSessionCode draw) :
    (Str.strip code).upper = code := by
  have hrenders : SessionService.Form.hyphenated.Renders code code :=
    ⟨[], [], nofun, nofun, (List.append_nil code).symm⟩
  exact (SessionService.normalised_eq_iff h hrenders).mpr rfl

/-- What is behind a look-up that finds the item. -/
theorem findItem_ok {w w' : World} {now : ℤ} {link : Link} {session : TransferSession}
    {item : TransferItem} (h : findItem w now link = (.ok (session, item), w')) :
    ∃ m, SessionService.Shared w now link.code m ∧ session = w.db.sessionToDomain m ∧
      item ∈ w.db.items.rows ∧ item.id = link.item.itemId ∧ item.sessionId = m.id := by
  unfold findItem at h
  split at h
  · rcases SessionService.getSessionItem_cases w now link.code link.item.itemId with
      heq | ⟨m, -, heq⟩ | ⟨m, i, hm, hi, hid, hsid, heq⟩
    · rw [heq] at h
      cases h
    · rw [heq] at h
      cases h
    · rw [heq] at h
      cases h
      exact ⟨m, hm, rfl, hi, hid, hsid⟩
  · cases h

/-- The item that is found behind a link is what its card has said. -/
theorem found_of_findItem (hs : Traffic.Inv d s) {now : ℤ} {v : Serving} {w : World}
    (h : findItem s.world now v.link = (.ok (v.session, v.item), w))
    (hcode : ∃ draw, v.link.code = generateSessionCode draw) (hcard : Card quiet s v.link.item) :
    Found d quiet s v := by
  obtain ⟨m, hm, hsession, hitem, hid, hsid⟩ := findItem_ok h
  have hown := hcard.sessionId v.item hitem hid
  refine ⟨hid, hcard.originalName v.item hitem hid, ⟨?_, ?_⟩, hcard.issued, ?_,
    hs.sessions.consistent.paths v.item hitem, fun hquiet => hcard.checksum hquiet v.item hitem hid,
    ?_⟩
  · rw [← hown]
    exact hs.sessions.issued.itemSessions v.item hitem
  · intro r hr hrid
    rw [Table.eq_of_mem hr hm.mem (hrid.trans (hown.symm.trans hsid)), hm.code]
    exact normal_of_generated hcode
  · rw [hsession]
    exact hs.sessions.issued.sessions m hm.mem
  · intro _ f hf
    obtain ⟨p, hp, hfile⟩ := Option.bind_eq_some_iff.mp hf
    obtain ⟨g, hg, hsha, -⟩ := hs.sessions.consistent.intact v.item hitem m hm.mem hsid.symm p hp
    obtain rfl : g = f := Option.some.inj (hg.symm.trans hfile)
    exact hsha

theorem serveItem_ok {fs : Files} {item : TransferItem} {response : FileResponse}
    (h : SessionService.serveItem fs item = .ok response) :
    ∃ f, item.storagePath.bind fs = some f ∧ response =
      ⟨f.data, item.originalName, SessionService.downloadHeaders item.checksumSha256⟩ := by
  unfold SessionService.serveItem at h
  cases hfile : item.storagePath.bind fs with
  | none =>
      rw [hfile] at h
      cases h
  | some f =>
      rw [hfile] at h
      cases h
      exact ⟨f, rfl, rfl⟩

/-- What is served is what the card has said. -/
theorem Found.genuine {v : Serving} (h : Found d quiet s v) {response : FileResponse}
    (hserve : SessionService.serveItem s.world.files v.item = .ok response) :
    Genuine quiet s ⟨v.link, response⟩ := by
  obtain ⟨f, hfile, rfl⟩ := serveItem_ok hserve
  refine ⟨h.originalName, h.coded, h.issued, fun hquiet => ?_, fun hquiet => ?_⟩
  · refine (SessionService.headers_of_checksum (hexdigest_ne_nil f.data) ?_).2
    rw [h.stored hquiet f hfile]
  · exact (h.checksum hquiet).symm.trans (h.stored hquiet f hfile)

end Known

/-! ## Whatever the order -/

section Runs

variable {d : Deployment} {upper : UpperCase} {quiet : Uuid → Prop} {s t : State}

/-- What holds of the server holds, and what the page has, is waiting for, and has saved is
so. -/
structure Inv (d : Deployment) (quiet : Uuid → Prop) (s : State) : Prop where
  server : Traffic.Inv d s.sessions
  lookups : ∀ l ∈ s.lookups, ∀ session, l.answer = some (.ok session) →
    Listed quiet s.sessions session
  current : ∀ session, s.currentSession = some session → Listed quiet s.sessions session
  timers : ∀ item ∈ s.timers, Card quiet s.sessions item
  links : ∀ link ∈ s.links,
    (∃ draw, link.code = generateSessionCode draw) ∧ Card quiet s.sessions link.item
  servings : ∀ v ∈ s.servings, Found d quiet s.sessions v
  burns : ∀ sessionId ∈ s.burns, sessionId ∈ s.sessions.uuids
  saved : ∀ f ∈ s.saved, Genuine quiet s.sessions f

theorem Inv.kept {P : Call → Prop} (h : Inv d quiet s) {sessions : SessionService.State}
    (hmoves : Moves d P s.sessions sessions) (hP : ∀ c, P (.appendItemChunk c) → ¬ quiet c.itemId) :
    Inv d quiet { s with sessions } where
  server := hmoves.inv h.server
  lookups l hl session hanswer := (h.lookups l hl session hanswer).kept hmoves hP
  current session hsession := (h.current session hsession).kept hmoves hP
  timers item hitem := (h.timers item hitem).kept hmoves hP
  links link hlink := ⟨(h.links link hlink).1, (h.links link hlink).2.kept hmoves hP⟩
  servings v hv := (h.servings v hv).kept hmoves hP
  burns sessionId hburn := hmoves.issued (h.burns sessionId hburn)
  saved f hf := (h.saved f hf).kept hmoves

/-- Nobody else sends chunks for the quiet items. -/
def Leaves (quiet : Uuid → Prop) : Step → Prop
  | .other e => ∀ c, e.call = some (.appendItemChunk c) → ¬ quiet c.itemId
  | _ => True

theorem leaves_of_not_other {l : Step} (h : ∀ e, l ≠ .other e) : Leaves quiet l := by
  cases l with
  | other e => exact absurd rfl (h e)
  | _ => trivial

theorem leaves_none (l : Step) : Leaves (fun _ => False) l := by
  cases l with
  | other e => exact fun _ _ => id
  | _ => trivial

theorem Inv.loadSession (h : Inv d quiet s) (code : Option Str) :
    Inv d quiet (loadSession s code) := by
  cases code with
  | none => exact h
  | some cleanCode =>
      refine ⟨h.server, ?_, h.current, h.timers, h.links, h.servings, h.burns, h.saved⟩
      intro l hl session hanswer
      rcases List.mem_append.mp hl with hl | hl
      · exact h.lookups l hl session hanswer
      · obtain rfl := List.mem_singleton.mp hl
        cases hanswer

theorem Inv.loaded (h : Inv d quiet s) {answer : Except Api.HTTPException Api.SessionDetailResponse}
    (hanswer : ∀ session, answer = .ok session → Listed quiet s.sessions session) :
    Inv d quiet (loaded s answer) := by
  cases answer with
  | error e => exact h
  | ok session =>
      refine ⟨h.server, h.lookups, ?_, h.timers, h.links, h.servings, h.burns, h.saved⟩
      rintro session' ⟨rfl⟩
      exact hanswer session rfl

/-- A link that is followed has the code of what the page shows. -/
theorem Inv.linked (h : Inv d quiet s) {session : Api.SessionDetailResponse}
    (hsession : s.currentSession = some session) {item : Api.TransferItemResponse}
    (hitem : Card quiet s.sessions item) :
    ∀ link ∈ s.links ++ [⟨session.sessionCode, item⟩],
      (∃ draw, link.code = generateSessionCode draw) ∧ Card quiet s.sessions link.item := by
  intro link hlink
  rcases List.mem_append.mp hlink with hlink | hlink
  · exact h.links link hlink
  · obtain rfl := List.mem_singleton.mp hlink
    exact ⟨(h.current session hsession).generated, hitem⟩

theorem Inv.step {l : Step} (h : Inv d quiet s) (hleaves : Leaves quiet l)
    (htakes : Takes d upper s l t) : Inv d quiet t := by
  have hmoves : Moves d (fun call => ∀ c, call = .appendItemChunk c → ¬ quiet c.itemId)
      s.sessions t.sessions := by
    refine htakes.moves h.server (fun call hcall c hc => absurd hc (hcall c)) ?_
    rintro e rfl call hcall c rfl
    exact hleaves c hcall
  have hP : ∀ c, (∀ c', Call.appendItemChunk c = .appendItemChunk c' → ¬ quiet c'.itemId) →
      ¬ quiet c.itemId := fun c hc => hc c rfl
  have hkept : Inv d quiet { s with sessions := t.sessions } := h.kept hmoves hP
  cases htakes with
  | input text =>
      refine Inv.loadSession ?_ _
      exact ⟨h.server, h.lookups, h.current, h.timers, h.links, h.servings, h.burns, h.saved⟩
  | submit => exact h.loadSession _
  | answerLookup now =>
      refine ⟨hkept.server, ?_, hkept.current, hkept.timers, hkept.links, hkept.servings,
        hkept.burns, hkept.saved⟩
      intro l hl session hanswer
      rcases List.mem_or_eq_of_mem_set hl with hl | rfl
      · exact hkept.lookups l hl session hanswer
      · have hlisted : Listed quiet s.sessions session :=
          listed_of_lookUp h.server (Option.some.inj hanswer)
        exact hlisted.kept hmoves hP
  | arrive answered =>
      have hmem := List.mem_of_getElem? answered
      refine Inv.loaded ?_ fun session hanswer => h.lookups _ hmem session ?_
      · exact ⟨h.server, fun l hl => h.lookups l (List.mem_of_mem_eraseIdx hl), h.current,
          h.timers, h.links, h.servings, h.burns, h.saved⟩
      · rw [hanswer]
  | loseLookup =>
      exact ⟨h.server, fun l hl => h.lookups l (List.mem_of_mem_eraseIdx hl), h.current,
        h.timers, h.links, h.servings, h.burns, h.saved⟩
  | follow shown visible card =>
      have hcard := (h.current _ shown).cards _ (List.mem_of_getElem? card)
      exact ⟨h.server, h.lookups, h.current, h.timers, h.linked shown hcard, h.servings, h.burns,
        h.saved⟩
  | downloadAll shown =>
      refine ⟨h.server, h.lookups, h.current, ?_, h.links, h.servings, h.burns, h.saved⟩
      intro item hitem
      rcases List.mem_append.mp hitem with hitem | hitem
      · exact h.timers item hitem
      · exact (h.current _ shown).cards item hitem
  | fire timer shown =>
      have hcard := h.timers _ (List.mem_of_getElem? timer)
      exact ⟨h.server, h.lookups, h.current,
        fun item hitem => h.timers item (List.mem_of_mem_eraseIdx hitem),
        h.linked shown hcard, h.servings, h.burns, h.saved⟩
  | notFound =>
      exact ⟨hkept.server, hkept.lookups, hkept.current, hkept.timers,
        fun l hl => hkept.links l (List.mem_of_mem_eraseIdx hl), hkept.servings, hkept.burns,
        hkept.saved⟩
  | found followed reply =>
      obtain ⟨hcode, hcard⟩ := h.links _ (List.mem_of_getElem? followed)
      refine ⟨hkept.server, hkept.lookups, hkept.current, hkept.timers,
        fun l hl => hkept.links l (List.mem_of_mem_eraseIdx hl), ?_, hkept.burns, hkept.saved⟩
      intro v hv
      rcases List.mem_append.mp hv with hv | hv
      · exact hkept.servings v hv
      · obtain rfl := List.mem_singleton.mp hv
        exact (found_of_findItem h.server reply hcode hcard).kept hmoves hP
  | missing =>
      exact ⟨h.server, h.lookups, h.current, h.timers, h.links,
        fun v hv => h.servings v (List.mem_of_mem_eraseIdx hv), h.burns, h.saved⟩
  | served arrives looked reply =>
      have hfound := h.servings _ (List.mem_of_getElem? looked)
      refine ⟨h.server, h.lookups, h.current, h.timers, h.links,
        fun v hv => h.servings v (List.mem_of_mem_eraseIdx hv), ?_, ?_⟩
      · intro sessionId hburn
        rcases List.mem_append.mp hburn with hburn | hburn
        · exact h.burns sessionId hburn
        · unfold burnAfter at hburn
          split at hburn
          · obtain rfl := List.mem_singleton.mp hburn
            exact hfound.session
          · cases hburn
      · intro f hf
        dsimp only at hf
        split at hf
        · rcases List.mem_append.mp hf with hf | hf
          · exact h.saved f hf
          · obtain rfl := List.mem_singleton.mp hf
            exact hfound.genuine reply
        · exact h.saved f hf
  | loseLink =>
      exact ⟨h.server, h.lookups, h.current, h.timers,
        fun l hl => h.links l (List.mem_of_mem_eraseIdx hl), h.servings, h.burns, h.saved⟩
  | burn =>
      exact ⟨hkept.server, hkept.lookups, hkept.current, hkept.timers, hkept.links,
        hkept.servings,
        fun sessionId hburn => hkept.burns sessionId (List.mem_of_mem_eraseIdx hburn),
        hkept.saved⟩
  | other => exact hkept

/-- One of the two pages, as it is opened. -/
def Opened (sessions : SessionService.State) (s : State) : Prop :=
  s = opened sessions ∨ ∃ sessionCode, s = openedAt sessions sessionCode

theorem inv_of_opened {sessions : SessionService.State} (hs : Traffic.Inv d sessions)
    (hopened : Opened sessions s) : Inv d quiet s := by
  rcases hopened with rfl | ⟨sessionCode, rfl⟩
  · refine ⟨hs, nofun, nofun, nofun, nofun, ?_, nofun, nofun⟩
    intro v hv
    cases hv
  · refine ⟨hs, ?_, nofun, nofun, nofun, ?_, nofun, nofun⟩
    · intro l hl session hanswer
      obtain rfl := List.mem_singleton.mp hl
      cases hanswer
    · intro v hv
      cases hv

theorem inv_of_run {sessions : SessionService.State} (hs : Traffic.Reachable d sessions)
    (hopened : Opened sessions s) {ls : List Step} (hls : ∀ l ∈ ls, Leaves quiet l)
    (hrun : (system d upper).run s ls = some t) : Inv d quiet t :=
  System.holds_of_run (P := Inv d quiet) (K := Leaves quiet)
    (fun _ _ _ h hl hstep => h.step hl (takes_of_step hstep))
    (inv_of_opened (Traffic.inv_of_reachable hs) hopened) hls hrun

/-- A link with the code of another session is answered with 404. -/
theorem findItem_of_other (h : Inv d quiet t) {link : Link} (hlink : link ∈ t.links)
    {m : TransferSessionModel} (hm : m ∈ t.sessions.world.db.sessions.rows)
    (hid : m.id = link.item.sessionId) (hother : m.sessionCode ≠ link.code) (now : ℤ) :
    (findItem t.sessions.world now link).1 =
      .error ⟨404, "Item not found in session".toList, none⟩ := by
  obtain ⟨hcode, hcard⟩ := h.links link hlink
  unfold findItem
  rw [if_pos (CodeField.admitted_of_generated hcode)]
  rcases SessionService.getSessionItem_cases t.sessions.world now link.code link.item.itemId with
    heq | ⟨r, -, heq⟩ | ⟨r, i, hr, hi, hiid, hsid, heq⟩
  · rw [heq]
  · rw [heq]
  · have hown : m.id = r.id := hid.trans ((hcard.sessionId i hi hiid).symm.trans hsid)
    obtain rfl := Table.eq_of_mem hm hr.mem hown
    exact absurd (hr.code.trans (normal_of_generated hcode)) hother

/-- Whatever arrives late, gets lost, overlaps, is replaced or burned on the way: every file
that the page saves has the name on its card, was found in its card's own session, and,
unless somebody has sent chunks for it, has the checksum on the card and in its header. A
link that has got the code of another session is answered with 404. -/
theorem saved_files_match_cards {sessions : SessionService.State}
    (hs : Traffic.Reachable d sessions) (hopened : Opened sessions s) {ls : List Step}
    (hrun : (system d upper).run s ls = some t) :
    (∀ f ∈ t.saved,
      f.response.filename = f.link.item.originalName ∧
      (∀ m ∈ t.sessions.world.db.sessions.rows, m.id = f.link.item.sessionId →
        m.sessionCode = f.link.code) ∧
      ((∀ e c, Step.other e ∈ ls → e.call = some (.appendItemChunk c) →
          c.itemId ≠ f.link.item.itemId) →
        f.response.header "X-Checksum-SHA256" = some (hexdigest f.response.body) ∧
          f.link.item.checksumSha256 = some (hexdigest f.response.body))) ∧
    ∀ link ∈ t.links, ∀ m ∈ t.sessions.world.db.sessions.rows, m.id = link.item.sessionId →
      m.sessionCode ≠ link.code → ∀ now, (findItem t.sessions.world now link).1 =
        .error ⟨404, "Item not found in session".toList, none⟩ := by
  -- the items for which the run has no chunks
  have hleaves : ∀ l ∈ ls, Leaves (fun itemId => ∀ e c, Step.other e ∈ ls →
      e.call = some (.appendItemChunk c) → c.itemId ≠ itemId) l := by
    intro l hl
    by_cases hother : ∃ e, l = .other e
    · obtain ⟨e, rfl⟩ := hother
      exact fun c hc hquiet => hquiet e c hl hc rfl
    · exact leaves_of_not_other fun e he => hother ⟨e, he⟩
  have hinv := inv_of_run hs hopened hleaves hrun
  refine ⟨fun f hf => ?_, fun link hlink m hm hid hother now =>
    findItem_of_other hinv hlink hm hid hother now⟩
  have hgenuine := hinv.saved f hf
  exact ⟨hgenuine.filename, hgenuine.coded.sessionCode,
    fun hquiet => ⟨hgenuine.header hquiet, hgenuine.checksum hquiet⟩⟩

end Runs

namespace Sample

open SessionService.Sample (create upload)

/-- Two bytes are shared, the code is typed, and the file is downloaded. -/
def downloads : List Step :=
  [.other (.session (create false)), .other (.session (upload [1, 2])), .input "10001000".toList,
    .answerLookup 0 2, .arrive 0, .downloadAll, .fire 0, .findItem 0 3, .serveItem 0 true]

def run (ls : List Step) : Option State :=
  (system .default .ofAscii).run (opened ⟨World.initial .sqlite, []⟩) ls

theorem runs_downloads : (run downloads).isSome = true := by decide +kernel

theorem reachable_start : Traffic.Reachable .default ⟨World.initial .sqlite, []⟩ :=
  Traffic.reachable_of_sessions SessionService.Sample.reachable_start

end Sample

theorem saved_files_match_cards_downloads :
    ∃ f ∈ ((Sample.run Sample.downloads).get Sample.runs_downloads).saved,
      f.response.body = [1, 2] ∧ f.response.filename = f.link.item.originalName ∧
        f.link.item.checksumSha256 = some (hexdigest [1, 2]) := by
  have hsaved : ((Sample.run Sample.downloads).get Sample.runs_downloads).saved.map
      (·.response.body) = [[1, 2]] := by decide +kernel
  have hmem : [1, 2] ∈ ((Sample.run Sample.downloads).get Sample.runs_downloads).saved.map
      (·.response.body) := by
    rw [hsaved]
    exact List.mem_singleton_self _
  obtain ⟨f, hf, hbody⟩ := List.mem_map.mp hmem
  obtain ⟨hname, -, hquiet⟩ :=
    (saved_files_match_cards Sample.reachable_start (.inl rfl)
      (Option.some_get Sample.runs_downloads).symm).1 f hf
  refine ⟨f, hf, hbody, hname, ?_⟩
  rw [← hbody]
  refine (hquiet fun e c he hc => ?_).2
  simp only [Sample.downloads, List.mem_cons, List.not_mem_nil, or_false, Step.other.injEq,
    reduceCtorEq] at he
  rcases he with rfl | rfl
  · cases hc
  · cases hc

end ReceivePage

end Browser

end Jumbox
