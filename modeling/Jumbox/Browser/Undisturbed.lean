import Jumbox.Browser.Recovery
import Jumbox.Browser.Transferred
import Jumbox.Uploads.Codes

/-!
# An upload that nothing disturbs

If the network delivers every exchange, the token and the session last, one of the six
codes drawn is free and nobody else is there, then the page comes to its end, however
many files it has and however long they are: each exchange leaves less to do.
-/

namespace Jumbox

namespace Browser

open SessionService (OpenFor generateSessionCode)
open Allocation (SessionUnused)

/-- An open session takes the item. -/
theorem post_reply_of_open {u : Upload} {now : ℤ} {w : World} {user : AuthenticatedUser}
    (huser : Api.getCurrentUser u.server now (some u.token) = .ok user) {m : TransferSessionModel}
    (hm : OpenFor w now u.sessionId user m) :
    (∃ r, (u.post now w).1 = .ok r ∧ r.itemId = u.itemId) ∧
      (u.post now w).2.db.sessions = w.db.sessions := by
  rw [post_of_user u w huser, SessionService.initResumableItem_of_open hm]
  exact ⟨⟨_, rfl, rfl⟩, rfl⟩

namespace UploadPage

/-- What the page depends on, with `f n` for its exchange `n`. -/
structure Undisturbed (page : UploadPage) (user : AuthenticatedUser) (s₀ : SessionService.State)
    (f : ℕ → Exchange) : Prop where
  delivered : ∀ n, (f n).fate = .delivered
  token : ∀ n, page.server.tokens.getCurrentUser page.server.json (f n).now page.token = .ok user
  free : ∃ k < 6, SessionUnused s₀.world.db (generateSessionCode (page.draws k))
  expiry : page.payload.expiresInSeconds = 0 ∨
    ∃ e, addSeconds (f 0).now page.payload.expiresInSeconds = .ok e ∧ ∀ n, (f n).now ≤ e
  chunk : 0 < page.chunkSize
  session_fresh : page.sessionId ∉ s₀.uuids
  item_fresh : ∀ i < page.selectedFiles.length,
    page.itemId i ∉ s₀.uuids ∧ page.itemId i ≠ page.sessionId
  item_inj : ∀ i < page.selectedFiles.length, ∀ j < page.selectedFiles.length,
    page.itemId i = page.itemId j → i = j

variable {page : UploadPage} {user : AuthenticatedUser} {s₀ : SessionService.State}
  {f : ℕ → Exchange}

/-- The session is the user's, and open at every exchange. -/
def Open (page : UploadPage) (user : AuthenticatedUser) (f : ℕ → Exchange) (w : World) : Prop :=
  ∃ m ∈ w.db.sessions.rows, m.id = page.sessionId ∧ m.ownerId = user.userId ∧
    ∀ n, m.expiresAt.any (· < (f n).now) = false

theorem Open.openFor {w : World} (h : Open page user f w) (n : ℕ) :
    ∃ m, OpenFor w (f n).now page.sessionId user m := by
  obtain ⟨m, hm, hid, howner, hlive⟩ := h
  exact ⟨m, hm, hid, .inl howner, hlive n⟩

/-! ## One file -/

/-- The server is where the page is. -/
def Ready (page : UploadPage) (i : ℕ) (file : SelectedFile) (w : World) : Phase → Prop
  | .init => True
  | .probe itemId =>
      itemId = page.itemId i ∧ Serves (page.upload page.sessionId i file) w 0
  | .patch itemId offset _ =>
      itemId = page.itemId i ∧ Serves (page.upload page.sessionId i file) w offset
  | .reprobe _ _ _ => False
  | .returned => True
  | .failed => False

/-- A bound on the exchanges that are left for a file. -/
def left (file : SelectedFile) : Phase → ℕ
  | .init => file.content.length + 2
  | .probe _ => file.content.length + 1
  | .patch _ offset _ => file.content.length - offset
  | _ => 0

/-- What an exchange of the upload of file `i` brings about. -/
def Shortens (page : UploadPage) (user : AuthenticatedUser) (f : ℕ → Exchange) (i : ℕ)
    (file : SelectedFile) (phase : Phase) (after : Browser.State) : Prop :=
  Open page user f after.world ∧ after.phase ≠ .init ∧
    Ready page i file after.world after.phase ∧ left file after.phase < left file phase

variable {i : ℕ} {file : SelectedFile} {s : SessionService.State} {n : ℕ}

section Exchanges

variable (hu : Undisturbed page user s₀ f) (hopen : Open page user f s.world)

include hu hopen

theorem shortens_init (hs : SessionService.Inv page.server.deployment s)
    (hfresh : page.itemId i ∉ s.uuids) :
    ∃ after, (page.upload page.sessionId i file).step (resume .init s.world) (f n) = some after ∧
      Shortens page user f i file .init after := by
  obtain ⟨m, hm⟩ := hopen.openFor n
  have huser := Api.getCurrentUser_of_token (hu.token n)
  obtain ⟨⟨r, hr, hid⟩, hsessions⟩ :=
    post_reply_of_open (u := page.upload page.sessionId i file) huser hm
  have hf : f n = ⟨.delivered, (f n).now⟩ := by rw [← hu.delivered n]
  rw [hf, resume, step_init_delivered, hr]
  refine ⟨_, rfl, ?_⟩
  have hopen' : Open page user f
      ((page.upload page.sessionId i file).post (f n).now s.world).2 := by
    obtain ⟨k, hk, hrest⟩ := hopen
    exact ⟨k, hsessions.symm ▸ hk, hrest⟩
  by_cases hempty : file.content = []
  · have hzero : (page.upload page.sessionId i file).file.length = 0 :=
      congrArg List.length hempty
    rw [Upload.afterInit, if_pos hzero]
    exact ⟨hopen', Phase.noConfusion, trivial, Nat.succ_pos _⟩
  · have hpos : (page.upload page.sessionId i file).file.length ≠ 0 := by
      intro h
      exact hempty (List.length_eq_zero_iff.mp h)
    obtain ⟨-, hserves, -⟩ :=
      post_of_open (u := page.upload page.sessionId i file) hs hfresh hempty huser hm
    rw [Upload.afterInit, if_neg hpos]
    exact ⟨hopen', Phase.noConfusion, ⟨hid, hserves⟩, Nat.lt_succ_self _⟩

theorem shortens_probe
    (hserves : Serves (page.upload page.sessionId i file) s.world 0) :
    ∃ after, (page.upload page.sessionId i file).step
        (resume (.probe (page.itemId i)) s.world) (f n) = some after ∧
      Shortens page user f i file (.probe (page.itemId i)) after := by
  have hf : f n = ⟨.delivered, (f n).now⟩ := by rw [← hu.delivered n]
  have hpos : 0 < (page.upload page.sessionId i file).file.length := hserves.short
  rw [hf, resume, step_probe_delivered, Upload.outerLoop, if_pos hpos]
  exact ⟨_, rfl, hopen, Phase.noConfusion, ⟨rfl, hserves⟩, Nat.lt_succ_self _⟩

theorem shortens_patch {offset attempt : ℕ}
    (hserves : Serves (page.upload page.sessionId i file) s.world offset) :
    ∃ after, (page.upload page.sessionId i file).step
        (resume (.patch (page.itemId i) offset attempt) s.world) (f n) = some after ∧
      Shortens page user f i file (.patch (page.itemId i) offset attempt) after := by
  have hf : f n = ⟨.delivered, (f n).now⟩ := by rw [← hu.delivered n]
  have hshort : offset < file.content.length := hserves.short
  have hstep : (page.upload page.sessionId i file).step
      (resume (.patch (page.itemId i) offset attempt) s.world) ⟨.delivered, (f n).now⟩ = _ :=
    step_patch_delivered _ offset attempt s.world [] (fun _ => 0) (f n).now
  obtain ⟨m, hm⟩ := hopen.openFor n
  have happends := appends_of_open hserves (hu.token n) hm
  have hopen' : Open page user f ((page.upload page.sessionId i file).patchChunk (f n).now
      (page.itemId i) offset s.world).2 := by
    obtain ⟨k, hk, hrest⟩ := hopen
    obtain ⟨status, hk'⟩ := patchChunk_keeps_session
      (u := page.upload page.sessionId i file) hk (f n).now (page.itemId i) offset
    exact ⟨_, hk', hrest⟩
  have hlt : offset < (page.upload page.sessionId i file).chunkEnd offset :=
    lt_chunkEnd hu.chunk hserves.short
  rw [hf]
  refine ⟨_, hstep, ?_⟩
  rcases patchChunk_cases hserves (f n).now offset with
    ⟨hnot, -⟩ | ⟨-, -, ⟨r, hr, hbytes⟩, hmore, -⟩
  · rw [happends] at hnot
    cases hnot
  · rw [hr, Upload.afterPatch, Upload.outerLoop, hbytes]
    split
    · rename_i hmid
      exact ⟨hopen', Phase.noConfusion, ⟨rfl, hmore hmid⟩, Nat.sub_lt_sub_left hshort hlt⟩
    · exact ⟨hopen', Phase.noConfusion, trivial, Nat.sub_pos_of_lt hshort⟩

theorem shortens (hs : SessionService.Inv page.server.deployment s) {phase : Phase}
    (hready : Ready page i file s.world phase) (hmore : phase ≠ .returned)
    (hfresh : phase = .init → page.itemId i ∉ s.uuids) :
    ∃ after, (page.upload page.sessionId i file).step (resume phase s.world) (f n) = some after ∧
      Shortens page user f i file phase after := by
  cases phase with
  | init => exact shortens_init hu hopen hs (hfresh rfl)
  | probe itemId =>
      obtain ⟨rfl, hserves⟩ := hready
      exact shortens_probe hu hopen hserves
  | patch itemId offset attempt =>
      obtain ⟨rfl, hserves⟩ := hready
      exact shortens_patch hu hopen hserves
  | reprobe itemId offset attempt => exact absurd hready id
  | returned => exact absurd rfl hmore
  | failed => exact absurd hready id

end Exchanges

/-! ## The session -/

/-- With a free code and an expiry that is a date, the session is created. -/
theorem createSession_of_free {w : World} {now secs : ℤ} {draws : ℕ → Fin 9000 × Fin 9000}
    {expiresAt : Option ℤ}
    (hunused : SessionUnused w.db (Allocation.handedSessionCode w.db draws))
    (hexpiry : (if 0 < secs then (addSeconds now secs).map some else .ok none) = .ok expiresAt)
    (owner : AuthenticatedUser) (burn : Bool) (id : Uuid) :
    ∃ session, SessionService.createSession w now owner secs burn id draws =
        (.ok session,
          w.withDb { w.db with sessions := w.db.sessions.put (Db.sessionToModel session) }) ∧
      session.id = id ∧ session.ownerId = owner.userId ∧
      session.expiresAt = expiresAt.map (⟨·, true⟩) := by
  have hany : ¬ w.db.sessions.rows.any
      (·.sessionCode = SessionService.drawSessionCode w.db draws 5 1
        (generateSessionCode (draws 0))) = true := by
    intro hany
    obtain ⟨m, hm, hcode⟩ := List.any_eq_true.mp hany
    exact hunused m hm (of_decide_eq_true hcode)
  unfold SessionService.createSession
  rw [hexpiry]
  dsimp only
  unfold Db.add
  rw [if_neg hany]
  exact ⟨_, rfl, rfl, rfl, rfl⟩

/-- A session that is created lasts as long as the exchanges go on. -/
theorem createSession_of_undisturbed (hu : Undisturbed page user s₀ f) :
    ∃ r, (page.createSession (f 0) s₀.world).1 = some (.ok r) ∧ r.sessionId = page.sessionId ∧
      Open page user f (page.createSession (f 0) s₀.world).2 := by
  have hf : f 0 = ⟨.delivered, (f 0).now⟩ := by rw [← hu.delivered 0]
  have huser := Api.getCurrentUser_of_token (hu.token 0)
  have hunused := (Allocation.sessionUnused_handed_iff _ _).mpr hu.free
  obtain ⟨expiresAt, hexpiry, hlive⟩ : ∃ expiresAt : Option ℤ,
      (if (0 : ℤ) < page.payload.expiresInSeconds then
        (addSeconds (f 0).now page.payload.expiresInSeconds).map some else .ok none) =
          .ok expiresAt ∧ ∀ n, expiresAt.any (· < (f n).now) = false := by
    rcases hu.expiry with hzero | ⟨e, he, hlast⟩
    · refine ⟨none, if_neg ?_, fun _ => rfl⟩
      rw [hzero]
      exact lt_irrefl 0
    · by_cases hpos : (0 : ℤ) < page.payload.expiresInSeconds
      · refine ⟨some e, ?_, fun n => decide_eq_false (not_lt.mpr (hlast n))⟩
        rw [if_pos hpos, he]
        rfl
      · exact ⟨none, if_neg hpos, fun _ => rfl⟩
  obtain ⟨session, hcreate, hid, howner, hexpires⟩ :=
    createSession_of_free hunused hexpiry user page.payload.burnAfterDownload page.sessionId
  rw [hf, createSession, exchange_delivered]
  unfold Api.createSession
  rw [Api.withCurrentUser_of_ok huser, hcreate]
  refine ⟨_, rfl, hid, Db.sessionToModel session, Table.mem_put.mpr (.inl rfl), hid, howner, ?_⟩
  have hmicros : (Db.sessionToModel session).expiresAt = expiresAt := by
    show session.expiresAt.map Datetime.micros = expiresAt
    rw [hexpires]
    cases expiresAt <;> rfl
  rw [hmicros]
  exact hlive

/-! ## All files -/

/-- The page and the server are where they should be, and no identifier is drawn twice. -/
def Good (page : UploadPage) (user : AuthenticatedUser) (s₀ : SessionService.State)
    (f : ℕ → Exchange) (s : State) : Prop :=
  match s.stage with
  | .creating => s.sessions = s₀
  | .uploading sessionId i file phase =>
      sessionId = page.sessionId ∧ Open page user f s.sessions.world ∧ phase ≠ .returned ∧
        (∀ j < page.selectedFiles.length, i < j ∨ phase = .init ∧ i = j →
          page.itemId j ∉ s.sessions.uuids) ∧
        Ready page i file s.sessions.world phase
  | .complete => Open page user f s.sessions.world
  | .failed => False

/-- More than what is left for the files from `i` on. -/
def remaining (page : UploadPage) (i : ℕ) : ℕ :=
  totalBytes (page.selectedFiles.drop i) + 3 * (page.selectedFiles.length - i)

/-- A bound on the exchanges that are left. -/
def rank (page : UploadPage) (s : State) : ℕ :=
  match s.stage with
  | .creating => remaining page 0 + 1
  | .uploading _ i file phase => left file phase + remaining page (i + 1)
  | _ => 0

theorem totalBytes_cons (file : SelectedFile) (files : List SelectedFile) :
    totalBytes (file :: files) = file.content.length + totalBytes files := by
  have key : ∀ (files : List SelectedFile) (n : ℕ),
      files.foldl (fun acc f => acc + f.content.length) n = n + totalBytes files := by
    intro files
    induction files with
    | nil => exact fun _ => rfl
    | cons g files ih =>
        intro n
        rw [totalBytes, List.foldl_cons, List.foldl_cons, ih, ih, Nat.zero_add, Nat.add_assoc]
  rw [totalBytes, List.foldl_cons, key, Nat.zero_add]

theorem remaining_of_get {file : SelectedFile} (h : page.selectedFiles[i]? = some file) :
    remaining page i = file.content.length + 3 + remaining page (i + 1) := by
  obtain ⟨hlt, hfile⟩ := List.getElem?_eq_some_iff.mp h
  rw [remaining, remaining, List.drop_eq_getElem_cons hlt, hfile, totalBytes_cons]
  omega

theorem rank_loop {s : State} (hstage : s.stage = loop page.selectedFiles page.sessionId i) :
    rank page s ≤ remaining page i := by
  unfold loop at hstage
  unfold rank
  split at hstage
  · rw [hstage]
    exact Nat.zero_le _
  · rename_i hfile
    rw [hstage, remaining_of_get hfile]
    dsimp only [left]
    omega

theorem good_loop {s : State} (hstage : s.stage = loop page.selectedFiles page.sessionId i)
    (hopen : Open page user f s.sessions.world)
    (hfresh : ∀ j < page.selectedFiles.length, i ≤ j → page.itemId j ∉ s.sessions.uuids) :
    Good page user s₀ f s := by
  unfold loop at hstage
  unfold Good
  split at hstage
  · rw [hstage]
    exact hopen
  · rename_i hfile
    have hlt := (List.getElem?_eq_some_iff.mp hfile).1
    rw [hstage]
    refine ⟨rfl, hopen, nofun, ?_, trivial⟩
    rintro j hj (h | ⟨-, rfl⟩)
    · exact hfresh j hj h.le
    · exact hfresh i hj le_rfl

section Steps

variable (hu : Undisturbed page user s₀ f) {s : State}

include hu

theorem Good.creating (hgood : Good page user s₀ f s) (hsteady : Steady page s)
    (hstage : s.stage = .creating) :
    ∃ t, page.step s (.exchange (f 0)) = some t ∧ Good page user s₀ f t ∧
      rank page t < rank page s := by
  unfold Good at hgood
  rw [hstage] at hgood
  have huser := Api.getCurrentUser_of_token (hu.token 0)
  have hdrawn : page.drawn (f 0) page.sessionId = [page.sessionId] :=
    drawn_of_user huser (by rw [hu.delivered]; exact fun h => by cases h) _
  obtain ⟨r, hr, hid, hopen⟩ := createSession_of_undisturbed hu
  have hfresh : ∀ id ∈ page.drawn (f 0) page.sessionId, id ∉ s.sessions.uuids := by
    intro id hmem
    rw [hdrawn, List.mem_singleton] at hmem
    rw [hmem, hgood]
    exact hu.session_fresh
  have hcreate : page.createSession (f 0) s.sessions.world =
      (some (.ok r), (page.createSession (f 0) s₀.world).2) := by
    rw [hgood]
    exact Prod.ext hr rfl
  set t : State := ⟨loop page.selectedFiles page.sessionId 0,
    ⟨(page.createSession (f 0) s₀.world).2, page.drawn (f 0) page.sessionId ++ s.sessions.uuids⟩,
    page.selectedFiles, some r.sessionCode, totalBytes page.selectedFiles, s.uploadedBytes,
    s.sent⟩ with ht
  have hstep : page.step s (.exchange (f 0)) = some t := by
    unfold step stepExchange
    rw [hstage]
    dsimp only
    rw [if_pos hfresh, hcreate]
    dsimp only
    rw [hid, hsteady.1]
  refine ⟨t, hstep, ?_, ?_⟩
  · refine good_loop rfl hopen fun j hj _ => ?_
    show page.itemId j ∉ page.drawn (f 0) page.sessionId ++ s.sessions.uuids
    rw [hdrawn, hgood]
    intro hmem
    rcases List.mem_cons.mp hmem with heq | hold
    · exact (hu.item_fresh j hj).2 heq
    · exact (hu.item_fresh j hj).1 hold
  · have hrank : rank page s = remaining page 0 + 1 := by rw [rank, hstage]
    have hloop : rank page t ≤ remaining page 0 := rank_loop rfl
    rw [hrank]
    exact Nat.lt_succ_of_le hloop

omit hu in
theorem proceed_of_ready {phase : Phase} {file : SelectedFile} {w : World}
    (hready : Ready page i file w phase) (hmore : phase ≠ .returned) :
    proceed page.selectedFiles page.sessionId i file phase =
      .uploading page.sessionId i file phase := by
  cases phase with
  | returned => exact absurd rfl hmore
  | failed => exact absurd hready id
  | _ => rfl

theorem Good.uploading (hgood : Good page user s₀ f s) (hsteady : Steady page s)
    (hs : SessionService.Inv page.server.deployment s.sessions) {sessionId : Uuid} {phase : Phase}
    (hstage : s.stage = .uploading sessionId i file phase) :
    ∃ t, page.step s (.exchange (f n)) = some t ∧ Good page user s₀ f t ∧
      rank page t < rank page s := by
  obtain ⟨hselected, hplace⟩ := hsteady
  unfold Good at hgood
  rw [hstage] at hgood hplace
  obtain ⟨-, hfile, -⟩ := hplace
  obtain ⟨rfl, hopen, hmore, hpending, hready⟩ := hgood
  have hlt : i < page.selectedFiles.length := (List.getElem?_eq_some_iff.mp hfile).1
  obtain ⟨after, hafter, hopen', hnoinit, hready', hless⟩ :=
    shortens (n := n) hu hopen hs hready hmore fun h => hpending i hlt (.inr ⟨h, rfl⟩)
  have hids : ∀ id ∈ (if phase = .init then page.drawn (f n) (page.itemId i) else []),
      phase = .init ∧ id = page.itemId i := by
    intro id hmem
    split at hmem
    · rename_i hinit
      have huser := Api.getCurrentUser_of_token (hu.token n)
      rw [drawn_of_user huser (by rw [hu.delivered]; exact fun h => by cases h)] at hmem
      exact ⟨hinit, List.mem_singleton.mp hmem⟩
    · cases hmem
  have hfresh : ∀ id ∈ (if phase = .init then page.drawn (f n) (page.itemId i) else []),
      id ∉ s.sessions.uuids := by
    intro id hmem
    obtain ⟨hinit, rfl⟩ := hids id hmem
    exact hpending i hlt (.inr ⟨hinit, rfl⟩)
  have hlater : ∀ j < page.selectedFiles.length, i < j → page.itemId j ∉
      (if phase = .init then page.drawn (f n) (page.itemId i) else []) ++ s.sessions.uuids := by
    intro j hj hij hmem
    rcases List.mem_append.mp hmem with hnew | hold
    · exact hij.ne (hu.item_inj i hlt j hj (hids _ hnew).2.symm)
    · exact hpending j hj (.inl hij) hold
  have hrank : rank page s = left file phase + remaining page (i + 1) := by rw [rank, hstage]
  refine ⟨_, (page.stepExchange_uploading hstage).mpr ⟨after, hfresh, hafter, rfl⟩, ?_⟩
  rw [hrank, hselected]
  by_cases hreturned : after.phase = .returned
  · rw [hreturned] at hless ⊢
    refine ⟨good_loop rfl hopen' fun j hj hij => hlater j hj hij, ?_⟩
    exact (rank_loop rfl).trans_lt (Nat.lt_add_of_pos_left (Nat.zero_lt_of_lt hless))
  · rw [proceed_of_ready hready' hreturned]
    refine ⟨⟨rfl, hopen', hreturned, ?_, hready'⟩, Nat.add_lt_add_right hless _⟩
    rintro j hj (hij | ⟨hinit, -⟩)
    · exact hlater j hj hij
    · exact absurd hinit hnoinit

end Steps

/-- Only the form submits itself. -/
theorem stage_of_step {s t : State} {x : Exchange} (hstep : page.stepExchange s x = some t) :
    t.stage ≠ .creating := by
  have hloop : ∀ files sessionId i, loop files sessionId i ≠ .creating := by
    intro files sessionId i
    unfold loop
    split
    · exact Stage.noConfusion
    · exact Stage.noConfusion
  cases hstage : s.stage with
  | creating =>
      obtain ⟨-, ⟨sessionData, -, rfl⟩ | rfl⟩ := page.stepExchange_creating hstage hstep
      · exact hloop _ _ _
      · exact Stage.noConfusion
  | uploading sessionId i file phase =>
      obtain ⟨after, -, -, rfl⟩ := (page.stepExchange_uploading hstage).mp hstep
      show proceed s.selectedFiles sessionId i file after.phase ≠ .creating
      cases after.phase with
      | returned => exact hloop _ _ _
      | failed => exact Stage.noConfusion
      | _ => exact Stage.noConfusion
  | complete => cases (page.stepExchange_ended (.inl hstage) x).symm.trans hstep
  | failed => cases (page.stepExchange_ended (.inr hstage) x).symm.trans hstep

theorem zero_of_creating {n : ℕ} {s : State} (hrun : page.system.run (page.start s₀)
    (System.firsts (fun k => .exchange (f k)) n) = some s) (hstage : s.stage = .creating) :
    n = 0 := by
  cases n with
  | zero => rfl
  | succ n =>
      obtain ⟨r, -, hstep⟩ := System.run_firsts_succ.mp hrun
      exact absurd hstage (stage_of_step hstep)

/-- An undisturbed upload comes to its end, with the user's session still open. -/
theorem undisturbed_completes (hs : Traffic.Reachable page.server.deployment s₀)
    (hu : Undisturbed page user s₀ f) :
    ∃ n t, page.system.run (page.start s₀) (System.firsts (fun k => .exchange (f k)) n) = some t ∧
      t.stage = .complete ∧ ∃ m ∈ t.sessions.world.db.sessions.rows, m.id = page.sessionId ∧
        m.ownerId = user.userId ∧ ∀ k, m.expiresAt.any (· < (f k).now) = false := by
  have hstart : Inv page (page.start s₀) := ⟨Traffic.inv_of_reachable hs, rfl, rfl⟩
  have hstep : ∀ n s, page.system.run (page.start s₀)
      (System.firsts (fun k => .exchange (f k)) n) = some s →
      Inv page s ∧ Steady page s ∧ Good page user s₀ f s → s.stage ≠ .complete →
      ∃ t, page.system.step s (.exchange (f n)) = some t ∧
        (Inv page t ∧ Steady page t ∧ Good page user s₀ f t) ∧ rank page t < rank page s := by
    rintro n s hrun ⟨hinv, hsteady, hgood⟩ hmore
    obtain ⟨t, hstep, hgood', hless⟩ : ∃ t, page.step s (.exchange (f n)) = some t ∧
        Good page user s₀ f t ∧ rank page t < rank page s := by
      cases hstage : s.stage with
      | creating =>
          obtain rfl := zero_of_creating hrun hstage
          exact hgood.creating hu hsteady hstage
      | uploading sessionId i file phase =>
          exact hgood.uploading hu hsteady hinv.server.sessions hstage
      | complete => exact absurd hstage hmore
      | failed =>
          unfold Good at hgood
          rw [hstage] at hgood
          exact absurd hgood id
    exact ⟨t, hstep,
      ⟨hinv.step (l := .exchange (f n)) trivial hstep, hsteady.exchange hstep, hgood'⟩, hless⟩
  obtain ⟨n, t, hrun, ⟨-, -, hgood⟩, hcomplete⟩ := System.reaches_of_decreasing (rank page)
    (P := fun s => s.stage = .complete)
    ⟨hstart, ⟨rfl, rfl⟩, (rfl : (page.start s₀).sessions = s₀)⟩ hstep
  refine ⟨n, t, hrun, hcomplete, ?_⟩
  unfold Good at hgood
  rw [hcomplete] at hgood
  exact hgood

namespace Sample

open SessionService.Sample (owner draw)

/-- Two files, one of them empty. -/
def twoFiles (json : Json) (token : Str) : UploadPage where
  server := ⟨.default, HMACTokenService.sampleService, json⟩
  token
  selectedFiles := [⟨"notes.txt".toList, [1, 2]⟩, ⟨"empty.txt".toList, []⟩]
  selected := List.cons_ne_nil _ _
  payload := { le_week := by decide }
  sessionId := SessionService.Sample.sessionId
  draws := draw
  itemId i := Uuid.ofNat (i + 2)

def delivered : ℕ → Exchange := fun _ => ⟨.delivered, 2⟩

theorem undisturbed {json : Json} {token : Str}
    (htoken : ∀ now ≤ 3600000000,
      HMACTokenService.sampleService.getCurrentUser json now token = .ok owner) :
    Undisturbed (twoFiles json token) owner ⟨World.initial .sqlite, []⟩ delivered where
  delivered _ := rfl
  token _ := htoken 2 (by decide)
  free := ⟨0, by decide, nofun⟩
  expiry := by
    have hexpiry : addSeconds 2 ((1800 : ℕ) : ℤ) = .ok 1800000002 := by decide
    have hlast : (2 : ℤ) ≤ 1800000002 := by decide
    exact .inr ⟨1800000002, hexpiry, fun _ => hlast⟩
  chunk := show 0 < Browser.chunkSize by decide
  session_fresh := nofun
  item_fresh := by
    intro i hi
    refine ⟨nofun, ?_⟩
    have key : ∀ i < 2, Uuid.ofNat (i + 2) ≠ SessionService.Sample.sessionId := by decide +kernel
    exact key i hi
  item_inj := by
    have key : ∀ i < 2, ∀ j < 2, Uuid.ofNat (i + 2) = Uuid.ofNat (j + 2) → i = j := by
      decide +kernel
    exact key

/-- A JSON library that reads and writes the payload of one token. -/
def json : Json :=
  ⟨fun _ => Browser.Sample.text,
    fun _ => .ok (HMACTokenService.sampleService.payload 0 3600000000 owner)⟩

def token : Str :=
  ((HMACTokenService.sampleService.createAccessToken json 0 owner).toOption).getD []

def sender : UploadPage := twoFiles json token

def exchanges : List Step := List.replicate 5 (.exchange ⟨.delivered, 2⟩)

theorem considerate_exchanges : ∀ l ∈ exchanges, sender.Considerate l := by
  intro l hl
  rw [List.eq_of_mem_replicate hl]
  trivial

def complete : Stage → Bool
  | .complete => true
  | _ => false

theorem eq_of_complete {stage : Stage} (h : complete stage = true) : stage = .complete := by
  cases stage with
  | complete => rfl
  | _ => cases h

end Sample

theorem undisturbed_completes_twoFiles :
    ∃ json token n t, (Sample.twoFiles json token).system.run
        ((Sample.twoFiles json token).start ⟨World.initial .sqlite, []⟩)
        (System.firsts (fun k => .exchange (Sample.delivered k)) n) = some t ∧
      t.stage = .complete := by
  obtain ⟨json, token, htoken⟩ := Browser.Sample.exists_token
  obtain ⟨n, t, hrun, hcomplete, -⟩ := @undisturbed_completes (Sample.twoFiles json token) _ _ _
    (Traffic.reachable_of_sessions SessionService.Sample.reachable_start)
    (Sample.undisturbed htoken)
  exact ⟨json, token, n, t, hrun, hcomplete⟩

/-! ## What the page says at the end -/

/-- What the page says at the end is so: as long as its session is there, the code it shows
is the code of the session, each file that has been sent downloads under its name with its
bytes, or not at all where it has none, and the progress has counted them all. Those are
the files that were selected when the form was submitted, and the progress is at the
total, if no others have been selected since. -/
theorem complete_files_download {s₀ : SessionService.State}
    (hs : Traffic.Reachable page.server.deployment s₀) {ls : List Step}
    (hconsiderate : ∀ l ∈ ls, page.Considerate l) {t : State}
    (hrun : page.system.run (page.start s₀) ls = some t) (hcomplete : t.stage = .complete)
    {m : TransferSessionModel} (hm : m ∈ t.sessions.world.db.sessions.rows)
    (hid : m.id = page.sessionId) :
    t.uploadedBytes = totalBytes t.sent ∧ t.sessionCode = some m.sessionCode ∧
      (∀ i file, t.sent[i]? = some file →
        ∀ now, m.expiresAt.any (· < now) = false → m.status ≠ .expired →
          if file.content = [] then
            SessionService.downloadSessionItem t.sessions.world now m.sessionCode (page.itemId i) =
              (.error ⟨404, "File missing on disk".toList⟩, t.sessions.world)
          else
            ∃ r burn, SessionService.downloadSessionItem t.sessions.world now m.sessionCode
                (page.itemId i) = (.ok (r, burn), t.sessions.world) ∧
              r.body = file.content ∧ r.filename = file.name ∧
              r.header "X-Checksum-SHA256" = some (hexdigest file.content)) ∧
      ((∀ files, .select files ∉ ls) →
        t.sent = page.selectedFiles ∧ t.uploadedBytes = t.totalBytes) := by
  obtain ⟨hserver, hsound⟩ := inv_of_run hs hconsiderate hrun
  unfold Sound at hsound
  rw [hcomplete] at hsound
  obtain ⟨hdelivered, hbytes⟩ := hsound.2 ⟨m, hm, hid⟩
  refine ⟨hbytes, ?_, ?_, ?_⟩
  · obtain ⟨k, hk, hkid, hcode⟩ := hdelivered.shows
    obtain rfl : k = m := Table.eq_of_mem hk hm (hkid.trans hid.symm)
    exact hcode
  · intro i file hfile now hlive hstatus
    exact (hdelivered.uploaded i file hfile).downloads hserver hm hid hlive hstatus
  · intro hls
    obtain ⟨-, hsteady⟩ := steady_of_run hls hrun
    rw [hcomplete] at hsteady
    refine ⟨hsteady.1, ?_⟩
    rw [hbytes, hsteady.1, hsteady.2]

namespace Sample

/-- The session of the page is shared, and the file of its first item is there to be
downloaded. -/
def Shared (page : UploadPage) (t : State) : Prop :=
  ∃ m ∈ t.sessions.world.db.sessions.rows, m.id = page.sessionId ∧ m.status ≠ .expired ∧
    m.expiresAt.any (· < 2) = false

instance (page : UploadPage) (t : State) : Decidable (Shared page t) :=
  inferInstanceAs (Decidable (∃ m ∈ t.sessions.world.db.sessions.rows, _))

theorem runs_exchanges :
    (sender.system.run (sender.start ⟨World.initial .sqlite, []⟩) exchanges).any (fun t =>
      complete t.stage && decide (Shared sender t)) = true := by
  decide +kernel

end Sample

theorem complete_files_download_twoFiles :
    ∃ t, ∃ m : TransferSessionModel,
      Sample.sender.system.run (Sample.sender.start ⟨World.initial .sqlite, []⟩)
        Sample.exchanges = some t ∧
      t.uploadedBytes = 2 ∧ t.sessionCode = some m.sessionCode ∧
        ∃ r burn, SessionService.downloadSessionItem t.sessions.world 2 m.sessionCode
            (Uuid.ofNat 2) = (.ok (r, burn), t.sessions.world) ∧
          r.body = [1, 2] ∧ r.filename = "notes.txt".toList := by
  obtain ⟨t, hrun, h⟩ := (Option.any_eq_true _ _).mp Sample.runs_exchanges
  obtain ⟨hcomplete, hshared⟩ := (Bool.and_eq_true _ _).mp h
  obtain ⟨m, hm, hid, hstatus, hlive⟩ := of_decide_eq_true hshared
  have hls : ∀ files, .select files ∉ Sample.exchanges := by
    intro files hl
    cases List.eq_of_mem_replicate hl
  obtain ⟨hbytes, hcode, hfiles, hall⟩ :=
    @complete_files_download Sample.sender _
      (Traffic.reachable_of_sessions SessionService.Sample.reachable_start) _
      Sample.considerate_exchanges _ hrun (Sample.eq_of_complete hcomplete) _ hm hid
  obtain ⟨hsent, -⟩ := hall hls
  rw [hsent] at hbytes hfiles
  obtain ⟨r, burn, hdownload, hbody, hname, -⟩ := hfiles 0 _ rfl 2 hlive hstatus
  exact ⟨t, m, hrun, hbytes, hcode, r, burn, hdownload, hbody, hname⟩

end UploadPage

end Browser

end Jumbox
