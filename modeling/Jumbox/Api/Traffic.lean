import Jumbox.Sessions.Kept
import Jumbox.Uploads.Mixing

/-!
# All that a server is asked

The calls of the session service and of the older upload services, and the sweep of the
temporary directory, on one database and one pair of directories. The older services put
their files directly into the directories, where no session has any, as long as the file
names that clients send have no separator: then they leave all sessions alone.
-/

namespace Jumbox

namespace Traffic

open SessionService (State Call CodesUnique SameItem SameSession itemPath)
open ChunkStorage (partPath)
open ChunkedUploadService (Completion isDirectory movedTo appended counted)

inductive Event where
  | session (e : SessionService.Event)
  | upload (e : Uploads.Event)
  /-- `cleanup_orphaned_temp_files`, with the names that `iterdir` yields. -/
  | sweepTemp (now : ℤ) (entries : List Str) (unlinkFails : Path → Bool)

/-- The call of the session service, if it is one. -/
def Event.call : Event → Option Call
  | .session e => some e.call
  | _ => none

def step (d : Deployment) (s : State) : Event → Option State
  | .session e => (SessionService.system d).step s e
  | .upload e =>
      if Uploads.Taken ⟨s.world, s.uuids, []⟩ e then
        some ⟨(Uploads.exec d s.world e).2, e.call.newId.toList ++ s.uuids⟩
      else none
  | .sweepTemp now entries unlinkFails =>
      let (_, fs) := CleanupService.cleanupOrphanedTempFiles (some d.tempDir) entries
        s.world.files now 3600 unlinkFails
      some { s with world := s.world.withFiles fs }

def system (d : Deployment) : System State Event := ⟨step d⟩

/-- The states that a server can come to from a new installation. -/
abbrev Reachable (d : Deployment) (s : State) : Prop :=
  (system d).Reachable SessionService.Initial s

/-- What the session service alone can do is among it. -/
theorem reachable_of_sessions {d : Deployment} {s : State} (h : SessionService.Reachable d s) :
    Reachable d s := by
  induction h with
  | start h => exact .start h
  | step e _ hstep ih => exact ih.step (.session e) hstep

/-! ## What the older services leave alone -/

/-- The place of a part file or of a stored file of a session. -/
def OfSession (d : Deployment) (p : Path) : Prop :=
  (∃ sid iid, p = partPath d sid iid) ∨ ∃ i, p = itemPath d i

/-- The rows and the files of the sessions are what they were. -/
structure Leaves (d : Deployment) (w w' : World) : Prop where
  sessions : w'.db.sessions = w.db.sessions
  items : w'.db.items = w.db.items
  files : ∀ p, OfSession d p → w'.files p = w.files p

/-- The files of uploads and transfers lie directly in the two directories. -/
structure Apart (d : Deployment) (w : World) : Prop where
  cached : ∀ id c, w.cache id = some c →
    InTemp d c.session.tempPath ∧ '/' ∉ c.session.originalName
  transfers : ∀ m ∈ w.db.transfers.rows, ∀ p, m.storagePath = some p → InUploads d p

section Places

variable {d : Deployment} {p q : Path}

theorem itemPath_eq (d : Deployment) (i : TransferItem) :
    itemPath d i =
      d.uploadsDir ++ [i.sessionId.str, i.id.str ++ '_' :: sanitizeFilename d i.originalName] :=
  ChunkStorage.destPath_eq d _ _ (slash_notMem_sanitizeFilename d i.originalName)

theorem OfSession.ne_inTemp (h : OfSession d p) (hq : InTemp d q) : p ≠ q := by
  obtain ⟨x, rfl⟩ := hq
  rcases h with ⟨sid, iid, rfl⟩ | ⟨i, rfl⟩
  · exact SessionService.partPath_ne_entry d sid iid x
  · rw [itemPath_eq]
    exact (d.temp_ne_uploads _ _).symm

theorem OfSession.ne_inUploads (h : OfSession d p) (hq : InUploads d q) : p ≠ q := by
  obtain ⟨x, rfl⟩ := hq
  rcases h with ⟨sid, iid, rfl⟩ | ⟨i, rfl⟩
  · rw [ChunkStorage.partPath_eq]
    exact d.temp_ne_uploads _ _
  · rw [itemPath_eq]
    intro heq
    have hlength := congrArg List.length (List.append_cancel_left heq)
    simp at hlength

/-- Nothing that is put beside a directory above the uploads is of a session. -/
theorem OfSession.ne_misplaced (h : OfSession d p) (hdir : isDirectory d q = true) (x : Str) :
    p ≠ q ++ [x] := by
  obtain ⟨rest, hrest⟩ := ChunkedUploadService.isDirectory_iff.mp hdir
  rcases h with ⟨sid, iid, rfl⟩ | ⟨i, rfl⟩
  · rw [ChunkStorage.partPath_eq]
    intro heq
    have hq : d.tempDir ++ [sid.str] = q := by
      simpa using congrArg List.dropLast heq
    refine d.temp_ne_uploads ([sid.str] ++ rest) [] ?_
    rw [← List.append_assoc, hq, hrest, List.append_nil]
  · rw [itemPath_eq]
    intro heq
    have hlength := congrArg List.length heq
    have hle := congrArg List.length hrest
    simp only [List.length_append, List.length_cons, List.length_nil] at hlength hle
    omega

end Places

section Uploads

variable {d : Deployment} {w w' : World}

theorem Leaves.refl (d : Deployment) (w : World) : Leaves d w w := ⟨rfl, rfl, fun _ _ => rfl⟩

theorem appended_leaves {session : UploadSession} (htemp : InTemp d session.tempPath) (now : ℤ)
    (chunk : UploadStream) {p : Path} (hp : OfSession d p) :
    appended w now session chunk p = w.files p :=
  Files.append_ne (hp.ne_inTemp htemp)

theorem moved_leaves {session : UploadSession} (htemp : InTemp d session.tempPath) (now : ℤ)
    (chunk : UploadStream) (f : File) {p q : Path} (hp : OfSession d p) (hne : p ≠ q) :
    movedTo (appended w now session chunk) session.tempPath q f p = w.files p := by
  rw [movedTo, Function.update_of_ne hne, Files.unlink_ne (hp.ne_inTemp htemp)]
  exact appended_leaves htemp now chunk hp

theorem Apart.put (h : Apart d w) {m : TransferModel} {p : Path} (hpath : m.storagePath = some p)
    (hp : InUploads d p) : ∀ r ∈ (w.db.transfers.put m).rows, ∀ q, r.storagePath = some q →
      InUploads d q := by
  intro r hr q hq
  rcases Table.mem_put.mp hr with rfl | ⟨hr, -⟩
  · obtain rfl := Option.some.inj (hpath.symm.trans hq)
    exact hp
  · exact h.transfers r hr q hq

/-- A session that is saved keeps its path and its name. -/
theorem Apart.save (h : Apart d w) (now : ℤ) (session : UploadSession)
    (htemp : InTemp d session.tempPath) (hname : '/' ∉ session.originalName) :
    ∀ id c, w.cache.save now session id = some c →
      InTemp d c.session.tempPath ∧ '/' ∉ c.session.originalName := by
  intro id c hc
  by_cases hid : id = session.id
  · rw [hid, UploadSessionCache.save, Function.update_self] at hc
    cases hc
    exact ⟨htemp, hname⟩
  · rw [UploadSessionCache.save_ne hid] at hc
    exact h.cached id c hc

theorem appendChunk_apart (h : Apart d w) (now : ℤ) (owner : AuthenticatedUser) (sid : Uuid)
    (chunk : UploadStream) (draws : ChunkedUploadService.Draws) :
    Leaves d w (ChunkedUploadService.appendChunk d w now owner sid chunk draws).2 ∧
      Apart d (ChunkedUploadService.appendChunk d w now owner sid chunk draws).2 := by
  rcases ChunkedUploadService.appendChunk_cases d w now owner sid chunk draws with
    ⟨err, -, heq⟩ | ⟨session, hopen, hcases⟩
  · rw [heq]
    exact ⟨.refl d w, h⟩
  · obtain ⟨c, hc, rfl⟩ := ChunkedUploadService.openSession_eq_ok hopen
    obtain ⟨htemp, hname⟩ := h.cached sid c hc
    have happended : ∀ p, OfSession d p → appended w now c.session chunk p = w.files p :=
      fun p hp => appended_leaves htemp now chunk hp
    rcases hcases with ⟨-, err, heq⟩ | ⟨-, -, r, heq⟩ | ⟨-, -, t, -, hcomp⟩
    · rw [heq]
      exact ⟨⟨rfl, rfl, happended⟩, h.cached, h.transfers⟩
    · rw [heq]
      exact ⟨⟨rfl, rfl, happended⟩,
        h.save now (counted c.session chunk) htemp hname, h.transfers⟩
    · generalize ChunkedUploadService.appendChunk d w now owner sid chunk draws = o at hcomp
      cases hcomp with
      | stuck err hdir => exact ⟨⟨rfl, rfl, happended⟩, h.cached, h.transfers⟩
      | misplaced err x hdir hfree =>
          exact ⟨⟨rfl, rfl, fun p hp => moved_leaves htemp now chunk _ hp (hp.ne_misplaced hdir x)⟩,
            h.cached, h.transfers⟩
      | unregistered err hdir hrej =>
          have hin := ChunkedUploadService.inUploads_finalPath hname hdir
          exact ⟨⟨rfl, rfl, fun p hp => moved_leaves htemp now chunk _ hp (hp.ne_inUploads hin)⟩,
            h.cached, h.transfers⟩
      | completed r m hdir hacc hmid hdesc =>
          have hin := ChunkedUploadService.inUploads_finalPath hname hdir
          refine ⟨⟨rfl, rfl, fun p hp => moved_leaves htemp now chunk _ hp (hp.ne_inUploads hin)⟩,
            ?_, h.put hdesc.path hin⟩
          intro id c' hc'
          by_cases hid : id = (counted c.session chunk).id
          · rw [World.withCache_cache, UploadSessionCache.delete, hid, Function.update_self] at hc'
            cases hc'
          · rw [World.withCache_cache, UploadSessionCache.delete, Function.update_of_ne hid] at hc'
            exact h.cached id c' hc'

theorem cleanupExpiredTransfers_db (w : World) (now : ℤ) (deadline : Option ℤ)
    (unlinkFails : Path → Bool) :
    (CleanupService.cleanupExpiredTransfers w now deadline unlinkFails).2.db.sessions =
        w.db.sessions ∧
      (CleanupService.cleanupExpiredTransfers w now deadline unlinkFails).2.db.items =
        w.db.items := by
  unfold CleanupService.cleanupExpiredTransfers
  dsimp only
  split
  · exact ⟨rfl, rfl⟩
  · rename_i db fs hsweep
    obtain ⟨rfl, -⟩ := CleanupService.sweepTransfers_ok hsweep
    exact CleanupService.foldl_deleteTransferById_kept _ _

/-- Whatever the older services are asked, they leave the sessions alone. -/
theorem exec_apart (h : Apart d w) {e : Uploads.Event}
    (hnames : ∀ name ∈ e.call.name, '/' ∉ name) :
    Leaves d w (Uploads.exec d w e).2 ∧ Apart d (Uploads.exec d w e).2 := by
  obtain ⟨now, call⟩ := e
  cases call with
  | uploadFile filename content r =>
      have hpath := TransferService.inUploads_uploadPath (d := d) r.owner.userId hnames
      have hfiles : ∀ p, OfSession d p → w.files.write
          (TransferService.uploadPath d r.owner.userId filename) now content.content p =
            w.files p := fun p hp => Files.write_ne (hp.ne_inUploads hpath)
      rcases TransferService.uploadFile_cases d w now filename content r with
        ⟨e, -, heq⟩ | ⟨result, m, -, hdesc, heq⟩
      · simp only [Uploads.exec, Uploads.respond, heq]
        exact ⟨⟨rfl, rfl, hfiles⟩, h.cached, h.transfers⟩
      · simp only [Uploads.exec, Uploads.respond, heq]
        exact ⟨⟨rfl, rfl, hfiles⟩, h.cached, h.put hdesc.path hpath⟩
  | createSession owner name total expiresIn folderId id =>
      simp only [Uploads.exec, Uploads.respond, ChunkedUploadService.createSession]
      cases TransferService.buildExpiry now expiresIn with
      | error e => exact ⟨.refl d w, h⟩
      | ok expiresAt =>
          have hname : '/' ∉ name := hnames name rfl
          exact ⟨⟨rfl, rfl, fun _ _ => rfl⟩,
            h.save now _ (ChunkedUploadService.inTemp_tempPath owner.userId hname) hname,
              h.transfers⟩
  | appendChunk owner sid chunk draws => exact appendChunk_apart h now owner sid chunk draws
  | markDownloaded code =>
      rcases Uploads.markDownloaded_cases w now code with
        ⟨e, heq⟩ | ⟨t, m, hm, m', -, hpath, -, -, heq⟩
      · simp only [Uploads.exec, Uploads.respond, heq]
        exact ⟨.refl d w, h⟩
      · simp only [Uploads.exec, Uploads.respond, heq]
        refine ⟨⟨rfl, rfl, fun _ _ => rfl⟩, h.cached, ?_⟩
        intro r hr q hq
        rcases Table.mem_put.mp hr with rfl | ⟨hr, -⟩
        · exact h.transfers m hm q (hpath ▸ hq)
        · exact h.transfers r hr q hq
  | cleanupExpiredTransfers deadline unlinkFails =>
      simp only [Uploads.exec, Uploads.respond]
      obtain ⟨hsessions, hitems⟩ := cleanupExpiredTransfers_db w now deadline unlinkFails
      refine ⟨⟨hsessions, hitems, fun p hp => ?_⟩, ?_,
        fun m hm => h.transfers m (Uploads.mem_cleanupExpiredTransfers hm)⟩
      · rcases Uploads.cleanupExpiredTransfers_files w now deadline unlinkFails p with
          hsame | ⟨-, m, hm, hpath⟩
        · exact hsame
        · exact absurd rfl (hp.ne_inUploads (h.transfers m hm p hpath))
      · intro id c hc
        rw [Uploads.cleanupExpiredTransfers_cache] at hc
        exact h.cached id c hc

end Uploads

/-! ## The session service leaves the older services alone -/

section Sessions

variable {d : Deployment} {w w' : World}

theorem effect_cache {e : SessionService.Event} (h : SessionService.Effect d w e w') :
    w'.cache = w.cache := by
  cases h <;> rfl

theorem Apart.exec (h : Apart d w) {s : State} {e : SessionService.Event} (hw : s.world = w)
    (htaken : SessionService.Taken d s e) : Apart d (SessionService.exec d w e).2 := by
  subst hw
  constructor
  · rw [effect_cache (SessionService.exec_effect htaken)]
    exact h.cached
  · rw [SessionService.exec_transfers]
    exact h.transfers

end Sessions

/-! ## The invariant -/

/-- What holds of the sessions whatever a server has been asked. -/
structure Inv (d : Deployment) (s : State) : Prop where
  sessions : SessionService.Inv d s
  codes : CodesUnique s.world
  apart : Apart d s.world
  fresh : ∀ i, i.id ∉ s.uuids → s.world.files (itemPath d i) = none

/-- The step is none of the session service. -/
structure Passes (d : Deployment) (s s' : State) : Prop where
  leaves : Leaves d s.world s'.world
  issued : ∀ id ∈ s.uuids, id ∈ s'.uuids
  apart : Apart d s'.world

section Steps

variable {d : Deployment} {s s' : State}

theorem Passes.consistent (h : Passes d s s') (hinv : SessionService.Consistent d s.world) :
    SessionService.Consistent d s'.world := by
  refine ⟨h.leaves.items ▸ hinv.stored, h.leaves.items ▸ hinv.paths, ?_⟩
  rw [h.leaves.items, h.leaves.sessions]
  intro i hi m hm hid p hp
  obtain ⟨f, hf, hrest⟩ := hinv.intact i hi m hm hid p hp
  have hof : OfSession d p := .inr ⟨i, hinv.paths i hi p hp⟩
  exact ⟨f, (h.leaves.files p hof).trans hf, hrest⟩

theorem Passes.sessionIssued (h : Passes d s s') (hinv : SessionService.Issued d s) :
    SessionService.Issued d s' where
  sessions := by
    rw [h.leaves.sessions]
    exact fun m hm => h.issued _ (hinv.sessions m hm)
  items := by
    rw [h.leaves.items]
    exact fun i hi => h.issued _ (hinv.items i hi)
  itemSessions := by
    rw [h.leaves.items]
    exact fun i hi => h.issued _ (hinv.itemSessions i hi)
  parts sid iid hiid := by
    rw [h.leaves.files _ (.inl ⟨sid, iid, rfl⟩)]
    exact hinv.parts sid iid fun hmem => hiid (h.issued iid hmem)

theorem Passes.inv (h : Passes d s s') (hinv : Inv d s) : Inv d s' where
  sessions := ⟨h.sessionIssued hinv.sessions.issued, h.consistent hinv.sessions.consistent⟩
  codes := by
    constructor
    · rw [h.leaves.sessions]
      exact hinv.codes.generated
    · rw [h.leaves.sessions]
      exact hinv.codes.unique
  apart := h.apart
  fresh i hi := by
    rw [h.leaves.files _ (.inr ⟨i, rfl⟩)]
    exact hinv.fresh i fun hmem => hi (h.issued i.id hmem)

/-- No call, or one of the session service that `P` holds of. -/
def Moves (d : Deployment) (P : Call → Prop) (s s' : State) : Prop :=
  Passes d s s' ∨ ∃ e, P e.call ∧ (SessionService.system d).step s e = some s'

variable {P : Call → Prop}

theorem Moves.refl (h : Inv d s) (P : Call → Prop) : Moves d P s s :=
  .inl ⟨.refl d s.world, fun _ => id, h.apart⟩

/-- A step of the server. -/
theorem step_moves (h : Inv d s) {e : Event} (hstep : (system d).step s e = some s')
    (hP : ∀ call, e.call = some call → P call) : Moves d P s s' := by
  cases e with
  | session e => exact .inr ⟨e, hP _ rfl, hstep⟩
  | upload e =>
      change (if _ then _ else _) = _ at hstep
      split at hstep
      · rename_i htaken
        cases hstep
        obtain ⟨hleaves, hapart⟩ := exec_apart h.apart htaken.2
        exact .inl ⟨hleaves, fun _ => List.mem_append_right _, hapart⟩
      · cases hstep
  | sweepTemp now entries unlinkFails =>
      cases hstep
      refine .inl ⟨⟨rfl, rfl, fun p hp => ?_⟩, fun _ => id, h.apart.cached, h.apart.transfers⟩
      exact CleanupService.sweepTempFiles_ne _ _ _ (fun name => hp.ne_inTemp ⟨name, rfl⟩) _ _ _

theorem Inv.call {e : SessionService.Event} (h : Inv d s)
    (hstep : (SessionService.system d).step s e = some s') : Inv d s' := by
  have hcodes := h.codes.step hstep
  have hinv := h.sessions.step hstep
  obtain ⟨htaken, rfl⟩ := SessionService.system_step.mp hstep
  refine ⟨hinv, hcodes, h.apart.exec rfl htaken, fun i hi => ?_⟩
  have hold : i.id ∉ s.uuids := fun hmem => hi (List.mem_append_right _ hmem)
  have hnew : e.call.newId ≠ some i.id :=
    fun heq => hi (List.mem_append_left _ (Option.mem_toList.mpr heq))
  rcases (SessionService.exec_effect htaken).stored_or_gone hnew fun c m k _ hacc hid =>
      hold (hid ▸ h.sessions.issued.items k hacc.mem) with hsame | hgone
  · exact hsame.trans (h.fresh i hold)
  · exact hgone

theorem Moves.inv (h : Moves d P s s') (hs : Inv d s) : Inv d s' := by
  rcases h with hpasses | ⟨e, -, hstep⟩
  · exact hpasses.inv hs
  · exact hs.call hstep

theorem Inv.step {e : Event} (h : Inv d s) (hstep : (system d).step s e = some s') : Inv d s' :=
  (step_moves (P := fun _ => True) h hstep fun _ _ => trivial).inv h

theorem inv_of_reachable (h : Reachable d s) : Inv d s := by
  refine System.Reachable.invariant ?_ (fun _ _ _ => Inv.step) h
  intro s hinit
  have hsessions : SessionService.Inv d s := .initial hinit
  obtain ⟨backend, rfl⟩ := hinit
  refine ⟨hsessions, ⟨nofun, nofun⟩, ⟨?_, ?_⟩, fun _ _ => rfl⟩
  · intro id c hc
    cases hc
  · intro m hm
    cases hm

theorem Moves.mono {Q : Call → Prop} (h : Moves d P s s') (hPQ : ∀ call, P call → Q call) :
    Moves d Q s s' := by
  rcases h with hpasses | ⟨e, hP, hstep⟩
  · exact .inl hpasses
  · exact .inr ⟨e, hPQ _ hP, hstep⟩

theorem Moves.issued (h : Moves d P s s') {id : Uuid} (hid : id ∈ s.uuids) : id ∈ s'.uuids := by
  rcases h with hpasses | ⟨e, -, hstep⟩
  · exact hpasses.issued id hid
  · obtain ⟨-, rfl⟩ := SessionService.system_step.mp hstep
    exact List.mem_append_right _ hid

theorem Moves.item_before (h : Moves d P s s') {j : TransferItem}
    (hj : j ∈ s'.world.db.items.rows) (hissued : j.id ∈ s.uuids) :
    ∃ i ∈ s.world.db.items.rows, SameItem i j := by
  rcases h with hpasses | ⟨e, -, hstep⟩
  · exact ⟨j, hpasses.leaves.items ▸ hj, .refl j⟩
  · exact SessionService.item_before hstep hj hissued

theorem Moves.item_same (h : Moves d P s s') {j : TransferItem}
    (hj : j ∈ s'.world.db.items.rows) (hissued : j.id ∈ s.uuids)
    (hother : ∀ c, P (.appendItemChunk c) → c.itemId ≠ j.id) : j ∈ s.world.db.items.rows := by
  rcases h with hpasses | ⟨e, hP, hstep⟩
  · exact hpasses.leaves.items ▸ hj
  · obtain ⟨htaken, rfl⟩ := SessionService.system_step.mp hstep
    refine (SessionService.exec_effect htaken).items_unchanged hj
      (fun hnew => htaken.1 _ hnew hissued) ?_
    intro c hc
    exact hother c (hc ▸ hP)

/-- An item and its file stay as long as the session is there and nobody sends chunks for
the item. -/
theorem Moves.item_kept (h : Moves d P s s') (hs : Inv d s) {i : TransferItem}
    (hi : i ∈ s.world.db.items.rows) (hother : ∀ c, P (.appendItemChunk c) → c.itemId ≠ i.id)
    (hsession : ∃ m ∈ s'.world.db.sessions.rows, m.id = i.sessionId) :
    i ∈ s'.world.db.items.rows ∧
      ∀ p, i.storagePath = some p → s'.world.files p = s.world.files p := by
  rcases h with hpasses | ⟨e, hP, hstep⟩
  · refine ⟨hpasses.leaves.items ▸ hi, fun p hp => hpasses.leaves.files p (.inr ⟨i, ?_⟩)⟩
    exact hs.sessions.consistent.paths i hi p hp
  · obtain ⟨htaken, rfl⟩ := SessionService.system_step.mp hstep
    have heff := SessionService.exec_effect htaken
    have hcall : ∀ c, e.call = .appendItemChunk c → c.itemId ≠ i.id :=
      fun c hc => hother c (hc ▸ hP)
    exact ⟨heff.item_kept hs.sessions.issued htaken.1 hi hcall hsession,
      fun p hp => heff.stored_kept hs.sessions htaken.1 hi hp hcall hsession⟩

theorem Moves.part_kept (h : Moves d P s s') (hs : Inv d s) {sid iid : Uuid}
    (hother : ∀ c, P (.appendItemChunk c) → c.itemId ≠ iid)
    (hsession : ∃ m ∈ s'.world.db.sessions.rows, m.id = sid) :
    s'.world.files (partPath d sid iid) = s.world.files (partPath d sid iid) := by
  rcases h with hpasses | ⟨e, hP, hstep⟩
  · exact hpasses.leaves.files _ (.inl ⟨sid, iid, rfl⟩)
  · obtain ⟨htaken, rfl⟩ := SessionService.system_step.mp hstep
    exact (SessionService.exec_effect htaken).part_kept hs.sessions.consistent
      (fun c hc => hother c (hc ▸ hP)) hsession

/-- Nobody but a chunk for an item puts another file in the place of its file. -/
theorem Moves.stored_or_gone (h : Moves d P s s') {i : TransferItem} (hissued : i.id ∈ s.uuids)
    (hother : ∀ c, P (.appendItemChunk c) → c.itemId ≠ i.id) :
    s'.world.files (itemPath d i) = s.world.files (itemPath d i) ∨
      s'.world.files (itemPath d i) = none := by
  rcases h with hpasses | ⟨e, hP, hstep⟩
  · exact .inl (hpasses.leaves.files _ (.inr ⟨i, rfl⟩))
  · obtain ⟨htaken, rfl⟩ := SessionService.system_step.mp hstep
    refine (SessionService.exec_effect htaken).stored_or_gone
      (fun hnew => htaken.1 _ hnew hissued) fun c m k hcall hacc hid => ?_
    exact hother c (hcall ▸ hP) (hacc.id.symm.trans hid)

theorem Moves.session_before (h : Moves d P s s') {r : TransferSessionModel}
    (hr : r ∈ s'.world.db.sessions.rows) (hissued : r.id ∈ s.uuids) :
    ∃ m ∈ s.world.db.sessions.rows, SameSession m r := by
  rcases h with hpasses | ⟨e, -, hstep⟩
  · exact ⟨r, hpasses.leaves.sessions ▸ hr, .refl r⟩
  · exact SessionService.session_before hstep hr hissued

/-- What has expired stays expired. -/
theorem Moves.expired (h : Moves d P s s') {r : TransferSessionModel}
    (hr : r ∈ s'.world.db.sessions.rows) (hissued : r.id ∈ s.uuids)
    (hexpired : ∀ m ∈ s.world.db.sessions.rows, m.id = r.id → m.status = .expired) :
    r.status = .expired := by
  rcases h with hpasses | ⟨e, -, hstep⟩
  · exact hexpired r (hpasses.leaves.sessions ▸ hr) rfl
  · obtain ⟨htaken, rfl⟩ := SessionService.system_step.mp hstep
    rcases (SessionService.exec_effect htaken).session_row r hr with
      hold | ⟨hstatus, -⟩ | ⟨-, hnew⟩ | ⟨m, hm, hid, hstatus, -⟩
    · exact hexpired r hold rfl
    · exact hstatus
    · exact absurd hissued (htaken.1 r.id hnew)
    · rw [hstatus]
      exact TransferSession.status_of_expired (hexpired m hm hid.symm)

end Steps

end Traffic

end Jumbox
