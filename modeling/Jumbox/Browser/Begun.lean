import Jumbox.Browser.Transferred

/-!
# The files that have been begun

A file is begun when the server has told the page the identifier of its item. From then on
the rows of the server with this identifier are of the session and under the name of the
file, and where such a row has its file, there is the file or nothing, whether the session
is still there or not.
-/

namespace Jumbox

namespace Browser

namespace UploadPage

open SessionService (itemPath appendItemChunk)

def begun (s : State) : List SelectedFile :=
  match s.stage with
  | .uploading _ _ file (.probe _) => s.sent ++ [file]
  | .uploading _ _ file (.patch _ _ _) => s.sent ++ [file]
  | .uploading _ _ file (.reprobe _ _ _) => s.sent ++ [file]
  | _ => s.sent

/-- The row is of the session, under the name of the file. -/
structure RowOf (page : UploadPage) (i : ℕ) (file : SelectedFile) (row : TransferItem) : Prop where
  id : row.id = page.itemId i
  sessionId : row.sessionId = page.sessionId
  originalName : row.originalName = file.name

/-- The rows of the files, if they are there, are of the session and of their names. -/
structure Owned (page : UploadPage) (files : List SelectedFile) (s : SessionService.State) :
    Prop where
  issued : ∀ i file, files[i]? = some file → page.itemId i ∈ s.uuids
  rows : ∀ i file, files[i]? = some file → ∀ row ∈ s.world.db.items.rows,
    row.id = page.itemId i → RowOf page i file row

/-- In the places of the files there are the files, or nothing. -/
def OnDisk (page : UploadPage) (files : List SelectedFile) (fs : Files) : Prop :=
  ∀ i file row, files[i]? = some file → RowOf page i file row →
    ∀ g, fs (itemPath page.server.deployment row) = some g → g.data = file.content

variable {page : UploadPage} {i : ℕ} {file : SelectedFile} {files : List SelectedFile}
  {x : Exchange}

theorem RowOf.itemPath_eq {row row' : TransferItem} (h : RowOf page i file row)
    (h' : RowOf page i file row') (d : Deployment) : itemPath d row = itemPath d row' := by
  unfold itemPath
  rw [h.id, h.sessionId, h.originalName, h'.id, h'.sessionId, h'.originalName]

section Kept

variable {P : SessionService.Call → Prop} {s s' : SessionService.State}

theorem Owned.kept (h : Owned page files s) (hmoves : Moves page P s s') :
    Owned page files s' where
  issued i file hfile := hmoves.issued (h.issued i file hfile)
  rows i file hfile row hrow hid := by
    obtain ⟨k, hk, hsame⟩ := hmoves.item_before hrow (hid ▸ h.issued i file hfile)
    have hrowOf := h.rows i file hfile k hk (hsame.id.trans hid)
    exact ⟨hid, hsame.sessionId.symm.trans hrowOf.sessionId,
      hsame.originalName.symm.trans hrowOf.originalName⟩

/-- What sends no chunks for a file leaves its place as it is, or empties it. -/
theorem data_kept {row : TransferItem}
    (h : ∀ g, s.world.files (itemPath page.server.deployment row) = some g →
      g.data = file.content) (hissued : row.id ∈ s.uuids) (hmoves : Moves page P s s')
    (hother : ∀ c, P (.appendItemChunk c) → c.itemId ≠ row.id) :
    ∀ g, s'.world.files (itemPath page.server.deployment row) = some g →
      g.data = file.content := by
  intro g hg
  rcases hmoves.stored_or_gone hissued hother with hsame | hgone
  · exact h g (hsame.symm.trans hg)
  · rw [hgone] at hg
    cases hg

theorem OnDisk.kept (h : OnDisk page files s.world.files) (howned : Owned page files s)
    (hmoves : Moves page P s s') (havoids : ∀ i call, P call → page.Avoids i call) :
    OnDisk page files s'.world.files := by
  intro i file row hfile hrow
  refine data_kept (h i file row hfile hrow) (hrow.id ▸ howned.issued i file hfile) hmoves ?_
  rw [hrow.id]
  exact fun c hc => havoids i _ hc c rfl

end Kept

/-! ## A file is begun -/

section Begins

/-- The file is begun: its identifier has just been drawn, for a row of its name. -/
structure Begins (page : UploadPage) (i : ℕ) (file : SelectedFile)
    (s s' : SessionService.State) : Prop where
  fresh : page.itemId i ∉ s.uuids
  row : ∃ row ∈ s'.world.db.items.rows, RowOf page i file row
  files : s'.world.files = s.world.files

theorem begun_loop {s : State} {selectedFiles : List SelectedFile} {sessionId : Uuid}
    (hstage : s.stage = loop selectedFiles sessionId i) : begun s = s.sent := by
  unfold loop at hstage
  unfold begun
  split at hstage
  · rw [hstage]
  · rw [hstage]

theorem begun_proceed {s : State} {sent selectedFiles : List SelectedFile} {sessionId : Uuid}
    {phase : Phase} (hstage : s.stage = proceed selectedFiles sessionId i file phase)
    (hsent : s.sent = if phase = .returned then sent ++ [file] else sent) :
    begun s = sent ∨ begun s = sent ++ [file] ∧ phase ≠ .failed ∧ phase ≠ .init := by
  cases phase with
  | returned =>
      rw [if_pos rfl] at hsent
      exact .inr ⟨(begun_loop hstage).trans hsent, nofun, nofun⟩
  | init =>
      left
      unfold begun
      rw [hstage]
      exact hsent
  | failed =>
      left
      unfold begun
      rw [hstage]
      exact hsent
  | probe itemId =>
      refine .inr ⟨?_, nofun, nofun⟩
      unfold begun
      rw [hstage]
      exact congrArg (· ++ [file]) hsent
  | patch itemId offset attempt =>
      refine .inr ⟨?_, nofun, nofun⟩
      unfold begun
      rw [hstage]
      exact congrArg (· ++ [file]) hsent
  | reprobe itemId offset attempt =>
      refine .inr ⟨?_, nofun, nofun⟩
      unfold begun
      rw [hstage]
      exact congrArg (· ++ [file]) hsent

theorem row_of_sent {w : World} {phase : Phase} (h : Sent page i file w phase)
    (hgoes : phase ≠ .failed) (hbegun : phase ≠ .init) :
    ∃ row ∈ w.db.items.rows, RowOf page i file row := by
  have hsending : Sending page i file w → ∃ row ∈ w.db.items.rows, RowOf page i file row := by
    intro hsending
    obtain ⟨row, hrow, hid, hsid, hname⟩ := hsending.announced
    exact ⟨row, hrow, hid, hsid, hname⟩
  cases phase with
  | init => exact absurd rfl hbegun
  | probe itemId => exact hsending h.2.2
  | patch itemId offset attempt => exact hsending h.2.2
  | reprobe itemId offset attempt => exact hsending h.2.2
  | returned =>
      obtain ⟨row, hrow, hid, hsid, hname, -⟩ := h
      exact ⟨row, hrow, hid, hsid, hname⟩
  | failed => exact absurd rfl hgoes

/-- Creating an item writes no file. -/
theorem post_files (u : Upload) (now : ℤ) (w : World) : (u.post now w).2.files = w.files := by
  cases huser : Api.getCurrentUser u.server now (some u.token) with
  | error e => rw [post_of_error u w huser]
  | ok user =>
      rw [post_of_user u w huser]
      rcases SessionService.initResumableItem_cases u.server.deployment w now u.sessionId user
        u.name u.file.length none u.itemId with haway | ⟨m, hm⟩
      · generalize SessionService.initResumableItem u.server.deployment w now u.sessionId user
          u.name u.file.length none u.itemId = o at haway
        cases haway with
        | error e => rfl
        | expired => rfl
      · rw [SessionService.initResumableItem_of_open hm]
        rfl

theorem begins_init {s : SessionService.State} {after : Browser.State} {uuids : List Uuid}
    (hs : Traffic.Inv page.server.deployment s) (hearlier : ∀ j < i, page.itemId j ∈ s.uuids)
    (hfresh : ∀ id ∈ page.drawn x (page.itemId i), id ∉ s.uuids)
    (hafter : (page.upload page.sessionId i file).step (resume .init s.world) x = some after)
    (hgoes : after.phase ≠ .failed) (hbegun : after.phase ≠ .init) :
    Begins page i file s ⟨after.world, uuids⟩ := by
  refine ⟨fresh_of_init hfresh hafter hgoes, ?_, ?_⟩
  · exact row_of_sent (advances_init hs hearlier hfresh hafter hgoes).1 hgoes hbegun
  · cases hafter
    show (exchange x s.world ((page.upload page.sessionId i file).post x.now)).2.files = _
    by_cases hlost : x.fate = .requestLost
    · rw [exchange_lost hlost]
    · rw [exchange_world hlost]
      exact post_files _ _ _

/-- A file that has been begun after an exchange was begun before it, or is begun by it. -/
theorem begins_of_step {s t : State} (h : Inv page s) (howned : Owned page (begun s) s.sessions)
    (hstep : page.stepExchange s x = some t) (hfile : (begun t)[i]? = some file) :
    (begun s)[i]? = some file ∨ Begins page i file s.sessions t.sessions := by
  have hsound := h.sound
  unfold Sound at hsound
  cases hstage : s.stage with
  | creating =>
      rw [hstage] at hsound
      obtain ⟨-, ⟨sessionData, -, rfl⟩ | rfl⟩ := page.stepExchange_creating hstage hstep
      · rw [begun_loop rfl] at hfile
        change s.sent[i]? = some file at hfile
        rw [hsound.2] at hfile
        cases hfile
      · change s.sent[i]? = some file at hfile
        rw [hsound.2] at hfile
        cases hfile
  | complete => cases (page.stepExchange_ended (.inl hstage) x).symm.trans hstep
  | failed => cases (page.stepExchange_ended (.inr hstage) x).symm.trans hstep
  | uploading sessionId k current phase =>
      rw [hstage] at hsound
      obtain ⟨rfl, -, rfl, -⟩ := hsound
      obtain ⟨after, hfresh, hafter, ht⟩ := (page.stepExchange_uploading hstage).mp hstep
      have hlate : begun t = s.sent ∨
          begun t = s.sent ++ [current] ∧ after.phase ≠ .failed ∧ after.phase ≠ .init := by
        rw [ht]
        exact begun_proceed rfl rfl
      have hwhole : begun s = s.sent ++ [current] → (begun s)[i]? = some file := by
        intro hbegun
        rw [hbegun]
        rcases hlate with hsent | ⟨hsent, -⟩
        · rw [hsent] at hfile
          rw [List.getElem?_append_left (List.getElem?_eq_some_iff.mp hfile).1]
          exact hfile
        · rw [hsent] at hfile
          exact hfile
      cases phase with
      | probe itemId => exact .inl (hwhole (by rw [begun, hstage]))
      | patch itemId offset attempt => exact .inl (hwhole (by rw [begun, hstage]))
      | reprobe itemId offset attempt => exact .inl (hwhole (by rw [begun, hstage]))
      | returned => cases hafter
      | failed => cases hafter
      | init =>
          have hnow : begun s = s.sent := by rw [begun, hstage]
          rw [hnow] at howned ⊢
          rcases hlate with hsent | ⟨hsent, hgoes, hbegun⟩
          · rw [hsent] at hfile
            exact .inl hfile
          · rw [hsent] at hfile
            rcases getElem?_concat hfile with hold | ⟨rfl, rfl⟩
            · exact .inl hold
            · right
              rw [if_pos rfl] at hfresh
              rw [ht]
              exact begins_init h.server
                (fun j hj => howned.issued j _ (List.getElem?_eq_getElem hj)) hfresh hafter hgoes
                hbegun

end Begins

/-! ## A chunk is sent -/

section Chunk

open SessionService

variable {s : SessionService.State} {k : ℕ} {current : SelectedFile}

/-- Without the session no chunk is written. -/
theorem patchChunk_files_of_dead {w : World} (hdead : ¬ Alive page w) (now : ℤ) (itemId : Uuid)
    (offset : ℕ) :
    ((page.upload page.sessionId k current).patchChunk now itemId offset w).2.files = w.files := by
  cases huser : Api.getCurrentUser page.server now (some page.token) with
  | error e => rw [patchChunk_of_error (page.upload page.sessionId k current) _ offset w huser]
  | ok user =>
      have hworld : ((page.upload page.sessionId k current).patchChunk now itemId offset w).2 =
          (appendItemChunk page.server.deployment w now ⟨page.sessionId, itemId, user,
            (page.upload page.sessionId k current).chunkBlob offset, offset⟩).2 :=
        Api.uploadItemChunk_world huser _ _ _ _
      rw [hworld]
      rcases appendItemChunk_cases page.server.deployment w now ⟨page.sessionId, itemId, user,
        (page.upload page.sessionId k current).chunkBlob offset, offset⟩ with haway | ⟨m, i, hacc⟩
      · generalize appendItemChunk page.server.deployment w now ⟨page.sessionId, itemId, user,
          (page.upload page.sessionId k current).chunkBlob offset, offset⟩ = o at haway
        cases haway with
        | error e => rfl
        | expired => rfl
      · exact absurd ⟨m, hacc.session.mem, hacc.session.id⟩ hdead

/-- A chunk of the file leaves its place as it is, or puts the file there. -/
theorem Sending.data_chunk (h : Sending page k current s.world)
    (hs : Traffic.Inv page.server.deployment s) {row : TransferItem}
    (hdisk : ∀ g, s.world.files (itemPath page.server.deployment row) = some g →
      g.data = current.content) (hrow : RowOf page k current row)
    (howned : ∀ i ∈ s.world.db.items.rows, i.id = page.itemId k → RowOf page k current i)
    (now : ℤ) (offset : ℕ) :
    ∀ g, ((page.upload page.sessionId k current).patchChunk now (page.itemId k) offset
      s.world).2.files (itemPath page.server.deployment row) = some g →
        g.data = current.content := by
  intro g hg
  cases huser : Api.getCurrentUser page.server now (some page.token) with
  | error e =>
      rw [patchChunk_of_error (page.upload page.sessionId k current) _ offset s.world huser] at hg
      exact hdisk g hg
  | ok user =>
      have hworld : ((page.upload page.sessionId k current).patchChunk now (page.itemId k) offset
          s.world).2 = (appendItemChunk page.server.deployment s.world now
            ((page.upload page.sessionId k current).request user offset)).2 :=
        Api.uploadItemChunk_world huser _ _ _ _
      rw [hworld] at hg
      have hgenuine := h.genuine_chunk hs.sessions.consistent now user offset
      have happended : appended page.server.deployment s.world now
          ((page.upload page.sessionId k current).request user offset)
            (itemPath page.server.deployment row) =
          s.world.files (itemPath page.server.deployment row) :=
        appended_ne (partPath_ne_itemPath _ _ _ row).symm
      rcases appendItemChunk_cases page.server.deployment s.world now
        ((page.upload page.sessionId k current).request user offset) with haway | ⟨m, i, hacc⟩
      · generalize appendItemChunk page.server.deployment s.world now
          ((page.upload page.sessionId k current).request user offset) = o at haway hg
        cases haway with
        | error e => exact hdisk g hg
        | expired => exact hdisk g hg
      · rcases appendItemChunk_accepted hacc with ⟨-, heq⟩ | ⟨-, e, -, heq⟩ | ⟨-, -, t, heq⟩
        · rw [heq] at hg
          exact hdisk g (happended.symm.trans hg)
        · rw [heq] at hg
          exact hdisk g (happended.symm.trans hg)
        · rw [heq] at hg hgenuine
          have hi := howned i hacc.mem hacc.id
          set stored := finishedItem page.server.deployment i
            (appendedBytes page.server.deployment s.world
              ((page.upload page.sessionId k current).request user offset)) with hstored
          have hsame : itemPath page.server.deployment row =
              itemPath page.server.deployment stored :=
            hrow.itemPath_eq ⟨hi.id, hi.sessionId, hi.originalName⟩ _
          obtain ⟨f, hf, hdata⟩ := hgenuine stored (mem_closed_items.mpr (.inl rfl)) hi.id _
            (finishedItem_completedWith _ _ _).path
          rw [hsame] at hg
          obtain rfl : f = g := Option.some.inj (hf.symm.trans hg)
          exact hdata

end Chunk

theorem OnDisk.patch {s : State} {current : SelectedFile} {itemId : Uuid} {offset attempt : ℕ}
    {after : Browser.State} {uuids : List Uuid}
    (h : OnDisk page (begun s) s.sessions.world.files)
    (hmoves : Moves page (Sends (.patch itemId offset attempt)) s.sessions ⟨after.world, uuids⟩)
    (hinv : Inv page s) (howned : Owned page (begun s) s.sessions)
    (hstage : s.stage =
      .uploading page.sessionId s.sent.length current (.patch itemId offset attempt))
    (hsent : Alive page s.sessions.world →
      Sent page s.sent.length current s.sessions.world (.patch itemId offset attempt))
    (hafter : (page.upload page.sessionId s.sent.length current).step
      (resume (.patch itemId offset attempt) s.sessions.world) x = some after) :
    OnDisk page (begun s) after.world.files := by
  have hbegun : begun s = s.sent ++ [current] := by rw [begun, hstage]
  by_cases hlost : x.fate = .requestLost
  · cases hafter
    show OnDisk page (begun s) (Browser.exchange x s.sessions.world _).2.files
    rw [exchange_lost hlost]
    exact h
  · have hworld : after.world = ((page.upload page.sessionId s.sent.length current).patchChunk
        x.now itemId offset s.sessions.world).2 := by
      cases hafter
      exact exchange_world hlost _ _
    by_cases halive : Alive page s.sessions.world
    · obtain ⟨rfl, -, hsending⟩ := hsent halive
      intro i file row hfile hrow
      have hdisk := h i file row hfile hrow
      have hissued : row.id ∈ s.sessions.uuids := hrow.id ▸ howned.issued i file hfile
      have hplace := hfile
      rw [hbegun] at hplace
      rcases getElem?_concat hplace with hearlier | ⟨rfl, rfl⟩
      · refine data_kept hdisk hissued hmoves fun c hsends heq => ?_
        obtain ⟨offset', attempt', hphase⟩ := hsends c rfl
        have hown := (Phase.patch.inj hphase).1
        have hlt := (List.getElem?_eq_some_iff.mp hearlier).1
        exact hsending.distinct i hlt (hrow.id.symm.trans (heq.symm.trans hown.symm))
      · rw [hworld]
        exact hsending.data_chunk hinv.server hdisk hrow (howned.rows _ _ hfile) x.now offset
    · rw [hworld, patchChunk_files_of_dead halive]
      exact h

/-- An exchange of the page puts nothing but the files into their places. -/
theorem OnDisk.exchange {s t : State} (h : OnDisk page (begun s) s.sessions.world.files)
    (hinv : Inv page s) (howned : Owned page (begun s) s.sessions)
    (hstep : page.stepExchange s x = some t) :
    OnDisk page (begun s) t.sessions.world.files := by
  have hsound := hinv.sound
  unfold Sound at hsound
  cases hstage : s.stage with
  | creating =>
      rw [hstage] at hsound
      intro i file row hfile
      rw [begun, hstage] at hfile
      change s.sent[i]? = some file at hfile
      rw [hsound.2] at hfile
      cases hfile
  | complete => cases (page.stepExchange_ended (.inl hstage) x).symm.trans hstep
  | failed => cases (page.stepExchange_ended (.inr hstage) x).symm.trans hstep
  | uploading sessionId k current phase =>
      rw [hstage] at hsound
      obtain ⟨rfl, -, rfl, hsound⟩ := hsound
      obtain ⟨after, hfresh, hafter, rfl⟩ := (page.stepExchange_uploading hstage).mp hstep
      have hmoves := upload_moves hinv.server hfresh hafter
      have hsilent : (∀ itemId offset attempt, phase ≠ .patch itemId offset attempt) →
          OnDisk page (begun s) after.world.files := by
        intro hphase
        refine h.kept howned hmoves fun i call hsends c hc _ => ?_
        obtain ⟨offset, attempt, heq⟩ := hsends c hc
        exact hphase _ _ _ heq
      cases phase with
      | init => exact hsilent nofun
      | probe itemId => exact hsilent nofun
      | patch itemId offset attempt =>
          exact h.patch hmoves hinv howned hstage (fun halive => (hsound halive).2.1) hafter
      | reprobe itemId offset attempt => exact hsilent nofun
      | returned => exact hsilent nofun
      | failed => exact hsilent nofun

end UploadPage

end Browser

end Jumbox
