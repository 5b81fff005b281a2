import Jumbox.Browser.UploadPage

/-!
# "All files transferred and verified"

The upload page says so only when every file of it is on the server: under the code
that the page shows, each can be downloaded with the name and the bytes it has. The
progress counts the bytes that the server has acknowledged, and ends at the total.
-/

namespace Jumbox

namespace Browser

theorem post_of_ok {u : Upload} {now : ℤ} {w : World} {r : Api.TransferItemResponse}
    (h : (u.post now w).1 = .ok r) :
    (∃ user, Api.getCurrentUser u.server now (some u.token) = .ok user) ∧ r.itemId = u.itemId ∧
      ∃ item ∈ (u.post now w).2.db.items.rows, item.id = u.itemId ∧
        item.sessionId = u.sessionId ∧ item.originalName = u.name ∧ item.storagePath = none := by
  cases huser : Api.getCurrentUser u.server now (some u.token) with
  | error e =>
      rw [post_of_error u w huser] at h
      cases h
  | ok user =>
      refine ⟨⟨user, rfl⟩, ?_⟩
      rw [post_of_user u w huser] at h ⊢
      rcases SessionService.initResumableItem_cases u.server.deployment w now u.sessionId user
        u.name u.file.length none u.itemId with haway | ⟨m, hm⟩
      · generalize SessionService.initResumableItem u.server.deployment w now u.sessionId user
          u.name u.file.length none u.itemId = o at haway h
        cases haway with
        | error e => cases h
        | expired => cases h
      · rw [SessionService.initResumableItem_of_open hm] at h ⊢
        cases h
        exact ⟨rfl, _, Table.mem_put.mpr (Or.inl rfl), rfl, rfl, rfl, rfl⟩

section Delta

variable {u : Upload} {w : World} {now : ℤ} {itemId : Uuid} {offset attempt : ℕ}
  {appended : List ℕ} {lost : ℕ → ℕ}

theorem delta_of_error {e : Api.HTTPException}
    (h : (u.patchChunk now itemId offset w).1 = .error e) :
    u.delta ⟨.patch itemId offset attempt, w, appended, lost⟩ ⟨.delivered, now⟩ = 0 := by
  simp only [Upload.delta, exchange_delivered, h]

theorem delta_of_ok {r : Api.ChunkUploadResponse}
    (h : (u.patchChunk now itemId offset w).1 = .ok r) :
    u.delta ⟨.patch itemId offset attempt, w, appended, lost⟩ ⟨.delivered, now⟩ =
      r.bytesReceived - offset := by
  simp only [Upload.delta, exchange_delivered, h]

end Delta

namespace UploadPage

variable {page : UploadPage}

/-! ## One file -/

/-- The bytes of the file that have been counted at a phase. -/
def sentBytes (file : SelectedFile) : Phase → ℕ
  | .patch _ offset _ => offset
  | .reprobe _ offset _ => offset
  | .returned => file.content.length
  | _ => 0

/-- What the server has of file `i` at a phase. -/
def Sent (page : UploadPage) (i : ℕ) (file : SelectedFile) (w : World) : Phase → Prop
  | .init => True
  | .probe itemId => itemId = page.itemId i ∧ file.content ≠ [] ∧ Sending page i file w
  | .patch itemId offset _ =>
      itemId = page.itemId i ∧ offset < file.content.length ∧ Sending page i file w
  | .reprobe itemId offset _ =>
      itemId = page.itemId i ∧ offset < file.content.length ∧ Sending page i file w
  | .returned => Uploaded page i file w
  | .failed => True

/-- What a step of the upload of file `i` has to do, unless it fails: the server has what
it has to have, and the progress has counted it. -/
def Advances (page : UploadPage) (i : ℕ) (file : SelectedFile) (phase next : Phase) (w : World)
    (delta : ℤ) : Prop :=
  next ≠ .failed →
    Sent page i file w next ∧ (sentBytes file phase : ℤ) + delta = sentBytes file next

variable {i : ℕ} {file : SelectedFile} {x : Exchange} {s : SessionService.State}
  {after : Browser.State}

theorem advances_retry {phase : Phase} {w : World} {offset attempt : ℕ}
    (hphase : sentBytes file phase = offset) (hoffset : offset < file.content.length)
    (h : Sending page i file w) :
    Advances page i file phase (Upload.retry (page.itemId i) offset attempt) w 0 := by
  intro hgoes
  unfold Upload.retry at hgoes ⊢
  dsimp only at hgoes ⊢
  split at hgoes
  · exact absurd rfl hgoes
  · rename_i hmore
    rw [if_neg hmore, hphase]
    exact ⟨⟨rfl, hoffset, h⟩, add_zero _⟩

/-- The identifier of a file that is created has not been drawn before. -/
theorem fresh_of_init (hfresh : ∀ id ∈ page.drawn x (page.itemId i), id ∉ s.uuids)
    (hstep : (page.upload page.sessionId i file).step (resume .init s.world) x = some after)
    (hgoes : after.phase ≠ .failed) : page.itemId i ∉ s.uuids := by
  obtain ⟨fate, now⟩ := x
  cases fate with
  | requestLost =>
      cases hstep
      exact absurd rfl hgoes
  | responseLost =>
      cases hstep
      exact absurd rfl hgoes
  | delivered =>
      rw [resume, step_init_delivered] at hstep
      cases hstep
      dsimp only at hgoes
      cases hreply : ((page.upload page.sessionId i file).post now s.world).1 with
      | error e =>
          rw [hreply] at hgoes
          exact absurd rfl hgoes
      | ok r =>
          obtain ⟨⟨user, huser⟩, -⟩ := post_of_ok hreply
          have hdrawn : page.drawn ⟨.delivered, now⟩ (page.itemId i) = [page.itemId i] :=
            drawn_of_user (x := ⟨.delivered, now⟩) huser (fun h => by cases h) _
          refine hfresh _ ?_
          rw [hdrawn]
          exact List.mem_singleton_self _

/-- The file is created under its name. -/
theorem advances_init (hs : Traffic.Inv page.server.deployment s)
    (hearlier : ∀ j < i, page.itemId j ∈ s.uuids)
    (hfresh : ∀ id ∈ page.drawn x (page.itemId i), id ∉ s.uuids)
    (hstep : (page.upload page.sessionId i file).step (resume .init s.world) x = some after) :
    Advances page i file .init after.phase after.world
      ((page.upload page.sessionId i file).delta (resume .init s.world) x) := by
  intro hgoes
  have hnew := fresh_of_init hfresh hstep hgoes
  obtain ⟨fate, now⟩ := x
  cases fate with
  | requestLost =>
      cases hstep
      exact absurd rfl hgoes
  | responseLost =>
      cases hstep
      exact absurd rfl hgoes
  | delivered =>
      rw [resume, step_init_delivered] at hstep
      cases hstep
      dsimp only at hgoes ⊢
      cases hreply : ((page.upload page.sessionId i file).post now s.world).1 with
      | error e =>
          rw [hreply] at hgoes
          exact absurd rfl hgoes
      | ok r =>
          obtain ⟨-, hid, item, hitem, hiid, hsid, hname, hpath⟩ := post_of_ok hreply
          by_cases hempty : file.content = []
          · have hzero : (page.upload page.sessionId i file).file.length = 0 :=
              congrArg List.length hempty
            rw [Upload.afterInit, if_pos hzero]
            refine ⟨?_, congrArg Nat.cast hzero.symm⟩
            refine ⟨item, hitem, hiid, hsid, hname, ?_⟩
            rw [if_pos hempty]
            exact hpath
          · have hpos : (page.upload page.sessionId i file).file.length ≠ 0 := by
              intro h
              exact hempty (List.length_eq_zero_iff.mp h)
            rw [Upload.afterInit, if_neg hpos]
            refine ⟨⟨hid, hempty, ?_, ⟨item, hitem, hiid, hsid, hname⟩, ?_, ?_⟩, rfl⟩
            · rcases post_cases (u := page.upload page.sessionId i file) hs.sessions hnew hempty
                now with ⟨e, he⟩ | ⟨-, hserves⟩
              · rw [hreply] at he
                cases he
              · exact ⟨0, hserves⟩
            · intro j hj hjid p hp
              obtain rfl : j = item := Table.eq_of_mem hj hitem (hjid.trans hiid.symm)
              rw [hpath] at hp
              cases hp
            · intro j hj heq
              exact hnew (heq ▸ hearlier j hj)

theorem advances_probe {itemId : Uuid} (h : Sent page i file s.world (.probe itemId))
    (hstep : (page.upload page.sessionId i file).step (resume (.probe itemId) s.world) x =
      some after) :
    Advances page i file (.probe itemId) after.phase after.world
      ((page.upload page.sessionId i file).delta (resume (.probe itemId) s.world) x) := by
  obtain ⟨rfl, hempty, hsending⟩ := h
  intro hgoes
  obtain ⟨fate, now⟩ := x
  have hpos : 0 < (page.upload page.sessionId i file).file.length :=
    List.length_pos_of_ne_nil hempty
  cases fate with
  | requestLost =>
      cases hstep
      exact absurd rfl hgoes
  | responseLost =>
      cases hstep
      exact absurd rfl hgoes
  | delivered =>
      rw [resume, step_probe_delivered, Upload.outerLoop, if_pos hpos] at hstep
      cases hstep
      exact ⟨⟨rfl, hpos, hsending⟩, rfl⟩

section Chunk

open SessionService

/-- A chunk of file `i` leaves what the server has for it as it is, or makes it the file. -/
theorem Sending.genuine_chunk {w : World} (h : Sending page i file w)
    (hconsistent : Consistent page.server.deployment w) (now : ℤ) (user : AuthenticatedUser)
    (offset : ℕ) :
    Genuine page i file (appendItemChunk page.server.deployment w now
      ((page.upload page.sessionId i file).request user offset)).2 := by
  have hkept : ∀ {j : TransferItem}, j ∈ w.db.items.rows → j.id = page.itemId i →
      ∀ p, j.storagePath = some p →
        ∃ f, appended page.server.deployment w now
          ((page.upload page.sessionId i file).request user offset) p = some f ∧
            f.data = file.content := by
    intro j hj hid p hp
    obtain ⟨f, hf, hdata⟩ := h.genuine j hj hid p hp
    have hpath := hconsistent.paths j hj p hp
    refine ⟨f, (appended_ne ?_).trans hf, hdata⟩
    rw [hpath]
    exact (partPath_ne_itemPath _ _ _ j).symm
  rcases appendItemChunk_cases page.server.deployment w now
    ((page.upload page.sessionId i file).request user offset) with haway | ⟨m, k, hacc⟩
  · generalize appendItemChunk page.server.deployment w now
      ((page.upload page.sessionId i file).request user offset) = o at haway
    cases haway with
    | error e => exact h.genuine
    | expired => exact h.genuine
  · obtain ⟨n, hserves⟩ := h.serves
    rcases appendItemChunk_accepted hacc with ⟨-, heq⟩ | ⟨-, e, -, heq⟩ | ⟨hlast, -, t, heq⟩
    · rw [heq]
      intro j hj hid p hp
      rcases Table.mem_put.mp hj with rfl | ⟨hj, -⟩
      · exact hkept hacc.mem hid p hp
      · exact hkept hj hid p hp
    · rw [heq]
      exact fun j hj => hkept hj
    · -- the chunk that completes the item is the last one of the file
      obtain ⟨-, _, _, w', hwritten, -, hend⟩ := hserves.written hacc
      have hbytes : (appendedBytes page.server.deployment w
          ((page.upload page.sessionId i file).request user offset)).length =
            (page.upload page.sessionId i file).chunkEnd offset :=
        congrArg (fun r => r.2.1) (Except.ok.inj (congrArg Prod.fst (heq.symm.trans hwritten)))
      obtain ⟨k', hk', hkid, -, hsize, -⟩ := hserves.item
      obtain rfl : k = k' := Table.eq_of_mem hacc.mem hk' (hacc.id.trans hkid.symm)
      rw [hbytes, reachesEnd_iff, hsize] at hlast
      have hlength : (page.upload page.sessionId i file).chunkEnd offset = file.content.length :=
        le_antisymm (min_le_right _ _) (Int.ofNat_le.mp hlast.1)
      obtain ⟨stored, hstored, hstid, -, -, q, f, hq, hf, hdata⟩ := (hend hlength).1
      rw [show appendItemChunk page.server.deployment w now _ = _ from hwritten]
      intro j hj hid p hp
      obtain rfl : j = stored := Table.eq_of_mem hj hstored (hid.trans hstid.symm)
      obtain rfl : p = q := Option.some.inj (hp.symm.trans hq)
      exact ⟨f, hf, hdata⟩

theorem Sending.genuine_patchChunk (h : Sending page i file s.world)
    (hs : Traffic.Inv page.server.deployment s) (now : ℤ) (offset : ℕ) :
    Genuine page i file
      ((page.upload page.sessionId i file).patchChunk now (page.itemId i) offset s.world).2 := by
  cases huser : Api.getCurrentUser page.server now (some page.token) with
  | error e =>
      rw [patchChunk_of_error (page.upload page.sessionId i file) _ offset s.world huser]
      exact h.genuine
  | ok user =>
      have hworld : ((page.upload page.sessionId i file).patchChunk now (page.itemId i) offset
          s.world).2 = (appendItemChunk page.server.deployment s.world now
            ((page.upload page.sessionId i file).request user offset)).2 :=
        Api.uploadItemChunk_world huser _ _ _ _
      rw [hworld]
      exact h.genuine_chunk hs.sessions.consistent now user offset

end Chunk

/-- What the server serves after a chunk of file `i` is a row of its name. -/
theorem Moves.sending_of_serves {P : SessionService.Call → Prop} {s' : SessionService.State}
    (h : Moves page P s s') (hs : Traffic.Inv page.server.deployment s)
    (hsending : Sending page i file s.world) {k : ℕ}
    (hserves : Serves (page.upload page.sessionId i file) s'.world k)
    (hgenuine : Genuine page i file s'.world) : Sending page i file s'.world := by
  refine ⟨⟨k, hserves⟩, ?_, hgenuine, hsending.distinct⟩
  obtain ⟨item, hitem, hid, -⟩ := hserves.item
  obtain ⟨hsid, hname⟩ := h.named hs hsending.announced hitem hid
  exact ⟨item, hitem, hid, hsid, hname⟩

theorem Moves.uploaded_of_stored {P : SessionService.Call → Prop} {s' : SessionService.State}
    (h : Moves page P s s') (hs : Traffic.Inv page.server.deployment s)
    (hsending : Sending page i file s.world) (hempty : file.content ≠ [])
    (hstored : Stored (page.upload page.sessionId i file) s'.world) :
    Uploaded page i file s'.world := by
  obtain ⟨item, hitem, hid, -, -, p, f, hp, hf, hdata⟩ := hstored
  obtain ⟨hsid, hname⟩ := h.named hs hsending.announced hitem hid
  refine ⟨item, hitem, hid, hsid, hname, ?_⟩
  rw [if_neg hempty]
  exact ⟨p, f, hp, hf, hdata⟩

/-- An acknowledged chunk is on the server, and so is the file with its last chunk. -/
theorem advances_reply {P : SessionService.Call → Prop} {uuids : List Uuid} {now : ℤ}
    {offset attempt : ℕ}
    (hmoves : Moves page P s
      ⟨((page.upload page.sessionId i file).patchChunk now (page.itemId i) offset s.world).2,
        uuids⟩)
    (hs : Traffic.Inv page.server.deployment s) (hsending : Sending page i file s.world)
    (hoffset : offset < file.content.length) :
    Advances page i file (.patch (page.itemId i) offset attempt)
      ((page.upload page.sessionId i file).afterPatch (page.itemId i) offset attempt
        (some
          ((page.upload page.sessionId i file).patchChunk now (page.itemId i) offset s.world).1))
      ((page.upload page.sessionId i file).patchChunk now (page.itemId i) offset s.world).2
      ((page.upload page.sessionId i file).delta
        (resume (.patch (page.itemId i) offset attempt) s.world) ⟨.delivered, now⟩) := by
  obtain ⟨k, hserves⟩ := hsending.serves
  have hgenuine := hsending.genuine_patchChunk hs now offset
  rcases patchChunk_cases hserves now offset with
    ⟨-, ⟨e, he⟩, hserves'⟩ | ⟨-, -, ⟨r, hr, hbytes⟩, hmore, hlast⟩
  · have hsending' := hmoves.sending_of_serves hs hsending hserves' hgenuine
    change ((page.upload page.sessionId i file).patchChunk now (page.itemId i) offset s.world).1 =
      .error e at he
    rw [resume, delta_of_error he, he, Upload.afterPatch]
    split
    · exact fun _ => ⟨⟨rfl, hoffset, hsending'⟩, add_zero _⟩
    · exact advances_retry rfl hoffset hsending'
  · change ((page.upload page.sessionId i file).patchChunk now (page.itemId i) offset s.world).1 =
      .ok r at hr
    rw [resume, delta_of_ok hr, hbytes, hr, Upload.afterPatch, Upload.outerLoop, hbytes]
    have hcount : ∀ n : ℤ, (offset : ℤ) + (n - offset) = n := fun n => by omega
    split
    · rename_i hshort
      have hsending' := hmoves.sending_of_serves hs hsending (hmore hshort) hgenuine
      exact fun _ => ⟨⟨rfl, hshort, hsending'⟩, hcount _⟩
    · rename_i hlong
      have hle : (page.upload page.sessionId i file).chunkEnd offset ≤ file.content.length :=
        min_le_right _ _
      have hend : (page.upload page.sessionId i file).chunkEnd offset = file.content.length :=
        le_antisymm hle (not_lt.mp hlong)
      have hempty : file.content ≠ [] := List.ne_nil_of_length_pos (Nat.zero_lt_of_lt hoffset)
      refine fun _ => ⟨hmoves.uploaded_of_stored hs hsending hempty (hlast hend).1, ?_⟩
      rw [hend]
      exact hcount _

/-- A chunk is acknowledged, or it will be sent again. -/
theorem advances_patch {P : SessionService.Call → Prop} {uuids : List Uuid}
    (hmoves : Moves page P s ⟨after.world, uuids⟩) (hs : Traffic.Inv page.server.deployment s)
    {itemId : Uuid} {offset attempt : ℕ}
    (h : Sent page i file s.world (.patch itemId offset attempt))
    (hstep : (page.upload page.sessionId i file).step
      (resume (.patch itemId offset attempt) s.world) x = some after) :
    Advances page i file (.patch itemId offset attempt) after.phase after.world
      ((page.upload page.sessionId i file).delta (resume (.patch itemId offset attempt) s.world)
        x) := by
  obtain ⟨rfl, hoffset, hsending⟩ := h
  obtain ⟨k, hserves⟩ := hsending.serves
  obtain ⟨fate, now⟩ := x
  cases fate with
  | requestLost =>
      cases hstep
      exact advances_retry rfl hoffset hsending
  | responseLost =>
      cases hstep
      obtain ⟨k', hserves'⟩ := hserves.patchChunk now offset
      exact advances_retry rfl hoffset (hmoves.sending_of_serves hs hsending hserves'
        (hsending.genuine_patchChunk hs now offset))
  | delivered =>
      cases hstep
      exact advances_reply hmoves hs hsending hoffset

theorem advances_reprobe {itemId : Uuid} {offset attempt : ℕ}
    (h : Sent page i file s.world (.reprobe itemId offset attempt))
    (hstep : (page.upload page.sessionId i file).step
      (resume (.reprobe itemId offset attempt) s.world) x = some after) :
    Advances page i file (.reprobe itemId offset attempt) after.phase after.world
      ((page.upload page.sessionId i file).delta (resume (.reprobe itemId offset attempt) s.world)
        x) := by
  obtain ⟨rfl, hoffset, hsending⟩ := h
  obtain ⟨fate, now⟩ := x
  cases fate with
  | requestLost =>
      cases hstep
      exact advances_retry rfl hoffset hsending
  | responseLost =>
      have hsame : ((page.upload page.sessionId i file).getOffset now (page.itemId i) s.world).2 =
          s.world := by rw [getOffset_eq]
      cases hstep
      refine advances_retry rfl hoffset ?_
      show Sending page i file
        ((page.upload page.sessionId i file).getOffset now (page.itemId i) s.world).2
      rw [hsame]
      exact hsending
  | delivered =>
      rw [resume, step_reprobe_delivered] at hstep
      cases hstep
      exact advances_retry rfl hoffset hsending

theorem advances {P : SessionService.Call → Prop} {uuids : List Uuid} {phase : Phase}
    (hmoves : Moves page P s ⟨after.world, uuids⟩) (hs : Traffic.Inv page.server.deployment s)
    (hearlier : ∀ j < i, page.itemId j ∈ s.uuids)
    (hfresh : ∀ id ∈ (if phase = .init then page.drawn x (page.itemId i) else []), id ∉ s.uuids)
    (h : Sent page i file s.world phase)
    (hstep : (page.upload page.sessionId i file).step (resume phase s.world) x = some after) :
    Advances page i file phase after.phase after.world
      ((page.upload page.sessionId i file).delta (resume phase s.world) x) := by
  cases phase with
  | init => exact advances_init hs hearlier hfresh hstep
  | probe itemId => exact advances_probe h hstep
  | patch itemId offset attempt => exact advances_patch hmoves hs h hstep
  | reprobe itemId offset attempt => exact advances_reprobe h hstep
  | returned => cases hstep
  | failed => cases hstep

/-- Somebody else's step leaves the upload of the file where it is. -/
theorem Sent.kept {P : SessionService.Call → Prop} {s' : SessionService.State} {phase : Phase}
    (h : Sent page i file s.world phase) (hmoves : Moves page P s s')
    (hs : Traffic.Inv page.server.deployment s) (halive : Alive page s'.world)
    (havoids : ∀ call, P call → page.Avoids i call) : Sent page i file s'.world phase := by
  cases phase with
  | init => trivial
  | probe itemId => exact ⟨h.1, h.2.1, hmoves.sending hs halive havoids h.2.2⟩
  | patch itemId offset attempt => exact ⟨h.1, h.2.1, hmoves.sending hs halive havoids h.2.2⟩
  | reprobe itemId offset attempt => exact ⟨h.1, h.2.1, hmoves.sending hs halive havoids h.2.2⟩
  | returned => exact hmoves.uploaded hs halive havoids h
  | failed => trivial

/-! ## All files -/

/-- The files are there, behind the code that the page shows. -/
structure Delivered (page : UploadPage) (files : List SelectedFile) (code : Option Str)
    (w : World) : Prop where
  shows : Shows page code w
  uploaded : ∀ j file, files[j]? = some file → Uploaded page j file w

/-- As long as its session is there, what the page believes is so. -/
def Sound (page : UploadPage) (s : State) : Prop :=
  match s.stage with
  | .creating => s.uploadedBytes = 0 ∧ s.sent = []
  | .uploading sessionId i file phase =>
      sessionId = page.sessionId ∧ page.sessionId ∈ s.sessions.uuids ∧ i = s.sent.length ∧
        (Alive page s.sessions.world →
          Delivered page s.sent s.sessionCode s.sessions.world ∧
            Sent page i file s.sessions.world phase ∧
            s.uploadedBytes = totalBytes s.sent + sentBytes file phase)
  | .complete =>
      page.sessionId ∈ s.sessions.uuids ∧
        (Alive page s.sessions.world →
          Delivered page s.sent s.sessionCode s.sessions.world ∧
            s.uploadedBytes = totalBytes s.sent)
  | .failed => True

theorem getElem?_concat {α : Type} {l : List α} {a b : α} {n : ℕ}
    (h : (l ++ [a])[n]? = some b) : l[n]? = some b ∨ n = l.length ∧ b = a := by
  rcases lt_trichotomy n l.length with hlt | rfl | hlt
  · rw [List.getElem?_append_left hlt] at h
    exact .inl h
  · rw [List.getElem?_concat_length] at h
    exact .inr ⟨rfl, (Option.some.inj h).symm⟩
  · rw [List.getElem?_append_right hlt.le, List.getElem?_eq_none] at h
    · cases h
    · exact Nat.sub_pos_of_lt hlt

theorem totalBytes_concat (files : List SelectedFile) (file : SelectedFile) :
    totalBytes (files ++ [file]) = totalBytes files + file.content.length := by
  simp [totalBytes]

theorem sound_loop {s : State}
    (hstage : s.stage = loop s.selectedFiles page.sessionId s.sent.length)
    (hissued : page.sessionId ∈ s.sessions.uuids)
    (h : Alive page s.sessions.world → Delivered page s.sent s.sessionCode s.sessions.world ∧
      s.uploadedBytes = totalBytes s.sent) : Sound page s := by
  unfold loop at hstage
  unfold Sound
  split at hstage
  · rw [hstage]
    exact ⟨hissued, h⟩
  · rw [hstage]
    refine ⟨rfl, hissued, rfl, fun halive => ?_⟩
    obtain ⟨hdelivered, hbytes⟩ := h halive
    refine ⟨hdelivered, trivial, ?_⟩
    rw [hbytes]
    exact (add_zero _).symm

/-- The loop goes on to the next file with the bytes of this one counted. -/
theorem sound_proceed {s : State} {sent : List SelectedFile} {phase : Phase}
    (hstage : s.stage = proceed s.selectedFiles page.sessionId sent.length file phase)
    (hsent : s.sent = if phase = .returned then sent ++ [file] else sent)
    (hissued : page.sessionId ∈ s.sessions.uuids)
    (h : Alive page s.sessions.world → phase ≠ .failed →
      Delivered page sent s.sessionCode s.sessions.world ∧
        Sent page sent.length file s.sessions.world phase ∧
        s.uploadedBytes = totalBytes sent + sentBytes file phase) :
    Sound page s := by
  have hsound : ∀ p, p ≠ .failed → p ≠ .returned → phase = p →
      s.stage = .uploading page.sessionId sent.length file p → Sound page s := by
    rintro p hp hmore rfl hstage
    rw [if_neg hmore] at hsent
    unfold Sound
    rw [hstage]
    refine ⟨rfl, hissued, congrArg List.length hsent.symm, fun halive => ?_⟩
    rw [hsent]
    exact h halive hp
  cases phase with
  | init => exact hsound .init nofun nofun rfl hstage
  | probe itemId => exact hsound (.probe itemId) nofun nofun rfl hstage
  | patch itemId offset attempt =>
      exact hsound (.patch itemId offset attempt) nofun nofun rfl hstage
  | reprobe itemId offset attempt =>
      exact hsound (.reprobe itemId offset attempt) nofun nofun rfl hstage
  | failed =>
      unfold Sound
      rw [hstage]
      trivial
  | returned =>
      rw [if_pos rfl] at hsent
      refine sound_loop ?_ hissued fun halive => ?_
      · rw [hsent, List.length_append]
        exact hstage
      obtain ⟨hdelivered, huploaded, hbytes⟩ := h halive nofun
      rw [hsent]
      refine ⟨⟨hdelivered.shows, fun j f hf => ?_⟩, ?_⟩
      · rcases getElem?_concat hf with hf | ⟨rfl, rfl⟩
        · exact hdelivered.uploaded j f hf
        · exact huploaded
      · rw [hbytes, totalBytes_concat]
        exact (Nat.cast_add _ _).symm

/-- The page shows the code of the session it has created. -/
theorem createSession_shows {w : World} {r : Api.CreateSessionResponse}
    (h : (page.createSession x w).1 = some (.ok r)) :
    r.sessionId = page.sessionId ∧ page.drawn x page.sessionId = [page.sessionId] ∧
      Shows page (some r.sessionCode) (page.createSession x w).2 := by
  obtain ⟨fate, now⟩ := x
  cases fate with
  | requestLost => cases h
  | responseLost => cases h
  | delivered =>
      rw [createSession, exchange_delivered] at h ⊢
      dsimp only at h ⊢
      have hreply := Option.some.inj h
      unfold Api.createSession at hreply ⊢
      cases huser : Api.getCurrentUser page.server now (some page.token) with
      | error e =>
          rw [Api.withCurrentUser_of_error huser] at hreply
          cases hreply
      | ok user =>
          rw [Api.withCurrentUser_of_ok huser] at hreply ⊢
          generalize hcreate : SessionService.createSession w now user
            page.payload.expiresInSeconds page.payload.burnAfterDownload page.sessionId page.draws =
              o at hreply ⊢
          obtain ⟨result, w'⟩ := o
          cases result with
          | error e => cases hreply
          | ok session =>
              obtain ⟨hid, -, -, hworld⟩ := SessionService.createSession_ok hcreate
              cases hreply
              refine ⟨hid, drawn_of_user (x := ⟨.delivered, now⟩) huser (fun h => by cases h) _, ?_⟩
              dsimp only
              rw [hworld]
              exact ⟨Db.sessionToModel session, Table.mem_put.mpr (.inl rfl), hid, rfl⟩

/-- What holds of the server holds, and the page is right about it. -/
structure Inv (page : UploadPage) (s : State) : Prop where
  server : Traffic.Inv page.server.deployment s.sessions
  sound : Sound page s

theorem Inv.creating {s t : State} (h : Inv page s) (hcreating : s.stage = .creating)
    (hstep : page.stepExchange s x = some t) : Inv page t := by
  have hbytes := h.sound
  unfold Sound at hbytes
  rw [hcreating] at hbytes
  obtain ⟨hzero, hnone⟩ := hbytes
  obtain ⟨hfresh, hended⟩ := page.stepExchange_creating hcreating hstep
  have hserver := (createSession_moves h.server hfresh).inv h.server
  rcases hended with ⟨sessionData, hreply, rfl⟩ | rfl
  · obtain ⟨hid, hdrawn, hshows⟩ := createSession_shows hreply
    refine ⟨hserver, sound_loop ?_ ?_ fun _ => ?_⟩
    · show loop s.selectedFiles sessionData.sessionId 0 = _
      rw [hid, hnone]
      rfl
    · show page.sessionId ∈ page.drawn x page.sessionId ++ s.sessions.uuids
      rw [hdrawn]
      exact List.mem_cons_self
    · dsimp only
      rw [hnone]
      exact ⟨⟨hshows, nofun⟩, hzero⟩
  · exact ⟨hserver, trivial⟩

theorem Delivered.kept {P : SessionService.Call → Prop} {s s' : SessionService.State}
    {files : List SelectedFile} {code : Option Str} (h : Delivered page files code s.world)
    (hmoves : Moves page P s s') (hs : Traffic.Inv page.server.deployment s)
    (hissued : page.sessionId ∈ s.uuids) (halive : Alive page s'.world)
    (havoids : ∀ j < files.length, ∀ call, P call → page.Avoids j call) :
    Delivered page files code s'.world where
  shows := hmoves.shows hissued halive h.shows
  uploaded j f hf := hmoves.uploaded hs halive (havoids j (List.getElem?_eq_some_iff.mp hf).1)
    (h.uploaded j f hf)

/-- The chunks of one file are none of a file before it. -/
theorem Sent.avoids {w : World} {phase : Phase} (h : Sent page i file w phase) {j : ℕ} (hj : j < i)
    (call : SessionService.Call) (hsends : Sends phase call) : page.Avoids j call := by
  intro c hc heq
  obtain ⟨offset, attempt, rfl⟩ := hsends c hc
  exact h.2.2.distinct j hj (heq.symm.trans h.1)

theorem Inv.uploading {s t : State} {sessionId : Uuid} {phase : Phase} (h : Inv page s)
    (huploading : s.stage = .uploading sessionId i file phase)
    (hstep : page.stepExchange s x = some t) : Inv page t := by
  have hsound := h.sound
  unfold Sound at hsound
  rw [huploading] at hsound
  obtain ⟨rfl, hissued, rfl, hsound⟩ := hsound
  obtain ⟨after, hfresh, hafter, rfl⟩ := (page.stepExchange_uploading huploading).mp hstep
  have hmoves := upload_moves h.server hfresh hafter
  refine ⟨hmoves.inv h.server, ?_⟩
  refine sound_proceed rfl rfl (List.mem_append_right _ hissued) fun halive hgoes => ?_
  obtain ⟨hdelivered, hsent, hbytes⟩ := hsound (hmoves.alive_before hissued halive)
  have hearlier : ∀ j < s.sent.length, page.itemId j ∈ s.sessions.uuids := by
    intro j hj
    obtain ⟨item, hitem, hid, -⟩ := hdelivered.uploaded j _ (List.getElem?_eq_getElem hj)
    exact hid ▸ h.server.sessions.issued.items item hitem
  obtain ⟨hsent', hcount⟩ := advances hmoves h.server hearlier hfresh hsent hafter hgoes
  have hkept := hdelivered.kept hmoves h.server hissued halive
    fun j hj call hsends => hsent.avoids hj call hsends
  refine ⟨hkept, hsent', ?_⟩
  rw [← hcount, hbytes]
  exact add_assoc _ _ _

/-- What somebody else does to the sessions leaves the page right. -/
theorem Inv.moved {P : SessionService.Call → Prop} {s : State} (h : Inv page s)
    {sessions : SessionService.State} (hmoves : Moves page P s.sessions sessions)
    (havoids : ∀ i call, P call → page.Avoids i call) : Inv page { s with sessions } := by
  refine ⟨hmoves.inv h.server, ?_⟩
  have hsound := h.sound
  unfold Sound at hsound ⊢
  dsimp only
  split at hsound
  · exact hsound
  · obtain ⟨hid, hmem, hlength, hsound⟩ := hsound
    refine ⟨hid, hmoves.issued hmem, hlength, fun halive => ?_⟩
    obtain ⟨hdelivered, hsent, hbytes⟩ := hsound (hmoves.alive_before hmem halive)
    exact ⟨hdelivered.kept hmoves h.server hmem halive fun j _ => havoids j,
      hsent.kept hmoves h.server halive (havoids _), hbytes⟩
  · obtain ⟨hmem, hsound⟩ := hsound
    refine ⟨hmoves.issued hmem, fun halive => ?_⟩
    obtain ⟨hdelivered, hbytes⟩ := hsound (hmoves.alive_before hmem halive)
    exact ⟨hdelivered.kept hmoves h.server hmem halive fun j _ => havoids j, hbytes⟩
  · trivial

theorem Inv.other {s t : State} {e : Traffic.Event} (h : Inv page s)
    (hconsiderate : page.Considerate (.other e)) (hstep : page.step s (.other e) = some t) :
    Inv page t := by
  obtain ⟨sessions, hsessions, rfl⟩ := page.step_other hstep
  have hmoves : Moves page (fun call => ∀ i, page.Avoids i call) s.sessions sessions :=
    Traffic.step_moves h.server hsessions hconsiderate
  exact h.moved hmoves fun i call h => h i

/-- What is selected does not matter to what has been sent. -/
theorem Inv.select {s t : State} {files : List SelectedFile} (h : Inv page s)
    (hstep : page.step s (.select files) = some t) : Inv page t := by
  rw [page.step_select hstep]
  exact ⟨h.server, h.sound⟩

/-- An exchange makes one call of the server, or none. -/
theorem Inv.moves {s t : State} (h : Inv page s) (hstep : page.stepExchange s x = some t) :
    Moves page (fun _ => True) s.sessions t.sessions := by
  cases hstage : s.stage with
  | creating =>
      obtain ⟨hfresh, hended⟩ := page.stepExchange_creating hstage hstep
      have hmoves := createSession_moves h.server hfresh
      rcases hended with ⟨sessionData, -, rfl⟩ | rfl
      · exact hmoves
      · exact hmoves
  | uploading sessionId i file phase =>
      obtain ⟨after, hfresh, hafter, rfl⟩ := (page.stepExchange_uploading hstage).mp hstep
      have hsound := h.sound
      unfold Sound at hsound
      rw [hstage] at hsound
      obtain rfl := hsound.1
      exact (upload_moves h.server hfresh hafter).mono fun _ _ => trivial
  | complete => cases (page.stepExchange_ended (.inl hstage) x).symm.trans hstep
  | failed => cases (page.stepExchange_ended (.inr hstage) x).symm.trans hstep

theorem Inv.step {s t : State} {l : Step} (h : Inv page s) (hconsiderate : page.Considerate l)
    (hstep : page.step s l = some t) : Inv page t := by
  cases l with
  | other e => exact h.other hconsiderate hstep
  | select files => exact h.select hstep
  | exchange x =>
      cases hstage : s.stage with
      | creating => exact h.creating hstage hstep
      | uploading sessionId i file phase => exact h.uploading hstage hstep
      | complete => cases (page.stepExchange_ended (.inl hstage) x).symm.trans hstep
      | failed => cases (page.stepExchange_ended (.inr hstage) x).symm.trans hstep

theorem inv_of_run {s₀ : SessionService.State} (hs : Traffic.Reachable page.server.deployment s₀)
    {ls : List Step} (hconsiderate : ∀ l ∈ ls, page.Considerate l) {t : State}
    (hrun : page.system.run (page.start s₀) ls = some t) : Inv page t := by
  have hstart : Sound page (page.start s₀) := ⟨rfl, rfl⟩
  exact System.holds_of_run (P := Inv page) (K := page.Considerate)
    (fun _ _ _ h hK hstep => h.step hK hstep) ⟨Traffic.inv_of_reachable hs, hstart⟩
    hconsiderate hrun

/-! ## With no other selection -/

/-- What is selected is what was selected when the form was submitted, and the loop has
gone through it up to its place. -/
def Steady (page : UploadPage) (s : State) : Prop :=
  s.selectedFiles = page.selectedFiles ∧
    match s.stage with
    | .creating => s.sent = []
    | .uploading _ i file _ =>
        s.sent = page.selectedFiles.take i ∧ page.selectedFiles[i]? = some file ∧
          s.totalBytes = totalBytes page.selectedFiles
    | .complete => s.sent = page.selectedFiles ∧ s.totalBytes = totalBytes page.selectedFiles
    | .failed => True

theorem steady_loop {s : State} {sessionId : Uuid}
    (hselected : s.selectedFiles = page.selectedFiles)
    (hstage : s.stage = loop s.selectedFiles sessionId i)
    (hsent : s.sent = page.selectedFiles.take i)
    (htotal : s.totalBytes = totalBytes page.selectedFiles) : Steady page s := by
  refine ⟨hselected, ?_⟩
  rw [hselected] at hstage
  unfold loop at hstage
  split at hstage
  · rename_i hnone
    rw [hstage]
    refine ⟨?_, htotal⟩
    rw [hsent, List.take_of_length_le (List.getElem?_eq_none_iff.mp hnone)]
  · rename_i hsome
    rw [hstage]
    exact ⟨hsent, hsome, htotal⟩

theorem steady_proceed {s : State} {sessionId : Uuid} {phase : Phase}
    (hselected : s.selectedFiles = page.selectedFiles)
    (hstage : s.stage = proceed s.selectedFiles sessionId i file phase)
    (hsent : s.sent = if phase = .returned then page.selectedFiles.take i ++ [file]
      else page.selectedFiles.take i)
    (hfile : page.selectedFiles[i]? = some file)
    (htotal : s.totalBytes = totalBytes page.selectedFiles) : Steady page s := by
  have hsteady : ∀ p, p ≠ .returned → phase = p → s.stage = .uploading sessionId i file p →
      Steady page s := by
    rintro p hmore rfl hstage
    rw [if_neg hmore] at hsent
    refine ⟨hselected, ?_⟩
    rw [hstage]
    exact ⟨hsent, hfile, htotal⟩
  cases phase with
  | init => exact hsteady .init nofun rfl hstage
  | probe itemId => exact hsteady (.probe itemId) nofun rfl hstage
  | patch itemId offset attempt => exact hsteady (.patch itemId offset attempt) nofun rfl hstage
  | reprobe itemId offset attempt =>
      exact hsteady (.reprobe itemId offset attempt) nofun rfl hstage
  | failed =>
      refine ⟨hselected, ?_⟩
      rw [hstage]
      trivial
  | returned =>
      refine steady_loop hselected hstage ?_ htotal
      rw [hsent, if_pos rfl, List.take_add_one, hfile]
      rfl

theorem Steady.exchange {s t : State} (h : Steady page s) (hstep : page.stepExchange s x = some t) :
    Steady page t := by
  obtain ⟨hselected, hstage⟩ := h
  cases hs : s.stage with
  | creating =>
      rw [hs] at hstage
      obtain ⟨-, ⟨sessionData, -, rfl⟩ | rfl⟩ := page.stepExchange_creating hs hstep
      · exact steady_loop hselected rfl hstage (congrArg totalBytes hselected)
      · exact ⟨hselected, trivial⟩
  | uploading sessionId i file phase =>
      rw [hs] at hstage
      obtain ⟨hsent, hfile, htotal⟩ := hstage
      obtain ⟨after, -, -, rfl⟩ := (page.stepExchange_uploading hs).mp hstep
      refine steady_proceed hselected rfl ?_ hfile htotal
      dsimp only
      rw [hsent]
  | complete => cases (page.stepExchange_ended (.inl hs) x).symm.trans hstep
  | failed => cases (page.stepExchange_ended (.inr hs) x).symm.trans hstep

theorem Steady.step {s t : State} {l : Step} (h : Steady page s) (hl : ∀ files, l ≠ .select files)
    (hstep : page.step s l = some t) : Steady page t := by
  cases l with
  | exchange x => exact h.exchange hstep
  | select files => exact absurd rfl (hl files)
  | other e =>
      obtain ⟨sessions, -, rfl⟩ := page.step_other hstep
      exact h

theorem steady_of_run {s₀ : SessionService.State} {ls : List Step}
    (hls : ∀ files, .select files ∉ ls) {t : State}
    (hrun : page.system.run (page.start s₀) ls = some t) : Steady page t := by
  have hstart : Steady page (page.start s₀) := ⟨rfl, rfl⟩
  refine System.holds_of_run (P := Steady page) (K := fun l => ∀ files, l ≠ .select files)
    (fun _ _ _ h hl hstep => h.step hl hstep) hstart ?_ hrun
  rintro l hl files rfl
  exact hls files hl

/-! ## Downloads -/

open SessionService (downloadSessionItem) in
theorem Uploaded.downloads {s : SessionService.State} (hs : Traffic.Inv page.server.deployment s)
    (h : Uploaded page i file s.world) {m : TransferSessionModel}
    (hm : m ∈ s.world.db.sessions.rows) (hid : m.id = page.sessionId) {now : ℤ}
    (hlive : m.expiresAt.any (· < now) = false) (hstatus : m.status ≠ .expired) :
    if file.content = [] then
      downloadSessionItem s.world now m.sessionCode (page.itemId i) =
        (.error ⟨404, "File missing on disk".toList⟩, s.world)
    else
      ∃ r burn, downloadSessionItem s.world now m.sessionCode (page.itemId i) =
          (.ok (r, burn), s.world) ∧
        r.body = file.content ∧ r.filename = file.name ∧
        r.header "X-Checksum-SHA256" = some (hexdigest file.content) := by
  obtain ⟨item, hitem, hiid, hsid, hname, hfile⟩ := h
  have hfound := hs.codes.getSessionItem hm hlive hstatus hitem
    (hsid.trans hid.symm)
  rw [hiid] at hfound
  by_cases hempty : file.content = []
  · rw [if_pos hempty] at hfile ⊢
    simp only [downloadSessionItem, hfound, SessionService.serveItem, hfile, Option.bind_none]
  · rw [if_neg hempty] at hfile ⊢
    obtain ⟨p, f, hp, hf, hdata⟩ := hfile
    have hdownload := hs.codes.downloadSessionItem hm hlive
      hstatus hitem (hsid.trans hid.symm) hp hf
    rw [hiid] at hdownload
    have hheader := (hs.sessions.consistent.downloadsMatchHeaders now
      m.sessionCode (page.itemId i) _ _ _ hdownload).2
    rw [hdata] at hheader
    exact ⟨_, _, hdownload, hdata, hname, hheader⟩

end UploadPage

end Browser

end Jumbox
