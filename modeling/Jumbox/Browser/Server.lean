import Jumbox.Browser.Upload
import Jumbox.Sessions.Invariant

/-!
# The server as one upload sees it

What the routes answer to the client of an upload, in terms of how much of the
file they have: `Serves u w k` says that the part file holds the first `k` bytes.
A chunk is written exactly if its offset is `k`, whatever the client believes.
-/

namespace Jumbox

namespace Browser

open SessionService
open ChunkStorage (partPath)

variable {u : Upload} {w : World} {k : ℕ}

/-- The item has its row, and the server has the first `k` bytes of the file,
but not all of them. Once it has had them all, it starts again from nothing. -/
structure Serves (u : Upload) (w : World) (k : ℕ) : Prop where
  short : k < u.file.length
  item : ∃ i ∈ w.db.items.rows, i.id = u.itemId ∧ i.sessionId = u.sessionId ∧
    i.sizeBytes = u.file.length ∧ ∀ e, i.checksumSha256 = some e → e = hexdigest u.file
  part : w.files.bytes (partPath u.server.deployment u.sessionId u.itemId) = u.file.take k

/-- The item is complete, with the size and the bytes of the file. -/
def Stored (u : Upload) (w : World) : Prop :=
  ∃ i ∈ w.db.items.rows, i.id = u.itemId ∧ i.status = .completed ∧
    i.sizeBytes = u.file.length ∧
    ∃ p f, i.storagePath = some p ∧ w.files p = some f ∧ f.data = u.file

theorem take_append_chunkBlob (u : Upload) {offset : ℕ} (h : offset ≤ u.file.length) :
    u.file.take offset ++ u.chunkBlob offset = u.file.take (u.chunkEnd offset) := by
  have hle : offset ≤ u.chunkEnd offset := le_min (Nat.le_add_right _ _) h
  have htake : u.file.take offset = (u.file.take (u.chunkEnd offset)).take offset := by
    rw [List.take_take, min_eq_left hle]
  rw [htake, Upload.chunkBlob]
  exact List.take_append_drop _ _

theorem length_take_chunkEnd (u : Upload) (offset : ℕ) :
    (u.file.take (u.chunkEnd offset)).length = u.chunkEnd offset := by
  rw [List.length_take]
  exact min_eq_left (min_le_right _ _)

theorem length_chunkBlob (u : Upload) (offset : ℕ) :
    (u.chunkBlob offset).length = u.chunkEnd offset - offset := by
  rw [Upload.chunkBlob, List.length_drop, length_take_chunkEnd]

theorem Serves.size (h : Serves u w k) :
    w.files.size (partPath u.server.deployment u.sessionId u.itemId) = k := by
  rw [Files.size_eq_length, h.part, List.length_take]
  exact min_eq_left h.short.le

/-- Nothing but the rows of the items and the part file counts. -/
theorem Serves.congr {w' : World} (h : Serves u w k) (hitems : w'.db.items = w.db.items)
    (hfiles : w'.files = w.files) : Serves u w' k where
  short := h.short
  item := hitems ▸ h.item
  part := hfiles ▸ h.part

/-! ## Writing a chunk -/

/-- The request the client makes of the service. -/
abbrev Upload.request (u : Upload) (user : AuthenticatedUser) (offset : ℕ) : ChunkRequest :=
  ⟨u.sessionId, u.itemId, user, u.chunkBlob offset, offset⟩

/-- A chunk is written exactly if its token and all its checks pass. -/
theorem appends_iff {now : ℤ} {offset : ℕ} :
    u.appends now u.itemId offset w = true ↔
      ∃ user, Api.getCurrentUser u.server now (some u.token) = .ok user ∧
        ∃ m i, Accepts u.server.deployment w now (u.request user offset) m i := by
  unfold Upload.appends
  cases Api.getCurrentUser u.server now (some u.token) with
  | error e => simp
  | ok user =>
      simp only [Except.ok.injEq, exists_eq_left']
      split
      · rename_i e w' heq
        refine iff_of_false nofun ?_
        rintro ⟨m, i, hacc⟩
        have hopen : openChunk w now (u.request user offset) = (.ok i, w) :=
          openChunk_eq_ok.mpr ⟨rfl, ⟨m, hacc.session⟩, hacc.mem, hacc.id, hacc.sessionId⟩
        cases heq.symm.trans hopen
      · rename_i i w' heq
        obtain ⟨rfl, ⟨m, hm⟩, hi, hid, hsid⟩ := openChunk_eq_ok.mp heq
        constructor
        · intro hcheck
          refine ⟨m, i, hm, hi, hid, hsid, ?_⟩
          by_contra hne
          rw [ChunkStorage.checkOffset_eq_error hne] at hcheck
          cases hcheck
        · rintro ⟨_, _, hacc⟩
          rw [ChunkStorage.checkOffset_eq_ok.mpr ⟨rfl, hacc.offset⟩]
          rfl

/-- A chunk that is refused leaves the upload where it is. -/
theorem Serves.refused (h : Serves u w k) {now : ℤ} {user : AuthenticatedUser} {offset : ℕ}
    (hno : ∀ m i, ¬ Accepts u.server.deployment w now (u.request user offset) m i) :
    (∃ e, (appendItemChunk u.server.deployment w now (u.request user offset)).1 = .error e) ∧
      Serves u (appendItemChunk u.server.deployment w now (u.request user offset)).2 k := by
  rcases appendItemChunk_cases u.server.deployment w now (u.request user offset) with
    haway | ⟨m, i, hacc⟩
  · generalize appendItemChunk u.server.deployment w now (u.request user offset) = o at haway
    cases haway with
    | error e => exact ⟨⟨e, rfl⟩, h⟩
    | expired => exact ⟨⟨_, rfl⟩, h.congr rfl rfl⟩
  · exact absurd hacc (hno m i)

/-- A chunk that is written was sent at the offset the server is at, and brings
it to the end of the chunk; where that is the end of the file, the item is
complete and the server starts again. -/
theorem Serves.written (h : Serves u w k) {now : ℤ} {user : AuthenticatedUser} {offset : ℕ}
    {m : TransferSessionModel} {i : TransferItem}
    (hacc : Accepts u.server.deployment w now (u.request user offset) m i) :
    offset = k ∧ ∃ j b w', appendItemChunk u.server.deployment w now (u.request user offset) =
        (.ok (some j, u.chunkEnd offset, b), w') ∧
      (u.chunkEnd offset < u.file.length → Serves u w' (u.chunkEnd offset)) ∧
      (u.chunkEnd offset = u.file.length → Stored u w' ∧ Serves u w' 0) := by
  have hk : offset = k := by
    have hoffset : (offset : ℤ) = k := by
      rw [← h.size]
      exact hacc.offset
    exact_mod_cast hoffset
  subst hk
  refine ⟨rfl, ?_⟩
  obtain ⟨i', hi', hid', hsid', hsize, hdigest⟩ := h.item
  obtain rfl : i = i' := Table.eq_of_mem hacc.mem hi' (hacc.id.trans hid'.symm)
  have hbytes : appendedBytes u.server.deployment w (u.request user offset) =
      u.file.take (u.chunkEnd offset) := by
    rw [appendedBytes, ← take_append_chunkBlob u h.short.le, ← h.part]
  have hlength := length_take_chunkEnd u offset
  have hle : u.chunkEnd offset ≤ u.file.length := min_le_right _ _
  have hpos : 0 < u.file.length := (Nat.zero_le _).trans_lt h.short
  have hend : reachesEnd i (u.chunkEnd offset) = true ↔ u.chunkEnd offset = u.file.length := by
    rw [reachesEnd_iff, hsize]
    omega
  have hfull : u.chunkEnd offset = u.file.length → u.file.take (u.chunkEnd offset) = u.file :=
    fun h => List.take_of_length_le h.ge
  rcases appendItemChunk_accepted hacc with ⟨hmore, heq⟩ | ⟨hlast, e, hcheck, -⟩ |
    ⟨hlast, -, t, heq⟩
  · rw [hbytes, hlength] at hmore heq
    have hne : u.chunkEnd offset ≠ u.file.length := by
      intro heq
      rw [hend.mpr heq] at hmore
      cases hmore
    refine ⟨_, _, _, heq, fun hshort => ⟨hshort, ?_, ?_⟩, fun heq => absurd heq hne⟩
    · exact ⟨i.markUploading, Table.mem_put.mpr (Or.inl rfl), hid', hsid', hsize, hdigest⟩
    · rw [← hbytes]
      exact Files.bytes_append_self _ _ _ _
  · -- the whole file has the digest of the file
    rw [hbytes, hlength] at hlast
    rw [hbytes, hfull (hend.mp hlast)] at hcheck
    have hok : ChunkStorage.checkHash i.checksumSha256 (hexdigest u.file) = .ok () := by
      apply ChunkStorage.checkHash_eq_ok.mpr
      intro e he _
      rw [hdigest e he]
    rw [hok] at hcheck
    cases hcheck
  · rw [hbytes, hlength] at hlast heq
    have hwhole := hend.mp hlast
    rw [hfull hwhole] at heq
    refine ⟨_, _, _, heq, fun hshort => absurd hwhole hshort.ne, fun _ => ⟨?_, hpos, ?_, ?_⟩⟩
    · exact ⟨finishedItem u.server.deployment i u.file, mem_closed_items.mpr (Or.inl rfl), hid', rfl,
        rfl, _, _, rfl, published_self _ _ _ _, rfl⟩
    · refine ⟨finishedItem u.server.deployment i u.file, mem_closed_items.mpr (Or.inl rfl), hid',
        hsid', rfl, ?_⟩
      rintro e ⟨rfl⟩
      rfl
    · apply Files.bytes_of_none
      show published _ _ i _ (partPath u.server.deployment u.sessionId u.itemId) = none
      rw [← hsid', ← hid', published, Function.update_of_ne (partPath_ne_itemPath _ _ _ i),
        Files.unlink_self]

/-! ## The routes -/

section Token

variable (u : Upload) {now : ℤ} (itemId : Uuid) (offset : ℕ) (w : World)

/-- A request whose token is not accepted is refused at once. -/
theorem patchChunk_of_error {e : Api.HTTPException}
    (h : Api.getCurrentUser u.server now (some u.token) = .error e) :
    u.patchChunk now itemId offset w = (.error e, w) :=
  Api.withCurrentUser_of_error h _ _

theorem patchChunk_of_user {user : AuthenticatedUser}
    (h : Api.getCurrentUser u.server now (some u.token) = .ok user) :
    u.patchChunk now itemId offset w =
      match appendItemChunk u.server.deployment w now
          ⟨u.sessionId, itemId, user, u.chunkBlob offset, offset⟩ with
      | (.ok (some item, newOffset, completed), w) =>
          (.ok
            { itemId := item.id, bytesReceived := newOffset, totalSizeBytes := item.sizeBytes,
              completed, checksumSha256 := if completed then item.checksumSha256 else none,
              status := item.status }, w)
      | (.ok (none, _, _), w) => (.error Api.internalServerError, w)
      | (.error e, w) =>
          if e.kind = .valueError then Api.onValueError u.server w u.sessionId itemId user e.message
          else
            (.error (Api.raised [(.sessionNotFoundError, 404), (.itemNotFoundError, 404),
              (.permissionDeniedError, 403), (.sessionExpiredError, 410)] e), w) :=
  Api.withCurrentUser_of_ok h _ _

theorem post_of_error {e : Api.HTTPException}
    (h : Api.getCurrentUser u.server now (some u.token) = .error e) :
    u.post now w = (.error e, w) :=
  Api.withCurrentUser_of_error h _ _

theorem post_of_user {user : AuthenticatedUser}
    (h : Api.getCurrentUser u.server now (some u.token) = .ok user) :
    u.post now w =
      match initResumableItem u.server.deployment w now u.sessionId user u.name u.file.length none
          u.itemId with
      | (.ok item, w) => (.ok (Api.toItemResponse item), w)
      | (.error e, w) =>
          (.error (Api.raised [(.sessionNotFoundError, 404), (.permissionDeniedError, 403),
            (.sessionExpiredError, 410)] e), w) :=
  Api.withCurrentUser_of_ok h _ _

end Token

theorem getOffset_eq (u : Upload) (now : ℤ) (itemId : Uuid) (w : World) :
    u.getOffset now itemId w = (.error ⟨401, "Not authenticated".toList, none⟩, w) := by
  rw [Upload.getOffset, Api.getItemOffset, Api.withCurrentUser_none]

/-- The answer to a chunk, and what it leaves. -/
theorem patchChunk_cases (h : Serves u w k) (now : ℤ) (offset : ℕ) :
    (u.appends now u.itemId offset w = false ∧
      (∃ e, (u.patchChunk now u.itemId offset w).1 = .error e) ∧
      Serves u (u.patchChunk now u.itemId offset w).2 k) ∨
    (u.appends now u.itemId offset w = true ∧ offset = k ∧
      (∃ r, (u.patchChunk now u.itemId offset w).1 = .ok r ∧
        r.bytesReceived = u.chunkEnd offset) ∧
      (u.chunkEnd offset < u.file.length →
        Serves u (u.patchChunk now u.itemId offset w).2 (u.chunkEnd offset)) ∧
      (u.chunkEnd offset = u.file.length → Stored u (u.patchChunk now u.itemId offset w).2 ∧
        Serves u (u.patchChunk now u.itemId offset w).2 0)) := by
  cases happends : u.appends now u.itemId offset w with
  | true =>
      obtain ⟨user, huser, m, i, hacc⟩ := appends_iff.mp happends
      obtain ⟨hk, j, b, w', heq, hrest⟩ := h.written hacc
      refine .inr ⟨rfl, hk, ?_⟩
      have hpatch : u.patchChunk now u.itemId offset w = (.ok
          { itemId := j.id, bytesReceived := u.chunkEnd offset, totalSizeBytes := j.sizeBytes,
            completed := b, checksumSha256 := if b then j.checksumSha256 else none,
            status := j.status }, w') := by
        rw [patchChunk_of_user u u.itemId offset w huser, heq]
      rw [hpatch]
      exact ⟨⟨_, rfl, rfl⟩, hrest⟩
  | false =>
      refine .inl ⟨rfl, ?_⟩
      cases huser : Api.getCurrentUser u.server now (some u.token) with
      | error e =>
          rw [patchChunk_of_error u u.itemId offset w huser]
          exact ⟨⟨e, rfl⟩, h⟩
      | ok user =>
          have hno : ∀ m i, ¬ Accepts u.server.deployment w now (u.request user offset) m i := by
            intro m i hacc
            rw [appends_iff.mpr ⟨user, huser, m, i, hacc⟩] at happends
            cases happends
          obtain ⟨⟨e, he⟩, hserves⟩ := h.refused hno
          have heq : appendItemChunk u.server.deployment w now (u.request user offset) =
              (.error e, (appendItemChunk u.server.deployment w now (u.request user offset)).2) :=
            Prod.ext he rfl
          have hpatch : ∃ e', u.patchChunk now u.itemId offset w =
              (.error e', (appendItemChunk u.server.deployment w now (u.request user offset)).2) := by
            rw [patchChunk_of_user u u.itemId offset w huser, heq]
            dsimp only
            split
            · exact Api.onValueError_eq _ _ _ _ _ _
            · exact ⟨_, rfl⟩
          obtain ⟨e', hpatch⟩ := hpatch
          rw [hpatch]
          exact ⟨⟨e', rfl⟩, hserves⟩

/-- A chunk writes nothing of a session but its status. -/
theorem patchChunk_keeps_session {m : TransferSessionModel} (hm : m ∈ w.db.sessions.rows) (now : ℤ)
    (itemId : Uuid) (offset : ℕ) :
    ∃ status, { m with status } ∈ (u.patchChunk now itemId offset w).2.db.sessions.rows := by
  cases huser : Api.getCurrentUser u.server now (some u.token) with
  | error e =>
      rw [patchChunk_of_error u itemId offset w huser]
      exact ⟨m.status, hm⟩
  | ok user =>
      have hkept := appendItemChunk_keeps_session hm u.server.deployment now
        ⟨u.sessionId, itemId, user, u.chunkBlob offset, offset⟩
      rw [patchChunk_of_user u itemId offset w huser]
      generalize appendItemChunk u.server.deployment w now
        ⟨u.sessionId, itemId, user, u.chunkBlob offset, offset⟩ = o at hkept
      obtain ⟨result, w'⟩ := o
      cases result with
      | ok r =>
          obtain ⟨i, n, b⟩ := r
          cases i with
          | none => exact hkept
          | some i => exact hkept
      | error e =>
          dsimp only
          split
          · obtain ⟨e', heq⟩ := Api.onValueError_eq u.server w' u.sessionId itemId user e.message
            rw [heq]
            exact hkept
          · exact hkept

/-- A chunk at the offset of the server is written, where the token and the
session are good. -/
theorem appends_of_open (h : Serves u w k) {now : ℤ} {user : AuthenticatedUser}
    (huser : u.server.tokens.getCurrentUser u.server.json now u.token = .ok user)
    {m : TransferSessionModel} (hm : OpenFor w now u.sessionId user m) :
    u.appends now u.itemId k w = true := by
  obtain ⟨i, hi, hid, hsid, -⟩ := h.item
  exact appends_iff.mpr ⟨user, Api.getCurrentUser_of_token huser, m, i, hm, hi, hid, hsid,
    congrArg Nat.cast h.size.symm⟩

/-- What creating the item leaves, if the session is open. -/
theorem post_of_open {s : SessionService.State} (hs : Inv u.server.deployment s)
    (hfresh : u.itemId ∉ s.uuids) (hfile : u.file ≠ []) {now : ℤ} {user : AuthenticatedUser}
    (huser : Api.getCurrentUser u.server now (some u.token) = .ok user)
    {m : TransferSessionModel} (hm : OpenFor s.world now u.sessionId user m) :
    (∃ r, (u.post now s.world).1 = .ok r ∧ r.itemId = u.itemId) ∧
      Serves u (u.post now s.world).2 0 ∧
      (u.post now s.world).2.db.sessions = s.world.db.sessions := by
  have hpost : u.post now s.world =
      (.ok (Api.toItemResponse (queuedItem u.server.deployment now u.sessionId u.itemId u.name
          u.file.length none)),
        s.world.withDb (s.world.db.addItem (queuedItem u.server.deployment now u.sessionId u.itemId
          u.name u.file.length none))) := by
    rw [post_of_user u s.world huser, initResumableItem_of_open hm]
  rw [hpost]
  refine ⟨⟨_, rfl, rfl⟩, ⟨List.length_pos_of_ne_nil hfile, ?_, ?_⟩, rfl⟩
  · exact ⟨_, Table.mem_put.mpr (Or.inl rfl), rfl, rfl, rfl, nofun⟩
  · exact Files.bytes_of_none (hs.issued.parts u.sessionId u.itemId hfresh)

/-- The item is created, or the call is refused. -/
theorem post_cases {s : SessionService.State} (hs : Inv u.server.deployment s)
    (hfresh : u.itemId ∉ s.uuids) (hfile : u.file ≠ []) (now : ℤ) :
    (∃ e, (u.post now s.world).1 = .error e) ∨
    ((∃ r, (u.post now s.world).1 = .ok r ∧ r.itemId = u.itemId) ∧
      Serves u (u.post now s.world).2 0) := by
  cases huser : Api.getCurrentUser u.server now (some u.token) with
  | error e =>
      refine .inl ⟨e, ?_⟩
      rw [post_of_error u s.world huser]
  | ok user =>
      rcases initResumableItem_cases u.server.deployment s.world now u.sessionId user u.name
        u.file.length none u.itemId with haway | ⟨m, hm⟩
      · left
        rw [post_of_user u s.world huser]
        generalize initResumableItem u.server.deployment s.world now u.sessionId user u.name
          u.file.length none u.itemId = o at haway
        cases haway with
        | error e => exact ⟨_, rfl⟩
        | expired => exact ⟨_, rfl⟩
      · obtain ⟨hreply, hserves, -⟩ := post_of_open hs hfresh hfile huser hm
        exact .inr ⟨hreply, hserves⟩

end Browser

end Jumbox
