import Jumbox.Sessions.Invariant

/-!
# Downloads

The route `download_session_item`: it looks the item up, checks that its file is
there, schedules the burn of a burn-after-download session, and answers with the
file and the checksum of the row.
-/

namespace Jumbox

/-- `HTTPException` -/
structure HttpError where
  statusCode : ℕ
  detail : Str
deriving DecidableEq

/-- A 200 answer with a file in it. -/
structure FileResponse where
  body : Bytes
  filename : Str
  headers : List (Str × Str)
deriving DecidableEq

def FileResponse.header (r : FileResponse) (name : String) : Option Str :=
  r.headers.lookup name.toList

namespace SessionService

/-- `f'"{checksum}"'` -/
def quoted (checksum : Str) : Str := '"' :: (checksum ++ ['"'])

def downloadHeaders (checksumSha256 : Option Str) : List (Str × Str) :=
  let checksum := checksumSha256.getD []
  ("Accept-Ranges".toList, "bytes".toList) ::
    if checksum = [] then []
    else [("ETag".toList, quoted checksum), ("X-Checksum-SHA256".toList, checksum)]

/-- The answer for an item that has been looked up. -/
def serveItem (fs : Files) (item : TransferItem) : Except HttpError FileResponse :=
  match item.storagePath.bind fs with
  | none => .error ⟨404, "File missing on disk".toList⟩
  | some f => .ok ⟨f.data, item.originalName, downloadHeaders item.checksumSha256⟩

/-- The second component of a 200 is the session the background task burns. -/
def downloadSessionItem (w : World) (now : ℤ) (sessionCode : Str) (itemId : Uuid) :
    Except HttpError (FileResponse × Option Uuid) × World :=
  match getSessionItem w now sessionCode itemId with
  | (.error _, w) => (.error ⟨500, "Internal Server Error".toList⟩, w)
  | (.ok none, w) => (.error ⟨404, "Item not found in session".toList⟩, w)
  | (.ok (some (session, item)), w) =>
      match serveItem w.files item with
      | .error e => (.error e, w)
      | .ok response =>
          (.ok (response, if session.burnAfterDownload then some session.id else none), w)

/-- What is behind a 200: a shared session, one of its items, and the file. -/
theorem downloadSessionItem_eq_ok {w w' : World} {now : ℤ} {code : Str} {iid : Uuid}
    {r : FileResponse} {burn : Option Uuid}
    (h : downloadSessionItem w now code iid = (.ok (r, burn), w')) :
    ∃ m i, Shared w now code m ∧ i ∈ w.db.items.rows ∧ i.id = iid ∧ i.sessionId = m.id ∧
      serveItem w.files i = .ok r := by
  unfold downloadSessionItem at h
  rcases getSessionItem_cases w now code iid with
    heq | ⟨m, -, heq⟩ | ⟨m, i, hm, hi, hid, hsid, heq⟩
  · rw [heq] at h
    cases h
  · rw [heq] at h
    cases h
  · rw [heq] at h
    refine ⟨m, i, hm, hi, hid, hsid, ?_⟩
    cases hserve : serveItem w.files i with
    | error e =>
        simp only [hserve] at h
        cases h
    | ok r' =>
        simp only [hserve] at h
        cases h
        rfl

theorem headers_of_checksum {r : FileResponse} {sha : Str} (hne : sha ≠ [])
    (h : r.headers = downloadHeaders (some sha)) :
    r.header "ETag" = some (quoted sha) ∧ r.header "X-Checksum-SHA256" = some sha := by
  unfold FileResponse.header
  rw [h, downloadHeaders, Option.getD_some, if_neg hne]
  exact ⟨rfl, rfl⟩

/-! ## What is served is what is advertised -/

/-- A row that names a stored file, in a session that has not expired, is right
about the file. -/
def RowsMatchFiles (w : World) : Prop :=
  ∀ i ∈ w.db.items.rows, ∀ m ∈ w.db.sessions.rows, m.id = i.sessionId → m.status ≠ .expired →
    ∀ p, i.storagePath = some p →
      ∃ f, w.files p = some f ∧ i.checksumSha256 = some (hexdigest f.data) ∧
        i.sizeBytes = f.data.length

/-- The body of a 200 hashes to the two headers sent with it. -/
def DownloadsMatchHeaders (w : World) : Prop :=
  ∀ now code iid r burn w', downloadSessionItem w now code iid = (.ok (r, burn), w') →
    r.header "ETag" = some (quoted (hexdigest r.body)) ∧
      r.header "X-Checksum-SHA256" = some (hexdigest r.body)

theorem Consistent.downloadsMatchHeaders {d : Deployment} {w : World} (h : Consistent d w) :
    DownloadsMatchHeaders w := by
  intro now code iid r burn w' hserved
  obtain ⟨m, i, hm, hi, -, hsid, hserve⟩ := downloadSessionItem_eq_ok hserved
  unfold serveItem at hserve
  cases hfile : i.storagePath.bind w.files with
  | none =>
      rw [hfile] at hserve
      cases hserve
  | some f =>
      rw [hfile] at hserve
      cases hserve
      obtain ⟨p, hp, hf⟩ := Option.bind_eq_some_iff.mp hfile
      obtain ⟨g, hg, hsha, -⟩ := h.intact i hi m hm.mem hsid.symm p hp
      have hgf : g = f := Option.some.inj (hg.symm.trans hf)
      subst hgf
      apply headers_of_checksum (hexdigest_ne_nil g.data)
      rw [hsha]

/-- Both hold in every state a serial run leads to, whatever has been uploaded,
rejected, sent again or swept on the way. -/
theorem served_matches_checksum {d : Deployment} {s : State} (h : Reachable d s) :
    RowsMatchFiles s.world ∧ DownloadsMatchHeaders s.world := by
  have hconsistent := (inv_of_reachable h).consistent
  refine ⟨?_, hconsistent.downloadsMatchHeaders⟩
  intro i hi m hm hid _ p hp
  exact hconsistent.intact i hi m hm hid p hp

/-- The item set back is still served, and rightly so. -/
theorem served_matches_checksum_reopened :
    ∃ s, Sample.run Sample.reopened = some s ∧
      (downloadSessionItem s.world 3 Sample.code Sample.itemId).1.isOk = true ∧
      RowsMatchFiles s.world ∧ DownloadsMatchHeaders s.world := by
  refine ⟨_, (Option.some_get Sample.runs_reopened).symm, ?_, ?_⟩
  · decide +kernel
  · exact served_matches_checksum (Sample.reachable_run Sample.runs_reopened)

end SessionService

end Jumbox
