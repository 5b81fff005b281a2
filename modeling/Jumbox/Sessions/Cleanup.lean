import Jumbox.Library.Sweep
import Jumbox.Store.World

/-!
# `CleanupService`

Both sweeps delete files first and rows second, row by row, and commit at the
end: when a deletion raises, the rows stay and the files already removed are
gone.
-/

namespace Jumbox

namespace CleanupService

/-- `file_storage.delete(StoredFile(path=..., ...))` for a row that has a path. -/
def deleteFile (unlinkFails : Path → Bool) (fs : Files) (storagePath : Option Path) (sizeBytes : ℤ)
    (checksumSha256 : Option Str) : Except Error Files :=
  match storagePath with
  | none => .ok fs
  | some path =>
      LocalFileStorage.delete unlinkFails fs
        (.storedFile ⟨path, sizeBytes.toNat, checksumSha256.getD []⟩)

def deleteItemFiles (unlinkFails : Path → Bool) (fs : Files) :
    List TransferItem → Except Error Unit × Files
  | [] => (.ok (), fs)
  | item :: rest =>
      match deleteFile unlinkFails fs item.storagePath item.sizeBytes item.checksumSha256 with
      | .error e => (.error e, fs)
      | .ok fs => deleteItemFiles unlinkFails fs rest

/-- The loop of `cleanup_expired_sessions`, on the working copy of the tables. -/
def sweepSessions (unlinkFails : Path → Bool) (db : Db) (fs : Files) :
    List TransferSession → Except Error Db × Files
  | [] => (.ok db, fs)
  | session :: rest =>
      match deleteItemFiles unlinkFails fs session.items with
      | (.error e, fs) => (.error e, fs)
      | (.ok (), fs) => sweepSessions unlinkFails (db.deleteById session.id) fs rest

def cleanupExpiredSessions (w : World) (now : ℤ) (deadline : Option ℤ)
    (unlinkFails : Path → Bool) : Outcome ℕ :=
  let cutoff := deadline.getD now
  let expiredSessions := w.db.listExpiredBefore cutoff
  match sweepSessions unlinkFails w.db w.files expiredSessions with
  | (.error e, fs) => (.error e, w.withFiles fs)
  | (.ok db, fs) => (.ok expiredSessions.length, (w.withFiles fs).withDb db)

/-- The loop of `cleanup_expired_transfers`. -/
def sweepTransfers (unlinkFails : Path → Bool) (db : Db) (fs : Files) :
    List Transfer → Except Error Db × Files
  | [] => (.ok db, fs)
  | transfer :: rest =>
      match deleteFile unlinkFails fs transfer.storagePath transfer.sizeBytes
          transfer.checksumSha256 with
      | .error e => (.error e, fs)
      | .ok fs => sweepTransfers unlinkFails (db.deleteTransferById transfer.id) fs rest

def cleanupExpiredTransfers (w : World) (now : ℤ) (deadline : Option ℤ)
    (unlinkFails : Path → Bool) : Outcome ℕ :=
  let cutoff := deadline.getD now
  let expiredTransfers := w.db.listTransfersExpiredBefore cutoff
  match sweepTransfers unlinkFails w.db w.files expiredTransfers with
  | (.error e, fs) => (.error e, w.withFiles fs)
  | (.ok db, fs) => (.ok expiredTransfers.length, (w.withFiles fs).withDb db)

/-- The loop of `cleanup_orphaned_temp_files` over the names `iterdir` yields,
with its counter. -/
def sweepTempFiles (unlinkFails : Path → Bool) (now maxAgeSeconds : ℤ) (tempDir : Path) :
    ℕ → Files → List Str → ℕ × Files
  | removed, fs, [] => (removed, fs)
  | removed, fs, name :: rest =>
      let entry := tempDir ++ [name]
      match fs entry with
      -- not a file: a directory is left alone with all it holds
      | none => sweepTempFiles unlinkFails now maxAgeSeconds tempDir removed fs rest
      | some f =>
          if maxAgeSeconds * 1000000 ≤ now - f.mtime ∧ unlinkFails entry = false then
            sweepTempFiles unlinkFails now maxAgeSeconds tempDir (removed + 1) (fs.unlink entry) rest
          else sweepTempFiles unlinkFails now maxAgeSeconds tempDir removed fs rest

def cleanupOrphanedTempFiles (tempDir : Option Path) (entries : List Str) (fs : Files) (now : ℤ)
    (maxAgeSeconds : ℤ) (unlinkFails : Path → Bool) : ℕ × Files :=
  match tempDir with
  | none => (0, fs)
  | some tempDir => sweepTempFiles unlinkFails now maxAgeSeconds tempDir 0 fs entries

/-- The counts of the dictionary `cleanup_all` returns. -/
structure CleanupCounts where
  sessions : ℕ
  transfers : ℕ
  tempFiles : ℕ
deriving DecidableEq

def cleanupAll (w : World) (now : ℤ) (tempDir : Option Path) (entries : List Str)
    (unlinkFails : Path → Bool) : Outcome CleanupCounts :=
  match cleanupExpiredSessions w now none unlinkFails with
  | (.error e, w) => (.error e, w)
  | (.ok sessions, w) =>
      match cleanupExpiredTransfers w now none unlinkFails with
      | (.error e, w) => (.error e, w)
      | (.ok transfers, w) =>
          let (tempFiles, fs) :=
            cleanupOrphanedTempFiles tempDir entries w.files now 3600 unlinkFails
          (.ok ⟨sessions, transfers, tempFiles⟩, w.withFiles fs)

/-! ## The loops are sweeps -/

/-- How a loop ends, and the files it leaves. -/
def ending {α : Type} (o : Except Error α × Files) : Bool × Files := (o.1.isOk, o.2)

/-- Deleting the file of a row: refused, or nothing is left where the row has its
path. -/
theorem deleteFile_cases (unlinkFails : Path → Bool) (fs : Files) (path : Option Path) (size : ℤ)
    (sha : Option Str) :
    (Sweep.Blocked unlinkFails fs path ∧ ∃ e, deleteFile unlinkFails fs path size sha = .error e) ∨
    (¬ Sweep.Blocked unlinkFails fs path ∧
      deleteFile unlinkFails fs path size sha = .ok (Sweep.without fs [path])) := by
  cases path with
  | none =>
      refine Or.inr ⟨Sweep.not_blocked_none, ?_⟩
      rw [Sweep.without_cons_none, Sweep.without_nil]
      rfl
  | some p =>
      have hgone : Sweep.without fs [some p] = Function.update fs p none := by
        rw [Sweep.without_cons_some, Sweep.without_nil]
      unfold deleteFile LocalFileStorage.delete
      cases hf : fs p with
      | none =>
          have hsame : Function.update fs p none = fs := Function.update_eq_self_iff.mpr hf.symm
          refine Or.inr ⟨?_, by simp only [hf, hgone, hsame]⟩
          rintro ⟨q, ⟨⟩, hsome, -⟩
          rw [hf] at hsome
          cases hsome
      | some f =>
          cases hfails : unlinkFails p with
          | true =>
              refine Or.inl ⟨⟨p, rfl, ?_, hfails⟩, _, by simp only [hf, hfails]; rfl⟩
              rw [hf]
              rfl
          | false =>
              refine Or.inr ⟨?_, by simp only [hf, hfails, hgone]; rfl⟩
              rintro ⟨q, ⟨⟩, -, hrefused⟩
              rw [hfails] at hrefused
              cases hrefused

theorem deleteItemFiles_ending (unlinkFails : Path → Bool) (items : List TransferItem)
    (fs : Files) :
    ending (deleteItemFiles unlinkFails fs items) =
      Sweep.run unlinkFails fs (items.map TransferItem.storagePath) := by
  induction items generalizing fs with
  | nil => rfl
  | cons item rest ih =>
      rw [List.map_cons, deleteItemFiles]
      rcases deleteFile_cases unlinkFails fs item.storagePath item.sizeBytes item.checksumSha256 with
        ⟨hblocked, e, heq⟩ | ⟨hfree, heq⟩
      · rw [heq, Sweep.run_cons_of_blocked hblocked]
        rfl
      · rw [heq, Sweep.run_cons_of_free hfree]
        exact ih _

/-- The places that the sweep of some sessions goes through. -/
def places (sessions : List TransferSession) : List (Option Path) :=
  sessions.flatMap fun s => s.items.map TransferItem.storagePath

theorem sweepSessions_ending (unlinkFails : Path → Bool) (sessions : List TransferSession)
    (db : Db) (fs : Files) :
    ending (sweepSessions unlinkFails db fs sessions) =
      Sweep.run unlinkFails fs (places sessions) := by
  induction sessions generalizing db fs with
  | nil => rfl
  | cons s rest ih =>
      have hitems := deleteItemFiles_ending unlinkFails s.items fs
      rw [places, List.flatMap_cons, Sweep.run_append, ← hitems, sweepSessions]
      rcases deleteItemFiles unlinkFails fs s.items with ⟨e | u, fs'⟩
      · rfl
      · exact ih _ _

theorem sweepTransfers_ending (unlinkFails : Path → Bool) (transfers : List Transfer) (db : Db)
    (fs : Files) :
    ending (sweepTransfers unlinkFails db fs transfers) =
      Sweep.run unlinkFails fs (transfers.map Transfer.storagePath) := by
  induction transfers generalizing db fs with
  | nil => rfl
  | cons t rest ih =>
      rw [List.map_cons, sweepTransfers]
      rcases deleteFile_cases unlinkFails fs t.storagePath t.sizeBytes t.checksumSha256 with
        ⟨hblocked, e, heq⟩ | ⟨hfree, heq⟩
      · rw [heq, Sweep.run_cons_of_blocked hblocked]
        rfl
      · rw [heq, Sweep.run_cons_of_free hfree]
        exact ih _ _

/-- A loop that goes through leaves nothing at its places, and was refused nothing. -/
theorem ending_ok {α : Type} {unlinkFails : Path → Bool} {fs fs' : Files}
    {paths : List (Option Path)} {o : Except Error α × Files} {a : α}
    (hrun : ending o = Sweep.run unlinkFails fs paths) (ho : o = (.ok a, fs')) :
    fs' = Sweep.without fs paths ∧ ∀ q ∈ paths, ¬ Sweep.Blocked unlinkFails fs q := by
  subst ho
  have hok : (Sweep.run unlinkFails fs paths).1 = true := by
    rw [← hrun]
    rfl
  have hfree := Sweep.run_fst_iff.mp hok
  refine ⟨?_, hfree⟩
  rw [← Sweep.run_snd_of_free hfree, ← hrun]
  rfl

/-- A loop that nothing blocks goes through. -/
theorem ending_of_free {α : Type} {unlinkFails : Path → Bool} {fs : Files}
    {paths : List (Option Path)} {o : Except Error α × Files}
    (hrun : ending o = Sweep.run unlinkFails fs paths)
    (hfree : ∀ q ∈ paths, ¬ Sweep.Blocked unlinkFails fs q) : ∃ a, o = (.ok a, o.2) := by
  have hok : o.1.isOk = true := (congrArg Prod.fst hrun).trans (Sweep.run_fst_iff.mpr hfree)
  rcases o with ⟨e | a, fs'⟩
  · cases hok
  · exact ⟨a, rfl⟩

/-! ## The sweep of sessions -/

/-- A sweep that succeeds removes exactly the listed sessions' files and rows. -/
theorem sweepSessions_ok {unlinkFails : Path → Bool} {sessions : List TransferSession}
    {db db' : Db} {fs fs' : Files}
    (h : sweepSessions unlinkFails db fs sessions = (.ok db', fs')) :
    db' = sessions.foldl (fun db s => db.deleteById s.id) db ∧
      ∀ p, fs' p =
        if ∃ s ∈ sessions, ∃ i ∈ s.items, i.storagePath = some p then none else fs p := by
  obtain ⟨hfs, -⟩ := ending_ok (sweepSessions_ending unlinkFails sessions db fs) h
  constructor
  · clear hfs
    induction sessions generalizing db fs with
    | nil =>
        cases h
        rfl
    | cons s rest ih =>
        simp only [sweepSessions] at h
        split at h
        · cases h
        · exact ih h
  · intro p
    have hlisted : some p ∈ places sessions ↔
        ∃ s ∈ sessions, ∃ i ∈ s.items, i.storagePath = some p := by
      simp only [places, List.mem_flatMap, List.mem_map]
    rw [hfs]
    by_cases hp : some p ∈ places sessions
    · rw [if_pos (hlisted.mp hp)]
      exact if_pos hp
    · rw [if_neg (mt hlisted.mpr hp)]
      exact if_neg hp

/-- A sweep of sessions that the operating system refuses nothing succeeds. -/
theorem sweepSessions_of_not_refused (sessions : List TransferSession) (db : Db) (fs : Files) :
    ∃ o : Db × Files, sweepSessions (fun _ => false) db fs sessions = (.ok o.1, o.2) := by
  obtain ⟨db', heq⟩ := ending_of_free (sweepSessions_ending (fun _ => false) sessions db fs)
    (by rintro q - ⟨p, -, -, hrefused⟩; cases hrefused)
  exact ⟨(db', _), heq⟩

theorem foldl_deleteById_transfers (sessions : List TransferSession) (db : Db) :
    (sessions.foldl (fun db s => db.deleteById s.id) db).transfers = db.transfers := by
  induction sessions generalizing db with
  | nil => rfl
  | cons s rest ih =>
      rw [List.foldl_cons, ih]
      rfl

theorem foldl_deleteById_sessions (sessions : List TransferSession) (db : Db)
    (m : TransferSessionModel) :
    m ∈ (sessions.foldl (fun db s => db.deleteById s.id) db).sessions.rows ↔
      m ∈ db.sessions.rows ∧ ∀ s ∈ sessions, s.id ≠ m.id := by
  induction sessions generalizing db with
  | nil => simp
  | cons s rest ih =>
      rw [List.foldl_cons, ih]
      simp only [Db.deleteById, Table.mem_eraseWhere, decide_eq_false_iff_not, List.mem_cons,
        forall_eq_or_imp, and_assoc, ne_eq, eq_comm (a := s.id)]

/-- Deleting sessions takes items only where foreign keys cascade, and then only
their own. -/
theorem foldl_deleteById_items (sessions : List TransferSession) (db : Db) (i : TransferItem) :
    (i ∈ (sessions.foldl (fun db s => db.deleteById s.id) db).items.rows → i ∈ db.items.rows) ∧
      (i ∈ db.items.rows → (∀ s ∈ sessions, s.id ≠ i.sessionId) →
        i ∈ (sessions.foldl (fun db s => db.deleteById s.id) db).items.rows) := by
  induction sessions generalizing db with
  | nil => exact ⟨id, fun h _ => h⟩
  | cons s rest ih =>
      obtain ⟨hfrom, hkeep⟩ := ih (db.deleteById s.id)
      constructor
      · intro h
        exact Db.mem_of_mem_deleteById (hfrom h)
      · intro h hne
        refine hkeep (Db.mem_deleteById_of_ne h ?_) ?_
        · exact (hne s List.mem_cons_self).symm
        · intro t ht
          exact hne t (List.mem_cons_of_mem _ ht)

/-- The row a sweep lists a session from. -/
theorem mem_listExpiredBefore {db : Db} {deadline : ℤ} {s : TransferSession} :
    s ∈ db.listExpiredBefore deadline ↔
      ∃ m ∈ db.sessions.rows, m.expiresAt.any (· ≤ deadline) = true ∧ s = db.sessionToDomain m := by
  simp only [Db.listExpiredBefore, List.mem_map, List.mem_insertionSort, List.mem_filter,
    and_assoc, eq_comm (b := s)]

/-! ## The sweep of transfers -/

/-- A sweep, whether it succeeds or raises, takes files of listed transfers only. -/
theorem sweepTransfers_files (unlinkFails : Path → Bool) (transfers : List Transfer) (db : Db)
    (fs : Files) (p : Path) :
    (sweepTransfers unlinkFails db fs transfers).2 p = fs p ∨
      ((sweepTransfers unlinkFails db fs transfers).2 p = none ∧
        ∃ t ∈ transfers, t.storagePath = some p) := by
  have hfiles := congrArg Prod.snd (sweepTransfers_ending unlinkFails transfers db fs)
  have hcases := Sweep.run_snd_cases unlinkFails fs (transfers.map Transfer.storagePath) p
  rw [← hfiles, List.mem_map] at hcases
  exact hcases

/-- A sweep that succeeds has been refused no file, and drops exactly the listed
rows and their files. -/
theorem sweepTransfers_ok {unlinkFails : Path → Bool} {transfers : List Transfer} {db db' : Db}
    {fs fs' : Files} (h : sweepTransfers unlinkFails db fs transfers = (.ok db', fs')) :
    db' = transfers.foldl (fun db t => db.deleteTransferById t.id) db ∧
      (∀ p, fs' p = if ∃ t ∈ transfers, t.storagePath = some p then none else fs p) ∧
      ∀ t ∈ transfers, ∀ p, t.storagePath = some p → (fs p).isSome = true →
        unlinkFails p = false := by
  obtain ⟨hfs, hfree⟩ := ending_ok (sweepTransfers_ending unlinkFails transfers db fs) h
  refine ⟨?_, ?_, ?_⟩
  · clear hfs hfree
    induction transfers generalizing db fs with
    | nil =>
        cases h
        rfl
    | cons t rest ih =>
        simp only [sweepTransfers] at h
        split at h
        · cases h
        · exact ih h
  · intro p
    rw [hfs]
    by_cases hp : some p ∈ transfers.map Transfer.storagePath
    · rw [if_pos (List.mem_map.mp hp)]
      exact if_pos hp
    · rw [if_neg (mt List.mem_map.mpr hp)]
      exact if_neg hp
  · intro t ht p hp hsome
    by_contra hrefused
    exact hfree _ (List.mem_map_of_mem ht) ⟨p, hp, hsome, eq_true_of_ne_false hrefused⟩

/-- A sweep that the operating system refuses nothing succeeds. -/
theorem sweepTransfers_of_not_refused {unlinkFails : Path → Bool} {transfers : List Transfer}
    (h : ∀ t ∈ transfers, ∀ p, t.storagePath = some p → unlinkFails p = false) (db : Db)
    (fs : Files) : ∃ o : Db × Files, sweepTransfers unlinkFails db fs transfers = (.ok o.1, o.2) := by
  have hfree : ∀ q ∈ transfers.map Transfer.storagePath, ¬ Sweep.Blocked unlinkFails fs q := by
    rintro q hq ⟨p, rfl, -, hrefused⟩
    obtain ⟨t, ht, hp⟩ := List.mem_map.mp hq
    rw [h t ht p hp] at hrefused
    cases hrefused
  obtain ⟨db', heq⟩ := ending_of_free (sweepTransfers_ending unlinkFails transfers db fs) hfree
  exact ⟨(db', _), heq⟩

/-- The first deletion is refused: nothing has happened. -/
theorem sweepTransfers_head_refused {unlinkFails : Path → Bool} {t : Transfer} {p : Path}
    (hp : t.storagePath = some p) {fs : Files} (hsome : (fs p).isSome = true)
    (hfails : unlinkFails p = true) (db : Db) (rest : List Transfer) :
    ∃ e, sweepTransfers unlinkFails db fs (t :: rest) = (.error e, fs) := by
  rw [sweepTransfers]
  rcases deleteFile_cases unlinkFails fs t.storagePath t.sizeBytes t.checksumSha256 with
    ⟨-, e, heq⟩ | ⟨hfree, -⟩
  · rw [heq]
    exact ⟨e, rfl⟩
  · exact absurd ⟨p, hp, hsome, hfails⟩ hfree

/-- The first deletion is not refused: its file is gone, whatever comes then. -/
theorem sweepTransfers_head_gone {unlinkFails : Path → Bool} {t : Transfer} {p : Path}
    (hp : t.storagePath = some p) (hfails : unlinkFails p = false) (db : Db) (fs : Files)
    (rest : List Transfer) :
    (sweepTransfers unlinkFails db fs (t :: rest)).2 p = none := by
  have hfree : ¬ Sweep.Blocked unlinkFails fs t.storagePath := by
    rintro ⟨q, hq, -, hrefused⟩
    cases Option.some.inj (hp.symm.trans hq)
    rw [hfails] at hrefused
    cases hrefused
  have hgone : Sweep.without fs [t.storagePath] p = none := by
    rw [hp]
    exact if_pos List.mem_cons_self
  have hfiles := congrArg Prod.snd (sweepTransfers_ending unlinkFails (t :: rest) db fs)
  rw [List.map_cons, Sweep.run_cons_of_free hfree] at hfiles
  refine (congrFun hfiles p).trans ?_
  rw [Sweep.run_snd_of_none (Or.inr hgone)]
  exact hgone

theorem foldl_deleteTransferById (transfers : List Transfer) (db : Db) (m : TransferModel) :
    m ∈ (transfers.foldl (fun db t => db.deleteTransferById t.id) db).transfers.rows ↔
      m ∈ db.transfers.rows ∧ ∀ t ∈ transfers, t.id ≠ m.id := by
  induction transfers generalizing db with
  | nil => simp
  | cons t rest ih =>
      rw [List.foldl_cons, ih]
      simp only [Db.deleteTransferById, Table.mem_eraseWhere, decide_eq_false_iff_not,
        List.mem_cons, forall_eq_or_imp, and_assoc, ne_eq, eq_comm (a := t.id)]

/-- Deleting transfers deletes nothing of the sessions. -/
theorem foldl_deleteTransferById_kept (transfers : List Transfer) (db : Db) :
    (transfers.foldl (fun db t => db.deleteTransferById t.id) db).sessions = db.sessions ∧
      (transfers.foldl (fun db t => db.deleteTransferById t.id) db).items = db.items := by
  induction transfers generalizing db with
  | nil => exact ⟨rfl, rfl⟩
  | cons t rest ih => exact ih (db.deleteTransferById t.id)

/-- The row a sweep lists a transfer from. -/
theorem mem_listTransfersExpiredBefore {db : Db} {deadline : ℤ} {t : Transfer} :
    t ∈ db.listTransfersExpiredBefore deadline ↔
      ∃ m ∈ db.transfers.rows, m.expiresAt.any (· ≤ deadline) = true ∧ t = db.transferToDomain m := by
  simp only [Db.listTransfersExpiredBefore, List.mem_map, List.mem_insertionSort, List.mem_filter,
    and_assoc, eq_comm (b := t)]

/-- The rows that a sweep lists, and the rows that outlive it. -/
theorem outlives_sweep {db : Db} {cutoff : ℤ} {m : TransferModel} :
    m ∈ ((db.listTransfersExpiredBefore cutoff).foldl
        (fun db t => db.deleteTransferById t.id) db).transfers.rows ↔
      m ∈ db.transfers.rows ∧ m.expiresAt.any (· ≤ cutoff) = false := by
  rw [foldl_deleteTransferById]
  refine and_congr_right fun hm => ?_
  constructor
  · intro hother
    by_contra hexpired
    have hlisted := mem_listTransfersExpiredBefore.mpr
      ⟨m, hm, eq_true_of_ne_false hexpired, rfl⟩
    exact hother _ hlisted rfl
  · intro hstays t ht hid
    obtain ⟨m', hm', hexpired, rfl⟩ := mem_listTransfersExpiredBefore.mp ht
    rw [Table.eq_of_mem hm' hm hid, hstays] at hexpired
    cases hexpired

/-! ## The sweep of the temporary directory -/

/-- A sweep takes the file at `p`: it is old enough, and its deletion is not
refused. -/
def Aged (unlinkFails : Path → Bool) (now maxAgeSeconds : ℤ) (fs : Files) (p : Path) : Prop :=
  (fs p).any (fun f => maxAgeSeconds * 1000000 ≤ now - f.mtime) = true ∧ unlinkFails p = false

instance (unlinkFails : Path → Bool) (now maxAgeSeconds : ℤ) (fs : Files) (p : Path) :
    Decidable (Aged unlinkFails now maxAgeSeconds fs p) := inferInstanceAs (Decidable (_ ∧ _))

theorem Aged.congr {unlinkFails : Path → Bool} {now maxAge : ℤ} {fs fs' : Files} {p : Path}
    (h : fs p = fs' p) : Aged unlinkFails now maxAge fs p ↔ Aged unlinkFails now maxAge fs' p := by
  rw [Aged, Aged, h]

/-- The first entry of a sweep: its file is taken, or left. -/
theorem sweepTempFiles_cons (unlinkFails : Path → Bool) (now maxAge : ℤ) (tempDir : Path)
    (removed : ℕ) (fs : Files) (name : Str) (rest : List Str) :
    ∃ removed', sweepTempFiles unlinkFails now maxAge tempDir removed fs (name :: rest) =
      sweepTempFiles unlinkFails now maxAge tempDir removed'
        (if Aged unlinkFails now maxAge fs (tempDir ++ [name]) then fs.unlink (tempDir ++ [name])
          else fs) rest := by
  rw [sweepTempFiles]
  cases hf : fs (tempDir ++ [name]) with
  | none =>
      have hnot : ¬ Aged unlinkFails now maxAge fs (tempDir ++ [name]) := by
        rintro ⟨hany, -⟩
        rw [hf] at hany
        cases hany
      rw [if_neg hnot]
      exact ⟨removed, rfl⟩
  | some f =>
      have haged : Aged unlinkFails now maxAge fs (tempDir ++ [name]) ↔
          maxAge * 1000000 ≤ now - f.mtime ∧ unlinkFails (tempDir ++ [name]) = false := by
        rw [Aged, hf, Option.any_some, decide_eq_true_eq]
      by_cases hgone : Aged unlinkFails now maxAge fs (tempDir ++ [name])
      · rw [if_pos hgone]
        exact ⟨removed + 1, if_pos (haged.mp hgone)⟩
      · rw [if_neg hgone]
        exact ⟨removed, if_neg fun h => hgone (haged.mpr h)⟩

/-- Files that do not lie in the directory itself are not looked at. -/
theorem sweepTempFiles_ne (unlinkFails : Path → Bool) (now maxAge : ℤ) {tempDir p : Path}
    (hp : ∀ name, p ≠ tempDir ++ [name]) (removed : ℕ) (fs : Files) (entries : List Str) :
    (sweepTempFiles unlinkFails now maxAge tempDir removed fs entries).2 p = fs p := by
  induction entries generalizing removed fs with
  | nil => rfl
  | cons name rest ih =>
      obtain ⟨removed', heq⟩ := sweepTempFiles_cons unlinkFails now maxAge tempDir removed fs name rest
      rw [heq, ih]
      split
      · exact Files.unlink_ne (hp name)
      · rfl

/-- A file of the directory goes exactly if it is listed and aged. -/
theorem sweepTempFiles_apply (unlinkFails : Path → Bool) (now maxAge : ℤ) (tempDir : Path)
    (name : Str) (removed : ℕ) (fs : Files) (entries : List Str) :
    (sweepTempFiles unlinkFails now maxAge tempDir removed fs entries).2 (tempDir ++ [name]) =
      if name ∈ entries ∧ Aged unlinkFails now maxAge fs (tempDir ++ [name]) then none
      else fs (tempDir ++ [name]) := by
  induction entries generalizing removed fs with
  | nil =>
      have hnil : ¬ (name ∈ [] ∧ Aged unlinkFails now maxAge fs (tempDir ++ [name])) :=
        fun h => List.not_mem_nil h.1
      rw [if_neg hnil, sweepTempFiles]
  | cons head rest ih =>
      obtain ⟨removed', heq⟩ := sweepTempFiles_cons unlinkFails now maxAge tempDir removed fs head rest
      rw [heq, ih]
      by_cases hname : name = head
      · subst hname
        by_cases hgone : Aged unlinkFails now maxAge fs (tempDir ++ [name])
        · have hall : name ∈ name :: rest ∧ Aged unlinkFails now maxAge fs (tempDir ++ [name]) :=
            ⟨List.mem_cons_self, hgone⟩
          rw [if_pos hgone, if_pos hall, Files.unlink_self, ite_self]
        · simp only [hgone, if_false, and_false]
      · have hpath : tempDir ++ [name] ≠ tempDir ++ [head] := by
          intro h
          exact hname (List.singleton_inj.mp (List.append_cancel_left h))
        have hfile : (if Aged unlinkFails now maxAge fs (tempDir ++ [head]) then
            fs.unlink (tempDir ++ [head]) else fs) (tempDir ++ [name]) = fs (tempDir ++ [name]) := by
          split
          · exact Files.unlink_ne hpath
          · rfl
        have hmem : name ∈ head :: rest ↔ name ∈ rest := by
          rw [List.mem_cons, or_iff_right hname]
        simp only [Aged.congr hfile, hfile, hmem]

end CleanupService

end Jumbox
