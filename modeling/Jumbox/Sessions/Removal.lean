import Jumbox.Sessions.Isolation
import Jumbox.Sessions.Reclaim

/-!
# What burning and deleting remove

Both walk over the items of the session and ask the storage to delete the file
of each. They hand it the name of the item where it wants a `StoredFile`, and
the error this raises is swallowed; so the stored files stay. The part files,
which `delete_session` removes through `delete_part`, do go.
-/

namespace Jumbox

namespace SessionService

open ChunkStorage (partPath)

/-- No item that `sid` had in `w` has a file at its storage path in `w'`, and
outside the directories of `sid` the files are what they were. -/
structure Purged (d : Deployment) (sid : Uuid) (w w' : World) : Prop where
  stored : ∀ i ∈ w.db.itemsOf sid, ∀ p, i.storagePath = some p → w'.files p = none
  others : ∀ p, ¬ d.uploadsDir.join sid.str <+: p → ¬ d.tempDir.join sid.str <+: p →
    w'.files p = w.files p

/-- No item that `sid` had in `w` has a part file in `w'`. -/
def PartsPurged (d : Deployment) (sid : Uuid) (w w' : World) : Prop :=
  ∀ i ∈ w.db.itemsOf sid, w'.files (partPath d sid i.id) = none

/-- No item of the session has been completed. -/
def NeverStored (w : World) (sid : Uuid) : Prop :=
  ∀ i ∈ w.db.itemsOf sid, i.storagePath = none

instance (w : World) (sid : Uuid) : Decidable (NeverStored w sid) :=
  inferInstanceAs (Decidable (∀ i ∈ w.db.itemsOf sid, i.storagePath = none))

/-! ## What the two methods do to the files -/

theorem burnSession_files (w : World) (sid : Uuid) (unlinkFails : Path → Bool) :
    (burnSession w sid unlinkFails).2.files = w.files := by
  rcases burnSession_cases w sid unlinkFails with ⟨heq, -⟩ | ⟨m, -, -, heq⟩
  · rw [heq]
  · rw [heq]
    rfl

/-- What `delete_session` does to the files, item by item. -/
def deletedFiles (d : Deployment) (sid : Uuid) (items : List TransferItem) (fs : Files) : Files :=
  items.foldl (fun fs i =>
    tryDeletePart d (fun _ => false) sid (tryDelete (fun _ => false) fs i) i) fs

theorem tryDeletePart_of_unlinks (d : Deployment) (sid : Uuid) (fs : Files) (i : TransferItem) :
    tryDeletePart d (fun _ => false) sid fs i = fs.unlink (partPath d sid i.id) := by
  unfold tryDeletePart ChunkStorage.deletePart
  dsimp only
  cases hf : fs (partPath d sid i.id) with
  | none =>
      funext p
      show fs p = fs.unlink (partPath d sid i.id) p
      by_cases hp : p = partPath d sid i.id
      · rw [hp, hf, Files.unlink_self]
      · rw [Files.unlink_ne hp]
  | some f => rfl

theorem deletedFiles_cons (d : Deployment) (sid : Uuid) (i : TransferItem)
    (items : List TransferItem) (fs : Files) :
    deletedFiles d sid (i :: items) fs =
      deletedFiles d sid items (fs.unlink (partPath d sid i.id)) := by
  rw [deletedFiles, List.foldl_cons, tryDelete_eq, tryDeletePart_of_unlinks]
  rfl

/-- The loop of `delete_session` takes the part files of the items, and no other
file. -/
theorem deletedFiles_apply (d : Deployment) (sid : Uuid) (items : List TransferItem) (fs : Files)
    (p : Path) :
    deletedFiles d sid items fs p = if ∃ i ∈ items, p = partPath d sid i.id then none else fs p := by
  induction items generalizing fs with
  | nil => exact (if_neg (by simp)).symm
  | cons i items ih =>
      rw [deletedFiles_cons, ih]
      by_cases hrest : ∃ j ∈ items, p = partPath d sid j.id
      · obtain ⟨j, hj, hp⟩ := hrest
        rw [if_pos ⟨j, hj, hp⟩, if_pos ⟨j, List.mem_cons_of_mem _ hj, hp⟩]
      · rw [if_neg hrest]
        by_cases hp : p = partPath d sid i.id
        · rw [if_pos ⟨i, List.mem_cons_self, hp⟩, hp, Files.unlink_self]
        · rw [Files.unlink_ne hp, if_neg]
          rintro ⟨j, hj, hpj⟩
          rcases List.mem_cons.mp hj with rfl | hj
          · exact hp hpj
          · exact hrest ⟨j, hj, hpj⟩

theorem deleteSession_of_allowed {w : World} {m : TransferSessionModel} {owner : AuthenticatedUser}
    (hm : m ∈ w.db.sessions.rows) (hallow : m.ownerId = owner.userId ∨ owner.isAdmin = true)
    (d : Deployment) :
    deleteSession d w m.id owner (fun _ => false) =
      (.ok (), (w.withFiles (deletedFiles d m.id (w.db.itemsOf m.id) w.files)).withDb
        (w.db.deleteById m.id)) := by
  have hden : ¬ ((w.db.sessionToDomain m).ownerId ≠ owner.userId ∧ owner.isAdmin = false) :=
    (allowed_iff m owner).mpr hallow
  unfold deleteSession
  rw [Db.getById_of_mem hm]
  exact if_neg hden

/-! ## When the stored files are gone -/

/-- A part file lies in its session's directory. -/
theorem tempDir_prefix_partPath (d : Deployment) (sid iid : Uuid) :
    d.tempDir.join sid.str <+: partPath d sid iid := by
  rw [ChunkStorage.partPath_eq, Path.join_of_plain (ChunkStorage.plain_str sid)]
  exact ⟨[iid.str ++ ".part".toList], by simp⟩

/-- In a reachable state a storage path is that of a file, so files that change
at part files only are purged exactly if there is no storage path. -/
theorem purged_iff {d : Deployment} {s : State} (hs : Reachable d s) {m : TransferSessionModel}
    (hm : m ∈ s.world.db.sessions.rows) {w' : World}
    (hfiles : ∀ p, (∀ i ∈ s.world.db.itemsOf m.id, p ≠ partPath d m.id i.id) →
      w'.files p = s.world.files p) :
    Purged d m.id s.world w' ↔ NeverStored s.world m.id := by
  have hcons := (inv_of_reachable hs).consistent
  constructor
  · intro hpurged i hi
    cases hpath : i.storagePath with
    | none => rfl
    | some p =>
        obtain ⟨hrow, hsid⟩ := Db.mem_itemsOf.mp hi
        obtain ⟨f, hf, -, -⟩ := hcons.intact i hrow m hm hsid.symm p hpath
        have hgone := hpurged.stored i hi p hpath
        have hsame : w'.files p = s.world.files p := by
          refine hfiles p ?_
          intro j hj heq
          have hitem := hcons.paths i hrow p hpath
          exact partPath_ne_itemPath d m.id j.id i (heq.symm.trans hitem)
        rw [hsame, hf] at hgone
        cases hgone
  · intro hnever
    constructor
    · intro i hi p hpath
      rw [hnever i hi] at hpath
      cases hpath
    · intro p hup htemp
      refine hfiles p ?_
      rintro i - rfl
      exact htemp (tempDir_prefix_partPath d m.id i.id)

/-- Burning and deleting a session, with every unlink succeeding: the part files
go and other sessions keep their files in any case, but the stored files are
gone exactly if there were none. -/
theorem removal_iff_never_stored {d : Deployment} {s : State} (hs : Reachable d s)
    {m : TransferSessionModel} (hm : m ∈ s.world.db.sessions.rows) :
    (Purged d m.id s.world (burnSession s.world m.id fun _ => false).2 ↔
      NeverStored s.world m.id) ∧
    ∀ owner : AuthenticatedUser, m.ownerId = owner.userId ∨ owner.isAdmin = true →
      (deleteSession d s.world m.id owner fun _ => false).1 = .ok () ∧
      PartsPurged d m.id s.world (deleteSession d s.world m.id owner fun _ => false).2 ∧
      (Purged d m.id s.world (deleteSession d s.world m.id owner fun _ => false).2 ↔
        NeverStored s.world m.id) := by
  refine ⟨?_, ?_⟩
  · apply purged_iff hs hm
    intro p _
    rw [burnSession_files]
  · intro owner hallow
    rw [deleteSession_of_allowed hm hallow]
    refine ⟨rfl, ?_, ?_⟩
    · intro i hi
      show deletedFiles d m.id (s.world.db.itemsOf m.id) s.world.files _ = none
      rw [deletedFiles_apply, if_pos ⟨i, hi, rfl⟩]
    · apply purged_iff hs hm
      intro p hp
      show deletedFiles d m.id (s.world.db.itemsOf m.id) s.world.files p = _
      rw [deletedFiles_apply, if_neg]
      rintro ⟨i, hi, heq⟩
      exact hp i hi heq

theorem removal_iff_never_stored_abandoned :
    ∃ m ∈ ((Sample.run Sample.abandoned).get Sample.runs_abandoned).world.db.sessions.rows,
      Purged .default m.id ((Sample.run Sample.abandoned).get Sample.runs_abandoned).world
        (deleteSession .default ((Sample.run Sample.abandoned).get Sample.runs_abandoned).world m.id
          Sample.owner fun _ => false).2 := by
  have hrow : ∃ m ∈ ((Sample.run Sample.abandoned).get Sample.runs_abandoned).world.db.sessions.rows,
      m.ownerId = Sample.owner.userId ∧
        NeverStored ((Sample.run Sample.abandoned).get Sample.runs_abandoned).world m.id := by
    decide +kernel
  obtain ⟨m, hm, howner, hnever⟩ := hrow
  have hremoval := removal_iff_never_stored (Sample.reachable_run Sample.runs_abandoned) hm
  exact ⟨m, hm, (hremoval.2 Sample.owner (Or.inl howner)).2.2.mpr hnever⟩

/-- The file of an uploaded item is there after the burn and after the deletion. -/
theorem stored_file_not_removed :
    ¬ ∀ (d : Deployment) (s : State), Reachable d s → ∀ m ∈ s.world.db.sessions.rows,
      Purged d m.id s.world (burnSession s.world m.id fun _ => false).2 ∧
      ∀ owner : AuthenticatedUser, m.ownerId = owner.userId →
        Purged d m.id s.world (deleteSession d s.world m.id owner fun _ => false).2 ∧
        PartsPurged d m.id s.world (deleteSession d s.world m.id owner fun _ => false).2 := by
  intro h
  have hrow : ∃ m ∈ ((Sample.run Sample.uploaded).get Sample.runs_uploaded).world.db.sessions.rows,
      m.ownerId = Sample.owner.userId ∧
      ∃ i ∈ ((Sample.run Sample.uploaded).get Sample.runs_uploaded).world.db.itemsOf m.id,
        ∃ p ∈ i.storagePath, ((burnSession
          ((Sample.run Sample.uploaded).get Sample.runs_uploaded).world m.id
          fun _ => false).2.files p).isSome = true := by
    decide +kernel
  obtain ⟨m, hm, howner, i, hi, p, hp, hfile⟩ := hrow
  have hgone := (h .default _ (Sample.reachable_run Sample.runs_uploaded) m hm).1.stored i hi p hp
  rw [hgone] at hfile
  cases hfile

end SessionService

end Jumbox
