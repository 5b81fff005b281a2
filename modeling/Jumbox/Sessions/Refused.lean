import Jumbox.Sessions.Swept

/-!
# A sweep that is refused a file

Files go one after the other, rows all together at the commit. A sweep of the
sessions or of the transfers that the operating system refuses a file raises
there: what it has removed before is gone, every row stays, and nothing that
comes after it in the order of the sweep is looked at.
-/

namespace Jumbox

namespace CleanupService

variable {unlinkFails : Path → Bool}

/-! ## What a sweep leaves -/

/-- The files that a sweep of the sessions leaves, and its rows: all of them, or all
that it does not list. -/
theorem cleanupExpiredSessions_world (w : World) (now : ℤ) (deadline : Option ℤ)
    (unlinkFails : Path → Bool) :
    (cleanupExpiredSessions w now deadline unlinkFails).2.files =
      (Sweep.run unlinkFails w.files (places (w.db.listExpiredBefore (deadline.getD now)))).2 ∧
    (cleanupExpiredSessions w now deadline unlinkFails).2.db =
      if (Sweep.run unlinkFails w.files
          (places (w.db.listExpiredBefore (deadline.getD now)))).1 = true
      then (w.db.listExpiredBefore (deadline.getD now)).foldl (fun db s => db.deleteById s.id) w.db
      else w.db := by
  rw [← sweepSessions_ending unlinkFails (w.db.listExpiredBefore (deadline.getD now)) w.db w.files]
  unfold cleanupExpiredSessions
  dsimp only
  rcases hsweep : sweepSessions unlinkFails w.db w.files
    (w.db.listExpiredBefore (deadline.getD now)) with ⟨e | db, fs⟩
  · exact ⟨rfl, rfl⟩
  · exact ⟨rfl, (sweepSessions_ok hsweep).1⟩

theorem cleanupExpiredTransfers_world (w : World) (now : ℤ) (deadline : Option ℤ)
    (unlinkFails : Path → Bool) :
    (cleanupExpiredTransfers w now deadline unlinkFails).2.files =
      (Sweep.run unlinkFails w.files
        ((w.db.listTransfersExpiredBefore (deadline.getD now)).map Transfer.storagePath)).2 ∧
    (cleanupExpiredTransfers w now deadline unlinkFails).2.db =
      if (Sweep.run unlinkFails w.files
        ((w.db.listTransfersExpiredBefore (deadline.getD now)).map Transfer.storagePath)).1 = true
      then (w.db.listTransfersExpiredBefore (deadline.getD now)).foldl
        (fun db t => db.deleteTransferById t.id) w.db
      else w.db := by
  rw [← sweepTransfers_ending unlinkFails (w.db.listTransfersExpiredBefore (deadline.getD now))
    w.db w.files]
  unfold cleanupExpiredTransfers
  dsimp only
  rcases hsweep : sweepTransfers unlinkFails w.db w.files
    (w.db.listTransfersExpiredBefore (deadline.getD now)) with ⟨e | db, fs⟩
  · exact ⟨rfl, rfl⟩
  · exact ⟨rfl, (sweepTransfers_ok hsweep).1⟩

/-! ## Rows and their files -/

/-- An item or a transfer has its file at `p`. -/
def Names (db : Db) (p : Path) : Prop :=
  (∃ i ∈ db.items.rows, i.storagePath = some p) ∨ ∃ t ∈ db.transfers.rows, t.storagePath = some p

/-- Every row still there has the file it had, and every expired session of which no
file is refused has gone. -/
structure SessionsHandled (unlinkFails : Path → Bool) (cutoff : ℤ) (w w' : World) : Prop where
  files : Sweep.Keeps (Names w'.db) w.files w'.files
  removed : ∀ m ∈ w.db.sessions.rows, Expired cutoff m.expiresAt = true →
    (∀ i ∈ w.db.itemsOf m.id, ¬ Sweep.Blocked unlinkFails w.files i.storagePath) →
    ∀ m' ∈ w'.db.sessions.rows, m'.id ≠ m.id

structure TransfersHandled (unlinkFails : Path → Bool) (cutoff : ℤ) (w w' : World) : Prop where
  files : Sweep.Keeps (Names w'.db) w.files w'.files
  removed : ∀ m ∈ w.db.transfers.rows, Expired cutoff m.expiresAt = true →
    ¬ Sweep.Blocked unlinkFails w.files m.storagePath → ∀ m' ∈ w'.db.transfers.rows, m'.id ≠ m.id

/-- A row names `p` that a sweep of the sessions leaves when it goes through: SQLite
keeps the item rows of the sessions that are deleted. -/
def NamesAfterSessions (db : Db) (cutoff : ℤ) (p : Path) : Prop :=
  (∃ i ∈ db.items.rows, i.storagePath = some p ∧ (db.backend = .sqlite ∨
    ∀ m ∈ db.sessions.rows, m.id = i.sessionId → Expired cutoff m.expiresAt = false)) ∨
  ∃ t ∈ db.transfers.rows, t.storagePath = some p

def NamesAfterTransfers (db : Db) (cutoff : ℤ) (p : Path) : Prop :=
  (∃ i ∈ db.items.rows, i.storagePath = some p) ∨
  ∃ t ∈ db.transfers.rows, t.storagePath = some p ∧ Expired cutoff t.expiresAt = false

/-- No file of an expired session is refused or still has a row afterwards; or each
expired session has a refused file, and the first file of the sweep is one. -/
def SessionsSafe (unlinkFails : Path → Bool) (cutoff : ℤ) (w : World) : Prop :=
  (∀ m ∈ w.db.sessions.rows, Expired cutoff m.expiresAt = true → ∀ i ∈ w.db.itemsOf m.id,
    ¬ Sweep.Blocked unlinkFails w.files i.storagePath ∧
    ∀ p, i.storagePath = some p → (w.files p).isSome = true → ¬ NamesAfterSessions w.db cutoff p) ∨
  ((∀ m ∈ w.db.sessions.rows, Expired cutoff m.expiresAt = true →
    ∃ i ∈ w.db.itemsOf m.id, Sweep.Blocked unlinkFails w.files i.storagePath) ∧
    Sweep.HeadBlocked unlinkFails w.files (places (w.db.listExpiredBefore cutoff)))

/-- The same for the transfers, each of which has one file. -/
def TransfersSafe (unlinkFails : Path → Bool) (cutoff : ℤ) (w : World) : Prop :=
  (∀ m ∈ w.db.transfers.rows, Expired cutoff m.expiresAt = true →
    ¬ Sweep.Blocked unlinkFails w.files m.storagePath ∧
    ∀ p, m.storagePath = some p → (w.files p).isSome = true → ¬ NamesAfterTransfers w.db cutoff p) ∨
  ∀ m ∈ w.db.transfers.rows, Expired cutoff m.expiresAt = true →
    Sweep.Blocked unlinkFails w.files m.storagePath

/-! ## When a sweep leaves rows and files in step -/

theorem mem_places {db : Db} {cutoff : ℤ} {q : Option Path} :
    q ∈ places (db.listExpiredBefore cutoff) ↔ ∃ m ∈ db.sessions.rows,
      Expired cutoff m.expiresAt = true ∧ ∃ i ∈ db.itemsOf m.id, i.storagePath = q := by
  constructor
  · intro hq
    obtain ⟨s, hs, hq⟩ := List.mem_flatMap.mp hq
    obtain ⟨m, hm, hexpired, rfl⟩ := mem_listExpiredBefore.mp hs
    obtain ⟨i, hi, hpath⟩ := List.mem_map.mp hq
    exact ⟨m, hm, hexpired, i, hi, hpath⟩
  · rintro ⟨m, hm, hexpired, i, hi, hpath⟩
    apply List.mem_flatMap.mpr
    exact ⟨_, mem_listExpiredBefore.mpr ⟨m, hm, hexpired, rfl⟩, List.mem_map.mpr ⟨i, hi, hpath⟩⟩

theorem mem_foldl_deleteById_items (sessions : List TransferSession) (db : Db) (i : TransferItem) :
    i ∈ (sessions.foldl (fun db s => db.deleteById s.id) db).items.rows ↔
      i ∈ db.items.rows ∧ (db.backend = .sqlite ∨ ∀ s ∈ sessions, s.id ≠ i.sessionId) := by
  induction sessions generalizing db with
  | nil => simp
  | cons s rest ih =>
      have hbackend : (db.deleteById s.id).backend = db.backend := rfl
      rw [List.foldl_cons, ih, hbackend]
      cases hb : db.backend with
      | sqlite => simp [Db.deleteById, hb]
      | postgresql =>
          simp only [Db.deleteById, hb, Table.mem_eraseWhere, decide_eq_false_iff_not, and_assoc,
            reduceCtorEq, false_or, List.mem_cons, forall_eq_or_imp, ne_eq, eq_comm (a := s.id)]

theorem names_after_sessions {db : Db} {cutoff : ℤ} {p : Path} :
    Names ((db.listExpiredBefore cutoff).foldl (fun db s => db.deleteById s.id) db) p ↔
      NamesAfterSessions db cutoff p := by
  have hlisted : ∀ sid, (∀ s ∈ db.listExpiredBefore cutoff, s.id ≠ sid) ↔
      ∀ m ∈ db.sessions.rows, m.id = sid → Expired cutoff m.expiresAt = false := by
    intro sid
    constructor
    · rintro hnot m hm rfl
      exact (notListed_iff hm).mp hnot
    · rintro hfresh s hs rfl
      obtain ⟨m, hm, hexpired, rfl⟩ := mem_listExpiredBefore.mp hs
      exact absurd (hexpired.symm.trans (hfresh m hm rfl)) (by decide)
  unfold Names NamesAfterSessions
  rw [foldl_deleteById_transfers]
  apply or_congr_left
  apply exists_congr
  intro i
  rw [mem_foldl_deleteById_items, hlisted]
  constructor
  · rintro ⟨⟨hi, hstays⟩, hpath⟩
    exact ⟨hi, hpath, hstays⟩
  · rintro ⟨hi, hpath, hstays⟩
    exact ⟨⟨hi, hstays⟩, hpath⟩

/-- A session that is due. -/
def Due (db : Db) (cutoff : ℤ) (m : TransferSessionModel) : Prop :=
  m ∈ db.sessions.rows ∧ Expired cutoff m.expiresAt = true

theorem sessionsSafe_iff {cutoff : ℤ} {w : World} :
    SessionsSafe unlinkFails cutoff w ↔
      (∀ m, Due w.db cutoff m → ∀ q, (∃ i ∈ w.db.itemsOf m.id, i.storagePath = q) →
        ¬ Sweep.Blocked unlinkFails w.files q ∧ ∀ p, q = some p → (w.files p).isSome = true →
          ¬ NamesAfterSessions w.db cutoff p) ∨
      ((∀ m, Due w.db cutoff m → ∃ q, (∃ i ∈ w.db.itemsOf m.id, i.storagePath = q) ∧
        Sweep.Blocked unlinkFails w.files q) ∧
        Sweep.HeadBlocked unlinkFails w.files (places (w.db.listExpiredBefore cutoff))) := by
  unfold SessionsSafe Due
  apply or_congr
  · constructor
    · rintro h m ⟨hm, hexpired⟩ q ⟨i, hi, rfl⟩
      exact h m hm hexpired i hi
    · intro h m hm hexpired i hi
      exact h m ⟨hm, hexpired⟩ _ ⟨i, hi, rfl⟩
  · apply and_congr_left'
    constructor
    · rintro h m ⟨hm, hexpired⟩
      obtain ⟨i, hi, hblocked⟩ := h m hm hexpired
      exact ⟨_, ⟨i, hi, rfl⟩, hblocked⟩
    · intro h m hm hexpired
      obtain ⟨q, ⟨i, hi, rfl⟩, hblocked⟩ := h m ⟨hm, hexpired⟩
      exact ⟨i, hi, hblocked⟩

theorem sessions_handled_iff (w : World) (now : ℤ) (deadline : Option ℤ)
    (unlinkFails : Path → Bool) :
    SessionsHandled unlinkFails (deadline.getD now) w
        (cleanupExpiredSessions w now deadline unlinkFails).2 ↔
      SessionsSafe unlinkFails (deadline.getD now) w := by
  obtain ⟨hfiles, hdb⟩ := cleanupExpiredSessions_world w now deadline unlinkFails
  generalize (cleanupExpiredSessions w now deadline unlinkFails).2 = w' at hfiles hdb
  generalize deadline.getD now = cutoff at hfiles hdb
  have hplaces : ∀ q, q ∈ places (w.db.listExpiredBefore cutoff) ↔
      ∃ m, Due w.db cutoff m ∧ ∃ i ∈ w.db.itemsOf m.id, i.storagePath = q := by
    intro q
    rw [mem_places]
    exact exists_congr fun m => and_assoc.symm
  have hbefore : ∀ p, some p ∈ places (w.db.listExpiredBefore cutoff) → Names w.db p := by
    intro p hp
    obtain ⟨m, -, -, i, hi, hpath⟩ := mem_places.mp hp
    exact Or.inl ⟨i, (Db.mem_itemsOf.mp hi).1, hpath⟩
  rw [sessionsSafe_iff, ← Sweep.handled_iff (Due w.db cutoff) _ (NamesAfterSessions w.db cutoff)
    hplaces hbefore, ← hfiles]
  have hnames : Names w'.db =
      if (Sweep.run unlinkFails w.files (places (w.db.listExpiredBefore cutoff))).1 = true
      then NamesAfterSessions w.db cutoff else Names w.db := by
    rw [hdb]
    split
    · ext p
      exact names_after_sessions
    · rfl
  have hgone : ∀ m ∈ w.db.sessions.rows, Expired cutoff m.expiresAt = true →
      ((∀ m' ∈ w'.db.sessions.rows, m'.id ≠ m.id) ↔
        (Sweep.run unlinkFails w.files (places (w.db.listExpiredBefore cutoff))).1 = true) := by
    intro m hm hexpired
    rw [hdb]
    split
    · rename_i hrun
      refine iff_of_true ?_ hrun
      intro m' hm' hid
      obtain ⟨-, hnot⟩ := (foldl_deleteById_sessions _ _ _).mp hm'
      exact hnot _ (mem_listExpiredBefore.mpr ⟨m, hm, hexpired, rfl⟩) hid.symm
    · rename_i hrun
      exact iff_of_false (fun h => h m hm rfl) hrun
  rw [← hnames]
  constructor
  · rintro ⟨hkept, hremoved⟩
    refine ⟨hkept, ?_⟩
    rintro m ⟨hm, hexpired⟩ hfree
    exact (hgone m hm hexpired).mp (hremoved m hm hexpired fun i hi => hfree _ ⟨i, hi, rfl⟩)
  · rintro ⟨hkept, hremoved⟩
    refine ⟨hkept, ?_⟩
    intro m hm hexpired hfree
    refine (hgone m hm hexpired).mpr (hremoved m ⟨hm, hexpired⟩ ?_)
    rintro q ⟨i, hi, rfl⟩
    exact hfree i hi

theorem mem_transfer_places {db : Db} {cutoff : ℤ} {q : Option Path} :
    q ∈ (db.listTransfersExpiredBefore cutoff).map Transfer.storagePath ↔
      ∃ m ∈ db.transfers.rows, Expired cutoff m.expiresAt = true ∧ m.storagePath = q := by
  constructor
  · intro hq
    obtain ⟨t, ht, hpath⟩ := List.mem_map.mp hq
    obtain ⟨m, hm, hexpired, rfl⟩ := mem_listTransfersExpiredBefore.mp ht
    exact ⟨m, hm, hexpired, hpath⟩
  · rintro ⟨m, hm, hexpired, hpath⟩
    apply List.mem_map.mpr
    exact ⟨_, mem_listTransfersExpiredBefore.mpr ⟨m, hm, hexpired, rfl⟩, hpath⟩

theorem names_after_transfers {db : Db} {cutoff : ℤ} {p : Path} :
    Names ((db.listTransfersExpiredBefore cutoff).foldl
      (fun db t => db.deleteTransferById t.id) db) p ↔ NamesAfterTransfers db cutoff p := by
  unfold Names NamesAfterTransfers
  rw [(foldl_deleteTransferById_kept _ _).2]
  apply or_congr_right
  apply exists_congr
  intro t
  rw [outlives_sweep]
  constructor
  · rintro ⟨⟨ht, hstays⟩, hpath⟩
    exact ⟨ht, hpath, hstays⟩
  · rintro ⟨ht, hpath, hstays⟩
    exact ⟨⟨ht, hstays⟩, hpath⟩

/-- A transfer that is due. -/
def TransferDue (db : Db) (cutoff : ℤ) (m : TransferModel) : Prop :=
  m ∈ db.transfers.rows ∧ Expired cutoff m.expiresAt = true

/-- Where every file is refused the first one is, if there is any. -/
theorem transfersSafe_iff {cutoff : ℤ} {w : World} :
    TransfersSafe unlinkFails cutoff w ↔
      (∀ m, TransferDue w.db cutoff m → ∀ q, m.storagePath = q →
        ¬ Sweep.Blocked unlinkFails w.files q ∧ ∀ p, q = some p → (w.files p).isSome = true →
          ¬ NamesAfterTransfers w.db cutoff p) ∨
      ((∀ m, TransferDue w.db cutoff m → ∃ q, m.storagePath = q ∧
        Sweep.Blocked unlinkFails w.files q) ∧
        Sweep.HeadBlocked unlinkFails w.files
          ((w.db.listTransfersExpiredBefore cutoff).map Transfer.storagePath)) := by
  unfold TransfersSafe
  constructor
  · rintro (hunnamed | hblocked)
    · apply Or.inl
      rintro m ⟨hm, hexpired⟩ q rfl
      exact hunnamed m hm hexpired
    · by_cases hnone : (w.db.listTransfersExpiredBefore cutoff).map Transfer.storagePath = []
      · apply Or.inl
        rintro m ⟨hm, hexpired⟩ q rfl
        have hlisted := mem_transfer_places.mpr ⟨m, hm, hexpired, rfl⟩
        rw [hnone] at hlisted
        cases hlisted
      · refine Or.inr ⟨?_, Sweep.headBlocked_of_forall hnone ?_⟩
        · rintro m ⟨hm, hexpired⟩
          exact ⟨_, rfl, hblocked m hm hexpired⟩
        · intro q hq
          obtain ⟨m, hm, hexpired, rfl⟩ := mem_transfer_places.mp hq
          exact hblocked m hm hexpired
  · rintro (hunnamed | ⟨hblocked, -⟩)
    · apply Or.inl
      intro m hm hexpired
      exact hunnamed m ⟨hm, hexpired⟩ _ rfl
    · apply Or.inr
      intro m hm hexpired
      obtain ⟨q, rfl, hrefused⟩ := hblocked m ⟨hm, hexpired⟩
      exact hrefused

theorem transfers_handled_iff (w : World) (now : ℤ) (deadline : Option ℤ)
    (unlinkFails : Path → Bool) :
    TransfersHandled unlinkFails (deadline.getD now) w
        (cleanupExpiredTransfers w now deadline unlinkFails).2 ↔
      TransfersSafe unlinkFails (deadline.getD now) w := by
  obtain ⟨hfiles, hdb⟩ := cleanupExpiredTransfers_world w now deadline unlinkFails
  generalize (cleanupExpiredTransfers w now deadline unlinkFails).2 = w' at hfiles hdb
  generalize deadline.getD now = cutoff at hfiles hdb
  have hplaces : ∀ q, q ∈ (w.db.listTransfersExpiredBefore cutoff).map Transfer.storagePath ↔
      ∃ m, TransferDue w.db cutoff m ∧ m.storagePath = q := by
    intro q
    rw [mem_transfer_places]
    exact exists_congr fun m => and_assoc.symm
  have hbefore : ∀ p, some p ∈ (w.db.listTransfersExpiredBefore cutoff).map Transfer.storagePath →
      Names w.db p := by
    intro p hp
    obtain ⟨m, hm, -, hpath⟩ := mem_transfer_places.mp hp
    exact Or.inr ⟨m, hm, hpath⟩
  rw [transfersSafe_iff, ← Sweep.handled_iff (TransferDue w.db cutoff) _
    (NamesAfterTransfers w.db cutoff) hplaces hbefore, ← hfiles]
  have hnames : Names w'.db =
      if (Sweep.run unlinkFails w.files
        ((w.db.listTransfersExpiredBefore cutoff).map Transfer.storagePath)).1 = true
      then NamesAfterTransfers w.db cutoff else Names w.db := by
    rw [hdb]
    split
    · ext p
      exact names_after_transfers
    · rfl
  have hgone : ∀ m ∈ w.db.transfers.rows, Expired cutoff m.expiresAt = true →
      ((∀ m' ∈ w'.db.transfers.rows, m'.id ≠ m.id) ↔ (Sweep.run unlinkFails w.files
        ((w.db.listTransfersExpiredBefore cutoff).map Transfer.storagePath)).1 = true) := by
    intro m hm hexpired
    rw [hdb]
    split
    · rename_i hrun
      refine iff_of_true ?_ hrun
      intro m' hm' hid
      obtain ⟨hm', hfresh⟩ := outlives_sweep.mp hm'
      obtain rfl := Table.eq_of_mem hm' hm hid
      exact absurd (hexpired.symm.trans hfresh) (by decide)
    · rename_i hrun
      exact iff_of_false (fun h => h m hm rfl) hrun
  rw [← hnames]
  constructor
  · rintro ⟨hkept, hremoved⟩
    refine ⟨hkept, ?_⟩
    rintro m ⟨hm, hexpired⟩ hfree
    exact (hgone m hm hexpired).mp (hremoved m hm hexpired (hfree _ rfl))
  · rintro ⟨hkept, hremoved⟩
    refine ⟨hkept, ?_⟩
    intro m hm hexpired hfree
    refine (hgone m hm hexpired).mpr (hremoved m ⟨hm, hexpired⟩ ?_)
    rintro q rfl
    exact hfree

/-- A sweep, whether it raises or not, leaves rows and files in step and starves no
session or transfer exactly in the safe states. -/
theorem cleanup_handles_iff (w : World) (now : ℤ) (deadline : Option ℤ)
    (unlinkFails : Path → Bool) :
    (SessionsHandled unlinkFails (deadline.getD now) w
        (cleanupExpiredSessions w now deadline unlinkFails).2 ↔
      SessionsSafe unlinkFails (deadline.getD now) w) ∧
    (TransfersHandled unlinkFails (deadline.getD now) w
        (cleanupExpiredTransfers w now deadline unlinkFails).2 ↔
      TransfersSafe unlinkFails (deadline.getD now) w) :=
  ⟨sessions_handled_iff w now deadline unlinkFails, transfers_handled_iff w now deadline unlinkFails⟩

/-! ## Two files, of which the second is refused -/

namespace Sample

open SessionService.Sample (owner sessionId itemId uploaded run)

def secondId : Uuid := Uuid.ofNat 3

def twoFiles : List SessionService.Event :=
  uploaded ++ [⟨2, .uploadItem sessionId owner "more.txt".toList (.ofBytes [3]) 0 secondId⟩]

theorem runs_twoFiles : (run twoFiles).isSome = true := by decide +kernel

def firstPath : Path :=
  ["data".toList, "uploads".toList, sessionId.str, itemId.str ++ "_notes.txt".toList]

/-- Only the second file is refused. -/
def refusesSecond (p : Path) : Bool := p ≠ firstPath

def swept : World :=
  (cleanupExpiredSessions ((run twoFiles).get runs_twoFiles).world 7200000000 none refusesSecond).2

end Sample

/-- The first file has gone, and its row is there. -/
theorem refused_file_orphans_row :
    ¬ ∀ (d : Deployment) (s : SessionService.State), SessionService.Reachable d s →
      ∀ (now : ℤ) (deadline : Option ℤ) (unlinkFails : Path → Bool),
        SessionsHandled unlinkFails (deadline.getD now) s.world
          (cleanupExpiredSessions s.world now deadline unlinkFails).2 := by
  intro h
  have hhandled := h .default _ (SessionService.Sample.reachable_run Sample.runs_twoFiles)
    7200000000 none Sample.refusesSecond
  have hrow : ∃ i ∈ Sample.swept.db.items.rows, i.storagePath = some Sample.firstPath := by
    decide +kernel
  have hfile : (((SessionService.Sample.run Sample.twoFiles).get
      Sample.runs_twoFiles).world.files Sample.firstPath).isSome = true := by decide +kernel
  have hkept := hhandled.files Sample.firstPath (Or.inl hrow) hfile
  have hgone : (Sample.swept.files Sample.firstPath).isSome = false := by decide +kernel
  rw [← hkept] at hfile
  exact absurd (hfile.symm.trans hgone) (by decide)

end CleanupService

end Jumbox
