import Jumbox.Sessions.Reclaim

/-!
# A sweep that succeeds

What `cleanup_expired_sessions` does when it raises nothing: it takes exactly the
sessions whose time is over at the cutoff, with the stored files of their items,
and leaves every other session as it is. That no file of another session goes
with them is the invariant of the serial runs: an item's path names its session.
-/

namespace Jumbox

namespace CleanupService

/-- What has this expiry, if any, is over at the cutoff. -/
def Expired (cutoff : ℤ) (expiresAt : Option ℤ) : Bool := expiresAt.any (· ≤ cutoff)

/-- From `w` to `w'` exactly the sessions expired at the cutoff have gone, `n` of
them. -/
structure SweptExactly (d : Deployment) (w : World) (cutoff : ℤ) (n : ℕ) (w' : World) : Prop where
  rows : w'.db.sessions.rows = w.db.sessions.rows.filter (!Expired cutoff ·.expiresAt)
  items : ∀ m ∈ w'.db.sessions.rows, w'.db.itemsOf m.id = w.db.itemsOf m.id
  gone : ∀ m ∈ w.db.sessions.rows, Expired cutoff m.expiresAt = true → ∀ i ∈ w.db.itemsOf m.id,
    ∀ p, i.storagePath = some p → w'.files p = none
  stored : ∀ m ∈ w'.db.sessions.rows, ∀ i ∈ w.db.itemsOf m.id,
    ∀ p, i.storagePath = some p → w'.files p = w.files p
  below : ∀ m ∈ w'.db.sessions.rows, ∀ p, d.uploadsDir ++ [m.id.str] <+: p →
    w'.files p = w.files p
  count : w.db.sessions.rows.length = n + w'.db.sessions.rows.length
  again : ∀ now unlinkFails,
    cleanupExpiredSessions w' now (some cutoff) unlinkFails = (.ok 0, w')

/-! ## The rows -/

theorem listExpiredBefore_length (db : Db) (cutoff : ℤ) :
    (db.listExpiredBefore cutoff).length =
      (db.sessions.rows.filter (Expired cutoff ·.expiresAt)).length := by
  rw [Db.listExpiredBefore, List.length_map, List.length_insertionSort]
  rfl

theorem itemsOf_deleteById {db : Db} {sid sid' : Uuid} (h : sid' ≠ sid) :
    (db.deleteById sid).itemsOf sid' = db.itemsOf sid' := by
  unfold Db.itemsOf Db.deleteById
  cases db.backend with
  | sqlite => rfl
  | postgresql =>
      -- the cascade takes the items of the one session
      congr 1
      simp only [Table.eraseWhere, List.filter_filter]
      refine List.filter_congr fun i _ => ?_
      by_cases hi : i.sessionId = sid'
      · simp [hi, h]
      · simp [hi]

theorem itemsOf_foldl_deleteById {sessions : List TransferSession} {sid : Uuid}
    (h : ∀ s ∈ sessions, s.id ≠ sid) (db : Db) :
    (sessions.foldl (fun db s => db.deleteById s.id) db).itemsOf sid = db.itemsOf sid := by
  induction sessions generalizing db with
  | nil => rfl
  | cons s rest ih =>
      rw [List.foldl_cons, ih (fun t ht => h t (List.mem_cons_of_mem _ ht))]
      exact itemsOf_deleteById (h s List.mem_cons_self).symm

theorem rows_foldl_deleteById (sessions : List TransferSession) (db : Db) :
    (sessions.foldl (fun db s => db.deleteById s.id) db).sessions.rows =
      db.sessions.rows.filter fun m => sessions.all (·.id ≠ m.id) := by
  induction sessions generalizing db with
  | nil => simp
  | cons s rest ih =>
      rw [List.foldl_cons, ih]
      simp only [Db.deleteById, Table.eraseWhere, List.filter_filter]
      refine List.filter_congr fun m _ => ?_
      simp [Bool.and_comm, eq_comm (a := s.id)]

/-- The rows that a sweep does not list. -/
theorem notListed_iff {db : Db} {cutoff : ℤ} {m : TransferSessionModel}
    (hm : m ∈ db.sessions.rows) :
    (∀ s ∈ db.listExpiredBefore cutoff, s.id ≠ m.id) ↔ Expired cutoff m.expiresAt = false := by
  constructor
  · intro h
    by_contra hexpired
    exact h _ (mem_listExpiredBefore.mpr ⟨m, hm, eq_true_of_ne_false hexpired, rfl⟩) rfl
  · rintro h s hs hid
    obtain ⟨m', hm', hexpired, rfl⟩ := mem_listExpiredBefore.mp hs
    rw [Table.eq_of_mem hm' hm hid] at hexpired
    exact absurd (hexpired.symm.trans h) (by decide)

theorem listExpiredBefore_eq_nil {db : Db} {cutoff : ℤ}
    (h : ∀ m ∈ db.sessions.rows, Expired cutoff m.expiresAt = false) :
    db.listExpiredBefore cutoff = [] := by
  apply List.eq_nil_iff_forall_not_mem.mpr
  intro s hs
  obtain ⟨m, hm, hexpired, -⟩ := mem_listExpiredBefore.mp hs
  exact absurd (hexpired.symm.trans (h m hm)) (by decide)

/-! ## The sweep -/

/-- A sweep with nothing to take. -/
theorem cleanupExpiredSessions_of_none {w : World} {cutoff : ℤ}
    (h : ∀ m ∈ w.db.sessions.rows, Expired cutoff m.expiresAt = false) (now : ℤ)
    (unlinkFails : Path → Bool) :
    cleanupExpiredSessions w now (some cutoff) unlinkFails = (.ok 0, w) := by
  simp only [cleanupExpiredSessions, Option.getD_some, listExpiredBefore_eq_nil h, sweepSessions]
  rfl

/-- What a sweep that raises nothing returns. -/
theorem cleanupExpiredSessions_ok {w w' : World} {now : ℤ} {deadline : Option ℤ}
    {unlinkFails : Path → Bool} {n : ℕ}
    (h : cleanupExpiredSessions w now deadline unlinkFails = (.ok n, w')) :
    n = (w.db.listExpiredBefore (deadline.getD now)).length ∧
    w'.db =
      (w.db.listExpiredBefore (deadline.getD now)).foldl (fun db s => db.deleteById s.id) w.db ∧
    ∀ p, w'.files p =
      if ∃ s ∈ w.db.listExpiredBefore (deadline.getD now), ∃ i ∈ s.items, i.storagePath = some p
      then none else w.files p := by
  unfold cleanupExpiredSessions at h
  dsimp only at h
  split at h
  · cases h
  · rename_i db fs hsweep
    obtain ⟨hdb, hfiles⟩ := sweepSessions_ok hsweep
    cases h
    exact ⟨rfl, hdb, hfiles⟩

/-- The path of an item's stored file lies below the directory of its session. -/
theorem storagePath_below {d : Deployment} {s : SessionService.State}
    (hs : SessionService.Reachable d s) {sid : Uuid} {i : TransferItem}
    (hi : i ∈ s.world.db.itemsOf sid) {p : Path} (hp : i.storagePath = some p) :
    d.uploadsDir ++ [sid.str] <+: p := by
  obtain ⟨hrow, hsid⟩ := Db.mem_itemsOf.mp hi
  have hpath := (SessionService.inv_of_reachable hs).consistent.paths i hrow p hp
  rw [hpath, ← hsid]
  exact SessionService.uploads_prefix_itemPath d i

/-- The directories of two sessions share no path. -/
theorem below_inj (d : Deployment) {sid sid' : Uuid} {p : Path}
    (h : d.uploadsDir ++ [sid.str] <+: p) (h' : d.uploadsDir ++ [sid'.str] <+: p) : sid = sid' := by
  obtain ⟨rest, rfl⟩ := h
  obtain ⟨rest', heq⟩ := h'
  rw [List.append_assoc, List.append_assoc] at heq
  exact Uuid.str_injective (List.cons.inj (List.append_cancel_left heq)).1.symm

/-- In every state that serial runs lead to, a sweep that succeeds takes exactly
what is expired at its cutoff. -/
theorem cleanup_expired_sessions_exact {d : Deployment} {s : SessionService.State}
    (hs : SessionService.Reachable d s) {now : ℤ} {deadline : Option ℤ}
    {unlinkFails : Path → Bool} {n : ℕ} {w' : World}
    (h : cleanupExpiredSessions s.world now deadline unlinkFails = (.ok n, w')) :
    SweptExactly d s.world (deadline.getD now) n w' := by
  obtain ⟨rfl, hdb, hfiles⟩ := cleanupExpiredSessions_ok h
  set cutoff := deadline.getD now
  have hrows : w'.db.sessions.rows =
      s.world.db.sessions.rows.filter (!Expired cutoff ·.expiresAt) := by
    rw [hdb, rows_foldl_deleteById]
    refine List.filter_congr fun m hm => ?_
    rw [Bool.eq_iff_iff, List.all_eq_true, Bool.not_eq_true']
    exact (forall₂_congr fun t _ => decide_eq_true_iff).trans (notListed_iff hm)
  have hstays : ∀ m ∈ w'.db.sessions.rows, m ∈ s.world.db.sessions.rows ∧
      ∀ t ∈ s.world.db.listExpiredBefore cutoff, t.id ≠ m.id := by
    intro m hm
    rw [hrows] at hm
    obtain ⟨hm, hfresh⟩ := List.mem_filter.mp hm
    exact ⟨hm, (notListed_iff hm).mpr (by simpa using hfresh)⟩
  -- a file of a listed session lies below another directory
  have hbelow : ∀ m ∈ w'.db.sessions.rows, ∀ p, d.uploadsDir ++ [m.id.str] <+: p →
      w'.files p = s.world.files p := by
    intro m hm p hp
    rw [hfiles p, if_neg]
    rintro ⟨t, ht, i, hi, hpath⟩
    obtain ⟨r, -, -, rfl⟩ := mem_listExpiredBefore.mp ht
    exact (hstays m hm).2 _ ht (below_inj d (storagePath_below hs hi hpath) hp)
  constructor
  · exact hrows
  · intro m hm
    rw [hdb]
    exact itemsOf_foldl_deleteById (hstays m hm).2 _
  · intro m hm hexpired i hi p hp
    rw [hfiles p, if_pos]
    exact ⟨_, mem_listExpiredBefore.mpr ⟨m, hm, hexpired, rfl⟩, i, hi, hp⟩
  · intro m hm i hi p hp
    exact hbelow m hm p (storagePath_below hs hi hp)
  · exact hbelow
  · rw [hrows, listExpiredBefore_length]
    exact List.length_eq_length_filter_add _
  · intro now unlinkFails
    apply cleanupExpiredSessions_of_none
    intro m hm
    exact (notListed_iff (hstays m hm).1).mp (hstays m hm).2

/-- The session of the sample run, swept when its hour is over. -/
def sampleSweep : Outcome ℕ :=
  cleanupExpiredSessions
    ((SessionService.Sample.run SessionService.Sample.uploaded).get
      SessionService.Sample.runs_uploaded).world 7200000000 none fun _ => false

theorem cleanup_expired_sessions_exact_uploaded :
    SweptExactly .default ((SessionService.Sample.run SessionService.Sample.uploaded).get
      SessionService.Sample.runs_uploaded).world 7200000000 1 sampleSweep.2 ∧
    sampleSweep.2.db.sessions.rows = [] := by
  have hcount : sampleSweep.1.toOption = some 1 := by decide +kernel
  have hok : sampleSweep = (.ok 1, sampleSweep.2) := by
    refine Prod.ext ?_ rfl
    cases hresult : sampleSweep.1 with
    | error e =>
        rw [hresult] at hcount
        cases hcount
    | ok n =>
        rw [hresult] at hcount
        exact congrArg Except.ok (Option.some.inj hcount)
  exact ⟨cleanup_expired_sessions_exact
    (SessionService.Sample.reachable_run SessionService.Sample.runs_uploaded) hok,
    by decide +kernel⟩

end CleanupService

end Jumbox
