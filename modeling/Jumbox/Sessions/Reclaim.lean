import Jumbox.Sessions.Finality

/-!
# What `cleanup_all` leaves on disk

Every file of the serial runs is a part file or lies where an item would be
stored, and while its session has a row the item has one too. The sweep of the
sessions removes the files that the items name as their storage path, and the
sweep of the temporary directory looks at its immediate entries only. Between
the two fall the file of an upload that failed and every part file.
-/

namespace Jumbox

namespace SessionService

open ChunkStorage (partPath)

/-! ## An account of the files -/

/-- A file that was not there belongs to an item of a session with a row. -/
theorem Effect.files_from {d : Deployment} {w w' : World} {e : Event} (h : Effect d w e w')
    {p : Path} (hno : w.files p = none) (hfile : w'.files p ≠ none) :
    ∃ i ∈ w'.db.items.rows, (∃ m ∈ w.db.sessions.rows, m.id = i.sessionId) ∧
      (p = partPath d i.sessionId i.id ∨ p = itemPath d i) := by
  have hwritten : ∀ {q : Path} {data : Bytes}, w.files.write q e.now data p ≠ none → p = q := by
    intro q data hsome
    by_contra hne
    exact hsome ((Files.write_ne hne).trans hno)
  have happended : ∀ {c : ChunkRequest} {m : TransferSessionModel} {i : TransferItem},
      Accepts d w e.now c m i → appended d w e.now c p ≠ none →
      p = partPath d i.sessionId i.id := by
    intro c m i hacc hsome
    rw [hacc.sessionId, hacc.id]
    by_contra hne
    exact hsome ((appended_ne hne).trans hno)
  cases h with
  | unchanged => exact absurd hno hfile
  | expired => exact absurd hno hfile
  | created => exact absurd hno hfile
  | itemAdded => exact absurd hno hfile
  | @uploadFailed m i data hm _ _ _ hsid =>
      exact ⟨i, Table.mem_put.mpr (Or.inl rfl), ⟨m, hm, hsid.symm⟩, Or.inr (hwritten hfile)⟩
  | @uploaded m i data hm _ _ _ hsid =>
      exact ⟨i, mem_closed_items.mpr (Or.inl rfl), ⟨m, hm, hsid.symm⟩, Or.inr (hwritten hfile)⟩
  | @chunkContinued m i c _ hacc =>
      have hsession := hacc.session.id.trans hacc.sessionId.symm
      exact ⟨i.markUploading, Table.mem_put.mpr (Or.inl rfl), ⟨m, hacc.session.mem, hsession⟩,
        Or.inl (happended (i := i) hacc hfile)⟩
  | @chunkRejected m i c _ hacc =>
      have hsession := hacc.session.id.trans hacc.sessionId.symm
      exact ⟨i, hacc.mem, ⟨m, hacc.session.mem, hsession⟩, Or.inl (happended hacc hfile)⟩
  | @chunkFinished m i c t _ hacc =>
      have hsession := hacc.session.id.trans hacc.sessionId.symm
      refine ⟨_, mem_closed_items.mpr (Or.inl rfl), ⟨m, hacc.session.mem, hsession⟩, ?_⟩
      show p = partPath d i.sessionId i.id ∨ p = itemPath d i
      by_cases hstored : p = itemPath d i
      · exact Or.inr hstored
      by_cases hpart : p = partPath d i.sessionId i.id
      · exact Or.inl hpart
      · refine Or.inl (happended hacc ?_)
        intro hnone
        exact hfile ((published_part hstored hpart).trans hnone)
  | burned => exact absurd hno hfile
  | deleted _ _ _ hparts =>
      rcases hparts p with hsame | ⟨hnone, -⟩
      · exact absurd (hsame.trans hno) hfile
      · exact absurd hnone hfile
  | swept _ hkept =>
      rcases hkept.files p with hsame | ⟨hnone, -⟩
      · exact absurd (hsame.trans hno) hfile
      · exact absurd hnone hfile

/-- Every file is the part file or the stored file of some item `k`, and as long
as the session of `k` has a row, so has `k`, perhaps with other contents. -/
def Accounted (d : Deployment) (s : State) : Prop :=
  ∀ p, s.world.files p ≠ none → ∃ k : TransferItem, k.sessionId ∈ s.uuids ∧
    (p = partPath d k.sessionId k.id ∨ p = itemPath d k) ∧
    ((∃ m ∈ s.world.db.sessions.rows, m.id = k.sessionId) →
      ∃ i ∈ s.world.db.items.rows, i.id = k.id ∧ i.sessionId = k.sessionId ∧
        i.originalName = k.originalName)

theorem Accounted.step {d : Deployment} {s t : State} {e : Event} (hids : Issued d s)
    (h : Accounted d s) (hstep : (system d).step s e = some t) : Accounted d t := by
  obtain ⟨htaken, rfl⟩ := system_step.mp hstep
  have heff := exec_effect htaken
  intro p hfile
  by_cases hno : s.world.files p = none
  · obtain ⟨i, hi, ⟨m, hm, hmid⟩, hp⟩ := heff.files_from hno hfile
    have hissued : i.sessionId ∈ s.uuids := hmid ▸ hids.sessions m hm
    exact ⟨i, List.mem_append_right _ hissued, hp, fun _ => ⟨i, hi, rfl, rfl, rfl⟩⟩
  · obtain ⟨k, hk, hp, hrow⟩ := h p hno
    refine ⟨k, List.mem_append_right _ hk, hp, ?_⟩
    rintro ⟨r, hr, hrid⟩
    -- a session drawn by this call is none that has had files
    have hold : ∃ m ∈ s.world.db.sessions.rows, m.id = k.sessionId := by
      rcases heff.sessions_from r hr with ⟨m, hm, hmid⟩ | hnew
      · exact ⟨m, hm, hmid.trans hrid⟩
      · exact absurd (hrid ▸ hk) (htaken.1 r.id hnew)
    obtain ⟨i, hi, hid, hsid, hname⟩ := hrow hold
    obtain ⟨j, hj, hjid, hjsid, hjname⟩ :=
      heff.items_last hids htaken.1 hi ⟨r, hr, hrid.trans hsid.symm⟩
    exact ⟨j, hj, hjid.trans hid, hjsid.trans hsid, hjname.trans hname⟩

theorem accounted_of_reachable {d : Deployment} {s : State} (h : Reachable d s) :
    Accounted d s := by
  suffices hboth : Inv d s ∧ Accounted d s from hboth.2
  refine System.Reachable.invariant (I := fun s => Inv d s ∧ Accounted d s) ?_ ?_ h
  · intro s hinit
    refine ⟨.initial hinit, ?_⟩
    obtain ⟨backend, rfl⟩ := hinit
    intro p hfile
    exact absurd rfl hfile
  · rintro s e t ⟨hinv, hacc⟩ hstep
    exact ⟨hinv.step hstep, hacc.step hinv.issued hstep⟩

/-- The files below the directory of a session that has a row. -/
theorem Accounted.stored {d : Deployment} {s : State} (h : Accounted d s)
    {m : TransferSessionModel} (hm : m ∈ s.world.db.sessions.rows) {p : Path}
    (hp : d.uploadsDir ++ [m.id.str] <+: p) (hfile : s.world.files p ≠ none) :
    ∃ i ∈ s.world.db.itemsOf m.id, p = itemPath d i := by
  obtain ⟨rest, rfl⟩ := hp
  obtain ⟨k, -, hk, hrow⟩ := h _ hfile
  rcases hk with hpart | hstored
  · rw [ChunkStorage.partPath_eq, List.append_assoc] at hpart
    exact absurd hpart.symm (d.temp_ne_uploads _ _)
  · have hpath := hstored
    rw [itemPath, ChunkStorage.destPath_eq d _ _ (slash_notMem_sanitizeFilename d k.originalName),
      List.append_assoc] at hpath
    have hsid : m.id = k.sessionId :=
      Uuid.str_injective (List.cons.inj (List.append_cancel_left hpath)).1
    obtain ⟨i, hi, hid, hisid, hname⟩ := hrow ⟨m, hm, hsid⟩
    refine ⟨i, Db.mem_itemsOf.mpr ⟨hi, hisid.trans hsid.symm⟩, ?_⟩
    rw [hstored, itemPath, itemPath, hid, hisid, hname]

/-- The part files of a session that has a row. -/
theorem Accounted.part {d : Deployment} {s : State} (h : Accounted d s)
    {m : TransferSessionModel} (hm : m ∈ s.world.db.sessions.rows) {iid : Uuid}
    (hfile : s.world.files (partPath d m.id iid) ≠ none) :
    ∃ i ∈ s.world.db.itemsOf m.id, i.id = iid := by
  obtain ⟨k, -, hk, hrow⟩ := h _ hfile
  rcases hk with hpart | hstored
  · obtain ⟨hsid, hid⟩ := ChunkStorage.partPath_inj d hpart
    obtain ⟨i, hi, hiid, hisid, -⟩ := hrow ⟨m, hm, hsid⟩
    exact ⟨i, Db.mem_itemsOf.mpr ⟨hi, hisid.trans hsid.symm⟩, hiid.trans hid.symm⟩
  · exact absurd hstored (partPath_ne_itemPath d _ _ k)

/-! ## No transfers -/

theorem TurnedAway.transfers {α : Type} {w : World} {sid : Uuid} {owner : AuthenticatedUser}
    {o : Outcome α} (h : TurnedAway w sid owner o) : o.2.db.transfers = w.db.transfers := by
  cases h with
  | error err => rfl
  | expired => rfl

theorem appendItemChunk_transfers (d : Deployment) (w : World) (now : ℤ) (c : ChunkRequest) :
    (appendItemChunk d w now c).2.db.transfers = w.db.transfers := by
  rcases appendItemChunk_cases d w now c with haway | ⟨m, i, hacc⟩
  · exact haway.transfers
  · rcases appendItemChunk_accepted hacc with ⟨-, heq⟩ | ⟨-, err, -, heq⟩ | ⟨-, -, t, heq⟩
    · rw [heq]
      rfl
    · rw [heq]
      rfl
    · rw [heq]
      rfl

theorem cleanupExpiredSessions_transfers (w : World) (now : ℤ) (deadline : Option ℤ)
    (unlinkFails : Path → Bool) :
    (CleanupService.cleanupExpiredSessions w now deadline unlinkFails).2.db.transfers =
      w.db.transfers := by
  unfold CleanupService.cleanupExpiredSessions
  dsimp only
  split
  · rfl
  · rename_i db fs hsweep
    obtain ⟨rfl, -⟩ := CleanupService.sweepSessions_ok hsweep
    exact CleanupService.foldl_deleteById_transfers _ _

/-- No method of the service writes the table of the transfers. -/
theorem exec_transfers (d : Deployment) (w : World) (e : Event) :
    (exec d w e).2.db.transfers = w.db.transfers := by
  obtain ⟨now, call⟩ := e
  cases call with
  | createSession owner secs burn id draws =>
      rcases createSession_cases w now owner secs burn id draws with ⟨err, heq⟩ | ⟨_, _, -, -, heq⟩
      · simp only [exec, respond, heq]
      · simp only [exec, respond, heq, World.withDb_db]
  | burnSession sid unlinkFails =>
      rcases burnSession_cases w sid unlinkFails with ⟨heq, -⟩ | ⟨m, -, -, heq⟩
      · simp only [exec, respond, heq]
      · simp only [exec, respond, heq, World.withDb_db]
  | deleteSession sid owner unlinkFails =>
      rcases deleteSession_cases d w sid owner unlinkFails with ⟨err, heq⟩ | ⟨m, -, -, -, fs, -, heq⟩
      · simp only [exec, respond, heq]
      · simp only [exec, respond, heq]
        rfl
  | uploadItem sid owner name content size iid =>
      rcases uploadItem_cases d w now sid owner name content size iid with haway | ⟨m, hm⟩
      · exact haway.transfers
      · simp only [exec, respond, uploadItem_of_open hm]
        cases content.failure <;> rfl
  | getSessionByCode code =>
      rcases getSessionByCode_cases w now code with ⟨r, heq⟩ | ⟨r, m, -, heq⟩
      · simp only [exec, respond, heq]
      · simp only [exec, respond, heq]
        rfl
  | getSessionById sid => rfl
  | getSessionItem code iid =>
      rcases getSessionItem_cases w now code iid with heq | ⟨m, -, heq⟩ | ⟨m, i, -, -, -, -, heq⟩
      · simp only [exec, respond, heq]
      · simp only [exec, respond, heq]
        rfl
      · simp only [exec, respond, heq]
  | listMySessions owner limit => rfl
  | initResumableItem sid owner name total expected iid =>
      rcases initResumableItem_cases d w now sid owner name total expected iid with
        haway | ⟨m, hm⟩
      · exact haway.transfers
      · simp only [exec, respond, initResumableItem_of_open hm]
        rfl
  | getItemOffset sid iid owner =>
      rcases getItemOffset_cases d w sid iid owner with ⟨err, heq⟩ | ⟨_, _, -, -, -, -, -, -, heq⟩
      · simp only [exec, respond, heq]
      · simp only [exec, respond, heq]
  | appendItemChunk c => exact appendItemChunk_transfers d w now c
  | cleanupExpiredSessions deadline unlinkFails =>
      exact cleanupExpiredSessions_transfers w now deadline unlinkFails

theorem transfers_of_reachable {d : Deployment} {s : State} (h : Reachable d s) :
    s.world.db.transfers = .empty := by
  refine System.Reachable.invariant (I := fun s => s.world.db.transfers = .empty) ?_ ?_ h
  · rintro s ⟨backend, rfl⟩
    rfl
  · intro s e t hempty hstep
    obtain ⟨-, rfl⟩ := system_step.mp hstep
    exact (exec_transfers d s.world e).trans hempty

/-! ## The sweeps together -/

theorem cleanupExpiredTransfers_of_empty {w : World} (h : w.db.transfers = .empty) (now : ℤ)
    (deadline : Option ℤ) (unlinkFails : Path → Bool) :
    CleanupService.cleanupExpiredTransfers w now deadline unlinkFails = (.ok 0, w) := by
  have hnone : ∀ cutoff, w.db.listTransfersExpiredBefore cutoff = [] := by
    intro cutoff
    rw [Db.listTransfersExpiredBefore, h]
    rfl
  rw [CleanupService.cleanupExpiredTransfers]
  simp only [hnone, CleanupService.sweepTransfers]
  rfl

/-- With no file refused the sweep of the sessions takes the files that the items
of a listed session name. -/
theorem cleanupExpiredSessions_files (w : World) (now : ℤ) :
    ∃ n w', CleanupService.cleanupExpiredSessions w now none (fun _ => false) = (.ok n, w') ∧
      ∀ p, w'.files p =
        if ∃ m ∈ w.db.sessions.rows, m.expiresAt.any (· ≤ now) = true ∧
            ∃ i ∈ w.db.itemsOf m.id, i.storagePath = some p then none
        else w.files p := by
  obtain ⟨⟨db, fs⟩, hsweep⟩ :=
    CleanupService.sweepSessions_of_not_refused (w.db.listExpiredBefore now) w.db w.files
  refine ⟨(w.db.listExpiredBefore now).length, (w.withFiles fs).withDb db, ?_, ?_⟩
  · simp only [CleanupService.cleanupExpiredSessions, Option.getD_none, hsweep]
  · intro p
    show (db, fs).2 p = _
    rw [(CleanupService.sweepSessions_ok hsweep).2 p]
    apply if_congr _ rfl rfl
    constructor
    · rintro ⟨s, hs, i, hi, hp⟩
      obtain ⟨m, hm, hexp, rfl⟩ := CleanupService.mem_listExpiredBefore.mp hs
      exact ⟨m, hm, hexp, i, hi, hp⟩
    · rintro ⟨m, hm, hexp, i, hi, hp⟩
      exact ⟨_, CleanupService.mem_listExpiredBefore.mpr ⟨m, hm, hexp, rfl⟩, i, hi, hp⟩

/-- What `cleanup_all` does to a file that does not lie in the temporary
directory itself. -/
theorem cleanupAll_files {d : Deployment} {s : State} (hs : Reachable d s) (now : ℤ)
    (entries : List Str) :
    (CleanupService.cleanupAll s.world now (some d.tempDir) entries fun _ => false).1.isOk = true ∧
    ∀ p, (∀ name, p ≠ d.tempDir ++ [name]) →
      (CleanupService.cleanupAll s.world now (some d.tempDir) entries fun _ => false).2.files p =
        if ∃ m ∈ s.world.db.sessions.rows, m.expiresAt.any (· ≤ now) = true ∧
            ∃ i ∈ s.world.db.itemsOf m.id, i.storagePath = some p then none
        else s.world.files p := by
  obtain ⟨n, w', heq, hfiles⟩ := cleanupExpiredSessions_files s.world now
  have hempty : w'.db.transfers = .empty := by
    have hsame := cleanupExpiredSessions_transfers s.world now none fun _ => false
    rw [heq] at hsame
    exact hsame.trans (transfers_of_reachable hs)
  simp only [CleanupService.cleanupAll, heq, cleanupExpiredTransfers_of_empty hempty]
  refine ⟨rfl, ?_⟩
  intro p hp
  rw [← hfiles p]
  exact CleanupService.sweepTempFiles_ne _ _ _ hp _ _ _

/-! ## What is reclaimed -/

/-- Nothing that was written for the session is left, but for part files younger
than an hour. -/
structure Reclaimed (d : Deployment) (w : World) (now : ℤ) (sessionId : Uuid) : Prop where
  uploads : ∀ p, d.uploadsDir ++ [sessionId.str] <+: p → w.files p = none
  parts : ∀ itemId f, w.files (partPath d sessionId itemId) = some f →
    now - f.mtime < 3600 * 1000000

theorem partPath_ne_entry (d : Deployment) (sid iid : Uuid) (name : Str) :
    partPath d sid iid ≠ d.tempDir ++ [name] := by
  rw [ChunkStorage.partPath_eq]
  intro heq
  have hlength := congrArg List.length (List.append_cancel_left heq)
  simp at hlength

theorem uploads_prefix_itemPath (d : Deployment) (i : TransferItem) :
    d.uploadsDir ++ [i.sessionId.str] <+: itemPath d i := by
  rw [itemPath, ChunkStorage.destPath_eq d _ _ (slash_notMem_sanitizeFilename d i.originalName)]
  exact ⟨[i.id.str ++ '_' :: sanitizeFilename d i.originalName], by simp⟩

/-- The sweep succeeds, and reclaims everything an expired session wrote exactly
if no item without a storage path has a file and no part file is an hour old. -/
theorem cleanup_all_reclaims_iff {d : Deployment} {s : State} (hs : Reachable d s)
    {m : TransferSessionModel} (hm : m ∈ s.world.db.sessions.rows) {now : ℤ}
    (hexpired : m.expiresAt.any (· ≤ now) = true) (entries : List Str) :
    (CleanupService.cleanupAll s.world now (some d.tempDir) entries fun _ => false).1.isOk = true ∧
    (Reclaimed d
        (CleanupService.cleanupAll s.world now (some d.tempDir) entries fun _ => false).2 now m.id ↔
      ∀ i ∈ s.world.db.itemsOf m.id,
        (i.storagePath = none → s.world.files (itemPath d i) = none) ∧
        ∀ f, s.world.files (partPath d m.id i.id) = some f → now - f.mtime < 3600 * 1000000) := by
  have hacc := accounted_of_reachable hs
  have hcons := (inv_of_reachable hs).consistent
  obtain ⟨hok, hfiles⟩ := cleanupAll_files hs now entries
  refine ⟨hok, ?_⟩
  generalize (CleanupService.cleanupAll s.world now (some d.tempDir) entries fun _ => false).2 = w
    at hfiles
  have hparts : ∀ iid, w.files (partPath d m.id iid) = s.world.files (partPath d m.id iid) := by
    intro iid
    rw [hfiles _ (partPath_ne_entry d m.id iid), if_neg]
    rintro ⟨_, -, -, i, hi, hp⟩
    have hpath := hcons.paths i (Db.mem_itemsOf.mp hi).1 _ hp
    exact partPath_ne_itemPath d _ _ i hpath
  have hnot : ∀ {p}, d.uploadsDir ++ [m.id.str] <+: p → ∀ name, p ≠ d.tempDir ++ [name] := by
    rintro p ⟨rest, rfl⟩ name heq
    rw [List.append_assoc] at heq
    exact d.temp_ne_uploads _ _ heq.symm
  constructor
  · intro hreclaimed i hi
    obtain ⟨-, hsid⟩ := Db.mem_itemsOf.mp hi
    constructor
    · intro hnone
      have hbelow : d.uploadsDir ++ [m.id.str] <+: itemPath d i := hsid ▸ uploads_prefix_itemPath d i
      have hgone := hreclaimed.uploads _ hbelow
      rw [hfiles _ (hnot hbelow), if_neg] at hgone
      · exact hgone
      · -- the path names its item, and that item has no storage path
        rintro ⟨_, -, -, j, hj, hp⟩
        have hpath := hcons.paths j (Db.mem_itemsOf.mp hj).1 _ hp
        have hid := (itemPath_inj hpath).2
        have hsame := Table.eq_of_mem (Db.mem_itemsOf.mp hj).1 (Db.mem_itemsOf.mp hi).1 hid.symm
        rw [hsame, hnone] at hp
        cases hp
    · intro f hf
      exact hreclaimed.parts i.id f ((hparts i.id).trans hf)
  · intro hcond
    constructor
    · intro p hp
      rw [hfiles p (hnot hp)]
      split
      · rfl
      · rename_i hkept
        by_contra hfile
        obtain ⟨i, hi, rfl⟩ := hacc.stored hm hp hfile
        cases hstored : i.storagePath with
        | none => exact hfile ((hcond i hi).1 hstored)
        | some q =>
            have hq := hcons.paths i (Db.mem_itemsOf.mp hi).1 q hstored
            exact hkept ⟨m, hm, hexpired, i, hi, hq ▸ hstored⟩
    · intro iid f hf
      rw [hparts] at hf
      obtain ⟨i, hi, rfl⟩ := hacc.part hm (by rw [hf]; exact nofun)
      exact (hcond i hi).2 f hf

namespace Sample

/-- An upload that is abandoned after its first chunk. -/
def abandoned : List Event := [create false, init 5, append [1] 0]

theorem runs_abandoned : (run abandoned).isSome = true := by decide +kernel

end Sample

theorem cleanup_all_reclaims_uploaded :
    ∃ m ∈ ((Sample.run Sample.uploaded).get Sample.runs_uploaded).world.db.sessions.rows,
      Reclaimed .default (CleanupService.cleanupAll
        ((Sample.run Sample.uploaded).get Sample.runs_uploaded).world 7200000000
        (some Deployment.default.tempDir) [] fun _ => false).2 7200000000 m.id := by
  have hrow : ∃ m ∈ ((Sample.run Sample.uploaded).get Sample.runs_uploaded).world.db.sessions.rows,
      m.expiresAt.any (· ≤ 7200000000) = true := by decide +kernel
  obtain ⟨m, hm, hexpired⟩ := hrow
  refine ⟨m, hm, (cleanup_all_reclaims_iff (Sample.reachable_run Sample.runs_uploaded) hm hexpired
    []).2.mpr ?_⟩
  intro i hi
  have hrow := (Db.mem_itemsOf.mp hi).1
  clear hi
  have hstored : i.storagePath ≠ none := by
    revert i
    decide +kernel
  refine ⟨fun h => absurd h hstored, fun f hf => ?_⟩
  have hpart : ((Sample.run Sample.uploaded).get Sample.runs_uploaded).world.files
      (partPath .default m.id i.id) = none := by
    clear hexpired hf hstored
    revert m i
    decide +kernel
  rw [hpart] at hf
  cases hf

/-- The part file of the abandoned upload lies in a directory of its own. -/
theorem cleanup_all_leaves_part :
    ¬ ∀ (d : Deployment) (s : State), Reachable d s → ∀ m ∈ s.world.db.sessions.rows,
      ∀ now, m.expiresAt.any (· ≤ now) = true → ∀ entries, Reclaimed d
        (CleanupService.cleanupAll s.world now (some d.tempDir) entries fun _ => false).2 now m.id := by
  intro h
  have hrow : ∃ m ∈ ((Sample.run Sample.abandoned).get Sample.runs_abandoned).world.db.sessions.rows,
      m.id = Sample.sessionId ∧ m.expiresAt.any (· ≤ 7200000000) = true := by decide +kernel
  obtain ⟨m, hm, hid, hexpired⟩ := hrow
  have hreclaimed := h .default _ (Sample.reachable_run Sample.runs_abandoned) m hm _ hexpired
    [Sample.sessionId.str]
  have hpart : ((CleanupService.cleanupAll
      ((Sample.run Sample.abandoned).get Sample.runs_abandoned).world 7200000000
      (some Deployment.default.tempDir) [Sample.sessionId.str] fun _ => false).2.files
        (partPath .default Sample.sessionId Sample.itemId)) = some ⟨[1], 2⟩ := by
    decide +kernel
  have hyoung := hreclaimed.parts Sample.itemId ⟨[1], 2⟩ (hid ▸ hpart)
  revert hyoung
  decide

end SessionService

end Jumbox
