import Jumbox.Sessions.Isolation
import Jumbox.Sessions.Reclaim
import Jumbox.Sessions.Swept

/-!
# What needs no owner

The calls that check no ownership: a new session, the two look-ups by code, the burn
of a session and the sweep, be it stopped on its way or not. A session that is live
and not the one burned is left alone by all of them.
-/

namespace Jumbox

namespace SessionService

/-- The session has not expired, neither by its status nor, at `now`, by its time. -/
structure Live (now : ℤ) (m : TransferSessionModel) : Prop where
  ahead : m.expiresAt.any (· ≤ now) = false
  status : m.status ≠ .expired

theorem Live.not_past {now : ℤ} {m : TransferSessionModel} (h : Live now m) :
    m.expiresAt.any (· < now) = false := by
  have hahead := h.ahead
  cases hexp : m.expiresAt with
  | none => rfl
  | some t =>
      rw [hexp, Option.any_some, decide_eq_false_iff_not, not_le] at hahead
      rw [Option.any_some, decide_eq_false_iff_not, not_lt]
      exact hahead.le

/-- Another session's row does not count. -/
theorem untouched_putSession (d : Deployment) (w : World) {m' : TransferSessionModel} {sid : Uuid}
    (hne : m'.id ≠ sid) :
    Untouched d sid w (w.withDb { w.db with sessions := w.db.sessions.put m' }) where
  session := putSession_untouched hne
  items _ _ := Iff.rfl
  parts _ _ := rfl
  stored _ _ := rfl

variable {d : Deployment} {w : World} {now : ℤ} {m : TransferSessionModel}

section LookUps

variable (hm : m ∈ w.db.sessions.rows) (hlive : Live now m)

include hm hlive

theorem getSessionByCode_untouched (d : Deployment) (code : Str) :
    Untouched d m.id w (getSessionByCode w now code).2 := by
  unfold getSessionByCode
  cases hget : w.db.getByCode code with
  | none => exact .refl d m.id w
  | some s =>
      obtain ⟨k, hk, -, rfl⟩ := Db.getByCode_eq_some hget
      dsimp only
      split
      · rename_i hpast
        rw [expire_eq]
        apply untouched_putSession d w
        intro hid
        obtain rfl := Table.eq_of_mem hk hm hid
        rw [Db.sessionToDomain, Db.isExpired_loadTimestamp, hlive.not_past] at hpast
        cases hpast
      · exact .refl d m.id w

theorem getSessionItem_untouched (d : Deployment) (code : Str) (itemId : Uuid) :
    Untouched d m.id w (getSessionItem w now code itemId).2 := by
  unfold getSessionItem
  cases hget : w.db.getByCode code with
  | none => exact .refl d m.id w
  | some s =>
      obtain ⟨k, hk, -, rfl⟩ := Db.getByCode_eq_some hget
      dsimp only
      split
      · rename_i hgone
        rw [expire_eq]
        apply untouched_putSession d w
        intro hid
        obtain rfl := Table.eq_of_mem hk hm hid
        rcases hgone with hpast | hexpired
        · rw [Db.sessionToDomain, Db.isExpired_loadTimestamp, hlive.not_past] at hpast
          cases hpast
        · exact hlive.status ((TransferSession.status_eq_sticky (.inl rfl)).mp hexpired)
      · exact .refl d m.id w

end LookUps

theorem createSession_untouched (d : Deployment) (w : World) (now : ℤ) (owner : AuthenticatedUser)
    (secs : ℤ) (burn : Bool) {id sid : Uuid} (hne : id ≠ sid) (draws : ℕ → Fin 9000 × Fin 9000) :
    Untouched d sid w (createSession w now owner secs burn id draws).2 := by
  rcases createSession_cases w now owner secs burn id draws with
    ⟨err, heq⟩ | ⟨s, m, rfl, -, heq⟩
  · rw [heq]
    exact .refl d sid w
  · rw [heq]
    exact untouched_putSession d w hne

theorem burnSession_untouched (d : Deployment) (w : World) {id sid : Uuid} (hne : id ≠ sid)
    (unlinkFails : Path → Bool) : Untouched d sid w (burnSession w id unlinkFails).2 := by
  rcases burnSession_cases w id unlinkFails with ⟨heq, -⟩ | ⟨m, -, rfl, heq⟩
  · rw [heq]
    exact .refl d sid w
  · rw [heq]
    exact untouched_putSession d w hne

/-- Every item that has a storage path has the one of its session and its name. -/
def Placed (d : Deployment) (w : World) : Prop :=
  ∀ i ∈ w.db.items.rows, ∀ p, i.storagePath = some p → p = itemPath d i

/-- A sweep keeps a session that it does not list, and all its files: whatever it
removes lies under the directory of a session that has gone. -/
theorem sweep_untouched (h : Placed d w) (hm : m ∈ w.db.sessions.rows) {deadline : Option ℤ}
    {unlinkFails : Path → Bool}
    (hlisted : CleanupService.Expired (deadline.getD now) m.expiresAt = false)
    (hok : (CleanupService.cleanupExpiredSessions w now deadline unlinkFails).1.isOk = true) :
    Untouched d m.id w (CleanupService.cleanupExpiredSessions w now deadline unlinkFails).2 := by
  obtain ⟨n, db, fs, hswept, heq⟩ := cleanupExpiredSessions_of_isOk hok
  obtain ⟨-, hdb, -⟩ := CleanupService.cleanupExpiredSessions_ok heq
  have hkept : m ∈ db.sessions.rows := by
    have hrows : db.sessions.rows = w.db.sessions.rows.filter fun r =>
        (w.db.listExpiredBefore (deadline.getD now)).all (·.id ≠ r.id) :=
      (congrArg (·.sessions.rows) hdb).trans (CleanupService.rows_foldl_deleteById _ _)
    rw [hrows]
    refine List.mem_filter.mpr ⟨hm, List.all_eq_true.mpr fun s hs => decide_eq_true ?_⟩
    exact (CleanupService.notListed_iff hm).mpr hlisted s hs
  have hfiles : ∀ p, d.tempDir.join m.id.str <+: p ∨ d.uploadsDir.join m.id.str <+: p →
      fs p = w.files p := by
    intro p hp
    rcases hswept.files p with hsame | ⟨-, i, hi, hpath, hgone⟩
    · exact hsame
    · have hother : i.sessionId ≠ m.id := fun hid => hgone m hkept hid.symm
      exact absurd (h i hi p hpath) ((notUnder hother hp).2 i rfl)
  rw [heq]
  refine ⟨?_, ?_, fun p hp => hfiles p (.inl hp), fun p hp => hfiles p (.inr hp)⟩
  · intro r hr
    constructor
    · exact hswept.sessions r
    · intro hmem
      rw [Table.eq_of_mem hmem hm hr]
      exact hkept
  · intro i hi
    exact ⟨hswept.items i, fun hmem => hswept.itemsKept i hmem ⟨m, hkept, hi.symm⟩⟩

/-- What a sweep that is stopped leaves: all rows, and every file but some of sessions
whose time is over. -/
def Stopped (w : World) (now : ℤ) (fs : Files) : Prop :=
  ∀ p, fs p = w.files p ∨ (fs p = none ∧ ∃ m ∈ w.db.sessions.rows,
    CleanupService.Expired now m.expiresAt = true ∧
      ∃ i ∈ w.db.itemsOf m.id, i.storagePath = some p)

theorem stopped_of_error {e : Error} {unlinkFails : Path → Bool} {w' : World}
    (h : CleanupService.cleanupExpiredSessions w now none unlinkFails = (.error e, w')) :
    ∃ fs, w' = w.withFiles fs ∧ Stopped w now fs := by
  simp only [CleanupService.cleanupExpiredSessions, Option.getD_none] at h
  have hrun := CleanupService.sweepSessions_ending unlinkFails (w.db.listExpiredBefore now)
    w.db w.files
  split at h
  · rename_i e' fs hsweep
    obtain ⟨-, rfl⟩ := Prod.mk.inj h
    refine ⟨fs, rfl, fun p => ?_⟩
    rw [hsweep] at hrun
    have hfs : fs = _ := congrArg Prod.snd hrun
    rw [hfs]
    rcases Sweep.run_snd_cases unlinkFails w.files
      (CleanupService.places (w.db.listExpiredBefore now)) p with hsame | ⟨hgone, hlisted⟩
    · exact .inl hsame
    · obtain ⟨s, hs, hpath⟩ := List.mem_flatMap.mp hlisted
      obtain ⟨i, hi, hp⟩ := List.mem_map.mp hpath
      obtain ⟨m, hm, hexpired, rfl⟩ := CleanupService.mem_listExpiredBefore.mp hs
      exact .inr ⟨hgone, m, hm, hexpired, i, hi, hp⟩
  · cases h

theorem Stopped.untouched {fs : Files} (h : Stopped w now fs) (hplaced : Placed d w)
    (hm : m ∈ w.db.sessions.rows) (hahead : CleanupService.Expired now m.expiresAt = false) :
    Untouched d m.id w (w.withFiles fs) := by
  have hfiles : ∀ p, d.tempDir.join m.id.str <+: p ∨ d.uploadsDir.join m.id.str <+: p →
      fs p = w.files p := by
    intro p hp
    rcases h p with hsame | ⟨-, k, hk, hexpired, i, hi, hpath⟩
    · exact hsame
    · obtain ⟨hrow, hsession⟩ := Db.mem_itemsOf.mp hi
      have hother : k.id ≠ m.id := by
        intro hid
        rw [Table.eq_of_mem hk hm hid, hahead] at hexpired
        cases hexpired
      exact absurd (hplaced i hrow p hpath) ((notUnder hother hp).2 i hsession)
  exact ⟨fun _ _ => Iff.rfl, fun _ _ => Iff.rfl, fun p hp => hfiles p (.inl hp),
    fun p hp => hfiles p (.inr hp)⟩

/-! ## What no call changes -/

/-- A step that completes no item leaves paths as they are, or there are none. -/
theorem Effect.placed {w w' : World} {e : Event} (h : Effect d w e w') (hplaced : Placed d w) :
    Placed d w' := by
  have hput : ∀ {k : TransferItem}, (∀ p, k.storagePath = some p → p = itemPath d k) →
      ∀ j ∈ (w.db.items.put k).rows, ∀ p, j.storagePath = some p → p = itemPath d j := by
    intro k hk j hj p hp
    rcases Table.mem_put.mp hj with rfl | ⟨hj, -⟩
    · exact hk p hp
    · exact hplaced j hj p hp
  have hnone : ∀ {k : TransferItem}, k.storagePath = none →
      ∀ p, k.storagePath = some p → p = itemPath d k := by
    intro k hk p hp
    rw [hk] at hp
    cases hp
  have hcompleted : ∀ {k : TransferItem} {data : Bytes}, CompletedWith d k data →
      ∀ p, k.storagePath = some p → p = itemPath d k := by
    intro k data hk p hp
    rw [hk.path] at hp
    exact (Option.some.inj hp).symm
  cases h with
  | unchanged => exact hplaced
  | expired => exact hplaced
  | created => exact hplaced
  | itemAdded _ _ _ _ _ hpath => exact hput (hnone hpath)
  | uploadFailed _ _ _ _ _ hpath => exact hput (hnone hpath)
  | @uploaded m i data _ _ _ _ _ hcomplete =>
      intro j hj p hp
      rcases mem_closed_items.mp hj with rfl | ⟨hj, -⟩
      · exact hcompleted hcomplete p hp
      · exact hplaced j hj p hp
  | @chunkContinued m i c _ hacc => exact hput fun p hp => hplaced i hacc.mem p hp
  | chunkRejected => exact hplaced
  | @chunkFinished m i c t _ hacc =>
      intro j hj p hp
      rcases mem_closed_items.mp hj with rfl | ⟨hj, -⟩
      · exact hcompleted (finishedItem_completedWith d i (appendedBytes d w c)) p hp
      · exact hplaced j hj p hp
  | burned => exact hplaced
  | deleted => exact fun j hj => hplaced j (Db.mem_of_mem_deleteById hj)
  | swept _ hkept => exact fun j hj => hplaced j (hkept.items j hj)

/-- What holds after any calls and any sweeps, also stopped ones. -/
structure Sound (d : Deployment) (s : State) : Prop where
  issued : Issued d s
  placed : Placed d s.world
  accounted : Accounted d s
  transfers : s.world.db.transfers = .empty

theorem Sound.of_reachable {s : State} (h : Reachable d s) : Sound d s :=
  ⟨(inv_of_reachable h).issued, (inv_of_reachable h).consistent.paths,
    accounted_of_reachable h, transfers_of_reachable h⟩

theorem Sound.step {s s' : State} {e : Event} (h : Sound d s)
    (hstep : (system d).step s e = some s') : Sound d s' := by
  refine ⟨h.issued.step hstep, ?_, h.accounted.step h.issued hstep, ?_⟩
  · obtain ⟨htaken, rfl⟩ := system_step.mp hstep
    exact (exec_effect htaken).placed h.placed
  · obtain ⟨-, rfl⟩ := system_step.mp hstep
    exact (exec_transfers d s.world e).trans h.transfers

/-- Files that go leave nothing behind that is not accounted for. -/
theorem Sound.stopped {s : State} {fs : Files} (h : Sound d s)
    (hstopped : Stopped s.world now fs) :
    Sound d { s with world := s.world.withFiles fs } := by
  have hfile : ∀ p, fs p ≠ none → s.world.files p ≠ none := by
    intro p hp
    rcases hstopped p with hsame | ⟨hgone, -⟩
    · exact hsame ▸ hp
    · exact absurd hgone hp
  refine ⟨⟨h.issued.sessions, h.issued.items, h.issued.itemSessions, ?_⟩, h.placed, ?_,
    h.transfers⟩
  · intro sid iid hiid
    by_contra hp
    exact hfile _ hp (h.issued.parts sid iid hiid)
  · intro p hp
    exact h.accounted p (hfile p hp)

/-- No file lies in the temporary directory itself. -/
theorem entry_eq_none {s : State} (h : Accounted d s) (name : Str) :
    s.world.files (d.tempDir ++ [name]) = none := by
  by_contra hfile
  obtain ⟨k, -, hp, -⟩ := h _ hfile
  rcases hp with hpart | hitem
  · exact partPath_ne_entry d _ _ _ hpart.symm
  · obtain ⟨rest, hrest⟩ := uploads_prefix_itemPath d k
    rw [← hitem, List.append_assoc] at hrest
    exact d.temp_ne_uploads _ _ hrest.symm

theorem sweepTempFiles_of_none {tempDir : Path} {fs : Files}
    (h : ∀ name, fs (tempDir ++ [name]) = none) (unlinkFails : Path → Bool) (now maxAge : ℤ)
    (removed : ℕ) (entries : List Str) :
    CleanupService.sweepTempFiles unlinkFails now maxAge tempDir removed fs entries =
      (removed, fs) := by
  induction entries with
  | nil => rfl
  | cons name rest ih =>
      rw [CleanupService.sweepTempFiles, h name]
      exact ih

/-- Where there are only sessions, `cleanup_all` is the sweep of the sessions. -/
theorem cleanupAll_snd {s : State} (hs : Sound d s) (now : ℤ) (entries : List Str)
    (unlinkFails : Path → Bool) :
    (CleanupService.cleanupAll s.world now (some d.tempDir) entries unlinkFails).2 =
      (CleanupService.cleanupExpiredSessions s.world now none unlinkFails).2 := by
  have htransfers := (cleanupExpiredSessions_transfers s.world now none unlinkFails).trans
    hs.transfers
  unfold CleanupService.cleanupAll
  cases hres : (CleanupService.cleanupExpiredSessions s.world now none unlinkFails).1 with
  | error e =>
      rw [show CleanupService.cleanupExpiredSessions s.world now none unlinkFails = (.error e, _)
        from Prod.ext hres rfl]
  | ok n =>
      obtain ⟨n', db, fs, hswept, heq⟩ := cleanupExpiredSessions_of_isOk
        (show (CleanupService.cleanupExpiredSessions s.world now none unlinkFails).1.isOk = true by
          rw [hres]; rfl)
      rw [heq] at htransfers
      have hnone : ∀ name, fs (d.tempDir ++ [name]) = none := by
        intro name
        rcases hswept.files (d.tempDir ++ [name]) with hsame | ⟨hgone, -⟩
        · exact hsame.trans (entry_eq_none hs.accounted name)
        · exact hgone
      simp only [heq, cleanupExpiredTransfers_of_empty htransfers,
        CleanupService.cleanupOrphanedTempFiles]
      rw [show ((s.world.withFiles fs).withDb db).files = fs from rfl,
        sweepTempFiles_of_none hnone]
      rfl

/-- The two rows differ in their status and their count at most. -/
structure SameSession (m r : TransferSessionModel) : Prop where
  id : m.id = r.id
  ownerId : m.ownerId = r.ownerId
  sessionCode : m.sessionCode = r.sessionCode
  expiresAt : m.expiresAt = r.expiresAt
  burnAfterDownload : m.burnAfterDownload = r.burnAfterDownload

theorem SameSession.refl (m : TransferSessionModel) : SameSession m m := ⟨rfl, rfl, rfl, rfl, rfl⟩

/-- Only `create_session` draws an identifier and checks nothing. -/
theorem Call.Unchecked.creates {c : Call} (h : c.Unchecked) {id : Uuid} (hid : c.newId = some id) :
    ∃ owner secs burn draws, c = .createSession owner secs burn id draws := by
  cases c with
  | createSession owner secs burn id' draws =>
      cases hid
      exact ⟨owner, secs, burn, draws, rfl⟩
  | uploadItem => cases h.1
  | initResumableItem => cases h.1
  | _ => cases hid

/-- A session row of the next state was there with the same owner, code, expiry and burn
flag, or the call has just created it. -/
theorem Effect.sessions_same {d : Deployment} {w w' : World} {e : Event} (h : Effect d w e w') :
    ∀ r ∈ w'.db.sessions.rows, (∃ m ∈ w.db.sessions.rows, SameSession m r) ∨
      ∃ owner secs burn draws, e.call = .createSession owner secs burn r.id draws := by
  intro r hr
  have hput : ∀ {m m' : TransferSessionModel}, m ∈ w.db.sessions.rows →
      r ∈ (w.db.sessions.put m').rows → SameSession m m' →
      ∃ m ∈ w.db.sessions.rows, SameSession m r := by
    intro m m' hm hr hsame
    rcases Table.mem_put.mp hr with rfl | ⟨hr, -⟩
    · exact ⟨m, hm, hsame⟩
    · exact ⟨r, hr, .refl r⟩
  cases h with
  | unchanged => exact .inl ⟨r, hr, .refl r⟩
  | expired hm => exact .inl (hput hm hr ⟨rfl, rfl, rfl, rfl, rfl⟩)
  | created hun hid =>
      rcases Table.mem_put.mp hr with rfl | ⟨hr, -⟩
      · exact .inr (hun.creates hid)
      · exact .inl ⟨r, hr, .refl r⟩
  | itemAdded => exact .inl ⟨r, hr, .refl r⟩
  | uploadFailed => exact .inl ⟨r, hr, .refl r⟩
  | uploaded hm => exact .inl (hput hm hr ⟨rfl, rfl, rfl, rfl, rfl⟩)
  | chunkContinued => exact .inl ⟨r, hr, .refl r⟩
  | chunkRejected => exact .inl ⟨r, hr, .refl r⟩
  | chunkFinished _ hacc => exact .inl (hput hacc.session.mem hr ⟨rfl, rfl, rfl, rfl, rfl⟩)
  | burned hm => exact .inl (hput hm hr ⟨rfl, rfl, rfl, rfl, rfl⟩)
  | deleted => exact .inl ⟨r, (Table.mem_eraseWhere.mp hr).1, .refl r⟩
  | swept _ hkept => exact .inl ⟨r, hkept.sessions r hr, .refl r⟩

end SessionService

end Jumbox
