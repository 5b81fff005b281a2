import Jumbox.Sessions.Run
import Jumbox.Sessions.Methods

/-!
# What a call can do

`exec_effect` sums the methods up: a call does one of twelve things to the
world. The invariants of the serial runs are case analyses over these twelve.
-/

namespace Jumbox

namespace SessionService

/-- The session a call checks the ownership of, and for whom. -/
def Call.target : Call → Option (Uuid × AuthenticatedUser)
  | .deleteSession sid owner _ => some (sid, owner)
  | .uploadItem sid owner _ _ _ _ => some (sid, owner)
  | .initResumableItem sid owner _ _ _ _ => some (sid, owner)
  | .getItemOffset sid _ owner => some (sid, owner)
  | .appendItemChunk c => some (c.sessionId, c.owner)
  | _ => none

/-- The call has no ownership check, or `m` has passed it. -/
def Call.Allows (c : Call) (m : TransferSessionModel) : Prop :=
  ∀ t ∈ c.target, m.id = t.1 ∧ (m.ownerId = t.2.userId ∨ t.2.isAdmin = true)

/-- A call without an ownership check that touches sessions none of whose
owners has asked for it. -/
def Call.Unchecked (c : Call) : Prop := c.target = none ∧ ∀ owner n, c ≠ .listMySessions owner n

inductive Effect (d : Deployment) (w : World) (e : Event) : World → Prop where
  | unchanged : Effect d w e w
  | expired {m : TransferSessionModel} (mem : m ∈ w.db.sessions.rows) (allows : e.call.Allows m)
      (asked : e.call.target.isSome ∨ e.call.Unchecked) :
      Effect d w e (w.withDb (w.db.putStatus m .expired))
  | created {m : TransferSessionModel} (unchecked : e.call.Unchecked)
      (id : e.call.newId = some m.id) (status : m.status = .pending) :
      Effect d w e (w.withDb { w.db with sessions := w.db.sessions.put m })
  | itemAdded {m : TransferSessionModel} {i : TransferItem} (mem : m ∈ w.db.sessions.rows)
      (allows : e.call.Allows m) (asked : e.call.target.isSome) (id : e.call.newId = some i.id)
      (sessionId : i.sessionId = m.id) (path : i.storagePath = none)
      (status : i.status ≠ .completed) : Effect d w e (w.withDb (w.db.addItem i))
  | uploadFailed {m : TransferSessionModel} {i : TransferItem} {data : Bytes}
      (mem : m ∈ w.db.sessions.rows) (allows : e.call.Allows m) (asked : e.call.target.isSome)
      (id : e.call.newId = some i.id) (sessionId : i.sessionId = m.id)
      (path : i.storagePath = none) (status : i.status ≠ .completed) :
      Effect d w e ((w.withFiles (w.files.write (itemPath d i) e.now data)).withDb
        (w.db.addItem i))
  | uploaded {m : TransferSessionModel} {i : TransferItem} {data : Bytes}
      (mem : m ∈ w.db.sessions.rows) (allows : e.call.Allows m) (asked : e.call.target.isSome)
      (id : e.call.newId = some i.id) (sessionId : i.sessionId = m.id)
      (complete : CompletedWith d i data) :
      Effect d w e ((w.withFiles (w.files.write (itemPath d i) e.now data)).withDb
        (closed w.db m i))
  | chunkContinued {m : TransferSessionModel} {i : TransferItem} {c : ChunkRequest}
      (call : e.call = .appendItemChunk c) (accepts : Accepts d w e.now c m i)
      (more : reachesEnd i (appendedBytes d w c).length = false) :
      Effect d w e ((w.withFiles (appended d w e.now c)).withDb (w.db.saveItem i.markUploading))
  | chunkRejected {m : TransferSessionModel} {i : TransferItem} {c : ChunkRequest}
      (call : e.call = .appendItemChunk c) (accepts : Accepts d w e.now c m i)
      (last : reachesEnd i (appendedBytes d w c).length = true) :
      Effect d w e (w.withFiles (appended d w e.now c))
  | chunkFinished {m : TransferSessionModel} {i : TransferItem} {c : ChunkRequest} {t : ℤ}
      (call : e.call = .appendItemChunk c) (accepts : Accepts d w e.now c m i)
      (last : reachesEnd i (appendedBytes d w c).length = true) :
      Effect d w e
        ((w.withFiles (published d (appended d w e.now c) i ⟨appendedBytes d w c, t⟩)).withDb
          (closed w.db m (finishedItem d i (appendedBytes d w c))))
  | burned {m : TransferSessionModel} (mem : m ∈ w.db.sessions.rows)
      (unchecked : e.call.Unchecked) :
      Effect d w e (w.withDb { w.db with sessions := w.db.sessions.put (burnedRow m) })
  | deleted {m : TransferSessionModel} {fs : Files} (mem : m ∈ w.db.sessions.rows)
      (allows : e.call.Allows m) (asked : e.call.target.isSome)
      (parts : PartsRemoved d m.id (w.db.itemsOf m.id) w.files fs) :
      Effect d w e ((w.withFiles fs).withDb (w.db.deleteById m.id))
  | swept {db : Db} {fs : Files} (unchecked : e.call.Unchecked) (kept : Swept w db fs) :
      Effect d w e ((w.withFiles fs).withDb db)

theorem TurnedAway.effect {α : Type} {d : Deployment} {w : World} {e : Event} {sid : Uuid}
    {owner : AuthenticatedUser} {o : Outcome α} (h : TurnedAway w sid owner o)
    (htarget : e.call.target = some (sid, owner)) : Effect d w e o.2 := by
  cases h with
  | error err => exact .unchanged
  | @expired m hm hid hallow =>
      have hallows : e.call.Allows m := by
        intro t ht
        rw [htarget] at ht
        cases ht
        exact ⟨hid, hallow⟩
      exact .expired hm hallows (Or.inl (by rw [htarget]; rfl))

theorem OpenFor.allows {w : World} {now : ℤ} {sid : Uuid} {owner : AuthenticatedUser}
    {m : TransferSessionModel} (h : OpenFor w now sid owner m) {c : Call}
    (htarget : c.target = some (sid, owner)) : c.Allows m := by
  intro t ht
  rw [htarget] at ht
  cases ht
  exact ⟨h.id, h.allowed⟩

theorem allows_of_unchecked {c : Call} (h : c.target = none) (m : TransferSessionModel) :
    c.Allows m := by
  intro t ht
  rw [h] at ht
  cases ht

theorem uploadItem_effect (d : Deployment) (w : World) (e : Event) {sid : Uuid}
    {owner : AuthenticatedUser} {name : Str} {content : UploadStream} {size : ℤ} {iid : Uuid}
    (hcall : e.call = .uploadItem sid owner name content size iid) :
    Effect d w e (uploadItem d w e.now sid owner name content size iid).2 := by
  have htarget : e.call.target = some (sid, owner) := by rw [hcall]; rfl
  have hasked : e.call.target.isSome := by rw [htarget]; rfl
  have hid : e.call.newId = some iid := by rw [hcall]; rfl
  rcases uploadItem_cases d w e.now sid owner name content size iid with haway | ⟨m, hm⟩
  · exact haway.effect htarget
  · have hallow := hm.allows htarget
    rw [uploadItem_of_open hm]
    cases content.failure with
    | some message =>
        exact .uploadFailed (i := failedItem d e.now sid iid name size ⟨.osError, message⟩)
          hm.mem hallow hasked hid hm.id.symm rfl nofun
    | none =>
        exact .uploaded (i := uploadedItem d e.now sid iid name size content.content)
          hm.mem hallow hasked hid hm.id.symm (uploadedItem_completedWith _ _ _ _ _ _ _)

theorem appendItemChunk_effect (d : Deployment) (w : World) (e : Event) {c : ChunkRequest}
    (hcall : e.call = .appendItemChunk c) : Effect d w e (appendItemChunk d w e.now c).2 := by
  have htarget : e.call.target = some (c.sessionId, c.owner) := by rw [hcall]; rfl
  rcases appendItemChunk_cases d w e.now c with haway | ⟨m, i, hacc⟩
  · exact haway.effect htarget
  · rcases appendItemChunk_accepted hacc with
      ⟨hmore, heq⟩ | ⟨hlast, err, -, heq⟩ | ⟨hlast, -, t, heq⟩
    · rw [heq]
      exact .chunkContinued hcall hacc hmore
    · rw [heq]
      exact .chunkRejected hcall hacc hlast
    · rw [heq]
      exact .chunkFinished hcall hacc hlast

/-- A sweep that can be taken. -/
theorem Taken.swept {d : Deployment} {s : State} {now : ℤ} {deadline : Option ℤ}
    {unlinkFails : Path → Bool} (h : Taken d s ⟨now, .cleanupExpiredSessions deadline unlinkFails⟩) :
    ∃ n db fs, Swept s.world db fs ∧
      CleanupService.cleanupExpiredSessions s.world now deadline unlinkFails =
        (.ok n, (s.world.withFiles fs).withDb db) := by
  have hok := h.2 rfl
  simp only [exec, respond] at hok
  apply cleanupExpiredSessions_of_isOk
  cases hres : (CleanupService.cleanupExpiredSessions s.world now deadline unlinkFails).1 with
  | error err =>
      rw [hres] at hok
      cases hok
  | ok n => rfl

/-- A call that can be taken does one of the twelve things. -/
theorem exec_effect {d : Deployment} {s : State} {e : Event} (h : Taken d s e) :
    Effect d s.world e (exec d s.world e).2 := by
  obtain ⟨now, call⟩ := e
  cases call with
  | createSession owner secs burn id draws =>
      have hun : (Call.createSession owner secs burn id draws).Unchecked := ⟨rfl, by simp⟩
      rcases createSession_cases s.world now owner secs burn id draws with
        ⟨err, heq⟩ | ⟨r, m, hid, hstatus, heq⟩
      · simp only [exec, respond, heq]
        exact .unchanged
      · simp only [exec, respond, heq]
        exact .created hun (congrArg some hid.symm) hstatus
  | burnSession sid unlinkFails =>
      have hun : (Call.burnSession sid unlinkFails).Unchecked := ⟨rfl, by simp⟩
      rcases burnSession_cases s.world sid unlinkFails with ⟨heq, -⟩ | ⟨m, hm, -, heq⟩
      · simp only [exec, respond, heq]
        exact .unchanged
      · simp only [exec, respond, heq]
        exact .burned hm hun
  | deleteSession sid owner unlinkFails =>
      rcases deleteSession_cases d s.world sid owner unlinkFails with
        ⟨err, heq⟩ | ⟨m, hm, rfl, hallow, fs, hparts, heq⟩
      · simp only [exec, respond, heq]
        exact .unchanged
      · simp only [exec, respond, heq]
        refine .deleted hm ?_ rfl hparts
        rintro t ⟨rfl⟩
        exact ⟨rfl, hallow⟩
  | uploadItem sid owner name content size iid => exact uploadItem_effect d s.world _ rfl
  | getSessionByCode code =>
      have hun : (Call.getSessionByCode code).Unchecked := ⟨rfl, by simp⟩
      rcases getSessionByCode_cases s.world now code with ⟨r, heq⟩ | ⟨r, m, hm, heq⟩
      · simp only [exec, respond, heq]
        exact .unchanged
      · simp only [exec, respond, heq]
        exact .expired hm (allows_of_unchecked rfl m) (Or.inr hun)
  | getSessionById sid => exact .unchanged
  | getSessionItem code iid =>
      have hun : (Call.getSessionItem code iid).Unchecked := ⟨rfl, by simp⟩
      rcases getSessionItem_cases s.world now code iid with
        heq | ⟨m, hm, heq⟩ | ⟨m, i, -, -, -, -, heq⟩
      · simp only [exec, respond, heq]
        exact .unchanged
      · simp only [exec, respond, heq]
        exact .expired hm (allows_of_unchecked rfl m) (Or.inr hun)
      · simp only [exec, respond, heq]
        exact .unchanged
  | listMySessions owner limit => exact .unchanged
  | initResumableItem sid owner name total expected iid =>
      rcases initResumableItem_cases d s.world now sid owner name total expected iid with
        haway | ⟨m, hm⟩
      · exact haway.effect (e := ⟨now, .initResumableItem sid owner name total expected iid⟩) rfl
      · simp only [exec, respond, initResumableItem_of_open hm]
        exact .itemAdded hm.mem (hm.allows rfl) rfl rfl hm.id.symm rfl nofun
  | getItemOffset sid iid owner =>
      rcases getItemOffset_cases d s.world sid iid owner with
        ⟨err, heq⟩ | ⟨m, i, -, -, -, -, -, -, heq⟩
      · simp only [exec, respond, heq]
        exact .unchanged
      · simp only [exec, respond, heq]
        exact .unchanged
  | appendItemChunk c => exact appendItemChunk_effect d s.world _ rfl
  | cleanupExpiredSessions deadline unlinkFails =>
      have hun : (Call.cleanupExpiredSessions deadline unlinkFails).Unchecked := ⟨rfl, by simp⟩
      obtain ⟨n, db, fs, hswept, heq⟩ := h.swept
      simp only [exec, respond, heq]
      exact .swept hun hswept

end SessionService

end Jumbox
