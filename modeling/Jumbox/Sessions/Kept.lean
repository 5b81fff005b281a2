import Jumbox.Sessions.Download
import Jumbox.Sessions.Finality
import Jumbox.Sessions.ShareCodes
import Jumbox.Sessions.Visitors

/-!
# What the sessions keep

A call leaves the name of an item, the file of a stored item and the code of a session
as they are, as long as the session is there and the call is no chunk for the item. The
codes stay unique and generated, so that in every reachable state a session is found
under its code.
-/

namespace Jumbox

namespace SessionService

open ChunkStorage (partPath)

variable {d : Deployment}

/-! ## Items -/

/-- The two rows differ in what an upload writes at most. -/
structure SameItem (i j : TransferItem) : Prop where
  id : i.id = j.id
  sessionId : i.sessionId = j.sessionId
  originalName : i.originalName = j.originalName

theorem SameItem.refl (i : TransferItem) : SameItem i i := ⟨rfl, rfl, rfl⟩

/-- An item row of the next state was there under its name, or the call has just drawn
it. -/
theorem Effect.items_same {w w' : World} {e : Event} (h : Effect d w e w') :
    ∀ j ∈ w'.db.items.rows,
      (∃ i ∈ w.db.items.rows, SameItem i j) ∨ e.call.newId = some j.id := by
  intro j hj
  have hput : ∀ {i i' : TransferItem}, i ∈ w.db.items.rows → j ∈ (w.db.items.put i').rows →
      SameItem i i' → ∃ i ∈ w.db.items.rows, SameItem i j := by
    intro i i' hi hj hsame
    rcases Table.mem_put.mp hj with rfl | ⟨hj, -⟩
    · exact ⟨i, hi, hsame⟩
    · exact ⟨j, hj, .refl j⟩
  have hnew : ∀ i : TransferItem, e.call.newId = some i.id → j ∈ (w.db.items.put i).rows →
      (∃ i ∈ w.db.items.rows, SameItem i j) ∨ e.call.newId = some j.id := by
    intro i hid hj
    rcases Table.mem_put.mp hj with rfl | ⟨hj, -⟩
    · exact .inr hid
    · exact .inl ⟨j, hj, .refl j⟩
  cases h with
  | unchanged => exact .inl ⟨j, hj, .refl j⟩
  | expired => exact .inl ⟨j, hj, .refl j⟩
  | created => exact .inl ⟨j, hj, .refl j⟩
  | itemAdded _ _ _ hid => exact hnew _ hid hj
  | uploadFailed _ _ _ hid => exact hnew _ hid hj
  | uploaded _ _ _ hid => exact hnew _ hid hj
  | chunkContinued _ hacc => exact .inl (hput hacc.mem hj ⟨rfl, rfl, rfl⟩)
  | chunkRejected => exact .inl ⟨j, hj, .refl j⟩
  | chunkFinished _ hacc => exact .inl (hput hacc.mem hj ⟨rfl, rfl, rfl⟩)
  | burned => exact .inl ⟨j, hj, .refl j⟩
  | deleted => exact .inl ⟨j, Db.mem_of_mem_deleteById hj, .refl j⟩
  | swept _ hkept => exact .inl ⟨j, hkept.items j hj, .refl j⟩

/-- A row with an identifier that had been issued was there. -/
theorem item_before {s s' : State} {e : Event} (hstep : (system d).step s e = some s')
    {j : TransferItem} (hj : j ∈ s'.world.db.items.rows) (hissued : j.id ∈ s.uuids) :
    ∃ i ∈ s.world.db.items.rows, SameItem i j := by
  obtain ⟨htaken, rfl⟩ := system_step.mp hstep
  rcases (exec_effect htaken).items_same j hj with hsame | hnew
  · exact hsame
  · exact absurd hissued (htaken.1 j.id hnew)

theorem session_before {s s' : State} {e : Event} (hstep : (system d).step s e = some s')
    {r : TransferSessionModel} (hr : r ∈ s'.world.db.sessions.rows) (hissued : r.id ∈ s.uuids) :
    ∃ m ∈ s.world.db.sessions.rows, SameSession m r := by
  obtain ⟨htaken, rfl⟩ := system_step.mp hstep
  rcases (exec_effect htaken).sessions_same r hr with hsame | ⟨owner, secs, burn, draws, hcreate⟩
  · exact hsame
  · exact absurd hissued (htaken.1 r.id (by rw [hcreate]; rfl))

/-- The file of a stored item stays, as long as its session does. -/
theorem Effect.stored_kept {s : State} {e : Event} {w' : World} (hinv : Inv d s)
    (hfresh : ∀ id ∈ e.call.newId, id ∉ s.uuids) (heff : Effect d s.world e w')
    {i : TransferItem} (hi : i ∈ s.world.db.items.rows) {p : Path} (hp : i.storagePath = some p)
    (hother : ∀ c, e.call = .appendItemChunk c → c.itemId ≠ i.id)
    (hsession : ∃ m ∈ w'.db.sessions.rows, m.id = i.sessionId) :
    w'.files p = s.world.files p := by
  have hpath := hinv.consistent.paths i hi p hp
  subst hpath
  have hwrite : ∀ {k : TransferItem} {data : Bytes}, e.call.newId = some k.id →
      s.world.files.write (itemPath d k) e.now data (itemPath d i) =
        s.world.files (itemPath d i) := by
    intro k data hk
    refine Files.write_ne fun heq => ?_
    exact hfresh k.id hk ((itemPath_inj heq).2 ▸ hinv.issued.items i hi)
  have happended : ∀ c : ChunkRequest,
      appended d s.world e.now c (itemPath d i) = s.world.files (itemPath d i) := by
    intro c
    exact appended_ne (partPath_ne_itemPath d _ _ i).symm
  cases heff with
  | unchanged => rfl
  | expired => rfl
  | created => rfl
  | itemAdded => rfl
  | uploadFailed _ _ _ hid => exact hwrite hid
  | uploaded _ _ _ hid => exact hwrite hid
  | chunkContinued => exact happended _
  | chunkRejected => exact happended _
  | @chunkFinished m k c t hcall hacc =>
      refine (published_part ?_ (partPath_ne_itemPath d _ _ i).symm).trans (happended c)
      exact fun heq => hother c hcall (hacc.id.symm.trans (itemPath_inj heq).2.symm)
  | burned => rfl
  | deleted _ _ _ hparts =>
      rcases hparts (itemPath d i) with heq | ⟨-, j, -, heq⟩
      · exact heq
      · exact absurd heq.symm (partPath_ne_itemPath d _ _ i)
  | swept _ hkept =>
      rcases hkept.files (itemPath d i) with heq | ⟨-, j, hj, hpath, hgone⟩
      · exact heq
      · obtain ⟨m, hm, hid⟩ := hsession
        have hsame := (itemPath_inj (hinv.consistent.paths j hj _ hpath)).1
        exact absurd (hid.trans hsame) (hgone m hm)

/-- A call that neither creates the item nor completes it leaves its file or removes it. -/
theorem Effect.stored_or_gone {w w' : World} {e : Event} (heff : Effect d w e w')
    {i : TransferItem} (hnew : e.call.newId ≠ some i.id)
    (hother : ∀ c m k, e.call = .appendItemChunk c → Accepts d w e.now c m k → k.id ≠ i.id) :
    w'.files (itemPath d i) = w.files (itemPath d i) ∨ w'.files (itemPath d i) = none := by
  have hwrite : ∀ {k : TransferItem} {data : Bytes}, e.call.newId = some k.id →
      w.files.write (itemPath d k) e.now data (itemPath d i) = w.files (itemPath d i) := by
    intro k data hk
    refine Files.write_ne fun heq => hnew ?_
    rw [hk, (itemPath_inj heq).2]
  have happended : ∀ c : ChunkRequest,
      appended d w e.now c (itemPath d i) = w.files (itemPath d i) :=
    fun c => appended_ne (partPath_ne_itemPath d _ _ i).symm
  cases heff with
  | unchanged => exact .inl rfl
  | expired => exact .inl rfl
  | created => exact .inl rfl
  | itemAdded => exact .inl rfl
  | uploadFailed _ _ _ hid => exact .inl (hwrite hid)
  | uploaded _ _ _ hid => exact .inl (hwrite hid)
  | chunkContinued => exact .inl (happended _)
  | chunkRejected => exact .inl (happended _)
  | @chunkFinished m k c t hcall hacc =>
      refine .inl ((published_part ?_ (partPath_ne_itemPath d _ _ i).symm).trans (happended c))
      exact fun heq => hother c m k hcall hacc (itemPath_inj heq).2.symm
  | burned => exact .inl rfl
  | deleted _ _ _ hparts => exact (hparts (itemPath d i)).imp_right And.left
  | swept _ hkept => exact (hkept.files (itemPath d i)).imp_right And.left

/-- A row of the next state with an identifier that had been issued was there as it is,
unless the call is a chunk for it. -/
theorem Effect.items_unchanged {w w' : World} {e : Event} (h : Effect d w e w')
    {j : TransferItem} (hj : j ∈ w'.db.items.rows) (hnew : e.call.newId ≠ some j.id)
    (hother : ∀ c, e.call = .appendItemChunk c → c.itemId ≠ j.id) : j ∈ w.db.items.rows := by
  have hput : ∀ {i : TransferItem}, j ∈ (w.db.items.put i).rows → i.id ≠ j.id →
      j ∈ w.db.items.rows := by
    intro i hj hne
    rcases Table.mem_put.mp hj with rfl | ⟨hj, -⟩
    · exact absurd rfl hne
    · exact hj
  have hdrawn : ∀ {i : TransferItem}, e.call.newId = some i.id → i.id ≠ j.id :=
    fun hid heq => hnew (hid.trans (congrArg some heq))
  cases h with
  | unchanged => exact hj
  | expired => exact hj
  | created => exact hj
  | itemAdded _ _ _ hid => exact hput hj (hdrawn hid)
  | uploadFailed _ _ _ hid => exact hput hj (hdrawn hid)
  | uploaded _ _ _ hid => exact hput hj (hdrawn hid)
  | chunkContinued hcall hacc => exact hput hj fun heq => hother _ hcall (hacc.id.symm.trans heq)
  | chunkRejected => exact hj
  | chunkFinished hcall hacc => exact hput hj fun heq => hother _ hcall (hacc.id.symm.trans heq)
  | burned => exact hj
  | deleted => exact Db.mem_of_mem_deleteById hj
  | swept _ hkept => exact hkept.items j hj

/-! ## Codes -/

/-- No two sessions share a code, and all codes are of the generator's making. -/
structure CodesUnique (w : World) : Prop where
  generated : ∀ m ∈ w.db.sessions.rows, ∃ draw, m.sessionCode = generateSessionCode draw
  unique : ∀ m ∈ w.db.sessions.rows, ∀ r ∈ w.db.sessions.rows, m.sessionCode = r.sessionCode →
    m = r

theorem drawSessionCode_generated (db : Db) (draws : ℕ → Fin 9000 × Fin 9000) (n k : ℕ) {code : Str}
    (h : ∃ draw, code = generateSessionCode draw) :
    ∃ draw, drawSessionCode db draws n k code = generateSessionCode draw := by
  induction n generalizing k code with
  | zero => exact h
  | succ n ih =>
      unfold drawSessionCode
      cases db.getByCode code with
      | none => exact h
      | some s => exact ih (k + 1) ⟨_, rfl⟩

/-- A new session has the code it is answered with, which no session has had. -/
theorem createSession_ok {w w' : World} {now : ℤ} {owner : AuthenticatedUser} {secs : ℤ}
    {burn : Bool} {id : Uuid} {draws : ℕ → Fin 9000 × Fin 9000} {s : TransferSession}
    (h : createSession w now owner secs burn id draws = (.ok s, w')) :
    s.id = id ∧ (∃ draw, s.sessionCode = generateSessionCode draw) ∧
      (∀ m ∈ w.db.sessions.rows, m.sessionCode ≠ s.sessionCode) ∧
      w' = w.withDb { w.db with sessions := w.db.sessions.put (Db.sessionToModel s) } := by
  unfold createSession at h
  dsimp only at h
  generalize (if 0 < secs then (addSeconds now secs).map some else .ok none) = expiresAt at h
  cases expiresAt with
  | error err => cases h
  | ok expiresAt =>
      dsimp only at h
      unfold Db.add at h
      split at h
      · cases h
      · rename_i hadd
        split at hadd
        · cases hadd
        · rename_i hfree
          cases hadd
          cases h
          refine ⟨rfl, drawSessionCode_generated _ _ _ _ ⟨_, rfl⟩, ?_, rfl⟩
          intro m hm hcode
          exact hfree (List.any_eq_true.mpr ⟨m, hm, decide_eq_true hcode⟩)

theorem CodesUnique.of_same {w w' : World} (h : CodesUnique w)
    (hsame : ∀ r ∈ w'.db.sessions.rows, ∃ m ∈ w.db.sessions.rows, SameSession m r) :
    CodesUnique w' := by
  constructor
  · intro r hr
    obtain ⟨m, hm, hmr⟩ := hsame r hr
    obtain ⟨draw, hdraw⟩ := h.generated m hm
    exact ⟨draw, hmr.sessionCode.symm.trans hdraw⟩
  · intro r hr r' hr' hcode
    obtain ⟨m, hm, hmr⟩ := hsame r hr
    obtain ⟨m', hm', hmr'⟩ := hsame r' hr'
    have hmm : m = m' :=
      h.unique m hm m' hm' (hmr.sessionCode.trans (hcode.trans hmr'.sessionCode.symm))
    exact Table.eq_of_mem hr hr' (hmr.id.symm.trans ((congrArg _ hmm).trans hmr'.id))

theorem CodesUnique.create {w : World} (h : CodesUnique w) {m : TransferSessionModel}
    (hcode : ∃ draw, m.sessionCode = generateSessionCode draw)
    (hfree : ∀ r ∈ w.db.sessions.rows, r.sessionCode ≠ m.sessionCode) :
    CodesUnique (w.withDb { w.db with sessions := w.db.sessions.put m }) := by
  constructor
  · intro r hr
    rcases Table.mem_put.mp hr with rfl | ⟨hr, -⟩
    · exact hcode
    · exact h.generated r hr
  · intro r hr r' hr' heq
    rcases Table.mem_put.mp hr with rfl | ⟨hold, -⟩
    · rcases Table.mem_put.mp hr' with rfl | ⟨hold', -⟩
      · rfl
      · exact absurd heq.symm (hfree r' hold')
    · rcases Table.mem_put.mp hr' with rfl | ⟨hold', -⟩
      · exact absurd heq (hfree r hold)
      · exact h.unique r hold r' hold' heq

theorem CodesUnique.step {s s' : State} {e : Event} (h : CodesUnique s.world)
    (hstep : (system d).step s e = some s') : CodesUnique s'.world := by
  obtain ⟨htaken, rfl⟩ := system_step.mp hstep
  by_cases hcall : ∃ owner secs burn id draws, e.call = .createSession owner secs burn id draws
  · obtain ⟨owner, secs, burn, id, draws, hcall⟩ := hcall
    simp only [exec, hcall, respond]
    rcases createSession_cases s.world e.now owner secs burn id draws with
      ⟨err, heq⟩ | ⟨t, m, -, -, heq⟩
    · rw [heq]
      exact h
    · obtain ⟨-, hcode, hfree, hworld⟩ := createSession_ok heq
      rw [heq, hworld]
      exact h.create hcode hfree
  · refine h.of_same fun r hr => ?_
    rcases (exec_effect htaken).sessions_same r hr with hsame | ⟨owner, secs, burn, draws, hcreate⟩
    · exact hsame
    · exact absurd ⟨owner, secs, burn, r.id, draws, hcreate⟩ hcall

theorem codesUnique_of_reachable {s : State} (h : Reachable d s) : CodesUnique s.world := by
  refine System.Reachable.invariant (I := fun s => CodesUnique s.world) ?_
    (fun _ _ _ h hstep => h.step hstep) h
  rintro s ⟨backend, rfl⟩
  exact ⟨nofun, nofun⟩

/-- A session is found under its own code. -/
theorem CodesUnique.getByCode {w : World} (h : CodesUnique w) {m : TransferSessionModel}
    (hm : m ∈ w.db.sessions.rows) :
    w.db.getByCode m.sessionCode = some (w.db.sessionToDomain m) := by
  have hnodup : (w.db.sessions.rows.map (·.sessionCode)).Nodup := by
    refine List.Nodup.map_on (fun r hr r' hr' => h.unique r hr r' hr') ?_
    exact List.Nodup.of_map _ w.db.sessions.nodup
  refine getByCode_of_mem hnodup hm ?_
  have hrenders : Form.hyphenated.Renders m.sessionCode m.sessionCode :=
    ⟨[], [], nofun, nofun, by simp [Form.render]⟩
  exact (normalised_eq_iff (h.generated m hm) hrenders).mpr rfl

/-- The items of a session that is shared are found under its code. -/
theorem CodesUnique.getSessionItem {w : World} (h : CodesUnique w) {m : TransferSessionModel}
    {i : TransferItem} {now : ℤ} (hm : m ∈ w.db.sessions.rows)
    (hlive : m.expiresAt.any (· < now) = false) (hstatus : m.status ≠ .expired)
    (hi : i ∈ w.db.items.rows) (hsid : i.sessionId = m.id) :
    getSessionItem w now m.sessionCode i.id = (.ok (some (w.db.sessionToDomain m, i)), w) := by
  have hexp : isExpired now (w.db.sessionToDomain m).expiresAt = false :=
    (Db.isExpired_loadTimestamp _ _ _).trans hlive
  have hopen : ¬ (isExpired now (w.db.sessionToDomain m).expiresAt = true ∨
      (w.db.sessionToDomain m).status = .expired) := by
    rintro (hgone | hgone)
    · rw [hexp] at hgone
      cases hgone
    · exact hstatus ((TransferSession.status_eq_sticky (.inl rfl)).mp hgone)
  have hfind : (w.db.sessionToDomain m).items.find? (·.id = i.id) = some i := by
    have hmem : i ∈ w.db.itemsOf m.id := Db.mem_itemsOf.mpr ⟨hi, hsid⟩
    cases hfound : (w.db.itemsOf m.id).find? (·.id = i.id) with
    | none => exact absurd (decide_eq_true rfl) (List.find?_eq_none.mp hfound i hmem)
    | some j =>
        have hj := Db.mem_itemsOf.mp (List.mem_of_find?_eq_some hfound)
        have hid : j.id = i.id := by simpa using List.find?_some hfound
        exact hfound.trans (congrArg some (Table.eq_of_mem hj.1 hi hid))
  unfold SessionService.getSessionItem
  rw [h.getByCode hm]
  dsimp only
  rw [if_neg hopen, hfind]
  rfl

/-- A file of a session that is shared is served. -/
theorem CodesUnique.downloadSessionItem {w : World} (h : CodesUnique w) {m : TransferSessionModel}
    {i : TransferItem} {now : ℤ} (hm : m ∈ w.db.sessions.rows)
    (hlive : m.expiresAt.any (· < now) = false) (hstatus : m.status ≠ .expired)
    (hi : i ∈ w.db.items.rows) (hsid : i.sessionId = m.id) {p : Path} {f : File}
    (hp : i.storagePath = some p) (hf : w.files p = some f) :
    downloadSessionItem w now m.sessionCode i.id =
      (.ok (⟨f.data, i.originalName, downloadHeaders i.checksumSha256⟩,
        if m.burnAfterDownload then some m.id else none), w) := by
  have hserve : serveItem w.files i =
      .ok ⟨f.data, i.originalName, downloadHeaders i.checksumSha256⟩ := by
    simp only [serveItem, hp, Option.bind_some, hf]
  unfold SessionService.downloadSessionItem
  rw [h.getSessionItem hm hlive hstatus hi hsid]
  dsimp only
  rw [hserve]
  rfl

end SessionService

end Jumbox
