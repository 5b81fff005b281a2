import Jumbox.Sessions.Effects

/-!
# The invariant of the serial runs

Two halves. `Issued`: rows and part files carry identifiers that `uuid4` has
already returned, so a fresh one names nothing yet. `Consistent`: a row that
names a stored file agrees with it, as long as its session is there.
-/

namespace Jumbox

namespace SessionService

open ChunkStorage (partPath destPath)

/-! ## Where the rows and the part files of a step come from -/

theorem itemPath_inj {d : Deployment} {i j : TransferItem} (h : itemPath d i = itemPath d j) :
    i.sessionId = j.sessionId ∧ i.id = j.id := by
  have hinj := ChunkStorage.destPath_inj d (slash_notMem_sanitizeFilename d i.originalName)
    (slash_notMem_sanitizeFilename d j.originalName) h
  exact ⟨hinj.1, hinj.2.1⟩

theorem partPath_ne_itemPath (d : Deployment) (sid iid : Uuid) (i : TransferItem) :
    partPath d sid iid ≠ itemPath d i :=
  ChunkStorage.partPath_ne_destPath d _ _ _ _ (slash_notMem_sanitizeFilename d i.originalName)

@[simp] theorem mem_closed_items {db : Db} {m : TransferSessionModel} {i j : TransferItem} :
    j ∈ (closed db m i).items.rows ↔ j = i ∨ (j ∈ db.items.rows ∧ j.id ≠ i.id) := Table.mem_put

theorem mem_closed_sessions {db : Db} {m r : TransferSessionModel} {i : TransferItem} :
    r ∈ (closed db m i).sessions.rows ↔
      r = { m with status := ((db.saveItem i).sessionToDomain m).status } ∨
        (r ∈ db.sessions.rows ∧ r.id ≠ m.id) := Table.mem_put

theorem published_part {d : Deployment} {fs : Files} {i : TransferItem} {f : File} {p : Path}
    (hp : p ≠ itemPath d i) (hne : p ≠ partPath d i.sessionId i.id) : published d fs i f p = fs p := by
  rw [published, Function.update_of_ne hp, Files.unlink_ne hne]

theorem published_self (d : Deployment) (fs : Files) (i : TransferItem) (f : File) :
    published d fs i f (itemPath d i) = some f := Function.update_self ..

/-- A session row of the next state was there, or the call has just drawn it. -/
theorem Effect.sessions_from {d : Deployment} {w w' : World} {e : Event} (h : Effect d w e w') :
    ∀ r ∈ w'.db.sessions.rows,
      (∃ m ∈ w.db.sessions.rows, m.id = r.id) ∨ e.call.newId = some r.id := by
  intro r hr
  have hput : ∀ {m m' : TransferSessionModel}, m ∈ w.db.sessions.rows →
      r ∈ (w.db.sessions.put m').rows → m'.id = m.id →
      ∃ m ∈ w.db.sessions.rows, m.id = r.id := by
    intro m m' hm hr hid
    rcases Table.mem_put.mp hr with rfl | ⟨hr, -⟩
    · exact ⟨m, hm, hid.symm⟩
    · exact ⟨r, hr, rfl⟩
  cases h with
  | unchanged => exact Or.inl ⟨r, hr, rfl⟩
  | expired hm => exact Or.inl (hput hm hr rfl)
  | created hun hid =>
      rcases Table.mem_put.mp hr with rfl | ⟨hr, -⟩
      · exact Or.inr hid
      · exact Or.inl ⟨r, hr, rfl⟩
  | itemAdded => exact Or.inl ⟨r, hr, rfl⟩
  | uploadFailed => exact Or.inl ⟨r, hr, rfl⟩
  | uploaded hm => exact Or.inl (hput hm hr rfl)
  | chunkContinued => exact Or.inl ⟨r, hr, rfl⟩
  | chunkRejected => exact Or.inl ⟨r, hr, rfl⟩
  | chunkFinished hcall hacc => exact Or.inl (hput hacc.session.mem hr rfl)
  | burned hm => exact Or.inl (hput hm hr rfl)
  | deleted => exact Or.inl ⟨r, (Table.mem_eraseWhere.mp hr).1, rfl⟩
  | swept hun hkept => exact Or.inl ⟨r, hkept.sessions r hr, rfl⟩

/-- An item row of the next state was there, or the call has just drawn it. -/
theorem Effect.items_from {d : Deployment} {w w' : World} {e : Event} (h : Effect d w e w') :
    ∀ j ∈ w'.db.items.rows,
      (∃ i ∈ w.db.items.rows, i.id = j.id ∧ i.sessionId = j.sessionId) ∨
      (e.call.newId = some j.id ∧ ∃ m ∈ w.db.sessions.rows, m.id = j.sessionId) := by
  intro j hj
  have hput : ∀ {i i' : TransferItem}, i ∈ w.db.items.rows → j ∈ (w.db.items.put i').rows →
      i'.id = i.id → i'.sessionId = i.sessionId →
      ∃ i ∈ w.db.items.rows, i.id = j.id ∧ i.sessionId = j.sessionId := by
    intro i i' hi hj hid hsid
    rcases Table.mem_put.mp hj with rfl | ⟨hj, -⟩
    · exact ⟨i, hi, hid.symm, hsid.symm⟩
    · exact ⟨j, hj, rfl, rfl⟩
  have hnew : ∀ m ∈ w.db.sessions.rows, ∀ i : TransferItem, i.sessionId = m.id →
      e.call.newId = some i.id → j ∈ (w.db.items.put i).rows →
      (∃ i ∈ w.db.items.rows, i.id = j.id ∧ i.sessionId = j.sessionId) ∨
      (e.call.newId = some j.id ∧ ∃ m ∈ w.db.sessions.rows, m.id = j.sessionId) := by
    intro m hm i hsid hid hj
    rcases Table.mem_put.mp hj with rfl | ⟨hj, -⟩
    · exact Or.inr ⟨hid, m, hm, hsid.symm⟩
    · exact Or.inl ⟨j, hj, rfl, rfl⟩
  cases h with
  | unchanged => exact Or.inl ⟨j, hj, rfl, rfl⟩
  | expired => exact Or.inl ⟨j, hj, rfl, rfl⟩
  | created => exact Or.inl ⟨j, hj, rfl, rfl⟩
  | itemAdded hm _ _ hid hsid => exact hnew _ hm _ hsid hid hj
  | uploadFailed hm _ _ hid hsid => exact hnew _ hm _ hsid hid hj
  | uploaded hm _ _ hid hsid => exact hnew _ hm _ hsid hid hj
  | chunkContinued hcall hacc => exact Or.inl (hput hacc.mem hj rfl rfl)
  | chunkRejected => exact Or.inl ⟨j, hj, rfl, rfl⟩
  | chunkFinished hcall hacc => exact Or.inl (hput hacc.mem hj rfl rfl)
  | burned => exact Or.inl ⟨j, hj, rfl, rfl⟩
  | deleted => exact Or.inl ⟨j, Db.mem_of_mem_deleteById hj, rfl, rfl⟩
  | swept hun hkept => exact Or.inl ⟨j, hkept.items j hj, rfl, rfl⟩

/-- A part file appears only for an item that has a row. -/
theorem Effect.parts_from {d : Deployment} {w w' : World} {e : Event} (h : Effect d w e w')
    {sid iid : Uuid} (hno : w.files (partPath d sid iid) = none)
    (hrow : ∀ i ∈ w.db.items.rows, i.id ≠ iid) : w'.files (partPath d sid iid) = none := by
  have happended : ∀ {c : ChunkRequest} {m : TransferSessionModel} {i : TransferItem},
      Accepts d w e.now c m i → appended d w e.now c (partPath d sid iid) = none := by
    intro c m i hacc
    rw [appended_ne, hno]
    intro heq
    exact hrow i hacc.mem (hacc.id.trans (ChunkStorage.partPath_inj d heq).2.symm)
  cases h with
  | unchanged => exact hno
  | expired => exact hno
  | created => exact hno
  | itemAdded => exact hno
  | uploadFailed => exact (Files.write_ne (partPath_ne_itemPath d _ _ _)).trans hno
  | uploaded => exact (Files.write_ne (partPath_ne_itemPath d _ _ _)).trans hno
  | chunkContinued hcall hacc => exact happended hacc
  | chunkRejected hcall hacc => exact happended hacc
  | @chunkFinished m i c t hcall hacc =>
      have hne : partPath d sid iid ≠ partPath d i.sessionId i.id := by
        intro heq
        exact hrow i hacc.mem (ChunkStorage.partPath_inj d heq).2.symm
      exact (published_part (partPath_ne_itemPath d _ _ _) hne).trans (happended hacc)
  | burned => exact hno
  | deleted hm _ _ hparts =>
      rcases hparts (partPath d sid iid) with heq | ⟨heq, -⟩
      · exact heq.trans hno
      · exact heq
  | swept hun hkept =>
      rcases hkept.files (partPath d sid iid) with heq | ⟨heq, -⟩
      · exact heq.trans hno
      · exact heq

/-! ## Issued identifiers -/

structure Issued (d : Deployment) (s : State) : Prop where
  sessions : ∀ m ∈ s.world.db.sessions.rows, m.id ∈ s.uuids
  items : ∀ i ∈ s.world.db.items.rows, i.id ∈ s.uuids
  itemSessions : ∀ i ∈ s.world.db.items.rows, i.sessionId ∈ s.uuids
  parts : ∀ sid iid, iid ∉ s.uuids → s.world.files (partPath d sid iid) = none

theorem Issued.step {d : Deployment} {s s' : State} {e : Event} (h : Issued d s)
    (hstep : (system d).step s e = some s') : Issued d s' := by
  obtain ⟨htaken, rfl⟩ := system_step.mp hstep
  have heff := exec_effect htaken
  have hnew : ∀ {id : Uuid}, e.call.newId = some id → id ∈ e.call.newId.toList ++ s.uuids := by
    intro id hid
    simp [hid]
  have hold : ∀ {id : Uuid}, id ∈ s.uuids → id ∈ e.call.newId.toList ++ s.uuids := by
    intro id hid
    exact List.mem_append_right _ hid
  constructor
  · intro r hr
    rcases heff.sessions_from r hr with ⟨m, hm, hid⟩ | hid
    · exact hold (hid ▸ h.sessions m hm)
    · exact hnew hid
  · intro j hj
    rcases heff.items_from j hj with ⟨i, hi, hid, -⟩ | ⟨hid, -⟩
    · exact hold (hid ▸ h.items i hi)
    · exact hnew hid
  · intro j hj
    rcases heff.items_from j hj with ⟨i, hi, -, hsid⟩ | ⟨-, m, hm, hsid⟩
    · exact hold (hsid ▸ h.itemSessions i hi)
    · exact hold (hsid ▸ h.sessions m hm)
  · intro sid iid hiid
    have hiid' : iid ∉ s.uuids := fun hmem => hiid (hold hmem)
    refine heff.parts_from (h.parts sid iid hiid') ?_
    rintro i hi rfl
    exact hiid' (h.items i hi)

/-! ## Rows and files -/

/-- The file at `p` is the one the row describes. -/
def Intact (fs : Files) (i : TransferItem) (p : Path) : Prop :=
  ∃ f, fs p = some f ∧ i.checksumSha256 = some (hexdigest f.data) ∧ i.sizeBytes = f.data.length

structure Consistent (d : Deployment) (w : World) : Prop where
  stored : ∀ i ∈ w.db.items.rows, i.status = .completed → i.storagePath.isSome = true
  paths : ∀ i ∈ w.db.items.rows, ∀ p, i.storagePath = some p → p = itemPath d i
  intact : ∀ i ∈ w.db.items.rows, ∀ m ∈ w.db.sessions.rows, m.id = i.sessionId →
    ∀ p, i.storagePath = some p → Intact w.files i p

/-- A step that completes no item keeps rows and files in step, if it leaves the
stored files of the sessions it keeps. -/
theorem Consistent.of_kept {d : Deployment} {w w' : World} (h : Consistent d w)
    (hitems : ∀ j ∈ w'.db.items.rows, (j.storagePath = none ∧ j.status ≠ .completed) ∨
      ∃ i ∈ w.db.items.rows, j = i ∨ j = i.markUploading)
    (hsessions : ∀ r ∈ w'.db.sessions.rows, ∀ i ∈ w.db.items.rows, r.id = i.sessionId →
      ∃ m ∈ w.db.sessions.rows, m.id = r.id)
    (hfiles : ∀ i ∈ w.db.items.rows, ∀ r ∈ w'.db.sessions.rows, r.id = i.sessionId →
      i.storagePath.isSome → w'.files (itemPath d i) = w.files (itemPath d i)) :
    Consistent d w' := by
  constructor
  · intro j hj hdone
    rcases hitems j hj with ⟨-, hnot⟩ | ⟨i, hi, rfl | rfl⟩
    · exact absurd hdone hnot
    · exact h.stored j hi hdone
    · cases hdone
  · intro j hj p hp
    rcases hitems j hj with ⟨hnone, -⟩ | ⟨i, hi, rfl | rfl⟩
    · rw [hnone] at hp
      cases hp
    · exact h.paths j hi p hp
    · exact h.paths i hi p hp
  · intro j hj r hr hid p hp
    have hkeep : ∀ i ∈ w.db.items.rows, r.id = i.sessionId → i.storagePath = some p →
        Intact w'.files i p := by
      intro i hi hid hp
      obtain ⟨m, hm, hmid⟩ := hsessions r hr i hi hid
      obtain ⟨f, hf, hsha, hsize⟩ := h.intact i hi m hm (hmid.trans hid) p hp
      have hpath := h.paths i hi p hp
      subst hpath
      refine ⟨f, ?_, hsha, hsize⟩
      rw [hfiles i hi r hr hid (by rw [hp]; rfl), hf]
    rcases hitems j hj with ⟨hnone, -⟩ | ⟨i, hi, rfl | rfl⟩
    · rw [hnone] at hp
      cases hp
    · exact hkeep j hi hid hp
    · exact hkeep i hi hid hp

/-- A step that completes one item and writes its file. -/
theorem Consistent.of_completed {d : Deployment} {w w' : World} (h : Consistent d w)
    {k : TransferItem} {data : Bytes} (hk : CompletedWith d k data)
    (hfile : ∃ t, w'.files (itemPath d k) = some ⟨data, t⟩)
    (hitems : ∀ j ∈ w'.db.items.rows, j = k ∨ (j ∈ w.db.items.rows ∧ j.id ≠ k.id))
    (hsessions : ∀ r ∈ w'.db.sessions.rows, ∃ m ∈ w.db.sessions.rows, m.id = r.id)
    (hfiles : ∀ i, i.id ≠ k.id → w'.files (itemPath d i) = w.files (itemPath d i)) :
    Consistent d w' := by
  constructor
  · intro j hj hdone
    rcases hitems j hj with rfl | ⟨hj, -⟩
    · rw [hk.path]
      rfl
    · exact h.stored j hj hdone
  · intro j hj p hp
    rcases hitems j hj with rfl | ⟨hj, -⟩
    · rw [hk.path] at hp
      exact (Option.some.inj hp).symm
    · exact h.paths j hj p hp
  · intro j hj r hr hid p hp
    rcases hitems j hj with rfl | ⟨hj, hne⟩
    · rw [hk.path] at hp
      cases hp
      obtain ⟨t, ht⟩ := hfile
      exact ⟨⟨data, t⟩, ht, hk.checksum, hk.size⟩
    · obtain ⟨m, hm, hmid⟩ := hsessions r hr
      obtain ⟨f, hf, hsha, hsize⟩ := h.intact j hj m hm (hmid.trans hid) p hp
      have hpath := h.paths j hj p hp
      subst hpath
      exact ⟨f, (hfiles j hne).trans hf, hsha, hsize⟩

theorem Effect.consistent {d : Deployment} {s : State} {e : Event} {w' : World}
    (hissued : Issued d s) (hfresh : ∀ id ∈ e.call.newId, id ∉ s.uuids)
    (h : Consistent d s.world) (heff : Effect d s.world e w') : Consistent d w' := by
  have hfrom := heff.sessions_from
  -- a session that has just been drawn has no items yet
  have hsessions : ∀ r ∈ w'.db.sessions.rows, ∀ i ∈ s.world.db.items.rows, r.id = i.sessionId →
      ∃ m ∈ s.world.db.sessions.rows, m.id = r.id := by
    intro r hr i hi hid
    rcases hfrom r hr with hm | hnew
    · exact hm
    · exact absurd (hid ▸ hissued.itemSessions i hi) (hfresh r.id hnew)
  have hold : ∀ {m : TransferSessionModel}, m ∈ s.world.db.sessions.rows →
      ∀ {m' : TransferSessionModel}, m'.id = m.id →
      ∀ r ∈ (s.world.db.sessions.put m').rows, ∃ m ∈ s.world.db.sessions.rows, m.id = r.id := by
    intro m hm m' hid r hr
    rcases Table.mem_put.mp hr with rfl | ⟨hr, -⟩
    · exact ⟨m, hm, hid.symm⟩
    · exact ⟨r, hr, rfl⟩
  -- a path of an item whose identifier has just been drawn is no other item's
  have hwrite : ∀ {k : TransferItem} {now : ℤ} {data : Bytes}, ∀ i, i.id ≠ k.id →
      s.world.files.write (itemPath d k) now data (itemPath d i) =
        s.world.files (itemPath d i) := by
    intro k now data i hne
    exact Files.write_ne fun heq => hne (itemPath_inj heq).2
  have hne : ∀ {id : Uuid}, e.call.newId = some id → ∀ i ∈ s.world.db.items.rows, i.id ≠ id := by
    rintro id hid i hi rfl
    exact hfresh i.id hid (hissued.items i hi)
  have happended : ∀ (c : ChunkRequest) (i : TransferItem),
      appended d s.world e.now c (itemPath d i) = s.world.files (itemPath d i) := by
    intro c i
    exact appended_ne (partPath_ne_itemPath d _ _ i).symm
  have hput : ∀ {k : TransferItem}, k.storagePath = none → k.status ≠ .completed →
      ∀ j ∈ (s.world.db.items.put k).rows, (j.storagePath = none ∧ j.status ≠ .completed) ∨
        ∃ i ∈ s.world.db.items.rows, j = i ∨ j = i.markUploading := by
    intro k hk hstatus j hj
    rcases Table.mem_put.mp hj with rfl | ⟨hj, -⟩
    · exact Or.inl ⟨hk, hstatus⟩
    · exact Or.inr ⟨j, hj, Or.inl rfl⟩
  have hsame : ∀ j ∈ s.world.db.items.rows, (j.storagePath = none ∧ j.status ≠ .completed) ∨
      ∃ i ∈ s.world.db.items.rows, j = i ∨ j = i.markUploading :=
    fun j hj => Or.inr ⟨j, hj, Or.inl rfl⟩
  cases heff with
  | unchanged => exact h
  | expired => exact h.of_kept hsame hsessions fun _ _ _ _ _ _ => rfl
  | created => exact h.of_kept hsame hsessions fun _ _ _ _ _ _ => rfl
  | itemAdded hm _ _ hid hsid hpath hstatus =>
      exact h.of_kept (hput hpath hstatus) hsessions fun _ _ _ _ _ _ => rfl
  | uploadFailed hm _ _ hid hsid hpath hstatus =>
      exact h.of_kept (hput hpath hstatus) hsessions fun i hi _ _ _ _ => hwrite i (hne hid i hi)
  | uploaded hm _ _ hid hsid hcomplete =>
      exact h.of_completed hcomplete ⟨_, Files.write_self _ _ _ _⟩
        (fun j hj => mem_closed_items.mp hj) (hold hm rfl) hwrite
  | @chunkContinued m i c hcall hacc =>
      refine h.of_kept ?_ hsessions fun j _ _ _ _ _ => happended c j
      intro j hj
      rcases Table.mem_put.mp hj with rfl | ⟨hj, -⟩
      · exact Or.inr ⟨i, hacc.mem, Or.inr rfl⟩
      · exact Or.inr ⟨j, hj, Or.inl rfl⟩
  | chunkRejected hcall hacc =>
      exact h.of_kept hsame hsessions fun i _ _ _ _ _ => happended _ i
  | @chunkFinished m i c t hcall hacc =>
      refine h.of_completed (finishedItem_completedWith d i (appendedBytes d s.world c))
        ⟨t, published_self d _ i _⟩ (fun j hj => mem_closed_items.mp hj)
        (hold hacc.session.mem rfl) ?_
      intro j hj
      refine (published_part ?_ (partPath_ne_itemPath d _ _ j).symm).trans (happended c j)
      exact fun heq => hj (itemPath_inj heq).2
  | burned => exact h.of_kept hsame hsessions fun _ _ _ _ _ _ => rfl
  | deleted hm _ _ hparts =>
      refine h.of_kept (fun j hj => hsame j (Db.mem_of_mem_deleteById hj)) hsessions ?_
      intro i hi r hr hid hsome
      rcases hparts (itemPath d i) with heq | ⟨-, j, -, heq⟩
      · exact heq
      · exact absurd heq.symm (partPath_ne_itemPath d _ _ i)
  | swept hun hkept =>
      refine h.of_kept (fun j hj => hsame j (hkept.items j hj)) hsessions ?_
      intro i hi r hr hid hsome
      rcases hkept.files (itemPath d i) with heq | ⟨-, j, hj, hp, hgone⟩
      · exact heq
      · -- the path names its session, and that session is still there
        have hsid := (itemPath_inj (h.paths j hj _ hp)).1
        exact absurd (hid.trans hsid) (hgone r hr)

/-! ## What a call leaves alone -/

/-- An item row whose session is still there is changed by a chunk for it only. -/
theorem Effect.item_kept {d : Deployment} {s : State} {e : Event} {w' : World}
    (hissued : Issued d s) (hfresh : ∀ id ∈ e.call.newId, id ∉ s.uuids)
    (heff : Effect d s.world e w') {i : TransferItem} (hi : i ∈ s.world.db.items.rows)
    (hother : ∀ c, e.call = .appendItemChunk c → c.itemId ≠ i.id)
    (hsession : ∃ m ∈ w'.db.sessions.rows, m.id = i.sessionId) : i ∈ w'.db.items.rows := by
  have hput : ∀ {k : TransferItem}, e.call.newId = some k.id →
      i ∈ (s.world.db.items.put k).rows := by
    intro k hk
    refine Table.mem_put.mpr (Or.inr ⟨hi, ?_⟩)
    intro heq
    exact hfresh k.id hk (heq ▸ hissued.items i hi)
  cases heff with
  | unchanged => exact hi
  | expired => exact hi
  | created => exact hi
  | itemAdded _ _ _ hid => exact hput hid
  | uploadFailed _ _ _ hid => exact hput hid
  | uploaded _ _ _ hid => exact hput hid
  | chunkContinued hcall hacc =>
      refine Table.mem_put.mpr (Or.inr ⟨hi, ?_⟩)
      exact fun heq => hother _ hcall (hacc.id.symm.trans heq.symm)
  | chunkRejected => exact hi
  | chunkFinished hcall hacc =>
      refine Table.mem_put.mpr (Or.inr ⟨hi, ?_⟩)
      exact fun heq => hother _ hcall (hacc.id.symm.trans heq.symm)
  | burned => exact hi
  | deleted =>
      obtain ⟨r, hr, hrid⟩ := hsession
      exact Db.mem_deleteById_of_ne hi (hrid ▸ (Db.mem_deleteById_sessions.mp hr).2)
  | swept hun hkept => exact hkept.itemsKept i hi hsession

/-- And so is its part file. -/
theorem Effect.part_kept {d : Deployment} {w w' : World} {e : Event} (h : Consistent d w)
    (heff : Effect d w e w') {sid iid : Uuid}
    (hother : ∀ c, e.call = .appendItemChunk c → c.itemId ≠ iid)
    (hsession : ∃ m ∈ w'.db.sessions.rows, m.id = sid) :
    w'.files (partPath d sid iid) = w.files (partPath d sid iid) := by
  have happended : ∀ {c : ChunkRequest}, e.call = .appendItemChunk c →
      appended d w e.now c (partPath d sid iid) = w.files (partPath d sid iid) := by
    intro c hcall
    refine appended_ne ?_
    intro heq
    exact hother c hcall (ChunkStorage.partPath_inj d heq).2.symm
  cases heff with
  | unchanged => rfl
  | expired => rfl
  | created => rfl
  | itemAdded => rfl
  | uploadFailed => exact Files.write_ne (partPath_ne_itemPath d _ _ _)
  | uploaded => exact Files.write_ne (partPath_ne_itemPath d _ _ _)
  | chunkContinued hcall hacc => exact happended hcall
  | chunkRejected hcall hacc => exact happended hcall
  | @chunkFinished m i c t hcall hacc =>
      have hne : partPath d sid iid ≠ partPath d i.sessionId i.id := by
        intro heq
        exact hother c hcall (hacc.id.symm.trans (ChunkStorage.partPath_inj d heq).2.symm)
      exact (published_part (partPath_ne_itemPath d _ _ _) hne).trans (happended hcall)
  | burned => rfl
  | @deleted m fs hm _ _ hparts =>
      obtain ⟨r, hr, rfl⟩ := hsession
      rcases hparts (partPath d r.id iid) with heq | ⟨-, j, -, heq⟩
      · exact heq
      · have hsid := (ChunkStorage.partPath_inj d heq).1
        exact absurd hsid (Db.mem_deleteById_sessions.mp hr).2
  | swept hun hkept =>
      rcases hkept.files (partPath d sid iid) with heq | ⟨-, j, hj, hp, -⟩
      · exact heq
      · exact absurd (h.paths j hj _ hp) (partPath_ne_itemPath d _ _ j)

/-! ## Every reachable state -/

structure Inv (d : Deployment) (s : State) : Prop where
  issued : Issued d s
  consistent : Consistent d s.world

theorem Inv.initial {d : Deployment} {s : State} (h : Initial s) : Inv d s := by
  obtain ⟨backend, rfl⟩ := h
  refine ⟨⟨?_, ?_, ?_, ?_⟩, ⟨?_, ?_, ?_⟩⟩
  · intro m hm
    cases hm
  · intro i hi
    cases hi
  · intro i hi
    cases hi
  · intro _ _ _
    rfl
  · intro i hi
    cases hi
  · intro i hi
    cases hi
  · intro i hi
    cases hi

theorem Inv.step {d : Deployment} {s s' : State} {e : Event} (h : Inv d s)
    (hstep : (system d).step s e = some s') : Inv d s' := by
  refine ⟨h.issued.step hstep, ?_⟩
  obtain ⟨htaken, rfl⟩ := system_step.mp hstep
  exact (exec_effect htaken).consistent h.issued htaken.1 h.consistent

theorem inv_of_reachable {d : Deployment} {s : State} (h : Reachable d s) : Inv d s :=
  System.Reachable.invariant (fun _ => Inv.initial) (fun _ _ _ => Inv.step) h

end SessionService

end Jumbox
