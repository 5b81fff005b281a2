import Jumbox.Sessions.Invariant

/-!
# Is a completed item final?

A chunk for a completed item is not refused: the part file was moved away, so
the offset starts again from zero, and a chunk that does not fill the item marks
it as uploading. This is the only way a completed item can change its status,
and the only way a ready session can stop being ready while it lasts.
-/

namespace Jumbox

namespace SessionService

/-! ## What every call keeps -/

/-- What holds between two states of a run, whatever happens in between: the
rows carry on under their identifiers, and an expired session stays expired. -/
structure Extends (s t : State) : Prop where
  uuids : ∀ id ∈ s.uuids, id ∈ t.uuids
  sessions : ∀ r ∈ t.world.db.sessions.rows, r.id ∈ s.uuids →
    ∃ m ∈ s.world.db.sessions.rows, m.id = r.id
  items : ∀ j ∈ t.world.db.items.rows, j.id ∈ s.uuids →
    ∃ i ∈ s.world.db.items.rows, i.id = j.id ∧ i.sessionId = j.sessionId
  itemsKept : ∀ i ∈ s.world.db.items.rows,
    (∃ m ∈ t.world.db.sessions.rows, m.id = i.sessionId) →
    ∃ j ∈ t.world.db.items.rows, j.id = i.id ∧ j.sessionId = i.sessionId
  expired : ∀ m ∈ s.world.db.sessions.rows, m.status = .expired →
    ∀ r ∈ t.world.db.sessions.rows, r.id = m.id → r.status = .expired

theorem Extends.refl (s : State) : Extends s s where
  uuids _ h := h
  sessions r hr _ := ⟨r, hr, rfl⟩
  items j hj _ := ⟨j, hj, rfl, rfl⟩
  itemsKept i hi _ := ⟨i, hi, rfl, rfl⟩
  expired m hm hexp r hr hid := by
    rw [Table.eq_of_mem hr hm hid]
    exact hexp

theorem Extends.trans {d : Deployment} {s t u : State} (hs : Issued d s) (h : Extends s t)
    (h' : Extends t u) : Extends s u where
  uuids id hid := h'.uuids id (h.uuids id hid)
  sessions r hr hid := by
    obtain ⟨m, hm, hmid⟩ := h'.sessions r hr (h.uuids _ hid)
    obtain ⟨k, hk, hkid⟩ := h.sessions m hm (hmid ▸ hid)
    exact ⟨k, hk, hkid.trans hmid⟩
  items j hj hid := by
    obtain ⟨i, hi, hiid, hisid⟩ := h'.items j hj (h.uuids _ hid)
    obtain ⟨k, hk, hkid, hksid⟩ := h.items i hi (hiid ▸ hid)
    exact ⟨k, hk, hkid.trans hiid, hksid.trans hisid⟩
  itemsKept i hi hsession := by
    obtain ⟨r, hr, hrid⟩ := hsession
    -- a session that is there at the end was there in between
    have hissued : r.id ∈ t.uuids := h.uuids _ (hrid ▸ hs.itemSessions i hi)
    obtain ⟨m, hm, hmid⟩ := h'.sessions r hr hissued
    obtain ⟨j, hj, hjid, hjsid⟩ := h.itemsKept i hi ⟨m, hm, hmid.trans hrid⟩
    obtain ⟨k, hk, hkid, hksid⟩ := h'.itemsKept j hj ⟨r, hr, hrid.trans hjsid.symm⟩
    exact ⟨k, hk, hkid.trans hjid, hksid.trans hjsid⟩
  expired m hm hexp r hr hid := by
    have hissued : r.id ∈ t.uuids := h.uuids _ (hid ▸ hs.sessions m hm)
    obtain ⟨k, hk, hkid⟩ := h'.sessions r hr hissued
    exact h'.expired k hk (h.expired m hm hexp k hk (hkid.trans hid)) r hr hkid.symm

/-- A session row after a call: unchanged, expired, new, or with the status its
items give it. -/
theorem Effect.session_row {d : Deployment} {w w' : World} {e : Event} (h : Effect d w e w') :
    ∀ r ∈ w'.db.sessions.rows,
      r ∈ w.db.sessions.rows ∨ (r.status = .expired ∧ ∃ m ∈ w.db.sessions.rows, m.id = r.id) ∨
      (r.status = .pending ∧ e.call.newId = some r.id) ∨
      ∃ m ∈ w.db.sessions.rows, r.id = m.id ∧ r.status = (w'.db.sessionToDomain m).status ∧
        ∃ i ∈ w'.db.items.rows, i.sessionId = r.id := by
  intro r hr
  cases h with
  | unchanged => exact Or.inl hr
  | expired hm =>
      rcases Table.mem_put.mp hr with rfl | ⟨hr, -⟩
      · exact Or.inr (Or.inl ⟨rfl, _, hm, rfl⟩)
      · exact Or.inl hr
  | created _ hid hstatus =>
      rcases Table.mem_put.mp hr with rfl | ⟨hr, -⟩
      · exact Or.inr (Or.inr (Or.inl ⟨hstatus, hid⟩))
      · exact Or.inl hr
  | itemAdded => exact Or.inl hr
  | uploadFailed => exact Or.inl hr
  | uploaded hm _ _ _ hsid =>
      rcases mem_closed_sessions.mp hr with rfl | ⟨hr, -⟩
      · exact Or.inr (Or.inr (Or.inr ⟨_, hm, rfl, rfl, _, mem_closed_items.mpr (Or.inl rfl), hsid⟩))
      · exact Or.inl hr
  | chunkContinued => exact Or.inl hr
  | chunkRejected => exact Or.inl hr
  | chunkFinished _ hacc =>
      rcases mem_closed_sessions.mp hr with rfl | ⟨hr, -⟩
      · exact Or.inr (Or.inr (Or.inr ⟨_, hacc.session.mem, rfl, rfl, _,
          mem_closed_items.mpr (Or.inl rfl), hacc.sessionId.trans hacc.session.id.symm⟩))
      · exact Or.inl hr
  | burned hm =>
      rcases Table.mem_put.mp hr with rfl | ⟨hr, -⟩
      · exact Or.inr (Or.inl ⟨rfl, _, hm, rfl⟩)
      · exact Or.inl hr
  | deleted => exact Or.inl (Table.mem_eraseWhere.mp hr).1
  | swept _ hkept => exact Or.inl (hkept.sessions r hr)

/-- An item row lasts as long as its session. -/
theorem Effect.items_last {d : Deployment} {s : State} {e : Event} {w' : World}
    (hissued : Issued d s) (hfresh : ∀ id ∈ e.call.newId, id ∉ s.uuids)
    (heff : Effect d s.world e w') {i : TransferItem} (hi : i ∈ s.world.db.items.rows)
    (hsession : ∃ m ∈ w'.db.sessions.rows, m.id = i.sessionId) :
    ∃ j ∈ w'.db.items.rows, j.id = i.id ∧ j.sessionId = i.sessionId ∧
      j.originalName = i.originalName := by
  by_cases hother : ∀ c, e.call = .appendItemChunk c → c.itemId ≠ i.id
  · exact ⟨i, heff.item_kept hissued hfresh hi hother hsession, rfl, rfl, rfl⟩
  · have hput : ∀ {k i₀ : TransferItem}, i₀ ∈ s.world.db.items.rows → i₀.id = k.id →
        i₀.sessionId = k.sessionId → i₀.originalName = k.originalName →
        ∃ j ∈ (s.world.db.items.put k).rows, j.id = i.id ∧ j.sessionId = i.sessionId ∧
          j.originalName = i.originalName := by
      intro k i₀ hi₀ hid hsid hname
      by_cases heq : i.id = k.id
      · obtain rfl := Table.eq_of_mem hi hi₀ (heq.trans hid.symm)
        exact ⟨k, Table.mem_put.mpr (Or.inl rfl), hid.symm, hsid.symm, hname.symm⟩
      · exact ⟨i, Table.mem_put.mpr (Or.inr ⟨hi, heq⟩), rfl, rfl, rfl⟩
    have hnot : e.call.newId = none := by
      by_contra hnew
      refine hother ?_
      intro c hcall
      rw [hcall] at hnew
      exact absurd rfl hnew
    cases heff with
    | unchanged => exact ⟨i, hi, rfl, rfl, rfl⟩
    | expired => exact ⟨i, hi, rfl, rfl, rfl⟩
    | created => exact ⟨i, hi, rfl, rfl, rfl⟩
    | itemAdded _ _ _ hid =>
        rw [hnot] at hid
        cases hid
    | uploadFailed _ _ _ hid =>
        rw [hnot] at hid
        cases hid
    | uploaded _ _ _ hid =>
        rw [hnot] at hid
        cases hid
    | chunkContinued _ hacc => exact hput hacc.mem rfl rfl rfl
    | chunkRejected => exact ⟨i, hi, rfl, rfl, rfl⟩
    | chunkFinished _ hacc => exact hput hacc.mem rfl rfl rfl
    | burned => exact ⟨i, hi, rfl, rfl, rfl⟩
    | deleted =>
        obtain ⟨r, hr, hrid⟩ := hsession
        exact ⟨i, Db.mem_deleteById_of_ne hi (hrid ▸ (Db.mem_deleteById_sessions.mp hr).2), rfl,
          rfl, rfl⟩
    | swept _ hkept => exact ⟨i, hkept.itemsKept i hi hsession, rfl, rfl, rfl⟩

theorem extends_of_step {d : Deployment} {s t : State} {e : Event} (hinv : Inv d s)
    (hstep : (system d).step s e = some t) : Extends s t := by
  obtain ⟨htaken, rfl⟩ := system_step.mp hstep
  have heff := exec_effect htaken
  have hfresh : ∀ {id : Uuid}, e.call.newId = some id → id ∉ s.uuids := fun h => htaken.1 _ h
  constructor
  · exact fun id hid => List.mem_append_right _ hid
  · intro r hr hid
    rcases heff.sessions_from r hr with hm | hnew
    · exact hm
    · exact absurd hid (hfresh hnew)
  · intro j hj hid
    rcases heff.items_from j hj with hi | ⟨hnew, -⟩
    · exact hi
    · exact absurd hid (hfresh hnew)
  · intro i hi hsession
    obtain ⟨j, hj, hid, hsid, -⟩ := heff.items_last hinv.issued htaken.1 hi hsession
    exact ⟨j, hj, hid, hsid⟩
  · intro m hm hexp r hr hid
    rcases heff.session_row r hr with hold | ⟨hstatus, -⟩ | ⟨-, hnew⟩ | ⟨k, hk, hkid, hstatus, -⟩
    · rw [Table.eq_of_mem hold hm hid]
      exact hexp
    · exact hstatus
    · exact absurd (hid ▸ hinv.issued.sessions m hm) (hfresh hnew)
    · obtain rfl := Table.eq_of_mem hk hm (hkid.symm.trans hid)
      rw [hstatus]
      exact TransferSession.status_of_expired hexp

theorem extends_of_run {d : Deployment} {s t : State} {ls : List Event} (hinv : Inv d s)
    (hrun : (system d).run s ls = some t) : Inv d t ∧ Extends s t := by
  induction ls using List.reverseRecOn generalizing t with
  | nil =>
      cases hrun
      exact ⟨hinv, .refl s⟩
  | append_singleton ls e ih =>
      obtain ⟨u, hrun, hstep⟩ := System.run_snoc_eq_some.mp hrun
      obtain ⟨hu, hext⟩ := ih hrun
      exact ⟨hu.step hstep, hext.trans hinv.issued (extends_of_step hu hstep)⟩

/-! ## The stored statuses -/

/-- No session is stored as cancelled, and a session stored as ready has items. -/
def Statuses (w : World) : Prop :=
  ∀ m ∈ w.db.sessions.rows, m.status ≠ .cancelled ∧
    (m.status = .ready → ∃ i ∈ w.db.items.rows, i.sessionId = m.id)

theorem Statuses.step {d : Deployment} {s t : State} {e : Event} (hinv : Inv d s)
    (h : Statuses s.world) (hstep : (system d).step s e = some t) : Statuses t.world := by
  have hext := extends_of_step hinv hstep
  obtain ⟨htaken, rfl⟩ := system_step.mp hstep
  intro r hr
  rcases (exec_effect htaken).session_row r hr with hold | ⟨hstatus, -⟩ | ⟨hstatus, -⟩ |
    ⟨m, hm, -, hstatus, hitem⟩
  · refine ⟨(h r hold).1, fun hready => ?_⟩
    obtain ⟨i, hi, hsid⟩ := (h r hold).2 hready
    obtain ⟨j, hj, -, hjsid⟩ := hext.itemsKept i hi ⟨r, hr, hsid.symm⟩
    exact ⟨j, hj, hjsid.trans hsid⟩
  · rw [hstatus]
    exact ⟨by decide, fun hready => by cases hready⟩
  · rw [hstatus]
    exact ⟨by decide, fun hready => by cases hready⟩
  · refine ⟨?_, fun _ => hitem⟩
    intro hcancelled
    rw [hstatus] at hcancelled
    exact (h m hm).1 ((TransferSession.status_eq_sticky (Or.inr rfl)).mp hcancelled)

/-- The invariant of this module. -/
def FinalityInv (d : Deployment) (s : State) : Prop := Inv d s ∧ Statuses s.world

theorem FinalityInv.step {d : Deployment} {s t : State} {e : Event} (h : FinalityInv d s)
    (hstep : (system d).step s e = some t) : FinalityInv d t :=
  ⟨h.1.step hstep, h.2.step h.1 hstep⟩

theorem finalityInv_of_reachable {d : Deployment} {s : State} (h : Reachable d s) :
    FinalityInv d s := by
  refine System.Reachable.invariant ?_ (fun _ _ _ => FinalityInv.step) h
  rintro s hinit
  refine ⟨.initial hinit, ?_⟩
  obtain ⟨backend, rfl⟩ := hinit
  intro m hm
  cases hm

/-! ## Completed items and ready sessions -/

/-- Between `w` and `w'` no completed item has got another status. -/
def KeepsCompleted (w w' : World) : Prop :=
  ∀ i ∈ w.db.items.rows, i.status = .completed →
    ∀ j ∈ w'.db.items.rows, j.id = i.id → j.status = .completed

instance (w w' : World) : Decidable (KeepsCompleted w w') :=
  inferInstanceAs (Decidable (∀ i ∈ w.db.items.rows, i.status = .completed →
    ∀ j ∈ w'.db.items.rows, j.id = i.id → j.status = .completed))

/-- A ready session to which no item was added is still ready, or has expired. -/
def KeepsReady (w w' : World) : Prop :=
  ∀ m ∈ w.db.sessions.rows, (w.db.sessionToDomain m).status = .ready →
    ∀ r ∈ w'.db.sessions.rows, r.id = m.id →
      (∀ j ∈ w'.db.itemsOf m.id, ∃ i ∈ w.db.itemsOf m.id, i.id = j.id) →
      (w'.db.sessionToDomain r).status = .ready ∨ (w'.db.sessionToDomain r).status = .expired

/-- The request of an `append_item_chunk` call. -/
def Call.request : Call → Option ChunkRequest
  | .appendItemChunk c => some c
  | _ => none

/-- A chunk that passes its checks on a completed item and does not fill it. -/
def Reopens (d : Deployment) (w : World) (e : Event) : Prop :=
  ∃ c ∈ e.call.request, ∃ m ∈ w.db.sessions.rows, ∃ i ∈ w.db.items.rows,
    Accepts d w e.now c m i ∧ i.status = .completed ∧
      reachesEnd i (appendedBytes d w c).length = false

instance (d : Deployment) (w : World) (e : Event) : Decidable (Reopens d w e) :=
  inferInstanceAs (Decidable (∃ c ∈ e.call.request, ∃ m ∈ w.db.sessions.rows,
    ∃ i ∈ w.db.items.rows, Accepts d w e.now c m i ∧ i.status = .completed ∧
      reachesEnd i (appendedBytes d w c).length = false))

theorem Effect.keepsCompleted {d : Deployment} {s : State} {e : Event} {w' : World}
    (hissued : Issued d s) (hfresh : ∀ id ∈ e.call.newId, id ∉ s.uuids)
    (heff : Effect d s.world e w') (hno : ¬ Reopens d s.world e) : KeepsCompleted s.world w' := by
  intro i hi hcompleted j hj hid
  have hsame : j ∈ s.world.db.items.rows → j.status = .completed := by
    intro hj
    rw [Table.eq_of_mem hj hi hid]
    exact hcompleted
  have hnew : ∀ {k : TransferItem}, e.call.newId = some k.id →
      j ∈ (s.world.db.items.put k).rows → j.status = .completed := by
    intro k hk hj
    rcases Table.mem_put.mp hj with rfl | ⟨hj, -⟩
    · exact absurd (hid ▸ hissued.items i hi) (hfresh j.id hk)
    · exact hsame hj
  cases heff with
  | unchanged => exact hsame hj
  | expired => exact hsame hj
  | created => exact hsame hj
  | itemAdded _ _ _ hk => exact hnew hk hj
  | uploadFailed _ _ _ hk => exact hnew hk hj
  | uploaded _ _ _ hk => exact hnew hk hj
  | chunkContinued hcall hacc hmore =>
      rcases Table.mem_put.mp hj with rfl | ⟨hj, -⟩
      · obtain rfl := Table.eq_of_mem hi hacc.mem hid.symm
        exact absurd ⟨_, by rw [hcall]; rfl, _, hacc.session.mem, _, hacc.mem, hacc, hcompleted,
          hmore⟩ hno
      · exact hsame hj
  | chunkRejected => exact hsame hj
  | chunkFinished =>
      rcases mem_closed_items.mp hj with rfl | ⟨hj, -⟩
      · rfl
      · exact hsame hj
  | burned => exact hsame hj
  | deleted => exact hsame (Db.mem_of_mem_deleteById hj)
  | swept _ hkept => exact hsame (hkept.items j hj)

/-- A reopening chunk does change the status. -/
theorem Reopens.not_keepsCompleted {d : Deployment} {s t : State} {e : Event}
    (h : Reopens d s.world e) (hstep : (system d).step s e = some t) :
    ¬ KeepsCompleted s.world t.world := by
  obtain ⟨c, hc, m, -, i, hi, hacc, hcompleted, hmore⟩ := h
  obtain ⟨-, rfl⟩ := system_step.mp hstep
  obtain ⟨now, call⟩ := e
  cases call with
  | appendItemChunk c' =>
      cases hc
      rcases appendItemChunk_accepted hacc with ⟨-, heq⟩ | ⟨hlast, -⟩ | ⟨hlast, -⟩
      · intro hkeeps
        have hrow : i.markUploading ∈ (exec d s.world ⟨now, .appendItemChunk c⟩).2.db.items.rows := by
          simp only [exec, respond, heq]
          exact Table.mem_put.mpr (Or.inl rfl)
        cases hkeeps i hi hcompleted _ hrow rfl
      · rw [hmore] at hlast
        cases hlast
      · rw [hmore] at hlast
        cases hlast
  | createSession => cases hc
  | burnSession => cases hc
  | deleteSession => cases hc
  | uploadItem => cases hc
  | getSessionByCode => cases hc
  | getSessionById => cases hc
  | getSessionItem => cases hc
  | listMySessions => cases hc
  | initResumableItem => cases hc
  | getItemOffset => cases hc
  | cleanupExpiredSessions => cases hc

/-- Where completed items stay completed, ready sessions stay ready. -/
theorem KeepsCompleted.keepsReady {d : Deployment} {s t : State} (hs : FinalityInv d s)
    (ht : FinalityInv d t) (hext : Extends s t) (h : KeepsCompleted s.world t.world) :
    KeepsReady s.world t.world := by
  intro m hm hready r hr hid hnonew
  -- a ready session has items, and they are still there
  have hne : (s.world.db.sessionToDomain m).items ≠ [] := by
    intro hnil
    have hstored : m.status = .ready := by
      have hstatus := hready
      unfold TransferSession.status at hstatus
      rw [if_pos hnil, ite_self] at hstatus
      exact hstatus
    obtain ⟨i, hi, hsid⟩ := (hs.2 m hm).2 hstored
    have hmem : i ∈ (s.world.db.sessionToDomain m).items := Db.mem_itemsOf.mpr ⟨hi, hsid⟩
    rw [hnil] at hmem
    cases hmem
  obtain ⟨-, -, hall⟩ := (TransferSession.status_eq_ready_iff hne).mp hready
  have hne' : (t.world.db.sessionToDomain r).items ≠ [] := by
    obtain ⟨i, hi⟩ := List.exists_mem_of_ne_nil _ hne
    obtain ⟨hi, hisid⟩ := Db.mem_itemsOf.mp hi
    obtain ⟨j, hj, -, hjsid⟩ := hext.itemsKept i hi ⟨r, hr, hid.trans hisid.symm⟩
    have hmem : j ∈ (t.world.db.sessionToDomain r).items :=
      Db.mem_itemsOf.mpr ⟨hj, (hjsid.trans hisid).trans hid.symm⟩
    exact List.ne_nil_of_mem hmem
  by_cases hexpired : r.status = .expired
  · exact Or.inr (TransferSession.status_of_expired hexpired)
  · refine Or.inl ((TransferSession.status_eq_ready_iff hne').mpr ⟨hexpired, (ht.2 r hr).1, ?_⟩)
    intro j hj
    rw [show (t.world.db.sessionToDomain r).items = t.world.db.itemsOf m.id from
      congrArg t.world.db.itemsOf hid] at hj
    obtain ⟨i, hi, hiid⟩ := hnonew j hj
    exact h i (Db.mem_itemsOf.mp hi).1 (hall i hi) j (Db.mem_itemsOf.mp hj).1 hiid.symm

/-! ## Runs -/

/-- Between any two states of the run, completed items stay completed and ready
sessions stay ready. -/
def CompletedIsFinal (d : Deployment) (s : State) (ls : List Event) : Prop :=
  ∀ pre mid post s₁ s₂, ls = pre ++ (mid ++ post) → (system d).run s pre = some s₁ →
    (system d).run s₁ mid = some s₂ →
    KeepsCompleted s₁.world s₂.world ∧ KeepsReady s₁.world s₂.world

theorem KeepsCompleted.trans {d : Deployment} {s t u : State} (hs : Issued d s)
    (hst : Extends s t) (htu : Extends t u) (h : KeepsCompleted s.world t.world)
    (h' : KeepsCompleted t.world u.world) : KeepsCompleted s.world u.world := by
  intro i hi hcompleted j hj hid
  obtain ⟨k, hk, hkid, -⟩ := htu.items j hj (hst.uuids _ (hid ▸ hs.items i hi))
  exact h' k hk (h i hi hcompleted k hk (hkid.trans hid)) j hj hkid.symm

theorem keeps_of_guarded {d : Deployment} {s u : State} {ls : List Event} (hs : FinalityInv d s)
    (hg : (system d).Guarded (fun s e => ¬ Reopens d s.world e) s ls)
    (hrun : (system d).run s ls = some u) :
    FinalityInv d u ∧ Extends s u ∧ KeepsCompleted s.world u.world := by
  refine System.related_of_guarded
    (R := fun s u => Extends s u ∧ KeepsCompleted s.world u.world)
    (fun _ _ _ => FinalityInv.step) ?_ ?_ hs hg hrun
  · intro s _
    refine ⟨.refl s, ?_⟩
    intro i hi hcompleted j hj hid
    rw [Table.eq_of_mem hj hi hid]
    exact hcompleted
  · rintro s e t u hs _ _ hno hstep ⟨hext, hkeeps⟩
    have hext' := extends_of_step hs.1 hstep
    have hissued := hs.1.issued
    refine ⟨hext'.trans hissued hext, ?_⟩
    refine KeepsCompleted.trans hissued hext' hext ?_ hkeeps
    obtain ⟨htaken, rfl⟩ := system_step.mp hstep
    exact (exec_effect htaken).keepsCompleted hissued htaken.1 hno

/-- A run leaves completed items completed, and ready sessions ready, exactly
when none of its steps is a chunk that reopens a completed item. -/
theorem completed_is_final_iff {d : Deployment} {s : State} (hs : Reachable d s)
    (ls : List Event) :
    CompletedIsFinal d s ls ↔
      (system d).Guarded (fun s e => ¬ Reopens d s.world e) s ls := by
  have hinv := finalityInv_of_reachable hs
  constructor
  · intro hfinal
    rw [System.guarded_iff]
    rintro pre e post t t' rfl hrun hstep hreopens
    refine hreopens.not_keepsCompleted hstep ?_
    exact (hfinal pre [e] post t t' rfl hrun (System.run_cons_eq_some.mpr ⟨t', hstep, rfl⟩)).1
  · rintro hg pre mid post s₁ s₂ rfl hpre hmid
    have hinv₁ : FinalityInv d s₁ := finalityInv_of_reachable (hs.run hpre)
    have hg₁ := hg.after hpre
    have hgmid : (system d).Guarded (fun s e => ¬ Reopens d s.world e) s₁ mid := by
      rw [System.guarded_iff] at hg₁ ⊢
      rintro pre' e post' t t' rfl hrun hstep
      exact hg₁ pre' e (post' ++ post) t t' (by simp) hrun hstep
    obtain ⟨hinv₂, hext, hkeeps⟩ := keeps_of_guarded hinv₁ hgmid hmid
    exact ⟨hkeeps, hkeeps.keepsReady hinv₁ hinv₂ hext⟩

/-- A chunk at another offset reopens nothing. -/
theorem completed_is_final_refused :
    CompletedIsFinal .default ⟨World.initial .sqlite, []⟩
      (Sample.uploaded ++ [Sample.append [1] 7]) :=
  (completed_is_final_iff Sample.reachable_start _).mpr (by decide +kernel)

theorem Sample.runs_late_retry :
    ((system .default).run ((Sample.run Sample.uploaded).get Sample.runs_uploaded)
      [Sample.append [1] 0]).isSome = true := by
  decide +kernel

/-- A late retry of the first chunk sets the completed item back to uploading. -/
theorem completed_not_final :
    ¬ ∀ (d : Deployment) (s : State) (ls : List Event), Reachable d s → CompletedIsFinal d s ls := by
  intro h
  obtain ⟨hkeeps, -⟩ := h .default _ Sample.reopened Sample.reachable_start Sample.uploaded
    [Sample.append [1] 0] [] _ _ rfl (Option.some_get Sample.runs_uploaded).symm
    (Option.some_get Sample.runs_late_retry).symm
  revert hkeeps
  decide +kernel

end SessionService

end Jumbox
