import Jumbox.Sessions.Invariant

/-!
# Users cannot touch each other's sessions

The six calls a signed-in user makes with arbitrary identifiers. One step of
them leaves everything under a session of somebody else alone, so a run of them
does, and what they return is the user's own.
-/

namespace Jumbox

namespace SessionService

/-- The calls `u` can make on sessions. -/
def Call.By (u : AuthenticatedUser) : Call → Prop
  | .deleteSession _ owner _ => owner = u
  | .uploadItem _ owner _ _ _ _ => owner = u
  | .listMySessions owner _ => owner = u
  | .initResumableItem _ owner _ _ _ _ => owner = u
  | .getItemOffset _ _ owner => owner = u
  | .appendItemChunk c => c.owner = u
  | _ => False

theorem Call.By.not_unchecked {u : AuthenticatedUser} {c : Call} (h : c.By u) : ¬ c.Unchecked := by
  rintro ⟨htarget, hlist⟩
  cases c with
  | listMySessions owner limit => exact hlist owner limit rfl
  | createSession => exact h
  | burnSession => exact h
  | getSessionByCode => exact h
  | getSessionById => exact h
  | getSessionItem => exact h
  | cleanupExpiredSessions => exact h
  | deleteSession => cases htarget
  | uploadItem => cases htarget
  | initResumableItem => cases htarget
  | getItemOffset => cases htarget
  | appendItemChunk => cases htarget

/-- A row that lets a user in who is no admin is the user's own. -/
theorem Call.By.owns {u : AuthenticatedUser} {c : Call} (h : c.By u) (hadmin : u.isAdmin = false)
    {m : TransferSessionModel} (hallows : c.Allows m) (hasked : c.target.isSome) :
    m.ownerId = u.userId := by
  have hmine : ∀ owner : AuthenticatedUser, owner = u →
      (m.ownerId = owner.userId ∨ owner.isAdmin = true) → m.ownerId = u.userId := by
    rintro owner rfl (howner | hyes)
    · exact howner
    · rw [hadmin] at hyes
      cases hyes
  cases c with
  | deleteSession sid owner unlinkFails => exact hmine owner h (hallows _ rfl).2
  | uploadItem sid owner => exact hmine owner h (hallows _ rfl).2
  | initResumableItem sid owner => exact hmine owner h (hallows _ rfl).2
  | getItemOffset sid iid owner => exact hmine owner h (hallows _ rfl).2
  | appendItemChunk c => exact hmine c.owner h (hallows _ rfl).2
  | listMySessions => cases hasked
  | createSession => cases hasked
  | burnSession => cases hasked
  | getSessionByCode => cases hasked
  | getSessionById => cases hasked
  | getSessionItem => cases hasked
  | cleanupExpiredSessions => cases hasked

/-! ## What is left alone -/

/-- Nothing of session `sid` has changed: its row, its item rows, its part files
and its stored files. -/
structure Untouched (d : Deployment) (sid : Uuid) (w w' : World) : Prop where
  session : ∀ m : TransferSessionModel, m.id = sid →
    (m ∈ w'.db.sessions.rows ↔ m ∈ w.db.sessions.rows)
  items : ∀ i : TransferItem, i.sessionId = sid → (i ∈ w'.db.items.rows ↔ i ∈ w.db.items.rows)
  parts : ∀ p, d.tempDir.join sid.str <+: p → w'.files p = w.files p
  stored : ∀ p, d.uploadsDir.join sid.str <+: p → w'.files p = w.files p

theorem Untouched.refl (d : Deployment) (sid : Uuid) (w : World) : Untouched d sid w w :=
  ⟨fun _ _ => Iff.rfl, fun _ _ => Iff.rfl, fun _ _ => rfl, fun _ _ => rfl⟩

theorem Untouched.trans {d : Deployment} {sid : Uuid} {w w' w'' : World}
    (h : Untouched d sid w w') (h' : Untouched d sid w' w'') : Untouched d sid w w'' where
  session m hm := (h'.session m hm).trans (h.session m hm)
  items i hi := (h'.items i hi).trans (h.items i hi)
  parts p hp := (h'.parts p hp).trans (h.parts p hp)
  stored p hp := (h'.stored p hp).trans (h.stored p hp)

/-- A path of one session is under no directory of another. -/
theorem notUnder {d : Deployment} {sid sid' : Uuid} (hne : sid' ≠ sid) {p : Path}
    (h : d.tempDir.join sid.str <+: p ∨ d.uploadsDir.join sid.str <+: p) :
    (∀ iid, p ≠ ChunkStorage.partPath d sid' iid) ∧
      ∀ i : TransferItem, i.sessionId = sid' → p ≠ itemPath d i := by
  have hstr : sid'.str ≠ sid.str := fun heq => hne (Uuid.str_injective heq)
  have hunder : ∀ dir : Path, ∀ name : Str, ¬ dir ++ [sid.str] <+: dir ++ [sid'.str, name] := by
    intro dir name hpre
    rw [List.prefix_append_right_inj] at hpre
    obtain ⟨t, ht⟩ := hpre
    exact hstr (List.cons.inj ht).1.symm
  constructor
  · rintro iid rfl
    rw [ChunkStorage.partPath_eq, Path.join_of_plain (ChunkStorage.plain_str sid),
      Path.join_of_plain (ChunkStorage.plain_str sid)] at h
    rcases h with h | ⟨t, ht⟩
    · exact hunder _ _ h
    · rw [List.append_assoc] at ht
      exact d.temp_ne_uploads _ _ ht.symm
  · rintro i rfl rfl
    rw [itemPath, ChunkStorage.destPath_eq d _ _ (slash_notMem_sanitizeFilename d i.originalName),
      Path.join_of_plain (ChunkStorage.plain_str sid),
      Path.join_of_plain (ChunkStorage.plain_str sid)] at h
    rcases h with ⟨t, ht⟩ | h
    · rw [List.append_assoc] at ht
      exact d.temp_ne_uploads _ _ ht
    · exact hunder _ _ h

/-- Files that change at paths of session `sid'` only leave `sid` alone. -/
theorem Untouched.of_paths {d : Deployment} {sid sid' : Uuid} (hne : sid' ≠ sid) {w w' : World}
    (hsession : ∀ m : TransferSessionModel, m.id = sid →
      (m ∈ w'.db.sessions.rows ↔ m ∈ w.db.sessions.rows))
    (hitems : ∀ i : TransferItem, i.sessionId = sid →
      (i ∈ w'.db.items.rows ↔ i ∈ w.db.items.rows))
    (hfiles : ∀ p, (∀ iid, p ≠ ChunkStorage.partPath d sid' iid) →
      (∀ i : TransferItem, i.sessionId = sid' → p ≠ itemPath d i) → w'.files p = w.files p) :
    Untouched d sid w w' := by
  refine ⟨hsession, hitems, ?_, ?_⟩
  · intro p hp
    obtain ⟨hpart, hstored⟩ := notUnder hne (Or.inl hp)
    exact hfiles p hpart hstored
  · intro p hp
    obtain ⟨hpart, hstored⟩ := notUnder hne (Or.inr hp)
    exact hfiles p hpart hstored

theorem putSession_untouched {t : Table TransferSessionModel.id} {m' : TransferSessionModel}
    {sid : Uuid} (hne : m'.id ≠ sid) (m : TransferSessionModel) (hm : m.id = sid) :
    m ∈ (t.put m').rows ↔ m ∈ t.rows :=
  Table.mem_put_of_ne fun heq => hne (heq.symm.trans hm)

theorem putItem_untouched {t : Table TransferItem.id} {k : TransferItem} {sid : Uuid}
    (hne : k.sessionId ≠ sid) (hrow : ∀ i ∈ t.rows, i.id = k.id → i.sessionId ≠ sid)
    (i : TransferItem) (hi : i.sessionId = sid) : i ∈ (t.put k).rows ↔ i ∈ t.rows := by
  rw [Table.mem_put]
  constructor
  · rintro (rfl | ⟨hmem, -⟩)
    · exact absurd hi hne
    · exact hmem
  · intro hmem
    exact Or.inr ⟨hmem, fun hid => hrow i hmem hid hi⟩

/-- One call of `u` leaves every session alone that `u` does not own. -/
theorem Effect.untouched {d : Deployment} {s : State} {e : Event} {w' : World}
    (hissued : Issued d s) (hfresh : ∀ id ∈ e.call.newId, id ∉ s.uuids)
    {u : AuthenticatedUser} (hby : e.call.By u) (hadmin : u.isAdmin = false) {sid : Uuid}
    (hforeign : ∀ m ∈ s.world.db.sessions.rows, m.id = sid → m.ownerId ≠ u.userId)
    (heff : Effect d s.world e w') : Untouched d sid s.world w' := by
  have hne : ∀ {m : TransferSessionModel}, m ∈ s.world.db.sessions.rows → e.call.Allows m →
      e.call.target.isSome → m.id ≠ sid := by
    intro m hm hallows hasked hid
    exact hforeign m hm hid (hby.owns hadmin hallows hasked)
  have hasked : ∀ {c : ChunkRequest}, e.call = .appendItemChunk c → e.call.target.isSome := by
    intro c hcall
    rw [hcall]
    rfl
  have hnew : ∀ {k : TransferItem}, e.call.newId = some k.id →
      ∀ i ∈ s.world.db.items.rows, i.id = k.id → i.sessionId ≠ sid := by
    intro k hk i hi hid
    exact absurd (hid ▸ hissued.items i hi) (hfresh k.id hk)
  have hsame : ∀ {k i₀ : TransferItem}, i₀ ∈ s.world.db.items.rows → i₀.id = k.id →
      i₀.sessionId ≠ sid → ∀ i ∈ s.world.db.items.rows, i.id = k.id → i.sessionId ≠ sid := by
    intro k i₀ hi₀ hid hsid i hi hiid
    rw [Table.eq_of_mem hi hi₀ (hiid.trans hid.symm)]
    exact hsid
  cases heff with
  | unchanged => exact .refl d sid _
  | expired hm hallows hmine =>
      rcases hmine with hmine | hun
      · have hsid' := hne hm hallows hmine
        exact .of_paths hsid' (putSession_untouched hsid') (fun _ _ => Iff.rfl) fun _ _ _ => rfl
      · exact absurd hun hby.not_unchecked
  | created hun => exact absurd hun hby.not_unchecked
  | itemAdded hm hallows hmine hid hsid =>
      have hsid' := hne hm hallows hmine
      exact .of_paths hsid' (fun _ _ => Iff.rfl)
        (putItem_untouched (hsid ▸ hsid') (hnew hid)) fun _ _ _ => rfl
  | uploadFailed hm hallows hmine hid hsid =>
      have hsid' := hne hm hallows hmine
      refine .of_paths hsid' (fun _ _ => Iff.rfl)
        (putItem_untouched (hsid ▸ hsid') (hnew hid)) ?_
      intro p _ hp
      exact Files.write_ne (hp _ hsid)
  | uploaded hm hallows hmine hid hsid =>
      have hsid' := hne hm hallows hmine
      refine .of_paths hsid' (putSession_untouched hsid')
        (putItem_untouched (hsid ▸ hsid') (hnew hid)) ?_
      intro p _ hp
      exact Files.write_ne (hp _ hsid)
  | chunkContinued hcall hacc =>
      have hallows := hacc.session.allows (c := e.call) (by rw [hcall]; rfl)
      have hsid' := hne hacc.session.mem hallows (hasked hcall)
      have hitem := hacc.sessionId.trans hacc.session.id.symm
      refine .of_paths hsid' (fun _ _ => Iff.rfl)
        (putItem_untouched (hitem ▸ hsid') (hsame hacc.mem rfl (hitem ▸ hsid'))) ?_
      intro p hp _
      exact appended_ne (hacc.session.id ▸ hp _)
  | chunkRejected hcall hacc =>
      have hallows := hacc.session.allows (c := e.call) (by rw [hcall]; rfl)
      have hsid' := hne hacc.session.mem hallows (hasked hcall)
      refine .of_paths hsid' (fun _ _ => Iff.rfl) (fun _ _ => Iff.rfl) ?_
      intro p hp _
      exact appended_ne (hacc.session.id ▸ hp _)
  | @chunkFinished m i c t hcall hacc =>
      have hallows := hacc.session.allows (c := e.call) (by rw [hcall]; rfl)
      have hsid' := hne hacc.session.mem hallows (hasked hcall)
      have hitem := hacc.sessionId.trans hacc.session.id.symm
      refine .of_paths hsid' (putSession_untouched hsid')
        (putItem_untouched (hitem ▸ hsid') (hsame hacc.mem rfl (hitem ▸ hsid'))) ?_
      intro p hp hstored
      refine (published_part (hstored i hitem) (hitem ▸ hp _)).trans ?_
      exact appended_ne (hacc.session.id ▸ hp _)
  | burned hm hun => exact absurd hun hby.not_unchecked
  | @deleted m fs hm hallows hmine hparts =>
      have hsid' := hne hm hallows hmine
      refine .of_paths hsid' ?_ ?_ ?_
      · intro r hr
        rw [World.withDb_db, Db.mem_deleteById_sessions, and_iff_left]
        exact fun heq => hsid' (heq.symm.trans hr)
      · intro i hi
        refine ⟨Db.mem_of_mem_deleteById, fun hmem => Db.mem_deleteById_of_ne hmem ?_⟩
        exact fun heq => hsid' (heq.symm.trans hi)
      · intro p hp _
        rcases hparts p with heq | ⟨-, j, -, heq⟩
        · exact heq
        · exact absurd heq (hp _)
  | swept hun => exact absurd hun hby.not_unchecked

/-! ## What is returned -/

/-- A call that is turned away shows nothing. -/
theorem TurnedAway.respond_ne_ok {α : Type} {w : World} {sid : Uuid} {owner : AuthenticatedUser}
    {o : Outcome α} (h : TurnedAway w sid owner o) (shown : α → Response) (r : Response) :
    (respond shown o).1 ≠ .ok r := by
  cases h with
  | error err => exact nofun
  | expired => exact nofun

/-- What a call of `u` shows belongs to sessions of `u`. -/
theorem response_owned {d : Deployment} {w : World} {e : Event} {u : AuthenticatedUser}
    (hby : e.call.By u) (hadmin : u.isAdmin = false) {r : Response}
    (h : (exec d w e).1 = .ok r) :
    ∀ sid ∈ r.sessionIds, ∃ m ∈ w.db.sessions.rows, m.id = sid ∧ m.ownerId = u.userId := by
  have hmine : ∀ {m : TransferSessionModel} {owner : AuthenticatedUser}, owner = u →
      (m.ownerId = owner.userId ∨ owner.isAdmin = true) → m.ownerId = u.userId := by
    rintro m owner rfl (howner | hyes)
    · exact howner
    · rw [hadmin] at hyes
      cases hyes
  obtain ⟨now, call⟩ := e
  cases call with
  | createSession => exact absurd hby id
  | burnSession => exact absurd hby id
  | getSessionByCode => exact absurd hby id
  | getSessionById => exact absurd hby id
  | getSessionItem => exact absurd hby id
  | cleanupExpiredSessions => exact absurd hby id
  | deleteSession sid owner unlinkFails =>
      rcases deleteSession_cases d w sid owner unlinkFails with
        ⟨err, heq⟩ | ⟨m, -, -, -, fs, -, heq⟩
      · simp only [exec, respond, heq] at h
        cases h
      · simp only [exec, respond, heq] at h
        cases h
        simp [Response.sessionIds]
  | uploadItem sid owner name content size iid =>
      rcases uploadItem_cases d w now sid owner name content size iid with haway | ⟨m, hm⟩
      · exact absurd h (haway.respond_ne_ok _ r)
      · rw [exec] at h
        simp only [respond, uploadItem_of_open hm] at h
        cases hfailure : content.failure with
        | some message =>
            rw [hfailure] at h
            cases h
        | none =>
            rw [hfailure] at h
            cases h
            intro x hx
            obtain rfl : x = sid := List.mem_singleton.mp hx
            exact ⟨m, hm.mem, hm.id, hmine hby hm.allowed⟩
  | listMySessions owner limit =>
      cases h
      intro x hx
      obtain ⟨s, hs, hx⟩ := List.mem_flatMap.mp hx
      obtain ⟨m, hm, rfl⟩ := List.mem_map.mp hs
      have hmem := List.mem_of_mem_take hm
      rw [List.mem_insertionSort, List.mem_filter] at hmem
      have howner : m.ownerId = owner.userId := of_decide_eq_true hmem.2
      obtain rfl : owner = u := hby
      refine ⟨m, hmem.1, ?_, howner⟩
      rcases List.mem_cons.mp hx with rfl | hx
      · rfl
      · obtain ⟨i, hi, rfl⟩ := List.mem_map.mp hx
        exact (Db.mem_itemsOf.mp hi).2.symm
  | initResumableItem sid owner name total expected iid =>
      rcases initResumableItem_cases d w now sid owner name total expected iid with
        haway | ⟨m, hm⟩
      · exact absurd h (haway.respond_ne_ok _ r)
      · simp only [exec, respond, initResumableItem_of_open hm] at h
        cases h
        intro x hx
        obtain rfl : x = sid := List.mem_singleton.mp hx
        exact ⟨m, hm.mem, hm.id, hmine hby hm.allowed⟩
  | getItemOffset sid iid owner =>
      rcases getItemOffset_cases d w sid iid owner with
        ⟨err, heq⟩ | ⟨m, i, hm, hid, hallow, -, -, hsid, heq⟩
      · simp only [exec, respond, heq] at h
        cases h
      · simp only [exec, respond, heq] at h
        cases h
        intro x hx
        obtain rfl : x = i.sessionId := List.mem_singleton.mp hx
        exact ⟨m, hm, hid.trans hsid.symm, hmine hby hallow⟩
  | appendItemChunk c =>
      rcases appendItemChunk_cases d w now c with haway | ⟨m, i, hacc⟩
      · exact absurd h (haway.respond_ne_ok _ r)
      · have hown := hmine hby hacc.session.allowed
        have hid := hacc.session.id.trans hacc.sessionId.symm
        rcases appendItemChunk_accepted hacc with ⟨-, heq⟩ | ⟨-, err, -, heq⟩ | ⟨-, -, t, heq⟩
        · simp only [exec, respond, heq] at h
          cases h
          intro x hx
          obtain rfl : x = i.sessionId := List.mem_singleton.mp hx
          exact ⟨m, hacc.session.mem, hid, hown⟩
        · simp only [exec, respond, heq] at h
          cases h
        · simp only [exec, respond, heq] at h
          cases h
          intro x hx
          obtain rfl : x = i.sessionId := List.mem_singleton.mp hx
          exact ⟨m, hacc.session.mem, hid, hown⟩

/-! ## Runs -/

/-- The sessions that are not `u`'s. -/
def Foreign (w : World) (u : AuthenticatedUser) (sid : Uuid) : Prop :=
  ∀ m ∈ w.db.sessions.rows, m.id = sid → m.ownerId ≠ u.userId

theorem run_untouched {d : Deployment} {u : AuthenticatedUser} (hadmin : u.isAdmin = false)
    {sid : Uuid} {ls : List Event} (hby : ∀ e ∈ ls, e.call.By u) :
    ∀ {s s' : State}, Inv d s → Foreign s.world u sid → (system d).run s ls = some s' →
      Untouched d sid s.world s'.world := by
  intro s s' hinv hforeign hrun
  have hall : Inv d s' ∧ Foreign s'.world u sid ∧ Untouched d sid s.world s'.world := by
    refine System.holds_of_run
      (P := fun t => Inv d t ∧ Foreign t.world u sid ∧ Untouched d sid s.world t.world)
      ?_ ⟨hinv, hforeign, .refl d sid _⟩ hby hrun
    rintro t e t' ⟨hinv, hforeign, huntouched⟩ he hstep
    have hinv' := hinv.step hstep
    obtain ⟨htaken, rfl⟩ := system_step.mp hstep
    have hstep' := (exec_effect htaken).untouched hinv.issued htaken.1 he hadmin hforeign
    refine ⟨hinv', ?_, huntouched.trans hstep'⟩
    intro m hm hid
    exact hforeign m ((hstep'.session m hid).mp hm) hid
  exact hall.2.2

/-- From any reachable state, whatever a user who is no admin calls with whatever
identifiers: nothing of other users' sessions changes, and nothing of them is
returned. -/
theorem other_sessions_untouched {d : Deployment} {s s' : State} (hs : Reachable d s)
    {u : AuthenticatedUser} (hadmin : u.isAdmin = false) {ls : List Event}
    (hby : ∀ e ∈ ls, e.call.By u) (hrun : (system d).run s ls = some s') :
    (∀ sid, Foreign s.world u sid → Untouched d sid s.world s'.world) ∧
    ∀ pre e post t r, ls = pre ++ e :: post → (system d).run s pre = some t →
      (exec d t.world e).1 = .ok r → ∀ sid ∈ r.sessionIds, ¬ Foreign s.world u sid := by
  have hinv := inv_of_reachable hs
  refine ⟨fun sid hforeign => run_untouched hadmin hby hinv hforeign hrun, ?_⟩
  rintro pre e post t r rfl hpre hres sid hsid hforeign
  have hbypre : ∀ e ∈ pre, e.call.By u := fun e he => hby e (List.mem_append_left _ he)
  have hbye : e.call.By u := hby e (List.mem_append_right _ List.mem_cons_self)
  obtain ⟨m, hm, hid, howner⟩ := response_owned hbye hadmin hres sid hsid
  have huntouched := run_untouched hadmin hbypre hinv hforeign hpre
  exact hforeign m ((huntouched.session m hid).mp hm) hid howner

namespace Sample

def guest : AuthenticatedUser := ⟨Uuid.ofNat 200, "guest@example.org".toList, false⟩

def guestSession : Uuid := Uuid.ofNat 3

/-- A session of the owner's with an item, and one of the guest's. -/
def shared : List Event :=
  [create false, upload [1, 2],
    ⟨1, .createSession guest 3600 false guestSession fun _ => draw 1⟩]

/-- The guest's own session with the owner's item, the owner's session with the
owner's item, and the owner's session itself. -/
def intrusion : List Event :=
  [⟨2, .appendItemChunk ⟨guestSession, itemId, guest, [9], 0⟩⟩,
    ⟨2, .appendItemChunk ⟨sessionId, itemId, guest, [9], 0⟩⟩,
    ⟨2, .deleteSession sessionId guest fun _ => false⟩]

theorem runs_shared : (run shared).isSome = true := by decide +kernel

theorem runs_intrusion :
    ((system .default).run ((run shared).get runs_shared) intrusion).isSome = true := by
  decide +kernel

theorem foreign_shared : Foreign ((run shared).get runs_shared).world guest sessionId := by
  unfold Foreign
  decide +kernel

end Sample

theorem other_sessions_untouched_sample :
    Untouched .default Sample.sessionId ((Sample.run Sample.shared).get Sample.runs_shared).world
      (((system .default).run ((Sample.run Sample.shared).get Sample.runs_shared)
        Sample.intrusion).get Sample.runs_intrusion).world := by
  have hby : ∀ e ∈ Sample.intrusion, e.call.By Sample.guest := by
    intro e he
    simp only [Sample.intrusion, List.mem_cons, List.not_mem_nil, or_false] at he
    rcases he with rfl | rfl | rfl
    · rfl
    · rfl
    · rfl
  obtain ⟨huntouched, -⟩ := other_sessions_untouched (Sample.reachable_run Sample.runs_shared)
    (show Sample.guest.isAdmin = false from rfl) hby (Option.some_get Sample.runs_intrusion).symm
  exact huntouched Sample.sessionId Sample.foreign_shared

end SessionService

end Jumbox
