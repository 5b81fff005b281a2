import Jumbox.Sessions.Finality

/-!
# The reported status is what has happened

The status of a loaded session is partly derived from its items and partly read
from a column that the derived status is written back to. The column goes stale,
but never where it is read: a session is reported as expired exactly if a call
has burned it or has found its expiry date in the past, and otherwise as its
items say.
-/

namespace Jumbox

namespace SessionService

/-! ## What the items say -/

/-- The status of a session that has not expired: ready if there are items and
all are complete, in progress if one is at least uploading, else pending. -/
structure SaidByItems (s : TransferSession) : Prop where
  ready : s.status = .ready ↔ s.items ≠ [] ∧ ∀ i ∈ s.items, i.status = .completed
  inProgress : s.status = .inProgress ↔
    ¬ (s.items ≠ [] ∧ ∀ i ∈ s.items, i.status = .completed) ∧
      ∃ i ∈ s.items, i.status = .uploading ∨ i.status = .completed
  pending : s.status = .pending ↔
    ¬ (s.items ≠ [] ∧ ∀ i ∈ s.items, i.status = .completed) ∧
      ¬ ∃ i ∈ s.items, i.status = .uploading ∨ i.status = .completed

/-- The stored status counts only while there are no items. -/
theorem saidByItems {s : TransferSession} (hexpired : s.status_ ≠ .expired)
    (hcancelled : s.status_ ≠ .cancelled) (hnil : s.items = [] → s.status_ = .pending) :
    SaidByItems s := by
  have hsticky : ¬ (s.status_ = .expired ∨ s.status_ = .cancelled) := by
    simp only [hexpired, hcancelled, or_self, not_false_eq_true]
  by_cases hdone : s.items ≠ [] ∧ ∀ i ∈ s.items, i.status = .completed
  · have hstatus : s.status = .ready :=
      (TransferSession.status_eq_ready_iff hdone.1).mpr ⟨hexpired, hcancelled, hdone.2⟩
    refine ⟨iff_of_true hstatus hdone, iff_of_false ?_ fun h => h.1 hdone,
      iff_of_false ?_ fun h => h.1 hdone⟩
    · rw [hstatus]
      decide
    · rw [hstatus]
      decide
  by_cases hany : ∃ i ∈ s.items, i.status = .uploading ∨ i.status = .completed
  · have hne : s.items ≠ [] := by
      rintro hempty
      obtain ⟨i, hi, -⟩ := hany
      rw [hempty] at hi
      cases hi
    have hstatus : s.status = .inProgress := by
      rw [TransferSession.status, if_neg hsticky, if_neg hne, if_neg, if_pos]
      · simpa using hany
      · intro hall
        exact hdone ⟨hne, by simpa using hall⟩
    refine ⟨iff_of_false ?_ hdone, iff_of_true hstatus ⟨hdone, hany⟩,
      iff_of_false ?_ fun h => h.2 hany⟩
    · rw [hstatus]
      decide
    · rw [hstatus]
      decide
  · have hstatus : s.status = .pending := by
      rw [TransferSession.status, if_neg hsticky]
      split
      · rename_i hempty
        exact hnil hempty
      · rename_i hne
        rw [if_neg, if_neg]
        · simpa using hany
        · intro hall
          exact hdone ⟨hne, by simpa using hall⟩
    refine ⟨iff_of_false ?_ hdone, iff_of_false ?_ fun h => hany h.2,
      iff_of_true hstatus ⟨hdone, hany⟩⟩
    · rw [hstatus]
      decide
    · rw [hstatus]
      decide

/-! ## Looking at the expiry date -/

/-- A row that passes the ownership check and is past its expiry date. -/
structure LateFor (w : World) (now : ℤ) (sessionId : Uuid) (owner : AuthenticatedUser)
    (m : TransferSessionModel) : Prop where
  mem : m ∈ w.db.sessions.rows
  id : m.id = sessionId
  allowed : m.ownerId = owner.userId ∨ owner.isAdmin = true
  late : m.expiresAt.any (· < now) = true

/-- The call gets as far as checking the expiry date of `m`. -/
def Call.Checks (w : World) (c : Call) (m : TransferSessionModel) : Prop :=
  match c with
  | .uploadItem sid owner _ _ _ _ => m.id = sid ∧ (m.ownerId = owner.userId ∨ owner.isAdmin = true)
  | .initResumableItem sid owner _ _ _ _ =>
      m.id = sid ∧ (m.ownerId = owner.userId ∨ owner.isAdmin = true)
  | .appendItemChunk c => m.id = c.sessionId ∧ (m.ownerId = c.owner.userId ∨ c.owner.isAdmin = true)
  | .getSessionByCode code => (w.db.getByCode code).map (·.id) = some m.id
  | .getSessionItem code _ => (w.db.getByCode code).map (·.id) = some m.id
  | _ => False

/-- The call burns `m`, or finds its expiry date in the past. -/
def Expires (w : World) (e : Event) (m : TransferSessionModel) : Prop :=
  (∃ unlinkFails, e.call = .burnSession m.id unlinkFails) ∨
    (e.call.Checks w m ∧ m.expiresAt.any (· < e.now) = true)

theorem openForUpload_of_late {w : World} {now : ℤ} {sid : Uuid} {owner : AuthenticatedUser}
    {m : TransferSessionModel} (h : LateFor w now sid owner m) :
    openForUpload w now sid owner = (.error .sessionExpired, w.withDb (w.db.putStatus m .expired)) := by
  have hget : w.db.getById sid = some (w.db.sessionToDomain m) := h.id ▸ Db.getById_of_mem h.mem
  have hden : ¬ ((w.db.sessionToDomain m).ownerId ≠ owner.userId ∧ owner.isAdmin = false) :=
    (allowed_iff m owner).mpr h.allowed
  have hexp : isExpired now (w.db.sessionToDomain m).expiresAt = true :=
    (Db.isExpired_loadTimestamp _ _ _).trans h.late
  simp only [openForUpload, hget]
  rw [if_neg hden, if_pos hexp, expire_eq]

/-- The opening checks refuse without a look at the date, find it past, or pass. -/
theorem openForUpload_trichotomy (w : World) (now : ℤ) (sid : Uuid) (owner : AuthenticatedUser) :
    ((∃ e, openForUpload w now sid owner = (.error e, w)) ∧ ∀ m, ¬ LateFor w now sid owner m) ∨
      (∃ m, LateFor w now sid owner m) ∨ ∃ m, OpenFor w now sid owner m := by
  by_cases hlate : ∃ m, LateFor w now sid owner m
  · exact .inr (.inl hlate)
  by_cases hopen : ∃ m, OpenFor w now sid owner m
  · exact .inr (.inr hopen)
  refine .inl ⟨?_, fun m hm => hlate ⟨m, hm⟩⟩
  unfold openForUpload
  cases hget : w.db.getById sid with
  | none => exact ⟨_, rfl⟩
  | some session =>
      obtain ⟨m, hm, hid, rfl⟩ := Db.getById_eq_some.mp hget
      by_cases hden : m.ownerId ≠ owner.userId ∧ owner.isAdmin = false
      · exact ⟨_, if_pos hden⟩
      · have hallow := (allowed_iff m owner).mp hden
        cases hdate : m.expiresAt.any (· < now) with
        | true => exact absurd ⟨m, hm, hid, hallow, hdate⟩ hlate
        | false => exact absurd ⟨m, hm, hid, hallow, hdate⟩ hopen

/-! ## One call -/

section Call

variable {d : Deployment} {w : World} {e : Event} {r m k : TransferSessionModel}

/-- What is to be shown of a row `r` that was `m`: it is stored as expired if it
was, or if the call has expired it. -/
def Tells (w : World) (e : Event) (r m : TransferSessionModel) : Prop :=
  r.status = .expired ↔ m.status = .expired ∨ Expires w e m

theorem tells_of_mem (hr : r ∈ w.db.sessions.rows) (hm : m ∈ w.db.sessions.rows)
    (hid : r.id = m.id) (hnot : ¬ Expires w e m) : Tells w e r m := by
  rw [Tells, Table.eq_of_mem hr hm hid]
  exact (or_iff_left hnot).symm

/-- The row `k` is rewritten as expired, by a call that expires it and no other. -/
theorem tells_of_put {k' : TransferSessionModel} (hk : k'.id = k.id) (hstatus : k'.status = .expired)
    (hr : r ∈ (w.db.sessions.put k').rows) (hm : m ∈ w.db.sessions.rows) (hid : r.id = m.id)
    (hexpires : Expires w e m ↔ m.id = k.id) : Tells w e r m := by
  rcases Table.mem_put.mp hr with rfl | ⟨hr, hne⟩
  · exact iff_of_true hstatus (.inr (hexpires.mpr (hid.symm.trans hk)))
  · apply tells_of_mem hr hm hid
    intro h
    exact hne (hid.trans ((hexpires.mp h).trans hk.symm))

/-- A closing transaction writes the derived status, which is expired only if the
stored one was. -/
theorem tells_of_closed {i : TransferItem} (hk : k ∈ w.db.sessions.rows)
    (hr : r ∈ (closed w.db k i).sessions.rows) (hm : m ∈ w.db.sessions.rows) (hid : r.id = m.id)
    (hnot : ¬ Expires w e m) : Tells w e r m := by
  rcases mem_closed_sessions.mp hr with rfl | ⟨hr, -⟩
  · obtain rfl := Table.eq_of_mem hk hm hid
    refine Iff.trans ?_ (or_iff_left hnot).symm
    exact TransferSession.status_eq_expired_iff
  · exact tells_of_mem hr hm hid hnot

/-- The calls that open with the same checks: where they are turned away. -/
theorem tells_of_turned {α : Type} {call : Call} (now : ℤ) (sid : Uuid) (owner : AuthenticatedUser)
    (o : Outcome α)
    (hchecks : ∀ m, call.Checks w m ↔ m.id = sid ∧ (m.ownerId = owner.userId ∨ owner.isAdmin = true))
    (hburn : ∀ sid unlinkFails, call ≠ .burnSession sid unlinkFails)
    (herror : ∀ e w', openForUpload w now sid owner = (.error e, w') → o.2 = w')
    (hopen : ∀ m, OpenFor w now sid owner m → (o.2.db.sessions = w.db.sessions ∨
      ∃ i, o.2.db.sessions = (closed w.db m i).sessions))
    (hr : r ∈ o.2.db.sessions.rows) (hm : m ∈ w.db.sessions.rows) (hid : r.id = m.id) :
    Tells w ⟨now, call⟩ r m := by
  have hexpires : ∀ m ∈ w.db.sessions.rows,
      Expires w ⟨now, call⟩ m ↔ LateFor w now sid owner m := by
    intro m hm
    constructor
    · rintro (⟨unlinkFails, hcall⟩ | ⟨hcheck, hlate⟩)
      · exact absurd hcall (hburn m.id unlinkFails)
      · obtain ⟨hid, hallow⟩ := (hchecks m).mp hcheck
        exact ⟨hm, hid, hallow, hlate⟩
    · intro h
      exact .inr ⟨(hchecks m).mpr ⟨h.id, h.allowed⟩, h.late⟩
  rcases openForUpload_trichotomy w now sid owner with ⟨⟨err, heq⟩, hnone⟩ | ⟨k, hk⟩ | ⟨k, hk⟩
  · rw [herror _ _ heq] at hr
    exact tells_of_mem hr hm hid fun h => hnone m ((hexpires m hm).mp h)
  · rw [herror _ _ (openForUpload_of_late hk)] at hr
    have hrow : r ∈ (w.db.sessions.put { k with status := .expired }).rows := hr
    refine tells_of_put (k := k) ?_ ?_ hrow hm hid ⟨fun h => ?_, fun h => ?_⟩
    · rfl
    · rfl
    · exact ((hexpires m hm).mp h).id.trans hk.id.symm
    · obtain rfl := Table.eq_of_mem hm hk.mem h
      exact (hexpires m hm).mpr hk
  · have hnot : ¬ Expires w ⟨now, call⟩ m := by
      intro h
      have hlate := (hexpires m hm).mp h
      obtain rfl := Table.eq_of_mem hm hk.mem (hlate.id.trans hk.id.symm)
      have hpast := hlate.late
      rw [hk.live] at hpast
      cases hpast
    rcases hopen k hk with hsame | ⟨i, hclosed⟩
    · rw [hsame] at hr
      exact tells_of_mem hr hm hid hnot
    · rw [hclosed] at hr
      exact tells_of_closed hk.mem hr hm hid hnot

/-- A call that neither burns a row nor looks at its date. -/
theorem not_expires_of {now : ℤ} {call : Call} {m : TransferSessionModel}
    (hburn : ∀ sid unlinkFails, call ≠ .burnSession sid unlinkFails) (hchecks : ¬ call.Checks w m) :
    ¬ Expires w ⟨now, call⟩ m := by
  rintro (⟨unlinkFails, hcall⟩ | ⟨hcheck, -⟩)
  · exact hburn m.id unlinkFails hcall
  · exact hchecks hcheck

/-- The look-ups by share code. -/
theorem tells_of_lookup {now : ℤ} {call : Call} {code : Str} {w' : World}
    (hchecks : ∀ m, call.Checks w m ↔ (w.db.getByCode code).map (·.id) = some m.id)
    (hburn : ∀ sid unlinkFails, call ≠ .burnSession sid unlinkFails)
    (hnone : w.db.getByCode code = none → w' = w)
    (hlate : ∀ k ∈ w.db.sessions.rows, w.db.getByCode code = some (w.db.sessionToDomain k) →
      isExpired now (w.db.sessionToDomain k).expiresAt = true →
        w' = w.withDb (w.db.putStatus k .expired))
    (hlive : ∀ k ∈ w.db.sessions.rows, w.db.getByCode code = some (w.db.sessionToDomain k) →
      isExpired now (w.db.sessionToDomain k).expiresAt = false → w' = w)
    (hr : r ∈ w'.db.sessions.rows) (hm : m ∈ w.db.sessions.rows) (hid : r.id = m.id) :
    Tells w ⟨now, call⟩ r m := by
  cases hget : w.db.getByCode code with
  | none =>
      rw [hnone hget] at hr
      apply tells_of_mem hr hm hid
      apply not_expires_of hburn
      rw [hchecks, hget]
      exact nofun
  | some s =>
      obtain ⟨k, hk, -, rfl⟩ := Db.getByCode_eq_some hget
      have hresolves : call.Checks w m ↔ m = k := by
        rw [hchecks, hget]
        constructor
        · intro h
          exact Table.eq_of_mem hm hk (Option.some.inj h).symm
        · rintro rfl
          rfl
      have hexpires : Expires w ⟨now, call⟩ m ↔ m = k ∧ m.expiresAt.any (· < now) = true := by
        constructor
        · rintro (⟨unlinkFails, hcall⟩ | ⟨hcheck, hpast⟩)
          · exact absurd hcall (hburn m.id unlinkFails)
          · exact ⟨hresolves.mp hcheck, hpast⟩
        · rintro ⟨hmk, hpast⟩
          exact .inr ⟨hresolves.mpr hmk, hpast⟩
      cases hdate : k.expiresAt.any (· < now) with
      | true =>
          rw [hlate k hk hget ((Db.isExpired_loadTimestamp _ _ _).trans hdate)] at hr
          have hrow : r ∈ (w.db.sessions.put { k with status := .expired }).rows := hr
          refine tells_of_put (k := k) ?_ ?_ hrow hm hid ?_
          · rfl
          · rfl
          · rw [hexpires]
            constructor
            · rintro ⟨rfl, -⟩
              rfl
            · intro h
              obtain rfl := Table.eq_of_mem hm hk h
              exact ⟨rfl, hdate⟩
      | false =>
          rw [hlive k hk hget ((Db.isExpired_loadTimestamp _ _ _).trans hdate)] at hr
          apply tells_of_mem hr hm hid
          rw [hexpires]
          rintro ⟨rfl, hpast⟩
          rw [hdate] at hpast
          cases hpast

/-- Writing an expired session back as expired changes nothing. -/
theorem putStatus_of_expired {db : Db} (hk : k ∈ db.sessions.rows) (h : k.status = .expired) :
    db.putStatus k .expired = db := by
  have hrow : { k with status := .expired } = k := by rw [← h]
  rw [Db.putStatus, hrow, Table.put_of_mem hk]

theorem appendItemChunk_sessions {now : ℤ} {c : ChunkRequest}
    (h : OpenFor w now c.sessionId c.owner m) :
    (appendItemChunk d w now c).2.db.sessions = w.db.sessions ∨
      ∃ i, (appendItemChunk d w now c).2.db.sessions = (closed w.db m i).sessions := by
  cases hfind : findItem w c.sessionId c.itemId with
  | error e =>
      left
      simp only [appendItemChunk, openChunk, openForUpload_of_open h, hfind]
  | ok i =>
      obtain ⟨hi, hid, hsid⟩ := findItem_eq_ok.mp hfind
      by_cases hoff : c.offset = w.files.size (ChunkStorage.partPath d c.sessionId c.itemId)
      · rcases appendItemChunk_accepted ⟨h, hi, hid, hsid, hoff⟩ with
          ⟨-, heq⟩ | ⟨-, err, -, heq⟩ | ⟨-, -, t, heq⟩
        · rw [heq]
          exact .inl rfl
        · rw [heq]
          exact .inl rfl
        · rw [heq]
          exact .inr ⟨_, rfl⟩
      · left
        rw [appendItemChunk_of_open h hi hid hsid, ChunkStorage.checkOffset_eq_error hoff]

/-- A call leaves a row stored as expired exactly if it was, or the call expires it. -/
theorem exec_tells {s : State} (htaken : Taken d s e) (hissued : Issued d s)
    (hr : r ∈ (exec d s.world e).2.db.sessions.rows) (hm : m ∈ s.world.db.sessions.rows)
    (hid : r.id = m.id) : Tells s.world e r m := by
  obtain ⟨now, call⟩ := e
  cases call with
  | createSession owner secs burn sid draws =>
      have hnot : ¬ Expires s.world ⟨now, .createSession owner secs burn sid draws⟩ m :=
        not_expires_of (by rintro _ _ ⟨⟩) (fun h => h)
      rcases createSession_cases s.world now owner secs burn sid draws with
        ⟨err, heq⟩ | ⟨_, k, hk, -, heq⟩
      · simp only [exec, respond, heq] at hr
        exact tells_of_mem hr hm hid hnot
      · simp only [exec, respond, heq] at hr
        rcases Table.mem_put.mp hr with rfl | ⟨hr, -⟩
        · have hissued := hissued.sessions m hm
          rw [← hid, hk] at hissued
          exact absurd hissued (htaken.1 sid rfl)
        · exact tells_of_mem hr hm hid hnot
  | burnSession sid unlinkFails =>
      have hexpires : Expires s.world ⟨now, .burnSession sid unlinkFails⟩ m ↔ m.id = sid := by
        constructor
        · rintro (⟨_, hcall⟩ | ⟨hcheck, -⟩)
          · cases hcall
            rfl
          · exact absurd hcheck (fun h => h)
        · rintro rfl
          exact .inl ⟨unlinkFails, rfl⟩
      rcases burnSession_cases s.world sid unlinkFails with ⟨heq, hnone⟩ | ⟨k, hk, rfl, heq⟩
      · simp only [exec, respond, heq] at hr
        exact tells_of_mem hr hm hid fun h => hnone m hm (hexpires.mp h)
      · simp only [exec, respond, heq] at hr
        have hrow : r ∈ (s.world.db.sessions.put (burnedRow k)).rows := hr
        refine tells_of_put (k := k) ?_ ?_ hrow hm hid hexpires
        · rfl
        · rfl
  | deleteSession sid owner unlinkFails =>
      have hnot : ¬ Expires s.world ⟨now, .deleteSession sid owner unlinkFails⟩ m :=
        not_expires_of (by rintro _ _ ⟨⟩) (fun h => h)
      rcases deleteSession_cases d s.world sid owner unlinkFails with
        ⟨err, heq⟩ | ⟨k, hk, -, -, fs, -, heq⟩
      · simp only [exec, respond, heq] at hr
        exact tells_of_mem hr hm hid hnot
      · simp only [exec, respond, heq] at hr
        exact tells_of_mem (Db.mem_deleteById_sessions.mp hr).1 hm hid hnot
  | uploadItem sid owner name content size iid =>
      refine tells_of_turned now sid owner
        (uploadItem d s.world now sid owner name content size iid) (fun m => Iff.rfl)
        (by rintro _ _ ⟨⟩) ?_ ?_ hr hm hid
      · intro e w' heq
        rw [uploadItem, heq]
      · intro k hk
        rw [uploadItem_of_open hk]
        cases content.failure with
        | some message => exact .inl rfl
        | none => exact .inr ⟨_, rfl⟩
  | getSessionByCode code =>
      refine tells_of_lookup (fun m => Iff.rfl) (by rintro _ _ ⟨⟩) ?_ ?_ ?_ hr hm hid
      · intro hget
        simp only [exec, respond, getSessionByCode, hget]
      · intro k _ hget hexp
        simp only [exec, respond, getSessionByCode, hget, hexp, if_true, expire_eq]
      · intro k _ hget hexp
        simp only [exec, respond, getSessionByCode, hget, hexp, Bool.false_eq_true, if_false]
  | getSessionById sid => exact tells_of_mem hr hm hid (not_expires_of (by rintro _ _ ⟨⟩) fun h => h)
  | getSessionItem code iid =>
      refine tells_of_lookup (fun m => Iff.rfl) (by rintro _ _ ⟨⟩) ?_ ?_ ?_ hr hm hid
      · intro hget
        simp only [exec, respond, getSessionItem, hget]
      · intro k _ hget hexp
        simp only [exec, respond, getSessionItem, hget, hexp, true_or, if_true, expire_eq]
      · intro k hk hget hexp
        by_cases hexpired : (s.world.db.sessionToDomain k).status = .expired
        · have hstored : k.status = .expired := TransferSession.status_eq_expired_iff.mp hexpired
          simp only [exec, respond, getSessionItem, hget, hexpired, or_true, if_true, expire_eq,
            putStatus_of_expired hk hstored]
          rfl
        · simp only [exec, respond, getSessionItem, hget, hexp, hexpired, Bool.false_eq_true,
            or_self, if_false]
  | listMySessions owner limit =>
      exact tells_of_mem hr hm hid (not_expires_of (by rintro _ _ ⟨⟩) fun h => h)
  | initResumableItem sid owner name total expected iid =>
      refine tells_of_turned now sid owner
        (initResumableItem d s.world now sid owner name total expected iid) (fun m => Iff.rfl)
        (by rintro _ _ ⟨⟩) ?_ ?_ hr hm hid
      · intro e w' heq
        rw [initResumableItem, heq]
      · intro k hk
        rw [initResumableItem_of_open hk]
        exact .inl rfl
  | getItemOffset sid iid owner =>
      have hnot : ¬ Expires s.world ⟨now, .getItemOffset sid iid owner⟩ m :=
        not_expires_of (by rintro _ _ ⟨⟩) fun h => h
      rcases getItemOffset_cases d s.world sid iid owner with
        ⟨err, heq⟩ | ⟨_, _, -, -, -, -, -, -, heq⟩
      · simp only [exec, respond, heq] at hr
        exact tells_of_mem hr hm hid hnot
      · simp only [exec, respond, heq] at hr
        exact tells_of_mem hr hm hid hnot
  | appendItemChunk c =>
      refine tells_of_turned now c.sessionId c.owner (appendItemChunk d s.world now c)
        (fun m => Iff.rfl) (by rintro _ _ ⟨⟩) ?_ ?_ hr hm hid
      · intro e w' heq
        rw [appendItemChunk, openChunk, heq]
      · exact fun k hk => appendItemChunk_sessions hk
  | cleanupExpiredSessions deadline unlinkFails =>
      have hnot : ¬ Expires s.world ⟨now, .cleanupExpiredSessions deadline unlinkFails⟩ m :=
        not_expires_of (by rintro _ _ ⟨⟩) fun h => h
      obtain ⟨n, db, fs, hswept, heq⟩ := htaken.swept
      simp only [exec, respond, heq] at hr
      exact tells_of_mem (hswept.sessions r hr) hm hid hnot

end Call

/-! ## What is stored of a session without items -/

/-- A session that has never been written by a closing transaction, and has not
expired, is stored as it was created. -/
def StoredPending (w : World) : Prop :=
  ∀ m ∈ w.db.sessions.rows, w.db.itemsOf m.id = [] → m.status = .pending ∨ m.status = .expired

theorem StoredPending.step {d : Deployment} {s t : State} {e : Event} (hinv : Inv d s)
    (h : StoredPending s.world) (hstep : (system d).step s e = some t) :
    StoredPending t.world := by
  have hext := extends_of_step hinv hstep
  obtain ⟨htaken, rfl⟩ := system_step.mp hstep
  intro r hr hnil
  rcases (exec_effect htaken).session_row r hr with hold | ⟨hstatus, -⟩ | ⟨hstatus, -⟩ |
    ⟨m, -, -, -, i, hi, hsid⟩
  · apply h r hold
    apply List.eq_nil_iff_forall_not_mem.mpr
    intro i hi
    obtain ⟨hi, hsid⟩ := Db.mem_itemsOf.mp hi
    obtain ⟨j, hj, -, hjsid⟩ := hext.itemsKept i hi ⟨r, hr, hsid.symm⟩
    have hmem : j ∈ (exec d s.world e).2.db.itemsOf r.id :=
      Db.mem_itemsOf.mpr ⟨hj, hjsid.trans hsid⟩
    rw [hnil] at hmem
    cases hmem
  · exact .inr hstatus
  · exact .inl hstatus
  · have hmem : i ∈ (exec d s.world e).2.db.itemsOf r.id := Db.mem_itemsOf.mpr ⟨hi, hsid⟩
    rw [hnil] at hmem
    cases hmem

theorem storedPending_of_reachable {d : Deployment} {s : State} (h : Reachable d s) :
    StoredPending s.world := by
  suffices hboth : Inv d s ∧ StoredPending s.world from hboth.2
  refine System.Reachable.invariant (I := fun s => Inv d s ∧ StoredPending s.world) ?_ ?_ h
  · intro s hinit
    refine ⟨.initial hinit, ?_⟩
    obtain ⟨backend, rfl⟩ := hinit
    intro m hm
    cases hm
  · rintro s e t ⟨hinv, hstored⟩ hstep
    exact ⟨hinv.step hstep, hstored.step hinv hstep⟩

/-! ## Runs -/

/-- Some call of the run has expired the session. -/
def WasExpired (d : Deployment) (s : State) (ls : List Event) (sessionId : Uuid) : Prop :=
  ∃ pre e post t, ls = pre ++ e :: post ∧ (system d).run s pre = some t ∧
    ∃ m ∈ t.world.db.sessions.rows, m.id = sessionId ∧ Expires t.world e m

/-- A run expires a session before its last call or with it. -/
theorem wasExpired_snoc {d : Deployment} {s t : State} {ls : List Event} {e : Event}
    {sessionId : Uuid} (hrun : (system d).run s ls = some t) :
    WasExpired d s (ls ++ [e]) sessionId ↔ WasExpired d s ls sessionId ∨
      ∃ m ∈ t.world.db.sessions.rows, m.id = sessionId ∧ Expires t.world e m := by
  constructor
  · rintro ⟨pre, e', post, u, hsplit, hpre, hexpires⟩
    induction post using List.reverseRecOn with
    | nil =>
        obtain ⟨rfl, he⟩ := List.append_inj' hsplit rfl
        obtain rfl := Option.some.inj (hrun.symm.trans hpre)
        obtain rfl := (List.cons.inj he).1
        exact .inr hexpires
    | append_singleton post last _ =>
        have hassoc : ls ++ [e] = (pre ++ e' :: post) ++ [last] := by
          rw [hsplit, List.append_assoc, List.cons_append]
        obtain ⟨rfl, -⟩ := List.append_inj' hassoc rfl
        exact .inl ⟨pre, e', post, u, rfl, hpre, hexpires⟩
  · rintro (⟨pre, e', post, u, rfl, hpre, hexpires⟩ | hexpires)
    · exact ⟨pre, e', post ++ [e], u, by simp, hpre, hexpires⟩
    · exact ⟨ls, e, [], t, rfl, hrun, hexpires⟩

/-- An identifier that has not been issued is no session's yet, and was none's. -/
theorem not_wasExpired_of_fresh {d : Deployment} {s t : State} {ls : List Event} (hs : Inv d s)
    (hrun : (system d).run s ls = some t) {sessionId : Uuid} (hfresh : sessionId ∉ t.uuids) :
    ¬ WasExpired d s ls sessionId := by
  rintro ⟨pre, e, post, u, rfl, hpre, m, hm, rfl, -⟩
  obtain ⟨v, hv, hpost⟩ := System.run_append.mp hrun
  obtain rfl := Option.some.inj (hpre.symm.trans hv)
  have hu := (extends_of_run hs hpre).1
  exact hfresh ((extends_of_run hu hpost).2.uuids _ (hu.issued.sessions m hm))

/-- A session is stored as expired exactly if the run has expired it. The
induction is on the last call. -/
theorem stored_expired_iff {d : Deployment} {s t : State} {ls : List Event} (hs : Initial s)
    (hrun : (system d).run s ls = some t) :
    ∀ r ∈ t.world.db.sessions.rows, r.status = .expired ↔ WasExpired d s ls r.id := by
  induction ls using List.reverseRecOn generalizing t with
  | nil =>
      cases hrun
      obtain ⟨backend, rfl⟩ := hs
      intro r hr
      cases hr
  | append_singleton ls e ih =>
      obtain ⟨u, hbefore, hstep⟩ := System.run_snoc_eq_some.mp hrun
      have hu := (extends_of_run (.initial hs) hbefore).1
      obtain ⟨htaken, rfl⟩ := system_step.mp hstep
      intro r hr
      rw [wasExpired_snoc hbefore]
      by_cases hold : ∃ m ∈ u.world.db.sessions.rows, m.id = r.id
      · obtain ⟨m, hm, hid⟩ := hold
        refine Iff.trans (exec_tells htaken hu.issued hr hm hid.symm) ?_
        rw [ih hbefore m hm, hid]
        apply or_congr_right
        constructor
        · exact fun h => ⟨m, hm, hid, h⟩
        · rintro ⟨k, hk, hkid, h⟩
          rwa [Table.eq_of_mem hm hk (hid.trans hkid.symm)]
      · -- the call has just created the session
        rcases (exec_effect htaken).session_row r hr with hm | ⟨-, hm⟩ | ⟨hpending, hnew⟩ |
          ⟨m, hm, hid, -⟩
        · exact absurd ⟨r, hm, rfl⟩ hold
        · exact absurd hm hold
        · have hnot := not_wasExpired_of_fresh (.initial hs) hbefore (htaken.1 r.id hnew)
          apply iff_of_false
          · rw [hpending]
            exact nofun
          · rintro (h | ⟨m, hm, hid, -⟩)
            · exact hnot h
            · exact hold ⟨m, hm, hid⟩
        · exact absurd ⟨m, hm, hid.symm⟩ hold

/-- No look-up returns an item of a session that is stored as expired. -/
theorem getSessionItem_of_expired {w : World} {sessionId : Uuid}
    (hexpired : ∀ r ∈ w.db.sessions.rows, r.id = sessionId → r.status = .expired) {now : ℤ}
    {code : Str} {iid : Uuid} {session : TransferSession} {i : TransferItem}
    (hfound : (getSessionItem w now code iid).1 = .ok (some (session, i))) :
    i.sessionId ≠ sessionId := by
  rintro rfl
  rcases getSessionItem_cases w now code iid with heq | ⟨m, -, heq⟩ |
    ⟨m, j, hshared, -, -, hsid, heq⟩
  · rw [heq] at hfound
    cases hfound
  · rw [heq] at hfound
    cases hfound
  · rw [heq] at hfound
    cases hfound
    exact hshared.status (hexpired m hshared.mem hsid.symm)

/-- The status a session is loaded with is expired exactly if a call of the run
has expired it, and else what its items say; and once it is expired it stays so,
and none of its items is ever handed out again. -/
theorem reported_status_is_history {d : Deployment} {s t : State} {ls : List Event}
    (hs : Initial s) (hrun : (system d).run s ls = some t) {m : TransferSessionModel}
    (hm : m ∈ t.world.db.sessions.rows) :
    (WasExpired d s ls m.id → (t.world.db.sessionToDomain m).status = .expired) ∧
    (¬ WasExpired d s ls m.id → SaidByItems (t.world.db.sessionToDomain m)) ∧
    ((t.world.db.sessionToDomain m).status = .expired → ∀ ls' u, (system d).run t ls' = some u →
      (∀ r ∈ u.world.db.sessions.rows, r.id = m.id →
        (u.world.db.sessionToDomain r).status = .expired) ∧
      ∀ now code iid session i,
        (getSessionItem u.world now code iid).1 = .ok (some (session, i)) → i.sessionId ≠ m.id) := by
  have hreach : Reachable d t := System.Reachable.run (.start hs) hrun
  have hstored := stored_expired_iff hs hrun m hm
  refine ⟨?_, ?_, ?_⟩
  · intro hexpired
    exact TransferSession.status_of_expired (hstored.mpr hexpired)
  · intro hnot
    have hexpired : m.status ≠ .expired := fun h => hnot (hstored.mp h)
    apply saidByItems hexpired
    · exact ((finalityInv_of_reachable hreach).2 m hm).1
    · intro hnil
      exact (storedPending_of_reachable hreach m hm hnil).resolve_right hexpired
  · intro hexpired ls' u hcontinue
    have hrow : m.status = .expired := TransferSession.status_eq_expired_iff.mp hexpired
    have hext := (extends_of_run (inv_of_reachable hreach) hcontinue).2
    constructor
    · intro r hr hid
      exact TransferSession.status_of_expired (hext.expired m hm hrow r hr hid)
    · intro now code iid session i
      exact getSessionItem_of_expired (hext.expired m hm hrow)

namespace Sample

/-- The session is burned after its item is complete. -/
def burns : List Event := uploaded ++ [⟨5, .burnSession sessionId fun _ => false⟩]

theorem runs_burns : (run burns).isSome = true := by decide +kernel

end Sample

theorem reported_status_is_history_burned :
    ∃ m ∈ ((Sample.run Sample.burns).get Sample.runs_burns).world.db.sessions.rows,
      (((Sample.run Sample.burns).get Sample.runs_burns).world.db.sessionToDomain m).status =
        .expired := by
  have hburned : ∃ m ∈ ((Sample.run Sample.burns).get Sample.runs_burns).world.db.sessions.rows,
      m.id = Sample.sessionId := by decide +kernel
  obtain ⟨m, hm, hid⟩ := hburned
  refine ⟨m, hm, (reported_status_is_history ⟨.sqlite, rfl⟩
    (Option.some_get Sample.runs_burns).symm hm).1 ?_⟩
  refine ⟨Sample.uploaded, _, [], _, rfl, (Option.some_get Sample.runs_uploaded).symm, ?_⟩
  have hrow : ∃ k ∈ ((Sample.run Sample.uploaded).get Sample.runs_uploaded).world.db.sessions.rows,
      k.id = Sample.sessionId := by decide +kernel
  obtain ⟨k, hk, hkid⟩ := hrow
  exact ⟨k, hk, hkid.trans hid.symm, .inl ⟨_, by rw [hkid]⟩⟩

end SessionService

end Jumbox
