import Jumbox.Sessions.Download
import Jumbox.Store.Merge

/-!
# Burning a session while uploads close

The transactions that end `upload_item` and `append_item_chunk` on one session,
and `burn_session` on it, statement by statement under read committed: each read
sees what is committed by then and the transaction's own writes, and what a
transaction writes is seen when it commits. A save reads the row once more before
it writes. A closing transaction that has loaded the session before the burn can
write its own status over the burn's.
-/

namespace Jumbox

namespace StatusRace

open SessionService

inductive ClosingKind where
  | uploadItem
  | appendItemChunk
deriving DecidableEq

/-- The transaction that ends an upload, with what it completes the item with. -/
structure Closing where
  kind : ClosingKind
  itemId : Uuid
  checksumSha256 : Str
  path : Path
  storedName : Str
  sizeBytes : ℕ

/-- The item a closing transaction has loaded, and what the merge of it has found. -/
abbrev MergedItem := Option (TransferItem × Option TransferItem)

/-- How far a closing transaction has got: the item as loaded and merged, the
session row as loaded, the session with the items it was loaded with, and the row
that the merge of it has found. -/
inductive Phase where
  | waiting
  | itemRead (item : Option TransferItem)
  | itemMerged (item : MergedItem)
  | sessionRead (item : MergedItem) (row : Option TransferSessionModel)
  | itemsRead (item : MergedItem) (session : Option TransferSession)
  | sessionMerged (item : MergedItem) (session : Option TransferSession)
      (found : Option TransferSessionModel)
  | committed
  | raised

inductive BurnPhase where
  | waiting
  | read (session : Option TransferSession)
  | merged (session : Option TransferSession) (found : Option TransferSessionModel)
  | committed
  | raised

structure State (ι β : Type) where
  db : Db
  closing : ι → Phase
  burn : β → BurnPhase
  /-- A burn of the session has committed. -/
  burned : Bool

inductive Step (ι β : Type) where
  | readItem (i : ι)
  | mergeItem (i : ι)
  | readSession (i : ι)
  | readItems (i : ι)
  | mergeSession (i : ι)
  | commit (i : ι)
  | burnRead (b : β)
  | burnMerge (b : β)
  | burnCommit (b : β)
  /-- The session is deleted, by `delete_session` or by a sweep. -/
  | delete

/-- The item with which `c` replaces the one it has loaded. -/
def Closing.complete (c : Closing) (item : TransferItem) : TransferItem :=
  completed item c.checksumSha256 c.path c.storedName c.sizeBytes

/-- The tables as the transaction sees them after its item is flushed. -/
def Closing.flushed (c : Closing) (db : Db) : MergedItem → Option Db
  | none => some db
  | some (item, found) => db.flushItem found (c.complete item)

/-- What a closing transaction writes, at its commit. -/
def Closing.written (c : Closing) (db : Db) (item : MergedItem)
    (session : Option TransferSession) (found : Option TransferSessionModel) : Option Db :=
  (c.flushed db item).bind fun db =>
    match session with
    | none => some db
    | some session => db.flushSession found (Db.sessionToModel session)

/-- What `burn_session` writes. -/
def burnWritten (db : Db) (session : Option TransferSession)
    (found : Option TransferSessionModel) : Option Db :=
  match session with
  | none => some db
  | some session => db.flushSession found (Db.sessionToModel (burned session))

variable {ι β : Type} [DecidableEq ι] [DecidableEq β]

def State.setClosing (s : State ι β) (i : ι) (phase : Phase) : State ι β :=
  { s with closing := Function.update s.closing i phase }

def State.setBurn (s : State ι β) (b : β) (phase : BurnPhase) : State ι β :=
  { s with burn := Function.update s.burn b phase }

/-- The closing transactions `closings` and any number of burns on one session. -/
def system (sessionId : Uuid) (closings : ι → Closing) : System (State ι β) (Step ι β) where
  step s
    | .readItem i =>
        match s.closing i with
        | .waiting =>
            match (closings i).kind, s.db.getItemById (closings i).itemId with
            -- `raise ItemNotFoundError`; the other method goes on
            | .uploadItem, none => some (s.setClosing i .raised)
            | _, item => some (s.setClosing i (.itemRead item))
        | _ => none
    | .mergeItem i =>
        match s.closing i with
        | .itemRead item =>
            let merged := item.map fun item => (item, s.db.getItemById item.id)
            some (s.setClosing i (.itemMerged merged))
        | _ => none
    | .readSession i =>
        match s.closing i with
        | .itemMerged item =>
            some (s.setClosing i (.sessionRead item (s.db.sessions.get? sessionId)))
        | _ => none
    | .readItems i =>
        match s.closing i with
        | .sessionRead item row =>
            match (closings i).flushed s.db item with
            | none => some (s.setClosing i .raised)
            | some db =>
                let session := row.map fun m =>
                  { db.sessionToDomain m with items := db.itemsOf sessionId }
                some (s.setClosing i (.itemsRead item session))
        | _ => none
    | .mergeSession i =>
        match s.closing i with
        | .itemsRead item session =>
            some (s.setClosing i (.sessionMerged item session (s.db.sessions.get? sessionId)))
        | _ => none
    | .commit i =>
        match s.closing i with
        | .sessionMerged item session found =>
            match (closings i).written s.db item session found with
            | none => some (s.setClosing i .raised)
            | some db => some { s.setClosing i .committed with db }
        | _ => none
    | .burnRead b =>
        match s.burn b with
        | .waiting => some (s.setBurn b (.read (s.db.getById sessionId)))
        | _ => none
    | .burnMerge b =>
        match s.burn b with
        | .read session => some (s.setBurn b (.merged session (s.db.sessions.get? sessionId)))
        | _ => none
    | .burnCommit b =>
        match s.burn b with
        | .merged session found =>
            match burnWritten s.db session found with
            | none => some (s.setBurn b .raised)
            | some db => some { s.setBurn b .committed with
                db, burned := s.burned || session.isSome }
        | _ => none
    | .delete => some { s with db := s.db.deleteById sessionId }

/-- No transaction has started. -/
def start (db : Db) : State ι β := ⟨db, fun _ => .waiting, fun _ => .waiting, false⟩

/-- Once a burn has committed, a row of the session is expired whenever there is
one, and no lookup returns one of its items. -/
def StaysBurned (sessionId : Uuid) (s : State ι β) : Prop :=
  s.burned = true →
    (∀ m ∈ s.db.sessions.rows, m.id = sessionId → m.status = .expired) ∧
    ∀ w now code iid session item, w.db = s.db →
      (getSessionItem w now code iid).1 = .ok (some (session, item)) → session.id ≠ sessionId

/-- The step is no commit, after a burn, of a closing transaction that has loaded
the session before it, unless its merge has found the very status the items give:
then the column is not written. -/
def NotStale (closings : ι → Closing) (s : State ι β) : Step ι β → Prop
  | .commit i => s.burned = true → ∀ item session found db,
      s.closing i = .sessionMerged item (some session) found →
      (closings i).written s.db item (some session) found = some db →
      session.status_ = .expired ∨ ∃ row, found = some row ∧ row.status = session.status
  | _ => True

/-! ## The steps one by one -/

section Steps

variable {sid : Uuid} {closings : ι → Closing} {s s' : State ι β}

theorem readItem_cases {i : ι} (h : (system sid closings).step s (.readItem i) = some s') :
    (s.db.getItemById (closings i).itemId = none ∧ (closings i).kind = .uploadItem ∧
        s' = s.setClosing i .raised) ∨
      (((closings i).kind = .uploadItem → (s.db.getItemById (closings i).itemId).isSome = true) ∧
        s' = s.setClosing i (.itemRead (s.db.getItemById (closings i).itemId))) := by
  simp only [system] at h
  split at h
  · split at h
    · rename_i hkind hnone
      cases h
      exact Or.inl ⟨hnone, hkind, rfl⟩
    · rename_i hother
      cases h
      refine Or.inr ⟨?_, rfl⟩
      intro hkind
      rw [← Option.ne_none_iff_isSome]
      exact hother hkind
  · cases h

theorem mergeItem_cases {i : ι} (h : (system sid closings).step s (.mergeItem i) = some s') :
    ∃ item, s.closing i = .itemRead item ∧ s' = s.setClosing i
      (.itemMerged (item.map fun item => (item, s.db.getItemById item.id))) := by
  simp only [system] at h
  split at h
  · rename_i item hphase
    cases h
    exact ⟨item, hphase, rfl⟩
  · cases h

theorem readSession_cases {i : ι} (h : (system sid closings).step s (.readSession i) = some s') :
    ∃ item, s.closing i = .itemMerged item ∧
      s' = s.setClosing i (.sessionRead item (s.db.sessions.get? sid)) := by
  simp only [system] at h
  split at h
  · rename_i item hphase
    cases h
    exact ⟨item, hphase, rfl⟩
  · cases h

theorem readItems_cases {i : ι} (h : (system sid closings).step s (.readItems i) = some s') :
    ∃ item row, s.closing i = .sessionRead item row ∧
      (((closings i).flushed s.db item = none ∧ s' = s.setClosing i .raised) ∨
        ∃ db, (closings i).flushed s.db item = some db ∧
          s' = s.setClosing i (.itemsRead item (row.map fun m =>
            { db.sessionToDomain m with items := db.itemsOf sid }))) := by
  simp only [system] at h
  split at h
  · rename_i item row hphase
    refine ⟨item, row, hphase, ?_⟩
    split at h
    · rename_i hflushed
      cases h
      exact Or.inl ⟨hflushed, rfl⟩
    · rename_i db hflushed
      cases h
      exact Or.inr ⟨db, hflushed, rfl⟩
  · cases h

theorem mergeSession_cases {i : ι} (h : (system sid closings).step s (.mergeSession i) = some s') :
    ∃ item session, s.closing i = .itemsRead item session ∧
      s' = s.setClosing i (.sessionMerged item session (s.db.sessions.get? sid)) := by
  simp only [system] at h
  split at h
  · rename_i item session hphase
    cases h
    exact ⟨item, session, hphase, rfl⟩
  · cases h

theorem commit_cases {i : ι} (h : (system sid closings).step s (.commit i) = some s') :
    ∃ item session found, s.closing i = .sessionMerged item session found ∧
      (((closings i).written s.db item session found = none ∧ s' = s.setClosing i .raised) ∨
        ∃ db, (closings i).written s.db item session found = some db ∧
          s' = { s.setClosing i .committed with db }) := by
  simp only [system] at h
  split at h
  · rename_i item session found hphase
    refine ⟨item, session, found, hphase, ?_⟩
    split at h
    · rename_i hwritten
      cases h
      exact Or.inl ⟨hwritten, rfl⟩
    · rename_i db hwritten
      cases h
      exact Or.inr ⟨db, hwritten, rfl⟩
  · cases h

theorem burnRead_cases {b : β} (h : (system sid closings).step s (.burnRead b) = some s') :
    s.burn b = .waiting ∧ s' = s.setBurn b (.read (s.db.getById sid)) := by
  simp only [system] at h
  split at h
  · rename_i hphase
    cases h
    exact ⟨hphase, rfl⟩
  · cases h

theorem burnMerge_cases {b : β} (h : (system sid closings).step s (.burnMerge b) = some s') :
    ∃ session, s.burn b = .read session ∧
      s' = s.setBurn b (.merged session (s.db.sessions.get? sid)) := by
  simp only [system] at h
  split at h
  · rename_i session hphase
    cases h
    exact ⟨session, hphase, rfl⟩
  · cases h

theorem burnCommit_cases {b : β} (h : (system sid closings).step s (.burnCommit b) = some s') :
    ∃ session found, s.burn b = .merged session found ∧
      ((burnWritten s.db session found = none ∧ s' = s.setBurn b .raised) ∨
        ∃ db, burnWritten s.db session found = some db ∧
          s' = { s.setBurn b .committed with db, burned := s.burned || session.isSome }) := by
  simp only [system] at h
  split at h
  · rename_i session found hphase
    refine ⟨session, found, hphase, ?_⟩
    split at h
    · rename_i hwritten
      cases h
      exact Or.inl ⟨hwritten, rfl⟩
    · rename_i db hwritten
      cases h
      exact Or.inr ⟨db, hwritten, rfl⟩
  · cases h

end Steps

/-! ## What holds in every interleaving -/

/-- Identifier and stored status of the rows a transaction has read. -/
def Phase.seen : Phase → List (Uuid × SessionStatus)
  | .sessionRead _ row => row.toList.map fun m => (m.id, m.status)
  | .itemsRead _ session => session.toList.map fun t => (t.id, t.status_)
  | .sessionMerged _ session found =>
      (session.toList.map fun t => (t.id, t.status_)) ++ found.toList.map fun m => (m.id, m.status)
  | _ => []

def BurnPhase.seen : BurnPhase → List (Uuid × SessionStatus)
  | .read session => session.toList.map fun t => (t.id, t.status_)
  | .merged session found =>
      (session.toList.map fun t => (t.id, t.status_)) ++ found.toList.map fun m => (m.id, m.status)
  | _ => []

/-- A row of the session as it is stored, or as some transaction has read it. -/
def Known (sessionId : Uuid) (s : State ι β) (p : Uuid × SessionStatus) : Prop :=
  (∃ m ∈ s.db.sessions.rows, m.id = sessionId ∧ p = (m.id, m.status)) ∨
    (∃ i, p ∈ (s.closing i).seen) ∨ ∃ b, p ∈ (s.burn b).seen

structure Inv (sessionId : Uuid) (s : State ι β) : Prop where
  id : ∀ p, Known sessionId s p → p.1 = sessionId
  /-- Before the first burn, all that was read and what is stored agree on whether
  the session has expired. -/
  before : s.burned = false → ∃ expired : Prop, ∀ p, Known sessionId s p →
    (p.2 = .expired ↔ expired)

section Invariant

variable {sid : Uuid} {closings : ι → Closing} {s s' : State ι β}

omit [DecidableEq ι] [DecidableEq β] in
theorem Known.of_get? {m : TransferSessionModel} (h : s.db.sessions.get? sid = some m) :
    Known sid s (m.id, m.status) :=
  Or.inl ⟨m, Table.get?_mem h, Table.get?_key h, rfl⟩

omit [DecidableEq β] in
theorem known_setClosing {i : ι} {phase : Phase} {p : Uuid × SessionStatus}
    (h : Known sid (s.setClosing i phase) p) : Known sid s p ∨ p ∈ phase.seen := by
  rcases h with hstored | ⟨j, hj⟩ | hburn
  · exact Or.inl (Or.inl hstored)
  · by_cases hji : j = i
    · subst hji
      simp only [State.setClosing, Function.update_self] at hj
      exact Or.inr hj
    · simp only [State.setClosing, Function.update_of_ne hji] at hj
      exact Or.inl (Or.inr (Or.inl ⟨j, hj⟩))
  · exact Or.inl (Or.inr (Or.inr hburn))

omit [DecidableEq ι] in
theorem known_setBurn {b : β} {phase : BurnPhase} {p : Uuid × SessionStatus}
    (h : Known sid (s.setBurn b phase) p) : Known sid s p ∨ p ∈ phase.seen := by
  rcases h with hstored | hclosing | ⟨a, ha⟩
  · exact Or.inl (Or.inl hstored)
  · exact Or.inl (Or.inr (Or.inl hclosing))
  · by_cases hab : a = b
    · subst hab
      simp only [State.setBurn, Function.update_self] at ha
      exact Or.inr ha
    · simp only [State.setBurn, Function.update_of_ne hab] at ha
      exact Or.inl (Or.inr (Or.inr ⟨a, ha⟩))

omit [DecidableEq ι] [DecidableEq β] in
/-- A step after which nothing is known but what was. -/
theorem Inv.of_known (h : Inv sid s) (hburned : s'.burned = s.burned)
    (hknown : ∀ p, Known sid s' p → Known sid s p) : Inv sid s' := by
  refine ⟨fun p hp => h.id p (hknown p hp), ?_⟩
  intro hb
  obtain ⟨expired, hagree⟩ := h.before (hburned ▸ hb)
  exact ⟨expired, fun p hp => hagree p (hknown p hp)⟩

omit [DecidableEq β] in
/-- A closing transaction that moves on to `phase` and changes no row. -/
theorem Inv.setClosing (h : Inv sid s) {i : ι} {phase : Phase}
    (hseen : ∀ p ∈ phase.seen, Known sid s p) : Inv sid (s.setClosing i phase) := by
  refine h.of_known rfl ?_
  intro p hp
  rcases known_setClosing hp with hold | hnew
  · exact hold
  · exact hseen p hnew

omit [DecidableEq ι] in
theorem Inv.setBurn (h : Inv sid s) {b : β} {phase : BurnPhase}
    (hseen : ∀ p ∈ phase.seen, Known sid s p) : Inv sid (s.setBurn b phase) := by
  refine h.of_known rfl ?_
  intro p hp
  rcases known_setBurn hp with hold | hnew
  · exact hold
  · exact hseen p hnew

omit [DecidableEq ι] [DecidableEq β] in
/-- New tables, whose row of the session has expired exactly if one that was known has. -/
theorem Inv.setDb (h : Inv sid s) {db : Db} {burned : Bool} (hburned : burned = false →
      s.burned = false ∧ ∀ m ∈ db.sessions.rows, m.id = sid →
        ∃ q, Known sid s q ∧ (m.status = .expired ↔ q.2 = .expired)) :
    Inv sid { s with db, burned } := by
  constructor
  · rintro p (⟨m, -, hid, rfl⟩ | hread)
    · exact hid
    · exact h.id p (Or.inr hread)
  · intro hb
    obtain ⟨hbefore, hdb⟩ := hburned hb
    obtain ⟨expired, hagree⟩ := h.before hbefore
    refine ⟨expired, ?_⟩
    rintro p (⟨m, hm, hid, rfl⟩ | hread)
    · obtain ⟨q, hq, hiff⟩ := hdb m hm hid
      exact hiff.trans (hagree q hq)
    · exact hagree p (Or.inr hread)

theorem flushed_sessions {c : Closing} {db db' : Db} {item : MergedItem}
    (h : c.flushed db item = some db') : db'.sessions = db.sessions := by
  cases item with
  | none =>
      cases h
      rfl
  | some item => exact Db.flushItem_sessions h

/-- The commit of a closing transaction that has loaded no session leaves them. -/
theorem written_none {c : Closing} {db db' : Db} {item : MergedItem}
    {found : Option TransferSessionModel} (h : c.written db item none found = some db') :
    db'.sessions = db.sessions := by
  obtain ⟨db₁, hflushed, hsession⟩ := Option.bind_eq_some_iff.mp h
  cases hsession
  exact flushed_sessions hflushed

theorem written_some {c : Closing} {db db' : Db} {item : MergedItem} {t : TransferSession}
    {found : Option TransferSessionModel} (h : c.written db item (some t) found = some db') :
    ∃ db₁ : Db, db₁.sessions = db.sessions ∧
      db₁.flushSession found (Db.sessionToModel t) = some db' := by
  obtain ⟨db₁, hflushed, hsession⟩ := Option.bind_eq_some_iff.mp h
  exact ⟨db₁, flushed_sessions hflushed, hsession⟩

theorem status_burned (t : TransferSession) : (burned t).status = .expired :=
  TransferSession.status_of_expired rfl

omit [DecidableEq ι] [DecidableEq β] in
/-- What a closing transaction has read of the session. -/
theorem Inv.sessionMerged (h : Inv sid s) {i : ι} {item : MergedItem} {t : TransferSession}
    {found : Option TransferSessionModel}
    (hphase : s.closing i = .sessionMerged item (some t) found) :
    Known sid s (t.id, t.status_) ∧ t.id = sid ∧
      ∀ r, found = some r → Known sid s (r.id, r.status) ∧ r.id = t.id := by
  have ht : Known sid s (t.id, t.status_) := Or.inr (Or.inl ⟨i, by simp [hphase, Phase.seen]⟩)
  refine ⟨ht, h.id _ ht, ?_⟩
  rintro r rfl
  have hr : Known sid s (r.id, r.status) := Or.inr (Or.inl ⟨i, by simp [hphase, Phase.seen]⟩)
  exact ⟨hr, (h.id _ hr).trans (h.id _ ht).symm⟩

omit [DecidableEq ι] [DecidableEq β] in
theorem Inv.merged (h : Inv sid s) {b : β} {t : TransferSession}
    {found : Option TransferSessionModel} (hphase : s.burn b = .merged (some t) found) :
    t.id = sid ∧ ∀ r, found = some r → Known sid s (r.id, r.status) ∧ r.id = t.id := by
  have ht : Known sid s (t.id, t.status_) := Or.inr (Or.inr ⟨b, by simp [hphase, BurnPhase.seen]⟩)
  refine ⟨h.id _ ht, ?_⟩
  rintro r rfl
  have hr : Known sid s (r.id, r.status) := Or.inr (Or.inr ⟨b, by simp [hphase, BurnPhase.seen]⟩)
  exact ⟨hr, (h.id _ hr).trans (h.id _ ht).symm⟩

theorem Inv.step {l : Step ι β} (h : Inv sid s) (hstep : (system sid closings).step s l = some s') :
    Inv sid s' := by
  cases l with
  | readItem i =>
      rcases readItem_cases hstep with ⟨-, -, rfl⟩ | ⟨-, rfl⟩
      · exact h.setClosing nofun
      · exact h.setClosing nofun
  | mergeItem i =>
      obtain ⟨item, -, rfl⟩ := mergeItem_cases hstep
      exact h.setClosing nofun
  | readSession i =>
      obtain ⟨item, -, rfl⟩ := readSession_cases hstep
      refine h.setClosing ?_
      intro p hp
      obtain ⟨m, hm, rfl⟩ := List.mem_map.mp hp
      exact Known.of_get? (Option.mem_toList.mp hm)
  | readItems i =>
      obtain ⟨item, row, hphase, ⟨-, rfl⟩ | ⟨db, -, rfl⟩⟩ := readItems_cases hstep
      · exact h.setClosing nofun
      · refine h.setClosing ?_
        intro p hp
        -- the session has the identifier and the stored status of its row
        refine Or.inr (Or.inl ⟨i, ?_⟩)
        rw [hphase]
        cases row with
        | none => exact hp
        | some m => exact hp
  | mergeSession i =>
      obtain ⟨item, session, hphase, rfl⟩ := mergeSession_cases hstep
      refine h.setClosing ?_
      intro p hp
      rcases List.mem_append.mp hp with hloaded | hfound
      · refine Or.inr (Or.inl ⟨i, ?_⟩)
        rw [hphase]
        exact hloaded
      · obtain ⟨m, hm, rfl⟩ := List.mem_map.mp hfound
        exact Known.of_get? (Option.mem_toList.mp hm)
  | commit i =>
      obtain ⟨item, session, found, hphase, ⟨-, rfl⟩ | ⟨db, hwritten, rfl⟩⟩ := commit_cases hstep
      · exact h.setClosing nofun
      · suffices hdb : Inv sid { s with db } from hdb.setClosing nofun
        refine h.setDb fun hburned => ⟨hburned, ?_⟩
        intro m hm hid
        cases session with
        | none =>
            rw [written_none hwritten] at hm
            exact ⟨_, Or.inl ⟨m, hm, hid, rfl⟩, Iff.rfl⟩
        | some t =>
            obtain ⟨ht, htid, hfound⟩ := h.sessionMerged hphase
            obtain ⟨db₁, hsame, hflush⟩ := written_some hwritten
            have hids : ∀ r, found = some r → r.id = (Db.sessionToModel t).id :=
              fun r hr => (hfound r hr).2
            rcases Db.status_of_flushSession hids hflush hm (hid.trans htid.symm) with
              ⟨hstatus, -⟩ | ⟨r, cur, -, -, hcur, hcid, hstatus⟩
            · refine ⟨_, ht, ?_⟩
              rw [hstatus]
              exact TransferSession.status_eq_expired_iff
            · refine ⟨_, Or.inl ⟨cur, hsame ▸ hcur, hcid.trans htid, rfl⟩, ?_⟩
              rw [hstatus]
  | burnRead b =>
      obtain ⟨-, rfl⟩ := burnRead_cases hstep
      refine h.setBurn ?_
      intro p hp
      obtain ⟨t, ht, rfl⟩ := List.mem_map.mp hp
      obtain ⟨m, hm, hid, rfl⟩ := Db.getById_eq_some.mp (Option.mem_toList.mp ht)
      exact Or.inl ⟨m, hm, hid, rfl⟩
  | burnMerge b =>
      obtain ⟨session, hphase, rfl⟩ := burnMerge_cases hstep
      refine h.setBurn ?_
      intro p hp
      rcases List.mem_append.mp hp with hloaded | hfound
      · refine Or.inr (Or.inr ⟨b, ?_⟩)
        rw [hphase]
        exact hloaded
      · obtain ⟨m, hm, rfl⟩ := List.mem_map.mp hfound
        exact Known.of_get? (Option.mem_toList.mp hm)
  | burnCommit b =>
      obtain ⟨session, found, -, ⟨-, rfl⟩ | ⟨db, hwritten, rfl⟩⟩ := burnCommit_cases hstep
      · exact h.setBurn nofun
      · suffices hdb : Inv sid { s with db, burned := s.burned || session.isSome } from
          hdb.setBurn nofun
        cases session with
        | none =>
            cases hwritten
            rw [Option.isSome_none, Bool.or_false]
            exact h
        | some t => exact h.setDb (by simp)
  | delete =>
      cases hstep
      refine h.of_known rfl ?_
      rintro p (⟨m, hm, hid, rfl⟩ | hread)
      · exact absurd hid (Db.mem_deleteById_sessions.mp hm).2
      · exact Or.inr hread

/-- An expired row hands out nothing. -/
theorem getSessionItem_of_expired {db : Db}
    (hexp : ∀ m ∈ db.sessions.rows, m.id = sid → m.status = .expired) {w : World} (hw : w.db = db)
    {now : ℤ} {code : Str} {iid : Uuid} {session : TransferSession} {item : TransferItem}
    (h : (getSessionItem w now code iid).1 = .ok (some (session, item))) : session.id ≠ sid := by
  subst hw
  rcases getSessionItem_cases w now code iid with heq | ⟨m, -, heq⟩ | ⟨m, i, hm, -, -, -, heq⟩
  · rw [heq] at h
    cases h
  · rw [heq] at h
    cases h
  · rw [heq] at h
    cases h
    intro hid
    exact hm.status (hexp m hm.mem hid)

omit [DecidableEq ι] [DecidableEq β] in
theorem staysBurned_iff : StaysBurned sid s ↔
    (s.burned = true → ∀ m ∈ s.db.sessions.rows, m.id = sid → m.status = .expired) := by
  constructor
  · intro h hburned
    exact (h hburned).1
  · intro h hburned
    refine ⟨h hburned, ?_⟩
    intro w now code iid session item hw hfound
    exact getSessionItem_of_expired (h hburned) hw hfound

omit [DecidableEq ι] [DecidableEq β] in
/-- A commit of a closing transaction leaves a burned session expired exactly when
it is not stale. -/
theorem commit_expired_iff {db : Db} {item : MergedItem} {i : ι} {t : TransferSession}
    {found : Option TransferSessionModel} (hinv : Inv sid s)
    (h : ∀ m ∈ s.db.sessions.rows, m.id = sid → m.status = .expired)
    (hphase : s.closing i = .sessionMerged item (some t) found)
    (hwritten : (closings i).written s.db item (some t) found = some db) :
    (∀ m ∈ db.sessions.rows, m.id = sid → m.status = .expired) ↔
      t.status_ = .expired ∨ ∃ row, found = some row ∧ row.status = t.status := by
  obtain ⟨-, htid, hfound⟩ := hinv.sessionMerged hphase
  obtain ⟨db₁, hsame, hflush⟩ := written_some hwritten
  have hids : ∀ r, found = some r → r.id = (Db.sessionToModel t).id :=
    fun r hr => (hfound r hr).2
  constructor
  · intro hexpired
    by_cases hleft : ∃ row, found = some row ∧ row.status = t.status
    · exact Or.inr hleft
    · have hne : ∀ r, found = some r → r.status ≠ t.status := fun r hr heq => hleft ⟨r, hr, heq⟩
      obtain ⟨m, hm, hid, hstatus⟩ := Db.exists_status_of_flushSession hids hflush hne
      have hexp := hexpired m hm (hid.trans htid)
      rw [hstatus] at hexp
      exact Or.inl (TransferSession.status_eq_expired_iff.mp hexp)
  · intro hfresh m hm hid
    rcases Db.status_of_flushSession hids hflush hm (hid.trans htid.symm) with
      ⟨hstatus, hne⟩ | ⟨r, cur, -, -, hcur, hcid, hstatus⟩
    · rcases hfresh with hexp | ⟨row, hrow, heq⟩
      · rw [hstatus]
        exact TransferSession.status_eq_expired_iff.mpr hexp
      · exact absurd heq (hne row hrow)
    · rw [hstatus]
      exact h cur (hsame ▸ hcur) (hcid.trans htid)

omit [DecidableEq ι] [DecidableEq β] in
/-- A burn that commits leaves the session expired. -/
theorem burnCommit_expired {db : Db} {b : β} {t : TransferSession}
    {found : Option TransferSessionModel} (hinv : Inv sid s)
    (h : s.burned = true → ∀ m ∈ s.db.sessions.rows, m.id = sid → m.status = .expired)
    (hphase : s.burn b = .merged (some t) found)
    (hwritten : burnWritten s.db (some t) found = some db) :
    ∀ m ∈ db.sessions.rows, m.id = sid → m.status = .expired := by
  obtain ⟨htid, hfound⟩ := hinv.merged hphase
  intro m hm hid
  have hids : ∀ r, found = some r → r.id = (Db.sessionToModel (burned t)).id :=
    fun r hr => (hfound r hr).2
  rcases Db.status_of_flushSession hids hwritten hm (hid.trans htid.symm) with
    ⟨hstatus, -⟩ | ⟨r, cur, hr, hrstatus, hcur, hcid, hstatus⟩
  · exact hstatus.trans (status_burned t)
  · -- nothing is written then, but the row has expired already
    have hrexp : r.status = .expired := hrstatus.trans (status_burned t)
    rw [hstatus]
    cases hburned : s.burned with
    | true => exact h hburned cur hcur (hcid.trans htid)
    | false =>
        obtain ⟨expired, hagree⟩ := hinv.before hburned
        have hcurrent := hagree _ (Or.inl ⟨cur, hcur, hcid.trans htid, rfl⟩)
        exact hcurrent.mpr ((hagree _ (hfound r hr).1).mp hrexp)

/-- Where a burned session is expired, a step keeps it so exactly when it is no
stale commit. -/
theorem staysBurned_step {l : Step ι β} (hinv : Inv sid s) (h : StaysBurned sid s)
    (hstep : (system sid closings).step s l = some s') :
    StaysBurned sid s' ↔ NotStale closings s l := by
  rw [staysBurned_iff] at h ⊢
  cases l with
  | readItem i =>
      rcases readItem_cases hstep with ⟨-, -, rfl⟩ | ⟨-, rfl⟩
      · exact ⟨fun _ => trivial, fun _ => h⟩
      · exact ⟨fun _ => trivial, fun _ => h⟩
  | mergeItem i =>
      obtain ⟨item, -, rfl⟩ := mergeItem_cases hstep
      exact ⟨fun _ => trivial, fun _ => h⟩
  | readSession i =>
      obtain ⟨item, -, rfl⟩ := readSession_cases hstep
      exact ⟨fun _ => trivial, fun _ => h⟩
  | readItems i =>
      obtain ⟨item, row, -, ⟨-, rfl⟩ | ⟨db, -, rfl⟩⟩ := readItems_cases hstep
      · exact ⟨fun _ => trivial, fun _ => h⟩
      · exact ⟨fun _ => trivial, fun _ => h⟩
  | mergeSession i =>
      obtain ⟨item, session, -, rfl⟩ := mergeSession_cases hstep
      exact ⟨fun _ => trivial, fun _ => h⟩
  | commit i =>
      obtain ⟨item, session, found, hphase, ⟨hnone, rfl⟩ | ⟨db, hwritten, rfl⟩⟩ :=
        commit_cases hstep
      · refine ⟨fun _ => ?_, fun _ => h⟩
        intro _ item' t found' db hphase' hwritten
        rw [hphase] at hphase'
        cases hphase'
        rw [hnone] at hwritten
        cases hwritten
      · cases session with
        | none =>
            refine ⟨fun _ => ?_, fun _ => ?_⟩
            · intro _ item' t found' db' hphase' _
              rw [hphase] at hphase'
              cases hphase'
            · intro hburned m hm hid
              exact h hburned m (written_none hwritten ▸ hm) hid
        | some t =>
            constructor
            · intro hexpired hburned item' t' found' db' hphase' _
              rw [hphase] at hphase'
              cases hphase'
              exact (commit_expired_iff hinv (h hburned) hphase hwritten).mp (hexpired hburned)
            · intro hfresh hburned
              have hguard := hfresh hburned item t found db hphase hwritten
              exact (commit_expired_iff hinv (h hburned) hphase hwritten).mpr hguard
  | burnRead b =>
      obtain ⟨-, rfl⟩ := burnRead_cases hstep
      exact ⟨fun _ => trivial, fun _ => h⟩
  | burnMerge b =>
      obtain ⟨session, -, rfl⟩ := burnMerge_cases hstep
      exact ⟨fun _ => trivial, fun _ => h⟩
  | burnCommit b =>
      obtain ⟨session, found, hphase, ⟨-, rfl⟩ | ⟨db, hwritten, rfl⟩⟩ := burnCommit_cases hstep
      · exact ⟨fun _ => trivial, fun _ => h⟩
      · refine ⟨fun _ => trivial, fun _ => ?_⟩
        cases session with
        | none =>
            cases hwritten
            intro hburned
            rw [Option.isSome_none, Bool.or_false] at hburned
            exact h hburned
        | some t => exact fun _ => burnCommit_expired hinv h hphase hwritten
  | delete =>
      cases hstep
      refine ⟨fun _ => trivial, fun _ => ?_⟩
      intro _ m hm hid
      exact absurd hid (Db.mem_deleteById_sessions.mp hm).2

end Invariant

/-- Any number of closing transactions and burns, in any order of their reads
and commits: a burned session stays expired exactly when no closing transaction
that has loaded it before the burn commits its own status after it. -/
theorem stays_burned_iff_not_stale (sid : Uuid) (closings : ι → Closing) (db : Db)
    (ls : List (Step ι β)) :
    (system sid closings).Always (StaysBurned sid) (start db : State ι β) ls ↔
      (system sid closings).Guarded (NotStale closings) (start db : State ι β) ls := by
  have hinv : Inv sid (start db : State ι β) := by
    have hstored : ∀ p, Known sid (start db : State ι β) p →
        ∃ m, db.sessions.get? sid = some m ∧ p = (m.id, m.status) := by
      rintro p (⟨m, hm, rfl, rfl⟩ | ⟨i, hi⟩ | ⟨b, hb⟩)
      · exact ⟨m, Table.get?_of_mem hm, rfl⟩
      · cases hi
      · cases hb
    constructor
    · intro p hp
      obtain ⟨m, hm, rfl⟩ := hstored p hp
      exact (Table.get?_eq_some.mp hm).2
    · intro _
      refine ⟨∃ m, db.sessions.get? sid = some m ∧ m.status = .expired, ?_⟩
      intro p hp
      obtain ⟨m, hm, rfl⟩ := hstored p hp
      simp [hm]
  have hburned : StaysBurned sid (start db : State ι β) := by
    intro h
    cases h
  exact System.always_iff_guarded (fun _ _ _ h hstep => Inv.step h hstep)
    (fun _ _ _ hJ hP hstep => staysBurned_step hJ hP hstep) hinv hburned

/-! ## One transaction alone -/

/-- What the closing transaction leaves when nothing interferes. -/
def Closing.alone (c : Closing) (db : Db) (sessionId : Uuid) : Db :=
  match c.kind with
  | .uploadItem =>
      (closeUpload db sessionId c.itemId ⟨c.path, c.sizeBytes, c.checksumSha256⟩ c.storedName).2
  | .appendItemChunk =>
      (closeChunk db sessionId c.itemId c.checksumSha256 c.path c.storedName c.sizeBytes).2

/-- Saving the status derived from the items just read, when no row has changed
since. -/
theorem written_alone {c : Closing} {db db₁ : Db} {item : MergedItem}
    (hflushed : c.flushed db item = some db₁) (sid : Uuid) :
    c.written db item ((db.sessions.get? sid).map fun m =>
      { db₁.sessionToDomain m with items := db₁.itemsOf sid }) (db.sessions.get? sid) =
      some (saveSessionStatus db₁ sid) := by
  have hsame := flushed_sessions hflushed
  rw [Closing.written, hflushed, Option.bind_some, saveSessionStatus, Db.getById, hsame]
  cases hget : db.sessions.get? sid with
  | none => rfl
  | some m =>
      obtain ⟨hm, rfl⟩ := Table.get?_eq_some.mp hget
      have hm₁ : m ∈ db₁.sessions.rows := hsame ▸ hm
      exact Db.flushSession_of_mem hm₁ rfl

theorem flushed_alone {c : Closing} {db : Db} {item : TransferItem}
    (hget : db.getItemById c.itemId = some item) :
    c.flushed db (some (item, db.getItemById item.id)) = some (db.saveItem (c.complete item)) := by
  obtain ⟨hmem, hid⟩ := Db.getItemById_eq_some.mp hget
  rw [hid, hget]
  exact Db.flushItem_of_mem hmem rfl

theorem Closing.alone_of_some {c : Closing} {db : Db} {sid : Uuid} {item : TransferItem}
    (hget : db.getItemById c.itemId = some item) :
    c.alone db sid = saveSessionStatus (db.saveItem (c.complete item)) sid := by
  unfold Closing.alone
  split
  · simp only [closeUpload, hget]
    rfl
  · simp only [closeChunk, hget]
    rfl

theorem Closing.alone_of_none {c : Closing} {db : Db} {sid : Uuid}
    (hget : db.getItemById c.itemId = none) (hkind : c.kind ≠ .uploadItem) :
    c.alone db sid = saveSessionStatus db sid := by
  unfold Closing.alone
  split
  · rename_i hupload
    exact absurd hupload hkind
  · simp only [closeChunk, hget]

/-- The statements of a closing transaction taken one after the other are
`closeUpload` or `closeChunk`. -/
theorem run_closing_eq_alone {sid : Uuid} {closings : ι → Closing} {s s' : State ι β} {i : ι}
    (hrun : (system sid closings).run s [.readItem i, .mergeItem i, .readSession i, .readItems i,
      .mergeSession i, .commit i] = some s') : s'.db = (closings i).alone s.db sid := by
  obtain ⟨s₁, h₁, hrun⟩ := System.run_cons_eq_some.mp hrun
  obtain ⟨s₂, h₂, hrun⟩ := System.run_cons_eq_some.mp hrun
  obtain ⟨s₃, h₃, hrun⟩ := System.run_cons_eq_some.mp hrun
  obtain ⟨s₄, h₄, hrun⟩ := System.run_cons_eq_some.mp hrun
  obtain ⟨s₅, h₅, hrun⟩ := System.run_cons_eq_some.mp hrun
  obtain ⟨s₆, h₆, hnil⟩ := System.run_cons_eq_some.mp hrun
  cases hnil
  obtain ⟨item, hread, rfl⟩ := mergeItem_cases h₂
  obtain ⟨merged, hmerged, rfl⟩ := readSession_cases h₃
  simp only [State.setClosing, Function.update_self, Phase.itemMerged.injEq] at hmerged
  subst hmerged
  obtain ⟨merged, row, hrow, hflush⟩ := readItems_cases h₄
  simp only [State.setClosing, Function.update_self, Phase.sessionRead.injEq] at hrow
  obtain ⟨rfl, rfl⟩ := hrow
  rcases readItem_cases h₁ with ⟨-, -, rfl⟩ | ⟨hkind, rfl⟩
  · simp [State.setClosing] at hread
  simp only [State.setClosing, Function.update_self, Phase.itemRead.injEq] at hread
  subst hread
  -- what is flushed, and what the transaction alone makes of it
  obtain ⟨db, hdb, halone⟩ : ∃ db, (closings i).flushed s.db
      ((s.db.getItemById (closings i).itemId).map fun item => (item, s.db.getItemById item.id)) =
        some db ∧ (closings i).alone s.db sid = saveSessionStatus db sid := by
    cases hget : s.db.getItemById (closings i).itemId with
    | none =>
        refine ⟨s.db, rfl, Closing.alone_of_none hget ?_⟩
        intro hupload
        have hsome := hkind hupload
        rw [hget] at hsome
        cases hsome
    | some item => exact ⟨_, flushed_alone hget, Closing.alone_of_some hget⟩
  rcases hflush with ⟨hnone, -⟩ | ⟨db', hdb', rfl⟩
  · cases hdb.symm.trans hnone
  · cases hdb.symm.trans hdb'
    obtain ⟨merged, session, hsession, rfl⟩ := mergeSession_cases h₅
    simp only [State.setClosing, Function.update_self, Phase.itemsRead.injEq] at hsession
    obtain ⟨rfl, rfl⟩ := hsession
    obtain ⟨merged, session, found, hphase, hcommit⟩ := commit_cases h₆
    simp only [State.setClosing, Function.update_self, Phase.sessionMerged.injEq] at hphase
    obtain ⟨rfl, rfl, rfl⟩ := hphase
    have hwritten := written_alone hdb sid
    rcases hcommit with ⟨hnone, -⟩ | ⟨db', hsome, rfl⟩
    · cases hwritten.symm.trans hnone
    · cases hwritten.symm.trans hsome
      exact halone.symm

/-- The steps of a burn taken one after the other are `burn_session`. -/
theorem run_burn_eq_burnSession {sid : Uuid} {closings : ι → Closing} {s s' : State ι β} {b : β}
    (hrun : (system sid closings).run s [.burnRead b, .burnMerge b, .burnCommit b] = some s')
    (w : World) (unlinkFails : Path → Bool) (hw : w.db = s.db) :
    s'.db = (burnSession w sid unlinkFails).2.db := by
  obtain ⟨s₁, h₁, hrun⟩ := System.run_cons_eq_some.mp hrun
  obtain ⟨s₂, h₂, hrun⟩ := System.run_cons_eq_some.mp hrun
  obtain ⟨s₃, h₃, hnil⟩ := System.run_cons_eq_some.mp hrun
  cases hnil
  obtain ⟨-, rfl⟩ := burnRead_cases h₁
  obtain ⟨session, hread, rfl⟩ := burnMerge_cases h₂
  simp only [State.setBurn, Function.update_self, BurnPhase.read.injEq] at hread
  subst hread
  obtain ⟨session, found, hphase, hcommit⟩ := burnCommit_cases h₃
  simp only [State.setBurn, Function.update_self, BurnPhase.merged.injEq] at hphase
  obtain ⟨rfl, rfl⟩ := hphase
  have hwritten : burnWritten s.db (s.db.getById sid) (s.db.sessions.get? sid) =
      some (burnSession w sid unlinkFails).2.db := by
    unfold burnSession
    rw [hw, Db.getById]
    cases hget : s.db.sessions.get? sid with
    | none => rw [← hw]; rfl
    | some m =>
        obtain ⟨hm, rfl⟩ := Table.get?_eq_some.mp hget
        exact Db.flushSession_of_mem hm rfl
  rcases hcommit with ⟨hnone, -⟩ | ⟨db, hsome, rfl⟩
  · cases hwritten.symm.trans hnone
  · cases hwritten.symm.trans hsome
    rfl

/-! ## A closing upload revives a burned session -/

namespace Sample

def session : TransferSessionModel where
  id := Uuid.ofNat 1
  ownerId := Uuid.ofNat 100
  sessionCode := "1000-1000".toList
  status := .inProgress
  expiresAt := none
  burnAfterDownload := true
  createdAt := 0

def item (id : ℕ) (status : ItemStatus) : TransferItem where
  id := Uuid.ofNat id
  sessionId := Uuid.ofNat 1
  originalName := "notes.txt".toList
  sizeBytes := 0
  status := status
  createdAt := 0

/-- One item is there, the other is being uploaded. -/
def db : Db where
  backend := .postgresql
  sessions := Table.empty.put session
  items := (Table.empty.put (item 2 .completed)).put (item 3 .uploading)
  transfers := .empty

def closing : Unit → Closing := fun _ =>
  ⟨.uploadItem, Uuid.ofNat 3, hexdigest [], ["data".toList], "notes.txt".toList, 0⟩

/-- The burn falls between the reads of the upload that closes and its save. -/
def steps : List (Step Unit Unit) :=
  [.readItem (), .mergeItem (), .readSession (), .readItems (),
    .burnRead (), .burnMerge (), .burnCommit (), .mergeSession (), .commit ()]

theorem runs_steps :
    ((system (Uuid.ofNat 1) closing).run (start db : State Unit Unit) steps).isSome = true := by
  decide +kernel

end Sample

theorem burned_session_revived :
    ¬ ∀ (sid : Uuid) (ι β : Type) [DecidableEq ι] [DecidableEq β] (closings : ι → Closing)
        (db : Db) (ls : List (Step ι β)),
      (system sid closings).Always (StaysBurned sid) (start db : State ι β) ls := by
  intro h
  have hlast := (h (Uuid.ofNat 1) Unit Unit Sample.closing Sample.db Sample.steps).last
    (Option.some_get Sample.runs_steps).symm
  obtain ⟨hexpired, -⟩ := hlast (by decide +kernel)
  revert hexpired
  decide +kernel

end StatusRace

end Jumbox
