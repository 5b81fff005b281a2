import Jumbox.Library.Transition
import Jumbox.Sessions.Download

/-!
# Overlapping downloads

`download_session_item` requests in three steps: the lookup, the answer, and
`burn_session` in the background task that follows it. Only the burn changes
the session, so requests that look an item up before the burn of another one has
committed are all served.
-/

namespace Jumbox

namespace BurnRace

open SessionService

structure Request where
  sessionCode : Str
  itemId : Uuid

/-- Where a request has got to. -/
inductive Phase (ι : Type) where
  | waiting
  /-- The lookup has returned; `burns` are the requests whose burns had
  committed by then. -/
  | found (session : TransferSession) (item : TransferItem) (burns : ι → Bool)
  | served (session : TransferSession) (item : TransferItem) (response : FileResponse)
  | burned (session : TransferSession) (item : TransferItem)
  | refused (e : HttpError)

structure State (ι : Type) where
  world : World
  phase : ι → Phase ι

inductive Step (ι : Type) where
  | lookup (i : ι) (now : ℤ)
  | serve (i : ι)
  | burn (i : ι) (unlinkFails : Path → Bool)

def Phase.isBurned {ι : Type} : Phase ι → Bool
  | .burned _ _ => true
  | _ => false

/-- What a request has been served, in which session. -/
def Phase.handed {ι : Type} : Phase ι → Option (TransferSession × TransferItem)
  | .served session item _ => some (session, item)
  | .burned session item => some (session, item)
  | _ => none

variable {ι : Type} [DecidableEq ι]

def State.set (s : State ι) (i : ι) (phase : Phase ι) : State ι :=
  { s with phase := Function.update s.phase i phase }

def system (requests : ι → Request) : System (State ι) (Step ι) where
  step s
    | .lookup i now =>
        match s.phase i with
        | .waiting =>
            let c := requests i
            match getSessionItem s.world now c.sessionCode c.itemId with
            | (.error _, w) =>
                some ({ s with world := w }.set i (.refused ⟨500, "Internal Server Error".toList⟩))
            | (.ok none, w) =>
                some ({ s with world := w }.set i
                  (.refused ⟨404, "Item not found in session".toList⟩))
            | (.ok (some (session, item)), w) =>
                some ({ s with world := w }.set i
                  (.found session item fun j => (s.phase j).isBurned))
        | _ => none
    | .serve i =>
        match s.phase i with
        | .found session item _ =>
            match serveItem s.world.files item with
            | .error e => some (s.set i (.refused e))
            | .ok response => some (s.set i (.served session item response))
        | _ => none
    | .burn i unlinkFails =>
        match s.phase i with
        | .served session item _ =>
            -- the task is scheduled for burn-after-download sessions only
            if session.burnAfterDownload then
              some ({ s with world := (burnSession s.world session.id unlinkFails).2 }.set i
                (.burned session item))
            else none
        | _ => none

/-- No request has started. -/
def start (w : World) : State ι := ⟨w, fun _ => .waiting⟩

/-- No item of a burn-after-download session is served to two requests. -/
def SingleUse (s : State ι) : Prop :=
  ∀ i j p q, (s.phase i).handed = some p → (s.phase j).handed = some q →
    p.1.burnAfterDownload = true → p.2.id = q.2.id → i = j

/-- The step is no answer, with an item of a burn-after-download session, to a
request that was looked up before the burn of another request that has been
served the same item had committed. -/
def Separate (s : State ι) : Step ι → Prop
  | .serve i => ∀ session item burns, s.phase i = .found session item burns →
      session.burnAfterDownload = true → (∃ r, serveItem s.world.files item = .ok r) →
      ∀ j p, (s.phase j).handed = some p → p.2.id = item.id → burns j = true
  | _ => True

/-! ## The steps one by one -/

section Steps

variable {requests : ι → Request} {s s' : State ι}

theorem lookup_cases {i : ι} {now : ℤ} (h : (system requests).step s (.lookup i now) = some s') :
    s.phase i = .waiting ∧
    ((∃ e w, (w = s.world ∨ ∃ m ∈ s.world.db.sessions.rows,
        w = s.world.withDb (s.world.db.putStatus m .expired)) ∧
        s' = { s with world := w }.set i (.refused e)) ∨
      ∃ m item, Shared s.world now (requests i).sessionCode m ∧ item ∈ s.world.db.items.rows ∧
        item.sessionId = m.id ∧
        s' = s.set i (.found (s.world.db.sessionToDomain m) item fun j => (s.phase j).isBurned)) := by
  simp only [system] at h
  split at h
  · rename_i hphase
    refine ⟨hphase, ?_⟩
    rcases getSessionItem_cases s.world now (requests i).sessionCode (requests i).itemId with
      heq | ⟨m, hm, heq⟩ | ⟨m, item, hm, hi, -, hsid, heq⟩
    · rw [heq] at h
      cases h
      exact Or.inl ⟨_, _, Or.inl rfl, rfl⟩
    · rw [heq] at h
      cases h
      exact Or.inl ⟨_, _, Or.inr ⟨m, hm, rfl⟩, rfl⟩
    · rw [heq] at h
      cases h
      exact Or.inr ⟨m, item, hm, hi, hsid, rfl⟩
  · cases h

theorem serve_cases {i : ι} (h : (system requests).step s (.serve i) = some s') :
    ∃ session item burns, s.phase i = .found session item burns ∧
      ((∃ e, serveItem s.world.files item = .error e ∧ s' = s.set i (.refused e)) ∨
        ∃ r, serveItem s.world.files item = .ok r ∧ s' = s.set i (.served session item r)) := by
  simp only [system] at h
  split at h
  · rename_i session item burns hphase
    refine ⟨session, item, burns, hphase, ?_⟩
    split at h
    · rename_i e hserve
      cases h
      exact Or.inl ⟨e, hserve, rfl⟩
    · rename_i r hserve
      cases h
      exact Or.inr ⟨r, hserve, rfl⟩
  · cases h

theorem burn_cases {i : ι} {unlinkFails : Path → Bool}
    (h : (system requests).step s (.burn i unlinkFails) = some s') :
    ∃ session item r, s.phase i = .served session item r ∧
      s' = { s with world := (burnSession s.world session.id unlinkFails).2 }.set i
        (.burned session item) := by
  simp only [system] at h
  split at h
  · rename_i session item r hphase
    split at h
    · cases h
      exact ⟨session, item, r, hphase, rfl⟩
    · cases h
  · cases h

/-- A lookup that finds nothing ends the route. -/
theorem lookup_refused_eq_download {i : ι} {now : ℤ} {e : HttpError}
    (h : (system requests).step s (.lookup i now) = some s') (hphase : s'.phase i = .refused e) :
    downloadSessionItem s.world now (requests i).sessionCode (requests i).itemId =
      (.error e, s'.world) := by
  simp only [system] at h
  split at h
  · unfold downloadSessionItem
    rcases hget : getSessionItem s.world now (requests i).sessionCode (requests i).itemId with
      ⟨err | (_ | ⟨session, item⟩), w⟩
    · rw [hget] at h
      cases h
      simp only [State.set, Function.update_self, Phase.refused.injEq] at hphase
      subst hphase
      rfl
    · rw [hget] at h
      cases h
      simp only [State.set, Function.update_self, Phase.refused.injEq] at hphase
      subst hphase
      rfl
    · rw [hget] at h
      cases h
      simp only [State.set, Function.update_self, reduceCtorEq] at hphase
  · cases h

/-- The lookup and the answer taken back to back are the route. -/
theorem lookup_serve_eq_download {i : ι} {now : ℤ}
    (hrun : (system requests).run s [.lookup i now, .serve i] = some s') :
    (∃ session item r, s'.phase i = .served session item r ∧
      downloadSessionItem s.world now (requests i).sessionCode (requests i).itemId =
        (.ok (r, if session.burnAfterDownload then some session.id else none), s'.world)) ∨
    ∃ e, s'.phase i = .refused e ∧
      downloadSessionItem s.world now (requests i).sessionCode (requests i).itemId =
        (.error e, s'.world) := by
  obtain ⟨t, ht, hrun⟩ := System.run_cons_eq_some.mp hrun
  obtain ⟨t', ht', hnil⟩ := System.run_cons_eq_some.mp hrun
  cases hnil
  obtain ⟨session, item, burns, hphase, hserve⟩ := serve_cases ht'
  simp only [system] at ht
  split at ht
  · unfold downloadSessionItem
    rcases hget : getSessionItem s.world now (requests i).sessionCode (requests i).itemId with
      ⟨err | (_ | ⟨session', item'⟩), w⟩
    · rw [hget] at ht
      cases ht
      simp only [State.set, Function.update_self, reduceCtorEq] at hphase
    · rw [hget] at ht
      cases ht
      simp only [State.set, Function.update_self, reduceCtorEq] at hphase
    · rw [hget] at ht
      cases ht
      simp only [State.set, Function.update_self, Phase.found.injEq] at hphase
      obtain ⟨rfl, rfl, -⟩ := hphase
      rcases hserve with ⟨e, herror, rfl⟩ | ⟨r, hok, rfl⟩
      · refine Or.inr ⟨e, Function.update_self .., ?_⟩
        have hserved : serveItem w.files item' = .error e := herror
        simp only [hserved]
        rfl
      · refine Or.inl ⟨_, _, r, Function.update_self .., ?_⟩
        have hserved : serveItem w.files item' = .ok r := hok
        simp only [hserved]
        rfl
  · cases ht

end Steps

/-! ## What holds in every interleaving -/

/-- The session and the item a request has found. -/
def Phase.holds {ι : Type} : Phase ι → Option (TransferSession × TransferItem)
  | .found session item _ => some (session, item)
  | phase => phase.handed

/-- A found item is a row of its session's, and the session's row says as the
loaded session does whether it burns. -/
structure Found (w : World) (p : TransferSession × TransferItem) : Prop where
  item : p.2 ∈ w.db.items.rows
  session : p.2.sessionId = p.1.id
  burns : ∀ m ∈ w.db.sessions.rows, m.id = p.1.id → m.burnAfterDownload = p.1.burnAfterDownload
  kept : ∃ m ∈ w.db.sessions.rows, m.id = p.1.id

/-- The session `sessionId` has expired. -/
def Expired (w : World) (sessionId : Uuid) : Prop :=
  ∀ m ∈ w.db.sessions.rows, m.id = sessionId → m.status = .expired

structure Inv (s : State ι) : Prop where
  found : ∀ i p, (s.phase i).holds = some p → Found s.world p
  burned : ∀ i session item, s.phase i = .burned session item → Expired s.world session.id
  /-- A session that has been looked up was not one of those burned by then. -/
  before : ∀ i session item burns, s.phase i = .found session item burns →
    ∀ j, burns j = true → ∃ session' item', s.phase j = .burned session' item' ∧
      session'.id ≠ session.id

/-- What a step can do to the world: items and files stay, and at most one
session row is written, which has expired then. -/
def Moves (w w' : World) : Prop :=
  w'.db.items = w.db.items ∧ w'.files = w.files ∧
    (w'.db.sessions = w.db.sessions ∨ ∃ m ∈ w.db.sessions.rows, ∃ m', m'.id = m.id ∧
      m'.burnAfterDownload = m.burnAfterDownload ∧ m'.status = .expired ∧
      w'.db.sessions = w.db.sessions.put m')

theorem Moves.refl (w : World) : Moves w w := ⟨rfl, rfl, Or.inl rfl⟩

theorem moves_putStatus {w : World} {m : TransferSessionModel} (hm : m ∈ w.db.sessions.rows) :
    Moves w (w.withDb (w.db.putStatus m .expired)) :=
  ⟨rfl, rfl, Or.inr ⟨m, hm, { m with status := .expired }, rfl, rfl, rfl, rfl⟩⟩

theorem moves_burnSession (w : World) (sid : Uuid) (unlinkFails : Path → Bool) :
    Moves w (burnSession w sid unlinkFails).2 := by
  rcases burnSession_cases w sid unlinkFails with ⟨heq, -⟩ | ⟨m, hm, -, heq⟩
  · rw [heq]
    exact Moves.refl w
  · rw [heq]
    exact ⟨rfl, rfl, Or.inr ⟨m, hm, burnedRow m, rfl, rfl, rfl, rfl⟩⟩

theorem expired_burnSession (w : World) (sid : Uuid) (unlinkFails : Path → Bool) :
    Expired (burnSession w sid unlinkFails).2 sid := by
  intro r hr hrid
  rcases burnSession_cases w sid unlinkFails with ⟨heq, hnone⟩ | ⟨m, hm, hid, heq⟩
  · rw [heq] at hr
    exact absurd hrid (hnone r hr)
  · rw [heq] at hr
    obtain rfl := Table.eq_of_mem_put hr (hrid.trans hid.symm)
    rfl

theorem Moves.expired {w w' : World} (h : Moves w w') {sid : Uuid} (hexp : Expired w sid) :
    Expired w' sid := by
  obtain ⟨-, -, hsame | ⟨m, hm, m', hid, -, hstatus, hput⟩⟩ := h
  · intro r hr
    rw [hsame] at hr
    exact hexp r hr
  · intro r hr hrid
    rw [hput] at hr
    rcases Table.mem_put.mp hr with rfl | ⟨hr, -⟩
    · exact hstatus
    · exact hexp r hr hrid

theorem Moves.found {w w' : World} (h : Moves w w') {p : TransferSession × TransferItem}
    (hp : Found w p) : Found w' p := by
  obtain ⟨hitems, -, hsame | ⟨m, hm, m', hid, hburns, -, hput⟩⟩ := h
  · exact ⟨hitems ▸ hp.item, hp.session, hsame ▸ hp.burns, hsame ▸ hp.kept⟩
  · refine ⟨hitems ▸ hp.item, hp.session, ?_, ?_⟩
    · intro r hr hrid
      rw [hput] at hr
      rcases Table.mem_put.mp hr with rfl | ⟨hr, -⟩
      · rw [hburns]
        exact hp.burns m hm (hid.symm.trans hrid)
      · exact hp.burns r hr hrid
    · obtain ⟨r, hr, hrid⟩ := hp.kept
      rw [hput]
      by_cases heq : r.id = m'.id
      · exact ⟨m', Table.mem_put.mpr (Or.inl rfl), heq.symm.trans hrid⟩
      · exact ⟨r, Table.mem_put.mpr (Or.inr ⟨hr, heq⟩), hrid⟩

/-- Two found items with one identifier are one row of one session. -/
theorem Found.same {w : World} {p q : TransferSession × TransferItem} (hp : Found w p)
    (hq : Found w q) (hid : p.2.id = q.2.id) :
    p.1.id = q.1.id ∧ p.1.burnAfterDownload = q.1.burnAfterDownload := by
  have hitem : p.2 = q.2 := Table.eq_of_mem hp.item hq.item hid
  have hsession : p.1.id = q.1.id := by rw [← hp.session, ← hq.session, hitem]
  obtain ⟨m, hm, hmid⟩ := hp.kept
  refine ⟨hsession, ?_⟩
  rw [← hp.burns m hm hmid, hq.burns m hm (hmid.trans hsession)]

section Invariant

variable {requests : ι → Request} {s s' : State ι}

/-- Request `i`, which has not burned a session yet, moves on to `phase`. -/
theorem Inv.set (h : Inv s) {w : World} (hmoves : Moves s.world w) {i : ι} {phase : Phase ι}
    (hnot : (s.phase i).isBurned = false)
    (hfound : ∀ p, phase.holds = some p → Found s.world p)
    (hburned : ∀ session item, phase = .burned session item → Expired w session.id)
    (hbefore : ∀ session item burns, phase = .found session item burns →
      ∀ j, burns j = true → ∃ session' item', s.phase j = .burned session' item' ∧
        session'.id ≠ session.id) : Inv ({ s with world := w }.set i phase) := by
  have hother : ∀ j, j ≠ i → (({ s with world := w } : State ι).set i phase).phase j = s.phase j :=
    fun j hj => Function.update_of_ne hj _ _
  have hself : (({ s with world := w } : State ι).set i phase).phase i = phase :=
    Function.update_self ..
  -- a request whose burn had committed has not moved on
  have hlift : ∀ {session : TransferSession} {burns : ι → Bool}, (∀ j, burns j = true →
      ∃ session' item', s.phase j = .burned session' item' ∧ session'.id ≠ session.id) →
      ∀ j, burns j = true → ∃ session' item',
        (({ s with world := w } : State ι).set i phase).phase j = .burned session' item' ∧
          session'.id ≠ session.id := by
    intro session burns hall j hj
    obtain ⟨session', item', hphase, hne⟩ := hall j hj
    refine ⟨session', item', ?_, hne⟩
    rw [hother j, hphase]
    rintro rfl
    rw [hphase] at hnot
    cases hnot
  constructor
  · intro j p hp
    refine hmoves.found ?_
    by_cases hj : j = i
    · rw [hj, hself] at hp
      exact hfound p hp
    · rw [hother j hj] at hp
      exact h.found j p hp
  · intro j session item hp
    by_cases hj : j = i
    · rw [hj, hself] at hp
      exact hburned session item hp
    · rw [hother j hj] at hp
      exact hmoves.expired (h.burned j session item hp)
  · intro j session item burns hp
    by_cases hj : j = i
    · rw [hj, hself] at hp
      exact hlift (hbefore session item burns hp)
    · rw [hother j hj] at hp
      exact hlift (h.before j session item burns hp)

theorem Inv.refuse (h : Inv s) {w : World} (hmoves : Moves s.world w) {i : ι}
    (hnot : (s.phase i).isBurned = false) (e : HttpError) :
    Inv ({ s with world := w }.set i (.refused e)) := by
  refine h.set hmoves hnot ?_ ?_ ?_
  · intro p hp
    cases hp
  · intro session item hp
    cases hp
  · intro session item burns hp
    cases hp

theorem Inv.step {l : Step ι} (h : Inv s) (hstep : (system requests).step s l = some s') :
    Inv s' := by
  cases l with
  | lookup i now =>
      obtain ⟨hphase, ⟨e, w, hw, rfl⟩ | ⟨m, item, hm, hi, hsid, rfl⟩⟩ := lookup_cases hstep
      · have hmoves : Moves s.world w := by
          rcases hw with rfl | ⟨m, hm, rfl⟩
          · exact Moves.refl _
          · exact moves_putStatus hm
        exact h.refuse hmoves (by rw [hphase]; rfl) e
      · refine h.set (Moves.refl _) (by rw [hphase]; rfl) ?_ ?_ ?_
        · intro p hp
          cases hp
          refine ⟨hi, hsid, ?_, m, hm.mem, rfl⟩
          intro r hr hrid
          rw [Table.eq_of_mem hr hm.mem hrid]
          rfl
        · intro session item' hp
          cases hp
        · intro session item' burns hp j hj
          cases hp
          change (s.phase j).isBurned = true at hj
          -- what had been burned by then has expired, and this session has not
          cases hburned : s.phase j with
          | burned session' item' =>
              refine ⟨session', item', rfl, ?_⟩
              intro hid
              exact hm.status (h.burned j session' item' hburned m hm.mem hid.symm)
          | _ =>
              rw [hburned] at hj
              cases hj
  | serve i =>
      obtain ⟨session, item, burns, hphase, ⟨e, -, rfl⟩ | ⟨r, -, rfl⟩⟩ := serve_cases hstep
      · exact h.refuse (Moves.refl _) (by rw [hphase]; rfl) e
      · refine h.set (Moves.refl _) (by rw [hphase]; rfl) ?_ ?_ ?_
        · intro p hp
          cases hp
          exact h.found i (session, item) (by rw [hphase]; rfl)
        · intro session' item' hp
          cases hp
        · intro session' item' burns' hp
          cases hp
  | burn i unlinkFails =>
      obtain ⟨session, item, r, hphase, rfl⟩ := burn_cases hstep
      refine h.set (moves_burnSession _ _ _) (by rw [hphase]; rfl) ?_ ?_ ?_
      · intro p hp
        cases hp
        exact h.found i (session, item) (by rw [hphase]; rfl)
      · intro session' item' hp
        cases hp
        exact expired_burnSession _ _ _
      · intro session' item' burns hp
        cases hp

omit [DecidableEq ι] in
/-- A step after which every request has been handed what it had been before. -/
theorem SingleUse.congr (h : SingleUse s)
    (hsame : ∀ j, (s'.phase j).handed = (s.phase j).handed) : SingleUse s' := by
  intro i j p q hp hq
  rw [hsame] at hp hq
  exact h i j p q hp hq

theorem handed_set {w : World} {i : ι} {phase : Phase ι}
    (h : phase.handed = (s.phase i).handed) (j : ι) :
    (({ s with world := w } : State ι).set i phase |>.phase j).handed = (s.phase j).handed := by
  by_cases hj : j = i
  · rw [hj]
    simp only [State.set, Function.update_self, h]
  · simp only [State.set, Function.update_of_ne hj]

/-- Where no item has been served twice, a step keeps it so exactly when it
serves nothing to a request that overlaps one served before. -/
theorem singleUse_step {l : Step ι} (hinv : Inv s) (h : SingleUse s)
    (hstep : (system requests).step s l = some s') : SingleUse s' ↔ Separate s l := by
  cases l with
  | lookup i now =>
      obtain ⟨hphase, ⟨e, w, hw, rfl⟩ | ⟨m, item, hm, hi, hsid, rfl⟩⟩ := lookup_cases hstep
      · exact ⟨fun _ => trivial, fun _ => h.congr (handed_set (by rw [hphase]; rfl))⟩
      · exact ⟨fun _ => trivial, fun _ => h.congr (handed_set (by rw [hphase]; rfl))⟩
  | burn i unlinkFails =>
      obtain ⟨session, item, r, hphase, rfl⟩ := burn_cases hstep
      exact ⟨fun _ => trivial, fun _ => h.congr (handed_set (by rw [hphase]; rfl))⟩
  | serve i =>
      obtain ⟨session, item, burns, hphase, ⟨e, hserve, rfl⟩ | ⟨r, hserve, rfl⟩⟩ :=
        serve_cases hstep
      · refine ⟨fun _ => ?_, fun _ => h.congr (handed_set (by rw [hphase]; rfl))⟩
        rintro session' item' burns' hphase' - ⟨r, hr⟩
        rw [hphase] at hphase'
        cases hphase'
        rw [hserve] at hr
        cases hr
      · have hother : ∀ j, j ≠ i → (s.set i (.served session item r)).phase j = s.phase j :=
          fun j hj => Function.update_of_ne hj _ _
        have hself : (s.set i (.served session item r)).phase i = .served session item r :=
          Function.update_self ..
        constructor
        · intro hsingle session' item' burns' hphase' hburns _ j p hj hid
          rw [hphase] at hphase'
          cases hphase'
          have hji : j ≠ i := by
            rintro rfl
            rw [hphase] at hj
            cases hj
          have hij := hsingle i j (session, item) p (by rw [hself]; rfl) (by rw [hother j hji, hj])
            hburns hid.symm
          exact absurd hij.symm hji
        · intro hseparate
          have hfound : Found s.world (session, item) :=
            hinv.found i (session, item) (by rw [hphase]; rfl)
          -- nobody else has been served the item
          have hnone : ∀ j p, j ≠ i → (s.phase j).handed = some p → p.2.id = item.id →
              session.burnAfterDownload ≠ true := by
            intro j p hj hp hid hburns
            have hdone := hseparate session item burns hphase hburns ⟨r, hserve⟩ j p hp hid
            obtain ⟨session', item', hburned, hne⟩ := hinv.before i session item burns hphase j hdone
            rw [hburned] at hp
            cases hp
            have hsame := (hinv.found j (session', item') (by rw [hburned]; rfl)).same hfound hid
            exact hne hsame.1
          intro a b p q hp hq hburns hid
          by_cases ha : a = i
          · subst ha
            by_cases hb : b = a
            · exact hb.symm
            · rw [hself] at hp
              cases hp
              rw [hother b hb] at hq
              exact absurd hburns (hnone b q hb hq hid.symm)
          · rw [hother a ha] at hp
            by_cases hb : b = i
            · subst hb
              rw [hself] at hq
              cases hq
              have hpfound : Found s.world p := by
                refine hinv.found a p ?_
                cases hphase' : s.phase a with
                | found => rw [hphase'] at hp; cases hp
                | _ => rw [hphase'] at hp; exact hp
              have hsame := (hpfound.same hfound hid).2
              exact absurd (hsame.symm.trans hburns) (hnone a p ha hp hid)
            · rw [hother b hb] at hq
              exact h a b p q hp hq hburns hid

end Invariant

/-- Any number of requests in any order of their steps: no item of a
burn-after-download session is served twice exactly when no request that is
served an item overlaps one that has been served it. -/
theorem single_use_iff_separate (requests : ι → Request) (w : World) (ls : List (Step ι)) :
    (system requests).Always SingleUse (start w) ls ↔
      (system requests).Guarded Separate (start w) ls := by
  have hinv : Inv (start w : State ι) := by
    refine ⟨?_, ?_, ?_⟩
    · intro i p hp
      cases hp
    · intro i session item hp
      cases hp
    · intro i session item burns hp
      cases hp
  have hsingle : SingleUse (start w : State ι) := by
    intro i j p q hp
    cases hp
  exact System.always_iff_guarded (fun _ _ _ h hstep => Inv.step h hstep)
    (fun _ _ _ hJ hP hstep => singleUse_step hJ hP hstep) hinv hsingle

/-! ## Two requests at once -/

namespace Sample

/-- A burn-after-download session with one item. -/
def shared : List Event :=
  [SessionService.Sample.create true, SessionService.Sample.upload [1, 2]]

theorem runs_shared : (SessionService.Sample.run shared).isSome = true := by decide +kernel

def world : World := ((SessionService.Sample.run shared).get runs_shared).world

def requests : Bool → Request := fun _ =>
  ⟨SessionService.Sample.code, SessionService.Sample.itemId⟩

def run (ls : List (Step Bool)) : Option (State Bool) := (system requests).run (start world) ls

/-- Both requests look the item up before either is served. -/
def overlapping : List (Step Bool) :=
  [.lookup false 2, .lookup true 2, .serve false, .serve true, .burn false fun _ => false]

theorem runs_overlapping : (run overlapping).isSome = true := by decide +kernel

end Sample

theorem served_twice :
    ¬ ∀ (d : Deployment) (t : SessionService.State), SessionService.Reachable d t →
        ∀ (ι : Type) [DecidableEq ι] (requests : ι → Request) (ls : List (Step ι)),
          (system requests).Always SingleUse (start t.world) ls := by
  intro h
  have hall := h .default _ (SessionService.Sample.reachable_run Sample.runs_shared) Bool
    Sample.requests Sample.overlapping
  have hlast := hall.last (Option.some_get Sample.runs_overlapping).symm
  have hboth : ∃ p q,
      (((Sample.run Sample.overlapping).get Sample.runs_overlapping).phase false).handed =
        some p ∧
      (((Sample.run Sample.overlapping).get Sample.runs_overlapping).phase true).handed =
        some q ∧
      p.1.burnAfterDownload = true ∧ p.2.id = q.2.id := by
    refine ⟨_, _, (Option.some_get ?_).symm, (Option.some_get ?_).symm, ?_, ?_⟩
    · decide +kernel
    · decide +kernel
    · decide +kernel
    · decide +kernel
  obtain ⟨p, q, hp, hq, hburns, hid⟩ := hboth
  have hsame := hlast false true p q hp hq hburns hid
  cases hsame

end BurnRace

end Jumbox
