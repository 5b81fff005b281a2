import Jumbox.Browser.ReceivePage

/-!
# "Download all"

The button starts a timer for each item, and each timer follows a link. In whatever order
the links are followed, looked up and served, no file is lost on the way as long as the
session is shared. A burn is the end of it: what has not been looked up by then never will
be.
-/

namespace Jumbox

namespace Browser

namespace ReceivePage

open SessionService (Call)
open Traffic (Moves)

/-! ## Nothing is lost -/

/-- The file of an item is on the server. -/
def Stores (sessionId itemId : Uuid) (data : Bytes) (w : World) : Prop :=
  ∃ i ∈ w.db.items.rows, i.id = itemId ∧ i.sessionId = sessionId ∧
    (i.storagePath.bind w.files).map (·.data) = some data

instance (sessionId itemId : Uuid) (data : Bytes) (w : World) :
    Decidable (Stores sessionId itemId data w) :=
  inferInstanceAs (Decidable (∃ i ∈ w.db.items.rows, _))

theorem stores_iff {sessionId itemId : Uuid} {data : Bytes} {w : World} :
    Stores sessionId itemId data w ↔ ∃ i ∈ w.db.items.rows, i.id = itemId ∧
      i.sessionId = sessionId ∧ ∃ p f, i.storagePath = some p ∧ w.files p = some f ∧
        f.data = data := by
  have hfile : ∀ i : TransferItem, (i.storagePath.bind w.files).map (·.data) = some data ↔
      ∃ p f, i.storagePath = some p ∧ w.files p = some f ∧ f.data = data := by
    intro i
    rw [Option.map_eq_some_iff]
    constructor
    · rintro ⟨f, hf, hdata⟩
      obtain ⟨p, hp, hf⟩ := Option.bind_eq_some_iff.mp hf
      exact ⟨p, f, hp, hf, hdata⟩
    · rintro ⟨p, f, hp, hf, hdata⟩
      exact ⟨f, Option.bind_eq_some_iff.mpr ⟨p, hp, hf⟩, hdata⟩
  simp only [Stores, hfile]

/-- The session is shared, and its code is the code of what the page shows. -/
structure Shares (sessionId : Uuid) (code : Str) (s : State) : Prop where
  shown : s.currentSession.map (·.sessionCode) = some code
  shared : ∃ m ∈ s.sessions.world.db.sessions.rows, m.id = sessionId ∧ m.sessionCode = code ∧
    m.status ≠ .expired

instance (sessionId : Uuid) (code : Str) (s : State) : Decidable (Shares sessionId code s) :=
  decidable_of_iff
    (s.currentSession.map (·.sessionCode) = some code ∧
      ∃ m ∈ s.sessions.world.db.sessions.rows, m.id = sessionId ∧ m.sessionCode = code ∧
        m.status ≠ .expired)
    ⟨fun h => ⟨h.1, h.2⟩, fun h => ⟨h.shown, h.shared⟩⟩

/-- The item that a call sends bytes for. -/
def sendsFor : Call → Option Uuid
  | .appendItemChunk c => some c.itemId
  | _ => none

/-- Nothing gets lost, no link is looked up once the session has expired, and nobody sends
chunks for the item. -/
def Delivers (sessionId itemId : Uuid) (s : State) : Step → Prop
  | .findItem _ now => ∀ m ∈ s.sessions.world.db.sessions.rows, m.id = sessionId →
      m.expiresAt.any (· < now) = false
  | .serveItem _ arrives => arrives = true
  | .loseLink _ => False
  | .other e => e.call.bind sendsFor ≠ some itemId
  | _ => True

instance (sessionId itemId : Uuid) (s : State) : (l : Step) →
    Decidable (Delivers sessionId itemId s l)
  | .findItem _ now => inferInstanceAs (Decidable (∀ m ∈ s.sessions.world.db.sessions.rows,
      m.id = sessionId → m.expiresAt.any (· < now) = false))
  | .serveItem _ _ => inferInstanceAs (Decidable (_ = _))
  | .loseLink _ => .isFalse id
  | .other _ => inferInstanceAs (Decidable (_ ≠ _))
  | .input _ => .isTrue trivial
  | .submit => .isTrue trivial
  | .answerLookup _ _ => .isTrue trivial
  | .arrive _ => .isTrue trivial
  | .loseLookup _ => .isTrue trivial
  | .follow _ => .isTrue trivial
  | .downloadAll => .isTrue trivial
  | .fire _ => .isTrue trivial
  | .burn _ _ => .isTrue trivial

/-- The file of the item is waiting for its timer, behind a followed link, about to be sent,
or saved. -/
def OnItsWay (code : Str) (item : Api.TransferItemResponse) (data : Bytes) (s : State) : Prop :=
  item ∈ s.timers ∨ ⟨code, item⟩ ∈ s.links ∨
    (∃ v ∈ s.servings, v.link = ⟨code, item⟩ ∧ v.item ∈ s.sessions.world.db.items.rows) ∨
    ∃ f ∈ s.saved, f.link = ⟨code, item⟩ ∧ f.response.body = data

section Lost

variable {d : Deployment} {upper : UpperCase} {s t : State} {sessionId : Uuid} {code : Str}
  {item : Api.TransferItemResponse} {data : Bytes}

theorem mem_eraseIdx_of_ne {α : Type} {l : List α} {n : ℕ} {x y : α} (hx : x ∈ l)
    (hy : l[n]? = some y) (hne : x ≠ y) : x ∈ l.eraseIdx n := by
  obtain ⟨k, hk⟩ := List.mem_iff_getElem?.mp hx
  refine List.mem_eraseIdx_iff_getElem?.mpr ⟨k, ?_, hk⟩
  rintro rfl
  exact hne (Option.some.inj (hk.symm.trans hy))

theorem Moves.stores {P : Call → Prop} {s s' : SessionService.State} {itemId : Uuid}
    (h : Moves d P s s') (hs : Traffic.Inv d s)
    (hP : ∀ c, P (.appendItemChunk c) → c.itemId ≠ itemId)
    (hsession : ∃ m ∈ s'.world.db.sessions.rows, m.id = sessionId)
    (hstores : Stores sessionId itemId data s.world) : Stores sessionId itemId data s'.world := by
  obtain ⟨i, hi, rfl, rfl, p, f, hp, hf, hdata⟩ := stores_iff.mp hstores
  obtain ⟨hkept, hfiles⟩ := h.item_kept hs hi hP hsession
  exact stores_iff.mpr ⟨i, hkept, rfl, rfl, p, f, hp, (hfiles p hp).trans hf, hdata⟩

/-- The item of a link of a shared session is found. -/
theorem findItem_of_stores (hs : Traffic.Inv d s.sessions) (hshares : Shares sessionId code s)
    (hstores : Stores sessionId item.itemId data s.sessions.world) {now : ℤ}
    (hlive : ∀ m ∈ s.sessions.world.db.sessions.rows, m.id = sessionId →
      m.expiresAt.any (· < now) = false) :
    ∃ session, ∃ i ∈ s.sessions.world.db.items.rows,
      findItem s.sessions.world now ⟨code, item⟩ = (.ok (session, i), s.sessions.world) := by
  obtain ⟨m, hm, hid, rfl, hstatus⟩ := hshares.shared
  obtain ⟨i, hi, hiid, hsid, -⟩ := stores_iff.mp hstores
  have hfound := hs.codes.getSessionItem hm (hlive m hm hid) hstatus hi (hsid.trans hid.symm)
  rw [hiid] at hfound
  refine ⟨s.sessions.world.db.sessionToDomain m, i, hi, ?_⟩
  unfold findItem
  rw [if_pos (CodeField.admitted_of_generated (hs.codes.generated m hm)), hfound]

/-- The item is served with its file. -/
theorem serveItem_of_stores {sessions : SessionService.State} {row : TransferItem}
    (hstores : Stores sessionId item.itemId data sessions.world)
    (hrow : row ∈ sessions.world.db.items.rows) (hid : row.id = item.itemId) :
    ∃ r, SessionService.serveItem sessions.world.files row = .ok r ∧ r.body = data := by
  obtain ⟨i, hi, hiid, -, p, f, hp, hf, rfl⟩ := stores_iff.mp hstores
  obtain rfl : row = i := Table.eq_of_mem hrow hi (hid.trans hiid.symm)
  unfold SessionService.serveItem
  rw [hp, Option.bind_some, hf]
  exact ⟨_, rfl, rfl⟩

theorem Inv.id_of_serving {quiet : Uuid → Prop} (h : Inv d quiet s) {v : Serving}
    (hv : v ∈ s.servings) (hlink : v.link = ⟨code, item⟩) : v.item.id = item.itemId := by
  rw [(h.servings v hv).id, hlink]

/-- Others' calls, and the look-ups and burns of the page itself, leave the file on its
way. -/
theorem OnItsWay.kept {P : Call → Prop} (hinv : Inv d (fun _ => False) s)
    (h : OnItsWay code item data s) {sessions : SessionService.State}
    (hmoves : Moves d P s.sessions sessions)
    (hP : ∀ c, P (.appendItemChunk c) → c.itemId ≠ item.itemId)
    (hstores : Stores sessionId item.itemId data s.sessions.world)
    (hsession : ∃ m ∈ sessions.world.db.sessions.rows, m.id = sessionId) :
    OnItsWay code item data { s with sessions } := by
  rcases h with h | h | ⟨v, hv, hlink, hrow⟩ | h
  · exact .inl h
  · exact .inr (.inl h)
  · obtain ⟨i, hi, hiid, hsid, -⟩ := hstores
    have hid := hinv.id_of_serving hv hlink
    obtain rfl : v.item = i := Table.eq_of_mem hrow hi (hid.trans hiid.symm)
    refine .inr (.inr (.inl ⟨v, hv, hlink, ?_⟩))
    rw [← hsid] at hsession
    exact (hmoves.item_kept hinv.server hrow (hid ▸ hP) hsession).1
  · exact .inr (.inr (.inr h))

/-- A step that delivers leaves the file on its way. -/
theorem OnItsWay.step {P : Call → Prop} {l : Step} (h : OnItsWay code item data s)
    (hinv : Inv d (fun _ => False) s) (hshares : Shares sessionId code s)
    (hstores : Stores sessionId item.itemId data s.sessions.world)
    (hdelivers : Delivers sessionId item.itemId s l)
    (hmoves : Moves d P s.sessions t.sessions)
    (hP : ∀ c, P (.appendItemChunk c) → c.itemId ≠ item.itemId)
    (hsession : ∃ m ∈ t.sessions.world.db.sessions.rows, m.id = sessionId)
    (htakes : Takes d upper s l t) : OnItsWay code item data t := by
  have hadded : ∀ link, OnItsWay code item data { s with links := s.links ++ [link] } := by
    intro link
    rcases h with h | h | h
    · exact .inl h
    · exact .inr (.inl (List.mem_append_left _ h))
    · exact .inr (.inr h)
  have hkept : OnItsWay code item data { s with sessions := t.sessions } :=
    h.kept hinv hmoves hP hstores hsession
  cases htakes with
  | input text =>
      cases (CodeField.onInput upper text).2 with
      | none => exact h
      | some cleanCode => exact h
  | @submit value field =>
      cases CodeField.cleanCode value with
      | none => exact h
      | some cleanCode => exact h
  | answerLookup => exact hkept
  | @arrive n code' answer answered =>
      cases answer with
      | error e => exact h
      | ok session => exact h
  | loseLookup => exact h
  | follow => exact hadded _
  | downloadAll =>
      rcases h with h | h
      · exact .inl (List.mem_append_left _ h)
      · exact .inr h
  | @fire n fired session timer shown =>
      by_cases hfired : fired = item
      · -- the code is that of what is shown
        have hcode := hshares.shown
        rw [shown] at hcode
        obtain rfl := Option.some.inj hcode
        refine .inr (.inl (List.mem_append_right _ ?_))
        rw [hfired]
        exact List.mem_singleton_self _
      · rcases h with h | h | h
        · exact .inl (mem_eraseIdx_of_ne h timer (Ne.symm hfired))
        · exact .inr (.inl (List.mem_append_left _ h))
        · exact .inr (.inr h)
  | @notFound n link now e w followed reply =>
      rcases hkept with h | h | h
      · exact .inl h
      · refine .inr (.inl (mem_eraseIdx_of_ne h followed ?_))
        rintro rfl
        obtain ⟨session, i, -, hfound⟩ :=
          findItem_of_stores hinv.server hshares hstores hdelivers
        rw [reply] at hfound
        cases hfound
      · exact .inr (.inr h)
  | @found n link now session row w followed reply =>
      rcases hkept with h | h | ⟨v, hv, hserving⟩ | h
      · exact .inl h
      · by_cases hlink : link = ⟨code, item⟩
        · subst hlink
          obtain ⟨session', i, hi, hfound⟩ :=
            findItem_of_stores hinv.server hshares hstores hdelivers
          rw [reply] at hfound
          cases hfound
          exact .inr (.inr (.inl ⟨_, List.mem_append_right _ (List.mem_singleton_self _), rfl, hi⟩))
        · exact .inr (.inl (mem_eraseIdx_of_ne h followed (Ne.symm hlink)))
      · exact .inr (.inr (.inl ⟨v, List.mem_append_left _ hv, hserving⟩))
      · exact .inr (.inr (.inr h))
  | @missing n link session row arrives e looked reply =>
      rcases h with h | h | ⟨v, hv, hlink, hrow⟩ | h
      · exact .inl h
      · exact .inr (.inl h)
      · refine .inr (.inr (.inl ⟨v, mem_eraseIdx_of_ne hv looked ?_, hlink, hrow⟩))
        rintro rfl
        have hid : row.id = item.itemId := hinv.id_of_serving hv hlink
        obtain ⟨r, hserved, -⟩ := serveItem_of_stores hstores hrow hid
        rw [reply] at hserved
        cases hserved
      · exact .inr (.inr (.inr h))
  | @served n link session row arrives response looked reply =>
      obtain rfl : arrives = true := hdelivers
      rcases h with h | h | ⟨v, hv, hlink, hrow⟩ | ⟨f, hf, hfile⟩
      · exact .inl h
      · exact .inr (.inl h)
      · by_cases hsame : v = ⟨link, session, row⟩
        · subst hsame
          have hid : row.id = item.itemId := hinv.id_of_serving hv hlink
          obtain ⟨r, hserved, hdata⟩ := serveItem_of_stores hstores hrow hid
          rw [reply] at hserved
          cases hserved
          exact .inr (.inr (.inr ⟨_, List.mem_append_right _ (List.mem_singleton_self _), hlink,
            hdata⟩))
        · exact .inr (.inr (.inl ⟨v, mem_eraseIdx_of_ne hv looked hsame, hlink, hrow⟩))
      · exact .inr (.inr (.inr ⟨f, List.mem_append_left _ hf, hfile⟩))
  | loseLink => exact hdelivers.elim
  | burn => exact hkept
  | other => exact hkept

theorem sendsFor_of_ne {call : Call} (h : ∀ c, call ≠ .appendItemChunk c) :
    sendsFor call = none := by
  unfold sendsFor
  split
  · exact absurd rfl (h _)
  · rfl

/-- A file that the button has put on its way stays on its way. -/
theorem onItsWay_of_run (hinv : Inv d (fun _ => False) s) {session : Api.SessionDetailResponse}
    (hsession : s.currentSession = some session) (hitem : item ∈ session.items)
    (hstores : Stores item.sessionId item.itemId data s.sessions.world) {ls : List Step}
    (hshares : (system d upper).Always (Shares item.sessionId session.sessionCode) s
      (.downloadAll :: ls))
    (hdelivers : (system d upper).Guarded (Delivers item.sessionId item.itemId) s
      (.downloadAll :: ls))
    (hrun : (system d upper).run s (.downloadAll :: ls) = some t) :
    Inv d (fun _ => False) t ∧ OnItsWay session.sessionCode item data t := by
  obtain ⟨s₁, hclick, hrun⟩ := System.run_cons_eq_some.mp hrun
  -- the button puts the item among the timers
  have hpressed : item ∈ s₁.timers := by
    cases takes_of_step hclick with
    | downloadAll shown =>
        obtain rfl := Option.some.inj (shown.symm.trans hsession)
        exact List.mem_append_right _ hitem
  let I : State → Prop := fun s => Inv d (fun _ => False) s ∧
    Stores item.sessionId item.itemId data s.sessions.world ∧
    OnItsWay session.sessionCode item data s
  have hmoves : ∀ s l t, Inv d (fun _ => False) s → Delivers item.sessionId item.itemId s l →
      Takes d upper s l t → Moves d (fun call => sendsFor call ≠ some item.itemId) s.sessions
        t.sessions := by
    intro s l t hinv hdelivers htakes
    refine htakes.moves hinv.server (fun call hcall => ?_) ?_
    · rw [sendsFor_of_ne hcall]
      exact nofun
    · rintro e rfl call hcall
      have hsends : e.call.bind sendsFor ≠ some item.itemId := hdelivers
      rw [hcall] at hsends
      exact hsends
  have hP : ∀ c, sendsFor (.appendItemChunk c) ≠ some item.itemId → c.itemId ≠ item.itemId :=
    fun c hc heq => hc (congrArg some heq)
  have hstep : ∀ s l t, Inv d (fun _ => False) s →
      Stores item.sessionId item.itemId data s.sessions.world →
      Shares item.sessionId session.sessionCode t → Delivers item.sessionId item.itemId s l →
      Takes d upper s l t → Inv d (fun _ => False) t ∧
        Stores item.sessionId item.itemId data t.sessions.world := by
    intro s l t hinv hstores hshares hdelivers htakes
    obtain ⟨m, hm, hid, -⟩ := hshares.shared
    refine ⟨hinv.step (leaves_none l) htakes, ?_⟩
    exact Moves.stores (hmoves s l t hinv hdelivers htakes) hinv.server hP ⟨m, hm, hid⟩ hstores
  have hI : I t := by
    refine System.holds_of_guarded (S := system d upper) (I := I) ?_ ?_ (hshares.2 s₁ hclick)
      (hdelivers s₁ hclick).2 hrun
    · rintro s l t ⟨hinv, hstores, hway⟩ hshares hshares' hdelivers hl
      have htakes := takes_of_step hl
      obtain ⟨hinv', hstores'⟩ := hstep s l t hinv hstores hshares' hdelivers htakes
      obtain ⟨m, hm, hid, -⟩ := hshares'.shared
      exact ⟨hinv', hstores', hway.step hinv hshares hstores hdelivers
        (hmoves s l t hinv hdelivers htakes) hP ⟨m, hm, hid⟩ htakes⟩
    · obtain ⟨hinv', hstores'⟩ := hstep s .downloadAll s₁ hinv hstores
        (hshares.2 s₁ hclick).head trivial (takes_of_step hclick)
      exact ⟨hinv', hstores', .inl hpressed⟩
  exact ⟨hI.1, hI.2.2⟩

theorem OnItsWay.saved (h : OnItsWay code item data t) (htimers : t.timers = [])
    (hlinks : t.links = []) (hservings : t.servings = []) :
    ∃ f ∈ t.saved, f.link = ⟨code, item⟩ ∧ f.response.body = data := by
  rcases h with h | h | ⟨v, hv, -⟩ | h
  · rw [htimers] at h
    cases h
  · rw [hlinks] at h
    cases h
  · rw [hservings] at hv
    cases hv
  · exact h

/-- In whatever order the timers fire, the links are looked up and served and others use the
server: once all timers have fired and all links are answered, every file that was on the
server when the button was pressed is saved, with the bytes it had then and the name on its
card, if the session has stayed shared and shown, nothing got lost on the way, and nobody
has sent chunks for the file. -/
theorem downloadAll_loses_nothing {sessions : SessionService.State}
    (hs : Traffic.Reachable d sessions) {start : State} (hopened : Opened sessions start)
    {pre : List Step} (hpre : (system d upper).run start pre = some s)
    {session : Api.SessionDetailResponse}
    (hsession : s.currentSession = some session) (hitem : item ∈ session.items)
    (hstores : Stores item.sessionId item.itemId data s.sessions.world) {ls : List Step}
    (hshares : (system d upper).Always (Shares item.sessionId session.sessionCode) s
      (.downloadAll :: ls))
    (hdelivers : (system d upper).Guarded (Delivers item.sessionId item.itemId) s
      (.downloadAll :: ls))
    (hrun : (system d upper).run s (.downloadAll :: ls) = some t)
    (htimers : t.timers = []) (hlinks : t.links = []) (hservings : t.servings = []) :
    ∃ f ∈ t.saved, f.link = ⟨session.sessionCode, item⟩ ∧ f.response.body = data ∧
      f.response.filename = item.originalName := by
  have hinv : Inv d (fun _ => False) s := inv_of_run hs hopened (fun l _ => leaves_none l) hpre
  obtain ⟨hinv', hway⟩ := onItsWay_of_run hinv hsession hitem hstores hshares hdelivers hrun
  obtain ⟨f, hf, hlink, hbody⟩ := hway.saved htimers hlinks hservings
  refine ⟨f, hf, hlink, hbody, ?_⟩
  rw [(hinv'.saved f hf).filename, hlink]

end Lost

namespace Sample

open SessionService.Sample (create upload)

/-- A file of two bytes is shared, and its code typed. -/
def shows (burnAfterDownload : Bool) : List Step :=
  [.other (.session (create burnAfterDownload)), .other (.session (upload [1, 2])),
    .input "1000-1000".toList, .answerLookup 0 2, .arrive 0]

theorem runs_shows : (run (shows false)).isSome = true := by decide +kernel

def shown : State := (run (shows false)).get runs_shows

theorem isSome_session : shown.currentSession.isSome = true := by decide +kernel

def session : Api.SessionDetailResponse := shown.currentSession.get isSome_session

theorem hasItem : 0 < session.items.length := by decide +kernel

def item : Api.TransferItemResponse := session.items.get ⟨0, hasItem⟩

def saves : List Step := [.downloadAll, .fire 0, .findItem 0 3, .serveItem 0 true]

theorem runs_saves : ((system .default .ofAscii).run shown saves).isSome = true := by
  decide +kernel

end Sample

theorem downloadAll_loses_nothing_sample :
    ∃ f ∈ (((system .default .ofAscii).run Sample.shown Sample.saves).get Sample.runs_saves).saved,
      f.response.body = [1, 2] ∧ f.response.filename = Sample.item.originalName := by
  have hstores : Stores Sample.item.sessionId Sample.item.itemId [1, 2]
      Sample.shown.sessions.world := by decide +kernel
  obtain ⟨f, hf, -, hbody, hname⟩ :=
    downloadAll_loses_nothing Sample.reachable_start (.inl rfl)
      (Option.some_get Sample.runs_shows).symm (Option.some_get Sample.isSome_session).symm
      (List.get_mem _ _) hstores (by decide +kernel) (by decide +kernel)
      (Option.some_get Sample.runs_saves).symm (List.length_eq_zero_iff.mp (by decide +kernel))
      (List.length_eq_zero_iff.mp (by decide +kernel))
      (List.length_eq_zero_iff.mp (by decide +kernel))
  exact ⟨f, hf, hbody, hname⟩

/-! ## The end of it -/

section Burned

variable {d : Deployment} {upper : UpperCase} {s t : State} {sessionId : Uuid}

/-- The session has expired, or is not there any more. -/
structure Gone (sessionId : Uuid) (s : SessionService.State) : Prop where
  issued : sessionId ∈ s.uuids
  expired : ∀ m ∈ s.world.db.sessions.rows, m.id = sessionId → m.status = .expired

theorem Gone.kept {P : Call → Prop} {s s' : SessionService.State} (h : Gone sessionId s)
    (hmoves : Moves d P s s') : Gone sessionId s' where
  issued := hmoves.issued h.issued
  expired r hr hid := by
    refine hmoves.expired hr (hid ▸ h.issued) fun m hm hmid => ?_
    exact h.expired m hm (hmid.trans hid)

/-- Nothing of the session has been looked up or saved since. -/
structure Spent (sessionId : Uuid) (old s : State) : Prop where
  servings : ∀ v ∈ s.servings, v.link.item.sessionId = sessionId → v ∈ old.servings
  saved : ∀ f ∈ s.saved, f.link.item.sessionId = sessionId →
    f ∈ old.saved ∨ ∃ v ∈ old.servings, v.link = f.link

/-- Nothing is looked up of a session that is gone. -/
theorem Spent.step {quiet : Uuid → Prop} {l : Step} {old : State} (h : Spent sessionId old s)
    (hinv : Inv d quiet s) (hgone : Gone sessionId s.sessions) (htakes : Takes d upper s l t) :
    Spent sessionId old t := by
  constructor
  · intro v hv hsid
    rcases htakes.servings hv with hv | ⟨hlink, now, w, hreply⟩
    · exact h.servings v hv hsid
    · obtain ⟨m, hm, -, hitem, hid, hown⟩ := findItem_ok hreply
      have hcard := (hinv.links _ hlink).2.sessionId v.item hitem hid
      exact absurd (hgone.expired m hm.mem (hown.symm.trans (hcard.trans hsid))) hm.status
  · intro f hf hsid
    rcases htakes.saved hf with hf | ⟨v, hv, hlink, -⟩
    · exact h.saved f hf hsid
    · rw [← hlink] at hsid
      exact .inr ⟨v, h.servings v hv hsid, hlink⟩

end Burned

namespace Sample

/-- Two links of a burn-after-download session, one of them answered. -/
def served : List Step :=
  shows true ++ [.downloadAll, .fire 0, .follow 0, .findItem 0 3, .serveItem 0 true]

/-- The session is burned before the other link is looked up. -/
def burned : List Step := [.burn 0 fun _ => false, .findItem 0 4]

end Sample

end ReceivePage

end Browser

end Jumbox
