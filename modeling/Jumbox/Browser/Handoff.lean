import Jumbox.Browser.Begun
import Jumbox.Browser.DownloadAll
import Jumbox.Browser.Undisturbed

/-!
# From one page to the other

An upload page and a receive page on one server. Both take their steps in any order, with
others in between, and for each of them the other is one of the others: the receiver sends
no chunks, so it cannot disturb an upload, and whatever it saves of a file that the sender
has begun is the file.
-/

namespace Jumbox

namespace Browser

namespace Handoff

open Traffic (Moves)
open UploadPage (begun RowOf Owned OnDisk)

/-- Both pages; they share the sessions. -/
structure State where
  sender : UploadPage.State
  receiver : ReceivePage.State

/-- What others do is among the steps of the one and of the other. -/
inductive Step where
  | sender (l : UploadPage.Step)
  | receiver (l : ReceivePage.Step)

section Steps

variable (page : UploadPage) (upper : UpperCase)

def step (s : State) : Step → Option State
  | .sender l =>
      match page.step s.sender l with
      | none => none
      | some sender => some ⟨sender, { s.receiver with sessions := sender.sessions }⟩
  | .receiver l =>
      match ReceivePage.step page.server.deployment upper s.receiver l with
      | none => none
      | some receiver => some ⟨{ s.sender with sessions := receiver.sessions }, receiver⟩

def system : System State Step := ⟨step page upper⟩

/-- Nobody else sends chunks for the files of the upload page. -/
def Considerate : Step → Prop
  | .sender l => page.Considerate l
  | .receiver (.other e) => page.Considerate (.other e)
  | .receiver _ => True

end Steps

/-! ## Both pages -/

section Runs

variable {page : UploadPage} {upper : UpperCase} {s t : State} {files : List SelectedFile}

/-- What is about to be sent of the files is theirs, and under their checksums. -/
def Looked (page : UploadPage) (files : List SelectedFile) (servings : List ReceivePage.Serving) :
    Prop :=
  ∀ v ∈ servings, ∀ i file, files[i]? = some file → v.link.item.itemId = page.itemId i →
    RowOf page i file v.item ∧
      ∀ p, v.item.storagePath = some p → v.item.checksumSha256 = some (hexdigest file.content)

/-- What has been saved of the files is the files. -/
def Exact (page : UploadPage) (files : List SelectedFile) (saved : List ReceivePage.SavedFile) :
    Prop :=
  ∀ f ∈ saved, ∀ i file, files[i]? = some file → f.link.item.itemId = page.itemId i →
    f.response.filename = file.name ∧ f.response.body = file.content ∧
      f.response.header "X-Checksum-SHA256" = some (hexdigest file.content)

/-- Each page is right about what it has, and so are the server and the receiver about the
sender's files. -/
structure Inv (page : UploadPage) (s : State) : Prop where
  shared : s.receiver.sessions = s.sender.sessions
  sender : UploadPage.Inv page s.sender
  receiver : ReceivePage.Inv page.server.deployment (fun _ => False) s.receiver
  owned : Owned page (begun s.sender) s.sender.sessions
  disk : OnDisk page (begun s.sender) s.sender.sessions.world.files
  looked : Looked page (begun s.sender) s.receiver.servings
  saved : Exact page (begun s.sender) s.receiver.saved

/-- What sends no chunks for the files leaves both pages right. -/
theorem Inv.moved (h : Inv page s) {sessions : SessionService.State}
    (hmoves : Moves page.server.deployment (fun call => ∀ i, page.Avoids i call) s.sender.sessions
      sessions) : Inv page ⟨{ s.sender with sessions }, { s.receiver with sessions }⟩ where
  shared := rfl
  sender := h.sender.moved hmoves fun i _ havoids => havoids i
  receiver := by
    rw [← h.shared] at hmoves
    exact h.receiver.kept hmoves fun _ _ => id
  owned := h.owned.kept hmoves
  disk := h.disk.kept h.owned hmoves fun i _ havoids => havoids i
  looked := h.looked
  saved := h.saved

theorem Inv.exchange (h : Inv page s) {x : Exchange} {sender : UploadPage.State}
    (hstep : page.stepExchange s.sender x = some sender) :
    Inv page ⟨sender, { s.receiver with sessions := sender.sessions }⟩ := by
  have hmoves := h.sender.moves hstep
  have howned := h.owned.kept hmoves
  have hdisk := h.disk.exchange h.sender h.owned hstep
  -- nothing is known by an identifier that had not been drawn
  have hunknown : ∀ {i file id}, (begun sender)[i]? = some file →
      id ∈ s.receiver.sessions.uuids → id = page.itemId i → (begun s.sender)[i]? = some file := by
    intro i file id hfile hissued hid
    rcases UploadPage.begins_of_step h.sender h.owned hstep hfile with hold | hbegins
    · exact hold
    · rw [hid, h.shared] at hissued
      exact absurd hissued hbegins.fresh
  have hsender := h.sender.step (l := .exchange x) trivial hstep
  refine ⟨rfl, hsender, ?_, ⟨?_, ?_⟩, ?_, ?_, ?_⟩
  · rw [← h.shared] at hmoves
    exact h.receiver.kept hmoves fun _ _ => id
  · intro i file hfile
    rcases UploadPage.begins_of_step h.sender h.owned hstep hfile with hold | hbegins
    · exact howned.issued i file hold
    · obtain ⟨row, hrow, hrowOf⟩ := hbegins.row
      exact hrowOf.id ▸ hsender.server.sessions.issued.items row hrow
  · intro i file hfile row hrow hid
    rcases UploadPage.begins_of_step h.sender h.owned hstep hfile with hold | hbegins
    · exact howned.rows i file hold row hrow hid
    · obtain ⟨new, hnew, hrowOf⟩ := hbegins.row
      rw [Table.eq_of_mem hrow hnew (hid.trans hrowOf.id.symm)]
      exact hrowOf
  · intro i file row hfile hrow g hg
    rcases UploadPage.begins_of_step h.sender h.owned hstep hfile with hold | hbegins
    · exact hdisk i file row hold hrow g hg
    · -- no file has been written under a new identifier
      have hnone := h.sender.server.fresh row (hrow.id ▸ hbegins.fresh)
      rw [hbegins.files, hnone] at hg
      cases hg
  · intro v hv i file hfile hid
    exact h.looked v hv i file (hunknown hfile (h.receiver.servings v hv).issued hid) hid
  · intro f hf i file hfile hid
    exact h.saved f hf i file (hunknown hfile (h.receiver.saved f hf).issued hid) hid

theorem Inv.sender_step (h : Inv page s) {l : UploadPage.Step} {sender : UploadPage.State}
    (hconsiderate : page.Considerate l) (hstep : page.step s.sender l = some sender) :
    Inv page ⟨sender, { s.receiver with sessions := sender.sessions }⟩ := by
  cases l with
  | exchange x => exact h.exchange hstep
  | select files =>
      rw [page.step_select hstep]
      have hsame : { s.receiver with sessions := s.sender.sessions } = s.receiver := by
        rw [← h.shared]
      rw [hsame]
      exact ⟨h.shared, ⟨h.sender.server, h.sender.sound⟩, h.receiver, h.owned, h.disk, h.looked,
        h.saved⟩
  | other e =>
      obtain ⟨sessions, hsessions, rfl⟩ := page.step_other hstep
      exact h.moved (Traffic.step_moves h.sender.server hsessions hconsiderate)

/-- The receiver sends no chunks. -/
theorem moves_of_considerate {s t : ReceivePage.State} {l : ReceivePage.Step}
    (hs : Traffic.Inv page.server.deployment s.sessions)
    (hconsiderate : Considerate page (.receiver l))
    (htakes : ReceivePage.Takes page.server.deployment upper s l t) :
    Moves page.server.deployment (fun call => ∀ i, page.Avoids i call) s.sessions t.sessions := by
  refine htakes.moves hs (fun call hcall i c hc => absurd hc (hcall c)) ?_
  rintro e rfl
  exact hconsiderate

theorem Inv.receiver_step (h : Inv page s) {l : ReceivePage.Step} {receiver : ReceivePage.State}
    (hconsiderate : Considerate page (.receiver l))
    (htakes : ReceivePage.Takes page.server.deployment upper s.receiver l receiver) :
    Inv page ⟨{ s.sender with sessions := receiver.sessions }, receiver⟩ := by
  have hmoves := moves_of_considerate h.receiver.server hconsiderate htakes
  rw [h.shared] at hmoves
  have hmoved := h.moved hmoves
  refine ⟨rfl, hmoved.sender, h.receiver.step (ReceivePage.leaves_none l) htakes, hmoved.owned,
    hmoved.disk, ?_, ?_⟩
  · intro v hv i file hfile hid
    rcases htakes.servings hv with hold | ⟨-, now, w, hreply⟩
    · exact h.looked v hold i file hfile hid
    · obtain ⟨m, hm, -, hrow, hvid, hsid⟩ := ReceivePage.findItem_ok hreply
      have hconsistent := h.receiver.server.sessions.consistent
      have hrowOf := h.owned.rows i file hfile v.item (h.shared ▸ hrow) (hvid.trans hid)
      refine ⟨hrowOf, fun p hp => ?_⟩
      obtain ⟨f, hf, hsha, -⟩ := hconsistent.intact v.item hrow m hm.mem hsid.symm p hp
      rw [hconsistent.paths v.item hrow p hp, h.shared] at hf
      rw [hsha, h.disk i file v.item hfile hrowOf f hf]
  · intro f hf i file hfile hid
    rcases htakes.saved hf with hold | ⟨v, hv, hlink, hserve⟩
    · exact h.saved f hold i file hfile hid
    · rw [← hlink] at hid
      obtain ⟨hrowOf, hchecksum⟩ := h.looked v hv i file hfile hid
      obtain ⟨g, hg, hresponse⟩ := ReceivePage.serveItem_ok hserve
      obtain ⟨p, hp, hfound⟩ := Option.bind_eq_some_iff.mp hg
      rw [(h.receiver.servings v hv).path p hp, h.shared] at hfound
      have hdata := h.disk i file v.item hfile hrowOf g hfound
      rw [hresponse, hchecksum p hp]
      refine ⟨hrowOf.originalName, hdata, ?_⟩
      exact (SessionService.headers_of_checksum (hexdigest_ne_nil _) rfl).2

theorem Inv.step {l : Step} (h : Inv page s) (hconsiderate : Considerate page l)
    (hstep : (system page upper).step s l = some t) : Inv page t := by
  change Handoff.step page upper s l = some t at hstep
  unfold Handoff.step at hstep
  cases l with
  | sender l =>
      dsimp only at hstep
      split at hstep
      · cases hstep
      · rename_i hsender
        cases hstep
        exact h.sender_step hconsiderate hsender
  | receiver l =>
      dsimp only at hstep
      split at hstep
      · cases hstep
      · rename_i hreceiver
        cases hstep
        exact h.receiver_step hconsiderate (ReceivePage.takes_of_step hreceiver)

theorem inv_of_opened {sessions : SessionService.State}
    (hs : Traffic.Inv page.server.deployment sessions)
    {receiver : ReceivePage.State} (hopened : ReceivePage.Opened sessions receiver) :
    Inv page ⟨page.start sessions, receiver⟩ := by
  have hsound : UploadPage.Sound page (page.start sessions) := ⟨rfl, rfl⟩
  have hreceiver : receiver.sessions = sessions ∧ receiver.servings = [] ∧ receiver.saved = [] := by
    rcases hopened with rfl | ⟨sessionCode, rfl⟩
    · exact ⟨rfl, rfl, rfl⟩
    · exact ⟨rfl, rfl, rfl⟩
  have hnone : ∀ (i : ℕ) file, (begun (page.start sessions))[i]? ≠ some file := nofun
  exact ⟨hreceiver.1, ⟨hs, hsound⟩, ReceivePage.inv_of_opened hs hopened,
    ⟨fun i file h => absurd h (hnone i file), fun i file h => absurd h (hnone i file)⟩,
    fun i file _ h => absurd h (hnone i file), fun _ _ i file h => absurd h (hnone i file),
    fun _ _ i file h => absurd h (hnone i file)⟩

/-- With no other selection the sender goes through the files it was submitted with. -/
theorem steady_of_run {sessions : SessionService.State} {receiver : ReceivePage.State}
    {ls : List Step} (hls : ∀ files, .sender (.select files) ∉ ls)
    (hrun : (system page upper).run ⟨page.start sessions, receiver⟩ ls = some t) :
    UploadPage.Steady page t.sender := by
  have hstart : UploadPage.Steady page (page.start sessions) := ⟨rfl, rfl⟩
  refine System.holds_of_run (P := fun s => UploadPage.Steady page s.sender)
    (K := fun l => ∀ files, l ≠ .sender (.select files)) ?_ hstart ?_ hrun
  · intro s l t h hl hstep
    change Handoff.step page upper s l = some t at hstep
    unfold Handoff.step at hstep
    cases l with
    | sender l =>
        dsimp only at hstep
        split at hstep
        · cases hstep
        · rename_i hsender
          cases hstep
          exact h.step (fun files heq => hl files (congrArg Step.sender heq)) hsender
    | receiver l =>
        dsimp only at hstep
        split at hstep
        · cases hstep
        · cases hstep
          exact h
  · rintro l hl files rfl
    exact hls files hl

end Runs

namespace Sample

abbrev page : UploadPage := UploadPage.Sample.sender

def delivered : UploadPage.Step := .exchange ⟨.delivered, 2⟩

def opened : State :=
  ⟨page.start ⟨World.initial .sqlite, []⟩,
    ReceivePage.openedAt ⟨World.initial .sqlite, []⟩ "1000-1000".toList⟩

end Sample

open ReceivePage (Has lookUp Shares Delivers)

section Arrives

variable {page : UploadPage} {upper : UpperCase} {session : Api.SessionDetailResponse}
  {files : List SelectedFile} {code : Option Str}

/-- The session has a card for each of the files. -/
def Lists (page : UploadPage) (files : List SelectedFile) (session : Api.SessionDetailResponse) :
    Prop :=
  ∀ i file, files[i]? = some file → ∃ item ∈ session.items,
    item.itemId = page.itemId i ∧ item.sessionId = page.sessionId ∧ item.originalName = file.name

/-- A look-up that finds the code of the sender finds its session, with all the files. -/
theorem lists_of_lookUp {s : SessionService.State} (hs : Traffic.Inv page.server.deployment s)
    (hdelivered : UploadPage.Delivered page files code s.world) {now : ℤ} {typed : Str}
    (h : (lookUp s.world now typed).1 = .ok session) (hcode : code = some session.sessionCode) :
    Lists page files session := by
  unfold ReceivePage.lookUp at h
  split at h
  · obtain ⟨m, hm, -, hdetails⟩ := Api.getSession_ok h
    obtain ⟨r, hr, hrid, hshown⟩ := hdelivered.shows
    have hsame : r.sessionCode = m.sessionCode :=
      (Option.some.inj (hshown.symm.trans hcode)).trans hdetails.sessionCode
    obtain rfl : r = m := hs.codes.unique r hr m hm hsame
    intro i file hfile
    obtain ⟨row, hrow, hid, hsid, hname, -⟩ := hdelivered.uploaded i file hfile
    refine ⟨Api.toItemResponse row, ?_, hid, hsid, hname⟩
    rw [hdetails.items]
    exact List.mem_map_of_mem (Db.mem_itemsOf.mpr ⟨hrow, hsid.trans hrid.symm⟩)
  · cases h

/-- The files are there, and whatever the page has found under their code lists them, as
long as their session is there. -/
structure Ready (page : UploadPage) (files : List SelectedFile) (code : Option Str)
    (s : ReceivePage.State) : Prop where
  receiver : ReceivePage.Inv page.server.deployment (fun _ => False) s
  issued : page.sessionId ∈ s.sessions.uuids
  delivered : UploadPage.Alive page s.sessions.world →
    UploadPage.Delivered page files code s.sessions.world
  lists : UploadPage.Alive page s.sessions.world → ∀ session, Has s session →
    code = some session.sessionCode → Lists page files session

theorem ready_of_opened {sessions : SessionService.State} {s : ReceivePage.State}
    (hs : Traffic.Inv page.server.deployment sessions) (hissued : page.sessionId ∈ sessions.uuids)
    (hdelivered : UploadPage.Alive page sessions.world →
      UploadPage.Delivered page files code sessions.world)
    (hopened : ReceivePage.Opened sessions s) : Ready page files code s := by
  have hinv : ReceivePage.Inv page.server.deployment (fun _ => False) s :=
    ReceivePage.inv_of_opened hs hopened
  rcases hopened with rfl | ⟨sessionCode, rfl⟩
  · refine ⟨hinv, hissued, hdelivered, ?_⟩
    rintro - session (hcurrent | ⟨l, hl, -⟩)
    · cases hcurrent
    · cases hl
  · refine ⟨hinv, hissued, hdelivered, ?_⟩
    rintro - session (hcurrent | ⟨l, hl, hanswer⟩)
    · cases hcurrent
    · obtain rfl := List.mem_singleton.mp hl
      cases hanswer

theorem Ready.step {s t : ReceivePage.State} {l : ReceivePage.Step} (h : Ready page files code s)
    (hconsiderate : Considerate page (.receiver l))
    (htakes : ReceivePage.Takes page.server.deployment upper s l t) : Ready page files code t := by
  have hmoves := moves_of_considerate h.receiver.server hconsiderate htakes
  have hbefore : UploadPage.Alive page t.sessions.world → UploadPage.Alive page s.sessions.world :=
    UploadPage.Moves.alive_before hmoves h.issued
  refine ⟨h.receiver.step (ReceivePage.leaves_none l) htakes, hmoves.issued h.issued, ?_, ?_⟩
  · intro halive
    exact (h.delivered (hbefore halive)).kept hmoves h.receiver.server h.issued halive
      fun i _ call hP => hP i
  · intro halive session hhas hcode
    rcases htakes.has hhas with hold | ⟨now, typed, hanswer⟩
    · exact h.lists (hbefore halive) session hold hcode
    · exact lists_of_lookUp h.receiver.server (h.delivered (hbefore halive)) hanswer hcode

/-- Once the sender says that all files are transferred, whoever finds its code and presses
"Download all" gets all that have been sent and have any bytes, exactly as they are: under
the conditions on which the button loses nothing. Those are all the files the sender was
submitted with, if no others have been selected since. -/
theorem all_files_arrive {sessions : SessionService.State}
    (hs : Traffic.Reachable page.server.deployment sessions) {ls : List UploadPage.Step}
    (hconsiderate : ∀ l ∈ ls, page.Considerate l) {sender : UploadPage.State}
    (hsender : page.system.run (page.start sessions) ls = some sender)
    (hcomplete : sender.stage = .complete) {receiver s t : ReceivePage.State}
    (hopened : ReceivePage.Opened sender.sessions receiver) {pre : List ReceivePage.Step}
    (hpre : ∀ l ∈ pre, Considerate page (.receiver l))
    (hreceiver : (ReceivePage.system page.server.deployment upper).run receiver pre = some s)
    (hsession : s.currentSession = some session)
    (hcode : sender.sessionCode = some session.sessionCode) {post : List ReceivePage.Step}
    (hshares : (ReceivePage.system page.server.deployment upper).Always
      (Shares page.sessionId session.sessionCode) s (.downloadAll :: post))
    (hdelivers : ∀ i < sender.sent.length,
      (ReceivePage.system page.server.deployment upper).Guarded
        (Delivers page.sessionId (page.itemId i)) s (.downloadAll :: post))
    (hrun : (ReceivePage.system page.server.deployment upper).run s (.downloadAll :: post) =
      some t) (htimers : t.timers = []) (hlinks : t.links = []) (hservings : t.servings = []) :
    (∀ (i : ℕ) (file : SelectedFile), sender.sent[i]? = some file → file.content ≠ [] →
      ∃ f ∈ t.saved, f.link.code = session.sessionCode ∧ f.response.filename = file.name ∧
        f.response.body = file.content) ∧
      ((∀ files, .select files ∉ ls) → sender.sent = page.selectedFiles) := by
  obtain ⟨hserver, hsound⟩ := UploadPage.inv_of_run hs hconsiderate hsender
  unfold UploadPage.Sound at hsound
  rw [hcomplete] at hsound
  have hinit : Ready page sender.sent sender.sessionCode receiver :=
    ready_of_opened hserver hsound.1 (fun halive => (hsound.2 halive).1) hopened
  have hready : Ready page sender.sent sender.sessionCode s :=
    System.holds_of_run (P := Ready page sender.sent sender.sessionCode)
      (K := fun l => Considerate page (.receiver l))
      (fun _ _ _ h hl hstep => h.step hl (ReceivePage.takes_of_step hstep)) hinit hpre hreceiver
  constructor
  · intro i file hfile hcontent
    have hlt := (List.getElem?_eq_some_iff.mp hfile).1
    obtain ⟨m, hm, hid, -⟩ := hshares.head.shared
    have halive : UploadPage.Alive page s.sessions.world := ⟨m, hm, hid⟩
    obtain ⟨item, hitem, hiid, hsid, hname⟩ :=
      hready.lists halive session (.inl hsession) hcode i file hfile
    obtain ⟨row, hrow, hrid, hrsid, -, hdata⟩ := (hready.delivered halive).uploaded i file hfile
    rw [if_neg hcontent] at hdata
    obtain ⟨p, g, hp, hg, hbytes⟩ := hdata
    have hstores : ReceivePage.Stores item.sessionId item.itemId file.content s.sessions.world :=
      ReceivePage.stores_iff.mpr ⟨row, hrow, hrid.trans hiid.symm, hrsid.trans hsid.symm, p, g, hp,
        hg, hbytes⟩
    have hguarded := hdelivers i hlt
    rw [← hsid] at hshares
    rw [← hsid, ← hiid] at hguarded
    obtain ⟨hinv, hway⟩ := ReceivePage.onItsWay_of_run hready.receiver hsession hitem hstores
      hshares hguarded hrun
    obtain ⟨f, hf, hlink, hbody⟩ := hway.saved htimers hlinks hservings
    refine ⟨f, hf, by rw [hlink], ?_, hbody⟩
    rw [(hinv.saved f hf).filename, hlink]
    exact hname
  · intro hls
    obtain ⟨-, hsteady⟩ := UploadPage.steady_of_run hls hsender
    rw [hcomplete] at hsteady
    exact hsteady.1

end Arrives

namespace Sample

open UploadPage.Sample (exchanges complete)

/-- The code is typed, and looked up. -/
def finds : List ReceivePage.Step := [.input "10001000".toList, .answerLookup 0 2, .arrive 0]

def fetches : List ReceivePage.Step :=
  [.fire 1, .fire 0, .findItem 0 3, .findItem 0 3, .serveItem 0 true, .serveItem 0 true]

/-- What the button needs, and that all its files have been fetched in the end. The second
file has no bytes, and is answered with 404. -/
def Fetches (session : Api.SessionDetailResponse) (s t : ReceivePage.State) : Prop :=
  (ReceivePage.system .default .ofAscii).Always (Shares page.sessionId session.sessionCode) s
      (.downloadAll :: fetches) ∧
    (∀ i < 2, (ReceivePage.system .default .ofAscii).Guarded
      (Delivers page.sessionId (page.itemId i)) s (.downloadAll :: fetches)) ∧
    t.timers.length = 0 ∧ t.links.length = 0 ∧ t.servings.length = 0

instance (session : Api.SessionDetailResponse) (s t : ReceivePage.State) :
    Decidable (Fetches session s t) := inferInstanceAs (Decidable (_ ∧ _))

theorem runs_fetches :
    (page.system.run (page.start ⟨World.initial .sqlite, []⟩) exchanges).any (fun sender =>
      complete sender.stage &&
      ((ReceivePage.system .default .ofAscii).run (ReceivePage.opened sender.sessions) finds).any
        fun s => s.currentSession.any fun session =>
          decide (sender.sessionCode = some session.sessionCode) &&
          ((ReceivePage.system .default .ofAscii).run s (.downloadAll :: fetches)).any fun t =>
            decide (Fetches session s t)) = true := by
  decide +kernel

end Sample

theorem all_files_arrive_fetched :
    ∃ sender s t,
      Sample.page.system.run (Sample.page.start ⟨World.initial .sqlite, []⟩)
        UploadPage.Sample.exchanges = some sender ∧
      (ReceivePage.system .default .ofAscii).run (ReceivePage.opened sender.sessions)
        Sample.finds = some s ∧
      (ReceivePage.system .default .ofAscii).run s (.downloadAll :: Sample.fetches) = some t ∧
      ∃ f ∈ t.saved, f.response.filename = "notes.txt".toList ∧ f.response.body = [1, 2] := by
  obtain ⟨sender, hsender, h⟩ := (Option.any_eq_true _ _).mp Sample.runs_fetches
  obtain ⟨hcomplete, h⟩ := (Bool.and_eq_true _ _).mp h
  obtain ⟨s, hreceiver, h⟩ := (Option.any_eq_true _ _).mp h
  obtain ⟨session, hsession, h⟩ := (Option.any_eq_true _ _).mp h
  obtain ⟨hcode, h⟩ := (Bool.and_eq_true _ _).mp h
  obtain ⟨t, hrun, h⟩ := (Option.any_eq_true _ _).mp h
  obtain ⟨hshares, hdelivers, htimers, hlinks, hservings⟩ := of_decide_eq_true h
  have hstage : sender.stage = .complete := UploadPage.Sample.eq_of_complete hcomplete
  have hnoSelect : ∀ files, .select files ∉ UploadPage.Sample.exchanges := by
    simp [UploadPage.Sample.exchanges]
  obtain ⟨-, hsteady⟩ := UploadPage.steady_of_run hnoSelect hsender
  rw [hstage] at hsteady
  have hsent : sender.sent = Sample.page.selectedFiles := hsteady.1
  have hpre : ∀ l ∈ Sample.finds, Considerate Sample.page (.receiver l) := by
    simp [Sample.finds, Considerate]
  have hfile : sender.sent[0]? = some ⟨"notes.txt".toList, [1, 2]⟩ := by
    rw [hsent]
    rfl
  have hlength : sender.sent.length = 2 := by
    rw [hsent]
    rfl
  obtain ⟨f, hf, -, hname, hbody⟩ :=
    (@all_files_arrive Sample.page .ofAscii _ _ ReceivePage.Sample.reachable_start _
      UploadPage.Sample.considerate_exchanges sender hsender hstage _ s t (.inl rfl) _ hpre
      hreceiver hsession (of_decide_eq_true hcode) _ hshares
      (fun i hi => hdelivers i (hlength ▸ hi)) hrun (List.length_eq_zero_iff.mp htimers)
      (List.length_eq_zero_iff.mp hlinks) (List.length_eq_zero_iff.mp hservings)).1 0 _ hfile
      (List.cons_ne_nil _ _)
  exact ⟨sender, s, t, hsender, hreceiver, hrun, f, hf, hname, hbody⟩

end Handoff

end Browser

end Jumbox
