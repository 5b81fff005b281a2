import Jumbox.Uploads.Sweeping

/-!
# How long an upload session lives

A record is saved for the seconds that are left until its expiry, but for one
second at least, and every chunk that leaves more to come saves it again. The
service never compares the clock with the expiry. A save before the expiry ends
in time; a save after it buys another second, in which the next chunk can buy one
more.
-/

namespace Jumbox

namespace Lifetime

open ChunkedUploadService
open Sweeping (Finishes)
open UploadSessionCache (ttlSeconds live)

/-- A call of `append_chunk` for the session. -/
structure Call where
  now : ℤ
  caller : AuthenticatedUser
  chunk : UploadStream
  draws : Draws

/-- The uploads of one session, with the time its record was saved last and the
times of the chunks accepted so far, the newest first. -/
structure State where
  world : World
  saved : ℤ
  acceptedAt : List ℤ

section System

variable (d : Deployment) (sid : Uuid)

def exec (s : State) (c : Call) : Outcome ChunkUploadResult :=
  appendChunk d s.world c.now c.caller sid c.chunk c.draws

/-- A chunk is accepted when its call returns; the record is saved unless that
completes the upload. -/
def next (s : State) (c : Call) : State :=
  match exec d sid s c with
  | (.error _, w) => ⟨w, s.saved, s.acceptedAt⟩
  | (.ok r, w) => ⟨w, if r.completed then s.saved else c.now, c.now :: s.acceptedAt⟩

def system : System State Call where
  step s c := some (next d sid s c)

/-- A session that has just been created. -/
def start (w : World) (now : ℤ) (owner : AuthenticatedUser) (originalName : Str)
    (totalSizeBytes expiresInSeconds : ℤ) (folderId : Option Uuid) : State :=
  ⟨(createSession d w now owner originalName totalSizeBytes (some expiresInSeconds) folderId sid).2,
    now, []⟩

/-- What the call would need but for the time: the session is there and active, it
is the caller's, the stream does not break, and where the chunk is the last one
the file can be published. -/
def Acceptable (s : State) (c : Call) : Prop :=
  ∃ entry ∈ s.world.cache sid, entry.session.ownerId = c.caller.userId ∧
    entry.session.status = .active ∧ c.chunk.failure = none ∧
      ((counted entry.session c.chunk).totalSizeBytes ≤
          (counted entry.session c.chunk).receivedBytes →
        Finishes d s.world c.now c.caller (counted entry.session c.chunk) c.draws)

instance (s : State) (c : Call) : Decidable (Acceptable d sid s c) :=
  inferInstanceAs (Decidable (∃ entry ∈ s.world.cache sid, _))

/-- Past the expiry and its second, an acceptable chunk comes a second or more after
the last save. -/
def Prompt (expiresAt : ℤ) (s : State) (c : Call) : Prop :=
  expiresAt + 1000000 ≤ c.now → Acceptable d sid s c → s.saved + 1000000 ≤ c.now

instance (expiresAt : ℤ) (s : State) (c : Call) : Decidable (Prompt d sid expiresAt s c) :=
  inferInstanceAs (Decidable (_ → _ → _))

end System

/-- No chunk was accepted a second or more after the expiry. -/
def Timely (expiresAt : ℤ) (s : State) : Prop := ∀ t ∈ s.acceptedAt, t < expiresAt + 1000000

instance (expiresAt : ℤ) (s : State) : Decidable (Timely expiresAt s) :=
  inferInstanceAs (Decidable (∀ t ∈ s.acceptedAt, _))

/-! ## The time to live -/

theorem ttlSeconds_of_past {saved expiresAt : ℤ} (h : expiresAt ≤ saved) :
    ttlSeconds saved expiresAt = 1 := by
  -- `int` rounds towards zero, and the clamp does the rest
  have hnonneg : 0 ≤ (saved - expiresAt).tdiv 1000000 := Int.tdiv_nonneg (by omega) (by decide)
  have hsign : (expiresAt - saved).tdiv 1000000 = -(saved - expiresAt).tdiv 1000000 := by
    rw [← Int.neg_tdiv, neg_sub]
  exact max_eq_left (by omega)

/-- A save before the expiry ends before the expiry's second is over. -/
theorem ttlSeconds_of_future {saved expiresAt : ℤ} (h : saved < expiresAt) :
    saved + ttlSeconds saved expiresAt * 1000000 < expiresAt + 1000000 := by
  unfold ttlSeconds
  rw [Int.tdiv_eq_ediv_of_nonneg (by omega)]
  rcases max_cases 1 ((expiresAt - saved) / 1000000) with ⟨hmax, -⟩ | ⟨hmax, -⟩
  · rw [hmax]
    omega
  · rw [hmax]
    omega

/-- Past the expiry and its second, a record is still there exactly within a second
of its last save. -/
theorem live_iff {saved expiresAt now : ℤ} (h : expiresAt + 1000000 ≤ now) :
    now < saved + ttlSeconds saved expiresAt * 1000000 ↔ now < saved + 1000000 := by
  rcases lt_or_ge saved expiresAt with hfuture | hpast
  · have hdrop := ttlSeconds_of_future hfuture
    constructor <;> intro hnow <;> omega
  · rw [ttlSeconds_of_past hpast, one_mul]

/-! ## One call -/

/-- The record of the session, as it was saved last. -/
structure Saved (sid : Uuid) (expiresAt : ℤ) (s : State) (entry : CacheEntry) : Prop where
  id : entry.session.id = sid
  expires : entry.session.expiresAt = some expiresAt
  dropAt : entry.dropAt = some (s.saved + ttlSeconds s.saved expiresAt * 1000000)

/-- Whatever record there is of the session was saved with its expiry. -/
def Recorded (sid : Uuid) (expiresAt : ℤ) (s : State) : Prop :=
  ∀ entry ∈ s.world.cache sid, Saved sid expiresAt s entry

section Step

variable {d : Deployment} {sid : Uuid} {s : State} {c : Call} {expiresAt : ℤ}

theorem openSession_iff {w : World} {now : ℤ} {caller : AuthenticatedUser}
    {session : UploadSession} :
    openSession w now caller sid = .ok session ↔
      ∃ entry ∈ w.cache sid, live now entry = true ∧ entry.session = session ∧
        session.ownerId = caller.userId ∧ session.status = .active := by
  constructor
  · intro h
    obtain ⟨hget, howner, hactive⟩ := get_of_openSession h
    obtain ⟨entry, hentry, hsession⟩ := Option.map_eq_some_iff.mp hget
    obtain ⟨hcached, hlive⟩ := Option.filter_eq_some_iff.mp hentry
    exact ⟨entry, hcached, hlive, hsession, howner, hactive⟩
  · rintro ⟨entry, hcached, hlive, rfl, howner, hactive⟩
    have hget : w.cache.get now sid = some entry.session := by
      rw [UploadSessionCache.get, Option.mem_def.mp hcached, Option.filter_some, if_pos hlive]
      rfl
    simp only [openSession, hget, howner, hactive, ne_eq, not_true_eq_false, if_false]

/-- How a call ends: it is accepted and completes the upload, or saves the record
again, or it is not accepted and leaves the record alone. -/
theorem next_cases (d : Deployment) (sid : Uuid) (s : State) (c : Call) :
    (∃ session, openSession s.world c.now c.caller sid = .ok session ∧ c.chunk.failure = none ∧
      ((counted session c.chunk).totalSizeBytes ≤ (counted session c.chunk).receivedBytes →
        Finishes d s.world c.now c.caller (counted session c.chunk) c.draws) ∧
      (next d sid s c).acceptedAt = c.now :: s.acceptedAt ∧
      ((next d sid s c).world.cache = s.world.cache.delete session.id ∨
        ((next d sid s c).saved = c.now ∧
          (next d sid s c).world.cache = s.world.cache.save c.now (counted session c.chunk)))) ∨
    ((∀ session, openSession s.world c.now c.caller sid = .ok session → c.chunk.failure = none →
      (counted session c.chunk).totalSizeBytes ≤ (counted session c.chunk).receivedBytes ∧
        ¬ Finishes d s.world c.now c.caller (counted session c.chunk) c.draws) ∧
      (next d sid s c).acceptedAt = s.acceptedAt ∧ (next d sid s c).saved = s.saved ∧
      (next d sid s c).world.cache = s.world.cache) := by
  unfold next exec
  rcases appendChunk_cases d s.world c.now c.caller sid c.chunk c.draws with
    ⟨e, hopen, heq⟩ |
    ⟨session, hopen, ⟨hcut, e, heq⟩ | ⟨hread, hmore, r, heq⟩ | ⟨hread, hlast, t, -, hended⟩⟩
  · rw [heq]
    refine Or.inr ⟨?_, rfl, rfl, rfl⟩
    intro session hsession
    rw [hopen] at hsession
    cases hsession
  · rw [heq]
    exact Or.inr ⟨fun _ _ hread => absurd hread hcut, rfl, rfl, rfl⟩
  · rw [heq]
    exact Or.inl ⟨session, hopen, hread, fun hlast => absurd hlast (not_le.mpr hmore), rfl,
      Or.inr ⟨rfl, rfl⟩⟩
  · have honly : ∀ session', openSession s.world c.now c.caller sid = .ok session' →
        session' = session := fun session' h => Except.ok.inj (h.symm.trans hopen)
    generalize appendChunk d s.world c.now c.caller sid c.chunk c.draws = o at hended
    cases hended with
    | stuck e hdir =>
        refine Or.inr ⟨?_, rfl, rfl, rfl⟩
        intro session' hsession _
        obtain rfl := honly session' hsession
        exact ⟨hlast, fun hfinishes => absurd (hdir.symm.trans hfinishes.1) (by decide)⟩
    | misplaced e x hdir =>
        refine Or.inr ⟨?_, rfl, rfl, rfl⟩
        intro session' hsession _
        obtain rfl := honly session' hsession
        exact ⟨hlast, fun hfinishes => absurd (hdir.symm.trans hfinishes.1) (by decide)⟩
    | unregistered e hdir hrejected =>
        refine Or.inr ⟨?_, rfl, rfl, rfl⟩
        intro session' hsession _
        obtain rfl := honly session' hsession
        exact ⟨hlast, fun hfinishes => absurd (hrejected.symm.trans hfinishes.2) (by decide)⟩
    | completed r m hdir haccepted =>
        exact Or.inl ⟨session, hopen, hread, fun _ => ⟨hdir, haccepted⟩, rfl, Or.inl rfl⟩

/-- The record stays what its last save made it. -/
theorem Recorded.next (h : Recorded sid expiresAt s) (c : Call) :
    Recorded sid expiresAt (next d sid s c) := by
  rcases next_cases d sid s c with
    ⟨session, hopen, -, -, -, hcache⟩ | ⟨-, -, hsaved, hcache⟩
  · obtain ⟨entry, hcached, -, rfl, -, -⟩ := openSession_iff.mp hopen
    have hentry := h entry hcached
    intro entry' hentry'
    rcases hcache with hdeleted | ⟨hsaved, hcache⟩
    · rw [hdeleted, UploadSessionCache.delete, hentry.id, Function.update_self] at hentry'
      cases hentry'
    · have hid : (counted entry.session c.chunk).id = sid := hentry.id
      have hexpires : (counted entry.session c.chunk).expiresAt = some expiresAt := hentry.expires
      rw [hcache, UploadSessionCache.save, hid, Function.update_self] at hentry'
      cases hentry'
      refine ⟨hid, hexpires, ?_⟩
      show Option.map _ _ = _
      rw [hexpires, hsaved]
      rfl
  · intro entry hentry
    rw [hcache] at hentry
    obtain ⟨hid, hexpires, hdrop⟩ := h entry hentry
    refine ⟨hid, hexpires, ?_⟩
    rw [hsaved]
    exact hdrop

/-- A call keeps what was accepted timely exactly if it is prompt. -/
theorem timely_next_iff (hrecorded : Recorded sid expiresAt s) (htimely : Timely expiresAt s)
    (c : Call) : Timely expiresAt (next d sid s c) ↔ Prompt d sid expiresAt s c := by
  have hlive : ∀ entry ∈ s.world.cache sid, expiresAt + 1000000 ≤ c.now →
      (live c.now entry = true ↔ c.now < s.saved + 1000000) := by
    intro entry hentry hlate
    rw [← live_iff hlate, live, (hrecorded entry hentry).dropAt]
    exact decide_eq_true_iff
  rcases next_cases d sid s c with
    ⟨session, hopen, hread, hlast, hat, -⟩ | ⟨hnot, hat, -, -⟩
  · obtain ⟨entry, hcached, halive, rfl, howner, hactive⟩ := openSession_iff.mp hopen
    have haccepted : Timely expiresAt (Lifetime.next d sid s c) ↔ c.now < expiresAt + 1000000 := by
      unfold Timely
      rw [hat, List.forall_mem_cons]
      exact and_iff_left htimely
    rw [haccepted]
    constructor
    · intro hnow hlate _
      omega
    · intro hprompt
      by_contra hlate
      have hsaved := hprompt (not_lt.mp hlate) ⟨entry, hcached, howner, hactive, hread, hlast⟩
      have hnow := (hlive entry hcached (not_lt.mp hlate)).mp halive
      omega
  · -- nothing is accepted: an acceptable call comes when the record has gone
    refine iff_of_true ?_ ?_
    · unfold Timely
      rw [hat]
      exact htimely
    · rintro hlate ⟨entry, hcached, howner, hactive, hread, hlast⟩
      by_contra hsoon
      have halive := (hlive entry hcached hlate).mpr (not_le.mp hsoon)
      have hopen : openSession s.world c.now c.caller sid = .ok entry.session :=
        openSession_iff.mpr ⟨entry, hcached, halive, rfl, howner, hactive⟩
      obtain ⟨hend, hfails⟩ := hnot entry.session hopen hread
      exact hfails (hlast hend)

end Step

/-! ## Runs -/

section Runs

variable {d : Deployment} {w : World} {now : ℤ} {owner : AuthenticatedUser} {name : Str}
  {total n : ℤ} {folderId : Option Uuid} {sid : Uuid}

/-- The record of a session that has just been created. -/
theorem recorded_start
    (hok : (createSession d w now owner name total (some n) folderId sid).1.isOk = true) :
    Recorded sid (now + n * 1000000) (start d sid w now owner name total n folderId) := by
  obtain ⟨session, hcreated, hstart⟩ := Sweeping.start_of_ok hok
  have hworld : (createSession d w now owner name total (some n) folderId sid).2 =
      w.withCache (w.cache.save now session) := congrArg Sweeping.State.world hstart
  intro entry hentry
  unfold start at hentry ⊢
  rw [hworld] at hentry
  rw [World.withCache_cache, UploadSessionCache.save, hcreated.id, Function.update_self] at hentry
  cases hentry
  refine ⟨hcreated.id, hcreated.expires, ?_⟩
  show Option.map _ _ = _
  rw [hcreated.expires]
  rfl

/-- No chunk of a run is accepted a second or more after the expiry exactly if every
call of the run is prompt. -/
theorem upload_expires_iff
    (hok : (createSession d w now owner name total (some n) folderId sid).1.isOk = true)
    (cs : List Call) :
    (system d sid).Always (Timely (now + n * 1000000))
        (start d sid w now owner name total n folderId) cs ↔
      (system d sid).Guarded (Prompt d sid (now + n * 1000000))
        (start d sid w now owner name total n folderId) cs := by
  apply System.always_iff_guarded (J := Recorded sid (now + n * 1000000))
  · intro s c s' hs hstep
    cases hstep
    exact hs.next c
  · intro s c s' hs htimely hstep
    cases hstep
    exact timely_next_iff hs htimely c
  · exact recorded_start hok
  · intro t ht
    cases ht

end Runs

namespace Sample

open Uploads.Sample (owner name codes)

/-- A byte at some tenth of a second. -/
def append (tenths : ℕ) : Call :=
  ⟨tenths * 100000, owner, .ofBytes [7], ⟨Uuid.ofNat 10, codes 10, none⟩⟩

/-- A session of a hundred bytes that expires after two seconds. -/
def created : State :=
  start .default (Uuid.ofNat 1) (World.initial .sqlite) 0 owner name 100 2 none

/-- Each chunk within a second of the one before it. -/
def chain : List Call := [append 15, append 24, append 33]

theorem runs_chain : ((system .default (Uuid.ofNat 1)).run created chain).isSome = true := rfl

end Sample

theorem upload_expires_iff_pause :
    (system .default (Uuid.ofNat 1)).Always (Timely 2000000) Sample.created
      [Sample.append 15, Sample.append 24, Sample.append 35] :=
  (@upload_expires_iff .default (World.initial .sqlite) 0 Uploads.Sample.owner Uploads.Sample.name
    100 2 none (Uuid.ofNat 1) rfl _).mpr (by decide +kernel)

/-- Two saves in the last second and the next keep the session for a chunk at 3.3
seconds. -/
theorem chain_outlives_expiry :
    ¬ ∀ (d : Deployment) (w : World) (now : ℤ) (owner : AuthenticatedUser) (name : Str)
      (total n : ℤ) (folderId : Option Uuid) (sid : Uuid) (cs : List Call),
      (createSession d w now owner name total (some n) folderId sid).1.isOk = true →
        (system d sid).Always (Timely (now + n * 1000000))
          (start d sid w now owner name total n folderId) cs := by
  intro h
  have htimely := (h .default (World.initial .sqlite) 0 Uploads.Sample.owner Uploads.Sample.name 100
    2 none (Uuid.ofNat 1) Sample.chain rfl).last (Option.some_get Sample.runs_chain).symm
  have hlate : ¬ Timely (0 + 2 * 1000000) (((system .default (Uuid.ofNat 1)).run Sample.created
      Sample.chain).get Sample.runs_chain) := by decide +kernel
  exact hlate htimely

end Lifetime

end Jumbox
