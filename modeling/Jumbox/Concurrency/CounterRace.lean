import Jumbox.Uploads.Run
import Mathlib.Algebra.BigOperators.Fin

/-!
# Concurrent chunks of one upload session

`append_chunk` calls of `ChunkedUploadService` on one session, cut where the
method awaits: the session record is loaded, the chunk is appended, and then the
record is saved, or the file is finalized, registered and the record deleted.
Every step is the piece the serial method is made of.
-/

namespace Jumbox

namespace CounterRace

open ChunkedUploadService
open TransferService (UploadTransferResult registerCompletedFile accepts)

/-- What an `append_chunk` call brings. -/
structure Call where
  owner : AuthenticatedUser
  chunk : UploadStream
  draws : Draws

/-- Where a call has got to, with its local variables. -/
inductive Phase where
  | waiting
  | loaded (session : UploadSession)
  /-- The chunk is in the temporary file, and not counted yet. -/
  | appended (session : UploadSession) (bytesWritten : ℕ)
  | finalized (session : UploadSession) (finalPath : Path) (checksum : Str)
  | registered (session : UploadSession) (result : UploadTransferResult)
  | finished (result : Except Error ChunkUploadResult)

/-- What a call returns for a session that goes on. -/
def savedResult (session : UploadSession) : ChunkUploadResult :=
  ⟨session.id, session.status, session.receivedBytes, session.totalSizeBytes, false, none, none⟩

def completedResult (session : UploadSession) (result : UploadTransferResult) : ChunkUploadResult :=
  ⟨session.id, session.status, session.receivedBytes, session.totalSizeBytes, true,
    some result.transferCode, some result.downloadUrl⟩

/-- `_finalize_temp_file` and `_checksum`. -/
def finalize (d : Deployment) (w : World) (session : UploadSession) : World × Phase :=
  match finalizeTempFile d w.files session.tempPath session.originalName with
  | .error e => (w, .finished (.error e))
  | .ok (finalPath, fs) =>
      match checksum d fs finalPath with
      | .error e => (w.withFiles fs, .finished (.error e))
      | .ok checksum => (w.withFiles fs, .finalized session finalPath checksum)

/-- The next step of a call. -/
def next (d : Deployment) (sessionId : Uuid) (c : Call) (w : World) (now : ℤ) :
    Phase → Option (World × Phase)
  | .waiting =>
      match openSession w now c.owner sessionId with
      | .error e => some (w, .finished (.error e))
      | .ok session => some (w, .loaded session)
  | .loaded session =>
      match appendToTempFile w.files now session.tempPath c.chunk with
      | (.error e, fs) => some (w.withFiles fs, .finished (.error e))
      | (.ok bytesWritten, fs) => some (w.withFiles fs, .appended session bytesWritten)
  | .appended session bytesWritten =>
      let session := session.advance bytesWritten
      if session.totalSizeBytes ≤ session.receivedBytes then
        some (finalize d w session.markCompleted)
      else
        some (w.withCache (w.cache.save now session), .finished (.ok (savedResult session)))
  | .finalized session finalPath checksum =>
      match registerCompletedFile w now (registration now c.owner session c.draws)
          session.originalName finalPath session.receivedBytes checksum with
      | (.error e, w) => some (w, .finished (.error e))
      | (.ok result, w) => some (w, .registered session result)
  | .registered session result =>
      some (w.withCache (w.cache.delete session.id), .finished (.ok (completedResult session result)))
  | .finished _ => none

def Phase.inProgress : Phase → Bool
  | .waiting => false
  | .finished _ => false
  | _ => true

/-- The bytes of the call that are in the temporary file and not counted. -/
def Phase.uncounted : Phase → ℕ
  | .appended _ bytesWritten => bytesWritten
  | _ => 0

/-- The call has finalized the file, and the record is still there. -/
def Phase.closing : Phase → Bool
  | .finalized _ _ _ => true
  | .registered _ _ => true
  | _ => false

def Phase.isRegistered : Phase → Bool
  | .registered _ _ => true
  | _ => false

/-- The world, the calls, the lengths of the chunks appended so far in all, and
the calls that have registered a transfer. -/
structure State (ι : Type) where
  world : World
  phase : ι → Phase
  appendedBytes : ℕ
  registered : List ι

/-- The next step of `call`, at `now`. -/
structure Step (ι : Type) where
  call : ι
  now : ℤ

variable {ι : Type} [DecidableEq ι]

/-- The bytes a step appends. -/
def appendedBy (c : Call) : Phase → ℕ
  | .loaded _ => c.chunk.content.length
  | _ => 0

/-- The calls on the session `sessionId`. -/
def system (d : Deployment) (sessionId : Uuid) (calls : ι → Call) : System (State ι) (Step ι) where
  step s l :=
    (next d sessionId (calls l.call) s.world l.now (s.phase l.call)).map fun (world, phase) =>
      { world
        phase := Function.update s.phase l.call phase
        appendedBytes := s.appendedBytes + appendedBy (calls l.call) (s.phase l.call)
        registered := if phase.isRegistered then l.call :: s.registered else s.registered }

/-- No call has started. -/
def start (w : World) : State ι := ⟨w, fun _ => .waiting, 0, []⟩

/-- While no call is in progress a record counts what is in its temporary file,
which is what has been appended; and one call registers at most. -/
structure Counted (sessionId : Uuid) (s : State ι) : Prop where
  received : (∀ i, (s.phase i).inProgress = false) → ∀ e, s.world.cache sessionId = some e →
    e.session.receivedBytes = s.world.files.size e.session.tempPath ∧
      e.session.receivedBytes = s.appendedBytes
  once : s.registered.length ≤ 1

/-- The stored record still has the count that `session` was loaded with. -/
def UpToDate (sessionId : Uuid) (w : World) (session : UploadSession) : Prop :=
  ∃ e ∈ w.cache sessionId, e.session.receivedBytes = session.receivedBytes

instance (sessionId : Uuid) (w : World) (session : UploadSession) :
    Decidable (UpToDate sessionId w session) :=
  match h : w.cache sessionId with
  | none => .isFalse (by simp [UpToDate, h])
  | some e => decidable_of_iff (e.session.receivedBytes = session.receivedBytes)
      (by simp [UpToDate, h])

/-- The file of `session` will be moved away and read back. -/
def Finalizable (d : Deployment) (w : World) (session : UploadSession) : Prop :=
  (w.files session.tempPath).isSome = true ∧
    isDirectory d (finalPath d session.originalName) = false

instance (d : Deployment) (w : World) (session : UploadSession) :
    Decidable (Finalizable d w session) := inferInstanceAs (Decidable (_ ∧ _))

/-- No stream breaks off in the middle, no count is saved over another one, and
the record is completed by one call, which registers its transfer. -/
def InTurn (d : Deployment) (sessionId : Uuid) (calls : ι → Call) (s : State ι) (l : Step ι) :
    Prop :=
  let c := calls l.call
  match s.phase l.call with
  | .loaded _ => c.chunk.failure = none ∨ c.chunk.content = []
  | .appended session bytesWritten =>
      if session.totalSizeBytes ≤ session.receivedBytes + bytesWritten then
        (UpToDate sessionId s.world session ∧ (∀ j, (s.phase j).closing = false) ∧
            isDirectory d (finalPath d session.originalName) = false) ∨
          ((s.world.cache sessionId = none ∨ ∃ j, (s.phase j).closing = true) ∧
            ¬ Finalizable d s.world session)
      else UpToDate sessionId s.world session
  | .finalized session _ _ =>
      accepts s.world.db l.now (registration l.now c.owner session c.draws) = true
  | _ => True

instance [Fintype ι] (d : Deployment) (sessionId : Uuid) (calls : ι → Call) (s : State ι)
    (l : Step ι) : Decidable (InTurn d sessionId calls s l) :=
  match h : s.phase l.call with
  | .waiting => .isTrue (by simp [InTurn, h])
  | .loaded _ => decidable_of_iff
      ((calls l.call).chunk.failure = none ∨ (calls l.call).chunk.content = []) (by simp [InTurn, h])
  | .appended session bytesWritten => decidable_of_iff
      (if session.totalSizeBytes ≤ session.receivedBytes + bytesWritten then
        (UpToDate sessionId s.world session ∧ (∀ j, (s.phase j).closing = false) ∧
            isDirectory d (finalPath d session.originalName) = false) ∨
          ((s.world.cache sessionId = none ∨ ∃ j, (s.phase j).closing = true) ∧
            ¬ Finalizable d s.world session)
      else UpToDate sessionId s.world session) (by simp [InTurn, h])
  | .finalized session _ _ => decidable_of_iff
      (accepts s.world.db l.now
        (registration l.now (calls l.call).owner session (calls l.call).draws) = true)
      (by simp [InTurn, h])
  | .registered _ _ => .isTrue (by simp [InTurn, h])
  | .finished _ => .isTrue (by simp [InTurn, h])

/-! ## One call alone -/

/-- What is left of the method at a phase. -/
def rest (d : Deployment) (sessionId : Uuid) (c : Call) (w : World) (now : ℤ) :
    Phase → Outcome ChunkUploadResult
  | .waiting => appendChunk d w now c.owner sessionId c.chunk c.draws
  | .loaded session =>
      match appendToTempFile w.files now session.tempPath c.chunk with
      | (.error e, fs) => (.error e, w.withFiles fs)
      | (.ok bytesWritten, fs) => afterAppend (w.withFiles fs) (session.advance bytesWritten)
  | .appended session bytesWritten => afterAppend w (session.advance bytesWritten)
  | .finalized session finalPath checksum => afterFinalize w session finalPath checksum
  | .registered session result =>
      (.ok (completedResult session result), w.withCache (w.cache.delete session.id))
  | .finished result => (result, w)
where
  afterAppend (w : World) (session : UploadSession) : Outcome ChunkUploadResult :=
    if session.totalSizeBytes ≤ session.receivedBytes then
      completeSession d w now c.owner session c.draws
    else (.ok (savedResult session), w.withCache (w.cache.save now session))
  afterFinalize (w : World) (session : UploadSession) (finalPath : Path) (checksum : Str) :
      Outcome ChunkUploadResult :=
    match registerCompletedFile w now (registration now c.owner session c.draws)
        session.originalName finalPath session.receivedBytes checksum with
    | (.error e, w) => (.error e, w)
    | (.ok result, w) =>
        (.ok (completedResult session result), w.withCache (w.cache.delete session.id))

/-- A step does the first piece of what is left. -/
theorem rest_next {d : Deployment} {sid : Uuid} {c : Call} {w w' : World} {now : ℤ}
    {phase phase' : Phase} (h : next d sid c w now phase = some (w', phase')) :
    rest d sid c w' now phase' = rest d sid c w now phase := by
  cases phase with
  | waiting =>
      change _ = appendChunk d w now c.owner sid c.chunk c.draws
      simp only [next] at h
      split at h
      · rename_i heq
        cases h
        rw [appendChunk, heq]
        rfl
      · rename_i heq
        cases h
        rw [appendChunk, heq]
        rfl
  | loaded session =>
      simp only [next] at h
      split at h
      · rename_i heq
        cases h
        simp only [rest, heq]
      · rename_i heq
        cases h
        simp only [rest, heq]
  | appended session n =>
      simp only [next] at h
      simp only [rest, rest.afterAppend]
      split at h
      · rename_i hlast
        rw [if_pos hlast, completeSession]
        simp only [finalize, Option.some.injEq] at h
        revert h
        cases finalizeTempFile d w.files (session.advance n).markCompleted.tempPath
            (session.advance n).markCompleted.originalName with
        | error e =>
            rintro ⟨⟩
            rfl
        | ok moved =>
            obtain ⟨finalPath, fs⟩ := moved
            simp only [World.withFiles_files]
            cases checksum d fs finalPath with
            | error e =>
                rintro ⟨⟩
                rfl
            | ok sum =>
                rintro ⟨⟩
                rfl
      · rename_i hmore
        cases h
        rw [if_neg hmore]
  | finalized session p sum =>
      simp only [next] at h
      split at h
      · rename_i heq
        cases h
        simp only [rest, rest.afterFinalize, heq]
      · rename_i heq
        cases h
        simp only [rest, rest.afterFinalize, heq]
  | registered session r =>
      cases h
      rfl
  | finished r => cases h

theorem system_step {d : Deployment} {sid : Uuid} {calls : ι → Call} {s s' : State ι} {l : Step ι}
    (h : (system d sid calls).step s l = some s') :
    ∃ w phase, next d sid (calls l.call) s.world l.now (s.phase l.call) = some (w, phase) ∧
      s'.world = w ∧ s'.phase = Function.update s.phase l.call phase ∧
      s'.appendedBytes = s.appendedBytes + appendedBy (calls l.call) (s.phase l.call) ∧
      s'.registered = if phase.isRegistered then l.call :: s.registered else s.registered := by
  obtain ⟨⟨w, phase⟩, hnext, rfl⟩ := Option.map_eq_some_iff.mp h
  exact ⟨w, phase, hnext, rfl, rfl, rfl, rfl⟩

/-- The steps of one call taken back to back, up to the last, are `append_chunk`. -/
theorem run_alone {d : Deployment} {sid : Uuid} {calls : ι → Call} {i : ι} {now : ℤ}
    {s s' : State ι} {k : ℕ} {result : Except Error ChunkUploadResult}
    (hwaiting : s.phase i = .waiting) (hfinished : s'.phase i = .finished result)
    (hrun : (system d sid calls).run s (List.replicate k ⟨i, now⟩) = some s') :
    appendChunk d s.world now (calls i).owner sid (calls i).chunk (calls i).draws =
      (result, s'.world) := by
  have hrest : rest d sid (calls i) s'.world now (s'.phase i) =
      rest d sid (calls i) s.world now (s.phase i) := by
    refine System.holds_of_run (P := fun t => rest d sid (calls i) t.world now (t.phase i) = _)
      ?_ rfl (fun l hl => List.eq_of_mem_replicate hl) hrun
    rintro t l t' hkeeps rfl hstep
    obtain ⟨w, phase, hnext, rfl, hphase, -⟩ := system_step hstep
    have hself : t'.phase i = phase := by rw [hphase, Function.update_self]
    rw [hself, rest_next hnext]
    exact hkeeps
  rw [hwaiting, hfinished] at hrest
  exact hrest.symm

/-! ## What holds in every run in turn -/

section Invariant

variable {d : Deployment} {sid : Uuid} {temp : Path} {calls : ι → Call}

/-- A record of the session, with its temporary file. -/
structure Ours (sid : Uuid) (temp : Path) (session : UploadSession) : Prop where
  id : session.id = sid
  tempPath : session.tempPath = temp

/-- The record a call holds. -/
def Phase.session : Phase → Option UploadSession
  | .loaded session => some session
  | .appended session _ => some session
  | .finalized session _ _ => some session
  | .registered session _ => some session
  | _ => none

def Phase.isAppended : Phase → Bool
  | .appended _ _ => true
  | _ => false

variable [Fintype ι]

/-- The stored count and the bytes not counted yet are what has been appended,
and that is the size of the temporary file. -/
structure Books (sid : Uuid) (temp : Path) (s : State ι) : Prop where
  count : ∀ e, s.world.cache sid = some e →
    e.session.receivedBytes + (∑ i, (s.phase i).uncounted : ℕ) = s.appendedBytes
  size : s.world.files.size temp = s.appendedBytes
  there : ∀ i, (s.phase i).isAppended = true → (s.world.files temp).isSome = true

/-- At most one call is completing the session; until one does, the books are kept. -/
structure Inv (sid : Uuid) (temp : Path) (s : State ι) : Prop where
  record : ∀ e, s.world.cache sid = some e → Ours sid temp e.session
  held : ∀ i, ∀ session ∈ (s.phase i).session, Ours sid temp session
  books : (∀ i, (s.phase i).closing = false) → s.world.cache sid ≠ none → Books sid temp s
  closing_eq : ∀ i j, (s.phase i).closing = true → (s.phase j).closing = true → i = j
  closing_record : ∀ i, (s.phase i).closing = true → s.world.cache sid ≠ none
  unregistered : s.world.cache sid ≠ none → (∀ i, (s.phase i).isRegistered = false) →
    s.registered = []
  once : s.registered.length ≤ 1

theorem Phase.closing_of_isRegistered {phase : Phase} (h : phase.isRegistered = true) :
    phase.closing = true := by
  cases phase <;> first | rfl | cases h

omit [DecidableEq ι] in
theorem Inv.counted {s : State ι} (h : Inv sid temp s) : Counted sid s := by
  refine ⟨?_, h.once⟩
  intro hquiet e he
  have hidle : ∀ i, (s.phase i).closing = false ∧ (s.phase i).uncounted = 0 := by
    intro i
    have hi := hquiet i
    cases hphase : s.phase i with
    | waiting => exact ⟨rfl, rfl⟩
    | finished r => exact ⟨rfl, rfl⟩
    | _ =>
        rw [hphase] at hi
        cases hi
  have hbooks := h.books (fun i => (hidle i).1) (by rw [he]; exact Option.some_ne_none e)
  have hcount := hbooks.count e he
  rw [Finset.sum_eq_zero fun i _ => (hidle i).2] at hcount
  rw [(h.record e he).tempPath, hbooks.size]
  constructor <;> omega

/-- What a step changes in the sum of what is not counted. -/
theorem sum_uncounted_update (phase : ι → Phase) (i : ι) (p : Phase) :
    (∑ j, (Function.update phase i p j).uncounted) + (phase i).uncounted =
      (∑ j, (phase j).uncounted) + p.uncounted := by
  have hsum : ∑ j, (Function.update phase i p j).uncounted =
      p.uncounted + ∑ j ∈ Finset.univ.erase i, (phase j).uncounted := by
    rw [← Finset.add_sum_erase _ _ (Finset.mem_univ i), Function.update_self]
    congr 1
    apply Finset.sum_congr rfl
    intro j hj
    rw [Function.update_of_ne (Finset.ne_of_mem_erase hj)]
  have hall := Finset.add_sum_erase Finset.univ (fun j => (phase j).uncounted) (Finset.mem_univ i)
  omega

omit [Fintype ι] in
theorem update_apply_eq {α : Type} (f : Phase → α) {phase : ι → Phase} {i : ι} {p : Phase}
    (h : f p = f (phase i)) (j : ι) : f (Function.update phase i p j) = f (phase j) := by
  by_cases hj : j = i
  · rw [hj, Function.update_self, h]
  · rw [Function.update_of_ne hj]

/-- The books are kept by a step that counts what it is to count. -/
theorem Books.update {s s' : State ι} (h : Books sid temp s) {i : ι} {p : Phase}
    (hphase : s'.phase = Function.update s.phase i p)
    (hcount : ∀ e', s'.world.cache sid = some e' → ∃ e, s.world.cache sid = some e ∧
      e'.session.receivedBytes + p.uncounted + s.appendedBytes =
        e.session.receivedBytes + (s.phase i).uncounted + s'.appendedBytes)
    (hsize : s'.world.files.size temp = s'.appendedBytes)
    (hthere : (s.world.files temp).isSome = true → (s'.world.files temp).isSome = true)
    (hp : p.isAppended = true → (s'.world.files temp).isSome = true) : Books sid temp s' := by
  have hsum := sum_uncounted_update s.phase i p
  rw [← hphase] at hsum
  constructor
  · intro e' he'
    obtain ⟨e, he, heq⟩ := hcount e' he'
    have hbefore := h.count e he
    omega
  · exact hsize
  · intro j hj
    rw [hphase] at hj
    by_cases hji : j = i
    · rw [hji, Function.update_self] at hj
      exact hp hj
    · rw [Function.update_of_ne hji] at hj
      exact hthere (h.there j hj)

/-- A step of a call that is not completing the session, and does not start to. -/
theorem Inv.keep {s s' : State ι} (h : Inv sid temp s) {i : ι} {p : Phase}
    (hphase : s'.phase = Function.update s.phase i p) (hi : (s.phase i).closing = false)
    (hp : p.closing = false) (hregistered : s'.registered = s.registered)
    (hnone : s'.world.cache sid = none ↔ s.world.cache sid = none)
    (hrecord : ∀ e, s'.world.cache sid = some e → Ours sid temp e.session)
    (hheld : ∀ session ∈ p.session, Ours sid temp session)
    (hbooks : (∀ j, (s.phase j).closing = false) → s.world.cache sid ≠ none → Books sid temp s →
      Books sid temp s') : Inv sid temp s' := by
  have hclosing : ∀ j, (s'.phase j).closing = (s.phase j).closing := by
    rw [hphase]
    exact update_apply_eq _ (hp.trans hi.symm)
  have hreg : ∀ j, (s'.phase j).isRegistered = (s.phase j).isRegistered := by
    have hfalse : ∀ q : Phase, q.closing = false → q.isRegistered = false := by
      intro q hq
      by_contra hne
      rw [Phase.closing_of_isRegistered (eq_true_of_ne_false hne)] at hq
      cases hq
    rw [hphase]
    exact update_apply_eq _ ((hfalse p hp).trans (hfalse _ hi).symm)
  constructor
  · exact hrecord
  · intro j session hsession
    rw [hphase] at hsession
    by_cases hj : j = i
    · rw [hj, Function.update_self] at hsession
      exact hheld session hsession
    · rw [Function.update_of_ne hj] at hsession
      exact h.held j session hsession
  · intro hidle hsome
    have hidle' : ∀ j, (s.phase j).closing = false := fun j => (hclosing j).symm.trans (hidle j)
    exact hbooks hidle' (mt hnone.mpr hsome) (h.books hidle' (mt hnone.mpr hsome))
  · intro j k hj hk
    exact h.closing_eq j k ((hclosing j).symm.trans hj) ((hclosing k).symm.trans hk)
  · intro j hj
    exact mt hnone.mp (h.closing_record j ((hclosing j).symm.trans hj))
  · intro hsome hnot
    rw [hregistered]
    exact h.unregistered (mt hnone.mpr hsome) fun j => (hreg j).symm.trans (hnot j)
  · rw [hregistered]
    exact h.once

omit [Fintype ι] [DecidableEq ι] in
/-- What finalizing does: it fails, or the file is moved away and read back. -/
theorem finalize_cases (d : Deployment) (w : World) (session : UploadSession) :
    (finalize d w session).1.cache = w.cache ∧
      ((Finalizable d w session ∧ ∃ p sum, (finalize d w session).2 = .finalized session p sum) ∨
        (¬ Finalizable d w session ∧ ∃ e, (finalize d w session).2 = .finished (.error e))) := by
  unfold finalize finalizeTempFile move
  cases hdir : isDirectory d (finalPath d session.originalName) with
  | true =>
      have hnot : ¬ Finalizable d w session := fun h => by
        rw [h.2] at hdir
        cases hdir
      simp only [hdir, if_true]
      cases w.files (finalPath d session.originalName ++ [session.tempPath.getLastD []]) with
      | some g => exact ⟨rfl, .inr ⟨hnot, _, rfl⟩⟩
      | none =>
          simp only [Option.isSome_none, Bool.false_eq_true, if_false]
          cases w.files.move session.tempPath
              (finalPath d session.originalName ++ [session.tempPath.getLastD []]) with
          | none => exact ⟨rfl, .inr ⟨hnot, _, rfl⟩⟩
          | some fs =>
              simp only [Option.elim_some, Except.map, checksum_of_directory hdir]
              exact ⟨rfl, .inr ⟨hnot, _, rfl⟩⟩
  | false =>
      cases hfile : w.files session.tempPath with
      | none =>
          have hnot : ¬ Finalizable d w session := fun h => by
            rw [Finalizable, hfile] at h
            cases h.1
          simp only [hdir, Bool.false_eq_true, if_false, Files.move, hfile]
          exact ⟨rfl, .inr ⟨hnot, _, rfl⟩⟩
      | some f =>
          have hmove : w.files.move session.tempPath (finalPath d session.originalName) =
              some (movedTo w.files session.tempPath (finalPath d session.originalName) f) :=
            Files.move_eq_some.mpr ⟨f, hfile, rfl⟩
          simp only [hdir, Bool.false_eq_true, if_false, hmove, Option.elim_some, Except.map,
            checksum_movedTo hdir]
          refine ⟨rfl, .inl ⟨⟨?_, hdir⟩, _, _, rfl⟩⟩
          rw [hfile]
          rfl

/-- A step that leaves the world as it is, of a call that has nothing uncounted. -/
theorem Inv.idle {s s' : State ι} (h : Inv sid temp s) {i : ι} {p : Phase}
    (hphase : s'.phase = Function.update s.phase i p) (hi : (s.phase i).closing = false)
    (hcounted : (s.phase i).uncounted = 0) (hp : p.closing = false) (hpcounted : p.uncounted = 0)
    (hpappended : p.isAppended = false) (hheld : ∀ session ∈ p.session, Ours sid temp session)
    (hw : s'.world = s.world) (hbytes : s'.appendedBytes = s.appendedBytes)
    (hregistered : s'.registered = s.registered) : Inv sid temp s' := by
  apply h.keep hphase hi hp hregistered (by rw [hw]) (by rw [hw]; exact h.record) hheld
  intro _ _ hbooks
  apply hbooks.update hphase
  · intro e he
    rw [hw] at he
    exact ⟨e, he, by rw [hcounted, hpcounted, hbytes]⟩
  · rw [hw, hbytes, hbooks.size]
  · rw [hw]
    exact id
  · intro hcontra
    rw [hpappended] at hcontra
    cases hcontra

/-- A chunk that is appended, or breaks off before its first byte. -/
theorem Inv.append {s s' : State ι} (h : Inv sid temp s) {i : ι} {p : Phase} {now : ℤ}
    {content : Bytes} (hphase : s'.phase = Function.update s.phase i p)
    (hi : (s.phase i).closing = false) (hcounted : (s.phase i).uncounted = 0)
    (hp : p.closing = false) (hpcounted : p.uncounted = content.length)
    (hheld : ∀ session ∈ p.session, Ours sid temp session)
    (hw : s'.world = s.world.withFiles (s.world.files.append temp now content))
    (hbytes : s'.appendedBytes = s.appendedBytes + content.length)
    (hregistered : s'.registered = s.registered) : Inv sid temp s' := by
  have hthere : (s'.world.files temp).isSome = true := by
    obtain ⟨t, ht⟩ := Files.append_self s.world.files temp now content
    rw [hw, World.withFiles_files, ht]
    rfl
  apply h.keep hphase hi hp hregistered (by rw [hw]; rfl) (by rw [hw]; exact h.record) hheld
  intro _ _ hbooks
  apply hbooks.update hphase _ _ (fun _ => hthere) fun _ => hthere
  · intro e he
    rw [hw] at he
    refine ⟨e, he, ?_⟩
    rw [hcounted, hpcounted, hbytes]
    push_cast
    omega
  · have hsize := hbooks.size
    rw [Files.size_eq_length] at hsize ⊢
    rw [hw, World.withFiles_files, Files.bytes_append_self, List.length_append, hsize, hbytes]

/-- The count is saved over the one it was made from. -/
theorem Inv.save {s s' : State ι} (h : Inv sid temp s) {i : ι} {session : UploadSession} {n : ℕ}
    {now : ℤ} {r : Except Error ChunkUploadResult} (hi : s.phase i = .appended session n)
    (hours : Ours sid temp session) (hcurrent : UpToDate sid s.world session)
    (hphase : s'.phase = Function.update s.phase i (.finished r))
    (hw : s'.world = s.world.withCache (s.world.cache.save now (session.advance n)))
    (hbytes : s'.appendedBytes = s.appendedBytes)
    (hregistered : s'.registered = s.registered) : Inv sid temp s' := by
  obtain ⟨e, he, hcount⟩ := hcurrent
  have hsaved : ∃ dropAt, s'.world.cache sid = some ⟨session.advance n, dropAt⟩ := by
    rw [hw, World.withCache_cache, UploadSessionCache.save, ← hours.id]
    exact ⟨_, Function.update_self ..⟩
  obtain ⟨dropAt, hsaved⟩ := hsaved
  apply h.keep hphase (by rw [hi]; rfl) rfl hregistered _ _ (by rintro _ ⟨⟩)
  · intro _ _ hbooks
    apply hbooks.update hphase
    · intro e' he'
      rw [hsaved] at he'
      cases he'
      refine ⟨e, he, ?_⟩
      rw [hi, hbytes, hcount]
      simp only [UploadSession.advance, Phase.uncounted]
      push_cast
      omega
    · rw [hw, hbytes, World.withCache_files, hbooks.size]
    · rw [hw]
      exact id
    · rintro ⟨⟩
  · rw [hsaved, he]
    exact iff_of_false (Option.some_ne_none _) (Option.some_ne_none _)
  · intro e' he'
    rw [hsaved] at he'
    cases he'
    exact ⟨hours.id, hours.tempPath⟩

/-- The call moves the temporary file away while no other one does. -/
theorem Inv.finalize {s s' : State ι} (h : Inv sid temp s) {i : ι} {session : UploadSession}
    {path : Path} {sum : Str} (hours : Ours sid temp session) (hrecord : s.world.cache sid ≠ none)
    (hidle : ∀ j, (s.phase j).closing = false)
    (hphase : s'.phase = Function.update s.phase i (.finalized session path sum))
    (hcache : s'.world.cache = s.world.cache) (hregistered : s'.registered = s.registered) :
    Inv sid temp s' := by
  have honly : ∀ j, (s'.phase j).closing = true → j = i := by
    intro j hj
    by_contra hji
    rw [hphase, Function.update_of_ne hji, hidle j] at hj
    cases hj
  constructor
  · rw [hcache]
    exact h.record
  · intro j other hother
    rw [hphase] at hother
    by_cases hji : j = i
    · rw [hji, Function.update_self] at hother
      cases hother
      exact hours
    · rw [Function.update_of_ne hji] at hother
      exact h.held j other hother
  · intro hnone
    have hself := hnone i
    rw [hphase, Function.update_self] at hself
    cases hself
  · intro j k hj hk
    rw [honly j hj, honly k hk]
  · intro j _
    rw [hcache]
    exact hrecord
  · intro _ _
    rw [hregistered]
    apply h.unregistered hrecord
    intro j
    by_contra hj
    have hclosing := Phase.closing_of_isRegistered (eq_true_of_ne_false hj)
    rw [hidle j] at hclosing
    cases hclosing
  · rw [hregistered]
    exact h.once

/-- The call that moved the file registers its transfer: no other one has. -/
theorem Inv.register {s s' : State ι} (h : Inv sid temp s) {i : ι} {session : UploadSession}
    {path : Path} {sum : Str} {r : UploadTransferResult}
    (hi : s.phase i = .finalized session path sum)
    (hphase : s'.phase = Function.update s.phase i (.registered session r))
    (hcache : s'.world.cache = s.world.cache) (hregistered : s'.registered = i :: s.registered) :
    Inv sid temp s' := by
  have hclosing : ∀ j, (s'.phase j).closing = (s.phase j).closing := by
    rw [hphase]
    apply update_apply_eq
    rw [hi]
    rfl
  have hself : (s.phase i).closing = true := by rw [hi]; rfl
  have hnone : s.registered = [] := by
    apply h.unregistered (h.closing_record i hself)
    intro j
    by_contra hj
    have hj' := eq_true_of_ne_false hj
    rw [h.closing_eq j i (Phase.closing_of_isRegistered hj') hself, hi] at hj'
    cases hj'
  constructor
  · rw [hcache]
    exact h.record
  · intro j other hother
    rw [hphase] at hother
    by_cases hji : j = i
    · rw [hji, Function.update_self] at hother
      apply h.held i
      rw [hi]
      exact hother
    · rw [Function.update_of_ne hji] at hother
      exact h.held j other hother
  · intro hidle
    rw [← hclosing i, hidle i] at hself
    cases hself
  · intro j k hj hk
    exact h.closing_eq j k ((hclosing j).symm.trans hj) ((hclosing k).symm.trans hk)
  · intro j hj
    rw [hcache]
    exact h.closing_record j ((hclosing j).symm.trans hj)
  · intro _ hall
    have hcontra := hall i
    rw [hphase, Function.update_self] at hcontra
    cases hcontra
  · rw [hregistered, hnone]
    exact le_rfl

/-- The record is deleted by the one call that registered. -/
theorem Inv.delete {s s' : State ι} (h : Inv sid temp s) {i : ι}
    {r : Except Error ChunkUploadResult} (hi : (s.phase i).closing = true)
    (hphase : s'.phase = Function.update s.phase i (.finished r))
    (hcache : s'.world.cache sid = none) (hregistered : s'.registered = s.registered) :
    Inv sid temp s' := by
  have hidle : ∀ j, (s'.phase j).closing = false := by
    intro j
    rw [hphase]
    by_cases hji : j = i
    · rw [hji, Function.update_self]
      rfl
    · rw [Function.update_of_ne hji]
      by_contra hj
      exact hji (h.closing_eq j i (eq_true_of_ne_false hj) hi)
  constructor
  · intro e he
    rw [hcache] at he
    cases he
  · intro j other hother
    rw [hphase] at hother
    by_cases hji : j = i
    · rw [hji, Function.update_self] at hother
      cases hother
    · rw [Function.update_of_ne hji] at hother
      exact h.held j other hother
  · exact fun _ hsome => absurd hcache hsome
  · intro j k hj
    rw [hidle j] at hj
    cases hj
  · intro j hj
    rw [hidle j] at hj
    cases hj
  · exact fun hsome => absurd hcache hsome
  · rw [hregistered]
    exact h.once

/-- Every step in turn keeps the invariant, by the phase of the call it is of. -/
theorem Inv.step {s s' : State ι} {l : Step ι} (h : Inv sid temp s)
    (hg : InTurn d sid calls s l) (hstep : (system d sid calls).step s l = some s') :
    Inv sid temp s' := by
  obtain ⟨w, p, hnext, hw, hphase, hbytes, hregistered⟩ := system_step hstep
  have hheld := h.held l.call
  have hopen : ∀ {q : Phase}, s.phase l.call = q → q.closing = false → q.uncounted = 0 →
      (s.phase l.call).closing = false ∧ (s.phase l.call).uncounted = 0 := by
    rintro q rfl hq hq'
    exact ⟨hq, hq'⟩
  unfold InTurn at hg
  cases hold : s.phase l.call with
  | waiting =>
      rw [hold] at hnext hbytes
      obtain ⟨hi, hcounted⟩ := hopen hold rfl rfl
      simp only [next] at hnext
      split at hnext
      · cases hnext
        exact h.idle hphase hi hcounted rfl rfl rfl nofun hw hbytes hregistered
      · rename_i session hopened
        cases hnext
        obtain ⟨e, he, rfl⟩ := openSession_eq_ok hopened
        refine h.idle hphase hi hcounted rfl rfl rfl ?_ hw hbytes hregistered
        rintro session ⟨⟩
        exact h.record e he
  | loaded session =>
      rw [hold] at hnext hbytes hheld hg
      obtain ⟨hi, hcounted⟩ := hopen hold rfl rfl
      have hours := hheld session rfl
      simp only [next, appendToTempFile_eq] at hnext
      cases hfailure : (calls l.call).chunk.failure with
      | some message =>
          rw [hfailure] at hnext
          cases hnext
          have hempty : (calls l.call).chunk.content = [] := by
            rcases hg with hg | hg
            · rw [hg] at hfailure
              cases hfailure
            · exact hg
          refine h.append hphase hi hcounted rfl ?_ nofun (hours.tempPath ▸ hw) hbytes hregistered
          rw [hempty]
          rfl
      | none =>
          rw [hfailure] at hnext
          cases hnext
          refine h.append hphase hi hcounted rfl rfl ?_ (hours.tempPath ▸ hw) hbytes hregistered
          rintro session ⟨⟩
          exact hours
  | appended session n =>
      rw [hold] at hnext hbytes hheld hg
      have hours := hheld session rfl
      have hi : (s.phase l.call).closing = false := by rw [hold]; rfl
      have hours' : Ours sid temp (session.advance n).markCompleted := ⟨hours.id, hours.tempPath⟩
      simp only [next] at hnext
      split at hnext
      · rename_i hlast
        have hreached : session.totalSizeBytes ≤ session.receivedBytes + n := hlast
        simp only [if_pos hreached] at hg
        obtain ⟨hcache, houtcome⟩ := finalize_cases d s.world (session.advance n).markCompleted
        rw [Option.some.inj hnext] at hcache houtcome
        rcases hg with ⟨⟨e, he, -⟩, hidle, hdirectory⟩ | ⟨hgone, hnot⟩
        · have hrecord : s.world.cache sid ≠ none := by
            rw [show s.world.cache sid = some e from he]
            exact Option.some_ne_none e
          rcases houtcome with ⟨-, path, sum, rfl⟩ | ⟨hstuck, -⟩
          · exact h.finalize hours' hrecord hidle hphase (by rw [hw, hcache]) hregistered
          · have hfile := (h.books hidle hrecord).there l.call (by rw [hold]; rfl)
            exact absurd ⟨hours.tempPath ▸ hfile, hdirectory⟩ hstuck
        · rcases houtcome with ⟨hfinal, -⟩ | ⟨-, e, rfl⟩
          · exact absurd hfinal hnot
          · apply h.keep hphase hi rfl hregistered (by rw [hw, hcache]) _ nofun
            · intro hidle hrecord
              rcases hgone with hgone | ⟨j, hj⟩
              · exact absurd hgone hrecord
              · rw [hidle j] at hj
                cases hj
            · rw [hw, hcache]
              exact h.record
      · rename_i hmore
        have hshort : ¬ session.totalSizeBytes ≤ session.receivedBytes + n := hmore
        simp only [if_neg hshort] at hg
        cases hnext
        exact h.save hold hours hg hphase hw hbytes hregistered
  | finalized session path sum =>
      rw [hold] at hnext hbytes hheld hg
      obtain ⟨result, m, haccepted, -⟩ := TransferService.register_of_accepts hg
        session.originalName path session.receivedBytes sum
      simp only [next, registerCompletedFile, haccepted, Option.some.injEq, Prod.mk.injEq] at hnext
      obtain ⟨rfl, rfl⟩ := hnext
      exact h.register hold hphase (by rw [hw]; rfl) hregistered
  | registered session r =>
      rw [hold] at hnext hheld
      have hours := hheld session rfl
      cases hnext
      refine h.delete (by rw [hold]; rfl) hphase ?_ hregistered
      rw [hw, World.withCache_cache, UploadSessionCache.delete, hours.id, Function.update_self]
  | finished r =>
      rw [hold] at hnext
      cases hnext

end Invariant

/-- A session that has just been created, and no file left under its temporary
name by an earlier one. -/
def created (d : Deployment) (w : World) (now : ℤ) (owner : AuthenticatedUser) (originalName : Str)
    (totalSizeBytes : ℤ) (expiresInSeconds : Option ℤ) (folderId : Option Uuid) (id : Uuid) :
    State ι :=
  start (createSession d w now owner originalName totalSizeBytes expiresInSeconds folderId id).2

/-- Any number of calls on a new session, in any order of their steps: a run
whose steps are all in turn loses no count and registers one transfer at most. -/
theorem counted_of_inTurn [Fintype ι] (d : Deployment) (w : World) (now : ℤ)
    (owner : AuthenticatedUser) (originalName : Str) (totalSizeBytes : ℤ)
    (expiresInSeconds : Option ℤ) (folderId : Option Uuid) (id : Uuid) (hid : w.cache id = none)
    (htemp : w.files (tempPath d owner.userId originalName) = none) (calls : ι → Call)
    {ls : List (Step ι)}
    (hturn : (system d id calls).Guarded (InTurn d id calls)
      (created d w now owner originalName totalSizeBytes expiresInSeconds folderId id) ls) :
    (system d id calls).Always (Counted id)
      (created d w now owner originalName totalSizeBytes expiresInSeconds folderId id) ls := by
  have hnew : Inv id (tempPath d owner.userId originalName)
      (created d w now owner originalName totalSizeBytes expiresInSeconds folderId id : State ι) := by
    unfold created createSession
    split
    · refine ⟨?_, nofun, ?_, nofun, nofun, fun _ _ => rfl, Nat.zero_le 1⟩
      · intro e he
        rw [show (start w : State ι).world.cache id = none from hid] at he
        cases he
      · exact fun _ hsome => absurd hid hsome
    · refine ⟨?_, nofun, ?_, nofun, nofun, fun _ _ => rfl, Nat.zero_le 1⟩
      · intro e he
        cases (Function.update_self ..).symm.trans he
        exact ⟨rfl, rfl⟩
      · intro _ _
        refine ⟨?_, ?_, nofun⟩
        · intro e he
          cases (Function.update_self ..).symm.trans he
          simp [start, Phase.uncounted]
        · simp [start, Files.size, htemp]
  have hinv := System.always_of_guarded (fun _ _ _ h hl hstep => Inv.step h hl hstep) hnew hturn
  exact hinv.mono fun _ h => h.counted

/-! ## Two calls -/

namespace Sample

open Uploads.Sample (owner name codes)

def sessionId : Uuid := Uuid.ofNat 1

/-- One byte each. -/
def calls : Bool → Call
  | false => ⟨owner, .ofBytes [1], ⟨Uuid.ofNat 2, codes 2, none⟩⟩
  | true => ⟨owner, .ofBytes [2], ⟨Uuid.ofNat 3, codes 3, none⟩⟩

/-- A new session of `total` bytes. -/
def new (total : ℤ) : State Bool :=
  created .default (World.initial .sqlite) 0 owner name total none none sessionId

/-- The order of the calls that take the next step. -/
def steps (order : List Bool) : List (Step Bool) := order.map (⟨·, 1⟩)

def run (total : ℤ) (order : List Bool) : Option (State Bool) :=
  (system .default sessionId calls).run (new total) (steps order)

/-- The second call starts once the first has saved, and completes the session. -/
def turns : List Bool := [false, false, false, true, true, true, true, true]

theorem inTurn_turns : (system .default sessionId calls).Guarded (InTurn .default sessionId calls)
    (new 2) (steps turns) := by
  decide +kernel

/-- Both calls load the record before one of them saves it. -/
def overlapping : List Bool := [false, true, false, true, false, true]

theorem runs_overlapping : (run 3 overlapping).isSome = true := by decide +kernel

def last : State Bool := (run 3 overlapping).get runs_overlapping

end Sample

theorem counted_of_inTurn_turns :
    (system .default Sample.sessionId Sample.calls).Always (Counted Sample.sessionId)
      (Sample.new 2) (Sample.steps Sample.turns) :=
  counted_of_inTurn .default (World.initial .sqlite) 0 Uploads.Sample.owner Uploads.Sample.name 2
    none none Sample.sessionId rfl rfl Sample.calls Sample.inTurn_turns

/-- Two bytes are in the temporary file, and one of them is counted. -/
theorem update_lost :
    ¬ ∀ (d : Deployment) (w : World) (now : ℤ) (owner : AuthenticatedUser) (originalName : Str)
        (totalSizeBytes : ℤ) (expiresInSeconds : Option ℤ) (folderId : Option Uuid) (id : Uuid),
        w.cache id = none → w.files (tempPath d owner.userId originalName) = none →
        ∀ (ι : Type) [Fintype ι] [DecidableEq ι] (calls : ι → Call) (ls : List (Step ι)),
          (system d id calls).Always (Counted id)
            (created d w now owner originalName totalSizeBytes expiresInSeconds folderId id) ls := by
  intro h
  have hall := h .default (World.initial .sqlite) 0 Uploads.Sample.owner Uploads.Sample.name 3
    none none Sample.sessionId rfl rfl Bool Sample.calls (Sample.steps Sample.overlapping)
  have hlast : Counted Sample.sessionId Sample.last :=
    hall.last (Option.some_get Sample.runs_overlapping).symm
  have hquiet : ∀ i, (Sample.last.phase i).inProgress = false := by decide +kernel
  have hcount : (Sample.last.world.cache Sample.sessionId).map (·.session.receivedBytes) = some 1 := by
    decide +kernel
  have hbytes : Sample.last.appendedBytes = 2 := by decide +kernel
  obtain ⟨e, he, hone⟩ := Option.map_eq_some_iff.mp hcount
  have htwo := (hlast.received hquiet e he).2
  rw [hone, hbytes] at htwo
  cases htwo

end CounterRace

end Jumbox
