import Jumbox.Library.Redraw
import Jumbox.Sessions.ShareCodes
import Jumbox.Uploads.Run

/-!
# Codes that are allocated

Both services draw a code until they like what the table says about it. For a
transfer a code that its owner uses already is as good as a free one; for a
session the last draw is handed over without a look at the table. The unique
constraints then reject the row.
-/

namespace Jumbox

namespace Allocation

open TransferService (createUniqueTransferCode generate)
open SessionService (createSession drawSessionCode generateSessionCode)

/-! ## Transfers -/

/-- No transfer has the code. -/
def Unused (db : Db) (code : Str) : Prop := ∀ m ∈ db.transfers.rows, m.transferCode ≠ some code

/-- The code is found, and it is a transfer of this owner that has it. -/
def UsedBy (db : Db) (ownerId : Uuid) (code : Str) : Prop :=
  ∃ t, db.getTransferByCode code = some t ∧ t.ownerId = ownerId

/-- What `_create_unique_transfer_code` returns is free, and its row is accepted. -/
def TransferCodesFree (db : Db) (ownerId : Uuid) (draws : ℕ → Fin (32 ^ 6)) : Prop :=
  ∀ code, createUniqueTransferCode db ownerId draws 20 0 = .ok code →
    Unused db code ∧ ∀ t : Transfer, t.transferCode = some code → ∃ db', db.addTransfer t = .ok db'

/-- What the loop lets pass. -/
def passes (db : Db) (ownerId : Uuid) (code : Str) : Bool :=
  (db.getTransferByCode code).all (·.ownerId = ownerId)

theorem unused_iff {db : Db} {code : Str} : Unused db code ↔ db.getTransferByCode code = none := by
  simp [Unused, Db.getTransferByCode]

theorem passes_iff {db : Db} {ownerId : Uuid} {code : Str} :
    passes db ownerId code = true ↔ Unused db code ∨ UsedBy db ownerId code := by
  rw [unused_iff]
  unfold passes UsedBy
  cases db.getTransferByCode code with
  | none => simp
  | some t => simp

/-- A code that is found is not free. -/
theorem UsedBy.not_unused {db : Db} {ownerId : Uuid} {code : Str} (h : UsedBy db ownerId code) :
    ¬ Unused db code := by
  obtain ⟨t, ht, -⟩ := h
  rw [unused_iff, ht]
  exact Option.some_ne_none t

theorem createUniqueTransferCode_eq_ok {db : Db} {ownerId : Uuid} {draws : ℕ → Fin (32 ^ 6)}
    {n k : ℕ} {code : Str} :
    createUniqueTransferCode db ownerId draws n k = .ok code ↔
      Redraw.search (passes db ownerId) (fun k => generate (draws k)) n k = some code := by
  induction n generalizing k with
  | zero => simp [createUniqueTransferCode, Redraw.search]
  | succ n ih =>
      unfold createUniqueTransferCode
      dsimp only
      cases hget : db.getTransferByCode (generate (draws k)) with
      | none =>
          have hpasses : passes db ownerId (generate (draws k)) = true := by
            rw [passes, hget]
            rfl
          rw [Redraw.search_succ_of_accept hpasses]
          simp
      | some existing =>
          by_cases howner : existing.ownerId = ownerId
          · -- a code that is in use, by a transfer of the same owner
            have hpasses : passes db ownerId (generate (draws k)) = true := by
              rw [passes, hget]
              exact decide_eq_true howner
            rw [Redraw.search_succ_of_accept hpasses]
            simp [howner]
          · have hpasses : passes db ownerId (generate (draws k)) = false := by
              rw [passes, hget]
              exact decide_eq_false howner
            rw [Redraw.search_succ_of_not_accept hpasses]
            simpa only [if_neg howner] using ih

/-- The constraint on the codes accepts what no row has. -/
theorem addTransfer_of_unused {db : Db} {code : Str} (h : Unused db code) {t : Transfer}
    (ht : t.transferCode = some code) : ∃ db', db.addTransfer t = .ok db' := by
  refine ⟨_, if_neg ?_⟩
  rintro ⟨-, hany⟩
  obtain ⟨m, hm, hcode⟩ := List.any_eq_true.mp hany
  exact h m hm ((of_decide_eq_true hcode).trans ht)

theorem transfer_codes_free_iff (db : Db) (ownerId : Uuid) (draws : ℕ → Fin (32 ^ 6)) :
    TransferCodesFree db ownerId draws ↔
      ∀ k < 20, UsedBy db ownerId (generate (draws k)) →
        ∃ j < k, Unused db (generate (draws j)) := by
  have hfree : TransferCodesFree db ownerId draws ↔
      ∀ code, Redraw.search (passes db ownerId) (fun k => generate (draws k)) 20 0 = some code →
        Unused db code := by
    refine forall_congr' fun code => ?_
    rw [createUniqueTransferCode_eq_ok]
    refine forall_congr' fun _ => ?_
    exact ⟨And.left, fun h => ⟨h, fun t ht => addTransfer_of_unused h ht⟩⟩
  rw [hfree, Redraw.search_forall_iff fun code h => passes_iff.mpr (Or.inl h)]
  refine forall₂_congr fun k _ => ?_
  simp only [Nat.zero_add]
  constructor
  · intro h hused
    exact h (passes_iff.mpr (Or.inr hused)) hused.not_unused
  · intro h hpasses hnot
    exact h ((passes_iff.mp hpasses).resolve_left hnot)

/-! ## Sessions -/

/-- The code that `create_session` hands to the repository. -/
def handedSessionCode (db : Db) (draws : ℕ → Fin 9000 × Fin 9000) : Str :=
  drawSessionCode db draws 5 1 (generateSessionCode (draws 0))

/-- No session has the code. -/
def SessionUnused (db : Db) (code : Str) : Prop := ∀ m ∈ db.sessions.rows, m.sessionCode ≠ code

/-- The code that `create_session` hands over is free, its row is accepted, and only
an expiry that is no date makes the call fail. -/
structure SessionCodeFree (db : Db) (draws : ℕ → Fin 9000 × Fin 9000) : Prop where
  unused : SessionUnused db (handedSessionCode db draws)
  accepted : ∀ s : TransferSession, s.sessionCode = handedSessionCode db draws →
    ∃ db', db.add s = .ok db'
  created : ∀ (w w' : World) (now : ℤ) (owner : AuthenticatedUser) (expiresInSeconds : ℤ)
    (burnAfterDownload : Bool) (id : Uuid) (e : Error), w.db = db →
      createSession w now owner expiresInSeconds burnAfterDownload id draws = (.error e, w') →
        addSeconds now expiresInSeconds = .error e

/-- The lookup of a generated code compares it as it is. -/
theorem getByCode_generated (db : Db) (draw : Fin 9000 × Fin 9000) :
    db.getByCode (generateSessionCode draw) = none ↔
      SessionUnused db (generateSessionCode draw) := by
  have hrenders : SessionService.Form.hyphenated.Renders (generateSessionCode draw)
      (generateSessionCode draw) := by
    refine ⟨[], [], ?_, ?_, ?_⟩
    · simp
    · simp
    · simp [SessionService.Form.render]
  have hsame := (SessionService.normalised_eq_iff ⟨draw, rfl⟩ hrenders).mpr rfl
  simp [Db.getByCode, hsame, SessionUnused]

/-- What ends the loop. -/
def stops (db : Db) (code : Str) : Bool := (db.getByCode code).isNone

theorem stops_iff {db : Db} {draw : Fin 9000 × Fin 9000} :
    stops db (generateSessionCode draw) = true ↔ SessionUnused db (generateSessionCode draw) := by
  rw [stops, Option.isNone_iff_eq_none, getByCode_generated]

theorem drawSessionCode_eq (db : Db) (draws : ℕ → Fin 9000 × Fin 9000) (n k : ℕ) :
    drawSessionCode db draws n (k + 1) (generateSessionCode (draws k)) =
      (Redraw.search (stops db) (fun k => generateSessionCode (draws k)) n k).getD
        (generateSessionCode (draws (k + n))) := by
  induction n generalizing k with
  -- the last code drawn is not looked up
  | zero => rfl
  | succ n ih =>
      unfold drawSessionCode
      cases hget : db.getByCode (generateSessionCode (draws k)) with
      | none =>
          have hstops : stops db (generateSessionCode (draws k)) = true := by rw [stops, hget]; rfl
          rw [Redraw.search_succ_of_accept hstops]
          rfl
      | some existing =>
          have hstops : stops db (generateSessionCode (draws k)) = false := by rw [stops, hget]; rfl
          have hlast : k + (n + 1) = k + 1 + n := by omega
          rw [Redraw.search_succ_of_not_accept hstops, hlast]
          exact ih (k + 1)

/-- What is handed over is free exactly if one of the six codes drawn is. -/
theorem sessionUnused_handed_iff (db : Db) (draws : ℕ → Fin 9000 × Fin 9000) :
    SessionUnused db (handedSessionCode db draws) ↔
      ∃ k < 6, SessionUnused db (generateSessionCode (draws k)) := by
  have heq : handedSessionCode db draws =
      (Redraw.search (stops db) (fun k => generateSessionCode (draws k)) 5 0).getD
        (generateSessionCode (draws (0 + 5))) := drawSessionCode_eq db draws 5 0
  obtain ⟨j, hj⟩ : ∃ j, handedSessionCode db draws = generateSessionCode (draws j) := by
    rw [heq]
    exact Redraw.exists_getD_search_eq 5 0 (0 + 5)
  have hdrawn : stops db ((Redraw.search (stops db) (fun k => generateSessionCode (draws k)) 5
      0).getD (generateSessionCode (draws (0 + 5)))) = true ↔
      ∃ k < 5 + 1, stops db (generateSessionCode (draws (0 + k))) = true :=
    Redraw.accept_getD_search_iff 5 0
  rw [hj, ← stops_iff, ← hj, heq, hdrawn]
  simp only [Nat.zero_add, stops_iff, Nat.reduceAdd]

/-- The constraint on the share codes accepts what no row has. -/
theorem add_of_unused {db : Db} {code : Str} (h : SessionUnused db code) {s : TransferSession}
    (hs : s.sessionCode = code) : ∃ db', db.add s = .ok db' := by
  refine ⟨_, if_neg ?_⟩
  intro hany
  obtain ⟨m, hm, hcode⟩ := List.any_eq_true.mp hany
  exact h m hm ((of_decide_eq_true hcode).trans hs)

/-- A free code leaves the expiry as the only thing that can fail. -/
theorem createSession_of_unused {w w' : World} {now : ℤ} {owner : AuthenticatedUser} {secs : ℤ}
    {burn : Bool} {id : Uuid} {draws : ℕ → Fin 9000 × Fin 9000} {e : Error}
    (h : SessionUnused w.db (handedSessionCode w.db draws))
    (hcreate : createSession w now owner secs burn id draws = (.error e, w')) :
    addSeconds now secs = .error e := by
  have hadd : ∀ s : TransferSession, s.sessionCode = handedSessionCode w.db draws →
      ∀ e, w.db.add s ≠ .error e := by
    intro s hs e he
    obtain ⟨db', hok⟩ := add_of_unused h hs
    rw [hok] at he
    cases he
  unfold createSession at hcreate
  by_cases hsecs : 0 < secs
  · rw [if_pos hsecs] at hcreate
    cases hexpiry : addSeconds now secs with
    | error e' =>
        rw [hexpiry] at hcreate
        cases hcreate
        rfl
    | ok t =>
        rw [hexpiry] at hcreate
        dsimp only [Except.map] at hcreate
        split at hcreate
        · rename_i e' he
          exact absurd he (hadd _ rfl e')
        · cases hcreate
  · rw [if_neg hsecs] at hcreate
    dsimp only at hcreate
    split at hcreate
    · rename_i e' he
      exact absurd he (hadd _ rfl e')
    · cases hcreate

theorem session_code_free_iff (db : Db) (draws : ℕ → Fin 9000 × Fin 9000) :
    SessionCodeFree db draws ↔ ∃ k < 6, SessionUnused db (generateSessionCode (draws k)) := by
  rw [← sessionUnused_handed_iff]
  constructor
  · intro h
    exact h.unused
  · intro h
    refine ⟨h, fun s hs => add_of_unused h hs, ?_⟩
    intro w w' now owner secs burn id e hdb hcreate
    rw [← hdb] at h
    exact createSession_of_unused h hcreate

/-- Codes are free, for both services, exactly if no code of the owner's own is drawn
before a free one, and one of the six codes drawn for a session is free. -/
theorem allocated_codes_free_iff (db : Db) (ownerId : Uuid) (draws : ℕ → Fin (32 ^ 6))
    (sessionDraws : ℕ → Fin 9000 × Fin 9000) :
    (TransferCodesFree db ownerId draws ↔
      ∀ k < 20, UsedBy db ownerId (generate (draws k)) →
        ∃ j < k, Unused db (generate (draws j))) ∧
    (SessionCodeFree db sessionDraws ↔
      ∃ k < 6, SessionUnused db (generateSessionCode (sessionDraws k))) :=
  ⟨transfer_codes_free_iff db ownerId draws, session_code_free_iff db sessionDraws⟩

/-! ## A code drawn twice by its owner -/

namespace Sample

open Uploads.Sample (owner codes upload run)

theorem runs_once : (run [upload 11 [1]]).isSome = true := by decide +kernel

def once : Db := ((run [upload 11 [1]]).get runs_once).world.db

end Sample

theorem own_code_returned :
    ¬ ∀ (db : Db) (ownerId : Uuid) (draws : ℕ → Fin (32 ^ 6))
      (sessionDraws : ℕ → Fin 9000 × Fin 9000),
        TransferCodesFree db ownerId draws ∧ SessionCodeFree db sessionDraws := by
  intro h
  have hcode : createUniqueTransferCode Sample.once Uploads.Sample.owner.userId
      (Uploads.Sample.codes 11) 20 0 = .ok (generate (Uploads.Sample.codes 11 0)) := by
    decide +kernel
  have hused : ∃ m ∈ Sample.once.transfers.rows,
      m.transferCode = some (generate (Uploads.Sample.codes 11 0)) := by decide +kernel
  obtain ⟨m, hm, hsame⟩ := hused
  exact ((h Sample.once Uploads.Sample.owner.userId (Uploads.Sample.codes 11) fun k =>
    (Fin.ofNat 9000 k, 0)).1 _ hcode).1 m hm hsame

end Allocation

end Jumbox
