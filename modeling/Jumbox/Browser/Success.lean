import Jumbox.Browser.Server
import Jumbox.Sessions.Resumable

/-!
# `uploadFileResumable` returns only when the file is there

Whatever is lost on the way: the outer loop is left only after an answer that
puts the offset at the end of the file, and the server gives that answer only
with the chunk that completes the item.
-/

namespace Jumbox

namespace Browser

open SessionService (Reachable OpenFor)

section Exchange

variable {α : Type} (now : ℤ) (w : World) (serve : World → Api.Reply α)

@[simp] theorem exchange_delivered :
    exchange ⟨.delivered, now⟩ w serve = (some (serve w).1, (serve w).2) := rfl

@[simp] theorem exchange_requestLost : exchange ⟨.requestLost, now⟩ w serve = (none, w) := rfl

@[simp] theorem exchange_responseLost :
    exchange ⟨.responseLost, now⟩ w serve = (none, (serve w).2) := rfl

end Exchange

section Delivered

variable (u : Upload) (w : World) (appended : List ℕ) (lost : ℕ → ℕ) (now : ℤ)

theorem step_init_delivered :
    u.step ⟨.init, w, appended, lost⟩ ⟨.delivered, now⟩ =
      some ⟨u.afterInit (some (u.post now w).1), (u.post now w).2, appended, lost⟩ := rfl

theorem step_probe_delivered (itemId : Uuid) :
    u.step ⟨.probe itemId, w, appended, lost⟩ ⟨.delivered, now⟩ =
      some ⟨u.outerLoop itemId 0, w, appended, lost⟩ := by
  simp only [Upload.step, exchange_delivered, getOffset_eq, Upload.afterProbe]

theorem step_reprobe_delivered (itemId : Uuid) (offset attempt : ℕ) :
    u.step ⟨.reprobe itemId offset attempt, w, appended, lost⟩ ⟨.delivered, now⟩ =
      some ⟨Upload.retry itemId offset attempt, w, appended, lost⟩ := by
  simp only [Upload.step, exchange_delivered, getOffset_eq, Upload.afterReprobe]

end Delivered

/-- What is true of the server at each point of the function. -/
def Sound (u : Upload) (w₀ : World) (s : State) : Prop :=
  match s.phase with
  | .init => s.world = w₀
  | .probe itemId => itemId = u.itemId ∧ ∃ k, Serves u s.world k
  | .patch itemId offset _ =>
      itemId = u.itemId ∧ offset < u.file.length ∧ ∃ k, Serves u s.world k
  | .reprobe itemId offset _ =>
      itemId = u.itemId ∧ offset < u.file.length ∧ ∃ k, Serves u s.world k
  | .returned => Stored u s.world
  | .failed => True

variable {u : Upload}

theorem sound_retry {w₀ w : World} {offset attempt k : ℕ} {appended : List ℕ} {lost : ℕ → ℕ}
    (hoffset : offset < u.file.length) (h : Serves u w k) :
    Sound u w₀ ⟨Upload.retry u.itemId offset attempt, w, appended, lost⟩ := by
  unfold Upload.retry
  dsimp only
  split
  · trivial
  · exact ⟨rfl, hoffset, k, h⟩

theorem sound_afterPatch {w₀ w : World} {offset attempt k : ℕ} {appended : List ℕ} {lost : ℕ → ℕ}
    (hoffset : offset < u.file.length) (h : Serves u w k) (now : ℤ) :
    Sound u w₀ ⟨u.afterPatch u.itemId offset attempt (some (u.patchChunk now u.itemId offset w).1),
      (u.patchChunk now u.itemId offset w).2, appended, lost⟩ := by
  rcases patchChunk_cases h now offset with ⟨-, ⟨e, he⟩, hserves⟩ | ⟨-, -, ⟨r, hr, hbytes⟩, hmore, hlast⟩
  · rw [he, Upload.afterPatch]
    split
    · exact ⟨rfl, hoffset, k, hserves⟩
    · exact sound_retry hoffset hserves
  · rw [hr, Upload.afterPatch, Upload.outerLoop, hbytes]
    split
    · rename_i hshort
      exact ⟨rfl, hshort, _, hmore hshort⟩
    · rename_i hend
      have hle : u.chunkEnd offset ≤ u.file.length := min_le_right _ _
      exact (hlast (by omega)).1

/-- The server goes on serving whether or not the browser hears of it. -/
theorem Serves.patchChunk {w : World} {k : ℕ} (h : Serves u w k) (now : ℤ) (offset : ℕ) :
    ∃ k', Serves u (u.patchChunk now u.itemId offset w).2 k' := by
  rcases patchChunk_cases h now offset with ⟨-, -, hserves⟩ | ⟨-, -, -, hmore, hlast⟩
  · exact ⟨k, hserves⟩
  · have hle : u.chunkEnd offset ≤ u.file.length := min_le_right _ _
    rcases hle.lt_or_eq with hshort | hend
    · exact ⟨_, hmore hshort⟩
    · exact ⟨0, (hlast hend).2⟩

theorem Sound.step {s₀ : SessionService.State} (hs : Reachable u.server.deployment s₀)
    (hfresh : u.itemId ∉ s₀.uuids) (hfile : u.file ≠ []) {s t : State} {x : Exchange}
    (h : Sound u s₀.world s) (hstep : u.step s x = some t) : Sound u s₀.world t := by
  obtain ⟨fate, now⟩ := x
  obtain ⟨phase, w, appended, lost⟩ := s
  have hpos : 0 < u.file.length := List.length_pos_of_ne_nil hfile
  cases phase with
  | init =>
      obtain rfl : w = s₀.world := h
      cases fate with
      | requestLost =>
          cases hstep
          trivial
      | responseLost =>
          cases hstep
          trivial
      | delivered =>
          rw [step_init_delivered] at hstep
          cases hstep
          rcases post_cases (SessionService.inv_of_reachable hs) hfresh hfile now with
            ⟨e, he⟩ | ⟨⟨r, hr, hid⟩, hserves⟩
          · rw [he]
            trivial
          · rw [hr, Upload.afterInit, if_neg hpos.ne']
            exact ⟨hid, 0, hserves⟩
  | probe itemId =>
      obtain ⟨rfl, k, hserves⟩ := h
      cases fate with
      | requestLost =>
          cases hstep
          trivial
      | responseLost =>
          cases hstep
          trivial
      | delivered =>
          rw [step_probe_delivered, Upload.outerLoop, if_pos hpos] at hstep
          cases hstep
          exact ⟨rfl, hpos, k, hserves⟩
  | patch itemId offset attempt =>
      obtain ⟨rfl, hoffset, k, hserves⟩ := h
      cases fate with
      | requestLost =>
          cases hstep
          exact sound_retry hoffset hserves
      | responseLost =>
          cases hstep
          obtain ⟨k', hserves'⟩ := hserves.patchChunk now offset
          exact sound_retry hoffset hserves'
      | delivered =>
          cases hstep
          exact sound_afterPatch hoffset hserves now
  | reprobe itemId offset attempt =>
      obtain ⟨rfl, hoffset, k, hserves⟩ := h
      cases fate with
      | requestLost =>
          cases hstep
          exact sound_retry hoffset hserves
      | responseLost =>
          cases hstep
          have hworld : (u.getOffset now u.itemId w).2 = w := by rw [getOffset_eq]
          exact sound_retry hoffset (hworld ▸ hserves)
      | delivered =>
          rw [step_reprobe_delivered] at hstep
          cases hstep
          exact sound_retry hoffset hserves
  | returned => cases hstep
  | failed => cases hstep

theorem sound_of_run {s₀ : SessionService.State} (hs : Reachable u.server.deployment s₀)
    (hfresh : u.itemId ∉ s₀.uuids) (hfile : u.file ≠ []) {ls : List Exchange} {t : State}
    (hrun : u.system.run (start s₀.world) ls = some t) : Sound u s₀.world t := by
  induction ls using List.reverseRecOn generalizing t with
  | nil =>
      cases hrun
      exact rfl
  | append_singleton ls x ih =>
      obtain ⟨s, hrun, hstep⟩ := System.run_snoc_eq_some.mp hrun
      exact (ih hrun).step hs hfresh hfile hstep

/-- If the function returns, the item is complete with the file's size and bytes,
whatever was lost and how often. -/
theorem returned_only_stored {s₀ : SessionService.State} (hs : Reachable u.server.deployment s₀)
    (hfresh : u.itemId ∉ s₀.uuids) (hfile : u.file ≠ []) {ls : List Exchange} {t : State}
    (hrun : u.system.run (start s₀.world) ls = some t) (hreturned : t.phase = .returned) :
    ∃ i ∈ t.world.db.items.rows, i.id = u.itemId ∧ i.status = .completed ∧
      i.sizeBytes = u.file.length ∧
      ∃ p f, i.storagePath = some p ∧ t.world.files p = some f ∧ f.data = u.file := by
  have hsound := sound_of_run hs hfresh hfile hrun
  rw [Sound, hreturned] at hsound
  exact hsound

/-! ## A file of one chunk -/

section OpenSession

variable {s₀ : SessionService.State} (hs : Reachable u.server.deployment s₀)
  (hfresh : u.itemId ∉ s₀.uuids) (hfile : u.file ≠ []) {now : ℤ} {user : AuthenticatedUser}
  (htoken : u.server.tokens.getCurrentUser u.server.json now u.token = .ok user)
  {m : TransferSessionModel} (hm : OpenFor s₀.world now u.sessionId user m)

include hs hfresh hfile htoken hm

/-- Two exchanges come before the first chunk. -/
theorem run_to_first_chunk (now' : ℤ) :
    ∃ w, u.system.run (start s₀.world) [⟨.delivered, now⟩, ⟨.delivered, now'⟩] =
        some ⟨.patch u.itemId 0 0, w, [], fun _ => 0⟩ ∧
      Serves u w 0 ∧ OpenFor w now u.sessionId user m := by
  have hpos : 0 < u.file.length := List.length_pos_of_ne_nil hfile
  have huser := Api.getCurrentUser_of_token htoken
  obtain ⟨⟨r, hr, hrid⟩, hserves, hsessions⟩ :=
    post_of_open (SessionService.inv_of_reachable hs) hfresh hfile huser hm
  set w := (u.post now s₀.world).2 with hw
  have hinit : u.step (start s₀.world) ⟨.delivered, now⟩ =
      some ⟨.probe u.itemId, w, [], fun _ => 0⟩ := by
    rw [start, step_init_delivered, hr, Upload.afterInit, if_neg hpos.ne', hrid]
  have hprobe : u.step ⟨.probe u.itemId, w, [], fun _ => 0⟩ ⟨.delivered, now'⟩ =
      some ⟨.patch u.itemId 0 0, w, [], fun _ => 0⟩ := by
    rw [step_probe_delivered, Upload.outerLoop, if_pos hpos]
  refine ⟨w, ?_, hserves, { hm with mem := hsessions.symm ▸ hm.mem }⟩
  exact System.run_cons_eq_some.mpr ⟨_, hinit, System.run_cons_eq_some.mpr ⟨_, hprobe, rfl⟩⟩

/-- A short file is up after three exchanges, if none of them is lost. -/
theorem returns_of_one_chunk (hone : u.file.length ≤ u.chunkSize) :
    ∃ t, u.system.run (start s₀.world) (List.replicate 3 ⟨.delivered, now⟩) = some t ∧
      t.phase = .returned := by
  obtain ⟨w, hrun, hserves, hopen⟩ :=
    run_to_first_chunk hs hfresh hfile htoken hm now
  have hpatch : ∃ t, u.step ⟨.patch u.itemId 0 0, w, [], fun _ => 0⟩ ⟨.delivered, now⟩ = some t ∧
      t.phase = .returned := by
    refine ⟨_, rfl, ?_⟩
    have happ := appends_of_open hserves htoken hopen
    have hend : u.chunkEnd 0 = u.file.length := by
      rw [Upload.chunkEnd, Nat.zero_add, min_eq_right hone]
    rcases patchChunk_cases hserves now 0 with ⟨hnot, -⟩ | ⟨-, -, ⟨a, ha, hbytes⟩, -⟩
    · rw [happ] at hnot
      cases hnot
    · show u.afterPatch u.itemId 0 0 (some (u.patchChunk now u.itemId 0 w).1) = .returned
      rw [ha, Upload.afterPatch, Upload.outerLoop, hbytes, hend, if_neg (lt_irrefl _)]
  obtain ⟨t, hstep, hreturned⟩ := hpatch
  refine ⟨t, ?_, hreturned⟩
  show u.system.run (start s₀.world)
    ([⟨.delivered, now⟩, ⟨.delivered, now⟩] ++ [⟨.delivered, now⟩]) = some t
  exact System.run_snoc_eq_some.mpr ⟨_, hrun, hstep⟩

end OpenSession

namespace Sample

open SessionService.Sample (owner sessionId itemId created)
open HMACTokenService (sampleService jsonWriting roundTrips_jsonWriting createAccessToken_isOk
  parse_of_create)

/-- The dump of the payload of a token that the owner gets at time zero. -/
def text : Bytes :=
  Str.encodeUtf8 ("\x7b\"admin\":false,\"email\":\"owner@example.org\",\"exp\":3600,\"iat\":0".toList ++
    ",\"iss\":\"Jumbox\",\"sub\":\"".toList ++ owner.userId.str ++ "\"\x7d".toList)

theorem text_ne_zero : ∃ b ∈ text, b ≠ 0 :=
  ⟨0x7b, List.mem_flatMap.mpr ⟨'\x7b', by simp, by decide⟩, by decide⟩

/-- The token is good for its hour. -/
theorem exists_token : ∃ json token, ∀ now ≤ 3600000000,
    sampleService.getCurrentUser json now token = .ok owner := by
  set json := jsonWriting (sampleService.payload 0 3600000000 owner) text
  obtain ⟨token, hcreate⟩ : ∃ token, sampleService.createAccessToken json 0 owner = .ok token :=
    createAccessToken_isOk owner (show addSeconds _ _ = .ok 3600000000 by decide)
  refine ⟨json, token, fun now hnow => ?_⟩
  have hparse := parse_of_create (roundTrips_jsonWriting _ text_ne_zero) hcreate now
  have hexp : fromTimestamp (timestamp (0 + 60 * sampleService.expiresMinutes * 1000000)) =
      .ok 3600000000 := by decide +kernel
  rw [hexp] at hparse
  dsimp only at hparse
  rw [if_neg (not_lt.mpr hnow)] at hparse
  rw [HMACTokenService.getCurrentUser, hparse]

/-- Two bytes for a session that has been created. -/
def upload (json : Json) (token : Str) : Upload where
  server := ⟨.default, sampleService, json⟩
  file := [1, 2]
  name := "notes.txt".toList
  sessionId := sessionId
  token := token
  itemId := itemId

theorem fresh_created : itemId ∉ created.uuids := by decide +kernel

theorem exists_open : ∃ m ∈ created.world.db.sessions.rows, m.id = sessionId ∧
    m.ownerId = owner.userId ∧ m.expiresAt.any (· < 2) = false := by decide +kernel

end Sample

theorem returned_only_stored_delivered :
    ∃ json token t, (Sample.upload json token).system.run
        (start SessionService.Sample.created.world) (List.replicate 3 ⟨.delivered, 2⟩) = some t ∧
      ∃ i ∈ t.world.db.items.rows, i.id = SessionService.Sample.itemId ∧ i.status = .completed ∧
        i.sizeBytes = 2 ∧
        ∃ p f, i.storagePath = some p ∧ t.world.files p = some f ∧ f.data = [1, 2] := by
  obtain ⟨json, token, htoken⟩ := Sample.exists_token
  obtain ⟨m, hm, hid, howner, hlive⟩ := Sample.exists_open
  have hs := SessionService.Sample.reachable_run SessionService.Sample.runs_created
  have hone : 2 ≤ chunkSize := by decide
  obtain ⟨t, hrun, hreturned⟩ := returns_of_one_chunk (u := Sample.upload json token) hs
    Sample.fresh_created (List.cons_ne_nil _ _) (htoken 2 (by decide))
    ⟨hm, hid, .inl howner, hlive⟩ hone
  exact ⟨json, token, t, hrun, returned_only_stored (u := Sample.upload json token) hs
    Sample.fresh_created (List.cons_ne_nil _ _) hrun hreturned⟩

end Browser

end Jumbox
