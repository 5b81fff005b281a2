import Jumbox.Browser.Success

/-!
# Does `uploadFileResumable` recover from what is lost?

It recovers from lost requests only. After a lost response the server is ahead:
the retry is a conflict, and the offset that would resolve it is asked for
without a token, so every attempt fails. Where the lost response was that of the
one chunk of a short file, the server has started again, and the retry has the
file written a second time.
-/

namespace Jumbox

namespace Browser

open SessionService (Reachable OpenFor)

/-- Under the script `f` the function returns, the item is complete with the
file's bytes, and no byte has been written twice. -/
def Recovers (u : Upload) (w : World) (f : ℕ → Exchange) : Prop :=
  ∃ n t, u.system.run (start w) (System.firsts f n) = some t ∧ t.phase = .returned ∧
    Stored u t.world ∧ t.appended.Nodup

/-- Neither of the two exchanges before the chunks is lost, nor the response to a
chunk. -/
def Harmless (s : State) (x : Exchange) : Prop :=
  match s.phase with
  | .init => x.fate = .delivered
  | .probe _ => x.fate = .delivered
  | .patch _ _ _ => x.fate ≠ .responseLost
  | _ => True

/-! ## In step -/

/-- Browser and server are in step: the next chunk is the one the server waits
for, each byte before it has been written once, and the attempts are the losses. -/
def InStep (u : Upload) (w₀ : World) (m : TransferSessionModel) (s : State) : Prop :=
  match s.phase with
  | .init => s = start w₀
  | .probe itemId =>
      itemId = u.itemId ∧ Serves u s.world 0 ∧
        (∃ status, { m with status } ∈ s.world.db.sessions.rows) ∧ s.appended = [] ∧
        ∀ o, s.lost o = 0
  | .patch itemId offset attempt =>
      itemId = u.itemId ∧ Serves u s.world offset ∧
        (∃ status, { m with status } ∈ s.world.db.sessions.rows) ∧
        s.appended = List.range offset ∧ attempt = s.lost offset ∧ ∀ o, offset < o → s.lost o = 0
  | .reprobe _ _ _ => False
  | .returned => s.appended = List.range u.file.length
  | .failed => False

/-- The function can no longer return with every byte written once: the server
waits for another chunk, or has the next one already. -/
def Doomed (u : Upload) (s : State) : Prop :=
  match s.phase with
  | .init => False
  | .probe _ => False
  | .patch itemId offset _ =>
      itemId = u.itemId ∧ offset < u.file.length ∧
        ∃ k, Serves u s.world k ∧ (offset ≠ k ∨ ¬ (offset :: s.appended).Nodup)
  | .reprobe itemId offset _ =>
      itemId = u.itemId ∧ offset < u.file.length ∧
        ∃ k, Serves u s.world k ∧ (offset ≠ k ∨ ¬ (offset :: s.appended).Nodup)
  | .returned => ¬ s.appended.Nodup
  | .failed => True

/-- An upper bound on the exchanges that are left while the two are in step. -/
def remaining (u : Upload) (s : State) : ℕ :=
  match s.phase with
  | .init => (maxRetries + 1) * u.file.length + maxRetries + 2
  | .probe _ => (maxRetries + 1) * u.file.length + maxRetries + 1
  | .patch _ offset attempt =>
      (maxRetries + 1) * (u.file.length - offset) + (maxRetries - attempt)
  | _ => 0

/-- A byte further on is worth more than all the attempts. -/
theorem remaining_lt {length offset next attempt : ℕ} (hnext : offset < next)
    (hle : next ≤ length) :
    (maxRetries + 1) * (length - next) + maxRetries <
      (maxRetries + 1) * (length - offset) + (maxRetries - attempt) := by
  have hmore : length - next + 1 ≤ length - offset := by omega
  calc (maxRetries + 1) * (length - next) + maxRetries
      < (maxRetries + 1) * (length - next + 1) := by rw [Nat.mul_add_one]; omega
    _ ≤ (maxRetries + 1) * (length - offset) := Nat.mul_le_mul_left _ hmore
    _ ≤ (maxRetries + 1) * (length - offset) + (maxRetries - attempt) := Nat.le_add_right _ _

section Lists

theorem range_append_chunk {a b : ℕ} (h : a ≤ b) :
    List.range a ++ List.range' a (b - a) = List.range b := by
  have happend := List.range'_append_1 (s := 0) (m := a) (n := b - a)
  rw [Nat.zero_add, Nat.add_sub_cancel' h] at happend
  rw [List.range_eq_range', List.range_eq_range', happend]

/-- Writing a chunk whose first byte is there already. -/
theorem not_nodup_append_chunk {offset n : ℕ} {appended : List ℕ} (hn : 0 < n)
    (h : ¬ (offset :: appended).Nodup) : ¬ (appended ++ List.range' offset n).Nodup := by
  intro hnodup
  apply h
  obtain ⟨happended, -, hdisjoint⟩ := List.nodup_append.mp hnodup
  refine List.nodup_cons.mpr ⟨?_, happended⟩
  intro hmem
  exact hdisjoint offset hmem offset (List.mem_range'_1.mpr ⟨le_refl _, by omega⟩) rfl

end Lists

variable {u : Upload}

theorem lt_chunkEnd (hchunk : 0 < u.chunkSize) {offset : ℕ} (h : offset < u.file.length) :
    offset < u.chunkEnd offset := lt_min (by omega) h

/-! ## The step of a chunk -/

/-- What has been written once the server has answered a chunk. -/
def extended (u : Upload) (now : ℤ) (offset : ℕ) (w : World) (appended : List ℕ) : List ℕ :=
  if u.appends now u.itemId offset w = true then
    appended ++ List.range' offset (u.chunkBlob offset).length
  else appended

section Patch

variable (u : Upload) (offset attempt : ℕ) (w : World) (appended : List ℕ) (lost : ℕ → ℕ) (now : ℤ)

theorem step_patch_delivered :
    u.step ⟨.patch u.itemId offset attempt, w, appended, lost⟩ ⟨.delivered, now⟩ =
      some ⟨u.afterPatch u.itemId offset attempt (some (u.patchChunk now u.itemId offset w).1),
        (u.patchChunk now u.itemId offset w).2, extended u now offset w appended, lost⟩ := by
  simp [Upload.step, extended]

theorem step_patch_responseLost :
    u.step ⟨.patch u.itemId offset attempt, w, appended, lost⟩ ⟨.responseLost, now⟩ =
      some ⟨Upload.retry u.itemId offset attempt, (u.patchChunk now u.itemId offset w).2,
        extended u now offset w appended, Function.update lost offset (lost offset + 1)⟩ := by
  simp [Upload.step, extended, Upload.afterPatch]

theorem step_patch_requestLost :
    u.step ⟨.patch u.itemId offset attempt, w, appended, lost⟩ ⟨.requestLost, now⟩ =
      some ⟨Upload.retry u.itemId offset attempt, w, appended,
        Function.update lost offset (lost offset + 1)⟩ := by
  simp [Upload.step, Upload.afterPatch]

end Patch

/-! ## Out of step -/

theorem doomed_retry {w : World} {offset attempt k : ℕ} {appended : List ℕ} {lost : ℕ → ℕ}
    (hoffset : offset < u.file.length) (h : Serves u w k)
    (hbad : offset ≠ k ∨ ¬ (offset :: appended).Nodup) :
    Doomed u ⟨Upload.retry u.itemId offset attempt, w, appended, lost⟩ := by
  unfold Upload.retry
  dsimp only
  split
  · trivial
  · exact ⟨rfl, hoffset, k, h, hbad⟩

theorem Doomed.step (hchunk : 0 < u.chunkSize) {s t : State} {x : Exchange} (h : Doomed u s)
    (hstep : u.step s x = some t) : Doomed u t := by
  obtain ⟨fate, now⟩ := x
  obtain ⟨phase, w, appended, lost⟩ := s
  cases phase with
  | init => exact absurd h (fun h => h)
  | probe itemId => exact absurd h (fun h => h)
  | patch itemId offset attempt =>
      obtain ⟨rfl, hoffset, k, hserves, hbad⟩ := h
      have hlength : 0 < (u.chunkBlob offset).length := by
        rw [length_chunkBlob]
        exact Nat.sub_pos_of_lt (lt_chunkEnd hchunk hoffset)
      cases fate with
      | requestLost =>
          rw [step_patch_requestLost] at hstep
          cases hstep
          exact doomed_retry hoffset hserves hbad
      | responseLost =>
          rw [step_patch_responseLost] at hstep
          cases hstep
          rcases patchChunk_cases hserves now offset with ⟨happ, -, hserves'⟩ | ⟨happ, rfl, -⟩
          · rw [extended, if_neg (by simp [happ])]
            exact doomed_retry hoffset hserves' hbad
          · obtain ⟨k', hserves'⟩ := hserves.patchChunk now offset
            have hdup := not_nodup_append_chunk hlength (hbad.resolve_left (absurd rfl))
            rw [extended, if_pos happ]
            exact doomed_retry hoffset hserves' (.inr fun h => hdup h.of_cons)
      | delivered =>
          rw [step_patch_delivered] at hstep
          cases hstep
          rcases patchChunk_cases hserves now offset with ⟨happ, ⟨e, he⟩, hserves'⟩ |
            ⟨happ, rfl, ⟨r, hr, hbytes⟩, hmore, -⟩
          · rw [extended, if_neg (by simp [happ]), he, Upload.afterPatch]
            split
            · exact ⟨rfl, hoffset, k, hserves', hbad⟩
            · exact doomed_retry hoffset hserves' hbad
          · have hdup := not_nodup_append_chunk hlength (hbad.resolve_left (absurd rfl))
            rw [extended, if_pos happ, hr, Upload.afterPatch, Upload.outerLoop, hbytes]
            split
            · rename_i hshort
              exact ⟨rfl, hshort, _, hmore hshort, .inr fun h => hdup h.of_cons⟩
            · exact hdup
  | reprobe itemId offset attempt =>
      obtain ⟨rfl, hoffset, k, hserves, hbad⟩ := h
      have hworld : (u.getOffset now u.itemId w).2 = w := by rw [getOffset_eq]
      cases fate with
      | requestLost =>
          cases hstep
          exact doomed_retry hoffset hserves hbad
      | responseLost =>
          cases hstep
          exact doomed_retry hoffset (hworld ▸ hserves) hbad
      | delivered =>
          rw [step_reprobe_delivered] at hstep
          cases hstep
          exact doomed_retry hoffset hserves hbad
  | returned => cases hstep
  | failed => cases hstep

/-! ## One exchange -/

section Step

variable {s₀ : SessionService.State} (hchunk : 0 < u.chunkSize) {m : TransferSessionModel}
  (hid : m.id = u.sessionId) {user : AuthenticatedUser}
  (hallowed : m.ownerId = user.userId ∨ user.isAdmin = true) {x : Exchange}
  (htoken : u.server.tokens.getCurrentUser u.server.json x.now u.token = .ok user)
  (hlive : m.expiresAt.any (· < x.now) = false)

include hchunk hid hallowed htoken hlive

/-- In step, a response lost to a chunk, or a loss before the chunks, is fatal. -/
theorem InStep.doomed {s t : State} (h : InStep u s₀.world m s) (hharm : ¬ Harmless s x)
    (hstep : u.step s x = some t) : Doomed u t := by
  obtain ⟨fate, now⟩ := x
  obtain ⟨phase, w, appended, lost⟩ := s
  cases phase with
  | init =>
      cases fate with
      | delivered => exact absurd rfl hharm
      | requestLost =>
          cases hstep
          trivial
      | responseLost =>
          cases hstep
          trivial
  | probe itemId =>
      cases fate with
      | delivered => exact absurd rfl hharm
      | requestLost =>
          cases hstep
          trivial
      | responseLost =>
          cases hstep
          trivial
  | patch itemId offset attempt =>
      obtain rfl : fate = .responseLost := not_not.mp hharm
      obtain ⟨rfl, hserves, ⟨status, hrow⟩, -⟩ := h
      rw [step_patch_responseLost] at hstep
      cases hstep
      -- the server has the chunk, and the browser goes on to send it again
      have hlength : 0 < (u.chunkBlob offset).length := by
        rw [length_chunkBlob]
        exact Nat.sub_pos_of_lt (lt_chunkEnd hchunk hserves.short)
      have happ := appends_of_open hserves htoken ⟨hrow, hid, hallowed, hlive⟩
      obtain ⟨k, hserves'⟩ := hserves.patchChunk now offset
      rw [extended, if_pos happ]
      refine doomed_retry hserves.short hserves' (.inr fun h => ?_)
      apply (List.nodup_cons.mp h).1
      exact List.mem_append_right _ (List.mem_range'_1.mpr ⟨le_refl _, by omega⟩)
  | reprobe itemId offset attempt => exact absurd trivial hharm
  | returned => cases hstep
  | failed => cases hstep

variable (hs : Reachable u.server.deployment s₀) (hfresh : u.itemId ∉ s₀.uuids) (hfile : u.file ≠ [])
  (hm : m ∈ s₀.world.db.sessions.rows)

include hs hfresh hfile hm

/-- In step, an exchange that loses nothing but a request keeps the two in step
and leaves less to do, as long as no chunk has used its attempts up. -/
theorem InStep.step {s t : State} (h : InStep u s₀.world m s) (hharmless : Harmless s x)
    (hstep : u.step s x = some t) (hlosses : ∀ o, t.lost o < maxRetries) :
    InStep u s₀.world m t ∧ remaining u t < remaining u s := by
  have hopen : ∀ {w : World}, (∃ status, { m with status } ∈ w.db.sessions.rows) →
      ∃ r, OpenFor w x.now u.sessionId user r := by
    rintro w ⟨status, hrow⟩
    exact ⟨_, hrow, hid, hallowed, hlive⟩
  have hpos : 0 < u.file.length := List.length_pos_of_ne_nil hfile
  have huser := Api.getCurrentUser_of_token htoken
  obtain ⟨fate, now⟩ := x
  obtain ⟨phase, w, appended, lost⟩ := s
  cases phase with
  | init =>
      obtain rfl : fate = .delivered := hharmless
      cases h
      rw [step_init_delivered] at hstep
      obtain ⟨⟨r, hr, hrid⟩, hserves, hsessions⟩ :=
        post_of_open (SessionService.inv_of_reachable hs) hfresh hfile huser
          ⟨hm, hid, hallowed, hlive⟩
      rw [hr, Upload.afterInit, if_neg hpos.ne'] at hstep
      cases hstep
      refine ⟨⟨hrid, hserves, ⟨m.status, hsessions.symm ▸ hm⟩, rfl, fun _ => rfl⟩, ?_⟩
      exact Nat.lt_succ_self _
  | probe itemId =>
      obtain rfl : fate = .delivered := hharmless
      obtain ⟨rfl, hserves, hsession, rfl, hlost⟩ := h
      rw [step_probe_delivered, Upload.outerLoop, if_pos hpos] at hstep
      cases hstep
      refine ⟨⟨rfl, hserves, hsession, rfl, (hlost 0).symm, fun o _ => hlost o⟩, ?_⟩
      exact Nat.lt_succ_self _
  | patch itemId offset attempt =>
      obtain ⟨rfl, hserves, hsession, happended, hattempt, hlost⟩ := h
      obtain rfl : appended = List.range offset := happended
      obtain rfl : attempt = lost offset := hattempt
      cases fate with
      | requestLost =>
          rw [step_patch_requestLost] at hstep
          cases hstep
          have hleft := hlosses offset
          dsimp only at hleft
          rw [Function.update_self] at hleft
          rw [Upload.retry, if_neg (by omega)]
          refine ⟨⟨rfl, hserves, hsession, rfl, ?_, ?_⟩, ?_⟩
          · exact (Function.update_self offset (lost offset + 1) lost).symm
          · intro o ho
            exact (Function.update_of_ne ho.ne' _ _).trans (hlost o ho)
          · simp only [remaining]
            omega
      | responseLost => exact absurd rfl hharmless
      | delivered =>
          rw [step_patch_delivered] at hstep
          cases hstep
          obtain ⟨r, hr⟩ := hopen hsession
          have hlt := lt_chunkEnd hchunk hserves.short
          have hle : u.chunkEnd offset ≤ u.file.length := min_le_right _ _
          have happ := appends_of_open hserves htoken hr
          obtain ⟨status, hrow⟩ := hsession
          have hkept := patchChunk_keeps_session (u := u) hrow now u.itemId offset
          rcases patchChunk_cases hserves now offset with ⟨hnot, -⟩ |
            ⟨-, -, ⟨a, ha, hbytes⟩, hmore, -⟩
          · rw [happ] at hnot
            cases hnot
          · rw [extended, if_pos happ, length_chunkBlob, range_append_chunk hlt.le, ha,
              Upload.afterPatch, Upload.outerLoop, hbytes]
            split
            · rename_i hshort
              refine ⟨⟨rfl, hmore hshort, hkept, rfl, (hlost _ hlt).symm,
                fun o ho => hlost o (hlt.trans ho)⟩, ?_⟩
              exact remaining_lt hlt hle
            · rename_i hend
              constructor
              · show List.range _ = List.range _
                rw [le_antisymm hle (not_lt.mp hend)]
              · exact Nat.zero_lt_of_lt (remaining_lt hlt hle)
  | reprobe itemId offset attempt => exact absurd h (fun h => h)
  | returned => cases hstep
  | failed => cases hstep

end Step

/-! ## A whole script -/

/-- Only a function that has come to its end makes no exchange. -/
theorem step_of_not_returned {w₀ : World} {m : TransferSessionModel} {s : State}
    (h : InStep u w₀ m s) (hnot : s.phase ≠ .returned) (x : Exchange) : ∃ t, u.step s x = some t := by
  obtain ⟨phase, w, appended, lost⟩ := s
  cases phase with
  | init => exact ⟨_, rfl⟩
  | probe itemId => exact ⟨_, rfl⟩
  | patch itemId offset attempt => exact ⟨_, rfl⟩
  | reprobe itemId offset attempt => exact ⟨_, rfl⟩
  | returned => exact absurd rfl hnot
  | failed => exact absurd h (fun h => h)

theorem harmless_of_delivered {s : State} {x : Exchange} (h : x.fate = .delivered) :
    Harmless s x := by
  unfold Harmless
  rw [h]
  cases s.phase with
  | init => rfl
  | probe itemId => rfl
  | patch itemId offset attempt => exact Fate.noConfusion
  | _ => trivial

theorem harmless_of_step_none {s : State} {x : Exchange} (h : u.step s x = none) :
    Harmless s x := by
  obtain ⟨phase, w, appended, lost⟩ := s
  cases phase with
  | init => cases h
  | probe itemId => cases h
  | patch itemId offset attempt => cases h
  | reprobe itemId offset attempt => cases h
  | returned => trivial
  | failed => trivial

/-- Once doomed, the function does not return with every byte written once. -/
theorem not_recovers_of_doomed (hchunk : 0 < u.chunkSize) {w : World} {f : ℕ → Exchange} {k : ℕ}
    {s : State} (hrun : u.system.run (start w) (System.firsts f k) = some s) (h : Doomed u s)
    (hbefore : ∀ n t, n < k → u.system.run (start w) (System.firsts f n) = some t →
      t.phase ≠ .returned) : ¬ Recovers u w f := by
  rintro ⟨n, t, ht, hreturned, -, hnodup⟩
  have hkn : k ≤ n := by
    by_contra hlt
    exact hbefore n t (not_le.mp hlt) ht hreturned
  have hdoomed : ∀ t, u.system.run (start w) (System.firsts f n) = some t → Doomed u t := by
    clear ht
    induction n, hkn using Nat.le_induction with
    | base =>
        intro t ht
        cases hrun.symm.trans ht
        exact h
    | succ n _ ih =>
        intro t ht
        obtain ⟨t', ht', hstep⟩ := System.run_firsts_succ.mp ht
        exact (ih t' ht').step hchunk hstep
  have hend := hdoomed t ht
  rw [Doomed, hreturned] at hend
  exact hend hnodup

section Script

variable {s₀ : SessionService.State} (hs : Reachable u.server.deployment s₀)
  (hfresh : u.itemId ∉ s₀.uuids) (hfile : u.file ≠ []) (hchunk : 0 < u.chunkSize)
  {m : TransferSessionModel} (hm : m ∈ s₀.world.db.sessions.rows) (hid : m.id = u.sessionId)
  {user : AuthenticatedUser} (hallowed : m.ownerId = user.userId ∨ user.isAdmin = true)
  {f : ℕ → Exchange}
  (htoken : ∀ k, u.server.tokens.getCurrentUser u.server.json (f k).now u.token = .ok user)
  (hlive : ∀ k, m.expiresAt.any (· < (f k).now) = false)
  (hlosses : ∀ n t, u.system.run (start s₀.world) (System.firsts f n) = some t →
    ∀ o, t.lost o < maxRetries)

include hs hfresh hfile hchunk hm hid hallowed htoken hlive hlosses

theorem inStep_of_run {n : ℕ} {t : State}
    (hharmless : ∀ k < n, ∀ s, u.system.run (start s₀.world) (System.firsts f k) = some s →
      Harmless s (f k))
    (hrun : u.system.run (start s₀.world) (System.firsts f n) = some t) :
    InStep u s₀.world m t := by
  induction n generalizing t with
  | zero =>
      cases hrun
      exact rfl
  | succ n ih =>
      obtain ⟨s, hs', hstep⟩ := System.run_firsts_succ.mp hrun
      have hin := ih (fun k hk => hharmless k (Nat.lt_succ_of_lt hk)) hs'
      exact (hin.step hchunk hid hallowed (htoken n) (hlive n) hs hfresh hfile hm
        (hharmless n (Nat.lt_succ_self n) s hs') hstep (hlosses _ t hrun)).1

/-- The first harm is fatal. -/
theorem not_recovers_of_harm {k : ℕ} {s : State}
    (hrun : u.system.run (start s₀.world) (System.firsts f k) = some s)
    (hbefore : ∀ n < k, ∀ s, u.system.run (start s₀.world) (System.firsts f n) = some s →
      Harmless s (f n))
    (hharm : ¬ Harmless s (f k)) : ¬ Recovers u s₀.world f := by
  have hin := inStep_of_run hs hfresh hfile hchunk hm hid hallowed htoken hlive hlosses hbefore hrun
  obtain ⟨t, hstep⟩ : ∃ t, u.step s (f k) = some t := by
    by_contra hnone
    exact hharm (harmless_of_step_none (Option.eq_none_iff_forall_ne_some.mpr
      fun t ht => hnone ⟨t, ht⟩))
  have hdoomed := hin.doomed hchunk hid hallowed (htoken k) (hlive k) hharm hstep
  refine not_recovers_of_doomed hchunk (System.run_firsts_succ.mpr ⟨s, hrun, hstep⟩) hdoomed ?_
  intro n t hn ht hreturned
  -- a function that has returned makes no exchange any more
  have hnext : ∀ x, u.step t x = none := by
    intro x
    unfold Upload.step
    rw [hreturned]
  rcases Nat.lt_succ_iff_lt_or_eq.mp hn with hlt | rfl
  · obtain ⟨t', ht'⟩ := System.run_firsts_of_le (Nat.succ_le_of_lt hlt) hrun
    obtain ⟨r, hr, hstep'⟩ := System.run_firsts_succ.mp ht'
    cases ht.symm.trans hr
    cases (hnext _).symm.trans hstep'
  · cases hrun.symm.trans ht
    cases (hnext _).symm.trans hstep

/-- The function recovers exactly if nothing is lost but requests that carry a
chunk. -/
theorem recovers_iff :
    Recovers u s₀.world f ↔
      ∀ n t, u.system.run (start s₀.world) (System.firsts f n) = some t → Harmless t (f n) := by
  constructor
  · intro hrecovers n
    induction n using Nat.strongRecOn with
    | ind n ih =>
        intro t hrun
        by_contra hharm
        exact not_recovers_of_harm hs hfresh hfile hchunk hm hid hallowed htoken hlive hlosses hrun
          ih hharm hrecovers
  · intro hharmless
    obtain ⟨n, t, hrun, hin, hreturned⟩ : ∃ n t,
        u.system.run (start s₀.world) (System.firsts f n) = some t ∧ InStep u s₀.world m t ∧
          t.phase = .returned := by
      refine System.reaches_of_decreasing (I := InStep u s₀.world m) (P := fun t => t.phase = .returned)
        (remaining u) rfl ?_
      intro n s hrun hin hnot
      obtain ⟨t, hstep⟩ := step_of_not_returned hin hnot (f n)
      have ht := System.run_firsts_succ.mpr ⟨s, hrun, hstep⟩
      exact ⟨t, hstep, hin.step hchunk hid hallowed (htoken n) (hlive n) hs hfresh hfile hm
        (hharmless n s hrun) hstep (hlosses _ t ht)⟩
    have hsound := sound_of_run hs hfresh hfile hrun
    rw [Sound, hreturned] at hsound
    rw [InStep, hreturned] at hin
    refine ⟨n, t, hrun, hreturned, hsound, ?_⟩
    rw [show t.appended = _ from hin]
    exact List.nodup_range

end Script

/-! ## One loss -/

theorem lost_step {s t : State} {x : Exchange} (hstep : u.step s x = some t) (o : ℕ) :
    t.lost o ≤ s.lost o + if x.fate ≠ .delivered then 1 else 0 := by
  obtain ⟨phase, w, appended, lost⟩ := s
  cases phase with
  | patch itemId offset attempt =>
      cases hstep
      dsimp only
      by_cases hfate : x.fate = .delivered
      · rw [if_pos hfate]
        exact Nat.le_add_right _ _
      · rw [if_neg hfate, if_pos hfate, Function.update_apply]
        split
        · rename_i heq
          rw [heq]
        · exact Nat.le_add_right _ _
  | returned => cases hstep
  | failed => cases hstep
  | _ =>
      cases hstep
      exact Nat.le_add_right _ _

/-- No chunk has more losses than the script. -/
theorem lost_le_losses {w : World} {ls : List Exchange} {t : State}
    (hrun : u.system.run (start w) ls = some t) (o : ℕ) :
    t.lost o ≤ ls.countP fun x => x.fate ≠ .delivered := by
  induction ls using List.reverseRecOn generalizing t with
  | nil =>
      cases hrun
      exact le_refl _
  | append_singleton ls x ih =>
      obtain ⟨s, hrun, hstep⟩ := System.run_snoc_eq_some.mp hrun
      have hone := lost_step hstep o
      have hbefore := ih hrun
      rw [List.countP_append, List.countP_singleton]
      simp only [decide_eq_true_eq]
      omega

namespace Sample

open SessionService.Sample (created owner)

/-- The third exchange, which is the first with a chunk, has the given fate. -/
def losing (fate : Fate) (n : ℕ) : Exchange := ⟨if n = 2 then fate else .delivered, 2⟩

theorem losses_losing {w : World} {fate : Fate} {n : ℕ} {t : State}
    (hrun : u.system.run (start w) (System.firsts (losing fate) n) = some t) (o : ℕ) :
    t.lost o < maxRetries := by
  have hle := lost_le_losses hrun o
  have hone : (System.firsts (losing fate) n).countP (fun x => x.fate ≠ .delivered) ≤ 1 := by
    calc (System.firsts (losing fate) n).countP (fun x => x.fate ≠ .delivered)
        ≤ (List.range n).count 2 := by
          rw [System.firsts, List.countP_map]
          apply List.countP_mono_left
          intro k _ hk
          by_contra hne
          simp [losing, show k ≠ 2 from fun h => hne (beq_iff_eq.mpr h)] at hk
      _ ≤ 1 := List.nodup_iff_count_le_one.mp List.nodup_range 2
  exact lt_of_le_of_lt (hle.trans hone) (by decide)

/-- At the third exchange a chunk is due. -/
theorem run_losing {json : Json} {token : Str}
    (htoken : ∀ now ≤ 3600000000, HMACTokenService.sampleService.getCurrentUser json now token =
      .ok owner) (fate : Fate) :
    ∃ t, (upload json token).system.run (start created.world) (System.firsts (losing fate) 2) = some t ∧
      t.phase = .patch SessionService.Sample.itemId 0 0 := by
  obtain ⟨m, hm, hid, howner, hlive⟩ := exists_open
  obtain ⟨w, hrun, -⟩ := run_to_first_chunk (u := upload json token)
    (SessionService.Sample.reachable_run SessionService.Sample.runs_created) fresh_created
    (List.cons_ne_nil _ _) (htoken 2 (by decide)) ⟨hm, hid, .inl howner, hlive⟩ 2
  exact ⟨_, hrun, rfl⟩

end Sample

/-- The request of the one chunk is lost. -/
theorem recovers_iff_losing_request :
    ∃ json token, Recovers (Sample.upload json token) SessionService.Sample.created.world
      (Sample.losing .requestLost) := by
  obtain ⟨json, token, htoken⟩ := Sample.exists_token
  obtain ⟨m, hm, hid, howner, hlive⟩ := Sample.exists_open
  have hs : Reachable .default SessionService.Sample.created :=
    SessionService.Sample.reachable_run SessionService.Sample.runs_created
  have hiff := recovers_iff (u := Sample.upload json token) (f := Sample.losing .requestLost) hs
    Sample.fresh_created (List.cons_ne_nil _ _) (by decide : 0 < chunkSize) hm hid (.inl howner)
    (fun _ => htoken 2 (by decide)) (fun _ => hlive) fun _ _ => Sample.losses_losing
  refine ⟨json, token, hiff.mpr fun n t hrun => ?_⟩
  by_cases hn : n = 2
  · subst hn
    obtain ⟨t', hrun', hphase⟩ := Sample.run_losing htoken .requestLost
    cases hrun'.symm.trans hrun
    rw [Harmless, hphase]
    exact Fate.noConfusion
  · exact harmless_of_delivered (if_neg hn)

/-- One response is lost, that to the chunk of a file of two bytes, and they are
written twice. -/
theorem response_lost_not_recovered :
    ¬ ∀ (u : Upload) (s₀ : SessionService.State) (m : TransferSessionModel) (user : AuthenticatedUser)
      (f : ℕ → Exchange), Reachable u.server.deployment s₀ → u.itemId ∉ s₀.uuids → u.file ≠ [] →
      u.chunkSize = chunkSize → m ∈ s₀.world.db.sessions.rows → m.id = u.sessionId →
      m.ownerId = user.userId →
      (∀ k, u.server.tokens.getCurrentUser u.server.json (f k).now u.token = .ok user) →
      (∀ k, m.expiresAt.any (· < (f k).now) = false) →
      (∀ n t, u.system.run (start s₀.world) (System.firsts f n) = some t →
        ∀ o, t.lost o < maxRetries) →
      Recovers u s₀.world f := by
  intro h
  obtain ⟨json, token, htoken⟩ := Sample.exists_token
  obtain ⟨m, hm, hid, howner, hlive⟩ := Sample.exists_open
  have hs : Reachable .default SessionService.Sample.created :=
    SessionService.Sample.reachable_run SessionService.Sample.runs_created
  obtain ⟨t, hrun, hphase⟩ := Sample.run_losing htoken .responseLost
  have hno := not_recovers_of_harm (u := Sample.upload json token) (f := Sample.losing .responseLost)
    hs Sample.fresh_created (List.cons_ne_nil _ _) (by decide : 0 < chunkSize) hm hid (.inl howner)
    (fun _ => htoken 2 (by decide)) (fun _ => hlive) (fun _ _ => Sample.losses_losing) hrun
    (fun n hn _ _ => harmless_of_delivered (if_neg hn.ne))
    (by rw [Harmless, hphase]; exact not_not.mpr rfl)
  exact hno (h (Sample.upload json token) _ m SessionService.Sample.owner
    (Sample.losing .responseLost) hs Sample.fresh_created (List.cons_ne_nil _ _) rfl hm hid howner
    (fun _ => htoken 2 (by decide)) (fun _ => hlive) fun _ _ => Sample.losses_losing)

end Browser

end Jumbox
