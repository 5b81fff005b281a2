import Jumbox.Security.RateLimiter

/-!
# `Retry-After`

A refused request is told to wait until the oldest of the recorded ones leaves
the window, in whole seconds. They are cut off, not rounded up, so a client that
waits as it is told may come up to a second early.
-/

namespace Jumbox

namespace RateLimiter

open Rounding (truncate truncate_of_nonneg)
open SlidingWindow (recent)

variable {T : Type} [Field T] [LinearOrder T] [FloorRing T]

/-- The recorded times that a request at `now` meets under its key. -/
def pending (limits : Limits) (events : List (Event T)) (c p : Str) (limit : Limit) (now : T) :
    List T :=
  recent (limit.window : T) now (after limits events (key c p))

/-- How long until the oldest of `times` leaves the window. -/
def untilOldest (limit : Limit) (now : T) (times : List T) : T :=
  (limit.window : T) - (now - times.headD now)

/-- How long until fewer than `max_reqs` of `times` are in the window. -/
def untilFree (limit : Limit) (now : T) (times : List T) : T :=
  (limit.window : T) - (now - times.getD (times.length - limit.maxReqs.toNat) now)

/-- The key a request counts under. -/
def Event.key (limits : Limits) (e : Event T) : Option Str :=
  (e.counted limits).map fun k => RateLimiter.key k.1 k.2.1

section Rejected

variable {limits : Limits} {c p : Str} {limit : Limit} {events : List (Event T)} {e : Event T}

/-- What a refusal says of the recorded times. -/
theorem dispatch_rejected (h : e.counted limits = some (c, p, limit)) {status : ℕ} {detail : Str}
    {r : ℤ} (hrejected : (dispatch limits (after limits events) e.now e.request).1 =
      .jsonResponse status detail r) :
    limit.maxReqs ≤ (pending limits events c p limit e.now).length ∧
      pending limits events c p limit e.now ≠ [] ∧
      r = max 1 (truncate (untilOldest limit e.now (pending limits events c p limit e.now))) := by
  obtain ⟨entry, hrule, heq⟩ := Option.map_eq_some_iff.mp h
  cases heq
  rw [dispatch_eq_of_rule hrule, dispatchLoop, if_pos (Limits.rule_prefix hrule)] at hrejected
  unfold pending
  dsimp only at hrejected
  split at hrejected
  · rename_i hfull
    refine ⟨hfull, ?_⟩
    cases hpending : recent (limit.window : T) e.now
        (after limits events (key e.request.clientIp p)) with
    | nil =>
        rw [hpending] at hrejected
        cases hrejected
    | cons first rest =>
        rw [hpending] at hrejected
        cases hrejected
        exact ⟨List.cons_ne_nil _ _, rfl⟩
  · cases hrejected

/-- A request leaves what is recorded under a key, or is recorded there itself. -/
theorem after_snoc_apply (limits : Limits) (events : List (Event T)) (e : Event T) (k : Str) :
    after limits (events ++ [e]) k = after limits events k ∨
      e.key limits = some k ∧ ∃ limit : Limit, after limits (events ++ [e]) k =
        recent (limit.window : T) e.now (after limits events k) ++ [e.now] := by
  cases hcounted : e.counted limits with
  | none => exact Or.inl (by rw [after_snoc_unlimited hcounted])
  | some entry =>
      obtain ⟨c, p, limit⟩ := entry
      rw [after_snoc_limited hcounted]
      by_cases hlet : LetThrough limits events e
      · rw [if_pos hlet]
        by_cases hkey : k = key c p
        · subst hkey
          refine Or.inr ⟨?_, limit, Function.update_self ..⟩
          rw [Event.key, hcounted]
          rfl
        · exact Or.inl (Function.update_of_ne hkey _ _)
      · rw [if_neg hlet]
        exact Or.inl rfl

/-- Requests under other keys leave what is recorded under this one. -/
theorem after_of_other_keys {k : Str} {mid : List (Event T)}
    (h : ∀ m ∈ mid, m.key limits ≠ some k) :
    after limits (events ++ mid) k = after limits events k := by
  induction mid using List.reverseRecOn with
  | nil => rw [List.append_nil]
  | append_singleton mid m ih =>
      have hih := ih fun m hm => h m (List.mem_append_left _ hm)
      rw [← List.append_assoc]
      rcases after_snoc_apply limits (events ++ mid) m k with hsame | ⟨hkey, -⟩
      · exact hsame.trans hih
      · exact absurd hkey (h m (List.mem_append_right _ List.mem_cons_self))

/-- Every recorded time is that of a request. -/
theorem mem_of_mem_after {k : Str} {t : T} (h : t ∈ after limits events k) :
    ∃ e ∈ events, e.now = t := by
  induction events using List.reverseRecOn with
  | nil => cases h
  | append_singleton events e ih =>
      have hbefore : t ∈ after limits events k → ∃ e' ∈ events ++ [e], e'.now = t := by
        intro ht
        obtain ⟨e', he', hnow⟩ := ih ht
        exact ⟨e', List.mem_append_left _ he', hnow⟩
      rcases after_snoc_apply limits events e k with hsame | ⟨-, limit, hpushed⟩
      · exact hbefore (hsame ▸ h)
      · rw [hpushed] at h
        rcases List.mem_append.mp h with h | h
        · exact hbefore (List.mem_of_mem_filter h)
        · exact ⟨e, List.mem_append_right _ List.mem_cons_self, (List.mem_singleton.mp h).symm⟩

/-- Times are recorded in order. -/
theorem after_sorted (hsorted : events.Pairwise (·.now ≤ ·.now)) (k : Str) :
    (after limits events k).Pairwise (· ≤ ·) := by
  induction events using List.reverseRecOn with
  | nil => exact List.Pairwise.nil
  | append_singleton events e ih =>
      rw [List.pairwise_append] at hsorted
      have hih := ih hsorted.1
      rcases after_snoc_apply limits events e k with hsame | ⟨-, limit, hpushed⟩
      · rw [hsame]
        exact hih
      · rw [hpushed]
        refine List.pairwise_append.mpr ⟨hih.sublist List.filter_sublist,
          List.pairwise_singleton _ _, ?_⟩
        intro t ht u hu
        obtain ⟨e', he', rfl⟩ := mem_of_mem_after (List.mem_of_mem_filter ht)
        rw [List.mem_singleton.mp hu]
        exact hsorted.2.2 e' he' e List.mem_cons_self

variable [IsStrictOrderedRing T]

/-- The next request under a key that nothing else has touched is let through once
enough of the recorded times have left the window. -/
theorem letThrough_after_rejected (hpos : 1 ≤ limit.maxReqs)
    (hsorted : (events ++ [e]).Pairwise (·.now ≤ ·.now))
    (h : e.counted limits = some (c, p, limit)) (hrejected : ¬ LetThrough limits events e)
    {mid : List (Event T)} (hmid : ∀ m ∈ mid, m.key limits ≠ some (key c p)) {e' : Event T}
    (h' : e'.counted limits = some (c, p, limit)) (hnow : e.now ≤ e'.now) :
    LetThrough limits (events ++ e :: mid) e' ↔
      e.now + untilFree limit e.now (pending limits events c p limit e.now) ≤ e'.now := by
  have hafter : after limits (events ++ e :: mid) (key c p) = after limits events (key c p) := by
    have hother : after limits (events ++ [e] ++ mid) (key c p) =
        after limits (events ++ [e]) (key c p) := after_of_other_keys hmid
    rw [List.append_assoc] at hother
    exact hother.trans (congrFun (after_rejected hrejected) _)
  have hfull := mt (letThrough_iff h).mpr hrejected
  have hlater : recent (limit.window : T) e'.now (after limits events (key c p)) =
      recent (limit.window : T) e'.now (pending limits events c p limit e.now) :=
    (SlidingWindow.recent_recent hnow _).symm
  have hordered : (pending limits events c p limit e.now).Pairwise (· ≤ ·) :=
    (after_sorted (List.pairwise_append.mp hsorted).1 _).sublist List.filter_sublist
  have hindex := SlidingWindow.length_recent_lt_iff (limit.window : T) e'.now hordered
    (n := limit.maxReqs.toNat) (by omega) (by unfold pending; omega)
  have hbound : (pending limits events c p limit e.now).length - limit.maxReqs.toNat <
      (pending limits events c p limit e.now).length := by
    unfold pending
    omega
  rw [List.getD_eq_getElem _ _ hbound] at hindex
  rw [letThrough_iff h', hafter, hlater, untilFree, List.getD_eq_getElem _ _ hbound]
  have hcast : ((recent (limit.window : T) e'.now
      (pending limits events c p limit e.now)).length : ℤ) < limit.maxReqs ↔
      (recent (limit.window : T) e'.now
        (pending limits events c p limit e.now)).length < limit.maxReqs.toNat := by
    omega
  rw [hcast, hindex]
  constructor
  · intro hle
    linarith
  · intro hle
    linarith

/-- The oldest recorded time leaves the window first. -/
theorem untilOldest_le_untilFree (hpos : 1 ≤ limit.maxReqs)
    (hsorted : events.Pairwise (·.now ≤ ·.now))
    (hfull : limit.maxReqs ≤ (pending limits events c p limit e.now).length) :
    untilOldest limit e.now (pending limits events c p limit e.now) ≤
      untilFree limit e.now (pending limits events c p limit e.now) := by
  have hordered : (pending limits events c p limit e.now).Pairwise (· ≤ ·) :=
    (after_sorted hsorted _).sublist List.filter_sublist
  unfold untilOldest untilFree
  generalize pending limits events c p limit e.now = times at hfull hordered
  cases times with
  | nil => exact le_refl _
  | cons first rest =>
      rw [List.length_cons] at hfull
      have hbound : (first :: rest).length - limit.maxReqs.toNat < (first :: rest).length := by
        rw [List.length_cons]
        omega
      have hle : first ≤ (first :: rest).getD ((first :: rest).length - limit.maxReqs.toNat)
          e.now := by
        rw [List.getD_eq_getElem _ _ hbound]
        rcases List.mem_cons.mp (List.getElem_mem hbound) with heq | hmem
        · exact le_of_eq heq.symm
        · exact (List.pairwise_cons.mp hordered).1 _ hmem
      exact sub_le_sub_left (sub_le_sub_left hle _) _

/-- The advertised wait is long enough if the real one is at most a second, or is
the one it was computed from and whole. -/
theorem wait_le_retryAfter_iff {oldest free : T} (hpos : 0 < oldest) (hle : oldest ≤ free) :
    free ≤ ((max 1 (truncate oldest) : ℤ) : T) ↔
      free ≤ 1 ∨ (free = oldest ∧ ∃ n : ℤ, oldest = n) := by
  rw [truncate_of_nonneg (le_of_lt hpos), Int.cast_max, Int.cast_one, le_max_iff]
  constructor
  · rintro (hone | hfloor)
    · exact Or.inl hone
    · have hback : (⌊oldest⌋ : T) ≤ oldest := Int.floor_le oldest
      have heq : free = oldest := le_antisymm (hfloor.trans hback) hle
      exact Or.inr ⟨heq, ⌊oldest⌋, le_antisymm (hle.trans hfloor) hback⟩
  · rintro (hone | ⟨rfl, n, hn⟩)
    · exact Or.inl hone
    · refine Or.inr (le_of_eq ?_)
      rw [hn, Int.floor_intCast]

theorem untilOldest_pos (hne : pending limits events c p limit e.now ≠ []) :
    0 < untilOldest limit e.now (pending limits events c p limit e.now) := by
  unfold untilOldest
  cases hpending : pending limits events c p limit e.now with
  | nil => exact absurd hpending hne
  | cons first rest =>
      have hmem : first ∈ pending limits events c p limit e.now := hpending ▸ List.mem_cons_self
      have hrecent : e.now - first < (limit.window : T) :=
        of_decide_eq_true (List.mem_filter.mp hmem).2
      exact sub_pos.mpr hrecent

omit [IsStrictOrderedRing T] in
theorem letThrough_sublist (limits : Limits) (events : List (Event T)) :
    (letThrough limits events).Sublist events := by
  induction events using List.reverseRecOn with
  | nil => exact List.Sublist.slnil
  | append_singleton events e ih =>
      rw [letThrough_snoc]
      split
      · exact ih.append (List.Sublist.refl _)
      · rw [List.append_nil]
        exact ih.trans (List.sublist_append_left _ _)

/-- Where no two keys of the table can meet, no more times are recorded than the
limit allows. -/
theorem length_pending_le (hseparate : limits.Separate)
    (hsorted : (events ++ [e]).Pairwise (·.now ≤ ·.now))
    (h : e.counted limits = some (c, p, limit)) :
    (pending limits events c p limit e.now).length ≤ limit.maxReqs.toNat := by
  obtain ⟨entry, hrule, heq⟩ := Option.map_eq_some_iff.mp h
  cases heq
  obtain ⟨hevents, -, hbefore⟩ := List.pairwise_append.mp hsorted
  have hlast : ∀ e' ∈ events, e'.now ≤ e.now := fun e' he' => hbefore e' he' e List.mem_cons_self
  have htracks := tracks_letThrough (c := e.request.clientIp) hseparate hevents
    (Limits.rule_mem hrule) hlast
  have hpaced : SlidingWindow.Paced (limit.window : T) limit.maxReqs.toNat
      (timesOf limits (e.request.clientIp, p, limit) (letThrough limits events)) :=
    paced_letThrough hseparate hevents
  have hletThrough := letThrough_sublist limits events
  rw [pending, htracks e.now (le_refl _)]
  apply hpaced.length_recent_le
  · exact List.pairwise_map.mpr (hevents.sublist (List.filter_sublist.trans hletThrough))
  · intro t ht
    obtain ⟨e', he', rfl⟩ := List.mem_map.mp ht
    exact hlast e' (hletThrough.subset (List.mem_of_mem_filter he'))

end Rejected

/-- A client that waits as it is told is let through exactly if it has to wait a
second at most, or until the oldest recorded request is out and a whole number
of seconds. The oldest is the one to wait for where no two keys can meet. -/
theorem retry_after_sufficient_iff [IsStrictOrderedRing T] {limits : Limits} {c p : Str}
    {limit : Limit} (hpos : 1 ≤ limit.maxReqs) {events : List (Event T)} {e : Event T}
    (hsorted : (events ++ [e]).Pairwise (·.now ≤ ·.now))
    (h : e.counted limits = some (c, p, limit)) {status : ℕ} {detail : Str} {r : ℤ}
    (hrejected : (dispatch limits (after limits events) e.now e.request).1 =
      .jsonResponse status detail r) :
    ((∀ (mid : List (Event T)) (e' : Event T), (∀ m ∈ mid, m.key limits ≠ some (key c p)) →
        e'.counted limits = some (c, p, limit) → e.now + (r : T) ≤ e'.now →
        LetThrough limits (events ++ e :: mid) e') ↔
      untilFree limit e.now (pending limits events c p limit e.now) ≤ 1 ∨
        (untilFree limit e.now (pending limits events c p limit e.now) =
            untilOldest limit e.now (pending limits events c p limit e.now) ∧
          ∃ n : ℤ, untilOldest limit e.now (pending limits events c p limit e.now) = n)) ∧
    (limits.Separate → untilFree limit e.now (pending limits events c p limit e.now) =
      untilOldest limit e.now (pending limits events c p limit e.now)) := by
  obtain ⟨hfull, hne, hr⟩ := dispatch_rejected h hrejected
  have hnot : ¬ LetThrough limits events e := by
    unfold LetThrough
    rw [hrejected]
    rintro ⟨⟩
  have hone : (1 : T) ≤ r := by
    rw [hr]
    exact_mod_cast le_max_left _ _
  constructor
  · rw [← wait_le_retryAfter_iff (untilOldest_pos hne)
      (untilOldest_le_untilFree hpos (List.pairwise_append.mp hsorted).1 hfull), ← hr]
    constructor
    · intro hall
      have hlater : e.now ≤ e.now + r := by linarith
      have hnext := hall [] { e with now := e.now + r } (List.forall_mem_nil _) h (le_refl _)
      have hiff : LetThrough limits (events ++ [e]) { e with now := e.now + (r : T) } ↔
          e.now + untilFree limit e.now (pending limits events c p limit e.now) ≤ e.now + r :=
        letThrough_after_rejected hpos hsorted h hnot (List.forall_mem_nil _) h hlater
      exact (add_le_add_iff_left e.now).mp (hiff.mp hnext)
    · intro hle mid e' hmid h' hnow
      have hlater : e.now ≤ e'.now := by linarith
      rw [letThrough_after_rejected hpos hsorted h hnot hmid h' hlater]
      linarith
  · intro hseparate
    have hlength := length_pending_le hseparate hsorted h
    have hzero : (pending limits events c p limit e.now).length - limit.maxReqs.toNat = 0 := by
      omega
    rw [untilFree, untilOldest, hzero]
    cases pending limits events c p limit e.now with
    | nil => rfl
    | cons first rest => rfl

namespace Sample

/-- An attempt to log in. -/
def login (now : ℚ) : Event ℚ := ⟨now, ⟨none, some "10.0.0.2".toList, "/api/v1/auth/login".toList⟩⟩

/-- Ten of them at once. -/
def tenLogins : List (Event ℚ) := List.replicate 10 (login 0)

end Sample

/-- Refused after ten seconds, let through after fifty more. -/
theorem retry_after_sufficient_iff_whole :
    LetThrough .default (Sample.tenLogins ++ [Sample.login 10]) (Sample.login 60) := by
  have hrejected : (dispatch .default (after .default Sample.tenLogins) (Sample.login 10).now
      (Sample.login 10).request).1 =
        .jsonResponse 429 "Too many requests. Please try again later.".toList 50 := by
    decide +kernel
  have hcounted : ∀ now, (Sample.login now).counted .default =
      some ("10.0.0.2".toList, "/api/v1/auth/login".toList, ⟨10, 60⟩) := fun _ => rfl
  have hiff := (retry_after_sufficient_iff (by decide) (by decide +kernel) (hcounted 10) hrejected).1
  refine hiff.mpr ?_ [] (Sample.login 60) (List.forall_mem_nil _) (hcounted 60) (by decide +kernel)
  refine Or.inr ⟨by decide +kernel, 50, by decide +kernel⟩

/-- Refused after half a second, and again fifty-nine seconds later, as told. -/
theorem retry_after_too_short :
    ¬ ∀ (limits : Limits) (c p : Str) (limit : Limit) (events : List (Event ℚ)) (e e' : Event ℚ)
      (status : ℕ) (detail : Str) (r : ℤ), 1 ≤ limit.maxReqs →
      (events ++ [e]).Pairwise (·.now ≤ ·.now) → e.counted limits = some (c, p, limit) →
      (dispatch limits (after limits events) e.now e.request).1 = .jsonResponse status detail r →
      e'.counted limits = some (c, p, limit) → e.now + (r : ℚ) ≤ e'.now →
      LetThrough limits (events ++ [e]) e' := by
  intro h
  have hrejected : (dispatch .default (after .default Sample.tenLogins) (Sample.login (1 / 2)).now
      (Sample.login (1 / 2)).request).1 =
        .jsonResponse 429 "Too many requests. Please try again later.".toList 59 := by
    decide +kernel
  have hagain := h .default "10.0.0.2".toList "/api/v1/auth/login".toList ⟨10, 60⟩ Sample.tenLogins
    (Sample.login (1 / 2)) (Sample.login (119 / 2)) _ _ _ (by decide) (by decide +kernel)
    (by decide) hrejected (by decide) (by decide +kernel)
  have hrefused : ¬ LetThrough .default (Sample.tenLogins ++ [Sample.login (1 / 2)])
      (Sample.login (119 / 2)) := by
    decide +kernel
  exact hrefused hagain

end RateLimiter

end Jumbox
