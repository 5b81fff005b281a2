import Jumbox.Domain.Basic
import Jumbox.Library.Rounding
import Jumbox.Library.SlidingWindow
import Mathlib.Algebra.Order.Floor.Ring
import Mathlib.Data.List.Nodup
import Mathlib.Data.Rat.Floor

/-!
# `RateLimiterMiddleware`

The middleware of `infrastructure/security/rate_limiter.py`, at any ordered field
of clock readings in seconds. A run is a list of requests, each at its own
reading; what the middleware lets through is the list of requests handed on to
`call_next`.
-/

namespace Jumbox

namespace RateLimiter

open Rounding (truncate)
open SlidingWindow (recent)

/-- `max_reqs` and `window`. -/
structure Limit where
  maxReqs : ℤ
  window : ℤ
deriving DecidableEq

/-- The dictionary `limits`, in its insertion order. -/
structure Limits where
  items : List (Str × Limit)
  nodup : (items.map Prod.fst).Nodup

/-- The table used where none is given. -/
def Limits.default : Limits where
  items := [
    ("/api/v1/auth/login".toList, ⟨10, 60⟩),
    ("/api/v1/auth/register".toList, ⟨10, 60⟩),
    ("/api/v1/sessions/code".toList, ⟨30, 60⟩)]
  nodup := by decide

/-- What `dispatch` reads of a request. -/
structure Request where
  forwardedFor : Option Str
  clientHost : Option Str
  path : Str
deriving DecidableEq

/-- `client_ip` -/
def Request.clientIp (r : Request) : Str :=
  let forwarded := r.forwardedFor.getD []
  if forwarded ≠ [] then Str.strip (forwarded.takeWhile (· ≠ ','))
  else r.clientHost.getD "127.0.0.1".toList

/-- `f"{client_ip}:{route_prefix}"` -/
def key (clientIp routePrefix : Str) : Str := clientIp ++ ':' :: routePrefix

inductive Answer where
  | callNext
  | jsonResponse (statusCode : ℕ) (detail : Str) (retryAfter : ℤ)
  | raised (e : Error)
deriving DecidableEq

variable {T : Type} [Field T] [LinearOrder T] [FloorRing T]

/-- `_history` -/
abbrev History (T : Type) := Str → List T

/-- The loop over `limits.items()`. -/
def dispatchLoop (history : History T) (now : T) (clientIp path : Str) :
    List (Str × Limit) → Answer × History T
  | [] => (.callNext, history)
  | (routePrefix, limit) :: rest =>
      if routePrefix <+: path then
        let key := key clientIp routePrefix
        let timestamps := recent (limit.window : T) now (history key)
        if limit.maxReqs ≤ timestamps.length then
          match timestamps with
          | [] => (.raised ⟨.indexError, "list index out of range".toList⟩, history)
          | first :: _ =>
              let retryAfter := truncate ((limit.window : T) - (now - first))
              (.jsonResponse 429 "Too many requests. Please try again later.".toList
                (max 1 retryAfter), history)
        else (.callNext, Function.update history key (timestamps ++ [now]))
      else dispatchLoop history now clientIp path rest

def dispatch (limits : Limits) (history : History T) (now : T) (request : Request) :
    Answer × History T :=
  dispatchLoop history now request.clientIp request.path limits.items

/-! ## Runs -/

structure Event (T : Type) where
  now : T
  request : Request

/-- The history once the requests have been handled. -/
def after (limits : Limits) (events : List (Event T)) : History T :=
  events.foldl (fun history e => (dispatch limits history e.now e.request).2) fun _ => []

/-- The request is handed on, after the others. -/
def LetThrough (limits : Limits) (events : List (Event T)) (e : Event T) : Prop :=
  (dispatch limits (after limits events) e.now e.request).1 = .callNext

instance (limits : Limits) (events : List (Event T)) (e : Event T) :
    Decidable (LetThrough limits events e) :=
  inferInstanceAs (Decidable (_ = _))

/-- The requests of a run that are handed on. -/
def letThrough (limits : Limits) (events : List (Event T)) : List (Event T) :=
  (events.foldl (fun s e => (s.1 ++ [e], if LetThrough limits s.1 e then s.2 ++ [e] else s.2))
    (([], []) : List (Event T) × List (Event T))).2

/-- The first entry of the table whose prefix the path has. -/
def Limits.rule (limits : Limits) (path : Str) : Option (Str × Limit) :=
  limits.items.find? fun entry => entry.1 <+: path

/-- The client and the entry of the table that a request counts for. -/
def Event.counted (limits : Limits) (e : Event T) : Option (Str × Str × Limit) :=
  (limits.rule e.request.path).map (e.request.clientIp, ·)

/-- The times at which requests of the run counted for `k`. -/
def timesOf (limits : Limits) (k : Str × Str × Limit) (events : List (Event T)) : List T :=
  (events.filter fun e => e.counted limits = some k).map (·.now)

/-! ## One request -/

theorem dispatch_of_unlimited {limits : Limits} {history : History T} {now : T} {r : Request}
    (h : limits.rule r.path = none) : dispatch limits history now r = (.callNext, history) := by
  have hnone := List.find?_eq_none.mp h
  unfold dispatch
  generalize limits.items = items at hnone
  induction items with
  | nil => rfl
  | cons entry rest ih =>
      have hhead : ¬ entry.1 <+: r.path := by simpa using hnone entry List.mem_cons_self
      rw [dispatchLoop, if_neg hhead]
      exact ih fun e he => hnone e (List.mem_cons_of_mem _ he)

/-- The loop gets no further than the entry that a request counts for. -/
theorem dispatch_eq_of_rule {limits : Limits} {r : Request} {p : Str} {limit : Limit}
    (h : limits.rule r.path = some (p, limit)) (history : History T) (now : T) :
    dispatch limits history now r = dispatchLoop history now r.clientIp r.path [(p, limit)] := by
  unfold Limits.rule at h
  unfold dispatch
  generalize limits.items = items at h
  induction items with
  | nil => cases h
  | cons entry rest ih =>
      rw [List.find?_cons] at h
      split at h
      · rename_i hhead
        cases h
        have hhead : p <+: r.path := of_decide_eq_true hhead
        rw [dispatchLoop, dispatchLoop, if_pos hhead, if_pos hhead]
      · rename_i hhead
        rw [dispatchLoop, if_neg (of_decide_eq_false hhead)]
        exact ih h

theorem Limits.rule_prefix {limits : Limits} {path p : Str} {limit : Limit}
    (h : limits.rule path = some (p, limit)) : p <+: path := by
  unfold Limits.rule at h
  have hfound := List.find?_some h
  exact of_decide_eq_true hfound

/-- The entry that a request counts for decides on it alone. -/
theorem dispatch_of_limited {limits : Limits} {r : Request} {p : Str} {limit : Limit}
    (h : limits.rule r.path = some (p, limit)) (history : History T) (now : T) :
    let timestamps := recent (limit.window : T) now (history (key r.clientIp p))
    if limit.maxReqs ≤ timestamps.length then
      (dispatch limits history now r).1 ≠ .callNext ∧ (dispatch limits history now r).2 = history
    else
      dispatch limits history now r =
        (.callNext, Function.update history (key r.clientIp p) (timestamps ++ [now])) := by
  intro timestamps
  rw [dispatch_eq_of_rule h, dispatchLoop, if_pos (Limits.rule_prefix h)]
  by_cases hfull : limit.maxReqs ≤ timestamps.length
  · rw [if_pos hfull, if_pos hfull]
    cases recent (limit.window : T) now (history (key r.clientIp p)) with
    | nil => exact ⟨nofun, rfl⟩
    | cons first _ => exact ⟨nofun, rfl⟩
  · rw [if_neg hfull, if_neg hfull]

/-! ## Keys -/

/-- No prefix of the table ends with a colon and another one. -/
def Limits.Separate (limits : Limits) : Prop :=
  ∀ p ∈ limits.items.map Prod.fst, ∀ q ∈ limits.items.map Prod.fst, p ≠ q → ¬ ':' :: q <:+ p

instance (limits : Limits) : Decidable limits.Separate :=
  inferInstanceAs (Decidable (∀ p ∈ limits.items.map Prod.fst, ∀ q ∈ limits.items.map Prod.fst,
    p ≠ q → ¬ ':' :: q <:+ p))

theorem Limits.Separate.key_inj {limits : Limits} (h : limits.Separate) {c c' p p' : Str}
    (hp : p ∈ limits.items.map Prod.fst) (hp' : p' ∈ limits.items.map Prod.fst)
    (hkey : key c p = key c' p') : c = c' ∧ p = p' := by
  have hsuffix : ∀ {c c' p p' : Str}, p ∈ limits.items.map Prod.fst →
      p' ∈ limits.items.map Prod.fst → key c p = key c' p' → p'.length ≤ p.length → p = p' := by
    intro c c' p p' hp hp' hkey hle
    by_contra hne
    apply h p hp p' hp' hne
    have hq : ':' :: p' <:+ key c p := ⟨c', hkey.symm⟩
    have hlen : (':' :: p').length ≤ p.length ∨ p.length = p'.length := by
      rw [List.length_cons]
      omega
    rcases hlen with hlen | hlen
    · exact List.suffix_of_suffix_length_le hq ⟨c ++ [':'], by simp [key]⟩ hlen
    · have htail := List.append_inj_right' hkey (by simp [hlen])
      exact absurd (List.cons.inj htail).2 hne
  have hprefix : p = p' := by
    rcases Nat.le_total p'.length p.length with hle | hle
    · exact hsuffix hp hp' hkey hle
    · exact (hsuffix hp' hp hkey.symm hle).symm
  subst hprefix
  exact ⟨List.append_cancel_right hkey, rfl⟩

theorem Limits.rule_mem {limits : Limits} {path p : Str} {limit : Limit}
    (h : limits.rule path = some (p, limit)) : (p, limit) ∈ limits.items :=
  List.mem_of_find?_eq_some h

theorem Limits.eq_of_mem {limits : Limits} {p : Str} {l l' : Limit} (h : (p, l) ∈ limits.items)
    (h' : (p, l') ∈ limits.items) : l = l' := by
  have hinj := List.inj_on_of_nodup_map limits.nodup h h' rfl
  exact congrArg Prod.snd hinj

/-! ## Runs -/

theorem after_snoc (limits : Limits) (events : List (Event T)) (e : Event T) :
    after limits (events ++ [e]) = (dispatch limits (after limits events) e.now e.request).2 := by
  rw [after, List.foldl_append]
  rfl

theorem letThrough_snoc (limits : Limits) (events : List (Event T)) (e : Event T) :
    letThrough limits (events ++ [e]) =
      letThrough limits events ++ if LetThrough limits events e then [e] else [] := by
  have hfold : ∀ events : List (Event T), events.foldl (fun s e =>
      (s.1 ++ [e], if LetThrough limits s.1 e then s.2 ++ [e] else s.2)) ([], []) =
        (events, letThrough limits events) := by
    intro events
    refine Prod.ext ?_ rfl
    induction events using List.reverseRecOn with
    | nil => rfl
    | append_singleton events e ih =>
        rw [List.foldl_append, List.foldl_cons, List.foldl_nil]
        exact congrArg (· ++ [e]) ih
  rw [letThrough, List.foldl_append, hfold]
  change (if LetThrough limits events e then letThrough limits events ++ [e]
    else letThrough limits events) = _
  split
  · rfl
  · rw [List.append_nil]

omit [Field T] [LinearOrder T] [FloorRing T] in
theorem timesOf_append (limits : Limits) (k : Str × Str × Limit) (l m : List (Event T)) :
    timesOf limits k (l ++ m) = timesOf limits k l ++ timesOf limits k m := by
  simp [timesOf]

section Counting

variable {limits : Limits} {c p : Str} {limit : Limit}

/-- The decision on a limited request, from the stored history. -/
theorem letThrough_iff {events : List (Event T)} {e : Event T}
    (h : e.counted limits = some (c, p, limit)) :
    LetThrough limits events e ↔
      (recent (limit.window : T) e.now (after limits events (key c p))).length < limit.maxReqs := by
  obtain ⟨entry, hrule, heq⟩ := Option.map_eq_some_iff.mp h
  cases heq
  have hdispatch := dispatch_of_limited hrule (after limits events) e.now
  unfold LetThrough
  dsimp only at hdispatch
  split at hdispatch
  · rename_i hfull
    exact iff_of_false hdispatch.1 (not_lt.mpr hfull)
  · rename_i hfull
    rw [hdispatch]
    exact iff_of_true rfl (not_le.mp hfull)

/-- What a limited request leaves in the history. -/
theorem after_snoc_limited {events : List (Event T)} {e : Event T}
    (h : e.counted limits = some (c, p, limit)) :
    after limits (events ++ [e]) =
      if LetThrough limits events e then
        Function.update (after limits events) (key c p)
          (recent (limit.window : T) e.now (after limits events (key c p)) ++ [e.now])
      else after limits events := by
  have hiff : LetThrough limits events e ↔ _ := letThrough_iff h
  obtain ⟨entry, hrule, heq⟩ := Option.map_eq_some_iff.mp h
  cases heq
  have hdispatch := dispatch_of_limited hrule (after limits events) e.now
  dsimp only at hdispatch
  rw [after_snoc]
  split at hdispatch
  · rename_i hfull
    rw [if_neg (mt hiff.mp (not_lt.mpr hfull)), hdispatch.2]
  · rename_i hfull
    rw [if_pos (hiff.mpr (not_le.mp hfull)), hdispatch]

theorem after_snoc_unlimited {events : List (Event T)} {e : Event T}
    (h : e.counted limits = none) : after limits (events ++ [e]) = after limits events := by
  rw [after_snoc, dispatch_of_unlimited (Option.map_eq_none_iff.mp h)]

theorem timesOf_letThrough_snoc (limits : Limits) (k : Str × Str × Limit)
    (events : List (Event T)) (e : Event T) :
    timesOf limits k (letThrough limits (events ++ [e])) =
      timesOf limits k (letThrough limits events) ++
        if LetThrough limits events e ∧ e.counted limits = some k then [e.now] else [] := by
  rw [letThrough_snoc, timesOf_append]
  congr 1
  by_cases hlet : LetThrough limits events e
  · by_cases hk : e.counted limits = some k
    · simp [timesOf, hlet, hk]
    · simp [timesOf, hlet, hk]
  · simp [timesOf, hlet]

variable [IsStrictOrderedRing T]

/-- The stored history of every client and prefix gives the same recent requests
as all those that were handed on. The induction is on the run; what one request
forgets is too old for every later one. -/
theorem tracks_letThrough (hseparate : limits.Separate) {events : List (Event T)}
    (hsorted : events.Pairwise (·.now ≤ ·.now)) (hmem : (p, limit) ∈ limits.items) {last : T}
    (hlast : ∀ e ∈ events, e.now ≤ last) :
    SlidingWindow.Tracks (limit.window : T) last (after limits events (key c p))
      (timesOf limits (c, p, limit) (letThrough limits events)) := by
  induction events using List.reverseRecOn generalizing last with
  | nil => exact fun _ _ => rfl
  | append_singleton events e ih =>
      rw [List.pairwise_append] at hsorted
      have hbefore : ∀ e' ∈ events, e'.now ≤ e.now :=
        fun e' he' => hsorted.2.2 e' he' e List.mem_cons_self
      have hnow : e.now ≤ last := hlast e (List.mem_append_right _ List.mem_cons_self)
      have htracks := ih hsorted.1 hbefore
      rw [timesOf_letThrough_snoc]
      cases hcounted : e.counted limits with
      | none =>
          rw [after_snoc_unlimited hcounted, if_neg (not_and_of_not_right _ nofun), List.append_nil]
          exact htracks.later hnow
      | some k =>
          obtain ⟨c', p', limit'⟩ := k
          rw [after_snoc_limited hcounted]
          by_cases hlet : LetThrough limits events e
          · rw [if_pos hlet]
            by_cases hsame : (c', p', limit') = (c, p, limit)
            · cases hsame
              rw [if_pos ⟨hlet, rfl⟩, Function.update_self]
              exact htracks.push.later hnow
            · -- another client or another prefix, so another key
              have hne : key c p ≠ key c' p' := by
                intro hkey
                obtain ⟨entry, hrule, heq⟩ := Option.map_eq_some_iff.mp hcounted
                cases heq
                have hmem' := Limits.rule_mem hrule
                obtain ⟨rfl, rfl⟩ := hseparate.key_inj (List.mem_map_of_mem hmem)
                  (List.mem_map_of_mem hmem') hkey
                exact hsame (by rw [Limits.eq_of_mem hmem hmem'])
              rw [if_neg fun h => hsame (Option.some.inj h.2), List.append_nil,
                Function.update_of_ne hne]
              exact htracks.later hnow
          · rw [if_neg hlet, if_neg (not_and_of_not_left _ hlet), List.append_nil]
            exact htracks.later hnow

/-- The decision on a limited request, from what has been handed on. -/
theorem letThrough_iff_recent (hseparate : limits.Separate) {events : List (Event T)} {e : Event T}
    (hsorted : (events ++ [e]).Pairwise (·.now ≤ ·.now))
    (h : e.counted limits = some (c, p, limit)) :
    LetThrough limits events e ↔
      (recent (limit.window : T) e.now
        (timesOf limits (c, p, limit) (letThrough limits events))).length < limit.maxReqs := by
  rw [List.pairwise_append] at hsorted
  obtain ⟨entry, hrule, heq⟩ := Option.map_eq_some_iff.mp h
  cases heq
  have htracks := tracks_letThrough (c := e.request.clientIp) hseparate hsorted.1
    (Limits.rule_mem hrule) fun e' he' => hsorted.2.2 e' he' e List.mem_cons_self
  rw [letThrough_iff h, htracks e.now (le_refl _)]

/-- What is handed on for one client and one prefix is paced by the limit. -/
theorem paced_letThrough (hseparate : limits.Separate) {events : List (Event T)}
    (hsorted : events.Pairwise (·.now ≤ ·.now)) :
    SlidingWindow.Paced (limit.window : T) limit.maxReqs.toNat
      (timesOf limits (c, p, limit) (letThrough limits events)) := by
  induction events using List.reverseRecOn with
  | nil => exact .nil _ _
  | append_singleton events e ih =>
      have hpaced := ih (List.pairwise_append.mp hsorted).1
      rw [timesOf_letThrough_snoc]
      by_cases hlet : LetThrough limits events e ∧ e.counted limits = some (c, p, limit)
      · rw [if_pos hlet]
        apply hpaced.snoc
        have hlt := (letThrough_iff_recent hseparate hsorted hlet.2).mp hlet.1
        omega
      · rw [if_neg hlet, List.append_nil]
        exact hpaced

/-- Requests of other clients and other prefixes change nothing that is handed on
for this one. -/
theorem timesOf_letThrough_filter (hseparate : limits.Separate) {events : List (Event T)}
    (hsorted : events.Pairwise (·.now ≤ ·.now)) :
    timesOf limits (c, p, limit) (letThrough limits
        (events.filter fun e => e.counted limits = some (c, p, limit))) =
      timesOf limits (c, p, limit) (letThrough limits events) := by
  induction events using List.reverseRecOn with
  | nil => rfl
  | append_singleton events e ih =>
      have hih := ih (List.pairwise_append.mp hsorted).1
      rw [List.filter_append, timesOf_letThrough_snoc]
      by_cases hk : e.counted limits = some (c, p, limit)
      · have hsame : LetThrough limits
            (events.filter fun e => e.counted limits = some (c, p, limit)) e ↔
              LetThrough limits events e := by
          have hfiltered : ((events.filter fun e => e.counted limits = some (c, p, limit)) ++
              [e]).Pairwise (·.now ≤ ·.now) :=
            hsorted.sublist (List.filter_sublist.append (List.Sublist.refl _))
          rw [letThrough_iff_recent hseparate hfiltered hk, hih,
            letThrough_iff_recent hseparate hsorted hk]
        rw [List.filter_cons_of_pos (by simpa using hk), List.filter_nil, timesOf_letThrough_snoc,
          hih]
        simp only [hsame]
      · rw [List.filter_cons_of_neg (by simpa using hk), List.filter_nil, List.append_nil, hih,
          if_neg (not_and_of_not_right _ hk), List.append_nil]

end Counting

/-- How many of the requests counted for `k` at a time that `P` holds of. -/
def count (limits : Limits) (k : Str × Str × Limit) (events : List (Event T)) (P : T → Prop)
    [DecidablePred P] : ℕ :=
  (events.filter fun e => e.counted limits = some k ∧ P e.now).length

omit [Field T] [LinearOrder T] [FloorRing T] in
theorem count_eq_length (limits : Limits) (k : Str × Str × Limit) (events : List (Event T))
    (P : T → Prop) [DecidablePred P] :
    count limits k events P = ((timesOf limits k events).filter fun t => P t).length := by
  rw [count, timesOf, List.filter_map, List.length_map, List.filter_filter]
  congr 1
  apply List.filter_congr
  intro e _
  simp [and_comm]

/-- A rejected request leaves no trace. -/
theorem after_rejected {limits : Limits} {events : List (Event T)} {e : Event T}
    (h : ¬ LetThrough limits events e) : after limits (events ++ [e]) = after limits events := by
  cases hcounted : e.counted limits with
  | none => exact after_snoc_unlimited hcounted
  | some k => rw [after_snoc_limited hcounted, if_neg h]

/-- The limiter is an exact sliding window: a request is let through exactly when
fewer than `max_reqs` of its client and prefix were within the window; no
interval of the window's length holds more; rejected requests and requests of
other clients and prefixes have no influence. -/
theorem exact_sliding_window [IsStrictOrderedRing T] (limits : Limits)
    (hpos : ∀ entry ∈ limits.items, 1 ≤ entry.2.maxReqs) (hseparate : limits.Separate)
    {events : List (Event T)} (hsorted : events.Pairwise (·.now ≤ ·.now)) :
    (∀ (pre : List (Event T)) (e : Event T) (post : List (Event T)) (c p : Str) (limit : Limit),
      events = pre ++ e :: post → e.counted limits = some (c, p, limit) →
      (LetThrough limits pre e ↔
        count limits (c, p, limit) (letThrough limits pre)
          (fun t => e.now - t < (limit.window : T)) < limit.maxReqs) ∧
      (LetThrough limits pre e ↔
        LetThrough limits (pre.filter fun e' => e'.counted limits = some (c, p, limit)) e)) ∧
    (∀ (c p : Str) (limit : Limit) (start : T), (p, limit) ∈ limits.items →
      count limits (c, p, limit) (letThrough limits events)
        (fun t => start ≤ t ∧ t < start + (limit.window : T)) ≤ limit.maxReqs) ∧
    (∀ (pre : List (Event T)) (e : Event T) (mid : List (Event T)) (e' : Event T)
      (post : List (Event T)), events = pre ++ e :: (mid ++ e' :: post) →
      ¬ LetThrough limits pre e →
      (LetThrough limits (pre ++ e :: mid) e' ↔ LetThrough limits (pre ++ mid) e')) := by
  refine ⟨?_, ?_, ?_⟩
  · rintro pre e post c p limit rfl hk
    have hpre : (pre ++ [e]).Pairwise (·.now ≤ ·.now) := by
      rw [List.append_cons] at hsorted
      exact (List.pairwise_append.mp hsorted).1
    have hiff := letThrough_iff_recent hseparate hpre hk
    refine ⟨?_, ?_⟩
    · rw [hiff, count_eq_length]
      rfl
    · have hfiltered : ((pre.filter fun e => e.counted limits = some (c, p, limit)) ++
          [e]).Pairwise (·.now ≤ ·.now) :=
        hpre.sublist (List.filter_sublist.append (List.Sublist.refl _))
      rw [hiff, letThrough_iff_recent hseparate hfiltered hk,
        timesOf_letThrough_filter hseparate (List.pairwise_append.mp hpre).1]
  · intro c p limit start hmem
    have hpaced : SlidingWindow.Paced (limit.window : T) limit.maxReqs.toNat
        (timesOf limits (c, p, limit) (letThrough limits events)) := paced_letThrough hseparate hsorted
    have hbound := hpaced.bound start
    have hone : 1 ≤ limit.maxReqs := hpos (p, limit) hmem
    rw [count_eq_length]
    omega
  · rintro pre e mid e' post rfl hrejected
    have hafter : after limits (pre ++ e :: mid) = after limits (pre ++ mid) := by
      have hpre := after_rejected hrejected
      unfold after at hpre ⊢
      rw [List.append_cons, List.foldl_append, hpre, List.foldl_append]
    unfold LetThrough
    rw [hafter]

/-- Ten attempts to log in within a second, and one a minute later. -/
def Sample.logins : List (Event ℚ) :=
  (List.range 10).map (fun n => ⟨n / 10, ⟨none, some "10.0.0.2".toList,
      "/api/v1/auth/login".toList⟩⟩) ++
    [⟨60, ⟨none, some "10.0.0.2".toList, "/api/v1/auth/login".toList⟩⟩]

theorem exact_sliding_window_logins :
    count Limits.default ("10.0.0.2".toList, "/api/v1/auth/login".toList, ⟨10, 60⟩)
      (letThrough .default Sample.logins) (fun t => (1 / 2 : ℚ) ≤ t ∧ t < 1 / 2 + 60) ≤ 10 := by
  have hsorted : Sample.logins.Pairwise (·.now ≤ ·.now) := by decide +kernel
  have hbound := (exact_sliding_window .default (by decide) (by decide) hsorted).2.1
    "10.0.0.2".toList "/api/v1/auth/login".toList ⟨10, 60⟩ (1 / 2) (by decide)
  exact Int.ofNat_le.mp hbound

/-! ## Share codes -/

/-- `GET /api/v1/sessions/{session_code}` -/
def sessionPath (sessionCode : Str) : Str := "/api/v1/sessions/".toList ++ sessionCode

/-- `GET /api/v1/sessions/{session_code}/items/{item_id}/download` -/
def downloadPath (sessionCode itemId : Str) : Str :=
  sessionPath sessionCode ++ "/items/".toList ++ itemId ++ "/download".toList

/-- `min_length=4, max_length=20, pattern=r"^[A-Za-z0-9-]+$"` -/
def AdmittedCode (sessionCode : Str) : Prop :=
  4 ≤ sessionCode.length ∧ sessionCode.length ≤ 20 ∧
    ∀ c ∈ sessionCode, c.isAlphanum = true ∨ c = '-'

instance (sessionCode : Str) : Decidable (AdmittedCode sessionCode) :=
  haveI : Decidable (∀ c ∈ sessionCode, c.isAlphanum = true ∨ c = '-') := List.decidableBAll _ _
  inferInstanceAs (Decidable (_ ∧ _ ∧ _))

/-- A request to one of the two public routes, for a code that `K` holds of. -/
def ShareRequest (K : Str → Prop) (r : Request) : Prop :=
  ∃ code, K code ∧ AdmittedCode code ∧
    (r.path = sessionPath code ∨ ∃ itemId, r.path = downloadPath code itemId)

/-- The requests of a run let through in the 60 seconds from `start`. -/
def inMinute (events : List (Event T)) (start : T) : List (Event T) :=
  (letThrough .default events).filter fun e => start ≤ e.now ∧ e.now < start + 60

/-- One client's requests for codes that `K` holds of, in any order of codes. -/
def ShareRun (K : Str → Prop) (client : Str) (events : List (Event T)) : Prop :=
  events.Pairwise (·.now ≤ ·.now) ∧
    ∀ e ∈ events, e.request.clientIp = client ∧ ShareRequest K e.request

theorem rule_of_code {path : Str} (h : "/api/v1/sessions/code".toList <+: path) :
    Limits.default.rule path = some ("/api/v1/sessions/code".toList, ⟨30, 60⟩) := by
  obtain ⟨rest, rfl⟩ := h
  rfl

/-- Texts that differ after a common beginning. -/
theorem not_prefix_of_ne {a b : Char} (h : a ≠ b) (l m n : Str) :
    ¬ l ++ a :: m <+: l ++ b :: n := by
  rw [List.prefix_append_right_inj, List.cons_prefix_cons]
  exact fun hpre => h hpre.1

theorem rule_of_not_code {code rest : Str} (h : ¬ "code".toList <+: code) (hlen : 4 ≤ code.length) :
    Limits.default.rule (sessionPath code ++ rest) = none := by
  have hpath : sessionPath code ++ rest = "/api/v1/sessions/".toList ++ (code ++ rest) :=
    List.append_assoc _ _ _
  have hshared : ¬ "/api/v1/sessions/code".toList <+: sessionPath code ++ rest := by
    intro hpre
    rw [hpath] at hpre
    have hcode : "code".toList <+: code ++ rest :=
      (List.prefix_append_right_inj "/api/v1/sessions/".toList).mp hpre
    exact h (List.prefix_of_prefix_length_le hcode (List.prefix_append _ _) hlen)
  have hauth : ∀ tail : Str, ¬ "/api/v1/".toList ++ 'a' :: tail <+: sessionPath code ++ rest := by
    intro tail
    rw [hpath]
    exact not_prefix_of_ne (b := 's') (by decide) "/api/v1/".toList tail
      ("essions/".toList ++ (code ++ rest))
  apply List.find?_eq_none.mpr
  intro entry hentry
  simp only [Limits.default, List.mem_cons, List.not_mem_nil, or_false] at hentry
  rcases hentry with rfl | rfl | rfl
  · exact decide_eq_false (hauth "uth/login".toList) ▸ Bool.false_ne_true
  · exact decide_eq_false (hauth "uth/register".toList) ▸ Bool.false_ne_true
  · exact decide_eq_false hshared ▸ Bool.false_ne_true

/-- Where no request counts, all are handed on. -/
theorem letThrough_of_unlimited {limits : Limits} {events : List (Event T)}
    (h : ∀ e ∈ events, e.counted limits = none) : letThrough limits events = events := by
  induction events using List.reverseRecOn with
  | nil => rfl
  | append_singleton events e ih =>
      have hnone := h e (List.mem_append_right _ List.mem_cons_self)
      have hlet : LetThrough limits events e := by
        unfold LetThrough
        rw [dispatch_of_unlimited (Option.map_eq_none_iff.mp hnone)]
      rw [letThrough_snoc, if_pos hlet, ih fun e he => h e (List.mem_append_left _ he)]

theorem mem_of_mem_letThrough {limits : Limits} {events : List (Event T)} {e : Event T}
    (h : e ∈ letThrough limits events) : e ∈ events := by
  induction events using List.reverseRecOn with
  | nil => cases h
  | append_singleton events e' ih =>
      rw [letThrough_snoc] at h
      rcases List.mem_append.mp h with h | h
      · exact List.mem_append_left _ (ih h)
      · split at h
        · exact List.mem_append_right _ h
        · cases h

theorem ShareRequest.path {K : Str → Prop} {r : Request} (h : ShareRequest K r) :
    ∃ code rest, K code ∧ AdmittedCode code ∧ r.path = sessionPath code ++ rest := by
  obtain ⟨code, hK, hcode, hpath | ⟨itemId, hpath⟩⟩ := h
  · exact ⟨code, [], hK, hcode, by rw [hpath, List.append_nil]⟩
  · refine ⟨code, "/items/".toList ++ itemId ++ "/download".toList, hK, hcode, ?_⟩
    rw [hpath, downloadPath, List.append_assoc, List.append_assoc, List.append_assoc]

/-- The share-code limit holds of the requests for a set of codes exactly when
all of these codes begin with the letters of the table's prefix. -/
theorem share_codes_limited_iff [IsStrictOrderedRing T] (K : Str → Prop) :
    (∀ (client : Str) (events : List (Event T)) (start : T), ShareRun K client events →
      (inMinute events start).length ≤ 30) ↔
    ∀ code, K code → AdmittedCode code → "code".toList <+: code := by
  constructor
  · intro hbound code hK hcode
    by_contra hnot
    -- thirty-one requests at once
    let e : Event T := ⟨0, ⟨none, some "10.0.0.2".toList, sessionPath code⟩⟩
    have hrun : ShareRun K "10.0.0.2".toList (List.replicate 31 e) := by
      refine ⟨List.pairwise_replicate.mpr (Or.inr (le_refl _)), ?_⟩
      intro e' he'
      rw [List.eq_of_mem_replicate he']
      exact ⟨rfl, code, hK, hcode, Or.inl rfl⟩
    have hnone : ∀ e' ∈ List.replicate 31 e, e'.counted Limits.default = none := by
      intro e' he'
      rw [List.eq_of_mem_replicate he']
      have hrule : Limits.default.rule (sessionPath code ++ []) = none :=
        rule_of_not_code hnot hcode.1
      rw [List.append_nil] at hrule
      exact Option.map_eq_none_iff.mpr hrule
    have hall : inMinute (List.replicate 31 e) (0 : T) = List.replicate 31 e := by
      rw [inMinute, letThrough_of_unlimited hnone]
      apply List.filter_eq_self.mpr
      intro e' he'
      rw [List.eq_of_mem_replicate he']
      simp [e]
    have hlength := hbound _ _ 0 hrun
    rw [hall, List.length_replicate] at hlength
    omega
  · rintro hall client events start ⟨hsorted, hrequests⟩
    have hcounted : ∀ e ∈ events, e.counted Limits.default =
        some (client, "/api/v1/sessions/code".toList, ⟨30, 60⟩) := by
      intro e he
      obtain ⟨hclient, hrequest⟩ := hrequests e he
      obtain ⟨code, rest, hK, hcode, hpath⟩ := hrequest.path
      have hpre : "/api/v1/sessions/code".toList <+: e.request.path := by
        obtain ⟨tail, rfl⟩ := hall code hK hcode
        exact ⟨tail ++ rest, by rw [hpath, ← List.append_assoc]; rfl⟩
      rw [Event.counted, rule_of_code hpre, hclient]
      rfl
    have hpaced : SlidingWindow.Paced ((60 : ℤ) : T) (30 : ℤ).toNat (timesOf Limits.default
        (client, "/api/v1/sessions/code".toList, ⟨30, 60⟩) (letThrough Limits.default events)) :=
      paced_letThrough (by decide) hsorted
    have hbound := hpaced.bound start
    rw [← count_eq_length] at hbound
    refine le_trans (le_of_eq ?_) hbound
    rw [inMinute, count]
    congr 1
    apply List.filter_congr
    intro e he
    simp [hcounted e (mem_of_mem_letThrough he)]

/-- Two lookups of a code that the limit covers. -/
theorem share_codes_limited_covered :
    (inMinute [⟨0, ⟨none, none, sessionPath "code-1".toList⟩⟩,
      ⟨1, ⟨none, none, sessionPath "code-1".toList⟩⟩] (0 : ℚ)).length ≤ 30 := by
  have hall := (share_codes_limited_iff (T := ℚ) (· = "code-1".toList)).mpr
  refine hall ?_ "127.0.0.1".toList _ 0 ⟨by decide +kernel, ?_⟩
  · rintro code rfl -
    decide
  · intro e he
    simp only [List.mem_cons, List.not_mem_nil, or_false] at he
    rcases he with rfl | rfl
    · exact ⟨by decide, _, rfl, by decide, Or.inl rfl⟩
    · exact ⟨by decide, _, rfl, by decide, Or.inl rfl⟩

/-- Codes as the generator draws them are not covered. -/
theorem share_codes_not_limited :
    ¬ ∀ (client : Str) (events : List (Event ℚ)) (start : ℚ),
        ShareRun (fun _ => True) client events → (inMinute events start).length ≤ 30 := by
  intro h
  let e : Event ℚ := ⟨0, ⟨none, some "10.0.0.2".toList, sessionPath "1234-5678".toList⟩⟩
  have hrun : ShareRun (fun _ => True) "10.0.0.2".toList (List.replicate 31 e) := by
    refine ⟨List.pairwise_replicate.mpr (Or.inr (le_refl _)), ?_⟩
    intro e' he'
    rw [List.eq_of_mem_replicate he']
    exact ⟨rfl, "1234-5678".toList, trivial, by decide, Or.inl rfl⟩
  have hall : (inMinute (List.replicate 31 e) (0 : ℚ)).length = 31 := by decide +kernel
  have hlength := h _ _ 0 hrun
  omega

end RateLimiter

end Jumbox
