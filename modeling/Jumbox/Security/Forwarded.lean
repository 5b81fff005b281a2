import Jumbox.Security.RateLimiter

/-!
# Requests that name their client themselves

The key of a count is made from `X-Forwarded-For`, which every client may write.
What one peer can get through is limited for each client it names.
-/

namespace Jumbox

namespace RateLimiter

variable {T : Type} [Field T] [LinearOrder T] [FloorRing T]

/-- A table with one entry. -/
def only (p : Str) (limit : Limit) : Limits where
  items := [(p, limit)]
  nodup := List.nodup_singleton _

section Only

variable {limits : Limits} {p : Str} {limit : Limit}

theorem rule_only {path : Str} (h : p <+: path) : (only p limit).rule path = some (p, limit) :=
  List.find?_cons_of_pos (decide_eq_true h)

/-- For requests to one prefix the rest of the table does not matter. -/
theorem letThrough_only {events : List (Event T)}
    (h : ∀ e ∈ events, limits.rule e.request.path = some (p, limit)) :
    letThrough (only p limit) events = letThrough limits events := by
  have hdispatch : ∀ e ∈ events, ∀ history : History T,
      dispatch (only p limit) history e.now e.request = dispatch limits history e.now e.request := by
    intro e he history
    rw [dispatch_eq_of_rule (h e he), dispatch_eq_of_rule (rule_only (Limits.rule_prefix (h e he)))]
  have hboth : after (only p limit) events = after limits events ∧
      letThrough (only p limit) events = letThrough limits events := by
    induction events using List.reverseRecOn with
    | nil => exact ⟨rfl, rfl⟩
    | append_singleton events e ih =>
        obtain ⟨hafter, hlet⟩ := ih (fun e he => h e (List.mem_append_left _ he))
          fun e he => hdispatch e (List.mem_append_left _ he)
        have he := hdispatch e (List.mem_append_right _ List.mem_cons_self) (after limits events)
        refine ⟨?_, ?_⟩
        · rw [after_snoc, after_snoc, hafter, he]
        · have hiff : LetThrough (only p limit) events e ↔ LetThrough limits events e := by
            unfold LetThrough
            rw [hafter, he]
          rw [letThrough_snoc, letThrough_snoc, hlet]
          simp only [hiff]
  exact hboth.2

theorem separate_only : (only p limit).Separate := by
  intro q hq q' hq' hne
  rw [List.mem_singleton.mp hq, List.mem_singleton.mp hq'] at hne
  exact absurd rfl hne

end Only

/-! ## One peer -/

/-- The client a request counts for, from its header and its peer. -/
def clientOf (peer forwardedFor : Option Str) : Str :=
  Request.clientIp ⟨forwardedFor, peer, []⟩

/-- A run of requests from one peer to one limited prefix, with headers that `K`
holds of. -/
structure FromPeer (limits : Limits) (p : Str) (limit : Limit) (peer : Option Str)
    (K : Option Str → Prop) (events : List (Event T)) : Prop where
  sorted : events.Pairwise (·.now ≤ ·.now)
  host : ∀ e ∈ events, e.request.clientHost = peer
  header : ∀ e ∈ events, K e.request.forwardedFor
  limited : ∀ e ∈ events, limits.rule e.request.path = some (p, limit)

/-- The requests of a run let through in one window from `start`. -/
def inWindow (limits : Limits) (limit : Limit) (events : List (Event T)) (start : T) :
    List (Event T) :=
  (letThrough limits events).filter fun e => start ≤ e.now ∧ e.now < start + (limit.window : T)

section Bound

variable {limits : Limits} {p : Str} {limit : Limit} {peer : Option Str} {K : Option Str → Prop}
  {events : List (Event T)}

omit [Field T] [LinearOrder T] [FloorRing T] in
theorem counted_of_rule {e : Event T}
    (h : limits.rule e.request.path = some (p, limit)) :
    e.counted limits = some (e.request.clientIp, p, limit) := by
  rw [Event.counted, h]
  rfl

/-- A limit of nothing lets nothing through. -/
theorem letThrough_eq_nil (hmax : limit.maxReqs ≤ 0)
    (h : ∀ e ∈ events, limits.rule e.request.path = some (p, limit)) :
    letThrough limits events = [] := by
  induction events using List.reverseRecOn with
  | nil => rfl
  | append_singleton events e ih =>
      have hcounted := counted_of_rule (h e (List.mem_append_right _ List.mem_cons_self))
      have hnot : ¬ LetThrough limits events e := by
        rw [letThrough_iff hcounted]
        omega
      rw [letThrough_snoc, if_neg hnot, ih fun e he => h e (List.mem_append_left _ he)]
      rfl

variable [IsStrictOrderedRing T]

/-- The requests of one client are paced. -/
theorem inWindow_le_of_same (hrun : FromPeer limits p limit peer K events)
    (hsame : ∀ a b, K a → K b → clientOf peer a = clientOf peer b) (hmax : 0 ≤ limit.maxReqs)
    (start : T) : ((inWindow limits limit events start).length : ℤ) ≤ limit.maxReqs := by
  cases events with
  | nil => exact hmax
  | cons first rest =>
      have hfirst := List.mem_cons_self (a := first) (l := rest)
      have hcounted : ∀ e ∈ first :: rest,
          e.counted (only p limit) = some (first.request.clientIp, p, limit) := by
        intro e he
        have hclient : e.request.clientIp = first.request.clientIp := by
          have hsame' := hsame _ _ (hrun.header e he) (hrun.header first hfirst)
          rw [← hrun.host e he] at hsame'
          refine hsame'.trans ?_
          rw [hrun.host e he, ← hrun.host first hfirst]
          rfl
        rw [counted_of_rule (rule_only (Limits.rule_prefix (hrun.limited e he))), hclient]
      have hpaced : SlidingWindow.Paced (limit.window : T) limit.maxReqs.toNat
          (timesOf (only p limit) (first.request.clientIp, p, limit)
            (letThrough (only p limit) (first :: rest))) :=
        paced_letThrough separate_only hrun.sorted
      have hbound := hpaced.bound start
      rw [← count_eq_length] at hbound
      have hcount : count (only p limit) (first.request.clientIp, p, limit)
          (letThrough (only p limit) (first :: rest))
          (fun t => start ≤ t ∧ t < start + (limit.window : T)) =
            (inWindow limits limit (first :: rest) start).length := by
        rw [inWindow, count, ← letThrough_only hrun.limited]
        congr 1
        apply List.filter_congr
        intro e he
        simp [hcounted e (mem_of_mem_letThrough he)]
      omega

omit [Field T] [FloorRing T] [IsStrictOrderedRing T] in
/-- A burst of one request, and another one then. -/
theorem pairwise_bursts {e e' : Event T} (h : e.now ≤ e'.now) (n : ℕ) :
    (List.replicate n e ++ [e']).Pairwise (·.now ≤ ·.now) := by
  refine List.pairwise_append.mpr ⟨List.pairwise_replicate.mpr (Or.inr (le_refl _)),
    List.pairwise_singleton _ _, ?_⟩
  intro e₁ he₁ e₂ he₂
  rw [List.eq_of_mem_replicate he₁, List.mem_singleton.mp he₂]
  exact h

omit [Field T] [LinearOrder T] [FloorRing T] [IsStrictOrderedRing T] in
theorem mem_bursts {e e' e₁ : Event T} {n : ℕ} (h : e₁ ∈ List.replicate n e ++ [e']) :
    e₁ = e ∨ e₁ = e' := by
  rcases List.mem_append.mp h with h | h
  · exact Or.inl (List.eq_of_mem_replicate h)
  · exact Or.inr (List.mem_singleton.mp h)

/-- A burst of one client that stays within the limit is let through. -/
theorem letThrough_burst {e : Event T} (h : limits.rule e.request.path = some (p, limit)) {n : ℕ}
    (hn : (n : ℤ) ≤ limit.maxReqs) :
    letThrough limits (List.replicate n e) = List.replicate n e := by
  have hrule : ∀ k, ∀ e' ∈ List.replicate k e, limits.rule e'.request.path = some (p, limit) := by
    intro k e' he'
    rw [List.eq_of_mem_replicate he']
    exact h
  induction n with
  | zero => rfl
  | succ n ih =>
      have hih := ih (by omega)
      have honly : (only p limit).rule e.request.path = some (p, limit) :=
        rule_only (Limits.rule_prefix h)
      have hcounted := counted_of_rule honly
      have hsorted := pairwise_bursts (le_refl e.now) n
      have hlet : LetThrough (only p limit) (List.replicate n e) e := by
        rw [letThrough_iff_recent separate_only hsorted hcounted, letThrough_only (hrule n), hih]
        have hrecent := List.length_filter_le
          (fun t => decide (e.now - t < (limit.window : T)))
          (timesOf (only p limit) (e.request.clientIp, p, limit) (List.replicate n e))
        have htimes : (timesOf (only p limit) (e.request.clientIp, p, limit)
            (List.replicate n e)).length ≤ n := by
          rw [timesOf, List.length_map]
          exact (List.length_filter_le _ _).trans (le_of_eq List.length_replicate)
        unfold SlidingWindow.recent
        omega
      rw [← letThrough_only (hrule (n + 1)), List.replicate_succ', letThrough_snoc, if_pos hlet,
        letThrough_only (hrule n), hih]

/-- A client that has used up its limit goes on under another name. -/
theorem letThrough_two_bursts (e e' : Event T)
    (h : limits.rule e.request.path = some (p, limit))
    (h' : limits.rule e'.request.path = some (p, limit)) (hnow : e.now ≤ e'.now)
    (hne : e.request.clientIp ≠ e'.request.clientIp) (hmax : 1 ≤ limit.maxReqs) :
    letThrough limits (List.replicate limit.maxReqs.toNat e ++ [e']) =
      List.replicate limit.maxReqs.toNat e ++ [e'] := by
  have hrules : ∀ e₁ ∈ List.replicate limit.maxReqs.toNat e ++ [e'],
      limits.rule e₁.request.path = some (p, limit) := by
    intro e₁ he₁
    rcases mem_bursts he₁ with rfl | rfl
    · exact h
    · exact h'
  have hrule : ∀ e₁ ∈ List.replicate limit.maxReqs.toNat e,
      limits.rule e₁.request.path = some (p, limit) :=
    fun e₁ he₁ => hrules e₁ (List.mem_append_left _ he₁)
  have hburst := letThrough_burst h (n := limit.maxReqs.toNat) (by omega)
  have hsorted := pairwise_bursts hnow limit.maxReqs.toNat
  have honly : (only p limit).rule e'.request.path = some (p, limit) :=
    rule_only (Limits.rule_prefix h')
  have hcounted := counted_of_rule honly
  have hnone : timesOf (only p limit) (e'.request.clientIp, p, limit)
      (List.replicate limit.maxReqs.toNat e) = [] := by
    have hfilter : (List.replicate limit.maxReqs.toNat e).filter (fun e₁ =>
        e₁.counted (only p limit) = some (e'.request.clientIp, p, limit)) = [] := by
      apply List.filter_eq_nil_iff.mpr
      intro e₁ he₁
      have hrule₁ : (only p limit).rule e.request.path = some (p, limit) :=
        rule_only (Limits.rule_prefix h)
      rw [List.eq_of_mem_replicate he₁, counted_of_rule hrule₁]
      simpa using hne
    rw [timesOf, hfilter, List.map_nil]
  have hlet : LetThrough (only p limit) (List.replicate limit.maxReqs.toNat e) e' := by
    rw [letThrough_iff_recent separate_only hsorted hcounted, letThrough_only hrule, hburst, hnone]
    exact hmax
  rw [← letThrough_only hrules, letThrough_snoc, if_pos hlet, letThrough_only hrule, hburst]

/-- All of the limit under one name, and one more request under another. -/
theorem exceeds_of_two_clients {path : Str} (hrule : limits.rule path = some (p, limit))
    (hmax : 1 ≤ limit.maxReqs) (hwindow : 0 < limit.window) {a b : Option Str} (ha : K a) (hb : K b)
    (hne : clientOf peer a ≠ clientOf peer b) :
    ∃ events : List (Event T), FromPeer limits p limit peer K events ∧
      limit.maxReqs < (inWindow limits limit events 0).length := by
  let e : Event T := ⟨0, ⟨a, peer, path⟩⟩
  let e' : Event T := ⟨0, ⟨b, peer, path⟩⟩
  have hnow : e.now ≤ e'.now := le_refl _
  refine ⟨List.replicate limit.maxReqs.toNat e ++ [e'], ⟨pairwise_bursts hnow _, ?_, ?_, ?_⟩, ?_⟩
  · intro e₁ he₁
    rcases mem_bursts he₁ with rfl | rfl
    · rfl
    · rfl
  · intro e₁ he₁
    rcases mem_bursts he₁ with rfl | rfl
    · exact ha
    · exact hb
  · intro e₁ he₁
    rcases mem_bursts he₁ with rfl | rfl
    · exact hrule
    · exact hrule
  · have hlet := letThrough_two_bursts e e' hrule hrule hnow hne hmax
    have hwindow' : (0 : T) < limit.window := Int.cast_pos.mpr hwindow
    rw [inWindow, hlet, List.filter_eq_self.mpr]
    · rw [List.length_append, List.length_replicate, List.length_singleton]
      omega
    · intro e₁ he₁
      rcases mem_bursts he₁ with rfl | rfl
      · simp [e, hwindow']
      · simp [e', hwindow']

omit [Field T] [FloorRing T] [IsStrictOrderedRing T] in
theorem FromPeer.nil : FromPeer (T := T) limits p limit peer K [] where
  sorted := List.Pairwise.nil
  host := List.forall_mem_nil _
  header := List.forall_mem_nil _
  limited := List.forall_mem_nil _

end Bound

/-- The limit holds of what one peer gets through with headers from `K` exactly
when these all stand for one client; or when the limit lets nothing through, or
its window is empty. -/
theorem peer_limited_iff [IsStrictOrderedRing T] {limits : Limits} {p : Str} {limit : Limit}
    (hlimited : ∃ path, limits.rule path = some (p, limit)) (peer : Option Str)
    (K : Option Str → Prop) :
    (∀ (events : List (Event T)) (start : T), FromPeer limits p limit peer K events →
      ((inWindow limits limit events start).length : ℤ) ≤ limit.maxReqs) ↔
    0 ≤ limit.maxReqs ∧ (limit.maxReqs = 0 ∨ limit.window ≤ 0 ∨
      ∀ a b, K a → K b → clientOf peer a = clientOf peer b) := by
  constructor
  · intro hbound
    have hmax : 0 ≤ limit.maxReqs := hbound [] 0 .nil
    refine ⟨hmax, ?_⟩
    by_contra hnot
    simp only [not_or, not_le, not_forall] at hnot
    obtain ⟨hzero, hwindow, a, b, ha, hb, hne⟩ := hnot
    obtain ⟨path, hrule⟩ := hlimited
    obtain ⟨events, hrun, hmore⟩ :=
      exceeds_of_two_clients (T := T) hrule (by omega) hwindow ha hb hne
    exact absurd (hbound events 0 hrun) (not_le.mpr hmore)
  · rintro ⟨hmax, hzero | hwindow | hsame⟩ events start hrun
    · rw [inWindow, letThrough_eq_nil (le_of_eq hzero) hrun.limited]
      exact hmax
    · have hempty : inWindow limits limit events start = [] := by
        apply List.filter_eq_nil_iff.mpr
        intro e _
        have hle : (limit.window : T) ≤ 0 := Int.cast_nonpos.mpr hwindow
        simp only [decide_eq_true_eq, not_and, not_lt]
        intro hstart
        exact (add_le_of_nonpos_right hle).trans hstart
      rw [hempty]
      exact hmax
    · exact inWindow_le_of_same hrun hsame hmax start

/-- Two attempts to log in, forwarded for one client in two ways. -/
theorem peer_limited_iff_spaces :
    ((inWindow .default ⟨10, 60⟩ [⟨0, ⟨some "10.0.0.9".toList, none, "/api/v1/auth/login".toList⟩⟩,
      ⟨1, ⟨some " 10.0.0.9, proxy".toList, none, "/api/v1/auth/login".toList⟩⟩] (0 : ℚ)).length : ℤ) ≤
        10 := by
  have hlimited : ∃ path, Limits.default.rule path = some ("/api/v1/auth/login".toList, ⟨10, 60⟩) :=
    ⟨"/api/v1/auth/login".toList, by decide⟩
  refine (peer_limited_iff (T := ℚ) hlimited none fun h => clientOf none h =
    "10.0.0.9".toList).mpr ⟨by decide, Or.inr (Or.inr ?_)⟩ _ 0 ⟨by decide +kernel, ?_, ?_, ?_⟩
  · intro a b ha hb
    exact ha.trans hb.symm
  · intro e he
    simp only [List.mem_cons, List.not_mem_nil, or_false] at he
    rcases he with rfl | rfl
    · rfl
    · rfl
  · intro e he
    simp only [List.mem_cons, List.not_mem_nil, or_false] at he
    rcases he with rfl | rfl
    · decide
    · decide
  · intro e he
    simp only [List.mem_cons, List.not_mem_nil, or_false] at he
    rcases he with rfl | rfl
    · decide
    · decide

/-- Eleven attempts at once, each under a name of its own. -/
def Sample.forged : List (Event ℚ) :=
  (List.range 11).map fun n =>
    ⟨0, ⟨some (List.replicate (n + 1) '1'), some "10.0.0.2".toList, "/api/v1/auth/login".toList⟩⟩

theorem peer_not_limited :
    ¬ ∀ (limits : Limits) (p : Str) (limit : Limit) (peer : Option Str) (events : List (Event ℚ))
      (start : ℚ), 1 ≤ limit.maxReqs → FromPeer limits p limit peer (fun _ => True) events →
      ((inWindow limits limit events start).length : ℤ) ≤ limit.maxReqs := by
  intro h
  have hrun : FromPeer .default "/api/v1/auth/login".toList ⟨10, 60⟩ (some "10.0.0.2".toList)
      (fun _ => True) Sample.forged := by
    refine ⟨by decide +kernel, ?_, fun _ _ => trivial, ?_⟩
    · decide +kernel
    · decide +kernel
  have hall : ((inWindow .default ⟨10, 60⟩ Sample.forged 0).length : ℤ) = 11 := by decide +kernel
  have hlength := h .default _ _ _ Sample.forged 0 (by decide) hrun
  rw [hall] at hlength
  exact absurd hlength (by decide)

end RateLimiter

end Jumbox
