import Mathlib.Algebra.Order.Group.Defs
import Mathlib.Data.List.Basic
import Mathlib.Data.List.GetD
import Mathlib.Data.List.Induction

/-!
# Sliding windows

A limiter admits a call when fewer than `n` calls it has admitted lie less than
`w` back. It may forget calls once they are too old to count: what it keeps then
tracks what it has admitted, from that time on.
-/

namespace Jumbox

namespace SlidingWindow

variable {T : Type*} [AddCommGroup T] [LinearOrder T]

/-- The times less than `w` before `now`, or after it. -/
def recent (w now : T) (times : List T) : List T := times.filter fun t => now - t < w

/-- From `now` on, `stored` gives the same recent times as `admitted`. -/
def Tracks (w now : T) (stored admitted : List T) : Prop :=
  ∀ later, now ≤ later → recent w later stored = recent w later admitted

/-- Every time was admitted with fewer than `n` recent ones before it. -/
def Paced (w : T) (n : ℕ) (admitted : List T) : Prop :=
  ∀ pre t post, admitted = pre ++ t :: post → (recent w t pre).length < n

theorem recent_append (w now : T) (l m : List T) :
    recent w now (l ++ m) = recent w now l ++ recent w now m := List.filter_append l m

theorem Tracks.later {w now now' : T} {stored admitted : List T} (h : Tracks w now stored admitted)
    (hle : now ≤ now') : Tracks w now' stored admitted :=
  fun later hlater => h later (hle.trans hlater)

theorem Paced.nil (w : T) (n : ℕ) : Paced w n [] := by
  intro pre t post h
  simp at h

theorem Paced.snoc {w : T} {n : ℕ} {admitted : List T} {now : T} (h : Paced w n admitted)
    (hnow : (recent w now admitted).length < n) : Paced w n (admitted ++ [now]) := by
  intro pre t post hsplit
  induction post using List.reverseRecOn with
  | nil =>
      obtain ⟨rfl, heq⟩ := List.append_inj' hsplit rfl
      cases heq
      exact hnow
  | append_singleton post u _ =>
      have hassoc : admitted ++ [now] = (pre ++ t :: post) ++ [u] := by
        simpa using hsplit
      obtain ⟨rfl, -⟩ := List.append_inj' hassoc rfl
      exact h pre t post rfl

variable [IsOrderedAddMonoid T]

/-- What is too old to count once is too old later. -/
theorem recent_recent {w now later : T} (h : now ≤ later) (l : List T) :
    recent w later (recent w now l) = recent w later l := by
  unfold recent
  rw [List.filter_filter]
  apply List.filter_congr
  intro t _
  have hless : later - t < w → now - t < w := lt_of_le_of_lt (sub_le_sub_right h t)
  simpa using hless

/-- Admitting a call and forgetting the old ones. -/
theorem Tracks.push {w now : T} {stored admitted : List T} (h : Tracks w now stored admitted) :
    Tracks w now (recent w now stored ++ [now]) (admitted ++ [now]) := by
  intro later hlater
  rw [recent_append, recent_append, recent_recent hlater, h later hlater]

/-- No half-open interval as long as the window holds more than `n` admitted
times. -/
theorem Paced.bound {w : T} {n : ℕ} {admitted : List T} (h : Paced w n admitted) (start : T) :
    (admitted.filter fun t => start ≤ t ∧ t < start + w).length ≤ n := by
  induction admitted using List.reverseRecOn with
  | nil => simp
  | append_singleton l now ih =>
      have hl : Paced w n l := by
        rintro pre t post rfl
        exact h pre t (post ++ [now]) (by simp)
      rw [List.filter_append, List.length_append]
      by_cases hin : start ≤ now ∧ now < start + w
      · -- what lies in the interval is recent when `now` is admitted
        have hsub : (l.filter fun t => start ≤ t ∧ t < start + w).length ≤
            (recent w now l).length := by
          apply List.Sublist.length_le
          apply List.monotone_filter_right
          intro t ht
          have hstart : start ≤ t := (of_decide_eq_true ht).1
          have hnow : now - t < w := by
            rw [sub_lt_iff_lt_add]
            exact hin.2.trans_le (add_comm start w ▸ add_le_add_right hstart w)
          exact decide_eq_true hnow
        have hlt := h l now [] rfl
        rw [List.filter_cons_of_pos (by simpa using hin), List.filter_nil, List.length_singleton]
        omega
      · rw [List.filter_cons_of_neg (by simpa using hin), List.filter_nil, List.length_nil]
        exact ih hl

/-- Among times in order, the `n`-th from the end decides whether `n` are recent. -/
theorem length_recent_lt_iff (w now : T) {l : List T} (hsorted : l.Pairwise (· ≤ ·)) {n : ℕ}
    (hpos : 1 ≤ n) (hle : n ≤ l.length) :
    (recent w now l).length < n ↔ w ≤ now - l.getD (l.length - n) now := by
  induction l with
  | nil =>
      have hzero : n ≤ 0 := hle
      omega
  | cons t l ih =>
      obtain ⟨hfirst, hrest⟩ := List.pairwise_cons.mp hsorted
      rw [List.length_cons] at hle
      by_cases hrecent : now - t < w
      · -- then all of them are recent
        have hall : recent w now (t :: l) = t :: l := by
          apply List.filter_eq_self.mpr
          intro u hu
          rcases List.mem_cons.mp hu with rfl | hu
          · exact decide_eq_true hrecent
          · exact decide_eq_true (lt_of_le_of_lt (sub_le_sub_left (hfirst u hu) now) hrecent)
        have hbound : (t :: l).length - n < (t :: l).length := by
          rw [List.length_cons]
          omega
        have hmem : (t :: l).getD ((t :: l).length - n) now ∈ recent w now (t :: l) := by
          rw [hall, List.getD_eq_getElem _ _ hbound]
          exact List.getElem_mem hbound
        have hlt := of_decide_eq_true (List.mem_filter.mp hmem).2
        rw [hall, List.length_cons]
        exact iff_of_false (by omega) (not_le.mpr hlt)
      · have hskip : recent w now (t :: l) = recent w now l :=
          List.filter_cons_of_neg (by simpa using hrecent)
        rw [hskip, List.length_cons]
        by_cases hlast : n = l.length + 1
        · have hlength : (recent w now l).length ≤ l.length := List.length_filter_le _ _
          rw [hlast, Nat.sub_self, List.getD_cons_zero]
          exact iff_of_true (by omega) (not_lt.mp hrecent)
        · have hindex : l.length + 1 - n = (l.length - n) + 1 := by omega
          rw [hindex, List.getD_cons_succ]
          exact ih hrest (by omega)

/-- Of times that were admitted in order, at most `n` are recent once all have
come. -/
theorem Paced.length_recent_le {w : T} {n : ℕ} {admitted : List T} (h : Paced w n admitted)
    (hsorted : admitted.Pairwise (· ≤ ·)) {now : T} (hlast : ∀ t ∈ admitted, t ≤ now) :
    (recent w now admitted).length ≤ n := by
  have hrecent : (recent w now admitted).Pairwise (· ≤ ·) := hsorted.sublist List.filter_sublist
  cases hcases : recent w now admitted with
  | nil => exact Nat.zero_le _
  | cons first rest =>
      rw [hcases] at hrecent
      obtain ⟨hfirst, -⟩ := List.pairwise_cons.mp hrecent
      have hold : now - first < w := by
        have hmem : first ∈ recent w now admitted := hcases ▸ List.mem_cons_self
        exact of_decide_eq_true (List.mem_filter.mp hmem).2
      refine le_trans ?_ (h.bound first)
      rw [← hcases]
      apply List.Sublist.length_le
      have hsub : recent w now admitted =
          (recent w now admitted).filter fun t => first ≤ t ∧ t < first + w := by
        symm
        apply List.filter_eq_self.mpr
        intro t ht
        have hle : first ≤ t := by
          rw [hcases] at ht
          rcases List.mem_cons.mp ht with rfl | ht
          · exact le_refl _
          · exact hfirst t ht
        have hlt : t < first + w := by
          have hnow := hlast t (List.mem_of_mem_filter ht)
          exact hnow.trans_lt (sub_lt_iff_lt_add'.mp hold)
        exact decide_eq_true ⟨hle, hlt⟩
      rw [hsub]
      exact List.Sublist.filter _ List.filter_sublist

end SlidingWindow

end Jumbox
