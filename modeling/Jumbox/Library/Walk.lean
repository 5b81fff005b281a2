import Mathlib.Data.List.Infix
import Mathlib.Data.List.Induction
import Mathlib.Tactic.Basic

/-!
# Walks in a tree

A place is the list of the steps that lead down to it from the root. A walk goes
down, up, or stays, and going up at the root stays there. Every walk has a
course: it climbs so many levels above its start and descends from there. A walk
stays below its start as long as it never goes up more often than down.
-/

namespace Jumbox

universe u

variable {α : Type u}

inductive Move (α : Type u) where
  | stay
  | up
  | down (a : α)
deriving DecidableEq

namespace Move

def apply (p : List α) : Move α → List α
  | .stay => p
  | .up => p.dropLast
  | .down a => p ++ [a]

def isUp : Move α → Bool
  | .up => true
  | _ => false

def isDown : Move α → Bool
  | .down _ => true
  | _ => false

end Move

def walk (p : List α) (ms : List (Move α)) : List α := ms.foldl Move.apply p

def ups (ms : List (Move α)) : ℕ := ms.countP Move.isUp

def downs (ms : List (Move α)) : ℕ := ms.countP Move.isDown

/-- How far a walk climbs above its start, and what it descends to from there. -/
structure Course (α : Type u) where
  climbs : ℕ := 0
  descent : List α := []

def Course.move (c : Course α) : Move α → Course α
  | .stay => c
  | .up => if c.descent = [] then { c with climbs := c.climbs + 1 }
      else { c with descent := c.descent.dropLast }
  | .down a => { c with descent := c.descent ++ [a] }

def course (ms : List (Move α)) : Course α := ms.foldl Course.move {}

theorem walk_snoc (p : List α) (ms : List (Move α)) (m : Move α) :
    walk p (ms ++ [m]) = m.apply (walk p ms) := List.foldl_append

theorem course_snoc (ms : List (Move α)) (m : Move α) :
    course (ms ++ [m]) = (course ms).move m := List.foldl_append

/-- From any start a walk ends where its course says. -/
theorem walk_eq (p : List α) (ms : List (Move α)) :
    walk p ms = p.take (p.length - (course ms).climbs) ++ (course ms).descent := by
  induction ms using List.reverseRecOn with
  | nil => simp [walk, course]
  | append_singleton ms m ih =>
      rw [walk_snoc, course_snoc, ih]
      cases m with
      | stay => rfl
      | down a => exact List.append_assoc _ _ _
      | up =>
          unfold Course.move Move.apply
          by_cases hdescent : (course ms).descent = []
          · simp only [hdescent, if_true, List.append_nil, List.dropLast_eq_take, List.take_take,
              List.length_take]
            congr 1
            omega
          · simp only [hdescent, if_false]
            exact List.dropLast_append_of_ne_nil hdescent

/-- Every step down is climbed back or still to be seen. -/
theorem length_descent (ms : List (Move α)) :
    (course ms).descent.length + ups ms = downs ms + (course ms).climbs := by
  induction ms using List.reverseRecOn with
  | nil => rfl
  | append_singleton ms m ih =>
      rw [course_snoc, ups, downs, List.countP_append, List.countP_append, ← ups, ← downs]
      cases m with
      | stay => exact ih
      | down a =>
          simp only [Course.move, List.length_append, List.length_singleton, List.countP_singleton,
            Move.isUp, Move.isDown, if_true, Bool.false_eq_true, if_false]
          omega
      | up =>
          simp only [Course.move, List.countP_singleton, Move.isUp, Move.isDown, if_true,
            Bool.false_eq_true, if_false]
          by_cases hdescent : (course ms).descent = []
          · rw [if_pos hdescent]
            simp only [hdescent, List.length_nil] at ih ⊢
            omega
          · rw [if_neg hdescent]
            have hpos := List.length_pos_iff.mpr hdescent
            simp only [List.length_dropLast]
            omega

/-- The walk has nowhere gone up more often than down. -/
def Stays (ms : List (Move α)) : Prop := ∀ pre ∈ ms.inits, ups pre ≤ downs pre

instance (ms : List (Move α)) : Decidable (Stays ms) :=
  inferInstanceAs (Decidable (∀ pre ∈ ms.inits, _))

theorem stays_snoc {ms : List (Move α)} {m : Move α} :
    Stays (ms ++ [m]) ↔ Stays ms ∧ ups (ms ++ [m]) ≤ downs (ms ++ [m]) := by
  simp only [Stays, List.mem_inits, List.prefix_concat_iff, forall_eq_or_imp]
  exact and_comm

theorem climbs_eq_zero_iff (ms : List (Move α)) : (course ms).climbs = 0 ↔ Stays ms := by
  induction ms using List.reverseRecOn with
  | nil => simp [course, Stays, ups, downs]
  | append_singleton ms m ih =>
      have hlength := length_descent (ms ++ [m])
      rw [stays_snoc, ← ih]
      constructor
      · intro hzero
        refine ⟨?_, by omega⟩
        rw [course_snoc] at hzero
        cases m with
        | stay => exact hzero
        | down a => exact hzero
        | up =>
            unfold Course.move at hzero
            by_cases hdescent : (course ms).descent = []
            · rw [if_pos hdescent] at hzero
              exact absurd hzero (Nat.succ_ne_zero _)
            · rw [if_neg hdescent] at hzero
              exact hzero
      · rintro ⟨hzero, hle⟩
        rw [course_snoc] at hlength ⊢
        cases m with
        | stay => exact hzero
        | down a => exact hzero
        | up =>
            unfold Course.move at hlength ⊢
            by_cases hdescent : (course ms).descent = []
            · rw [if_pos hdescent] at hlength
              simp only [hdescent, List.length_nil] at hlength
              omega
            · rw [if_neg hdescent]
              exact hzero

/-- A place strictly below another. -/
def Below (root p : List α) : Prop := root <+: p ∧ root ≠ p

instance [DecidableEq α] (root p : List α) : Decidable (Below root p) :=
  inferInstanceAs (Decidable (_ ∧ _))

theorem below_append_left (a root p : List α) : Below (a ++ root) (a ++ p) ↔ Below root p := by
  unfold Below
  rw [List.prefix_append_right_inj, ne_eq, ne_eq, List.append_cancel_left_eq]

theorem below_nil {p : List α} : Below [] p ↔ p ≠ [] := by
  unfold Below
  simp [eq_comm]

/-- Where a walk that leaves its start has to descend to be below it again: to the
start, by the way it has climbed, and on. -/
def Returns (root : List α) (ms : List (Move α)) : Prop :=
  Below (root.drop (root.length - (course ms).climbs)) (course ms).descent

instance [DecidableEq α] (root : List α) (ms : List (Move α)) : Decidable (Returns root ms) :=
  inferInstanceAs (Decidable (Below _ _))

theorem below_walk_iff_returns (root : List α) (ms : List (Move α)) :
    Below root (walk root ms) ↔ Returns root ms := by
  have hprefix := below_append_left (root.take (root.length - (course ms).climbs))
    (root.drop (root.length - (course ms).climbs)) (course ms).descent
  rw [List.take_append_drop] at hprefix
  rw [walk_eq]
  exact hprefix

/-- A walk ends below its start if it stays there and goes down once more than
up; or else if it returns. -/
theorem below_walk_iff (root : List α) (ms : List (Move α)) :
    Below root (walk root ms) ↔
      (Stays ms ∧ ups ms < downs ms) ∨ (¬ Stays ms ∧ Returns root ms) := by
  rw [below_walk_iff_returns]
  by_cases hstays : Stays ms
  · have hzero := (climbs_eq_zero_iff ms).mpr hstays
    have hlength := length_descent ms
    rw [Returns, hzero, Nat.sub_zero, List.drop_length, below_nil, ← List.length_pos_iff]
    simp only [hstays, true_and, not_true, false_and, or_false]
    omega
  · simp only [hstays, false_and, not_false_eq_true, true_and, false_or]

end Jumbox
