import Mathlib.Data.List.Basic
import Mathlib.Data.List.Infix

/-!
# Fields with a separator

A text is cut at its first separators, at most a given number of them. Fields that
are joined come back if the separator is in none of them but the last
(`splitMax_intercalate`).
-/

namespace Jumbox

universe u

namespace Fields

variable {α : Type u} [DecidableEq α] (sep : α)

/-- Cuts at the first `n` separators. -/
def splitMax : ℕ → List α → List (List α)
  | _, [] => [[]]
  | n, c :: rest =>
      if c = sep ∧ 0 < n then [] :: splitMax (n - 1) rest
      else (splitMax n rest).modifyHead (c :: ·)

variable {sep}

theorem splitMax_cons_of_ne {c : α} (hc : c ≠ sep) (n : ℕ) (rest : List α) :
    splitMax sep n (c :: rest) = (splitMax sep n rest).modifyHead (c :: ·) := by
  rw [splitMax, if_neg fun h => hc h.1]

/-- After the last cut nothing is a separator. -/
theorem splitMax_zero (s : List α) : splitMax sep 0 s = [s] := by
  induction s with
  | nil => rfl
  | cons c rest ih =>
      rw [splitMax, if_neg fun h => Nat.lt_irrefl 0 h.2, ih]
      rfl

theorem splitMax_append {field : List α} (hfield : sep ∉ field) (n : ℕ) (rest : List α) :
    splitMax sep (n + 1) (field ++ sep :: rest) = field :: splitMax sep n rest := by
  induction field with
  | nil =>
      rw [List.nil_append, splitMax, if_pos ⟨rfl, Nat.succ_pos n⟩]
      rfl
  | cons c field ih =>
      have hc : c ≠ sep := fun h => hfield (h ▸ List.mem_cons_self)
      rw [List.cons_append, splitMax_cons_of_ne hc,
        ih fun hmem => hfield (List.mem_cons_of_mem _ hmem)]
      rfl

/-- Joined fields are found again, whatever the last of them holds. -/
theorem splitMax_intercalate {fields : List (List α)} (hfields : ∀ field ∈ fields, sep ∉ field)
    (last : List α) :
    splitMax sep fields.length ([sep].intercalate (fields ++ [last])) = fields ++ [last] := by
  induction fields with
  | nil =>
      rw [List.nil_append, List.intercalate_singleton]
      exact splitMax_zero last
  | cons field fields ih =>
      have hjoin : [sep].intercalate (field :: fields ++ [last]) =
          field ++ sep :: [sep].intercalate (fields ++ [last]) := by
        rw [List.cons_append, List.intercalate_cons_of_ne_nil (by simp), List.append_assoc]
        rfl
      rw [hjoin, List.length_cons, splitMax_append (hfields field List.mem_cons_self),
        ih fun f hf => hfields f (List.mem_cons_of_mem _ hf)]
      rfl

end Fields

end Jumbox
