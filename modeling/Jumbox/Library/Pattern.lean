import Mathlib.Data.List.Count
import Mathlib.Data.List.Infix

/-!
# Patterns with wildcards

A pattern is matched against a whole text: a piece of it stands for itself, for
any one symbol, or for any number of symbols. A literal text between two of the
last kind is looked for anywhere (`matches_anywhere`), and every pattern matches
the text it spells (`matches_spelled`). The notation may have a symbol that takes
from the next one what it stands for; a text spelled by such a pattern has at most
half as many of that symbol as the pattern (`two_mul_count_spelled`).
-/

namespace Jumbox

universe u

namespace Pattern

/-- A piece of a pattern. -/
inductive Piece (α : Type u) where
  | literal (a : α)
  | one
  | many
deriving DecidableEq

variable {α : Type u} [DecidableEq α]

def Matches : List (Piece α) → List α → Bool
  | [], text => text.isEmpty
  | .literal a :: rest, text =>
      match text with
      | [] => false
      | b :: text => a = b && Matches rest text
  | .one :: rest, text =>
      match text with
      | [] => false
      | _ :: text => Matches rest text
  | .many :: rest, text => text.tails.any fun text => Matches rest text

@[simp] theorem matches_nil {text : List α} : Matches [] text = true ↔ text = [] :=
  List.isEmpty_iff

@[simp] theorem matches_literal_cons {a b : α} {rest : List (Piece α)} {text : List α} :
    Matches (.literal a :: rest) (b :: text) = true ↔ a = b ∧ Matches rest text = true := by
  show (decide (a = b) && Matches rest text) = true ↔ _
  rw [Bool.and_eq_true, decide_eq_true_eq]

/-- What a literal piece matches starts with it. -/
theorem matches_literal {a : α} {rest : List (Piece α)} {text : List α} :
    Matches (.literal a :: rest) text = true ↔
      ∃ tail, text = a :: tail ∧ Matches rest tail = true := by
  cases text with
  | nil =>
      refine iff_of_false Bool.false_ne_true ?_
      rintro ⟨tail, htext, -⟩
      cases htext
  | cons b text =>
      rw [matches_literal_cons]
      constructor
      · rintro ⟨rfl, hrest⟩
        exact ⟨text, rfl, hrest⟩
      · rintro ⟨tail, htext, hrest⟩
        cases htext
        exact ⟨rfl, hrest⟩

theorem matches_many {rest : List (Piece α)} {text : List α} :
    Matches (.many :: rest) text = true ↔ ∃ tail, tail <:+ text ∧ Matches rest tail = true := by
  show text.tails.any (fun text => Matches rest text) = true ↔ _
  rw [List.any_eq_true]
  simp only [List.mem_tails]

/-- Literal pieces in front match themselves. -/
theorem matches_literals_append {xs : List α} {rest : List (Piece α)} {text : List α} :
    Matches (xs.map .literal ++ rest) text = true ↔
      ∃ tail, text = xs ++ tail ∧ Matches rest tail = true := by
  induction xs generalizing text with
  | nil => simp
  | cons x xs ih =>
      rw [List.map_cons, List.cons_append, matches_literal]
      constructor
      · rintro ⟨tail, rfl, hmatches⟩
        obtain ⟨tail', rfl, hrest⟩ := ih.mp hmatches
        exact ⟨tail', rfl, hrest⟩
      · rintro ⟨tail, rfl, hrest⟩
        exact ⟨xs ++ tail, rfl, ih.mpr ⟨tail, rfl, hrest⟩⟩

/-- Anything at all. -/
theorem matches_many_nil (text : List α) : Matches [.many] text = true :=
  matches_many.mpr ⟨[], List.nil_suffix, rfl⟩

theorem matches_anywhere {xs text : List α} :
    Matches (.many :: (xs.map .literal ++ [.many])) text = true ↔ xs <:+: text := by
  rw [matches_many]
  constructor
  · rintro ⟨tail, ⟨pre, rfl⟩, hmatches⟩
    obtain ⟨post, rfl, -⟩ := matches_literals_append.mp hmatches
    exact ⟨pre, post, List.append_assoc ..⟩
  · rintro ⟨pre, post, rfl⟩
    refine ⟨xs ++ post, ⟨pre, (List.append_assoc ..).symm⟩, ?_⟩
    exact matches_literals_append.mpr ⟨post, rfl, matches_many_nil post⟩

/-- A text that a pattern matches: `x` for any one symbol, nothing for any number. -/
def spelled (x : α) (pattern : List (Piece α)) : List α :=
  pattern.flatMap fun
    | .literal a => [a]
    | .one => [x]
    | .many => []

theorem matches_spelled (x : α) (pattern : List (Piece α)) :
    Matches pattern (spelled x pattern) = true := by
  induction pattern with
  | nil => rfl
  | cons piece rest ih =>
      cases piece with
      | literal a => exact matches_literal.mpr ⟨_, rfl, ih⟩
      | one => exact ih
      | many => exact matches_many.mpr ⟨_, List.suffix_refl _, ih⟩

omit [DecidableEq α] in
/-- Nothing is spelled but the literal pieces and `x`. -/
theorem mem_spelled {x a : α} {pattern : List (Piece α)} (h : a ∈ spelled x pattern) :
    a = x ∨ .literal a ∈ pattern := by
  obtain ⟨piece, hpiece, ha⟩ := List.mem_flatMap.mp h
  cases piece with
  | literal b =>
      obtain rfl := List.mem_singleton.mp ha
      exact Or.inr hpiece
  | one => exact Or.inl (List.mem_singleton.mp ha)
  | many => cases ha

/-! ## Notation -/

/-- The pieces of a pattern as it is written: `piece` is what a symbol stands for, and
`escape` leaves the symbol after it standing for itself. -/
def parse (escape : Option α) (piece : α → Piece α) : List α → List (Piece α)
  | [] => []
  | [a] => if escape = some a then [] else [piece a]
  | a :: b :: rest =>
      if escape = some a then .literal b :: parse escape piece rest
      else piece a :: parse escape piece (b :: rest)

variable {escape : Option α} {piece : α → Piece α}

theorem parse_cons_of_ne {a : α} (h : escape ≠ some a) (rest : List α) :
    parse escape piece (a :: rest) = piece a :: parse escape piece rest := by
  cases rest with
  | nil => exact if_neg h
  | cons b rest => exact if_neg h

theorem parse_escape_cons (e b : α) (rest : List α) :
    parse (some e) piece (e :: b :: rest) = .literal b :: parse (some e) piece rest :=
  if_pos rfl

/-- Where nothing escapes, every symbol stands for what it stands for alone. -/
theorem parse_eq_map {pattern : List α} (h : ∀ a ∈ pattern, escape ≠ some a) :
    parse escape piece pattern = pattern.map piece := by
  induction pattern with
  | nil => rfl
  | cons a rest ih =>
      rw [List.map_cons, parse_cons_of_ne (h a List.mem_cons_self)]
      rw [ih fun b hb => h b (List.mem_cons_of_mem a hb)]

/-- A literal piece is a symbol of the pattern. -/
theorem mem_of_literal_mem_parse (hpiece : ∀ a b, piece a = .literal b → a = b) {a : α}
    {pattern : List α} (h : .literal a ∈ parse escape piece pattern) : a ∈ pattern := by
  fun_induction parse escape piece pattern with
  | case1 => cases h
  | case2 b hescape => cases h
  | case3 b hescape =>
      obtain rfl := hpiece b a (List.mem_singleton.mp h).symm
      exact List.mem_singleton.mpr rfl
  | case4 b c rest hescape ih =>
      apply List.mem_cons_of_mem
      rcases List.mem_cons.mp h with hliteral | hrest
      · cases hliteral
        exact List.mem_cons_self
      · exact List.mem_cons_of_mem c (ih hrest)
  | case5 b c rest hescape ih =>
      rcases List.mem_cons.mp h with hliteral | hrest
      · obtain rfl := hpiece b a hliteral.symm
        exact List.mem_cons_self
      · exact List.mem_cons_of_mem b (ih hrest)

omit [DecidableEq α] in
theorem spelled_cons (x : α) (p : Piece α) (rest : List (Piece α)) :
    spelled x (p :: rest) = spelled x [p] ++ spelled x rest := by
  simp [spelled]

/-- What a symbol that does not escape spells is not the escaping one. -/
theorem count_spelled_piece {e x a : α} (hx : x ≠ e)
    (hpiece : ∀ a b, piece a = .literal b → a = b) (h : some e ≠ some a) :
    (spelled x [piece a]).count e = 0 := by
  rw [List.count_eq_zero]
  intro hmem
  rcases mem_spelled hmem with rfl | hliteral
  · exact hx rfl
  · obtain rfl := hpiece a e (List.mem_singleton.mp hliteral).symm
    exact h rfl

/-- Each escaping symbol that is spelled takes two in the pattern. -/
theorem two_mul_count_spelled {e x : α} (hx : x ≠ e)
    (hpiece : ∀ a b, piece a = .literal b → a = b) (pattern : List α) :
    2 * (spelled x (parse (some e) piece pattern)).count e ≤ pattern.count e := by
  fun_induction parse (some e) piece pattern with
  | case1 => exact Nat.zero_le _
  | case2 a hescape => exact Nat.zero_le _
  | case3 a hescape =>
      rw [count_spelled_piece hx hpiece hescape]
      exact Nat.zero_le _
  | case4 a b rest hescape ih =>
      obtain rfl := Option.some.inj hescape
      rw [spelled_cons, List.count_append, List.count_cons_self, List.count_cons]
      have hb : (spelled x [.literal b]).count e = if b == e then 1 else 0 := by
        simp [spelled, List.count_singleton]
      rw [hb]
      split <;> omega
  | case5 a b rest hescape ih =>
      have hne : a ≠ e := fun h => hescape (h ▸ rfl)
      rw [spelled_cons, List.count_append, count_spelled_piece hx hpiece hescape, Nat.zero_add,
        List.count_cons_of_ne hne]
      exact ih

end Pattern

end Jumbox
