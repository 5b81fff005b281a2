import Mathlib.Data.List.Infix

/-!
# Replacing symbols by texts

Rules that are applied one after the other see what the rules before them have
written. Where no symbol stands in the text of an earlier rule, that makes no
difference (`inTurn_eq_atOnce`). A set of rules whose texts start with a mark,
which is itself replaced and stands nowhere else in the texts, can be undone: the
marks in the result are the beginnings of the texts (`Marked.prefix_of_mark`),
and replacing these by their symbols gives the input back (`Marked.decode_atOnce`).
-/

namespace Jumbox

universe u

namespace Substitution

variable {α : Type u} [DecidableEq α]

/-- A symbol and the text that takes its place. -/
structure Rule (α : Type u) where
  symbol : α
  text : List α
deriving DecidableEq

def replaceAll (symbol : α) (text s : List α) : List α :=
  s.flatMap fun c => if c = symbol then text else [c]

/-- One rule after the other, each on what the one before it has left. -/
def inTurn (rules : List (Rule α)) (s : List α) : List α :=
  rules.foldl (fun s rule => replaceAll rule.symbol rule.text s) s

/-- What takes the place of one symbol; the first rule for it counts. -/
def textOf : List (Rule α) → α → List α
  | [], c => [c]
  | rule :: rest, c => if c = rule.symbol then rule.text else textOf rest c

/-- All rules in a single pass. -/
def atOnce (rules : List (Rule α)) (s : List α) : List α := s.flatMap (textOf rules)

/-- Reads texts back as their symbols, from left to right; the next `skip` symbols
belong to a text that has been read. -/
def decodeFrom (rules : List (Rule α)) : ℕ → List α → List α
  | _, [] => []
  | skip + 1, _ :: rest => decodeFrom rules skip rest
  | 0, c :: rest =>
      match rules.find? fun rule => rule.text <+: c :: rest with
      | some rule => rule.symbol :: decodeFrom rules (rule.text.length - 1) rest
      | none => c :: decodeFrom rules 0 rest

def decode (rules : List (Rule α)) (s : List α) : List α := decodeFrom rules 0 s

variable {rules : List (Rule α)} {c : α}

/-! ## One pass and several -/

theorem textOf_of_ne (h : ∀ rule ∈ rules, c ≠ rule.symbol) : textOf rules c = [c] := by
  induction rules with
  | nil => rfl
  | cons rule rest ih =>
      rw [textOf, if_neg (h rule List.mem_cons_self)]
      exact ih fun rule' hrule' => h rule' (List.mem_cons_of_mem _ hrule')

theorem textOf_cases (rules : List (Rule α)) (c : α) :
    (∃ rule ∈ rules, rule.symbol = c ∧ textOf rules c = rule.text) ∨
      (∀ rule ∈ rules, c ≠ rule.symbol) := by
  induction rules with
  | nil => exact Or.inr fun rule hrule => absurd hrule List.not_mem_nil
  | cons rule rest ih =>
      by_cases hc : c = rule.symbol
      · exact Or.inl ⟨rule, List.mem_cons_self, hc.symm, if_pos hc⟩
      · rcases ih with ⟨rule', hrule', hsymbol, htext⟩ | hne
        · refine Or.inl ⟨rule', List.mem_cons_of_mem _ hrule', hsymbol, ?_⟩
          rw [textOf, if_neg hc, htext]
        · refine Or.inr fun rule' hrule' => ?_
          rcases List.mem_cons.mp hrule' with rfl | hrule'
          · exact hc
          · exact hne rule' hrule'

theorem atOnce_eq_self {s : List α} (h : ∀ c ∈ s, ∀ rule ∈ rules, c ≠ rule.symbol) :
    atOnce rules s = s := by
  induction s with
  | nil => rfl
  | cons c s ih =>
      rw [atOnce, List.flatMap_cons, textOf_of_ne (h c List.mem_cons_self), ← atOnce,
        ih fun d hd => h d (List.mem_cons_of_mem _ hd)]
      rfl

/-- A pass leaves the texts of the passes before it alone if its symbol is in none
of them. -/
theorem inTurn_eq_atOnce (h : rules.Pairwise fun rule later => later.symbol ∉ rule.text)
    (s : List α) : inTurn rules s = atOnce rules s := by
  induction rules generalizing s with
  | nil => exact (atOnce_eq_self fun _ _ rule hrule => absurd hrule List.not_mem_nil).symm
  | cons rule rest ih =>
      obtain ⟨hlater, hrest⟩ := List.pairwise_cons.mp h
      have hkept : rule.text.flatMap (textOf rest) = rule.text := by
        apply atOnce_eq_self
        rintro c hc later hmem rfl
        exact hlater later hmem hc
      calc inTurn (rule :: rest) s
          = inTurn rest (replaceAll rule.symbol rule.text s) := rfl
        _ = atOnce rest (replaceAll rule.symbol rule.text s) := ih hrest _
        _ = s.flatMap fun c =>
              (if c = rule.symbol then rule.text else [c]).flatMap (textOf rest) :=
            List.flatMap_assoc
        _ = atOnce (rule :: rest) s := by
            refine List.flatMap_congr fun c _ => ?_
            rw [textOf]
            split
            · exact hkept
            · exact List.flatMap_singleton _ _

/-! ## Marked texts -/

/-- The mark is replaced; every text starts with it and goes on without a symbol that
is replaced; and no text starts with another one. -/
structure Marked (mark : α) (rules : List (Rule α)) : Prop where
  replaced : ∃ rule ∈ rules, rule.symbol = mark
  starts : ∀ rule ∈ rules, rule.text.head? = some mark
  goesOn : ∀ rule ∈ rules, ∀ c ∈ rule.text.tail, ∀ rule' ∈ rules, c ≠ rule'.symbol
  apart : ∀ rule ∈ rules, ∀ rule' ∈ rules, rule.text <+: rule'.text → rule = rule'

namespace Marked

variable {mark : α} (h : Marked mark rules)
include h

omit [DecidableEq α] in
theorem text_eq {rule : Rule α} (hrule : rule ∈ rules) :
    rule.text = mark :: rule.text.tail :=
  (List.cons_head?_tail (h.starts rule hrule)).symm

omit [DecidableEq α] in
theorem ne_mark (hc : ∀ rule ∈ rules, c ≠ rule.symbol) : c ≠ mark := by
  obtain ⟨rule, hrule, rfl⟩ := h.replaced
  exact hc rule hrule

omit [DecidableEq α] in
theorem mark_notMem_tail {rule : Rule α} (hrule : rule ∈ rules) : mark ∉ rule.text.tail := by
  obtain ⟨markRule, hmark, hsymbol⟩ := h.replaced
  intro hmem
  exact h.goesOn rule hrule mark hmem markRule hmark hsymbol.symm

/-- Of the symbols that are replaced only the mark is left. -/
theorem mem_atOnce {s : List α} (hc : c ∈ atOnce rules s) :
    c = mark ∨ ∀ rule ∈ rules, c ≠ rule.symbol := by
  obtain ⟨d, -, hc⟩ := List.mem_flatMap.mp hc
  rcases textOf_cases rules d with ⟨rule, hrule, -, htext⟩ | hne
  · rw [htext, h.text_eq hrule] at hc
    rcases List.mem_cons.mp hc with rfl | hc
    · exact Or.inl rfl
    · exact Or.inr (h.goesOn rule hrule c hc)
  · rw [textOf_of_ne hne] at hc
    obtain rfl := List.mem_singleton.mp hc
    exact Or.inr hne

/-- Where there is a mark a text starts. -/
theorem prefix_of_mark {s pre post : List α} (hs : atOnce rules s = pre ++ mark :: post) :
    ∃ rule ∈ rules, rule.text <+: mark :: post := by
  induction s generalizing pre with
  | nil => exact absurd hs (by simp [atOnce])
  | cons c s ih =>
      rw [atOnce, List.flatMap_cons, ← atOnce] at hs
      rcases List.append_eq_append_iff.mp hs with ⟨pre', -, hrest⟩ | ⟨post', hpiece, hrest⟩
      · exact ih hrest
      · cases post' with
        | nil =>
            have hs' : atOnce rules s = [] ++ mark :: post := hrest.symm
            exact ih hs'
        | cons d post' =>
            -- the mark stands in what takes the place of `c`
            obtain ⟨rfl, hpost⟩ := List.cons.inj hrest
            rcases textOf_cases rules c with ⟨rule, hrule, -, htext⟩ | hne
            · rw [htext] at hpiece
              refine ⟨rule, hrule, ?_⟩
              cases pre with
              | nil => exact ⟨atOnce rules s, by rw [hpiece, hpost]; rfl⟩
              | cons e pre =>
                  exfalso
                  apply h.mark_notMem_tail hrule
                  rw [hpiece]
                  simp
            · exfalso
              rw [textOf_of_ne hne] at hpiece
              have hmem : mark ∈ [c] := by
                rw [hpiece]
                simp
              exact h.ne_mark hne (List.mem_singleton.mp hmem).symm

omit h in
theorem decodeFrom_append (read rest : List α) :
    decodeFrom rules read.length (read ++ rest) = decodeFrom rules 0 rest := by
  induction read with
  | nil => rfl
  | cons c read ih => exact ih

theorem decodeFrom_text {rule : Rule α} (hrule : rule ∈ rules) (rest : List α) :
    decodeFrom rules 0 (rule.text ++ rest) = rule.symbol :: decodeFrom rules 0 rest := by
  have hfind : rules.find? (fun rule' => rule'.text <+: rule.text ++ rest) = some rule := by
    cases hfind : rules.find? (fun rule' => rule'.text <+: rule.text ++ rest) with
    | none =>
        have hnot := List.find?_eq_none.mp hfind rule hrule
        exact absurd (decide_eq_true (List.prefix_append rule.text rest)) hnot
    | some rule' =>
        have hrule' := List.mem_of_find?_eq_some hfind
        have hprefix := List.find?_some hfind
        rw [decide_eq_true_eq] at hprefix
        rcases List.prefix_or_prefix_of_prefix hprefix (List.prefix_append rule.text rest) with
          hle | hle
        · rw [h.apart rule' hrule' rule hrule hle]
        · rw [h.apart rule hrule rule' hrule' hle]
  have htail : rule.text.length - 1 = rule.text.tail.length := List.length_tail.symm
  rw [h.text_eq hrule, List.cons_append] at hfind ⊢
  rw [decodeFrom, hfind]
  dsimp only
  rw [htail, decodeFrom_append]

theorem decodeFrom_of_ne (hc : ∀ rule ∈ rules, c ≠ rule.symbol) (rest : List α) :
    decodeFrom rules 0 (c :: rest) = c :: decodeFrom rules 0 rest := by
  have hfind : rules.find? (fun rule => rule.text <+: c :: rest) = none := by
    apply List.find?_eq_none.mpr
    intro rule hrule hprefix
    have hstart := of_decide_eq_true hprefix
    rw [h.text_eq hrule] at hstart
    exact h.ne_mark hc (List.cons_prefix_cons.mp hstart).1.symm
  rw [decodeFrom, hfind]

/-- The texts are read back. -/
theorem decode_atOnce (s : List α) : decode rules (atOnce rules s) = s := by
  unfold decode
  induction s with
  | nil => rfl
  | cons c s ih =>
      rw [atOnce, List.flatMap_cons, ← atOnce]
      rcases textOf_cases rules c with ⟨rule, hrule, hsymbol, htext⟩ | hne
      · rw [htext, h.decodeFrom_text hrule, hsymbol, ih]
      · rw [textOf_of_ne hne, List.singleton_append, h.decodeFrom_of_ne hne, ih]

end Marked

end Substitution

end Jumbox
