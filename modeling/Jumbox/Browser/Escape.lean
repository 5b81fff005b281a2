import Jumbox.Library.Substitution

/-!
# `escapeHtml`

What the page puts into its markup goes through the five replacements of
`escapeHtml` in `static/app.js`. A string of JavaScript is a sequence of code
units, and so are the matches of a regular expression without the flag `u`; a
string with lone surrogates is escaped like any other.
-/

namespace Jumbox

namespace Browser

open Substitution (Rule atOnce decode inTurn replaceAll textOf)

/-- The code units of a string. -/
abbrev JsString := List UInt16

/-- The code unit of a character below `0x10000`. -/
def unit (c : Char) : UInt16 := UInt16.ofNat c.toNat

/-- A literal. -/
def js (literal : String) : JsString := literal.toList.map unit

/-- `s.replace(/c/g, text)`, where `text` has no `$`. -/
def replace (c : Char) (text : String) (s : JsString) : JsString :=
  replaceAll (unit c) (js text) s

/-- `none` is `null` and `undefined`; the string is `String(str)`. -/
def escapeHtml (str : Option JsString) : JsString :=
  match str with
  | none => []
  | some s =>
      s |> replace '&' "&amp;"
        |> replace '<' "&lt;"
        |> replace '>' "&gt;"
        |> replace '"' "&quot;"
        |> replace '\'' "&#039;"

/-! ## What it is for -/

/-- The five characters and the entities that are shown as them. -/
def entities : List (Rule UInt16) :=
  [⟨unit '&', js "&amp;"⟩, ⟨unit '<', js "&lt;"⟩, ⟨unit '>', js "&gt;"⟩,
    ⟨unit '"', js "&quot;"⟩, ⟨unit '\'', js "&#039;"⟩]

/-- One code unit escaped. -/
def escapeUnit (c : UInt16) : JsString :=
  if c = unit '&' then js "&amp;"
  else if c = unit '<' then js "&lt;"
  else if c = unit '>' then js "&gt;"
  else if c = unit '"' then js "&quot;"
  else if c = unit '\'' then js "&#039;"
  else [c]

/-- `shown` is `s`, escaped in one pass. Nothing in it can end a text or an attribute,
each ampersand is the first character of an entity, and reading the entities gives
`s` back. -/
structure Escaped (s shown : JsString) : Prop where
  onePass : shown = s.flatMap escapeUnit
  inert : unit '<' ∉ shown ∧ unit '>' ∉ shown ∧ unit '"' ∉ shown ∧ unit '\'' ∉ shown
  ampersand : ∀ before after, shown = before ++ unit '&' :: after →
    ∃ entity ∈ entities, entity.text <+: unit '&' :: after
  decoded : decode entities shown = s

/-! ## The passes do not meet -/

theorem textOf_entities : textOf entities = escapeUnit := rfl

theorem marked_entities : Substitution.Marked (unit '&') entities where
  replaced := by decide
  starts := by decide
  goesOn := by
    intro rule hrule c hc rule' hrule'
    -- as a Boolean, so that only the code units of the entities are tried
    have hall : entities.all (fun rule => rule.text.tail.all fun c =>
        entities.all fun rule' => c ≠ rule'.symbol) = true := by decide
    have htail := List.all_eq_true.mp (List.all_eq_true.mp hall rule hrule) c hc
    exact of_decide_eq_true (List.all_eq_true.mp htail rule' hrule')
  apart := by decide

/-- The ampersand is in every entity, so its pass has to be the first. -/
theorem escapeHtml_eq_atOnce (s : JsString) : escapeHtml (some s) = atOnce entities s := by
  have hturns : escapeHtml (some s) = inTurn entities s := rfl
  rw [hturns]
  exact Substitution.inTurn_eq_atOnce (by decide) s

theorem escapeHtml_escaped (s : JsString) : Escaped s (escapeHtml (some s)) := by
  rw [escapeHtml_eq_atOnce]
  have hgone : ∀ c, (∃ entity ∈ entities, entity.symbol = c) → c ≠ unit '&' →
      c ∉ atOnce entities s := by
    rintro c ⟨entity, hentity, rfl⟩ hother hmem
    rcases marked_entities.mem_atOnce hmem with hmark | hne
    · exact hother hmark
    · exact hne entity hentity rfl
  constructor
  · rw [← textOf_entities]
    rfl
  · refine ⟨?_, ?_, ?_, ?_⟩
    · exact hgone _ (by decide) (by decide)
    · exact hgone _ (by decide) (by decide)
    · exact hgone _ (by decide) (by decide)
    · exact hgone _ (by decide) (by decide)
  · intro before after hshown
    exact marked_entities.prefix_of_mark hshown
  · exact marked_entities.decode_atOnce s

/-- Every string is escaped completely, and no two strings are shown alike. -/
theorem escapeHtml_complete_lossless :
    (∀ s, Escaped s (escapeHtml (some s))) ∧
      Function.Injective fun s => escapeHtml (some s) := by
  refine ⟨escapeHtml_escaped, ?_⟩
  intro s s' hsame
  calc s = decode entities (escapeHtml (some s)) := (escapeHtml_escaped s).decoded.symm
    _ = decode entities (escapeHtml (some s')) := congrArg (decode entities) hsame
    _ = s' := (escapeHtml_escaped s').decoded

/-- Text that looks like an entity is shown as it is. -/
example : escapeHtml (some (js "<b> &lt;")) = js "&lt;b&gt; &amp;lt;" := by decide

end Browser

end Jumbox
