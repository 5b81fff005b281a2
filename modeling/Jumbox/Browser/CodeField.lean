import Jumbox.Api.Sessions
import Jumbox.Sessions.Kept

/-!
# The code field

The field of the receive page (`setupReceivePage` in `static/app.js`) rewrites what is in
it after every edit: capital letters and digits only, with a hyphen after the fourth. With
eight of them there it looks the session up. The browser cuts what is typed or pasted to
`maxlength` code units before the handler sees it.
-/

namespace Jumbox

namespace Browser

/-- `toUpperCase`, which maps every character for itself. -/
structure UpperCase where
  ofChar : Char → Str
  ascii : ∀ c : Char, c.toNat < 128 → ofChar c = [c.toUpper]
  space : ∀ c : Char, Str.isSpace c = true → ofChar c = [c]
  /-- A character of two code units maps to no letter of ASCII. -/
  astral : ∀ c : Char, 0xFFFF < c.toNat → ∀ x ∈ ofChar c, 128 ≤ x.toNat

theorem toUpper_of_not_lower {c : Char} (h : c.toNat < 97 ∨ 122 < c.toNat) : c.toUpper = c := by
  unfold Char.toUpper
  rw [dif_neg]
  rintro ⟨hlow, hhigh⟩
  have hlow : 97 ≤ c.toNat := UInt32.le_iff_toNat_le.mp hlow
  have hhigh : c.toNat ≤ 122 := UInt32.le_iff_toNat_le.mp hhigh
  omega

theorem toUpper_of_isSpace {c : Char} (h : Str.isSpace c = true) : c.toUpper = c := by
  apply toUpper_of_not_lower
  simp only [Str.isSpace, Bool.or_eq_true, Bool.and_eq_true, decide_eq_true_eq, beq_iff_eq] at h
  omega

theorem le_of_mem_toUpper {c x : Char} (h : 0xFFFF < c.toNat) (hx : x ∈ [c.toUpper]) :
    128 ≤ x.toNat := by
  obtain rfl := List.mem_singleton.mp hx
  rw [toUpper_of_not_lower (.inr (by omega))]
  omega

/-- A browser that knows the letters of ASCII only. -/
def UpperCase.ofAscii : UpperCase where
  ofChar c := [c.toUpper]
  ascii _ _ := rfl
  space _ h := congrArg (fun d => [d]) (toUpper_of_isSpace h)
  astral _ h _ hx := le_of_mem_toUpper h hx

namespace CodeField

/-! ## The handler -/

/-- `[A-Z0-9]` -/
def isCodeChar (c : Char) : Bool := c.isUpper || c.isDigit

/-- `codeInput.value.toUpperCase().replace(/[^A-Z0-9]/g, '')` -/
def clean (upper : UpperCase) (text : Str) : Str := (text.flatMap upper.ofChar).filter isCodeChar

def format (val : Str) : Str :=
  if 4 < val.length then val.take 4 ++ '-' :: (val.drop 4).take 4 else val

/-- The code that `loadSession` asks for, if any. -/
def cleanCode (code : Str) : Option Str :=
  let cleanCode := Str.strip (code.filter fun c => c.isAlphanum || c = '-')
  if cleanCode = [] then none else some cleanCode

/-- The `input` handler: what it leaves in the field, and the code it looks up. -/
def onInput (upper : UpperCase) (value : Str) : Str × Option Str :=
  let val := format (clean upper value)
  (val, if (val.erase '-').length = 8 then cleanCode val else none)

/-! ## Edits -/

/-- `maxlength` -/
def maxLength : ℕ := 9

/-- The code units of a character. -/
def units (c : Char) : ℕ := if 0xFFFF < c.toNat then 2 else 1

def unitsOf (text : Str) : ℕ := (text.map units).sum

/-- What the browser takes of a text where `room` code units are left. -/
def fit : ℕ → Str → Str
  | _, [] => []
  | room, c :: text => if units c ≤ room then c :: fit (room - units c) text else []

/-- A text is entered at the end of the field. Nothing happens if nothing of it fits. -/
def enter (upper : UpperCase) (value text : Str) : Str × Option Str :=
  let added := fit (maxLength - unitsOf value) text
  if added = [] then (value, none) else onInput upper (value ++ added)

/-- A key is pressed: the field, and the codes looked up so far. -/
def press (upper : UpperCase) (field : Str × List Str) (key : Char) : Str × List Str :=
  let (value, code) := enter upper field.1 [key]
  (value, field.2 ++ code.toList)

/-- A text is typed into the empty field, key by key. -/
def typed (upper : UpperCase) (text : Str) : Str × List Str :=
  text.foldl (press upper) ([], [])

/-- A text is pasted into the empty field. -/
def pasted (upper : UpperCase) (text : Str) : Str × Option Str := enter upper [] text

/-! ## What the handler keeps -/

section Kept

variable {upper : UpperCase}

theorem toNat_of_isCodeChar {c : Char} (h : isCodeChar c = true) : c.toNat < 128 := by
  rcases Bool.or_eq_true_iff.mp h with hupper | hdigit
  · have := (Str.isUpper_iff.mp hupper).2
    exact Nat.lt_of_le_of_lt this (by decide)
  · exact Nat.lt_of_le_of_lt (Str.toNat_of_isDigit hdigit).2 (by decide)

theorem toUpper_of_isCodeChar {c : Char} (h : isCodeChar c = true) : c.toUpper = c := by
  rcases Bool.or_eq_true_iff.mp h with hupper | hdigit
  · have := Str.isUpper_iff.mp hupper
    unfold Char.toUpper
    rw [dif_neg]
    rintro ⟨hlow, -⟩
    have hlow : 97 ≤ c.toNat := UInt32.le_iff_toNat_le.mp hlow
    omega
  · exact Str.toUpper_of_isDigit hdigit

theorem isAlphanum_of_isCodeChar {c : Char} (h : isCodeChar c = true) : c.isAlphanum = true := by
  show ((c.isUpper || c.isLower) || c.isDigit) = true
  rcases Bool.or_eq_true_iff.mp h with hupper | hdigit
  · rw [hupper, Bool.true_or, Bool.true_or]
  · rw [hdigit, Bool.or_true]

theorem isSpace_of_isCodeChar {c : Char} (h : isCodeChar c = true) : Str.isSpace c = false := by
  rcases Bool.or_eq_true_iff.mp h with hupper | hdigit
  · have := Str.isUpper_iff.mp hupper
    simp only [Str.isSpace, Bool.or_eq_false_iff, Bool.and_eq_false_iff, decide_eq_false_iff_not,
      beq_eq_false_iff_ne]
    omega
  · exact Str.isSpace_of_isDigit hdigit

theorem clean_append (x y : Str) : clean upper (x ++ y) = clean upper x ++ clean upper y := by
  simp only [clean, List.flatMap_append, List.filter_append]

theorem isCodeChar_of_mem_clean {text : Str} {c : Char} (h : c ∈ clean upper text) :
    isCodeChar c = true := (List.mem_filter.mp h).2

theorem clean_of_isCodeChar {x : Str} (h : ∀ c ∈ x, isCodeChar c = true) : clean upper x = x := by
  induction x with
  | nil => rfl
  | cons c x ih =>
      have hc : isCodeChar c = true := h c List.mem_cons_self
      have hone : clean upper [c] = [c] := by
        simp only [clean, List.flatMap_cons, List.flatMap_nil, List.append_nil,
          upper.ascii c (toNat_of_isCodeChar hc), toUpper_of_isCodeChar hc, List.filter_cons, hc,
          List.filter_nil, if_true]
      rw [← List.singleton_append, clean_append, hone,
        ih fun d hd => h d (List.mem_cons_of_mem c hd)]

theorem clean_hyphen : clean upper ['-'] = [] := by
  simp only [clean, List.flatMap_cons, List.flatMap_nil, List.append_nil,
    upper.ascii '-' (by decide)]
  decide

theorem clean_astral {c : Char} (h : 0xFFFF < c.toNat) : clean upper [c] = [] := by
  simp only [clean, List.flatMap_cons, List.flatMap_nil, List.append_nil]
  refine List.filter_eq_nil_iff.mpr fun x hx hcode => ?_
  exact absurd (toNat_of_isCodeChar hcode) (Nat.not_lt.mpr (upper.astral c h x hx))

theorem clean_of_isSpace {x : Str} (h : ∀ c ∈ x, Str.isSpace c = true) : clean upper x = [] := by
  induction x with
  | nil => rfl
  | cons c x ih =>
      have hc : Str.isSpace c = true := h c List.mem_cons_self
      have hone : clean upper [c] = [] := by
        simp only [clean, List.flatMap_cons, List.flatMap_nil, List.append_nil, upper.space c hc]
        refine List.filter_eq_nil_iff.mpr fun d hd hcode => ?_
        obtain rfl := List.mem_singleton.mp hd
        rw [isSpace_of_isCodeChar hcode] at hc
        cases hc
      rw [← List.singleton_append, clean_append, hone,
        ih fun d hd => h d (List.mem_cons_of_mem c hd)]
      rfl

/-- Cleaning a value takes its hyphen out again. -/
theorem clean_format {x : Str} (h : ∀ c ∈ x, isCodeChar c = true) (hle : x.length ≤ 8) :
    clean upper (format x) = x := by
  unfold format
  split
  · have hrest : (x.drop 4).take 4 = x.drop 4 := by
      rw [List.take_of_length_le]
      rw [List.length_drop]
      omega
    rw [hrest, ← List.singleton_append (x := '-'), clean_append, clean_append, clean_hyphen,
      clean_of_isCodeChar fun c hc => h c (List.mem_of_mem_take hc),
      clean_of_isCodeChar fun c hc => h c (List.mem_of_mem_drop hc), List.nil_append,
      List.take_append_drop]
  · exact clean_of_isCodeChar h

theorem format_take (x : Str) : format (x.take 8) = format x := by
  unfold format
  rw [List.length_take, List.take_take, List.drop_take, List.take_take]
  by_cases hlt : 4 < x.length
  · rw [if_pos hlt, if_pos (lt_min (by decide) hlt)]
    rfl
  · rw [if_neg hlt, if_neg fun h => hlt (lt_of_lt_of_le h (min_le_right _ _)),
      List.take_of_length_le (by omega)]

theorem length_format {x : Str} (hle : x.length ≤ 8) :
    (format x).length = if 4 < x.length then x.length + 1 else x.length := by
  unfold format
  split
  · simp only [List.length_append, List.length_cons, List.length_take, List.length_drop]
    omega
  · rfl

theorem mem_format {x : Str} {c : Char} (h : c ∈ format x) : c ∈ x ∨ c = '-' := by
  unfold format at h
  split at h
  · rcases List.mem_append.mp h with h | h
    · exact .inl (List.mem_of_mem_take h)
    · rcases List.mem_cons.mp h with rfl | h
      · exact .inr rfl
      · exact .inl (List.mem_of_mem_drop (List.mem_of_mem_take h))
  · exact .inl h

theorem unitsOf_of_ascii {text : Str} (h : ∀ c ∈ text, c.toNat < 128) :
    unitsOf text = text.length := by
  induction text with
  | nil => rfl
  | cons c text ih =>
      have hc : units c = 1 := if_neg (by have := h c List.mem_cons_self; omega)
      have hrest := ih fun d hd => h d (List.mem_cons_of_mem c hd)
      unfold unitsOf at hrest ⊢
      rw [List.map_cons, List.sum_cons, hc, hrest, List.length_cons, add_comm]

theorem unitsOf_format {x : Str} (h : ∀ c ∈ x, isCodeChar c = true) :
    unitsOf (format x) = (format x).length := by
  refine unitsOf_of_ascii fun c hc => ?_
  rcases mem_format hc with hx | rfl
  · exact toNat_of_isCodeChar (h c hx)
  · decide

theorem fit_single (room : ℕ) (c : Char) : fit room [c] = if units c ≤ room then [c] else [] := by
  unfold fit
  split
  · rfl
  · rfl

/-- The characters besides the hyphen. -/
theorem length_erase_format {x : Str} (h : ∀ c ∈ x, isCodeChar c = true) (hle : x.length ≤ 8) :
    ((format x).erase '-').length = x.length := by
  have hlength := length_format hle
  have hnot : '-' ∉ x := fun hmem => absurd (h '-' hmem) (by decide)
  unfold format at hlength ⊢
  split
  · rename_i hlong
    rw [if_pos hlong, if_pos hlong] at hlength
    rw [List.length_erase_of_mem (by simp), hlength]
    rfl
  · rw [List.erase_of_not_mem hnot]

theorem cleanCode_format {x : Str} (h : ∀ c ∈ x, isCodeChar c = true) (hne : x ≠ []) :
    cleanCode (format x) = some (format x) := by
  have hkeep : (format x).filter (fun c => c.isAlphanum || c = '-') = format x := by
    refine List.filter_eq_self.mpr fun c hc => ?_
    rcases mem_format hc with hx | rfl
    · rw [isAlphanum_of_isCodeChar (h c hx), Bool.true_or]
    · rfl
  have hspace : ∀ c ∈ format x, Str.isSpace c = false := by
    intro c hc
    rcases mem_format hc with hx | rfl
    · exact isSpace_of_isCodeChar (h c hx)
    · decide
  have hstrip : Str.strip (format x) = format x := Str.strip_eq_self hspace
  have hformat : format x ≠ [] := by
    intro hnil
    unfold format at hnil
    split at hnil
    · simp at hnil
    · exact hne hnil
  rw [cleanCode, hkeep, hstrip, if_neg hformat]

/-- The field holds the first eight letters and digits of the text, and looks them up if
there are eight. -/
theorem onInput_eq (value : Str) :
    onInput upper value = (format ((clean upper value).take 8),
      if 8 ≤ (clean upper value).length then some (format ((clean upper value).take 8))
      else none) := by
  have hcode : ∀ c ∈ (clean upper value).take 8, isCodeChar c = true :=
    fun c hc => isCodeChar_of_mem_clean (List.mem_of_mem_take hc)
  have hlength : ((clean upper value).take 8).length = min 8 (clean upper value).length :=
    List.length_take
  unfold onInput
  dsimp only
  rw [← format_take, length_erase_format hcode (by omega), hlength]
  by_cases hle : 8 ≤ (clean upper value).length
  · rw [if_pos (by omega), if_pos hle, cleanCode_format hcode]
    intro hnil
    rw [hnil] at hlength
    simp only [List.length_nil] at hlength
    omega
  · rw [if_neg (by omega), if_neg hle]

end Kept

/-! ## Typing -/

section Typing

variable {upper : UpperCase}

/-- What the field has looked up once a text has been typed. -/
def sent (upper : UpperCase) (text : Str) : List Str :=
  if 8 ≤ (clean upper text).length then [format ((clean upper text).take 8)] else []

theorem pasted_eq (text : Str) :
    (pasted upper text).2.toList = sent upper (fit maxLength text) := by
  rw [pasted, enter, show maxLength - unitsOf [] = maxLength from rfl, sent]
  by_cases hnil : fit maxLength text = []
  · rw [if_pos hnil, hnil]
    rfl
  · rw [if_neg hnil, List.nil_append, onInput_eq]
    split
    · rfl
    · rfl

/-- A key typed after a text. -/
theorem press_eq (text : Str) (key : Char) :
    press upper (format ((clean upper text).take 8), sent upper text) key =
      (format ((clean upper (text ++ [key])).take 8), sent upper (text ++ [key])) := by
  have hcode : ∀ c ∈ (clean upper text).take 8, isCodeChar c = true :=
    fun c hc => isCodeChar_of_mem_clean (List.mem_of_mem_take hc)
  have hlength : ((clean upper text).take 8).length = min 8 (clean upper text).length :=
    List.length_take
  have hunits := unitsOf_format hcode
  rw [length_format (by omega)] at hunits
  unfold press enter
  dsimp only
  rw [fit_single, hunits]
  by_cases hfull : 8 ≤ (clean upper text).length
  · -- the field is full: nothing fits
    have hroom : ¬ units key ≤ maxLength -
        (if 4 < ((clean upper text).take 8).length then ((clean upper text).take 8).length + 1
        else ((clean upper text).take 8).length) := by
      have : 0 < units key := by
        unfold units
        split <;> decide
      rw [if_pos (by omega)]
      unfold maxLength
      omega
    have htake : (clean upper (text ++ [key])).take 8 = (clean upper text).take 8 := by
      rw [clean_append, List.take_append_of_le_length hfull]
    have hlong : 8 ≤ (clean upper (text ++ [key])).length := by
      rw [clean_append, List.length_append]
      omega
    rw [if_neg hroom, if_pos rfl, sent, if_pos hfull, sent, if_pos hlong, htake]
    rfl
  · have htake : (clean upper text).take 8 = clean upper text := List.take_of_length_le (by omega)
    have hclean :
        clean upper (format (clean upper text) ++ [key]) = clean upper (text ++ [key]) := by
      rw [clean_append, clean_append, clean_format (fun c hc => isCodeChar_of_mem_clean hc)
        (by omega)]
    have hsent : sent upper text = [] := if_neg hfull
    rw [htake]
    generalize hroom : maxLength - (if 4 < (clean upper text).length then
      (clean upper text).length + 1 else (clean upper text).length) = room
    by_cases hfits : units key ≤ room
    · rw [if_pos hfits, if_neg (List.cons_ne_nil _ _), onInput_eq, hclean, hsent, sent,
        List.nil_append]
      split
      · rfl
      · rfl
    · -- only a character of two code units is too long for the last place
      have hastral : 0xFFFF < key.toNat := by
        by_contra hbasic
        apply hfits
        rw [units, if_neg hbasic, ← hroom]
        unfold maxLength
        split
        · omega
        · omega
      have hsame : clean upper (text ++ [key]) = clean upper text := by
        rw [clean_append, clean_astral hastral, List.append_nil]
      rw [if_neg hfits, if_pos rfl, sent, sent, hsame, htake]
      exact congrArg _ (List.append_nil _)

/-- Typing a text key by key leaves what the text as a whole would, and looks its code up
once. -/
theorem typed_eq (text : Str) :
    typed upper text = (format ((clean upper text).take 8), sent upper text) := by
  induction text using List.reverseRecOn with
  | nil => rfl
  | append_singleton text key ih =>
      unfold typed at ih ⊢
      rw [List.foldl_append, ih]
      exact press_eq text key

end Typing

/-! ## Codes -/

section Codes

open SessionService (Form IsGroup generateSessionCode generateSessionCode_groups render_eq)

variable {upper : UpperCase} {code : Str}

theorem isCodeChar_of_isDigit {c : Char} (h : c.isDigit = true) : isCodeChar c = true := by
  rw [isCodeChar, h, Bool.or_true]

theorem IsGroup.isCodeChar {x : Str} (hx : IsGroup x) : ∀ c ∈ x, isCodeChar c = true :=
  fun c hc => isCodeChar_of_isDigit (hx.2 c hc)

/-- The eight digits of a code, and how the field shows them. -/
theorem bare_of_generated (hcode : ∃ draw, code = generateSessionCode draw) :
    (Form.bare.render code).length = 8 ∧ (∀ c ∈ Form.bare.render code, isCodeChar c = true) ∧
      format (Form.bare.render code) = code := by
  obtain ⟨draw, rfl⟩ := hcode
  obtain ⟨x, y, hx, hy, hdraw⟩ := generateSessionCode_groups draw
  rw [hdraw, render_eq hx hy .bare, Form.separator, List.append_nil]
  have hlength : (x ++ y).length = 8 := by rw [List.length_append, hx.1, hy.1]
  refine ⟨hlength, ?_, ?_⟩
  · intro c hc
    rcases List.mem_append.mp hc with hc | hc
    · exact IsGroup.isCodeChar hx c hc
    · exact IsGroup.isCodeChar hy c hc
  · have htake : (x ++ y).take 4 = x := by rw [← hx.1]; exact List.take_left
    have hdrop : (x ++ y).drop 4 = y := by rw [← hx.1]; exact List.drop_left
    have hall : y.take 4 = y := by rw [← hy.1]; exact List.take_length
    rw [format, if_pos (by rw [hlength]; decide), htake, hdrop, hall]

theorem format_eq_code_iff (hcode : ∃ draw, code = generateSessionCode draw) {x : Str}
    (hx : ∀ c ∈ x, isCodeChar c = true) (hle : x.length ≤ 8) :
    format x = code ↔ x = Form.bare.render code := by
  obtain ⟨hlength, hbare, hformat⟩ := bare_of_generated hcode
  constructor
  · intro h
    have hclean : clean .ofAscii (format x) = x := clean_format hx hle
    rw [h, ← hformat, clean_format hbare hlength.le] at hclean
    exact hclean.symm
  · rintro rfl
    exact hformat

theorem clean_separator (form : Form) : clean upper form.separator = [] := by
  have hspace : clean upper [' '] = [] :=
    clean_of_isSpace fun c hc => by rw [List.mem_singleton.mp hc]; decide
  cases form with
  | hyphenated => exact clean_hyphen
  | bare => rfl
  | displayed =>
      show clean upper ([' '] ++ (['-'] ++ [' '])) = []
      rw [clean_append, clean_append, hspace, clean_hyphen, List.append_nil, List.append_nil]

/-- Only the digits of a code matter, however it is written. -/
theorem clean_of_renders (hcode : ∃ draw, code = generateSessionCode draw) {form : Form}
    {text : Str} (h : form.Renders code text) : clean upper text = Form.bare.render code := by
  obtain ⟨draw, rfl⟩ := hcode
  obtain ⟨pre, post, hpre, hpost, rfl⟩ := h
  obtain ⟨x, y, hx, hy, hdraw⟩ := generateSessionCode_groups draw
  rw [hdraw, render_eq hx hy, render_eq hx hy, clean_append, clean_append, clean_append,
    clean_append, clean_of_isSpace hpre, clean_of_isSpace hpost, clean_separator,
    clean_of_isCodeChar (IsGroup.isCodeChar hx), clean_of_isCodeChar (IsGroup.isCodeChar hy),
    List.append_nil, List.append_nil, List.nil_append]
  exact congrArg (· ++ y) (List.append_nil x).symm

theorem fit_of_ascii {text : Str} (h : ∀ c ∈ text, c.toNat < 128) (room : ℕ) :
    fit room text = text.take room := by
  induction text generalizing room with
  | nil =>
      rw [List.take_nil]
      rfl
  | cons c text ih =>
      have hc : units c = 1 := if_neg (by have := h c List.mem_cons_self; omega)
      have hrest := fun room => ih (fun d hd => h d (List.mem_cons_of_mem c hd)) room
      cases room with
      | zero => rw [fit, hc, if_neg (by decide), List.take_zero]
      | succ room =>
          rw [fit, hc, if_pos (by omega), hrest, List.take_succ_cons]
          rfl

/-- What fits of a form of a code: all of it, or the first two digits of its second
group. -/
theorem fit_render {x y : Str} (hx : IsGroup x) (hy : IsGroup y) (form : Form) :
    fit maxLength (x ++ form.separator ++ y) =
      x ++ form.separator ++ y.take (5 - form.separator.length) := by
  have hseparator : form.separator.all (fun c => decide (c.toNat < 128)) = true := by
    cases form <;> rfl
  have hascii : ∀ c ∈ x ++ form.separator ++ y, c.toNat < 128 := by
    intro c hc
    rcases List.mem_append.mp hc with hc | hc
    · rcases List.mem_append.mp hc with hc | hc
      · exact toNat_of_isCodeChar (IsGroup.isCodeChar hx c hc)
      · exact of_decide_eq_true (List.all_eq_true.mp hseparator c hc)
    · exact toNat_of_isCodeChar (IsGroup.isCodeChar hy c hc)
  have hlength : (x ++ form.separator).length = 4 + form.separator.length := by
    rw [List.length_append, hx.1]
  rw [fit_of_ascii hascii, List.take_append, hlength, List.take_of_length_le]
  · rw [maxLength, Nat.sub_add_eq]
  · rw [hlength, maxLength]
    cases form <;> decide

/-- Of a code pasted as the page shows it six digits are left, and all of them otherwise. -/
theorem clean_fit_render (hcode : ∃ draw, code = generateSessionCode draw) (form : Form) :
    (clean upper (fit maxLength (form.render code))).take 8 = Form.bare.render code ↔
      form ≠ .displayed := by
  obtain ⟨draw, rfl⟩ := hcode
  obtain ⟨x, y, hx, hy, hdraw⟩ := generateSessionCode_groups draw
  have hclean : clean upper (x ++ form.separator ++ y.take (5 - form.separator.length)) =
      x ++ y.take (5 - form.separator.length) := by
    rw [clean_append, clean_append, clean_separator, List.append_nil,
      clean_of_isCodeChar (IsGroup.isCodeChar hx),
      clean_of_isCodeChar fun c hc => IsGroup.isCodeChar hy c (List.mem_of_mem_take hc)]
  rw [hdraw, render_eq hx hy, render_eq hx hy, fit_render hx hy, hclean,
    show Form.bare.separator = [] from rfl, List.append_nil, List.take_of_length_le]
  · rw [List.append_right_inj]
    constructor
    · rintro h rfl
      have hlength := congrArg List.length h
      rw [List.length_take, hy.1] at hlength
      exact absurd hlength (by decide)
    · intro h
      refine List.take_of_length_le ?_
      rw [hy.1]
      cases form with
      | hyphenated => decide
      | bare => decide
      | displayed => exact absurd rfl h
  · rw [List.length_append, List.length_take, hx.1, hy.1]
    omega

end Codes

/-! ## Finding a session -/

section Finding

open SessionService (Form Reachable)

variable {d : Deployment} {s : SessionService.State} {upper : UpperCase}
  {m : TransferSessionModel} {now : ℤ}

/-- One code is looked up, once, and the server answers with the session. -/
def Finds (w : World) (now : ℤ) (m : TransferSessionModel) (codes : List Str) : Prop :=
  ∃ code : Api.SessionCode, codes = [code.val] ∧
    ∃ r, (Api.getSession w now code).1 = .ok r ∧ Api.Details w m r

theorem admitted_of_generated {code : Str}
    (hcode : ∃ draw, code = SessionService.generateSessionCode draw) :
    RateLimiter.AdmittedCode code := by
  obtain ⟨hlength, hbare, hformat⟩ := bare_of_generated hcode
  have hnine := length_format hlength.le
  rw [hformat, hlength, if_pos (by decide)] at hnine
  refine ⟨by omega, by omega, fun c hc => ?_⟩
  rw [← hformat] at hc
  rcases mem_format hc with hc | rfl
  · exact .inl (isAlphanum_of_isCodeChar (hbare c hc))
  · exact .inr rfl

/-- What the field looks up is normalised already: it finds the session of this very code. -/
theorem finds_iff (hs : Reachable d s) (hm : m ∈ s.world.db.sessions.rows) {codes : List Str}
    (hcodes : ∀ code ∈ codes, ∃ x, (∀ c ∈ x, isCodeChar c = true) ∧ code = format x) :
    Finds s.world now m codes ↔ codes = [m.sessionCode] := by
  have hunique := SessionService.codesUnique_of_reachable hs
  constructor
  · rintro ⟨code, rfl, r, hr, hdetails⟩
    obtain ⟨x, hx, hformat⟩ := hcodes code.val (List.mem_singleton_self _)
    obtain ⟨k, hk, hcode, hdetails'⟩ := Api.getSession_ok hr
    obtain rfl : m = k :=
      Table.eq_of_mem hm hk (hdetails.sessionId.symm.trans hdetails'.sessionId)
    have hspace : ∀ c ∈ code.val, Str.isSpace c = false := by
      intro c hc
      rw [hformat] at hc
      rcases mem_format hc with hc | rfl
      · exact isSpace_of_isCodeChar (hx c hc)
      · decide
    have hupper : Str.upper code.val = code.val := by
      conv => rhs; rw [← List.map_id code.val]
      refine List.map_congr_left fun c hc => ?_
      rw [hformat] at hc
      rcases mem_format hc with hc | rfl
      · exact toUpper_of_isCodeChar (hx c hc)
      · decide
    rw [Str.strip_eq_self hspace, hupper] at hcode
    rw [hcode]
  · rintro rfl
    refine ⟨⟨m.sessionCode, admitted_of_generated (hunique.generated m hm)⟩, rfl, ?_⟩
    exact Api.getSession_of_getByCode (hunique.getByCode hm)

theorem mem_sent {text code : Str} (h : code ∈ sent upper text) :
    8 ≤ (clean upper text).length ∧ code = format ((clean upper text).take 8) := by
  unfold sent at h
  split at h
  · rename_i hle
    exact ⟨hle, List.mem_singleton.mp h⟩
  · cases h

theorem sent_finds_iff (hs : Reachable d s) (hm : m ∈ s.world.db.sessions.rows) (text : Str) :
    Finds s.world now m (sent upper text) ↔
      (clean upper text).take 8 = Form.bare.render m.sessionCode := by
  have hgenerated := (SessionService.codesUnique_of_reachable hs).generated m hm
  have hcode : ∀ c ∈ (clean upper text).take 8, isCodeChar c = true :=
    fun c hc => isCodeChar_of_mem_clean (List.mem_of_mem_take hc)
  have hle : ((clean upper text).take 8).length ≤ 8 := List.length_take_le _ _
  rw [finds_iff hs hm fun code h => ⟨_, hcode, (mem_sent h).2⟩,
    ← format_eq_code_iff hgenerated hcode hle]
  constructor
  · intro h
    have hmem : m.sessionCode ∈ sent upper text := h ▸ List.mem_singleton_self _
    exact (mem_sent hmem).2.symm
  · intro h
    have hlength := congrArg List.length ((format_eq_code_iff hgenerated hcode hle).mp h)
    rw [(bare_of_generated hgenerated).1, List.length_take] at hlength
    rw [sent, if_pos (by omega), h]

/-- A typed text finds the session whose digits are its first eight letters and digits, so
that a code can be typed in all its forms, with blanks around it or without. Of a pasted
text only the first nine code units count, and the form that the page itself shows is the
one that does not work. -/
theorem field_finds_session (hs : Reachable d s) (upper : UpperCase)
    (hm : m ∈ s.world.db.sessions.rows) (now : ℤ) :
    (∀ text : Str, Finds s.world now m (typed upper text).2 ↔
      (clean upper text).take 8 = Form.bare.render m.sessionCode) ∧
    (∀ (form : Form) (text : Str), form.Renders m.sessionCode text →
      Finds s.world now m (typed upper text).2) ∧
    (∀ text : Str, Finds s.world now m (pasted upper text).2.toList ↔
      (clean upper (fit maxLength text)).take 8 = Form.bare.render m.sessionCode) ∧
    ∀ form : Form, Finds s.world now m (pasted upper (form.render m.sessionCode)).2.toList ↔
      form ≠ .displayed := by
  have hgenerated := (SessionService.codesUnique_of_reachable hs).generated m hm
  have htyped : ∀ text : Str, Finds s.world now m (typed upper text).2 ↔
      (clean upper text).take 8 = Form.bare.render m.sessionCode := by
    intro text
    rw [typed_eq]
    exact sent_finds_iff hs hm text
  have hpasted : ∀ text : Str, Finds s.world now m (pasted upper text).2.toList ↔
      (clean upper (fit maxLength text)).take 8 = Form.bare.render m.sessionCode := by
    intro text
    rw [pasted_eq]
    exact sent_finds_iff hs hm (fit maxLength text)
  refine ⟨htyped, fun form text h => ?_, hpasted, fun form => ?_⟩
  · rw [htyped, clean_of_renders hgenerated h]
    exact List.take_of_length_le (bare_of_generated hgenerated).1.le
  · rw [hpasted]
    exact clean_fit_render hgenerated form

open SessionService.Sample (create run runs_coded reachable_run) in
/-- The code as the page shows it, typed and pasted. -/
theorem field_finds_session_coded :
    ∃ m ∈ ((run [create false]).get runs_coded).world.db.sessions.rows,
      Finds ((run [create false]).get runs_coded).world 2 m
        (typed .ofAscii "1000 - 1000".toList).2 ∧
      ¬ Finds ((run [create false]).get runs_coded).world 2 m
        (pasted .ofAscii "1000 - 1000".toList).2.toList := by
  have hone : (((run [create false]).get runs_coded).world.db.sessions.rows.map
      (·.sessionCode)) = ["1000-1000".toList] := SessionService.Sample.coded_codes
  obtain ⟨m, hm, hcode⟩ := List.mem_map.mp (hone ▸ List.mem_singleton_self _)
  obtain ⟨-, htyped, -, hpasted⟩ :=
    field_finds_session (reachable_run runs_coded) .ofAscii hm 2
  have hshown : Form.displayed.render m.sessionCode = "1000 - 1000".toList := by
    rw [hcode]
    decide
  refine ⟨m, hm, htyped .displayed _ ⟨[], [], nofun, nofun, ?_⟩, ?_⟩
  · rw [hshown]
    rfl
  · rw [← hshown, hpasted .displayed]
    exact fun h => h rfl

end Finding

end CodeField

end Browser

end Jumbox
