import Jumbox.Sessions.Run

/-!
# Share codes and how they are written

A share code is two groups of four digits with a hyphen between them. The page
shows it with blanks around the hyphen, people leave the hyphen out, and
`get_by_code` only takes the blanks off both ends: it finds the code in its own
spelling and in no other one.
-/

namespace Jumbox

namespace SessionService

/-! ## Generated codes -/

/-- Four digits. -/
def IsGroup (x : Str) : Prop := x.length = 4 ∧ ∀ c ∈ x, c.isDigit = true

theorem isGroup_pad4 {n : ℕ} (hlow : 1000 ≤ n) (hhigh : n < 10000) : IsGroup (pad4 n) := by
  have hle : (Nat.toDigits 10 n).length ≤ 4 :=
    (Nat.length_toDigits_le_iff (by decide) (by decide)).mpr hhigh
  have hgt : ¬ (Nat.toDigits 10 n).length ≤ 3 := by
    rw [Nat.length_toDigits_le_iff (by decide) (by decide)]
    exact not_lt.mpr hlow
  have hlength : (Nat.toDigits 10 n).length = 4 := by omega
  have hpad : pad4 n = Nat.toDigits 10 n := by simp [pad4, hlength]
  rw [hpad]
  refine ⟨hlength, ?_⟩
  intro c hc
  exact Nat.isDigit_of_mem_toDigits (by decide) (by decide) hc

theorem generateSessionCode_groups (draw : Fin 9000 × Fin 9000) :
    ∃ x y, IsGroup x ∧ IsGroup y ∧ generateSessionCode draw = x ++ '-' :: y :=
  ⟨_, _, isGroup_pad4 (by omega) (by omega), isGroup_pad4 (by omega) (by omega), rfl⟩

/-! ## Renderings -/

/-- `formatSessionCode` of the page. -/
def formatSessionCode (code : Str) : Str :=
  if code = [] then []
  else
    let clean := Str.upper (code.filter (·.isAlphanum))
    if clean.length = 8 then clean.take 4 ++ " - ".toList ++ clean.drop 4 else code

/-- How a code is written: as it is generated, without its hyphen, or as the page
shows it. -/
inductive Form where
  | hyphenated
  | bare
  | displayed
deriving DecidableEq

def Form.render : Form → Str → Str
  | .hyphenated, code => code
  | .bare, code => code.filter (· ≠ '-')
  | .displayed, code => formatSessionCode code

/-- The text is the code in this form, with blanks around it. -/
def Form.Renders (form : Form) (code text : Str) : Prop :=
  ∃ pre post : Str, (∀ c ∈ pre, Str.isSpace c = true) ∧ (∀ c ∈ post, Str.isSpace c = true) ∧
    text = pre ++ form.render code ++ post

def IsRendering (code text : Str) : Prop := ∃ form : Form, form.Renders code text

/-- What stands between the two groups. -/
def Form.separator : Form → Str
  | .hyphenated => ['-']
  | .bare => []
  | .displayed => " - ".toList

/-- A form of a code: its two groups, and the separator of the form. -/
theorem render_eq {x y : Str} (hx : IsGroup x) (hy : IsGroup y) (form : Form) :
    form.render (x ++ '-' :: y) = x ++ form.separator ++ y := by
  have hkeep : ∀ {z : Str} {p : Char → Bool}, IsGroup z →
      (∀ c : Char, c.isDigit = true → p c = true) → z.filter p = z :=
    fun hz hp => List.filter_eq_self.mpr fun c hc => hp c (hz.2 c hc)
  cases form with
  | hyphenated => simp [Form.render, Form.separator]
  | bare =>
      have hdigit : ∀ c : Char, c.isDigit = true → decide (c ≠ '-') = true := by
        rintro c hc
        apply decide_eq_true
        rintro rfl
        cases hc
      rw [Form.render, List.filter_append, List.filter_cons_of_neg (by decide), hkeep hx hdigit,
        hkeep hy hdigit, Form.separator, List.append_nil]
  | displayed =>
      have hdigit : ∀ c : Char, c.isDigit = true → c.isAlphanum = true := by
        intro c hc
        rw [Char.isAlphanum, hc, Bool.or_true]
      have hclean : Str.upper ((x ++ '-' :: y).filter (·.isAlphanum)) = x ++ y := by
        rw [List.filter_append, List.filter_cons_of_neg (by decide), hkeep hx hdigit,
          hkeep hy hdigit]
        conv => rhs; rw [← List.map_id (x ++ y)]
        apply List.map_congr_left
        intro c hc
        rcases List.mem_append.mp hc with hc | hc
        · exact Str.toUpper_of_isDigit (hx.2 c hc)
        · exact Str.toUpper_of_isDigit (hy.2 c hc)
      have hlength : (x ++ y).length = 8 := by rw [List.length_append, hx.1, hy.1]
      have htake : (x ++ y).take 4 = x := by rw [← hx.1]; exact List.take_left
      have hdrop : (x ++ y).drop 4 = y := by rw [← hx.1]; exact List.drop_left
      have hne : x ++ '-' :: y ≠ [] := by simp
      simp only [Form.render, formatSessionCode, if_neg hne, hclean, if_pos hlength, htake, hdrop]
      rfl

/-- Normalising a rendering gives the groups and the separator back. -/
theorem normalised {x y text : Str} (hx : IsGroup x) (hy : IsGroup y) {form : Form}
    (htext : form.Renders (x ++ '-' :: y) text) :
    Str.upper (Str.strip text) = x ++ form.separator ++ y := by
  obtain ⟨pre, post, hpre, hpost, rfl⟩ := htext
  rw [render_eq hx hy form]
  have hstrip : Str.strip (pre ++ (x ++ form.separator ++ y) ++ post) =
      x ++ form.separator ++ y := by
    cases x with
    | nil => exact absurd hx.1 (by decide)
    | cons a x =>
        have hne : y ≠ [] := by
          rintro rfl
          exact absurd hy.1 (by decide)
        obtain ⟨y, b, rfl⟩ : ∃ z b, y = z ++ [b] :=
          ⟨_, _, (List.dropLast_append_getLast hne).symm⟩
        have hshape : a :: x ++ form.separator ++ (y ++ [b]) =
            a :: ((x ++ form.separator ++ y) ++ [b]) := by simp
        rw [hshape]
        apply Str.strip_surrounded hpre hpost
        · exact Str.isSpace_of_isDigit (hx.2 a List.mem_cons_self)
        · exact Str.isSpace_of_isDigit (hy.2 b (by simp))
  rw [hstrip]
  conv => rhs; rw [← List.map_id (x ++ form.separator ++ y)]
  apply List.map_congr_left
  intro c hc
  rcases List.mem_append.mp hc with hc | hc
  · rcases List.mem_append.mp hc with hc | hc
    · exact Str.toUpper_of_isDigit (hx.2 c hc)
    · have hseparator : form.separator.all (fun c => c.toUpper = c) = true := by
        cases form <;> rfl
      exact of_decide_eq_true (List.all_eq_true.mp hseparator c hc)
  · exact Str.toUpper_of_isDigit (hy.2 c hc)

/-- Only the hyphenated form normalises to the code itself: the lengths differ. -/
theorem normalised_eq_iff {code text : Str} {form : Form}
    (hcode : ∃ draw, code = generateSessionCode draw) (htext : form.Renders code text) :
    Str.upper (Str.strip text) = code ↔ form = .hyphenated := by
  obtain ⟨draw, rfl⟩ := hcode
  obtain ⟨x, y, hx, hy, hdraw⟩ := generateSessionCode_groups draw
  rw [hdraw] at htext ⊢
  rw [normalised hx hy htext]
  constructor
  · -- the spellings have nine, eight and eleven characters
    intro heq
    have hlength := congrArg List.length heq
    simp only [List.length_append, List.length_cons, hx.1, hy.1] at hlength
    cases form with
    | hyphenated => rfl
    | bare => exact absurd hlength (by decide)
    | displayed => exact absurd hlength (by decide)
  · rintro rfl
    rw [List.append_assoc]
    rfl

/-- A text that normalises to a generated code is the code with blanks around it. -/
theorem hyphenated_renders {code text : Str} (hcode : ∃ draw, code = generateSessionCode draw)
    (h : Str.upper (Str.strip text) = code) : Form.hyphenated.Renders code text := by
  have hupper : Str.upper (Str.strip text) = Str.strip text := by
    apply Str.upper_eq_self
    intro c hc
    obtain ⟨draw, rfl⟩ := hcode
    obtain ⟨x, y, hx, hy, hdraw⟩ := generateSessionCode_groups draw
    rw [h, hdraw] at hc
    rcases List.mem_append.mp hc with hc | hc
    · exact Str.isUpper_of_isDigit (hx.2 c hc)
    · rcases List.mem_cons.mp hc with rfl | hc
      · rfl
      · exact Str.isUpper_of_isDigit (hy.2 c hc)
  obtain ⟨pre, post, hpre, hpost, htext⟩ := Str.strip_spec text
  refine ⟨pre, post, hpre, hpost, ?_⟩
  rw [Form.render, ← h, hupper]
  exact htext

/-! ## The lookup -/

/-- The lookup of a text ignores how the code in it is written: it finds the session
whose code the text renders, and nothing when there is none. -/
def IgnoresFormatting (db : Db) (text : Str) : Prop :=
  (∀ m ∈ db.sessions.rows, IsRendering m.sessionCode text →
    db.getByCode text = some (db.sessionToDomain m)) ∧
  ((∀ m ∈ db.sessions.rows, ¬ IsRendering m.sessionCode text) → db.getByCode text = none)

/-- Share codes are unique, so a lookup by the code finds its session. -/
theorem getByCode_of_mem {db : Db} (hunique : (db.sessions.rows.map (·.sessionCode)).Nodup)
    {m : TransferSessionModel} (hm : m ∈ db.sessions.rows) {text : Str}
    (htext : Str.upper (Str.strip text) = m.sessionCode) :
    db.getByCode text = some (db.sessionToDomain m) := by
  cases hget : db.getByCode text with
  | none =>
      have hnone := List.find?_eq_none.mp (Option.map_eq_none_iff.mp hget) m hm
      simp only [htext, decide_true, not_true_eq_false] at hnone
  | some s =>
      obtain ⟨k, hk, hcode, rfl⟩ := Db.getByCode_eq_some hget
      have hkm : k = m := List.inj_on_of_nodup_map hunique hk hm (hcode.trans htext)
      rw [hkm]

theorem getByCode_ignores_formatting_iff (db : Db)
    (hcodes : ∀ m ∈ db.sessions.rows, ∃ draw, m.sessionCode = generateSessionCode draw)
    (hunique : (db.sessions.rows.map (·.sessionCode)).Nodup) (text : Str) :
    IgnoresFormatting db text ↔
      ∀ m ∈ db.sessions.rows, ∀ form : Form, form.Renders m.sessionCode text →
        form = .hyphenated := by
  constructor
  · rintro ⟨hfinds, -⟩ m hm form htext
    obtain ⟨k, hk, hcode, hkm⟩ := Db.getByCode_eq_some (hfinds m hm ⟨form, htext⟩)
    have hid : m.id = k.id := congrArg TransferSession.id hkm
    obtain rfl := Table.eq_of_mem hm hk hid
    exact (normalised_eq_iff (hcodes m hm) htext).mp hcode.symm
  · intro honly
    refine ⟨?_, ?_⟩
    · rintro m hm ⟨form, htext⟩
      apply getByCode_of_mem hunique hm
      exact (normalised_eq_iff (hcodes m hm) htext).mpr (honly m hm form htext)
    · intro hnone
      by_contra hget
      obtain ⟨s, hs⟩ := Option.ne_none_iff_exists'.mp hget
      obtain ⟨m, hm, hcode, -⟩ := Db.getByCode_eq_some hs
      exact hnone m hm ⟨.hyphenated, hyphenated_renders (hcodes m hm) hcode.symm⟩

namespace Sample

theorem runs_coded : (run [create false]).isSome = true := by decide +kernel

def coded : Db := ((run [create false]).get runs_coded).world.db

/-- The code without its hyphen. -/
def bareCode : Str := "10001000".toList

/-- The code between blanks. -/
def spacedCode : Str := " 1000-1000 ".toList

theorem coded_codes : coded.sessions.rows.map (·.sessionCode) = [code] := by decide +kernel

theorem coded_generated : ∀ m ∈ coded.sessions.rows,
    ∃ draw, m.sessionCode = generateSessionCode draw := by
  intro m hm
  have hcode := List.mem_map_of_mem (f := (·.sessionCode)) hm
  rw [coded_codes] at hcode
  exact ⟨draw 0, (List.mem_singleton.mp hcode).trans (by decide)⟩

theorem coded_unique : (coded.sessions.rows.map (·.sessionCode)).Nodup := by
  rw [coded_codes]
  decide

end Sample

/-- Blanks around the code do not matter. -/
theorem getByCode_ignores_formatting_iff_coded :
    ∃ m ∈ Sample.coded.sessions.rows, m.sessionCode = Sample.code ∧
      Sample.coded.getByCode Sample.spacedCode = some (Sample.coded.sessionToDomain m) := by
  have honly : ∀ m ∈ Sample.coded.sessions.rows, ∀ form : Form,
      form.Renders m.sessionCode Sample.spacedCode → form = .hyphenated := by
    intro m hm form hrenders
    have hcode := List.mem_map_of_mem (f := (·.sessionCode)) hm
    rw [Sample.coded_codes, List.mem_singleton] at hcode
    refine (normalised_eq_iff (Sample.coded_generated m hm) hrenders).mp ?_
    rw [hcode]
    decide
  have hignores := (getByCode_ignores_formatting_iff Sample.coded Sample.coded_generated
    Sample.coded_unique Sample.spacedCode).mpr honly
  have hcode : Sample.code ∈ Sample.coded.sessions.rows.map (·.sessionCode) := by
    rw [Sample.coded_codes]
    exact List.mem_singleton_self _
  obtain ⟨m, hm, hmcode⟩ := List.mem_map.mp hcode
  refine ⟨m, hm, hmcode, hignores.1 m hm ?_⟩
  rw [hmcode]
  have hspace : ∀ c ∈ [' '], Str.isSpace c = true := List.forall_mem_singleton.mpr (by decide)
  exact ⟨.hyphenated, [' '], [' '], hspace, hspace, rfl⟩

/-- The eight digits alone are not found. -/
theorem bare_code_not_found :
    ¬ ∀ db : Db, (∀ m ∈ db.sessions.rows, ∃ draw, m.sessionCode = generateSessionCode draw) →
      (db.sessions.rows.map (·.sessionCode)).Nodup → ∀ text : Str, IgnoresFormatting db text := by
  intro h
  have hignores := h Sample.coded Sample.coded_generated Sample.coded_unique Sample.bareCode
  have hcode : Sample.code ∈ Sample.coded.sessions.rows.map (·.sessionCode) := by
    rw [Sample.coded_codes]
    exact List.mem_singleton_self _
  obtain ⟨m, hm, hm'⟩ := List.mem_map.mp hcode
  have hrenders : IsRendering m.sessionCode Sample.bareCode := by
    rw [hm']
    exact ⟨.bare, [], [], by simp, by simp, by decide⟩
  have hfound := hignores.1 m hm hrenders
  have hnone : (Sample.coded.getByCode Sample.bareCode).isSome = false := by decide +kernel
  rw [hfound] at hnone
  cases hnone

end SessionService

end Jumbox
