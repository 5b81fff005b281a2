import Jumbox.Platform.Text
import Mathlib.Logic.Function.Basic

/-!
# Paths and files

A path is the list of its components below the root directory, already resolved:
`join` is `path / text` of pathlib followed by the resolution the operating
system makes of `.` and `..` (no symbolic links). A file system maps paths to
regular files; directories are made on demand by the code and are not tracked.
-/

namespace Jumbox

abbrev Path := List Str

namespace Path

/-- One component of a joined text: empty parts and `.` go, `..` climbs. -/
def child (p : Path) (part : Str) : Path :=
  if part = [] ∨ part = ['.'] then p
  else if part = ['.', '.'] then p.dropLast
  else p ++ [part]

/-- `p / text`. An absolute text restarts at the root. -/
def join (p : Path) (text : Str) : Path :=
  (text.splitOn '/').foldl child (if text.head? = some '/' then [] else p)

/-- `Path(text).name`: the last component, empty where there is none. -/
def nameOf (text : Str) : Str :=
  ((text.splitOn '/').filter fun c => c ≠ [] ∧ c ≠ ['.']).getLastD []

/-- `str(path)` -/
def text (p : Path) : Str := p.flatMap ('/' :: ·)

/-- The texts `join` reads as one ordinary component. -/
def Plain (text : Str) : Prop :=
  '/' ∉ text ∧ text ≠ [] ∧ text ≠ ['.'] ∧ text ≠ ['.', '.']

theorem splitOn_of_notMem {text : Str} (h : '/' ∉ text) : text.splitOn '/' = [text] := by
  have hparts : ∀ l ∈ [text], '/' ∉ l := by simpa using h
  simpa using List.splitOn_intercalate '/' hparts (by simp)

theorem head?_ne_slash {text : Str} (h : '/' ∉ text) : text.head? ≠ some '/' := by
  intro hhead
  exact h (List.mem_of_head? hhead)

theorem child_of_plain {p : Path} {part : Str} (h : Plain part) : p.child part = p ++ [part] := by
  obtain ⟨-, hnil, hdot, hdots⟩ := h
  simp [child, hnil, hdot, hdots]

theorem join_of_notMem {p : Path} {text : Str} (h : '/' ∉ text) :
    p.join text = p.child text := by
  simp [join, splitOn_of_notMem h, head?_ne_slash h]

theorem join_of_plain {p : Path} {text : Str} (h : Plain text) : p.join text = p ++ [text] := by
  rw [join_of_notMem h.1, child_of_plain h]

/-- `p / f"{a}/{b}"` for two ordinary components. -/
theorem join_slash_of_plain {p : Path} {a b : Str} (ha : Plain a) (hb : Plain b) :
    p.join (a ++ '/' :: b) = p ++ [a, b] := by
  have hsplit : (a ++ '/' :: b).splitOn '/' = [a, b] := by
    have hparts : ∀ l ∈ [a, b], '/' ∉ l := by
      intro l hl
      simp only [List.mem_cons, List.not_mem_nil, or_false] at hl
      rcases hl with rfl | rfl
      · exact ha.1
      · exact hb.1
    simpa [List.intercalate] using List.splitOn_intercalate '/' hparts (by simp)
  have hhead : (a ++ '/' :: b).head? ≠ some '/' := by
    cases a with
    | nil => exact absurd rfl ha.2.1
    | cons c a => exact fun h => ha.1 (by simp at h; simp [h])
  rw [join, hsplit, if_neg hhead]
  simp [child_of_plain ha, child_of_plain hb]

/-- A text with a long enough separator-free start is an ordinary component. -/
theorem plain_of_length {text : Str} (h : '/' ∉ text) (hlen : 2 < text.length) : Plain text := by
  refine ⟨h, ?_, ?_, ?_⟩ <;>
    · rintro rfl
      simp at hlen

end Path

/-! ## Files -/

structure File where
  data : Bytes
  mtime : ℤ
deriving DecidableEq

abbrev Files := Path → Option File

namespace Files

def size (fs : Files) (p : Path) : ℕ :=
  match fs p with
  | none => 0
  | some f => f.data.length

/-- `p.open("wb")` and everything written to it. Directories are there, and no name is
too long. -/
def write (fs : Files) (p : Path) (now : ℤ) (data : Bytes) : Files :=
  Function.update fs p (some ⟨data, now⟩)

/-- `p.open("ab")` and one write: a missing file is created, and writing nothing
to an existing one leaves it alone. -/
def append (fs : Files) (p : Path) (now : ℤ) (data : Bytes) : Files :=
  match fs p with
  | none => fs.write p now data
  | some f => if data = [] then fs else fs.write p now (f.data ++ data)

def unlink (fs : Files) (p : Path) : Files := Function.update fs p none

/-- `shutil.move` onto a path that is no directory: a rename that replaces the
destination; `none` when there is no source. The directory of the destination is
there, and no name is too long. -/
def move (fs : Files) (src dst : Path) : Option Files :=
  (fs src).map fun f => Function.update (fs.unlink src) dst (some f)

/-- The bytes at `p`, none where there is no file. -/
def bytes (fs : Files) (p : Path) : Bytes :=
  match fs p with
  | none => []
  | some f => f.data

theorem bytes_congr {fs fs' : Files} {p : Path} (h : fs p = fs' p) : fs.bytes p = fs'.bytes p := by
  rw [bytes, bytes, h]

theorem bytes_of_none {fs : Files} {p : Path} (h : fs p = none) : fs.bytes p = [] := by
  rw [bytes, h]

@[simp] theorem write_self (fs : Files) (p : Path) (now : ℤ) (data : Bytes) :
    fs.write p now data p = some ⟨data, now⟩ := by
  simp [write]

theorem write_ne {fs : Files} {p q : Path} {now : ℤ} {data : Bytes} (h : q ≠ p) :
    fs.write p now data q = fs q := by
  simp [write, h]

theorem append_ne {fs : Files} {p q : Path} {now : ℤ} {data : Bytes} (h : q ≠ p) :
    fs.append p now data q = fs q := by
  unfold append
  cases fs p with
  | none => exact write_ne h
  | some f =>
      by_cases hd : data = []
      · simp [hd]
      · simp [hd, write_ne h]

theorem bytes_append_self (fs : Files) (p : Path) (now : ℤ) (data : Bytes) :
    (fs.append p now data).bytes p = fs.bytes p ++ data := by
  unfold append bytes
  cases hp : fs p with
  | none => simp
  | some f =>
      by_cases hd : data = []
      · simp [hd, hp]
      · simp [hd]

/-- After an append there is a file. -/
theorem append_self (fs : Files) (p : Path) (now : ℤ) (data : Bytes) :
    ∃ t, fs.append p now data p = some ⟨fs.bytes p ++ data, t⟩ := by
  unfold append bytes
  cases hp : fs p with
  | none => exact ⟨now, by simp⟩
  | some f =>
      by_cases hd : data = []
      · exact ⟨f.mtime, by simp [hd, hp]⟩
      · exact ⟨now, by simp [hd]⟩

theorem append_nil {fs : Files} {p : Path} {f : File} (h : fs p = some f) (now : ℤ) :
    fs.append p now [] = fs := by
  rw [append, h]
  exact if_pos rfl

theorem append_of_none {fs : Files} {p : Path} (h : fs p = none) (now : ℤ) (data : Bytes) :
    fs.append p now data = fs.write p now data := by
  rw [append, h]

theorem append_of_some {fs : Files} {p : Path} {f : File} (h : fs p = some f) (now : ℤ)
    {data : Bytes} (hdata : data ≠ []) :
    fs.append p now data = fs.write p now (f.data ++ data) := by
  rw [append, h]
  exact if_neg hdata

/-- Two appends at one time are one. -/
theorem append_append (fs : Files) (p : Path) (now : ℤ) (a b : Bytes) :
    (fs.append p now a).append p now b = fs.append p now (a ++ b) := by
  have hwrite : ∀ c, (fs.write p now c).append p now b = fs.write p now (c ++ b) := by
    intro c
    by_cases hb : b = []
    · rw [hb, append_nil (write_self ..), List.append_nil]
    · rw [append_of_some (write_self ..) now hb]
      exact Function.update_idem _ _ _
  cases hp : fs p with
  | none => rw [append_of_none hp, append_of_none hp, hwrite]
  | some f =>
      by_cases ha : a = []
      · rw [ha, append_nil hp, List.nil_append]
      · have hab : a ++ b ≠ [] := fun h => ha (List.append_eq_nil_iff.mp h).1
        rw [append_of_some hp now ha, append_of_some hp now hab, hwrite, List.append_assoc]

theorem size_eq_length (fs : Files) (p : Path) : fs.size p = (fs.bytes p).length := by
  unfold size bytes
  cases fs p <;> rfl

@[simp] theorem unlink_self (fs : Files) (p : Path) : fs.unlink p p = none := by
  simp [unlink]

theorem unlink_ne {fs : Files} {p q : Path} (h : q ≠ p) : fs.unlink p q = fs q := by
  simp [unlink, h]

/-- What a move that finds its source does. -/
theorem move_eq_some {fs fs' : Files} {src dst : Path} :
    fs.move src dst = some fs' ↔
      ∃ f, fs src = some f ∧ fs' = Function.update (fs.unlink src) dst (some f) := by
  simp [move, Option.map_eq_some_iff, eq_comm]

theorem move_dst {fs fs' : Files} {src dst : Path} (h : fs.move src dst = some fs') :
    fs' dst = fs src := by
  obtain ⟨f, hf, rfl⟩ := move_eq_some.mp h
  simp [hf]

theorem move_src {fs fs' : Files} {src dst : Path} (h : fs.move src dst = some fs')
    (hne : src ≠ dst) : fs' src = none := by
  obtain ⟨f, hf, rfl⟩ := move_eq_some.mp h
  simp [hne]

end Files

end Jumbox
