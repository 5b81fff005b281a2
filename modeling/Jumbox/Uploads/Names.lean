import Jumbox.Library.Walk
import Jumbox.Uploads.Methods

/-!
# Where client-supplied names lead

A file name reaches three paths with nothing but its spaces replaced. Two of the
texts that are joined begin with the owner's identifier, one ends in `.part`,
and the third is the name itself, which may also be absolute.
-/

namespace Jumbox

namespace Path

/-- What one component of a joined text does. -/
def move (part : Str) : Move Str :=
  if part = [] ∨ part = ['.'] then .stay
  else if part = ['.', '.'] then .up
  else .down part

def moves (text : Str) : List (Move Str) := (text.splitOn '/').map move

theorem apply_move (p : Path) (part : Str) : (move part).apply p = p.child part := by
  unfold move child
  by_cases hstay : part = [] ∨ part = ['.']
  · rw [if_pos hstay, if_pos hstay]
    rfl
  · rw [if_neg hstay, if_neg hstay]
    by_cases hup : part = ['.', '.']
    · rw [if_pos hup, if_pos hup]
      rfl
    · rw [if_neg hup, if_neg hup]
      rfl

theorem join_eq_walk (p : Path) (text : Str) :
    p.join text = walk (if text.head? = some '/' then [] else p) (moves text) := by
  unfold join walk moves
  rw [List.foldl_map]
  simp only [apply_move]

/-- A relative text leads to below the directory: counted from the left its `..`
are nowhere more than its names, and are fewer in the end; or else it goes back
in by the names of the directories it has climbed out of, and on. -/
def Keeps (root : Path) (text : Str) : Prop :=
  (Stays (moves text) ∧ ups (moves text) < downs (moves text)) ∨
    (¬ Stays (moves text) ∧ Returns root (moves text))

instance (root : Path) (text : Str) : Decidable (Keeps root text) :=
  inferInstanceAs (Decidable ((_ ∧ _) ∨ (¬ _ ∧ _)))

theorem below_join_iff_keeps {root : Path} {text : Str} (h : text.head? ≠ some '/') :
    Below root (root.join text) ↔ Keeps root text := by
  rw [join_eq_walk, if_neg h]
  exact below_walk_iff root (moves text)

/-- An absolute text has to name the directory. -/
theorem below_join_iff_names {root : Path} {text : Str} (h : text.head? = some '/') :
    Below root (root.join text) ↔ Below root (course (moves text)).descent := by
  rw [join_eq_walk, if_pos h, walk_eq, List.take_nil, List.nil_append]

end Path

namespace TransferService

theorem head?_safeName (name : Str) :
    (safeName name).head? = some '/' ↔ name.head? = some '/' := by
  cases name with
  | nil => exact Iff.rfl
  | cons c rest =>
      show some (if c = ' ' then '_' else c) = some '/' ↔ some c = some '/'
      by_cases hspace : c = ' '
      · subst hspace
        decide
      · rw [if_neg hspace]

end TransferService

namespace ClientNames

open TransferService (buildStoredName safeName uploadPath head?_safeName)
open ChunkedUploadService (tempPath finalPath)

/-- `f"{owner.user_id}_{original_name}.part"` -/
def partName (ownerId : Uuid) (originalName : Str) : Str :=
  ownerId.str ++ '_' :: (originalName ++ ".part".toList)

/-- A text that begins with an identifier is relative. -/
theorem head?_str_append (u : Uuid) (t : Str) : (u.str ++ t).head? ≠ some '/' := by
  cases hstr : u.str with
  | nil =>
      have hlength := u.length_str
      rw [hstr] at hlength
      cases hlength
  | cons c rest =>
      intro hhead
      have hc : c = '/' := Option.some.inj hhead
      have hmem : '/' ∈ u.str := by
        rw [hstr, hc]
        exact List.mem_cons_self
      exact u.slash_notMem_str hmem

/-- Where the three paths of a name lie below their directories: the texts with
the owner's identifier if they keep to the directory, the name itself also if it
is absolute and names the directory. -/
theorem paths_below_iff_keeps (d : Deployment) (ownerId : Uuid) {name : Str} (hne : name ≠ []) :
    (Below d.uploadsDir (uploadPath d ownerId (some name)) ↔
      Path.Keeps d.uploadsDir (buildStoredName ownerId name)) ∧
    (Below d.tempDir (tempPath d ownerId name) ↔
      Path.Keeps d.tempDir (partName ownerId name)) ∧
    (Below d.uploadsDir (finalPath d name) ↔
      if name.head? = some '/' then
        Below d.uploadsDir (course (Path.moves (safeName name))).descent
      else Path.Keeps d.uploadsDir (safeName name)) := by
  refine ⟨?_, ?_, ?_⟩
  · have hname : TransferService.uploadName (some name) = name := if_neg hne
    unfold uploadPath
    rw [hname]
    exact Path.below_join_iff_keeps (head?_str_append ownerId _)
  · exact Path.below_join_iff_keeps (head?_str_append ownerId _)
  · by_cases habsolute : name.head? = some '/'
    · rw [if_pos habsolute]
      exact Path.below_join_iff_names ((head?_safeName name).mpr habsolute)
    · rw [if_neg habsolute]
      exact Path.below_join_iff_keeps (mt (head?_safeName name).mp habsolute)

/-- A name with a directory in it that stays inside. -/
theorem paths_below_iff_keeps_docs :
    Below Deployment.default.uploadsDir
        (uploadPath .default (Uuid.ofNat 100) (some "docs/../a.txt".toList)) ∧
      Below Deployment.default.tempDir (tempPath .default (Uuid.ofNat 100) "docs/../a.txt".toList) ∧
      Below Deployment.default.uploadsDir (finalPath .default "docs/../a.txt".toList) := by
  have hne : "docs/../a.txt".toList ≠ [] := by decide
  obtain ⟨hupload, htemp, hfinal⟩ := paths_below_iff_keeps .default (Uuid.ofNat 100) hne
  refine ⟨hupload.mpr ?_, htemp.mpr ?_, hfinal.mpr ?_⟩
  · decide +kernel
  · decide +kernel
  · decide +kernel

/-- One name that leaves all three directories. -/
theorem client_name_escapes :
    ¬ Below Deployment.default.uploadsDir
        (uploadPath .default (Uuid.ofNat 100) (some "a/../../../x".toList)) ∧
      ¬ Below Deployment.default.tempDir
        (tempPath .default (Uuid.ofNat 100) "a/../../../x".toList) ∧
      ¬ Below Deployment.default.uploadsDir (finalPath .default "a/../../../x".toList) := by
  refine ⟨?_, ?_, ?_⟩
  · decide +kernel
  · decide +kernel
  · decide +kernel

end ClientNames

end Jumbox
