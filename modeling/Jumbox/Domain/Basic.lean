import Jumbox.Platform.Uuid
import Jumbox.Platform.Files

/-!
# What all services share

Users, the errors the services raise with the texts of the source, instants,
and the deployment: the two storage directories and the `\w` class of the
regular-expression engine, of which only the ASCII part is fixed.
-/

namespace Jumbox

structure AuthenticatedUser where
  userId : Uuid
  email : Str
  isAdmin : Bool := false
deriving DecidableEq

/-- The exception classes that leave the modelled functions. -/
inductive ErrorKind where
  | notFoundError
  | sessionNotFoundError
  | itemNotFoundError
  | sessionExpiredError
  | permissionDeniedError
  | valueError
  | fileNotFoundError
  | isADirectoryError
  | osError
  | runtimeError
  | overflowError
  | integrityError
  | attributeError
  | indexError
  | authenticationError
  | typeError
deriving DecidableEq

structure Error where
  kind : ErrorKind
  message : Str
deriving DecidableEq

namespace Error

def sessionNotFound (sessionId : Uuid) : Error :=
  ⟨.sessionNotFoundError, "Session ".toList ++ sessionId.str ++ " not found".toList⟩

def itemNotFound (itemId : Uuid) : Error :=
  ⟨.itemNotFoundError, "Item ".toList ++ itemId.str ++ " not found".toList⟩

def sessionExpired : Error := ⟨.sessionExpiredError, "Session has expired".toList⟩

def permissionDenied (message : String) : Error := ⟨.permissionDeniedError, message.toList⟩

def offsetMismatch (currentSize : ℕ) (offset : ℤ) : Error :=
  ⟨.valueError, "Offset mismatch: expected ".toList ++ Str.ofInt currentSize ++
    ", got ".toList ++ Str.ofInt offset⟩

def checksumMismatch (expected computed : Str) : Error :=
  ⟨.valueError, "Checksum mismatch: expected ".toList ++ expected ++
    ", got ".toList ++ computed⟩

def partFileNotFound : Error := ⟨.fileNotFoundError, "Part file not found".toList⟩

end Error

/-! ## Instants

Clock readings are microseconds since the epoch. A stored `datetime` keeps
whether it carries a time zone: SQLite returns naive values. -/

structure Datetime where
  micros : ℤ
  aware : Bool
deriving DecidableEq

/-- `t <= datetime.now(UTC)`, which is an aware value. -/
def Datetime.leNow (t : Datetime) (now : ℤ) : Except Error Bool :=
  if t.aware then .ok (t.micros ≤ now)
  else .error ⟨.typeError, "can't compare offset-naive and offset-aware datetimes".toList⟩

/-- The last instant a `datetime` can hold. -/
def maxInstant : ℤ := 253402300799999999

/-- `now + timedelta(seconds=n)`. -/
def addSeconds (now seconds : ℤ) : Except Error ℤ :=
  if now + seconds * 1000000 ≤ maxInstant ∧ 0 ≤ now + seconds * 1000000 + 62135596800000000 then
    .ok (now + seconds * 1000000)
  else .error ⟨.overflowError, "date value out of range".toList⟩

def isExpired (now : ℤ) : Option Datetime → Bool
  | none => false
  | some t =>
      let t := if t.aware then t else { t with aware := true }
      t.micros < now

/-! ## Deployment -/

structure Deployment where
  uploadsDir : Path
  tempDir : Path
  /-- `\w` -/
  isWord : Char → Bool
  isWord_ascii : ∀ c, c.toNat < 128 → isWord c = (c.isAlphanum || c = '_')
  uploads_notPrefix : ¬ uploadsDir <+: tempDir
  temp_notPrefix : ¬ tempDir <+: uploadsDir

/-- The directories of the default settings, and a word class that is exact on
ASCII names. -/
def Deployment.default : Deployment where
  uploadsDir := ["data".toList, "uploads".toList]
  tempDir := ["data".toList, "tmp".toList]
  isWord c := c.isAlphanum || c = '_'
  isWord_ascii _ _ := rfl
  uploads_notPrefix := by decide
  temp_notPrefix := by decide

/-- `_sanitize_filename`. -/
def sanitizeFilename (d : Deployment) (name : Str) : Str :=
  let cleaned := (Path.nameOf name).map fun c =>
    if d.isWord c || c = '-' || c = '.' then c else '_'
  if cleaned = [] then "file".toList else cleaned

theorem slash_notMem_sanitizeFilename (d : Deployment) (name : Str) :
    '/' ∉ sanitizeFilename d name := by
  have hslash : d.isWord '/' = false := by
    rw [d.isWord_ascii '/' (by decide)]
    decide
  simp only [sanitizeFilename]
  split
  · decide
  · intro h
    obtain ⟨c, -, hc⟩ := List.mem_map.mp h
    by_cases hkeep : (d.isWord c || c = '-' || c = '.') = true
    · rw [if_pos hkeep] at hc
      subst hc
      simp [hslash] at hkeep
    · rw [if_neg hkeep] at hc
      exact absurd hc (by decide)

/-- Paths under the two directories never meet. -/
theorem Deployment.temp_ne_uploads (d : Deployment) (a b : List Str) :
    d.tempDir ++ a ≠ d.uploadsDir ++ b := by
  intro h
  rcases List.append_eq_append_iff.mp h with ⟨as, hu, -⟩ | ⟨bs, ht, -⟩
  · exact d.temp_notPrefix ⟨as, hu.symm⟩
  · exact d.uploads_notPrefix ⟨bs, ht.symm⟩

end Jumbox
