import Jumbox.Platform.Decimal

/-!
# JSON texts

`json.dumps` and `json.loads` on texts. A number with a fraction or an exponent is
kept as it is written: none is written here. No text of the model has a lone
surrogate, so an escape that stands for one is refused. The messages of
`JSONDecodeError`, which all are `ValueError`s, are left out.
-/

namespace Jumbox

namespace JsonText

inductive Value where
  | null
  | bool (b : Bool)
  | int (n : ℤ)
  | float (lexeme : Str)
  | str (s : Str)
  | arr (elems : List Value)
  | obj (fields : List (Str × Value))

/-- The value of a key: of several ones the last. -/
def lookup (key : Str) (fields : List (Str × Value)) : Option Value :=
  (fields.reverse.find? (·.1 = key)).map Prod.snd

/-! ## Writing -/

/-- The UTF-16 code units of a character. -/
def units (c : Char) : List ℕ :=
  if c.toNat < 0x10000 then [c.toNat]
  else [0xd800 + (c.toNat - 0x10000) / 1024, 0xdc00 + (c.toNat - 0x10000) % 1024]

def unicodeEscape (n : ℕ) : Str :=
  ['\\', 'u', hexDigit (nibble (n / 4096)), hexDigit (nibble (n / 256)),
    hexDigit (nibble (n / 16)), hexDigit (nibble n)]

/-- The letter that stands for a character behind a backslash. -/
def shortEscape (c : Char) : Option Char :=
  if c = '"' then some '"'
  else if c = '\\' then some '\\'
  else if c = '\n' then some 'n'
  else if c = '\r' then some 'r'
  else if c = '\t' then some 't'
  else if c = '\x0c' then some 'f'
  else if c = '\x08' then some 'b'
  else none

/-- `ensure_ascii` -/
def escape (c : Char) : Str :=
  match shortEscape c with
  | some e => ['\\', e]
  | none => if 32 ≤ c.toNat ∧ c.toNat ≤ 126 then [c] else (units c).flatMap unicodeEscape

def quote (s : Str) : Str := '"' :: (s.flatMap escape ++ ['"'])

/-! `gap` stands behind every comma and every colon. -/

mutual

/-- `json.dumps(value)`, where it raises nothing. -/
def write (gap : Str) : Value → Option Str
  | .null => some "null".toList
  | .bool true => some "true".toList
  | .bool false => some "false".toList
  | .int n => Decimal.write n
  | .float _ => none
  | .str s => some (quote s)
  | .arr elems => (writeElems gap elems).map fun text => '[' :: (text ++ [']'])
  | .obj fields => (writeFields gap fields).map fun text => '\x7b' :: (text ++ ['\x7d'])

def writeElems (gap : Str) : List Value → Option Str
  | [] => some []
  | [v] => write gap v
  | v :: w :: rest =>
      (write gap v).bind fun text =>
        (writeElems gap (w :: rest)).map fun more => text ++ ',' :: (gap ++ more)

def writeFields (gap : Str) : List (Str × Value) → Option Str
  | [] => some []
  | [(key, v)] => (write gap v).map fun text => quote key ++ ':' :: (gap ++ text)
  | (key, v) :: field :: rest =>
      (write gap v).bind fun text =>
        (writeFields gap (field :: rest)).map fun more =>
          quote key ++ ':' :: (gap ++ (text ++ ',' :: (gap ++ more)))

end

/-! ## Reading -/

def isBlank (c : Char) : Bool := c = ' ' || c = '\t' || c = '\n' || c = '\r'

def skip (text : Str) : Str := text.dropWhile isBlank

def readHex4 (a b c d : Char) : Option ℕ :=
  (Uuid.hexValue a).bind fun a => (Uuid.hexValue b).bind fun b =>
    (Uuid.hexValue c).bind fun c => (Uuid.hexValue d).map fun d =>
      a.val * 4096 + b.val * 256 + c.val * 16 + d.val

/-- The character that a letter behind a backslash stands for. -/
def unescape (e : Char) : Option Char :=
  if e = '"' then some '"'
  else if e = '\\' then some '\\'
  else if e = '/' then some '/'
  else if e = 'n' then some '\n'
  else if e = 'r' then some '\r'
  else if e = 't' then some '\t'
  else if e = 'f' then some '\x0c'
  else if e = 'b' then some '\x08'
  else none

/-- What stands before the closing quote, as code units, and what comes behind it. -/
def readUnits : Str → Option (List ℕ × Str)
  | [] => none
  | '"' :: rest => some ([], rest)
  | '\\' :: 'u' :: a :: b :: c :: d :: rest =>
      (readHex4 a b c d).bind fun n => (readUnits rest).map fun p => (n :: p.1, p.2)
  | '\\' :: e :: rest =>
      (unescape e).bind fun c => (readUnits rest).map fun p => (c.toNat :: p.1, p.2)
  | c :: rest =>
      -- `strict`: no control characters
      if c.toNat < 32 then none else (readUnits rest).map fun p => (c.toNat :: p.1, p.2)

def isSurrogate (n : ℕ) : Bool := 0xd800 ≤ n && n < 0xe000

/-- Joins the halves of surrogate pairs. -/
def joinUnits : List ℕ → Option Str
  | [] => some []
  | n :: rest =>
      if isSurrogate n then
        match rest with
        | [] => none
        | m :: rest =>
            if n < 0xdc00 ∧ 0xdc00 ≤ m ∧ m < 0xe000 then
              (joinUnits rest).map fun s =>
                Char.ofNat (0x10000 + (n - 0xd800) * 1024 + (m - 0xdc00)) :: s
            else none
      else (joinUnits rest).map fun s => Char.ofNat n :: s

/-- A string whose opening quote has been read. -/
def readString (text : Str) : Option (Str × Str) :=
  (readUnits text).bind fun p => (joinUnits p.1).map fun s => (s, p.2)

def readFraction : Str → Str × Str
  | '.' :: rest =>
      if rest.takeWhile Char.isDigit = [] then ([], '.' :: rest)
      else ('.' :: rest.takeWhile Char.isDigit, rest.dropWhile Char.isDigit)
  | text => ([], text)

def readExponent : Str → Str × Str
  | [] => ([], [])
  | e :: text =>
      if e = 'e' ∨ e = 'E' then
        let sign := text.takeWhile fun c => c = '-' || c = '+'
        let rest := text.drop sign.length
        if 1 < sign.length ∨ rest.takeWhile Char.isDigit = [] then ([], e :: text)
        else (e :: (sign ++ rest.takeWhile Char.isDigit), rest.dropWhile Char.isDigit)
      else ([], e :: text)

/-- The number whose integer part has the given digits. -/
def number (negative : Bool) (digits rest : Str) : Option (Value × Str) :=
  let fraction := readFraction rest
  let exponent := readExponent fraction.2
  if fraction.1 = [] ∧ exponent.1 = [] then
    if digits.length ≤ Decimal.maxStrDigits then
      let n : ℕ := Nat.ofDigitChars 10 digits 0
      some (.int (if negative then -n else n), rest)
    else none
  else
    let sign := if negative then ['-'] else []
    some (.float (sign ++ digits ++ fraction.1 ++ exponent.1), exponent.2)

def readNat (negative : Bool) : Str → Option (Value × Str)
  | [] => none
  | c :: rest =>
      -- a leading zero is the whole integer part
      if c = '0' then number negative [c] rest
      else if c.isDigit then
        number negative (c :: rest.takeWhile Char.isDigit) (rest.dropWhile Char.isDigit)
      else none

def readNumber : Str → Option (Value × Str)
  | 'N' :: 'a' :: 'N' :: rest => some (.float "NaN".toList, rest)
  | 'I' :: 'n' :: 'f' :: 'i' :: 'n' :: 'i' :: 't' :: 'y' :: rest =>
      some (.float "Infinity".toList, rest)
  | '-' :: 'I' :: 'n' :: 'f' :: 'i' :: 'n' :: 'i' :: 't' :: 'y' :: rest =>
      some (.float "-Infinity".toList, rest)
  | '-' :: rest => readNat true rest
  | text => readNat false text

mutual

/-- One value, and what comes behind it. Every value takes a character, so the
length of the text is enough fuel. -/
def readValue : ℕ → Str → Option (Value × Str)
  | 0, _ => none
  | fuel + 1, text =>
      match text with
      | '"' :: rest => (readString rest).map fun p => (.str p.1, p.2)
      | '[' :: rest =>
          match skip rest with
          | ']' :: rest => some (.arr [], rest)
          | rest => (readElems fuel rest).map fun p => (.arr p.1, p.2)
      | '\x7b' :: rest =>
          match skip rest with
          | '\x7d' :: rest => some (.obj [], rest)
          | rest => (readFields fuel rest).map fun p => (.obj p.1, p.2)
      | 'n' :: 'u' :: 'l' :: 'l' :: rest => some (.null, rest)
      | 't' :: 'r' :: 'u' :: 'e' :: rest => some (.bool true, rest)
      | 'f' :: 'a' :: 'l' :: 's' :: 'e' :: rest => some (.bool false, rest)
      | text => readNumber text

def readElems : ℕ → Str → Option (List Value × Str)
  | 0, _ => none
  | fuel + 1, text =>
      (readValue fuel text).bind fun p =>
        match skip p.2 with
        | ',' :: rest => (readElems fuel (skip rest)).map fun q => (p.1 :: q.1, q.2)
        | ']' :: rest => some ([p.1], rest)
        | _ => none

def readFields : ℕ → Str → Option (List (Str × Value) × Str)
  | 0, _ => none
  | fuel + 1, text =>
      match text with
      | '"' :: rest =>
          (readString rest).bind fun key =>
            match skip key.2 with
            | ':' :: rest =>
                (readValue fuel (skip rest)).bind fun p =>
                  match skip p.2 with
                  | ',' :: rest =>
                      (readFields fuel (skip rest)).map fun q => ((key.1, p.1) :: q.1, q.2)
                  | '\x7d' :: rest => some ([(key.1, p.1)], rest)
                  | _ => none
            | _ => none
      | _ => none

end

/-- `json.loads(text)`, where it raises nothing. -/
def read (text : Str) : Option Value :=
  (readValue (text.length + 1) (skip text)).bind fun p =>
    if skip p.2 = [] then some p.1 else none

/-! ## Strings are read back -/

theorem toNat_lt_or (c : Char) :
    c.toNat < 0xd800 ∨ 0xdfff < c.toNat ∧ c.toNat < 0x110000 := c.valid

theorem readHex4_hex4 {n : ℕ} (h : n < 0x10000) :
    readHex4 (hexDigit (nibble (n / 4096))) (hexDigit (nibble (n / 256)))
      (hexDigit (nibble (n / 16))) (hexDigit (nibble n)) = some n := by
  simp only [readHex4, Uuid.hexValue_hexDigit, Option.bind_some, Option.map_some, nibble,
    Fin.val_ofNat]
  congr 1
  omega

theorem readUnits_unicodeEscape {n : ℕ} (h : n < 0x10000) (rest : Str) :
    readUnits (unicodeEscape n ++ rest) = (readUnits rest).map fun p => (n :: p.1, p.2) := by
  show readUnits ('\\' :: 'u' :: hexDigit (nibble (n / 4096)) :: hexDigit (nibble (n / 256)) ::
    hexDigit (nibble (n / 16)) :: hexDigit (nibble n) :: rest) = _
  rw [readUnits, readHex4_hex4 h, Option.bind_some]

theorem shortEscape_eq_some {c e : Char} (h : shortEscape c = some e) :
    e ≠ 'u' ∧ unescape e = some c ∧ c.toNat < 0x10000 := by
  unfold shortEscape at h
  split at h
  · rename_i hc; cases h; subst hc; decide
  split at h
  · rename_i hc; cases h; subst hc; decide
  split at h
  · rename_i hc; cases h; subst hc; decide
  split at h
  · rename_i hc; cases h; subst hc; decide
  split at h
  · rename_i hc; cases h; subst hc; decide
  split at h
  · rename_i hc; cases h; subst hc; decide
  split at h
  · rename_i hc; cases h; subst hc; decide
  · cases h

theorem readUnits_short {c e : Char} (h : shortEscape c = some e) (rest : Str) :
    readUnits ('\\' :: e :: rest) = (readUnits rest).map fun p => (c.toNat :: p.1, p.2) := by
  obtain ⟨hne, hc, -⟩ := shortEscape_eq_some h
  rw [readUnits.eq_4 _ _ (fun _ _ _ _ _ he _ => hne he), hc, Option.bind_some]

theorem readUnits_plain {c : Char} (h : shortEscape c = none) (hc : 32 ≤ c.toNat) (rest : Str) :
    readUnits (c :: rest) = (readUnits rest).map fun p => (c.toNat :: p.1, p.2) := by
  have hquote : c ≠ '"' := by
    rintro rfl
    cases h
  have hbackslash : c ≠ '\\' := by
    rintro rfl
    cases h
  rw [readUnits.eq_5 _ _ hquote (fun _ _ _ _ _ he _ => hbackslash he)
    (fun _ _ he _ => hbackslash he), if_neg (by omega)]

theorem readUnits_escape (c : Char) (rest : Str) :
    readUnits (escape c ++ rest) = (readUnits rest).map fun p => (units c ++ p.1, p.2) := by
  have hvalid := toNat_lt_or c
  unfold escape
  split
  · rename_i e he
    rw [units, if_pos (shortEscape_eq_some he).2.2]
    exact readUnits_short he rest
  · rename_i hnone
    split
    · rename_i hplain
      rw [units, if_pos (by omega)]
      exact readUnits_plain hnone hplain.1 rest
    · unfold units
      split
      · rename_i hsmall
        rw [List.flatMap_singleton, readUnits_unicodeEscape hsmall]
        rfl
      · rename_i hlarge
        rw [List.flatMap_cons, List.flatMap_singleton, List.append_assoc,
          readUnits_unicodeEscape (by omega), readUnits_unicodeEscape (by omega), Option.map_map]
        rfl

theorem readUnits_quoted (s rest : Str) :
    readUnits (s.flatMap escape ++ '"' :: rest) = some (s.flatMap units, rest) := by
  induction s with
  | nil => rfl
  | cons c s ih =>
      rw [List.flatMap_cons, List.append_assoc, readUnits_escape, ih]
      rfl

theorem joinUnits_units (c : Char) (rest : List ℕ) :
    joinUnits (units c ++ rest) = (joinUnits rest).map fun s => c :: s := by
  have hvalid := toNat_lt_or c
  unfold units
  split
  · rename_i hsmall
    rw [List.singleton_append, joinUnits.eq_def]
    dsimp only
    rw [if_neg, Char.ofNat_toNat]
    simp only [isSurrogate, Bool.and_eq_true, decide_eq_true_eq]
    omega
  · rename_i hlarge
    have hhigh : isSurrogate (0xd800 + (c.toNat - 0x10000) / 1024) = true := by
      simp only [isSurrogate, Bool.and_eq_true, decide_eq_true_eq]
      omega
    have hcode : 0x10000 + (0xd800 + (c.toNat - 0x10000) / 1024 - 0xd800) * 1024 +
        (0xdc00 + (c.toNat - 0x10000) % 1024 - 0xdc00) = c.toNat := by
      omega
    rw [List.cons_append, List.singleton_append, joinUnits.eq_def]
    dsimp only
    rw [if_pos hhigh, if_pos (by omega), hcode, Char.ofNat_toNat]

theorem joinUnits_flatMap (s : Str) : joinUnits (s.flatMap units) = some s := by
  induction s with
  | nil => rfl
  | cons c s ih =>
      rw [List.flatMap_cons, joinUnits_units, ih]
      rfl

theorem readString_quoted (s rest : Str) :
    readString (s.flatMap escape ++ '"' :: rest) = some (s, rest) := by
  rw [readString, readUnits_quoted, Option.bind_some, joinUnits_flatMap]
  rfl

/-! ## Numbers are read back -/

/-- What comes behind a number is not taken for a part of it. -/
def Ends (rest : Str) : Prop :=
  ∀ c ∈ rest.head?, c.isDigit = false ∧ c ≠ '.' ∧ c ≠ 'e' ∧ c ≠ 'E'

theorem readFraction_of_ends {rest : Str} (h : Ends rest) : readFraction rest = ([], rest) := by
  cases rest with
  | nil => rfl
  | cons c rest =>
      obtain ⟨-, hdot, -⟩ := h c rfl
      rw [readFraction.eq_2 _ fun _ heq => hdot (List.cons.inj heq).1]

theorem readExponent_of_ends {rest : Str} (h : Ends rest) : readExponent rest = ([], rest) := by
  cases rest with
  | nil => rfl
  | cons c rest =>
      obtain ⟨-, -, hlower, hupper⟩ := h c rfl
      rw [readExponent, if_neg (by simp [hlower, hupper])]

theorem number_of_ends {digits rest : Str} (h : Ends rest)
    (hlength : digits.length ≤ Decimal.maxStrDigits) (negative : Bool) :
    number negative digits rest =
      some (.int (if negative then -(Nat.ofDigitChars 10 digits 0 : ℤ)
        else Nat.ofDigitChars 10 digits 0), rest) := by
  simp only [number, readFraction_of_ends h, readExponent_of_ends h, and_self, if_true,
    if_pos hlength]

/-- A number above zero is written without a leading zero. -/
theorem toDigits_head (n : ℕ) : ∃ c rest, Nat.toDigits 10 n = c :: rest ∧ c.isDigit = true ∧
    (∀ d ∈ rest, d.isDigit = true) ∧ (c = '0' → rest = []) := by
  have hdigits : ∀ c ∈ Nat.toDigits 10 n, c.isDigit = true := fun c hc =>
    Nat.isDigit_of_mem_toDigits (by decide) (by decide) hc
  have hzero : ∀ m, ∀ c rest, Nat.toDigits 10 m = c :: rest → c = '0' → rest = [] := by
    intro m
    induction m using Nat.strongRecOn with
    | ind m ih =>
        rintro c rest heq rfl
        rw [Nat.toDigits_eq_if (by decide)] at heq
        split at heq
        · exact (List.cons.inj heq).2.symm
        · rename_i hlarge
          obtain ⟨d, more, hmore⟩ := List.exists_cons_of_ne_nil
            (Nat.toDigits_ne_nil (n := m / 10) (b := 10))
          rw [hmore, List.cons_append] at heq
          obtain ⟨rfl, -⟩ := List.cons.inj heq
          have hnil := ih (m / 10) (by omega) _ _ hmore rfl
          rw [hnil] at hmore
          have hvalue := Nat.ofDigitChars_ten_toDigits (n := m / 10)
          rw [hmore] at hvalue
          have : m / 10 = 0 := hvalue.symm
          omega
  obtain ⟨c, rest, heq⟩ := List.exists_cons_of_ne_nil (Nat.toDigits_ne_nil (n := n) (b := 10))
  rw [heq] at hdigits
  exact ⟨c, rest, heq, hdigits c List.mem_cons_self,
    fun d hd => hdigits d (List.mem_cons_of_mem _ hd), hzero n c rest heq⟩

theorem takeWhile_digits {digits rest : Str} (h : ∀ d ∈ digits, d.isDigit = true)
    (hrest : Ends rest) :
    (digits ++ rest).takeWhile Char.isDigit = digits ∧
      (digits ++ rest).dropWhile Char.isDigit = rest := by
  have hstop : rest.takeWhile Char.isDigit = [] ∧ rest.dropWhile Char.isDigit = rest := by
    cases rest with
    | nil => exact ⟨rfl, rfl⟩
    | cons c rest =>
        have hc := (hrest c rfl).1
        exact ⟨List.takeWhile_cons_of_neg (by simp [hc]), List.dropWhile_cons_of_neg (by simp [hc])⟩
  rw [List.takeWhile_append_of_pos h, List.dropWhile_append_of_pos h, hstop.1, hstop.2,
    List.append_nil]
  exact ⟨rfl, rfl⟩

theorem readNat_toDigits {n : ℕ} {rest : Str} (h : Ends rest)
    (hlength : (Nat.toDigits 10 n).length ≤ Decimal.maxStrDigits) (negative : Bool) :
    readNat negative (Nat.toDigits 10 n ++ rest) =
      some (.int (if negative then -(n : ℤ) else n), rest) := by
  have hvalue := Nat.ofDigitChars_ten_toDigits (n := n)
  obtain ⟨c, digits, heq, hc, hdigits, hzero⟩ := toDigits_head n
  rw [heq] at hvalue hlength ⊢
  rw [List.cons_append, readNat]
  split
  · -- the whole number is zero
    rename_i hcz
    obtain rfl := hzero hcz
    rw [List.nil_append, number_of_ends h hlength, hvalue]
  · obtain ⟨htake, hdrop⟩ := takeWhile_digits hdigits h
    rw [htake, hdrop, number_of_ends h hlength, hvalue]

theorem readNumber_write {n : ℤ} {text rest : Str} (hwrite : Decimal.write n = some text)
    (h : Ends rest) : readNumber (text ++ rest) = some (.int n, rest) := by
  unfold Decimal.write at hwrite
  split at hwrite
  · rename_i hlength
    obtain rfl := Option.some.inj hwrite
    rw [Decimal.ofInt_eq]
    obtain ⟨c, digits, heq, hc, -⟩ := toDigits_head n.natAbs
    have hne : c ≠ 'N' ∧ c ≠ 'I' ∧ c ≠ '-' := by
      refine ⟨?_, ?_, ?_⟩ <;> rintro rfl <;> exact absurd hc (by decide)
    split
    · have hread := readNat_toDigits h hlength false
      rw [heq] at hread ⊢
      rw [List.cons_append] at hread ⊢
      rw [readNumber.eq_5 _ (fun _ he => hne.1 (List.cons.inj he).1)
        (fun _ he => hne.2.1 (List.cons.inj he).1) (fun _ he => hne.2.2 (List.cons.inj he).1)
        (fun _ he => hne.2.2 (List.cons.inj he).1), hread]
      simp only [Bool.false_eq_true, if_false]
      congr 3
      omega
    · have hread := readNat_toDigits h hlength true
      rw [heq] at hread ⊢
      rw [List.cons_append] at hread
      rw [List.cons_append, List.cons_append,
        readNumber.eq_4 _ (fun _ he => hne.2.1 (List.cons.inj he).1), hread]
      simp only [if_true]
      congr 3
      omega
  · cases hwrite

/-! ## Values are read back -/

theorem readValue_of_digit {c : Char} (h : c.isDigit = true ∨ c = '-') (fuel : ℕ) (rest : Str) :
    readValue (fuel + 1) (c :: rest) = readNumber (c :: rest) := by
  have hne : c ≠ '"' ∧ c ≠ '[' ∧ c ≠ '\x7b' ∧ c ≠ 'n' ∧ c ≠ 't' ∧ c ≠ 'f' := by
    refine ⟨?_, ?_, ?_, ?_, ?_, ?_⟩ <;> rintro rfl <;> exact absurd h (by decide)
  obtain ⟨hquote, hbracket, hbrace, hn, ht, hf⟩ := hne
  exact readValue.eq_8 _ _ (fun _ he => hquote (List.cons.inj he).1)
    (fun _ he => hbracket (List.cons.inj he).1) (fun _ he => hbrace (List.cons.inj he).1)
    (fun _ he => hn (List.cons.inj he).1) (fun _ he => ht (List.cons.inj he).1)
    (fun _ he => hf (List.cons.inj he).1)

/-- A written number starts with a digit or with the minus sign. -/
theorem write_int_head {n : ℤ} {text : Str} (h : Decimal.write n = some text) :
    ∃ c rest, text = c :: rest ∧ (c.isDigit = true ∨ c = '-') := by
  unfold Decimal.write at h
  split at h
  · obtain rfl := Option.some.inj h
    obtain ⟨c, digits, heq, hc, -⟩ := toDigits_head n.natAbs
    rw [Decimal.ofInt_eq]
    split
    · exact ⟨c, digits, heq, .inl hc⟩
    · exact ⟨'-', _, rfl, .inr rfl⟩
  · cases h

theorem isBlank_of_digit {c : Char} (h : c.isDigit = true ∨ c = '-') :
    isBlank c = false ∧ c ≠ ']' ∧ c ≠ '\x7d' := by
  rcases h with h | rfl
  · have hdigit := Str.toNat_of_isDigit h
    refine ⟨?_, ?_, ?_⟩
    · simp only [isBlank, Bool.or_eq_false_iff, decide_eq_false_iff_not]
      refine ⟨⟨⟨?_, ?_⟩, ?_⟩, ?_⟩ <;> rintro rfl <;> exact absurd h (by decide)
    · rintro rfl
      exact absurd h (by decide)
    · rintro rfl
      exact absurd h (by decide)
  · decide

/-- What is written starts with no blank, and with no bracket that closes. -/
theorem write_head {gap : Str} {v : Value} {text : Str} (h : write gap v = some text) :
    ∃ c rest, text = c :: rest ∧ isBlank c = false ∧ c ≠ ']' := by
  cases v with
  | null =>
      rw [write] at h
      exact ⟨_, _, (Option.some.inj h).symm, by decide, by decide⟩
  | bool b =>
      cases b with
      | true =>
          rw [write] at h
          exact ⟨_, _, (Option.some.inj h).symm, by decide, by decide⟩
      | false =>
          rw [write] at h
          exact ⟨_, _, (Option.some.inj h).symm, by decide, by decide⟩
  | int n =>
      rw [write] at h
      obtain ⟨c, rest, heq, hc⟩ := write_int_head h
      obtain ⟨hblank, hclose, -⟩ := isBlank_of_digit hc
      exact ⟨c, rest, heq, hblank, hclose⟩
  | float lexeme =>
      rw [write] at h
      cases h
  | str s =>
      rw [write] at h
      exact ⟨_, _, (Option.some.inj h).symm, by decide, by decide⟩
  | arr elems =>
      rw [write] at h
      obtain ⟨text, -, rfl⟩ := Option.map_eq_some_iff.mp h
      exact ⟨_, _, rfl, by decide, by decide⟩
  | obj fields =>
      rw [write] at h
      obtain ⟨text, -, rfl⟩ := Option.map_eq_some_iff.mp h
      exact ⟨_, _, rfl, by decide, by decide⟩

theorem skip_cons {c : Char} (h : isBlank c = false) (rest : Str) : skip (c :: rest) = c :: rest :=
  List.dropWhile_cons_of_neg (by simp [h])

theorem skip_write {gap pre : Str} {v : Value} {text : Str} (hpre : ∀ c ∈ pre, isBlank c = true)
    (h : write gap v = some text) (rest : Str) : skip (pre ++ (text ++ rest)) = text ++ rest := by
  obtain ⟨c, more, rfl, hblank, -⟩ := write_head h
  rw [skip, List.dropWhile_append_of_pos hpre]
  exact skip_cons hblank _

theorem ends_cons {c : Char} (h : c = ',' ∨ c = ']' ∨ c = '\x7d') (rest : Str) :
    Ends (c :: rest) := by
  intro d hd
  cases hd
  rcases h with rfl | rfl | rfl <;> decide

section RoundTrip

variable {gap : Str}

/-- The texts of the elements start like the text of the first one. -/
theorem skip_writeElems {v : Value} {vs : List Value} {text : Str}
    (h : writeElems gap (v :: vs) = some text) (pre : Str) (hpre : ∀ c ∈ pre, isBlank c = true)
    (rest : Str) : skip (pre ++ (text ++ rest)) = text ++ rest ∧
      ∀ more, text ++ rest ≠ ']' :: more := by
  have hhead : ∃ c more, text = c :: more ∧ isBlank c = false ∧ c ≠ ']' := by
    cases vs with
    | nil =>
        rw [writeElems] at h
        exact write_head h
    | cons w vs =>
        rw [writeElems] at h
        obtain ⟨first, hfirst, h⟩ := Option.bind_eq_some_iff.mp h
        obtain ⟨more, -, rfl⟩ := Option.map_eq_some_iff.mp h
        obtain ⟨c, tail, rfl, hc⟩ := write_head hfirst
        exact ⟨c, _, rfl, hc⟩
  obtain ⟨c, more, rfl, hblank, hclose⟩ := hhead
  constructor
  · rw [skip, List.dropWhile_append_of_pos hpre]
    exact skip_cons hblank _
  · intro tail heq
    exact hclose (List.cons.inj heq).1

theorem writeFields_head {key : Str} {v : Value} {fields : List (Str × Value)} {text : Str}
    (h : writeFields gap ((key, v) :: fields) = some text) : ∃ more, text = '"' :: more := by
  cases fields with
  | nil =>
      rw [writeFields] at h
      obtain ⟨value, -, rfl⟩ := Option.map_eq_some_iff.mp h
      exact ⟨_, rfl⟩
  | cons field fields =>
      rw [writeFields] at h
      obtain ⟨value, -, h⟩ := Option.bind_eq_some_iff.mp h
      obtain ⟨more, -, rfl⟩ := Option.map_eq_some_iff.mp h
      exact ⟨_, rfl⟩

/-- By induction on the fuel, which is more than the length of the text: each of the
three readers gives the others a shorter one. -/
theorem read_written (hgap : ∀ c ∈ gap, isBlank c = true) (fuel : ℕ) :
    (∀ v text rest, write gap v = some text → text.length < fuel → Ends rest →
      readValue fuel (text ++ rest) = some (v, rest)) ∧
    (∀ v vs text rest, writeElems gap (v :: vs) = some text → text.length + 1 < fuel →
      readElems fuel (text ++ ']' :: rest) = some (v :: vs, rest)) ∧
    (∀ field fields text rest, writeFields gap (field :: fields) = some text →
      text.length + 1 < fuel →
        readFields fuel (text ++ '\x7d' :: rest) = some (field :: fields, rest)) := by
  induction fuel with
  | zero =>
      exact ⟨fun _ _ _ _ h => absurd h (Nat.not_lt_zero _), fun _ _ _ _ _ h =>
        absurd h (Nat.not_lt_zero _), fun _ _ _ _ _ h => absurd h (Nat.not_lt_zero _)⟩
  | succ fuel ih =>
      obtain ⟨ihValue, ihElems, ihFields⟩ := ih
      refine ⟨?_, ?_, ?_⟩
      · intro v text rest hwrite hfuel hends
        cases v with
        | null =>
            rw [write] at hwrite
            cases hwrite
            rfl
        | bool b =>
            cases b with
            | true =>
                rw [write] at hwrite
                cases hwrite
                rfl
            | false =>
                rw [write] at hwrite
                cases hwrite
                rfl
        | int n =>
            rw [write] at hwrite
            have hread := readNumber_write hwrite hends
            obtain ⟨c, more, rfl, hc⟩ := write_int_head hwrite
            rw [List.cons_append] at hread ⊢
            rw [readValue_of_digit hc, hread]
        | float lexeme =>
            rw [write] at hwrite
            cases hwrite
        | str s =>
            rw [write] at hwrite
            cases hwrite
            rw [quote, List.cons_append, List.append_assoc, List.singleton_append, readValue,
              readString_quoted]
            rfl
        | arr elems =>
            rw [write] at hwrite
            obtain ⟨inner, hinner, rfl⟩ := Option.map_eq_some_iff.mp hwrite
            rw [List.cons_append, List.append_assoc, List.singleton_append, readValue]
            cases elems with
            | nil =>
                rw [writeElems] at hinner
                cases hinner
                rfl
            | cons w elems =>
                obtain ⟨hskip, hclose⟩ := skip_writeElems hinner [] (by simp) (']' :: rest)
                rw [List.nil_append] at hskip
                rw [hskip]
                split
                · rename_i tail heq
                  exact absurd heq (hclose tail)
                · simp only [List.length_cons, List.length_append, List.length_nil] at hfuel
                  rw [ihElems w elems inner rest hinner (by omega)]
                  rfl
        | obj fields =>
            rw [write] at hwrite
            obtain ⟨inner, hinner, rfl⟩ := Option.map_eq_some_iff.mp hwrite
            rw [List.cons_append, List.append_assoc, List.singleton_append, readValue]
            cases fields with
            | nil =>
                rw [writeFields] at hinner
                cases hinner
                rfl
            | cons field fields =>
                have hread := ihFields field fields inner rest hinner (by
                  simp only [List.length_cons, List.length_append, List.length_nil] at hfuel
                  omega)
                obtain ⟨more, rfl⟩ := writeFields_head hinner
                rw [List.cons_append] at hread ⊢
                rw [skip_cons (by decide)]
                show Option.map _ (readFields fuel _) = _
                rw [hread]
                rfl
      · intro v vs text rest hwrite hfuel
        cases vs with
        | nil =>
            rw [writeElems] at hwrite
            rw [readElems, ihValue v text _ hwrite (by omega) (ends_cons (by simp) rest)]
            rfl
        | cons w vs =>
            rw [writeElems] at hwrite
            obtain ⟨first, hfirst, hwrite⟩ := Option.bind_eq_some_iff.mp hwrite
            obtain ⟨more, hmore, rfl⟩ := Option.map_eq_some_iff.mp hwrite
            simp only [List.length_append, List.length_cons] at hfuel
            have hread := ihValue v first (',' :: (gap ++ (more ++ ']' :: rest))) hfirst (by omega)
              (ends_cons (by simp) _)
            have hskip := (skip_writeElems hmore gap hgap (']' :: rest)).1
            have htext : (first ++ ',' :: (gap ++ more)) ++ ']' :: rest =
                first ++ ',' :: (gap ++ (more ++ ']' :: rest)) := by simp
            rw [htext, readElems, hread, Option.bind_some]
            dsimp only
            rw [skip_cons (by decide)]
            show Option.map _ (readElems fuel (skip _)) = _
            rw [hskip, ihElems w vs more rest hmore (by omega)]
            rfl
      · rintro ⟨key, v⟩ fields text rest hwrite hfuel
        cases fields with
        | nil =>
            rw [writeFields] at hwrite
            obtain ⟨value, hvalue, rfl⟩ := Option.map_eq_some_iff.mp hwrite
            simp only [quote, List.length_append, List.length_cons] at hfuel
            have hread := ihValue v value ('\x7d' :: rest) hvalue (by omega) (ends_cons (by simp) _)
            have htext : (quote key ++ ':' :: (gap ++ value)) ++ '\x7d' :: rest =
                '"' :: (key.flatMap escape ++
                  '"' :: ':' :: (gap ++ (value ++ '\x7d' :: rest))) := by
              simp [quote]
            rw [htext, readFields, readString_quoted, Option.bind_some]
            dsimp only
            rw [skip_cons (by decide)]
            show Option.bind (readValue fuel (skip _)) _ = _
            rw [skip_write hgap hvalue, hread, Option.bind_some]
            rfl
        | cons field fields =>
            rw [writeFields] at hwrite
            obtain ⟨value, hvalue, hwrite⟩ := Option.bind_eq_some_iff.mp hwrite
            obtain ⟨more, hmore, rfl⟩ := Option.map_eq_some_iff.mp hwrite
            simp only [quote, List.length_append, List.length_cons] at hfuel
            have hread := ihValue v value (',' :: (gap ++ (more ++ '\x7d' :: rest))) hvalue
              (by omega) (ends_cons (by simp) _)
            have hmoreread := ihFields field fields more rest hmore (by omega)
            have htext : (quote key ++ ':' :: (gap ++ (value ++ ',' :: (gap ++ more)))) ++
                  '\x7d' :: rest =
                '"' :: (key.flatMap escape ++
                  '"' :: ':' :: (gap ++ (value ++ ',' :: (gap ++ (more ++ '\x7d' :: rest))))) := by
              simp [quote]
            obtain ⟨tail, rfl⟩ := writeFields_head hmore
            have hskip : skip (gap ++ ('"' :: tail ++ '\x7d' :: rest)) =
                '"' :: tail ++ '\x7d' :: rest := by
              rw [skip, List.dropWhile_append_of_pos hgap]
              exact skip_cons (by decide) _
            rw [htext, readFields, readString_quoted, Option.bind_some]
            dsimp only
            rw [skip_cons (by decide)]
            show Option.bind (readValue fuel (skip _)) _ = _
            rw [skip_write hgap hvalue, hread, Option.bind_some]
            dsimp only
            rw [skip_cons (by decide)]
            show Option.map _ (readFields fuel (skip _)) = _
            rw [hskip, hmoreread]
            rfl

/-- What `dumps` writes, `loads` reads back, whatever blanks stand behind the commas
and the colons. -/
theorem read_write (hgap : ∀ c ∈ gap, isBlank c = true) {v : Value} {text : Str}
    (h : write gap v = some text) : read text = some v := by
  have hskip : skip ([] ++ (text ++ [])) = text ++ [] := skip_write (by simp) h []
  rw [List.nil_append, List.append_nil] at hskip
  have hread := (read_written hgap (text.length + 1)).1 v text [] h (by omega)
    (fun _ hc => nomatch hc)
  rw [List.append_nil] at hread
  rw [read, hskip, hread, Option.bind_some]
  rfl

end RoundTrip

end JsonText

end Jumbox
