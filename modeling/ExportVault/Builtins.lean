import Mathlib.Data.List.Basic
import Mathlib.Algebra.Order.Ring.Nat

/-!
# JavaScript built-ins

The standard-library functions the program relies on, under their own names:
`padStart`, `slice`, `toISOString` and the conversion `BigInt(text)`.  Their
documented behaviour is modelled on Lean strings; `slice` counts UTF-16 code
units, as JavaScript does, and cuts for a column of the database.
-/

namespace ExportVault

/-- `text.padStart(width, fill)` for a one-character fill. -/
def padStart (text : String) (width : Nat) (fill : Char) : String :=
  String.ofList (List.replicate (width - text.length) fill ++ text.toList)

/-- The UTF-16 code units a character takes. -/
def utf16Size (char : Char) : Nat :=
  if char.toNat < 65536 then 1 else 2

/-- What a text with half a surrogate pair is stored as there. -/
def replacementChar : Char :=
  Char.ofNat 65533

/-- The first `units` UTF-16 code units, as they are stored. -/
def takeUnits : Nat → List Char → List Char
  | _, [] => []
  | units, char :: rest =>
      if utf16Size char ≤ units then
        char :: takeUnits (units - utf16Size char) rest
      else if units = 1 then [replacementChar]
      else []

/-- `text.slice(0, units)`. -/
def slice (text : String) (units : Nat) : String :=
  String.ofList (takeUnits units text.toList)

def units (text : List Char) : Nat :=
  (text.map utf16Size).sum

theorem units_takeUnits (count : Nat) (text : List Char) :
    units (takeUnits count text) ≤ count := by
  induction text generalizing count with
  | nil => cases count <;> exact Nat.zero_le _
  | cons char rest inductionHypothesis =>
      rw [takeUnits]
      split
      · next fits =>
          have others := inductionHypothesis (count - utf16Size char)
          simp only [units, List.map_cons, List.sum_cons] at others ⊢
          omega
      · split
        · next one =>
            rw [one]
            exact le_of_eq (by decide)
        · exact Nat.zero_le _

theorem units_slice (text : String) (count : Nat) :
    units (slice text count).toList ≤ count := by
  rw [slice, String.toList_ofList]
  exact units_takeUnits count text.toList

/-- `date.toISOString()` for a date given in milliseconds since 1970: the
Gregorian date of the day, then the time of the day. -/
def toISOString (time : Int) : String :=
  let inDay := (time % 86400000).toNat
  let shifted := time / 86400000 + 719468
  let era := shifted / 146097
  let dayOfEra := shifted % 146097
  let yearOfEra :=
    (dayOfEra - dayOfEra / 1460 + dayOfEra / 36524 - dayOfEra / 146096) / 365
  let dayOfYear :=
    dayOfEra - (365 * yearOfEra + yearOfEra / 4 - yearOfEra / 100)
  -- months are counted from March, so that the leap day ends the year
  let marchMonth := (5 * dayOfYear + 2) / 153
  let day := dayOfYear - (153 * marchMonth + 2) / 5 + 1
  let month := if marchMonth < 10 then marchMonth + 3 else marchMonth - 9
  let year := yearOfEra + era * 400 + (if month ≤ 2 then 1 else 0)
  let digits := fun (value : Int) (width : Nat) =>
    padStart (toString value) width '0'
  let yearText :=
    if 0 ≤ year ∧ year ≤ 9999 then digits year 4
    else if year < 0 then "-" ++ digits (-year) 6
    else "+" ++ digits year 6
  yearText ++ "-" ++ digits month 2 ++ "-" ++ digits day 2 ++ "T" ++
    digits (inDay / 3600000 : Nat) 2 ++ ":" ++
    digits (inDay / 60000 % 60 : Nat) 2 ++ ":" ++
    digits (inDay / 1000 % 60 : Nat) 2 ++ "." ++
    digits (inDay % 1000 : Nat) 3 ++ "Z"

example : toISOString 951782400000 = "2000-02-29T00:00:00.000Z" := by decide

/-- White space and line terminators, which `BigInt` skips at both ends. -/
def isStrWhiteSpace (char : Char) : Bool :=
  let code := char.toNat
  (9 ≤ code && code ≤ 13) || code = 32 || code = 160 || code = 5760 ||
    (8192 ≤ code && code ≤ 8202) || code = 8232 || code = 8233 ||
    code = 8239 || code = 8287 || code = 12288 || code = 65279

def trim (text : List Char) : List Char :=
  ((text.dropWhile isStrWhiteSpace).reverse.dropWhile
    isStrWhiteSpace).reverse

def digitValue (char : Char) : Nat :=
  if '0' ≤ char ∧ char ≤ '9' then char.toNat - 48
  else if 'a' ≤ char ∧ char ≤ 'f' then char.toNat - 87
  else if 'A' ≤ char ∧ char ≤ 'F' then char.toNat - 55
  else 16

/-- The value of a non-empty string of digits in the given base. -/
def parseDigits (base : Nat) (digits : List Char) : Option Nat :=
  if digits ≠ [] ∧ digits.all (fun char => digitValue char < base) then
    some (digits.foldl (fun value char => base * value + digitValue char) 0)
  else none

/-- `BigInt(text)`; `none` is a `SyntaxError`.  Blank text is zero, a sign may
stand before decimal digits, and `0x`, `0o` and `0b` open other bases. -/
def bigInt (text : String) : Option Int :=
  match trim text.toList with
  | [] => some 0
  | '+' :: digits => (parseDigits 10 digits).map Int.ofNat
  | '-' :: digits => (parseDigits 10 digits).map fun value => -(value : Int)
  | first :: second :: digits =>
      if first = '0' ∧ (second = 'x' ∨ second = 'X') then
        (parseDigits 16 digits).map Int.ofNat
      else if first = '0' ∧ (second = 'o' ∨ second = 'O') then
        (parseDigits 8 digits).map Int.ofNat
      else if first = '0' ∧ (second = 'b' ∨ second = 'B') then
        (parseDigits 2 digits).map Int.ofNat
      else (parseDigits 10 (first :: second :: digits)).map Int.ofNat
  | digits => (parseDigits 10 digits).map Int.ofNat

theorem isDigit_iff {char : Char} :
    char.isDigit = true ↔ 48 ≤ char.toNat ∧ char.toNat ≤ 57 := by
  simp only [Char.isDigit, Bool.and_eq_true, decide_eq_true_eq, ge_iff_le,
    UInt32.le_iff_toNat_le, Char.toNat]
  rfl

theorem digitValue_of_isDigit {char : Char} (digit : char.isDigit = true) :
    digitValue char = char.toNat - 48 ∧ digitValue char < 10 := by
  have bounds := isDigit_iff.mp digit
  have decimal : '0' ≤ char ∧ char ≤ '9' := by
    simp only [Char.le_def, UInt32.le_iff_toNat_le]
    exact bounds
  rw [digitValue, if_pos decimal]
  omega

theorem not_isStrWhiteSpace_of_isDigit {char : Char}
    (digit : char.isDigit = true) : isStrWhiteSpace char = false := by
  have bounds := isDigit_iff.mp digit
  simp only [isStrWhiteSpace, Bool.or_eq_false_iff, Bool.and_eq_false_iff,
    decide_eq_false_iff_not]
  omega

theorem parseDigits_toDigits (value : Nat) :
    parseDigits 10 (Nat.toDigits 10 value) = some value := by
  have digits : ∀ char ∈ Nat.toDigits 10 value, char.isDigit = true :=
    fun _ member => Nat.isDigit_of_mem_toDigits (by omega) (by omega) member
  have sameFold : ∀ (text : List Char) (initial : Nat),
      (∀ char ∈ text, char.isDigit = true) →
      text.foldl (fun value char => 10 * value + digitValue char) initial =
        Nat.ofDigitChars 10 text initial := by
    intro text
    induction text with
    | nil => intro initial _; rfl
    | cons char rest inductionHypothesis =>
        intro initial allDigits
        rw [List.foldl_cons, Nat.ofDigitChars_cons,
          (digitValue_of_isDigit (allDigits char List.mem_cons_self)).1]
        exact inductionHypothesis _ fun other member =>
          allDigits other (List.mem_cons_of_mem _ member)
  have allValid :
      (Nat.toDigits 10 value).all (fun char => digitValue char < 10) = true :=
    List.all_eq_true.mpr fun char member => by
      simpa using (digitValue_of_isDigit (digits char member)).2
  rw [parseDigits, if_pos ⟨Nat.toDigits_ne_nil, allValid⟩,
    sameFold _ _ digits, Nat.ofDigitChars_ten_toDigits]

theorem trim_of_ends {text : List Char}
    (front : ∀ char ∈ text.head?, isStrWhiteSpace char = false)
    (back : ∀ char ∈ text.getLast?, isStrWhiteSpace char = false) :
    trim text = text := by
  have keep : ∀ {chars : List Char},
      (∀ char ∈ chars.head?, isStrWhiteSpace char = false) →
      chars.dropWhile isStrWhiteSpace = chars := by
    intro chars start
    cases chars with
    | nil => rfl
    | cons char rest =>
        rw [List.dropWhile_cons, start char (by simp)]
        rfl
  rw [trim, keep front, keep (by simpa using back), List.reverse_reverse]

/-- A string of digits has no sign and no prefix. -/
theorem bigInt_of_digits {text : String} {value : Nat}
    (nonempty : text.toList ≠ [])
    (digits : ∀ char ∈ text.toList, char.isDigit = true)
    (whole : parseDigits 10 text.toList = some value) :
    bigInt text = some (value : Int) := by
  have trimmed : trim text.toList = text.toList := by
    apply trim_of_ends
    · intro char member
      exact not_isStrWhiteSpace_of_isDigit
        (digits char (List.mem_of_head? member))
    · intro char member
      exact not_isStrWhiteSpace_of_isDigit
        (digits char (List.mem_of_getLast? member))
  rw [bigInt, trimmed]
  split
  · next empty => exact absurd empty nonempty
  · next digitsEq =>
      have plus := digits '+' (by rw [digitsEq]; exact List.mem_cons_self)
      exact absurd plus (by decide)
  · next digitsEq =>
      have minus := digits '-' (by rw [digitsEq]; exact List.mem_cons_self)
      exact absurd minus (by decide)
  · next first second rest _ _ digitsEq =>
      have secondDigit := isDigit_iff.mp <| digits second <| by
        rw [digitsEq]
        exact List.mem_cons_of_mem _ List.mem_cons_self
      have notPrefix : ∀ letter : Char, 57 < letter.toNat →
          second ≠ letter := by
        rintro letter above rfl
        omega
      rw [if_neg, if_neg, if_neg, ← digitsEq, whole]
      · rfl
      · simp [notPrefix 'b' (by decide), notPrefix 'B' (by decide)]
      · simp [notPrefix 'o' (by decide), notPrefix 'O' (by decide)]
      · simp [notPrefix 'x' (by decide), notPrefix 'X' (by decide)]
  · rw [whole]
    rfl

/-- The decimal numeral of an integer is read back as that integer. -/
theorem bigInt_toString (value : Int) :
    bigInt (toString value) = some value := by
  have digits : ∀ (size : Nat), ∀ char ∈ Nat.toDigits 10 size,
      char.isDigit = true :=
    fun _ _ member => Nat.isDigit_of_mem_toDigits (by omega) (by omega) member
  cases value with
  | ofNat size =>
      have text : (toString (Int.ofNat size)).toList = Nat.toDigits 10 size :=
        Nat.toList_repr
      apply bigInt_of_digits
      · rw [text]
        exact Nat.toDigits_ne_nil
      · rw [text]
        exact digits size
      · rw [text]
        exact parseDigits_toDigits size
  | negSucc size =>
      have text : (toString (Int.negSucc size)).toList =
          '-' :: Nat.toDigits 10 (size + 1) := by
        change ("-" ++ (size + 1).repr).toList = _
        rw [String.toList_append, Nat.toList_repr]
        rfl
      have trimmed : trim ('-' :: Nat.toDigits 10 (size + 1)) =
          '-' :: Nat.toDigits 10 (size + 1) := by
        apply trim_of_ends
        · intro char member
          obtain rfl : '-' = char := by simpa using member
          decide
        · intro char member
          rw [List.getLast?_cons_of_ne_nil Nat.toDigits_ne_nil] at member
          exact not_isStrWhiteSpace_of_isDigit
            (digits _ char (List.mem_of_getLast? member))
      rw [bigInt, text, trimmed]
      simp [parseDigits_toDigits, Int.negSucc_eq]

end ExportVault
