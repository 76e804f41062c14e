import Mathlib.Algebra.GroupWithZero.Nat
import Mathlib.Data.Char
import Mathlib.Data.List.DropRight
import Mathlib.Data.List.Infix
import Mathlib.Data.List.Lex
import Mathlib.Tactic.Common

namespace Mediaops

-- A string is the list of its Unicode scalar values. The operations below are
-- those of the host language's standard library; where that library works on
-- UTF-8 bytes the text says why scalar values give the same answer.
abbrev Text := List Char

instance : Coe String Text := ⟨String.toList⟩

instance : LawfulBEq Text := inferInstanceAs (LawfulBEq (List Char))

namespace Text

-- The Unicode White_Space property.
def isWhitespace (c : Char) : Bool :=
  c.val == 0x20 || (0x09 ≤ c.val && c.val ≤ 0x0d) || c.val == 0x85 || c.val == 0xa0 ||
    c.val == 0x1680 || (0x2000 ≤ c.val && c.val ≤ 0x200a) || c.val == 0x2028 ||
    c.val == 0x2029 || c.val == 0x202f || c.val == 0x205f || c.val == 0x3000

def toAsciiLowercase (text : Text) : Text := text.map Char.toLower

-- Two strings that agree byte for byte up to the case of ASCII letters have as
-- many scalar values, and these agree up to case.
def eqIgnoreAsciiCase (left right : Text) : Bool :=
  toAsciiLowercase left == toAsciiLowercase right

-- `str::split` with a set of characters: n separators give n + 1 pieces.
def split (separator : Char → Bool) : Text → List Text
  | [] => [[]]
  | c :: rest =>
      if separator c then [] :: split separator rest
      else match split separator rest with
        | [] => [[c]]
        | piece :: pieces => (c :: piece) :: pieces

-- `str::split_once`: at the first occurrence.
def splitOnce (separator : Char) : Text → Option (Text × Text)
  | [] => none
  | c :: rest =>
      if c = separator then some ([], rest)
      else (splitOnce separator rest).map fun (before, after) => (c :: before, after)

-- `str::rsplit_once`: at the last occurrence.
def rsplitOnce (separator : Char) : Text → Option (Text × Text)
  | [] => none
  | c :: rest =>
      match rsplitOnce separator rest with
      | some (before, after) => some (c :: before, after)
      | none => if c = separator then some ([], rest) else none

def stripPrefix (start : Text) (text : Text) : Option Text :=
  if start <+: text then some (text.drop start.length) else none

def trimStartMatches (drop : Char → Bool) (text : Text) : Text := text.dropWhile drop

def trimEndMatches (drop : Char → Bool) (text : Text) : Text := text.rdropWhile drop

def trimMatches (drop : Char → Bool) (text : Text) : Text :=
  trimEndMatches drop (trimStartMatches drop text)

def startsWith (start text : Text) : Bool := start.isPrefixOf text

-- The length guard and the boundary guard of the byte version only keep the
-- slice legal: a byte-wise equal prefix has the prefix's number of scalars.
def startsWithCi (text start : Text) : Bool :=
  start.length ≤ text.length && eqIgnoreAsciiCase (text.take start.length) start

-- `[T]::join(".")` on strings.
def joinWith (separator : Char) (pieces : List Text) : Text := [separator].intercalate pieces

-- `format!("{n}")`
def decimal (n : Nat) : Text := Nat.toDigits 10 n

def decimalInt (n : Int) : Text := if n < 0 then '-' :: decimal n.natAbs else decimal n.natAbs

-- `format!("{n:02}")`
def decimal02 (n : Nat) : Text := if n < 10 then '0' :: decimal n else decimal n

-- Value of a run of ASCII digits. The callers check the digits first, so the
-- sign that the host language's parser also accepts cannot occur.
def digitsValue (digits : Text) : Nat := Nat.ofDigitChars 10 digits 0

-- `str::parse` to an unsigned integer below `bound`, of text that has only digits.
def parseBelow (bound : Nat) (digits : Text) : Option Nat :=
  if digits = [] then none
  else if digitsValue digits < bound then some (digitsValue digits) else none

-- A property of every character of a given text, by looking at each of them.
theorem every {p : Char → Prop} [DecidablePred p] {text : Text}
    (h : text.all (fun c => decide (p c)) = true) : ∀ c ∈ text, p c := by
  simpa using h

theorem toNat_toLower (c : Char) :
    c.toLower.toNat = if 65 ≤ c.toNat ∧ c.toNat ≤ 90 then c.toNat + 32 else c.toNat := by
  unfold Char.toLower
  split
  · rename_i h
    have hc : 65 ≤ c.toNat ∧ c.toNat ≤ 90 := by
      simpa [UInt32.le_iff_toNat_le, Char.toNat_val] using h
    rw [if_pos hc]
    have hv : c.val.toNat ≤ 90 := by simpa [Char.toNat_val] using hc.2
    have hd : ('a'.val - 'A'.val).toNat = 32 := by decide
    change (c.val + ('a'.val - 'A'.val)).toNat = c.val.toNat + 32
    rw [UInt32.toNat_add]
    omega
  · rename_i h
    have hc : ¬(65 ≤ c.toNat ∧ c.toNat ≤ 90) := by
      simpa [UInt32.le_iff_toNat_le, Char.toNat_val] using h
    rw [if_neg hc]

theorem isDigit_iff (c : Char) : c.isDigit = true ↔ 48 ≤ c.toNat ∧ c.toNat ≤ 57 := by
  simp [Char.isDigit, UInt32.le_iff_toNat_le, ← Char.toNat_val]

theorem isUpper_iff (c : Char) : c.isUpper = true ↔ 65 ≤ c.toNat ∧ c.toNat ≤ 90 := by
  change decide (65 ≤ c.val ∧ c.val ≤ 90) = true ↔ _
  simp [UInt32.le_iff_toNat_le, ← Char.toNat_val]

theorem isLower_iff (c : Char) : c.isLower = true ↔ 97 ≤ c.toNat ∧ c.toNat ≤ 122 := by
  change (decide (97 ≤ c.val) && decide (c.val ≤ 122)) = true ↔ _
  simp [UInt32.le_iff_toNat_le, ← Char.toNat_val]

theorem isAlphanum_iff (c : Char) : c.isAlphanum = true ↔
    (65 ≤ c.toNat ∧ c.toNat ≤ 90) ∨ (97 ≤ c.toNat ∧ c.toNat ≤ 122) ∨
      (48 ≤ c.toNat ∧ c.toNat ≤ 57) := by
  change (c.isUpper || c.isLower || c.isDigit) = true ↔ _
  rw [Bool.or_eq_true, Bool.or_eq_true, isUpper_iff, isLower_iff, isDigit_iff, or_assoc]

-- A character below the letters is its own lowercase form and nobody else's.
theorem toLower_eq_iff (c d : Char) (h : d.toNat < 65) : c.toLower = d ↔ c = d := by
  rw [← Char.toNat_inj, ← Char.toNat_inj, toNat_toLower]
  split <;> omega

theorem split_map (separator : Char → Bool) (f : Char → Char)
    (h : ∀ c, separator (f c) = separator c) (text : Text) :
    split separator (text.map f) = (split separator text).map (List.map f) := by
  induction text with
  | nil => rfl
  | cons c rest ih =>
      simp only [List.map_cons, split, h]
      split
      · simp [ih]
      · rw [ih]
        cases split separator rest <;> simp

theorem digitsValue_decimal (n : Nat) : digitsValue (decimal n) = n :=
  Nat.ofDigitChars_ten_toDigits

theorem decimal_injective {m n : Nat} (h : decimal m = decimal n) : m = n := by
  rw [← digitsValue_decimal m, h, digitsValue_decimal]

theorem decimalInt_injective {m n : Int} (hm : 0 ≤ m) (hn : 0 ≤ n)
    (h : decimalInt m = decimalInt n) : m = n := by
  unfold decimalInt at h
  rw [if_neg (by omega), if_neg (by omega)] at h
  have := decimal_injective h
  omega

end Text

end Mediaops
