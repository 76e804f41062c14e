import Mediaops.Library.Text

namespace Mediaops

-- The Unicode character properties the host language's standard library reads
-- from its tables. Their values on ASCII are fixed; the rest of the tables is
-- a parameter of the development.
class UnicodeTables where
  isAlphanumeric : Char → Bool
  isUppercase : Char → Bool
  toLowercase : Char → Text
  escapeDebug : Char → Text
  isAlphanumeric_ascii : ∀ c : Char, c.val < 128 → isAlphanumeric c = c.isAlphanum
  isUppercase_ascii : ∀ c : Char, c.val < 128 → isUppercase c = c.isUpper
  toLowercase_ascii : ∀ c : Char, c.val < 128 → toLowercase c = [c.toLower]

-- Tables that know only ASCII letters and digits. Inputs that stay within ASCII
-- are treated as under the full tables.
abbrev UnicodeTables.ascii : UnicodeTables where
  isAlphanumeric := Char.isAlphanum
  isUppercase := Char.isUpper
  toLowercase c := [c.toLower]
  escapeDebug c := [c]
  isAlphanumeric_ascii _ _ := rfl
  isUppercase_ascii _ _ := rfl
  toLowercase_ascii _ _ := rfl

inductive TitleKind where
  | Movie | Series | Album
  deriving DecidableEq, Repr

namespace TitleKind

def asStr : TitleKind → Text
  | Movie => "movie"
  | Series => "series"
  | Album => "album"

end TitleKind

inductive TitleSource where
  | Tmdb | Tvdb | Mbid | Key
  deriving DecidableEq, Repr

def TitleSource.asStr : TitleSource → Text
  | Tmdb => "tmdb"
  | Tvdb => "tvdb"
  | Mbid => "mbid"
  | Key => "key"

inductive TitleIdError where
  | Invalid (raw : Text)
  | InvalidKind (raw : Text)
  | InvalidSource (raw : Text)
  | InvalidPairing (kind authority : Text)
  | InvalidId (raw : Text)
  deriving DecidableEq, Repr

namespace TitleIdError

def display : TitleIdError → Text
  | Invalid raw => "invalid TitleId `".toList ++ raw ++ "`".toList
  | InvalidKind raw => "invalid TitleId kind `".toList ++ raw ++ "`".toList
  | InvalidSource raw => "invalid TitleId source `".toList ++ raw ++ "`".toList
  | InvalidPairing kind authority =>
      "invalid TitleId pairing ".toList ++ kind ++ ":".toList ++ authority
  | InvalidId raw => "invalid TitleId id `".toList ++ raw ++ "`".toList

end TitleIdError

def TitleKind.parse (raw : Text) : Except TitleIdError TitleKind :=
  if raw = "movie".toList then .ok .Movie
  else if raw = "series".toList then .ok .Series
  else if raw = "album".toList then .ok .Album
  else .error (.InvalidKind raw)

def TitleSource.parse (raw : Text) : Except TitleIdError TitleSource :=
  if raw = "tmdb".toList then .ok .Tmdb
  else if raw = "tvdb".toList then .ok .Tvdb
  else if raw = "mbid".toList then .ok .Mbid
  else if raw = "key".toList then .ok .Key
  else .error (.InvalidSource raw)

def foldLatin (c : Char) : Option Text :=
  if c ∈ "àáâäãåÀÁÂÄÃÅ".toList then some "a"
  else if c ∈ "èéêëÈÉÊË".toList then some "e"
  else if c ∈ "ìíîïÌÍÎÏ".toList then some "i"
  else if c ∈ "òóôöõøÒÓÔÖÕØ".toList then some "o"
  else if c ∈ "ùúûüÙÚÛÜ".toList then some "u"
  else if c ∈ "ñÑ".toList then some "n"
  else if c ∈ "çÇ".toList then some "c"
  else if c = 'ß' then some "ss"
  else if c ∈ "æÆ".toList then some "ae"
  else if c ∈ "œŒ".toList then some "oe"
  else none

-- Drop a trailing `.(YYYY)` display year. A byte length of six with four digits
-- inside is six scalar values, so the slice of the source is always legal.
def stripTrailingYear (text : Text) : Text :=
  let trimmed := Text.trimEndMatches Text.isWhitespace text
  match Text.rsplitOnce '(' trimmed with
  | none => trimmed
  | some (before, inner) =>
      if inner.length = 5 ∧ inner.getLast? = some ')' ∧ (inner.take 4).all Char.isDigit then
        Text.trimEndMatches (fun c => c == '.' || c == ' ') before
      else trimmed

def validPair : TitleKind → TitleSource → Bool
  | .Movie, .Tmdb | .Series, .Tvdb | .Album, .Mbid | _, .Key => true
  | _, _ => false

def isHexDigit (c : Char) : Bool :=
  c.isDigit || ('a' ≤ c && c ≤ 'f') || ('A' ≤ c && c ≤ 'F')

def isMbid (id : Text) : Bool :=
  match Text.split (· == '-') id with
  | [a, b, c, d, e] =>
      a.length == 8 && b.length == 4 && c.length == 4 && d.length == 4 && e.length == 12 &&
        [a, b, c, d, e].all fun part => part.all isHexDigit
  | _ => false

section

variable [UnicodeTables]

def titleKeyChar (c : Char) : Text :=
  if c.val < 128 then if c.isAlphanum then [c.toLower] else []
  else match foldLatin c with
    | some folded => folded
    | none => if UnicodeTables.isAlphanumeric c then UnicodeTables.toLowercase c else []

-- Comparison key of a display title: lowercase alphanumerics only.
def titleKey (text : Text) : Text := text.flatMap titleKeyChar

def isKeyId (id : Text) : Bool :=
  (Text.split (· == '.') id).all fun segment =>
    segment ≠ [] && segment.all fun c =>
      UnicodeTables.isAlphanumeric c && !UnicodeTables.isUppercase c

def validId (source : TitleSource) (id : Text) : Bool :=
  id ≠ [] && match source with
    | .Tmdb | .Tvdb => id.all Char.isDigit && !(1 < id.length && id.head? == some '0')
    | .Mbid => isMbid id
    | .Key => isKeyId id

-- The constructors of the source all go through `from_parts`, so a title id
-- carries what that function checks.
structure TitleId where
  kind : TitleKind
  source : TitleSource
  id : Text
  pair : validPair kind source = true
  ident : validId source id = true
  lower : source = .Mbid → Text.toAsciiLowercase id = id
  deriving DecidableEq

end

theorem isHexDigit_toLower (c : Char) : isHexDigit c.toLower = isHexDigit c := by
  have hex : ∀ d : Char, isHexDigit d = true ↔ (48 ≤ d.toNat ∧ d.toNat ≤ 57) ∨
      (97 ≤ d.toNat ∧ d.toNat ≤ 102) ∨ (65 ≤ d.toNat ∧ d.toNat ≤ 70) := by
    intro d
    simp only [isHexDigit, Bool.or_eq_true, Bool.and_eq_true, decide_eq_true_eq,
      Text.isDigit_iff, Char.le_def, UInt32.le_iff_toNat_le, or_assoc]
    rfl
  apply Bool.eq_iff_iff.mpr
  rw [hex, hex, Text.toNat_toLower]
  split <;> omega

theorem isMbid_toAsciiLowercase (id : Text) : isMbid (Text.toAsciiLowercase id) = isMbid id := by
  have hsep : ∀ c : Char, (c.toLower == '-') = (c == '-') := by
    intro c
    apply Bool.eq_iff_iff.mpr
    simpa using Text.toLower_eq_iff c '-' (by decide)
  have hall : ∀ part : Text, (part.map Char.toLower).all isHexDigit = part.all isHexDigit := by
    intro part
    simp [List.all_map, Function.comp_def, isHexDigit_toLower]
  unfold isMbid Text.toAsciiLowercase
  rw [Text.split_map _ _ hsep]
  rcases Text.split (fun c => c == '-') id with
    _ | ⟨a, _ | ⟨b, _ | ⟨c, _ | ⟨d, _ | ⟨e, _ | ⟨f, rest⟩⟩⟩⟩⟩⟩ <;> simp [hall]

theorem toAsciiLowercase_idem (text : Text) :
    Text.toAsciiLowercase (Text.toAsciiLowercase text) = Text.toAsciiLowercase text := by
  simp only [Text.toAsciiLowercase, List.map_map]
  apply List.map_congr_left
  intro c _
  apply Char.toNat_inj.mp
  simp only [Function.comp_apply, Text.toNat_toLower]
  split_ifs <;> omega

namespace TitleId

variable [UnicodeTables]

-- The one door to a title id: the pair and the id are checked, an mbid is
-- stored in lowercase.
def fromParts (kind : TitleKind) (source : TitleSource) (id : Text) :
    Except TitleIdError TitleId :=
  if pair : validPair kind source = true then
    if ident : validId source id = true then
      if hm : source = .Mbid then
        .ok {
          kind, source, pair
          id := Text.toAsciiLowercase id
          ident := by
            subst hm
            simp only [validId, isMbid_toAsciiLowercase] at ident ⊢
            simpa [Text.toAsciiLowercase] using ident
          lower := fun _ => toAsciiLowercase_idem id }
      else .ok { kind, source, id, pair, ident, lower := fun h => absurd h hm }
    else .error (.InvalidId id)
  else .error (.InvalidPairing kind.asStr source.asStr)

def movieKey (title : Text) (year : Nat) : Except TitleIdError TitleId :=
  fromParts .Movie .Key (titleKey title ++ ".".toList ++ Text.decimal year)

def seriesKey (title : Text) (year : Nat) : Except TitleIdError TitleId :=
  fromParts .Series .Key (titleKey title ++ ".".toList ++ Text.decimal year)

-- No year: a remaster is the same album.
def albumKey (artist album : Text) : Except TitleIdError TitleId :=
  fromParts .Album .Key (titleKey artist ++ ".".toList ++ titleKey (stripTrailingYear album))

def isKey (id : TitleId) : Bool := id.source = .Key

def render (id : TitleId) : Text :=
  id.kind.asStr ++ ":".toList ++ id.source.asStr ++ ":".toList ++ id.id

def stagingToken (id : TitleId) : Text :=
  id.kind.asStr ++ "-".toList ++ id.source.asStr ++ "-".toList ++ id.id

-- `splitn(3, ':')` leaves any further colon in the id.
def parse (raw : Text) : Except TitleIdError TitleId :=
  match Text.splitOnce ':' raw with
  | none => .error (.Invalid raw)
  | some (kind, rest) =>
      match Text.splitOnce ':' rest with
      | none => .error (.Invalid raw)
      | some (source, id) => do
          if kind = [] ∨ source = [] then throw (.Invalid raw)
          let kind ← TitleKind.parse kind
          let source ← TitleSource.parse source
          fromParts kind source id

end TitleId

namespace TitleId.Sample

theorem movie_pair : validPair .Movie .Tmdb = true := by decide

def matrix : @TitleId UnicodeTables.ascii :=
  @TitleId.mk UnicodeTables.ascii .Movie .Tmdb "603" movie_pair (by decide) (by decide)

end TitleId.Sample

end Mediaops
