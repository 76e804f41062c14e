import Mediaops.Library.Files
import Mediaops.Library.Text.Lemmas

namespace Mediaops.Text

-- A text as its UTF-8 bytes, and what an offset in the bytes is in the text.

def asBytes (text : Text) : Bytes := text.flatMap String.utf8EncodeChar

def byteLen (text : Text) : Nat := (asBytes text).length

-- `&text[start..]`: none where `start` is no boundary of a character, which is a
-- panic of the program.
def sliceFrom : Text → Nat → Option Text
  | text, 0 => some text
  | [], _ + 1 => none
  | c :: rest, start + 1 =>
      if c.utf8Size ≤ start + 1 then sliceFrom rest (start + 1 - c.utf8Size) else none

-- `&text[..stop]`
def sliceTo : Text → Nat → Option Text
  | _, 0 => some []
  | [], _ + 1 => none
  | c :: rest, stop + 1 =>
      if c.utf8Size ≤ stop + 1 then (sliceTo rest (stop + 1 - c.utf8Size)).map (c :: ·) else none

-- `&text[start..stop]`
def slice (text : Text) (start stop : Nat) : Option Text :=
  if start ≤ stop then (sliceFrom text start).bind (sliceTo · (stop - start)) else none

def continuation (low high : Nat) (b : UInt8) : Bool := decide (low ≤ b.toNat ∧ b.toNat ≤ high)

def replacement : Char := '\ufffd'

-- The bytes of a longer character behind its first, the first of them in the range
-- `low` to `high`: the value they add to `value` and how many there are, or how many
-- were right before one was not.
def tailBytes (value : Nat) : Nat → Nat → Nat → Bytes → Nat → Char × Nat
  | 0, _, _, _, read => (Char.ofNat value, read)
  | _ + 1, _, _, [], read => (replacement, read)
  | more + 1, low, high, b :: rest, read =>
      if continuation low high b then
        tailBytes (value * 64 + (b.toNat - 128)) more 128 191 rest (read + 1)
      else (replacement, read)

-- The first character of some bytes and its length; U+FFFD for the longest part that
-- starts a character and does not end it.
def headChar (b : UInt8) (rest : Bytes) : Char × Nat :=
  let n := b.toNat
  if n < 128 then (Char.ofNat n, 1)
  else if 194 ≤ n ∧ n ≤ 223 then tailBytes (n - 192) 1 128 191 rest 1
  else if n = 224 then tailBytes 0 2 160 191 rest 1
  else if n = 237 then tailBytes 13 2 128 159 rest 1
  else if 225 ≤ n ∧ n ≤ 239 then tailBytes (n - 224) 2 128 191 rest 1
  else if n = 240 then tailBytes 0 3 144 191 rest 1
  else if 241 ≤ n ∧ n ≤ 243 then tailBytes (n - 240) 3 128 191 rest 1
  else if n = 244 then tailBytes 4 3 128 143 rest 1
  else (replacement, 1)

-- `String::from_utf8_lossy`, `skip` bytes being part of the last character.
def lossyFrom : Nat → Bytes → Text
  | _, [] => []
  | skip + 1, _ :: rest => lossyFrom skip rest
  | 0, b :: rest =>
      let (c, read) := headChar b rest
      c :: lossyFrom (read - 1) rest

def fromUtf8Lossy (bytes : Bytes) : Text := lossyFrom 0 bytes

section Length

@[simp] theorem asBytes_nil : asBytes [] = [] := rfl

@[simp] theorem asBytes_cons (c : Char) (rest : Text) :
    asBytes (c :: rest) = String.utf8EncodeChar c ++ asBytes rest := rfl

@[simp] theorem asBytes_append (left right : Text) :
    asBytes (left ++ right) = asBytes left ++ asBytes right := by simp [asBytes]

@[simp] theorem byteLen_nil : byteLen [] = 0 := rfl

@[simp] theorem byteLen_cons (c : Char) (rest : Text) :
    byteLen (c :: rest) = c.utf8Size + byteLen rest := by simp [byteLen]

@[simp] theorem byteLen_append (left right : Text) :
    byteLen (left ++ right) = byteLen left + byteLen right := by simp [byteLen]

theorem length_le_byteLen (text : Text) : text.length ≤ byteLen text := by
  induction text with
  | nil => simp
  | cons c rest ih =>
      have hpos := c.utf8Size_pos
      simp only [List.length_cons, byteLen_cons]
      omega

@[simp] theorem byteLen_eq_zero {text : Text} : byteLen text = 0 ↔ text = [] := by
  cases text with
  | nil => simp
  | cons c rest =>
      have hpos := c.utf8Size_pos
      simp only [byteLen_cons, reduceCtorEq, iff_false]
      omega

end Length

section Encoding

theorem utf8Size_eq_one_iff (c : Char) : c.utf8Size = 1 ↔ c.toNat < 128 := by
  rw [Char.utf8Size_eq_one_iff, UInt32.le_iff_toNat_le, Char.toNat_val]
  change _ ≤ 127 ↔ _
  omega

theorem encode_ascii {c : Char} (h : c.toNat < 128) :
    String.utf8EncodeChar c = [UInt8.ofNat c.toNat] := by
  rw [String.utf8EncodeChar_eq_singleton ((utf8Size_eq_one_iff c).mpr h)]
  simp [← Char.toNat_val]

theorem utf8Size_toLower (c : Char) : c.toLower.utf8Size = c.utf8Size := by
  have hlower := toNat_toLower c
  by_cases hc : 65 ≤ c.toNat ∧ c.toNat ≤ 90
  · rw [if_pos hc] at hlower
    rw [(utf8Size_eq_one_iff c).mpr (by omega), utf8Size_eq_one_iff]
    omega
  · rw [if_neg hc, Char.toNat_inj] at hlower
    rw [hlower]

theorem byteLen_toAsciiLowercase (text : Text) : byteLen (toAsciiLowercase text) = byteLen text := by
  induction text with
  | nil => rfl
  | cons c rest ih =>
      rw [toAsciiLowercase] at ih ⊢
      rw [List.map_cons, byteLen_cons, byteLen_cons, utf8Size_toLower, ih]

theorem high_or (b mask : UInt8) (h : 128 ≤ mask.toNat) : 128 ≤ (b ||| mask).toNat := by
  rw [UInt8.toNat_or]
  exact h.trans Nat.right_le_or

-- A longer character has no byte below 128.
theorem encode_high {c : Char} (h : 128 ≤ c.toNat) {b : UInt8}
    (hb : b ∈ String.utf8EncodeChar c) : 128 ≤ b.toNat := by
  have hsize : c.utf8Size ≠ 1 := by
    rw [ne_eq, utf8Size_eq_one_iff]
    omega
  rcases Char.utf8Size_eq c with h1 | h2 | h3 | h4
  · exact absurd h1 hsize
  · rw [String.utf8EncodeChar_eq_cons_cons h2] at hb
    simp only [List.mem_cons, List.not_mem_nil, or_false] at hb
    rcases hb with rfl | rfl <;> exact high_or _ _ (by decide)
  · rw [String.utf8EncodeChar_eq_cons_cons_cons h3] at hb
    simp only [List.mem_cons, List.not_mem_nil, or_false] at hb
    rcases hb with rfl | rfl | rfl <;> exact high_or _ _ (by decide)
  · rw [String.utf8EncodeChar_eq_cons_cons_cons_cons h4] at hb
    simp only [List.mem_cons, List.not_mem_nil, or_false] at hb
    rcases hb with rfl | rfl | rfl | rfl <;> exact high_or _ _ (by decide)

-- Two characters at the head of one text of bytes are one character.
theorem encode_front {c d : Char} {left right : Bytes}
    (h : String.utf8EncodeChar c ++ left = String.utf8EncodeChar d ++ right) : c = d := by
  have hc := ByteArray.utf8DecodeChar?_utf8EncodeChar_append (b := ⟨left.toArray⟩) (c := c)
  have hd := ByteArray.utf8DecodeChar?_utf8EncodeChar_append (b := ⟨right.toArray⟩) (c := d)
  have hsame : (String.utf8EncodeChar c).toByteArray ++ ⟨left.toArray⟩ =
      (String.utf8EncodeChar d).toByteArray ++ ⟨right.toArray⟩ := by
    apply ByteArray.ext
    simpa using congrArg List.toArray h
  rw [hsame, hd] at hc
  exact (Option.some.inj hc).symm

-- Bytes of a text at the head of the bytes of another.
theorem asBytes_front {left text : Text} {tail : Bytes}
    (h : asBytes left ++ tail = asBytes text) : ∃ right, text = left ++ right ∧ tail = asBytes right := by
  induction left generalizing text with
  | nil => exact ⟨text, rfl, by simpa using h⟩
  | cons c left ih =>
      cases text with
      | nil =>
          have hpos := c.utf8Size_pos
          have hlen := congrArg List.length h
          simp at hlen
          omega
      | cons d text =>
          simp only [asBytes_cons, List.append_assoc] at h
          obtain rfl := encode_front h
          obtain ⟨right, rfl, rfl⟩ := ih (List.append_cancel_left h)
          exact ⟨right, rfl, rfl⟩

theorem asBytes_injective {left right : Text} (h : asBytes left = asBytes right) : left = right := by
  have hfront : asBytes left ++ [] = asBytes right := by simpa using h
  obtain ⟨rest, rfl, hrest⟩ := asBytes_front hfront
  have hlen := congrArg List.length hrest
  have hrest : rest = [] := byteLen_eq_zero.mp hlen.symm
  simp [hrest]

theorem encode_ne_nil (c : Char) : String.utf8EncodeChar c ≠ [] := by
  intro hnil
  have hlen := congrArg List.length hnil
  have hpos := c.utf8Size_pos
  simp only [String.length_utf8EncodeChar, List.length_nil] at hlen
  omega

-- An ASCII byte begins a character, so the text can be cut there.
theorem asBytes_cut {text : Text} {front tail : Bytes} {b : UInt8} (hb : b.toNat < 128)
    (h : asBytes text = front ++ b :: tail) :
    ∃ left c right, text = left ++ c :: right ∧ asBytes left = front ∧ UInt8.ofNat c.toNat = b ∧
      c.toNat < 128 ∧ asBytes right = tail := by
  induction text generalizing front with
  | nil => simp at h
  | cons c rest ih =>
      rw [asBytes_cons] at h
      rcases List.append_eq_append_iff.mp h with ⟨more, rfl, hmore⟩ | ⟨more, hfront, hmore⟩
      · obtain ⟨left, d, right, rfl, hleft, hd⟩ := ih hmore
        exact ⟨c :: left, d, right, rfl, by rw [asBytes_cons, hleft], hd⟩
      cases more with
      | nil =>
          rw [List.append_nil] at hfront
          have hrest : asBytes rest = [] ++ b :: tail := hmore.symm
          obtain ⟨left, d, right, hrest, hleft, hd⟩ := ih hrest
          refine ⟨c :: left, d, right, by rw [hrest]; rfl, ?_, hd⟩
          rw [asBytes_cons, hleft, List.append_nil, hfront]
      | cons e more =>
          simp only [List.cons_append, List.cons.injEq] at hmore
          obtain ⟨rfl, htail⟩ := hmore
          have hc : c.toNat < 128 := by
            by_contra hhigh
            have := encode_high (c := c) (by omega) (b := b) (by simp [hfront])
            omega
          rw [encode_ascii hc] at hfront
          cases front with
          | nil =>
              simp only [List.nil_append, List.cons.injEq] at hfront
              obtain ⟨hbyte, rfl⟩ := hfront
              exact ⟨[], c, rest, rfl, rfl, hbyte, hc, htail.symm⟩
          | cons x front => simp at hfront

-- An ASCII byte stands in the bytes only for its own character.
theorem mem_asBytes_ascii {c : Char} (h : c.toNat < 128) (text : Text) :
    UInt8.ofNat c.toNat ∈ asBytes text ↔ c ∈ text := by
  induction text with
  | nil => simp
  | cons d rest ih =>
      rw [asBytes_cons, List.mem_append, List.mem_cons, ih]
      refine or_congr_left ?_
      have hc : (UInt8.ofNat c.toNat).toNat = c.toNat := by
        rw [UInt8.toNat_ofNat']
        omega
      by_cases hd : d.toNat < 128
      · rw [encode_ascii hd, List.mem_singleton, ← UInt8.toNat_inj, hc, UInt8.toNat_ofNat',
          ← Char.toNat_inj]
        omega
      · constructor
        · intro hmem
          have hhigh := encode_high (by omega) hmem
          omega
        · rintro rfl
          omega

end Encoding

section Slices

@[simp] theorem sliceFrom_zero (text : Text) : sliceFrom text 0 = some text := by
  cases text <;> rfl

theorem sliceFrom_cons {c : Char} {n : Nat} (h : c.utf8Size ≤ n) (rest : Text) :
    sliceFrom (c :: rest) n = sliceFrom rest (n - c.utf8Size) := by
  have hpos := c.utf8Size_pos
  cases n with
  | zero => omega
  | succ n => rw [sliceFrom, if_pos h]

theorem sliceFrom_append (left right : Text) :
    sliceFrom (left ++ right) (byteLen left) = some right := by
  induction left with
  | nil => simp
  | cons c left ih =>
      rw [List.cons_append, byteLen_cons, sliceFrom_cons (by omega), Nat.add_sub_cancel_left, ih]

-- An offset inside a longer character is no boundary.
theorem sliceFrom_inside (front : Text) {c : Char} (rest : Text) {inner : Nat} (hpos : 0 < inner)
    (h : inner < c.utf8Size) : sliceFrom (front ++ c :: rest) (byteLen front + inner) = none := by
  induction front with
  | nil =>
      obtain ⟨n, rfl⟩ : ∃ n, inner = n + 1 := ⟨inner - 1, by omega⟩
      simp only [List.nil_append, byteLen_nil, Nat.zero_add, sliceFrom]
      rw [if_neg (by omega)]
  | cons d front ih =>
      rw [List.cons_append, byteLen_cons, sliceFrom_cons (by omega), Nat.add_assoc,
        Nat.add_sub_cancel_left, ih]

@[simp] theorem sliceTo_zero (text : Text) : sliceTo text 0 = some [] := by
  cases text <;> rfl

theorem sliceTo_cons {c : Char} {n : Nat} (h : c.utf8Size ≤ n) (rest : Text) :
    sliceTo (c :: rest) n = (sliceTo rest (n - c.utf8Size)).map (c :: ·) := by
  have hpos := c.utf8Size_pos
  cases n with
  | zero => omega
  | succ n => rw [sliceTo, if_pos h]

theorem sliceTo_append (left right : Text) :
    sliceTo (left ++ right) (byteLen left) = some left := by
  induction left with
  | nil => simp
  | cons c left ih =>
      rw [List.cons_append, byteLen_cons, sliceTo_cons (by omega), Nat.add_sub_cancel_left, ih]
      rfl

theorem slice_append (front middle rest : Text) :
    slice (front ++ (middle ++ rest)) (byteLen front) (byteLen front + byteLen middle) =
      some middle := by
  rw [slice, if_pos (by omega), sliceFrom_append, Option.bind_some, Nat.add_sub_cancel_left,
    sliceTo_append]

end Slices

section Bytes

-- A class of ASCII bytes, and the characters whose byte is in it.
def within (p : UInt8 → Bool) (c : Char) : Bool := c.toNat < 128 && p (UInt8.ofNat c.toNat)

-- A byte of a character is in the class exactly when the character is.
theorem within_byte {p : UInt8 → Bool} (hp : ∀ b, p b = true → b.toNat < 128) (front : Text)
    {c : Char} (rest : Text) {j : Nat} (hj : j < c.utf8Size) (default : UInt8) :
    p ((asBytes (front ++ c :: rest)).getD (byteLen front + j) default) = within p c := by
  have hlength : j < (String.utf8EncodeChar c).length := by simpa using hj
  have hget : (asBytes (front ++ c :: rest)).getD (byteLen front + j) default =
      (String.utf8EncodeChar c)[j] := by
    rw [asBytes_append, asBytes_cons, List.getD_eq_getElem?_getD, byteLen,
      List.getElem?_append_right (Nat.le_add_right _ _), Nat.add_sub_cancel_left,
      List.getElem?_append_left (by simpa using hj), List.getElem?_eq_getElem (by simpa using hj),
      Option.getD_some]
  have hmem := List.getElem_mem (l := String.utf8EncodeChar c) (by simpa using hj : j < _)
  rw [hget]
  by_cases h : c.toNat < 128
  · simp only [encode_ascii h, List.mem_singleton] at hmem ⊢
    simp [within, h, hmem]
  · have hhigh := encode_high (by omega) hmem
    have hout : p (String.utf8EncodeChar c)[j] = false := by
      rw [Bool.eq_false_iff]
      intro hin
      have := hp _ hin
      omega
    simp [within, h, hout]

end Bytes

end Mediaops.Text
