import Mediaops.Core.TitleId.Theorems

namespace Mediaops

-- Which titles get a key identity, and which spellings share one.

-- What is documented of the lowercase mapping: it is made of lowercase forms, of
-- characters outside ASCII only letters lower into ASCII, what is not alphanumeric
-- has no case, and the letters of the fold table have their small form in it too.
structure UnicodeTables.Documented [UnicodeTables] : Prop where
  lowered : ∀ c, ∀ d ∈ UnicodeTables.toLowercase c, UnicodeTables.toLowercase d = [d]
  letters : ∀ c : Char, ¬c.val < 128 → ∀ d ∈ UnicodeTables.toLowercase c,
    d.val < 128 → d.isAlphanum = true
  caseless : ∀ c, UnicodeTables.isAlphanumeric c = false → UnicodeTables.toLowercase c = [c]
  folded : ∀ c text, foldLatin c = some text →
    ∃ d, UnicodeTables.toLowercase c = [d] ∧ foldLatin d = some text

-- ASCII and one letter whose small form takes two characters, an `i` and a combining
-- dot; the dot is neither a letter nor a number.
abbrev UnicodeTables.withDottedI : UnicodeTables where
  isAlphanumeric c := c.isAlphanum || c == 'İ'
  isUppercase c := c.isUpper || c == 'İ'
  toLowercase c := if c = 'İ' then ['i', '\u0307'] else [c.toLower]
  escapeDebug c := [c]
  isAlphanumeric_ascii c h := by
    have hne : c ≠ 'İ' := fun e => absurd (e ▸ h) (by decide)
    simp [hne]
  isUppercase_ascii c h := by
    have hne : c ≠ 'İ' := fun e => absurd (e ▸ h) (by decide)
    simp [hne]
  toLowercase_ascii c h := by
    have hne : c ≠ 'İ' := fun e => absurd (e ▸ h) (by decide)
    simp [hne]

theorem foldLatin_some {c : Char} {text : Text} (h : foldLatin c = some text) :
    ¬c.val < 128 ∧ text ≠ [] ∧ ∀ d ∈ text, d.isLower = true := by
  have hfold : ∀ letters : Text, (∀ d ∈ letters, ¬d.val < 128) → c ∈ letters → ¬c.val < 128 :=
    fun letters hall hc => hall c hc
  unfold foldLatin at h
  split_ifs at h with ha he hi ho hu hn hç hß hæ hœ
  · cases h
    exact ⟨hfold _ (Text.every (by decide)) ha, by decide, Text.every (by decide)⟩
  · cases h
    exact ⟨hfold _ (Text.every (by decide)) he, by decide, Text.every (by decide)⟩
  · cases h
    exact ⟨hfold _ (Text.every (by decide)) hi, by decide, Text.every (by decide)⟩
  · cases h
    exact ⟨hfold _ (Text.every (by decide)) ho, by decide, Text.every (by decide)⟩
  · cases h
    exact ⟨hfold _ (Text.every (by decide)) hu, by decide, Text.every (by decide)⟩
  · cases h
    exact ⟨hfold _ (Text.every (by decide)) hn, by decide, Text.every (by decide)⟩
  · cases h
    exact ⟨hfold _ (Text.every (by decide)) hç, by decide, Text.every (by decide)⟩
  · cases h
    subst hß
    exact ⟨by decide, by decide, Text.every (by decide)⟩
  · cases h
    exact ⟨hfold _ (Text.every (by decide)) hæ, by decide, Text.every (by decide)⟩
  · cases h
    exact ⟨hfold _ (Text.every (by decide)) hœ, by decide, Text.every (by decide)⟩

theorem ascii_iff (c : Char) : c.val < 128 ↔ c.toNat < 128 := by
  rw [UInt32.lt_iff_toNat_lt]
  rfl

theorem ascii_toLower {c : Char} (h : c.val < 128) : c.toLower.val < 128 := by
  rw [ascii_iff] at h ⊢
  rw [Text.toNat_toLower]
  split <;> omega

theorem toLower_toLower (c : Char) : c.toLower.toLower = c.toLower := by
  apply Char.toNat_inj.mp
  rw [Text.toNat_toLower, Text.toNat_toLower]
  split_ifs <;> omega

theorem isAlphanum_toLower (c : Char) : c.toLower.isAlphanum = c.isAlphanum := by
  apply Bool.eq_iff_iff.mpr
  rw [Text.isAlphanum_iff, Text.isAlphanum_iff, Text.toNat_toLower]
  split <;> omega

theorem ascii_of_isLower {c : Char} (h : c.isLower = true) :
    c.val < 128 ∧ c.isAlphanum = true ∧ c.toLower = c := by
  rw [Text.isLower_iff] at h
  refine ⟨(ascii_iff c).mpr (by omega), (Text.isAlphanum_iff c).mpr (by omega), ?_⟩
  apply Char.toNat_inj.mp
  rw [Text.toNat_toLower]
  split <;> omega

section

variable [UnicodeTables]

def lowercase (text : Text) : Text := text.flatMap UnicodeTables.toLowercase

-- A character that a key may hold between its dots.
def keyChar (c : Char) : Bool := UnicodeTables.isAlphanumeric c && !UnicodeTables.isUppercase c

-- A letter that is neither ASCII nor in the fold table stands for its lowercase
-- mapping, all of which a key must be able to hold.
def KeyableChar (c : Char) : Prop :=
  ¬c.val < 128 → foldLatin c = none → UnicodeTables.isAlphanumeric c = true →
    ∀ d ∈ UnicodeTables.toLowercase c, keyChar d = true

def Keyable (text : Text) : Prop := ∀ c ∈ text, KeyableChar c

-- Lowering leaves the letter as its own key.
def KeyStableChar (c : Char) : Prop :=
  ¬c.val < 128 → foldLatin c = none → UnicodeTables.isAlphanumeric c = true →
    ∀ d ∈ UnicodeTables.toLowercase c, UnicodeTables.isAlphanumeric d = true ∧ foldLatin d = none

def KeyStable (text : Text) : Prop := ∀ c ∈ text, KeyStableChar c

-- The four ways a character counts towards the key.
theorem titleKeyChar_cases (c : Char) :
    (c.val < 128 ∧ c.isAlphanum = true ∧ titleKeyChar c = [c.toLower]) ∨
    (c.val < 128 ∧ c.isAlphanum = false ∧ titleKeyChar c = []) ∨
    (¬c.val < 128 ∧ ∃ text, foldLatin c = some text ∧ titleKeyChar c = text) ∨
    (¬c.val < 128 ∧ foldLatin c = none ∧ UnicodeTables.isAlphanumeric c = true ∧
      titleKeyChar c = UnicodeTables.toLowercase c) ∨
    (¬c.val < 128 ∧ foldLatin c = none ∧ UnicodeTables.isAlphanumeric c = false ∧
      titleKeyChar c = []) := by
  unfold titleKeyChar
  by_cases hascii : c.val < 128
  · by_cases halnum : c.isAlphanum = true
    · exact .inl ⟨hascii, halnum, by rw [if_pos hascii, if_pos halnum]⟩
    · exact .inr (.inl ⟨hascii, by simpa using halnum, by rw [if_pos hascii, if_neg halnum]⟩)
  · rw [if_neg hascii]
    cases hfold : foldLatin c with
    | some text => exact .inr (.inr (.inl ⟨hascii, text, rfl, rfl⟩))
    | none =>
        cases halnum : UnicodeTables.isAlphanumeric c with
        | true => exact .inr (.inr (.inr (.inl ⟨hascii, rfl, rfl, by simp⟩)))
        | false => exact .inr (.inr (.inr (.inr ⟨hascii, rfl, rfl, by simp⟩)))

theorem titleKeyChar_toLower {c : Char} (h : c.val < 128) :
    titleKeyChar c.toLower = titleKeyChar c := by
  unfold titleKeyChar
  rw [if_pos h, if_pos (ascii_toLower h), isAlphanum_toLower, toLower_toLower]

theorem titleKeyChar_isLower {c : Char} (h : c.isLower = true) : titleKeyChar c = [c] := by
  obtain ⟨hascii, halnum, hlower⟩ := ascii_of_isLower h
  rw [titleKeyChar, if_pos hascii, if_pos halnum, hlower]

theorem keyChar_ascii {c : Char} (h : c.val < 128) :
    keyChar c = (c.isAlphanum && !c.isUpper) := by
  rw [keyChar, UnicodeTables.isAlphanumeric_ascii c h, UnicodeTables.isUppercase_ascii c h]

theorem keyChar_isLower {c : Char} (h : c.isLower = true) : keyChar c = true := by
  obtain ⟨hascii, halnum, -⟩ := ascii_of_isLower h
  have hupper : c.isUpper = false := by
    apply Bool.eq_false_iff.mpr
    rw [Ne, Text.isUpper_iff]
    rw [Text.isLower_iff] at h
    omega
  rw [keyChar_ascii hascii, halnum, hupper]
  rfl

theorem keyChar_toLower {c : Char} (h : c.val < 128) (halnum : c.isAlphanum = true) :
    keyChar c.toLower = true := by
  have hupper : c.toLower.isUpper = false := by
    apply Bool.eq_false_iff.mpr
    rw [Ne, Text.isUpper_iff, Text.toNat_toLower]
    split <;> omega
  rw [keyChar_ascii (ascii_toLower h), isAlphanum_toLower, halnum, hupper]
  rfl

theorem keyChar_digit {c : Char} (h : c.isDigit = true) : keyChar c = true := by
  have hdigit := (Text.isDigit_iff c).mp h
  have hascii : c.val < 128 := (ascii_iff c).mpr (by omega)
  have halnum : c.isAlphanum = true := (Text.isAlphanum_iff c).mpr (by omega)
  have hupper : c.isUpper = false := by
    apply Bool.eq_false_iff.mpr
    rw [Ne, Text.isUpper_iff]
    omega
  rw [keyChar_ascii hascii, halnum, hupper]
  rfl

theorem keyable_iff (c : Char) : KeyableChar c ↔ ∀ d ∈ titleKeyChar c, keyChar d = true := by
  rcases titleKeyChar_cases c with ⟨hascii, halnum, hkey⟩ | ⟨hascii, -, hkey⟩ |
    ⟨-, text, hfold, hkey⟩ | ⟨hascii, hfold, halnum, hkey⟩ | ⟨-, -, halnum, hkey⟩
  · rw [hkey]
    refine ⟨fun _ d hd => ?_, fun _ h => absurd hascii h⟩
    rw [List.mem_singleton.mp hd]
    exact keyChar_toLower hascii halnum
  · rw [hkey]
    exact ⟨fun _ d hd => (by cases hd), fun _ h => absurd hascii h⟩
  · rw [hkey]
    exact ⟨fun _ d hd => keyChar_isLower ((foldLatin_some hfold).2.2 d hd),
      fun _ _ h => absurd (hfold.symm.trans h) (by simp)⟩
  · rw [hkey]
    exact ⟨fun h => h hascii hfold halnum, fun h _ _ _ => h⟩
  · rw [hkey]
    exact ⟨fun _ d hd => (by cases hd), fun _ _ _ h => absurd (halnum.symm.trans h) (by simp)⟩

theorem keyable_titleKey (text : Text) : Keyable text ↔ ∀ d ∈ titleKey text, keyChar d = true := by
  simp only [Keyable, keyable_iff, titleKey, List.mem_flatMap, forall_exists_index, and_imp]
  exact ⟨fun h d c hc hd => h c hc d hd, fun h c hc d hd => h d c hc hd⟩

-- No full stop comes out of a title.
theorem dot_free (tables : UnicodeTables.Documented) (text : Text) : '.' ∉ titleKey text := by
  intro hdot
  obtain ⟨c, -, hdot⟩ := List.mem_flatMap.mp hdot
  rcases titleKeyChar_cases c with ⟨-, halnum, hkey⟩ | ⟨-, -, hkey⟩ |
    ⟨-, text, hfold, hkey⟩ | ⟨hascii, -, -, hkey⟩ | ⟨-, -, -, hkey⟩
  · rw [hkey, List.mem_singleton] at hdot
    have hlower := isAlphanum_toLower c
    rw [← hdot, halnum] at hlower
    exact absurd hlower (by decide)
  · rw [hkey] at hdot
    cases hdot
  · rw [hkey] at hdot
    exact absurd ((foldLatin_some hfold).2.2 _ hdot) (by decide)
  · rw [hkey] at hdot
    exact absurd (tables.letters c hascii '.' hdot (by decide)) (by decide)
  · rw [hkey] at hdot
    cases hdot

namespace TitleId

theorem fromParts_key (kind : TitleKind) (raw : Text) :
    (fromParts kind .Key raw).isOk ↔ raw ≠ [] ∧ isKeyId raw = true := by
  have hpair : validPair kind .Key = true := by cases kind <;> rfl
  have hident : validId .Key raw = true ↔ raw ≠ [] ∧ isKeyId raw = true := by
    simp [validId]
  rw [← hident]
  unfold fromParts
  rw [dif_pos hpair]
  by_cases h : validId .Key raw = true
  · rw [dif_pos h, dif_neg (by decide)]
    exact ⟨fun _ => h, fun _ => rfl⟩
  · rw [dif_neg h]
    exact ⟨fun hok => (by cases hok), fun hok => absurd hok h⟩

theorem isKeyId_pair {left right : Text} (hleft : '.' ∉ left) (hright : '.' ∉ right)
    (hne : left ≠ []) (hne' : right ≠ []) :
    isKeyId (left ++ ".".toList ++ right) = true ↔
      (∀ c ∈ left, keyChar c = true) ∧ ∀ c ∈ right, keyChar c = true := by
  have hcut : Text.split (· == '.') (left ++ '.' :: right) = [left, right] := by
    have hfree : ∀ text : Text, '.' ∉ text → ∀ c ∈ text, (c == '.') = false := by
      intro text htext c hc
      simpa using fun e : c = '.' => htext (e ▸ hc)
    rw [Text.split_append (by simp), Text.split_of_free (hfree left hleft),
      Text.split_of_free (hfree right hright)]
    rfl
  have hraw : left ++ ".".toList ++ right = left ++ '.' :: right := by simp
  rw [hraw, isKeyId, hcut]
  simp [keyChar, hne, hne']

theorem key_ok {kind : TitleKind} {left right : Text} (hleft : '.' ∉ left) (hright : '.' ∉ right)
    (hne : left ≠ []) (hne' : right ≠ []) :
    (fromParts kind .Key (left ++ ".".toList ++ right)).isOk ↔
      (∀ c ∈ left, keyChar c = true) ∧ ∀ c ∈ right, keyChar c = true := by
  rw [fromParts_key, isKeyId_pair hleft hright hne hne']
  simp [hne]

theorem year_key (year : Nat) : Text.decimal year ≠ [] ∧ '.' ∉ Text.decimal year ∧
    ∀ c ∈ Text.decimal year, keyChar c = true := by
  refine ⟨?_, ?_, fun c hc => keyChar_digit (Text.isDigit_decimal hc)⟩
  · exact List.ne_nil_of_length_pos (Text.decimal_length_pos year)
  · intro h
    exact absurd (Text.isDigit_decimal h) (by decide)

theorem key_identity_iff (tables : UnicodeTables.Documented) :
    (∀ (title : Text) (year : Nat), titleKey title ≠ [] →
      ((movieKey title year).isOk ↔ Keyable title) ∧
        ((seriesKey title year).isOk ↔ Keyable title)) ∧
    ∀ artist album : Text, titleKey artist ≠ [] → titleKey (stripTrailingYear album) ≠ [] →
      ((albumKey artist album).isOk ↔ Keyable artist ∧ Keyable (stripTrailingYear album)) := by
  constructor
  · intro title year hne
    obtain ⟨hyear, hfree, hdigits⟩ := year_key year
    have hkey : ∀ kind, (fromParts kind .Key (titleKey title ++ ".".toList ++
        Text.decimal year)).isOk ↔ Keyable title := by
      intro kind
      rw [key_ok (dot_free tables title) hfree hne hyear, keyable_titleKey]
      exact ⟨fun h => h.1, fun h => ⟨h, hdigits⟩⟩
    exact ⟨hkey .Movie, hkey .Series⟩
  · intro artist album hartist halbum
    rw [albumKey, key_ok (dot_free tables artist) (dot_free tables _) hartist halbum,
      keyable_titleKey, keyable_titleKey]

end TitleId

-- What lowering again leaves as it is.
def Lowered (text : Text) : Prop := ∀ d ∈ text, UnicodeTables.toLowercase d = [d]

-- What keying again leaves as it is.
def Steady (text : Text) : Prop := ∀ d ∈ text, titleKeyChar d = [d]

theorem titleKey_of_steady {text : Text} (h : Steady text) : titleKey text = text := by
  induction text with
  | nil => rfl
  | cons c rest ih =>
      have hrest : titleKey rest = rest := ih fun d hd => h d (List.mem_cons_of_mem c hd)
      show titleKeyChar c ++ titleKey rest = c :: rest
      rw [h c List.mem_cons_self, hrest]
      rfl

theorem lowered_ascii {c : Char} (h : c.val < 128) :
    UnicodeTables.toLowercase c.toLower = [c.toLower] := by
  rw [UnicodeTables.toLowercase_ascii _ (ascii_toLower h), toLower_toLower]

theorem lowered_letter {c : Char} (h : c.isLower = true) : UnicodeTables.toLowercase c = [c] := by
  obtain ⟨hascii, -, hlower⟩ := ascii_of_isLower h
  rw [UnicodeTables.toLowercase_ascii c hascii, hlower]

theorem lowered_titleKey (tables : UnicodeTables.Documented) (text : Text) :
    Lowered (titleKey text) := by
  intro d hd
  obtain ⟨c, -, hd⟩ := List.mem_flatMap.mp hd
  rcases titleKeyChar_cases c with ⟨hascii, -, hkey⟩ | ⟨-, -, hkey⟩ |
    ⟨-, text, hfold, hkey⟩ | ⟨-, -, -, hkey⟩ | ⟨-, -, -, hkey⟩
  · rw [hkey, List.mem_singleton] at hd
    rw [hd]
    exact lowered_ascii hascii
  · rw [hkey] at hd
    cases hd
  · rw [hkey] at hd
    exact lowered_letter ((foldLatin_some hfold).2.2 d hd)
  · rw [hkey] at hd
    exact tables.lowered c d hd
  · rw [hkey] at hd
    cases hd

theorem lowered_lowercase (tables : UnicodeTables.Documented) (text : Text) :
    Lowered (lowercase text) := by
  intro d hd
  obtain ⟨c, -, hd⟩ := List.mem_flatMap.mp hd
  exact tables.lowered c d hd

-- The key of a lowered text is made of ASCII letters and digits and of letters that
-- the key keeps.
theorem steady_titleKey {text : Text} (h : Lowered text) : Steady (titleKey text) := by
  intro d hd
  obtain ⟨c, hc, hd⟩ := List.mem_flatMap.mp hd
  have hlower := h c hc
  rcases titleKeyChar_cases c with ⟨hascii, halnum, hkey⟩ | ⟨-, -, hkey⟩ |
    ⟨-, text, hfold, hkey⟩ | ⟨-, -, -, hkey⟩ | ⟨-, -, -, hkey⟩
  · have hsame : c.toLower = c := by
      rw [UnicodeTables.toLowercase_ascii c hascii] at hlower
      exact (List.cons.inj hlower).1
    rw [hkey, List.mem_singleton] at hd
    rw [hd, hsame, hkey, hsame]
  · rw [hkey] at hd
    cases hd
  · rw [hkey] at hd
    exact titleKeyChar_isLower ((foldLatin_some hfold).2.2 d hd)
  · rw [hkey, hlower, List.mem_singleton] at hd
    rw [hd, hkey, hlower]
  · rw [hkey] at hd
    cases hd

theorem steady_iff {d : Char} (h : UnicodeTables.toLowercase d = [d]) (hascii : ¬d.val < 128) :
    titleKeyChar d = [d] ↔ UnicodeTables.isAlphanumeric d = true ∧ foldLatin d = none := by
  rcases titleKeyChar_cases d with ⟨h', -⟩ | ⟨h', -⟩ | ⟨-, text, hfold, hkey⟩ |
    ⟨-, hfold, halnum, hkey⟩ | ⟨-, hfold, halnum, hkey⟩
  · exact absurd h' hascii
  · exact absurd h' hascii
  · rw [hkey, hfold]
    constructor
    · intro htext
      have hletter := (foldLatin_some hfold).2.2 d (by rw [htext]; exact List.mem_singleton.mpr rfl)
      exact absurd (ascii_of_isLower hletter).1 hascii
    · intro hnone
      cases hnone.2
  · rw [hkey, h]
    simp [hfold, halnum]
  · rw [hkey]
    simp [halnum]

theorem keyStableChar_iff (tables : UnicodeTables.Documented) (c : Char) :
    KeyStableChar c ↔ Steady (titleKeyChar c) := by
  rcases titleKeyChar_cases c with ⟨hascii, halnum, hkey⟩ | ⟨hascii, -, hkey⟩ |
    ⟨-, text, hfold, hkey⟩ | ⟨hascii, hfold, halnum, hkey⟩ | ⟨-, -, halnum, hkey⟩
  · rw [hkey]
    refine ⟨fun _ d hd => ?_, fun _ h => absurd hascii h⟩
    rw [List.mem_singleton.mp hd, titleKeyChar_toLower hascii, hkey]
  · rw [hkey]
    exact ⟨fun _ d hd => (by cases hd), fun _ h => absurd hascii h⟩
  · rw [hkey]
    exact ⟨fun _ d hd => titleKeyChar_isLower ((foldLatin_some hfold).2.2 d hd),
      fun _ _ h => absurd (hfold.symm.trans h) (by simp)⟩
  · rw [hkey]
    have hchar : ∀ d ∈ UnicodeTables.toLowercase c, titleKeyChar d = [d] ↔
        UnicodeTables.isAlphanumeric d = true ∧ foldLatin d = none := by
      intro d hd
      have hlower := tables.lowered c d hd
      by_cases hd' : d.val < 128
      · have hletter := tables.letters c hascii d hd hd'
        have hfree : foldLatin d = none := by
          cases hfree : foldLatin d with
          | none => rfl
          | some text => exact absurd hd' (foldLatin_some hfree).1
        have hsame : d.toLower = d := by
          rw [UnicodeTables.toLowercase_ascii d hd'] at hlower
          exact (List.cons.inj hlower).1
        rw [titleKeyChar, if_pos hd', if_pos hletter, hsame, hfree,
          UnicodeTables.isAlphanumeric_ascii d hd', hletter]
        simp
      · exact steady_iff hlower hd'
    exact ⟨fun h d hd => (hchar d hd).mpr (h hascii hfold halnum d hd),
      fun h _ _ _ d hd => (hchar d hd).mp (h d hd)⟩
  · rw [hkey]
    exact ⟨fun _ d hd => (by cases hd), fun _ _ _ h => absurd (halnum.symm.trans h) (by simp)⟩

theorem keyStable_iff (tables : UnicodeTables.Documented) (text : Text) :
    KeyStable text ↔ Steady (titleKey text) := by
  simp only [KeyStable, keyStableChar_iff tables, Steady, titleKey, List.mem_flatMap,
    forall_exists_index, and_imp]
  exact ⟨fun h d c hc hd => h c hc d hd, fun h c hc d hd => h d c hc hd⟩

theorem titleKey_lowercaseChar (tables : UnicodeTables.Documented) {c : Char}
    (h : Steady (titleKeyChar c)) : titleKey (UnicodeTables.toLowercase c) = titleKeyChar c := by
  rcases titleKeyChar_cases c with ⟨hascii, -, -⟩ | ⟨hascii, -, -⟩ |
    ⟨-, text, hfold, hkey⟩ | ⟨-, -, -, hkey⟩ | ⟨-, -, halnum, -⟩
  · rw [UnicodeTables.toLowercase_ascii c hascii]
    simp [titleKey, titleKeyChar_toLower hascii]
  · rw [UnicodeTables.toLowercase_ascii c hascii]
    simp [titleKey, titleKeyChar_toLower hascii]
  · obtain ⟨d, hlower, hd⟩ := tables.folded c text hfold
    rw [hlower, hkey]
    show titleKeyChar d ++ [] = text
    rw [List.append_nil, titleKeyChar, if_neg (foldLatin_some hd).1, hd]
  · rw [hkey] at h ⊢
    exact titleKey_of_steady h
  · rw [tables.caseless c halnum]
    simp [titleKey]

theorem titleKey_lowercase (tables : UnicodeTables.Documented) {text : Text}
    (h : Steady (titleKey text)) : titleKey (lowercase text) = titleKey text := by
  have hchar : ∀ c ∈ text, titleKey (UnicodeTables.toLowercase c) = titleKeyChar c :=
    fun c hc => titleKey_lowercaseChar tables fun d hd => h d (List.mem_flatMap.mpr ⟨c, hc, hd⟩)
  rw [lowercase, titleKey, List.flatMap_assoc]
  exact List.flatMap_congr hchar

theorem title_key_projection (tables : UnicodeTables.Documented) (text : Text) :
    (titleKey (titleKey text) = titleKey text ↔ KeyStable text) ∧
      (titleKey (lowercase text) = titleKey text ↔ KeyStable text) := by
  rw [keyStable_iff tables]
  constructor
  · constructor
    · intro h
      rw [← h]
      exact steady_titleKey (lowered_titleKey tables text)
    · intro h
      exact titleKey_of_steady h
  · constructor
    · intro h
      rw [← h]
      exact steady_titleKey (lowered_lowercase tables text)
    · intro h
      exact titleKey_lowercase tables h

end

theorem withDottedI_documented : @UnicodeTables.Documented .withDottedI := by
  have hself : ∀ c : Char, c ≠ 'İ' →
      @UnicodeTables.toLowercase .withDottedI c = [c.toLower] := fun c hne => if_neg hne
  have hother : ∀ c : Char, ¬c.val < 128 → c.toLower = c := by
    intro c h
    rw [ascii_iff] at h
    apply Char.toNat_inj.mp
    rw [Text.toNat_toLower]
    split <;> omega
  have hlow : ∀ c : Char, c.toLower ≠ 'İ' ∨ c = 'İ' := by
    intro c
    by_cases h : c.val < 128
    · exact .inl fun e => absurd (e ▸ ascii_toLower h) (by decide)
    · rw [hother c h]
      exact (em (c = 'İ')).symm
  refine @UnicodeTables.Documented.mk .withDottedI ?_ ?_ ?_ ?_
  · intro c d hd
    by_cases hc : c = 'İ'
    · subst hc
      have hboth : ∀ d ∈ ['i', '\u0307'], @UnicodeTables.toLowercase .withDottedI d = [d] :=
        Text.every (by decide)
      exact hboth d hd
    · rw [hself c hc, List.mem_singleton] at hd
      rw [hd, hself _ ((hlow c).resolve_right hc), toLower_toLower]
  · intro c hascii d hd hd'
    by_cases hc : c = 'İ'
    · subst hc
      have hboth : ∀ d ∈ ['i', '\u0307'], d.val < 128 → d.isAlphanum = true :=
        Text.every (by decide)
      exact hboth d hd hd'
    · rw [hself c hc, List.mem_singleton, hother c hascii] at hd
      exact absurd (hd ▸ hd') hascii
  · intro c halnum
    have hsplit : (c.isAlphanum || c == 'İ') = false := halnum
    rw [Bool.or_eq_false_iff] at hsplit
    have hc : c ≠ 'İ' := by simpa using hsplit.2
    rw [hself c hc]
    have hletter := hsplit.1
    apply congrArg (fun d => [d])
    apply Char.toNat_inj.mp
    rw [Text.toNat_toLower]
    split
    · next h =>
        have halnum := (Text.isAlphanum_iff c).mpr (.inl h)
        exact absurd (hletter.symm.trans halnum) (by simp)
    · rfl
  · intro c text hfold
    have hascii := (foldLatin_some hfold).1
    have hc : c ≠ 'İ' := by
      intro e
      have hnone : foldLatin 'İ' = none := by decide
      rw [e, hnone] at hfold
      cases hfold
    refine ⟨c, ?_, hfold⟩
    rw [hself c hc, hother c hascii]

theorem key_identity_matrix :
    let := UnicodeTables.withDottedI
    (TitleId.movieKey "The.Matrix".toList 1999).isOk = true := by
  let := UnicodeTables.withDottedI
  have hkeyable : Keyable "The.Matrix".toList := by
    intro c hc hascii
    have hall : ∀ c ∈ "The.Matrix".toList, c.val < 128 := Text.every (by decide)
    exact absurd (hall c hc) hascii
  exact ((TitleId.key_identity_iff withDottedI_documented).1 _ 1999 (by decide)).1.mpr hkeyable

theorem key_identity_istanbul :
    let := UnicodeTables.withDottedI
    titleKey "İstanbul".toList ≠ [] ∧
      (TitleId.movieKey "İstanbul".toList 2010).isOk = false ∧
      (TitleId.seriesKey "İstanbul".toList 2010).isOk = false ∧
      (TitleId.albumKey "İstanbul".toList "Live".toList).isOk = false := by
  decide +kernel

theorem title_key_matrix :
    let := UnicodeTables.withDottedI
    titleKey (titleKey "The.Matrix".toList) = titleKey "The.Matrix".toList := by
  let := UnicodeTables.withDottedI
  have hsettled : KeyStable "The.Matrix".toList := by
    intro c hc hascii
    have hall : ∀ c ∈ "The.Matrix".toList, c.val < 128 := Text.every (by decide)
    exact absurd (hall c hc) hascii
  exact (title_key_projection withDottedI_documented _).1.mpr hsettled

theorem title_key_istanbul :
    let := UnicodeTables.withDottedI
    titleKey (titleKey "İstanbul".toList) ≠ titleKey "İstanbul".toList ∧
      titleKey (lowercase "İstanbul".toList) ≠ titleKey "İstanbul".toList := by
  decide +kernel

end Mediaops
