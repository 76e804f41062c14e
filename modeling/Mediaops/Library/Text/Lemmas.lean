import Mediaops.Library.Text

namespace Mediaops.Text

section Split

variable {separator other : Char → Bool}

theorem split_ne_nil (separator : Char → Bool) (text : Text) : split separator text ≠ [] := by
  cases text with
  | nil => simp [split]
  | cons c rest =>
      unfold split
      split
      · simp
      · split <;> simp

-- A text has a first piece.
theorem split_cons (separator : Char → Bool) (text : Text) :
    ∃ piece pieces, split separator text = piece :: pieces :=
  List.exists_cons_of_ne_nil (split_ne_nil separator text)

theorem split_append {c : Char} (hc : separator c = true) (left right : Text) :
    split separator (left ++ c :: right) = split separator left ++ split separator right := by
  induction left with
  | nil => simp [split, hc]
  | cons d rest ih =>
      by_cases hd : separator d = true
      · simp [split, hd, ih]
      · obtain ⟨piece, pieces, hrest⟩ := split_cons separator rest
        rw [hrest] at ih
        simp [split, hd, ih, hrest]

theorem split_of_free {text : Text} (h : ∀ c ∈ text, separator c = false) :
    split separator text = [text] := by
  induction text with
  | nil => rfl
  | cons c rest ih =>
      have hc := h c List.mem_cons_self
      have hrest := ih fun d hd => h d (List.mem_cons_of_mem _ hd)
      simp [split, hc, hrest]

theorem split_congr {text : Text} (h : ∀ c ∈ text, separator c = other c) :
    split separator text = split other text := by
  induction text with
  | nil => rfl
  | cons c rest ih =>
      have hc := h c List.mem_cons_self
      have hrest := ih fun d hd => h d (List.mem_cons_of_mem _ hd)
      simp [split, hc, hrest]

theorem mem_of_mem_split {text piece : Text} {c : Char} (hpiece : piece ∈ split separator text)
    (hc : c ∈ piece) : c ∈ text ∧ separator c = false := by
  induction text generalizing piece with
  | nil =>
      simp only [split, List.mem_singleton] at hpiece
      subst hpiece
      cases hc
  | cons d rest ih =>
      by_cases hd : separator d = true
      · simp only [split, hd, if_true, List.mem_cons] at hpiece
        rcases hpiece with rfl | hpiece
        · cases hc
        · exact ⟨List.mem_cons_of_mem _ (ih hpiece hc).1, (ih hpiece hc).2⟩
      · obtain ⟨first, pieces, hrest⟩ := split_cons separator rest
        simp only [split, hd, hrest, Bool.false_eq_true, if_false, List.mem_cons] at hpiece
        have hkept : ∀ p, p ∈ first :: pieces → c ∈ p → c ∈ d :: rest ∧ separator c = false := by
          intro p hp hcp
          rw [← hrest] at hp
          exact ⟨List.mem_cons_of_mem _ (ih hp hcp).1, (ih hp hcp).2⟩
        rcases hpiece with rfl | hpiece
        · rcases List.mem_cons.mp hc with rfl | hc
          · exact ⟨List.mem_cons_self, by simpa using hd⟩
          · exact hkept first List.mem_cons_self hc
        · exact hkept piece (List.mem_cons_of_mem _ hpiece) hc

theorem mem_split_of_mem {text : Text} {c : Char} (hc : c ∈ text) (h : separator c = false) :
    ∃ piece ∈ split separator text, c ∈ piece := by
  induction text with
  | nil => cases hc
  | cons d rest ih =>
      by_cases hd : separator d = true
      · have hrest : c ∈ rest := by
          rcases List.mem_cons.mp hc with rfl | hrest
          · rw [hd] at h
            cases h
          · exact hrest
        obtain ⟨piece, hpiece, hmem⟩ := ih hrest
        exact ⟨piece, by simp [split, hd, hpiece], hmem⟩
      · obtain ⟨first, pieces, hsplit⟩ := split_cons separator rest
        have hhead : split separator (d :: rest) = (d :: first) :: pieces := by
          simp [split, hd, hsplit]
        rw [hhead]
        rcases List.mem_cons.mp hc with rfl | hrest
        · exact ⟨_, List.mem_cons_self, List.mem_cons_self⟩
        · obtain ⟨piece, hpiece, hmem⟩ := ih hrest
          rw [hsplit] at hpiece
          rcases List.mem_cons.mp hpiece with rfl | hpiece
          · exact ⟨_, List.mem_cons_self, List.mem_cons_of_mem _ hmem⟩
          · exact ⟨piece, List.mem_cons_of_mem _ hpiece, hmem⟩

end Split

section Join

variable {separator : Char}

theorem joinWith_cons (separator : Char) (piece : Text) {pieces : List Text} (h : pieces ≠ []) :
    joinWith separator (piece :: pieces) = piece ++ separator :: joinWith separator pieces := by
  simp [joinWith, List.intercalate_cons_of_ne_nil h]

theorem joinWith_append (separator : Char) {left right : List Text} (hl : left ≠ [])
    (hr : right ≠ []) :
    joinWith separator (left ++ right) =
      joinWith separator left ++ separator :: joinWith separator right := by
  induction left with
  | nil => exact absurd rfl hl
  | cons piece pieces ih =>
      by_cases hp : pieces = []
      · subst hp
        simpa [joinWith] using joinWith_cons separator piece hr
      · rw [List.cons_append, joinWith_cons separator _ (by simp [hp]), ih hp,
          joinWith_cons separator _ hp]
        simp

theorem joinWith_eq_nil {pieces : List Text} (h : ∀ piece ∈ pieces, piece ≠ []) :
    joinWith separator pieces = [] ↔ pieces = [] := by
  constructor
  · intro hjoin
    cases pieces with
    | nil => rfl
    | cons piece rest =>
        have hpiece := h piece List.mem_cons_self
        by_cases hrest : rest = []
        · subst hrest
          simp [joinWith] at hjoin
          exact absurd hjoin hpiece
        · rw [joinWith_cons _ _ hrest] at hjoin
          simp at hjoin
  · rintro rfl
    rfl

theorem split_joinWith {pieces : List Text} (hne : pieces ≠ [])
    (h : ∀ piece ∈ pieces, separator ∉ piece) :
    split (· == separator) (joinWith separator pieces) = pieces := by
  have hfree : ∀ piece ∈ pieces, split (· == separator) piece = [piece] := by
    intro piece hp
    refine split_of_free fun c hc => ?_
    simp only [beq_eq_false_iff_ne]
    rintro rfl
    exact h piece hp hc
  induction pieces with
  | nil => exact absurd rfl hne
  | cons piece rest ih =>
      by_cases hrest : rest = []
      · subst hrest
        simpa [joinWith] using hfree piece List.mem_cons_self
      · rw [joinWith_cons _ _ hrest, split_append (by simp), hfree piece List.mem_cons_self,
          ih hrest (fun p hp => h p (List.mem_cons_of_mem _ hp))
            (fun p hp => hfree p (List.mem_cons_of_mem _ hp))]
        rfl

theorem joinWith_split (separator : Char) (text : Text) :
    joinWith separator (split (· == separator) text) = text := by
  induction text with
  | nil => rfl
  | cons c rest ih =>
      by_cases hc : c = separator
      · subst hc
        simp only [split, beq_self_eq_true, if_true]
        rw [joinWith_cons _ _ (split_ne_nil _ _), ih]
        rfl
      · obtain ⟨piece, pieces, hrest⟩ := split_cons (· == separator) rest
        rw [hrest] at ih
        simp only [split, beq_iff_eq, hc, if_false, hrest]
        rw [← ih]
        by_cases hp : pieces = []
        · subst hp
          rfl
        · rw [joinWith_cons _ _ hp, joinWith_cons _ _ hp]
          rfl

theorem mem_joinWith {pieces : List Text} {c : Char} (h : c ∈ joinWith separator pieces) :
    c = separator ∨ ∃ piece ∈ pieces, c ∈ piece := by
  induction pieces with
  | nil => cases h
  | cons piece rest ih =>
      by_cases hrest : rest = []
      · subst hrest
        exact .inr ⟨piece, List.mem_cons_self, by simpa [joinWith] using h⟩
      · rw [joinWith_cons _ _ hrest, List.mem_append, List.mem_cons] at h
        rcases h with h | rfl | h
        · exact .inr ⟨piece, List.mem_cons_self, h⟩
        · exact .inl rfl
        · rcases ih h with rfl | ⟨p, hp, hc⟩
          · exact .inl rfl
          · exact .inr ⟨p, List.mem_cons_of_mem _ hp, hc⟩

end Join

section Once

variable {separator : Char}

theorem splitOnce_append {left : Text} (h : separator ∉ left) (right : Text) :
    splitOnce separator (left ++ separator :: right) = some (left, right) := by
  induction left with
  | nil => simp [splitOnce]
  | cons c rest ih =>
      simp only [List.mem_cons, not_or] at h
      simp [splitOnce, Ne.symm h.1, ih h.2]

-- Two texts that are cut at the same first separator are the same piece by piece.
theorem cut_unique {left left' right right' : Text} (h : separator ∉ left) (h' : separator ∉ left')
    (heq : left ++ separator :: right = left' ++ separator :: right') :
    left = left' ∧ right = right' := by
  have hcut := splitOnce_append h right
  rw [heq, splitOnce_append h'] at hcut
  have hpair := Prod.mk.inj (Option.some.inj hcut)
  exact ⟨hpair.1.symm, hpair.2.symm⟩

theorem splitOnce_of_free {text : Text} (h : separator ∉ text) : splitOnce separator text = none := by
  induction text with
  | nil => rfl
  | cons c rest ih =>
      simp only [List.mem_cons, not_or] at h
      simp [splitOnce, Ne.symm h.1, ih h.2]

theorem splitOnce_some {text left right : Text} (h : splitOnce separator text = some (left, right)) :
    text = left ++ separator :: right ∧ separator ∉ left := by
  induction text generalizing left with
  | nil => cases h
  | cons c rest ih =>
      unfold splitOnce at h
      split at h
      · next hc =>
          simp only [Option.some.injEq, Prod.mk.injEq] at h
          obtain ⟨rfl, rfl⟩ := h
          simp [hc]
      · next hc =>
          simp only [Option.map_eq_some_iff, Prod.mk.injEq] at h
          obtain ⟨⟨before, after⟩, hrest, rfl, rfl⟩ := h
          obtain ⟨rfl, hfree⟩ := ih hrest
          simp [hfree, Ne.symm hc]

theorem rsplitOnce_eq_none {text : Text} : rsplitOnce separator text = none ↔ separator ∉ text := by
  induction text with
  | nil => simp [rsplitOnce]
  | cons c rest ih =>
      unfold rsplitOnce
      cases hrest : rsplitOnce separator rest with
      | some found =>
          have hmem : separator ∈ rest := by
            by_contra hfree
            rw [ih.mpr hfree] at hrest
            cases hrest
          simp [hmem]
      | none =>
          have hfree := ih.mp hrest
          by_cases hc : c = separator
          · simp [hc]
          · simp [hc, hfree, Ne.symm hc]

theorem rsplitOnce_append (left : Text) {right : Text} (h : separator ∉ right) :
    rsplitOnce separator (left ++ separator :: right) = some (left, right) := by
  induction left with
  | nil => simp [rsplitOnce, rsplitOnce_eq_none.mpr h]
  | cons c rest ih => simp [rsplitOnce, ih]

theorem rsplitOnce_some {text left right : Text}
    (h : rsplitOnce separator text = some (left, right)) :
    text = left ++ separator :: right ∧ separator ∉ right := by
  induction text generalizing left right with
  | nil => cases h
  | cons c rest ih =>
      unfold rsplitOnce at h
      split at h
      · next before after hrest =>
          simp only [Option.some.injEq, Prod.mk.injEq] at h
          obtain ⟨rfl, rfl⟩ := h
          obtain ⟨rfl, hfree⟩ := ih hrest
          exact ⟨rfl, hfree⟩
      · next hrest =>
          split at h
          · next hc =>
              simp only [Option.some.injEq, Prod.mk.injEq] at h
              obtain ⟨rfl, rfl⟩ := h
              subst hc
              exact ⟨rfl, rsplitOnce_eq_none.mp hrest⟩
          · cases h

end Once

section Trim

variable {drop : Char → Bool}

theorem trimEndMatches_cons (drop : Char → Bool) (c : Char) (rest : Text) :
    trimEndMatches drop (c :: rest) =
      if trimEndMatches drop rest = [] ∧ drop c = true then [] else c :: trimEndMatches drop rest := by
  simp only [trimEndMatches, List.rdropWhile, List.reverse_cons, List.dropWhile_append]
  by_cases hrest : (rest.reverse.dropWhile drop) = []
  · by_cases hc : drop c = true <;> simp [hrest, hc]
  · simp [hrest]

-- A text whose last character stays is left as it is.
theorem trimEndMatches_concat {c : Char} (h : drop c = false) (text : Text) :
    trimEndMatches drop (text ++ [c]) = text ++ [c] :=
  List.rdropWhile_concat_neg _ _ _ (by simp [h])

theorem trimEndMatches_of_free {text : Text} (h : ∀ c ∈ text, drop c = false) :
    trimEndMatches drop text = text := by
  induction text with
  | nil => rfl
  | cons c rest ih =>
      rw [trimEndMatches_cons, ih fun d hd => h d (List.mem_cons_of_mem _ hd)]
      simp [h c List.mem_cons_self]

theorem trimEndMatches_prefix (drop : Char → Bool) (text : Text) :
    ∃ rest, text = trimEndMatches drop text ++ rest := by
  obtain ⟨rest, h⟩ := List.rdropWhile_prefix drop (l := text)
  exact ⟨rest, h.symm⟩

theorem trimEndMatches_last {text : Text} {c : Char}
    (h : (trimEndMatches drop text).getLast? = some c) : drop c = false := by
  have hne : trimEndMatches drop text ≠ [] := by
    intro hnil
    rw [hnil] at h
    cases h
  rw [List.getLast?_eq_some_getLast hne, Option.some.injEq] at h
  rw [← h]
  exact Bool.not_eq_true _ ▸ List.rdropWhile_last_not drop text hne

end Trim

section Decimal

theorem isDigit_decimal {n : Nat} {c : Char} (h : c ∈ decimal n) : c.isDigit = true :=
  Nat.isDigit_of_mem_toDigits (by decide) (by decide) h

theorem isDigit_decimal02 {n : Nat} {c : Char} (h : c ∈ decimal02 n) : c.isDigit = true := by
  unfold decimal02 at h
  split at h
  · rcases List.mem_cons.mp h with rfl | h
    · rfl
    · exact isDigit_decimal h
  · exact isDigit_decimal h

theorem decimal_length_le {n k : Nat} (hk : 0 < k) : (decimal n).length ≤ k ↔ n < 10 ^ k :=
  Nat.length_toDigits_le_iff (by decide) hk

theorem decimal_length_pos (n : Nat) : 0 < (decimal n).length := Nat.length_toDigits_pos

theorem decimal_length_four {n : Nat} (hl : 1000 ≤ n) (hh : n ≤ 9999) : (decimal n).length = 4 := by
  have hle : (decimal n).length ≤ 4 := (decimal_length_le (by decide)).mpr (by omega)
  have hgt : ¬(decimal n).length ≤ 3 := fun h => by
    have := (decimal_length_le (by decide)).mp h
    omega
  omega

theorem decimal02_length_two {n : Nat} (h : n ≤ 99) : (decimal02 n).length = 2 := by
  have hpos := decimal_length_pos n
  unfold decimal02
  split
  · next hn =>
      have : (decimal n).length ≤ 1 := (decimal_length_le (by decide)).mpr (by omega)
      simp only [List.length_cons]
      omega
  · next hn =>
      have hle : (decimal n).length ≤ 2 := (decimal_length_le (by decide)).mpr (by omega)
      have hgt : ¬(decimal n).length ≤ 1 := fun h => by
        have := (decimal_length_le (by decide)).mp h
        omega
      omega

theorem decimal02_length_three {n : Nat} (h : n ≤ 999) : (decimal02 n).length ≤ 3 := by
  by_cases hn : n ≤ 99
  · rw [decimal02_length_two hn]
    decide
  · rw [decimal02, if_neg (by omega)]
    exact (decimal_length_le (by decide)).mpr (by omega)

theorem decimal02_ne_nil (n : Nat) : decimal02 n ≠ [] := by
  have := decimal_length_pos n
  unfold decimal02
  split
  · simp
  · exact List.ne_nil_of_length_pos this

theorem digitsValue_decimal02 (n : Nat) : digitsValue (decimal02 n) = n := by
  unfold decimal02
  split
  · have hzero : digitsValue ('0' :: decimal n) = digitsValue (decimal n) := by
      simp [digitsValue, Nat.ofDigitChars_cons]
    rw [hzero, digitsValue_decimal]
  · exact digitsValue_decimal n

theorem parseBelow_decimal02 {n bound : Nat} (h : n < bound) :
    parseBelow bound (decimal02 n) = some n := by
  rw [parseBelow, if_neg (decimal02_ne_nil n), digitsValue_decimal02, if_pos h]

end Decimal

section Case

theorem eqIgnoreAsciiCase_refl (text : Text) : eqIgnoreAsciiCase text text = true := by
  simp [eqIgnoreAsciiCase]

theorem startsWithCi_append (start rest : Text) : startsWithCi (start ++ rest) start = true := by
  simp [startsWithCi, eqIgnoreAsciiCase_refl]

end Case

end Mediaops.Text
