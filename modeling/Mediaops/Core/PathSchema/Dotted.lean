import Mediaops.Core.PathSchema
import Mediaops.Library.Text.Lemmas

namespace Mediaops.PathSchema

-- The nonempty pieces between dots: what `dotted` keeps of a text.
def tokens (text : Text) : List Text := (Text.split (· == '.') text).filter (· ≠ [])

-- No character that `dotted` replaces.
def Clean (text : Text) : Prop := ∀ c ∈ text, dottedChar c = c

section Tokens

theorem tokens_append (left right : Text) :
    tokens (left ++ '.' :: right) = tokens left ++ tokens right := by
  rw [tokens, Text.split_append (by simp), List.filter_append]
  rfl

theorem ne_nil_of_mem_tokens {text token : Text} (h : token ∈ tokens text) : token ≠ [] := by
  simpa using (List.mem_filter.mp h).2

theorem free_of_mem_tokens {text token : Text} (h : token ∈ tokens text) : '.' ∉ token := by
  intro hdot
  have := (Text.mem_of_mem_split (List.mem_filter.mp h).1 hdot).2
  simp at this

theorem mem_of_mem_tokens {text token : Text} {c : Char} (h : token ∈ tokens text)
    (hc : c ∈ token) : c ∈ text :=
  (Text.mem_of_mem_split (List.mem_filter.mp h).1 hc).1

-- A text without tokens has only dots.
theorem dot_of_tokens_nil {text : Text} (h : tokens text = []) {c : Char} (hc : c ∈ text) :
    c = '.' := by
  rw [← Text.joinWith_split '.' text] at hc
  rcases Text.mem_joinWith hc with rfl | ⟨piece, hpiece, hc⟩
  · rfl
  · have hmem : piece ∈ tokens text := by
      refine List.mem_filter.mpr ⟨hpiece, ?_⟩
      simpa using List.ne_nil_of_mem hc
    rw [h] at hmem
    cases hmem

theorem tokens_of_free {text : Text} (hne : text ≠ []) (h : '.' ∉ text) : tokens text = [text] := by
  have hsplit : Text.split (· == '.') text = [text] := by
    refine Text.split_of_free fun c hc => ?_
    simp only [beq_eq_false_iff_ne]
    rintro rfl
    exact h hc
  simp [tokens, hsplit, hne]

theorem tokens_join {toks : List Text} (hne : ∀ t ∈ toks, t ≠ []) (hfree : ∀ t ∈ toks, '.' ∉ t) :
    tokens (Text.joinWith '.' toks) = toks := by
  by_cases h : toks = []
  · subst h
    rfl
  · rw [tokens, Text.split_joinWith h hfree, List.filter_eq_self]
    intro t ht
    simpa using hne t ht

theorem tokens_join_tokens (text : Text) : tokens (Text.joinWith '.' (tokens text)) = tokens text :=
  tokens_join (fun _ h => ne_nil_of_mem_tokens h) (fun _ h => free_of_mem_tokens h)

theorem join_tokens_eq_nil {text : Text} :
    Text.joinWith '.' (tokens text) = [] ↔ tokens text = [] :=
  Text.joinWith_eq_nil fun _ h => ne_nil_of_mem_tokens h

theorem mem_join_tokens {text : Text} {c : Char} (h : c ∈ Text.joinWith '.' (tokens text)) :
    c = '.' ∨ c ∈ text := by
  rcases Text.mem_joinWith h with hdot | ⟨token, htoken, hc⟩
  · exact .inl hdot
  · exact .inr (mem_of_mem_tokens htoken hc)

end Tokens

section Collapse

-- After a dot, and in the middle of a piece, the pieces that are left.
def tailPieces (pieces : List Text) : Text :=
  if pieces.filter (· ≠ []) = [] then [] else '.' :: Text.joinWith '.' (pieces.filter (· ≠ []))

theorem join_cons_tail (piece : Text) (pieces : List Text) :
    Text.joinWith '.' (piece :: pieces.filter (· ≠ [])) = piece ++ tailPieces pieces := by
  unfold tailPieces
  split
  · next h =>
      rw [h]
      simp [Text.joinWith]
  · next h => exact Text.joinWith_cons '.' piece h

theorem collapseDots_trim (text : Text) :
    Text.trimEndMatches (· == '.') (collapseDots true text) = Text.joinWith '.' (tokens text) ∧
    ∀ piece pieces, Text.split (· == '.') text = piece :: pieces →
      Text.trimEndMatches (· == '.') (collapseDots false text) = piece ++ tailPieces pieces := by
  induction text with
  | nil =>
      refine ⟨rfl, fun piece pieces h => ?_⟩
      simp only [Text.split, List.cons.injEq] at h
      obtain ⟨rfl, rfl⟩ := h
      rfl
  | cons c rest ih =>
      obtain ⟨hopen, hinner⟩ := ih
      by_cases hc : c = '.'
      · subst hc
        refine ⟨?_, fun piece pieces h => ?_⟩
        · simpa [collapseDots, tokens, Text.split] using hopen
        · simp only [Text.split, beq_self_eq_true, if_true, List.cons.injEq] at h
          obtain ⟨rfl, rfl⟩ := h
          simp only [collapseDots, if_true, Bool.false_eq_true, if_false, Text.trimEndMatches_cons,
            hopen, beq_self_eq_true, and_true, join_tokens_eq_nil]
          rfl
      · obtain ⟨piece, pieces, hsplit⟩ := Text.split_cons (· == '.') rest
        have hmid := hinner piece pieces hsplit
        have hboth : ∀ flag, Text.trimEndMatches (· == '.') (collapseDots flag (c :: rest)) =
            (c :: piece) ++ tailPieces pieces := by
          intro flag
          simp [collapseDots, hc, Text.trimEndMatches_cons, hmid]
        have hcons : Text.split (· == '.') (c :: rest) = (c :: piece) :: pieces := by
          simp [Text.split, hc, hsplit]
        refine ⟨?_, fun piece' pieces' h => ?_⟩
        · rw [hboth, tokens, hcons, ← join_cons_tail]
          simp
        · rw [hcons, List.cons.injEq] at h
          obtain ⟨rfl, rfl⟩ := h
          exact hboth false

end Collapse

section Clean

theorem Clean.append {left right : Text} : Clean (left ++ right) ↔ Clean left ∧ Clean right := by
  simp [Clean, or_imp, forall_and]

theorem Clean.cons {c : Char} {text : Text} : Clean (c :: text) ↔ dottedChar c = c ∧ Clean text := by
  simp [Clean]

theorem Clean.not_whitespace {text : Text} (h : Clean text) {c : Char} (hc : c ∈ text) :
    Text.isWhitespace c = false := by
  have hfixed := h c hc
  by_contra hspace
  rw [Bool.not_eq_false] at hspace
  have hdot : dottedChar c = '.' := by
    simp only [dottedChar, hspace, if_true, ite_self]
  rw [← hfixed, hdot] at hspace
  exact absurd hspace (by decide)

theorem Clean.ne {text : Text} (h : Clean text) {c : Char} (hc : c ∈ text) {d : Char}
    (hd : dottedChar d ≠ d) : c ≠ d := by
  rintro rfl
  exact hd (h c hc)

theorem dottedChar_idem (c : Char) : dottedChar (dottedChar c) = dottedChar c := by
  by_cases h : dottedChar c = c
  · rw [h, h]
  · have hdot : dottedChar c = '.' := by
      unfold dottedChar at h ⊢
      split
      · rfl
      · next hlist =>
          rw [if_neg hlist] at h
          split
          · rfl
          · next hspace => rw [if_neg hspace] at h; exact absurd rfl h
    rw [hdot]
    decide

theorem clean_map (text : Text) : Clean (text.map dottedChar) := by
  intro c hc
  obtain ⟨d, -, rfl⟩ := List.mem_map.mp hc
  exact dottedChar_idem d

theorem replaceSpacedDash_of_free {text : Text} (h : ' ' ∉ text) : replaceSpacedDash text = text := by
  fun_induction replaceSpacedDash text with
  | case1 rest ih => simp at h
  | case2 c rest _ ih =>
      simp only [List.mem_cons, not_or] at h
      rw [ih h.2]
  | case3 => rfl

theorem clean_join {toks : List Text} (h : ∀ t ∈ toks, Clean t) : Clean (Text.joinWith '.' toks) := by
  intro c hc
  rcases Text.mem_joinWith hc with rfl | ⟨token, htoken, hmem⟩
  · decide
  · exact h token htoken c hmem

theorem Clean.tokens {text : Text} (h : Clean text) : ∀ t ∈ tokens text, Clean t :=
  fun _ ht c hc => h c (mem_of_mem_tokens ht hc)

end Clean

section Dotted

-- A clean text only loses its idle dots.
theorem dotted_clean {text : Text} (h : Clean text) :
    dotted text = Text.joinWith '.' (tokens text) := by
  have hplain : text.map (fun c => if c = '\u00a0' then ' ' else c) = text := by
    conv_rhs => rw [← List.map_id text]
    exact List.map_congr_left fun c hc => if_neg (h.ne hc (by decide))
  have hspace : ' ' ∉ text := fun hmem => h.ne hmem (by decide) rfl
  have hmap : text.map dottedChar = text := by
    conv_rhs => rw [← List.map_id text]
    exact List.map_congr_left h
  rw [dotted, hplain, replaceSpacedDash_of_free hspace, hmap]
  exact (collapseDots_trim text).1

theorem exists_dotted (text : Text) : ∃ source, Clean source ∧
    dotted text = Text.joinWith '.' (tokens source) := by
  refine ⟨_, clean_map (replaceSpacedDash (text.map fun c => if c = '\u00a0' then ' ' else c)), ?_⟩
  exact (collapseDots_trim _).1

theorem clean_dotted (text : Text) : Clean (dotted text) := by
  obtain ⟨source, hclean, h⟩ := exists_dotted text
  rw [h]
  exact clean_join hclean.tokens

theorem dotted_join {toks : List Text} (hclean : ∀ t ∈ toks, Clean t) (hne : ∀ t ∈ toks, t ≠ [])
    (hfree : ∀ t ∈ toks, '.' ∉ t) : dotted (Text.joinWith '.' toks) = Text.joinWith '.' toks := by
  rw [dotted_clean (clean_join hclean), tokens_join hne hfree]

theorem dotted_dotted (text : Text) : dotted (dotted text) = dotted text := by
  obtain ⟨source, hclean, h⟩ := exists_dotted text
  rw [h]
  exact dotted_join hclean.tokens (fun _ ht => ne_nil_of_mem_tokens ht)
    (fun _ ht => free_of_mem_tokens ht)

theorem tokens_dotted {text : Text} (h : Clean text) : tokens (dotted text) = tokens text := by
  rw [dotted_clean h, tokens_join_tokens]

theorem dotted_eq_nil {text : Text} (h : Clean text) : dotted text = [] ↔ tokens text = [] := by
  rw [dotted_clean h, join_tokens_eq_nil]

theorem dotted_append {left right : Text} (hl : Clean left) (hr : Clean right)
    (hleft : dotted left ≠ []) (hright : dotted right ≠ []) :
    dotted (left ++ '.' :: right) = dotted left ++ '.' :: dotted right := by
  have hclean : Clean (left ++ '.' :: right) :=
    Clean.append.mpr ⟨hl, Clean.cons.mpr ⟨by decide, hr⟩⟩
  rw [Ne, dotted_eq_nil hl] at hleft
  rw [Ne, dotted_eq_nil hr] at hright
  rw [dotted_clean hclean, tokens_append, Text.joinWith_append '.' hleft hright, dotted_clean hl,
    dotted_clean hr]

theorem dotted_append_nil {left right : Text} (hl : Clean left) (hr : Clean right)
    (hright : dotted right = []) : dotted (left ++ '.' :: right) = dotted left := by
  have hclean : Clean (left ++ '.' :: right) :=
    Clean.append.mpr ⟨hl, Clean.cons.mpr ⟨by decide, hr⟩⟩
  rw [dotted_eq_nil hr] at hright
  rw [dotted_clean hclean, tokens_append, hright, List.append_nil, dotted_clean hl]

-- The part behind a dot of a dotted text is dotted.
theorem dotted_right {left right : Text} (h : dotted (left ++ '.' :: right) = left ++ '.' :: right) :
    dotted right = right := by
  have hclean : Clean (left ++ '.' :: right) := h ▸ clean_dotted _
  have hr : Clean right := (Clean.cons.mp (Clean.append.mp hclean).2).2
  have htoks : tokens (left ++ '.' :: right) ≠ [] := by
    intro hnil
    rw [dotted_clean hclean, hnil] at h
    simp [Text.joinWith] at h
  have hsplit : Text.split (· == '.') (left ++ '.' :: right) = tokens (left ++ '.' :: right) := by
    conv_lhs => rw [← h, dotted_clean hclean]
    exact Text.split_joinWith htoks fun _ ht => free_of_mem_tokens ht
  have hpieces : tokens right = Text.split (· == '.') right := by
    rw [tokens, List.filter_eq_self]
    intro piece hpiece
    have hmem : piece ∈ tokens (left ++ '.' :: right) := by
      rw [← hsplit, Text.split_append (by simp)]
      exact List.mem_append_right _ hpiece
    simpa using ne_nil_of_mem_tokens hmem
  rw [dotted_clean hr, hpieces, Text.joinWith_split]

theorem collapseDots_length_le (lastDot : Bool) (text : Text) :
    (collapseDots lastDot text).length ≤ text.length := by
  induction text generalizing lastDot with
  | nil => simp [collapseDots]
  | cons c rest ih =>
      have htrue := ih true
      have hfalse := ih false
      unfold collapseDots
      split_ifs <;> simp only [List.length_cons] <;> omega

theorem collapseDots_left {lastDot : Bool} {left right : Text}
    (h : collapseDots lastDot (left ++ right) = left ++ right) : collapseDots lastDot left = left := by
  induction left generalizing lastDot with
  | nil => rfl
  | cons c rest ih =>
      rw [List.cons_append] at h
      unfold collapseDots at h ⊢
      split_ifs at h ⊢
      · have hlen := collapseDots_length_le true (rest ++ right)
        rw [h] at hlen
        simp only [List.length_cons] at hlen
        omega
      · next hc _ =>
          rw [List.cons.injEq] at h
          rw [ih h.2, hc]
      · rw [List.cons.injEq] at h
        rw [ih h.2]

-- The front part of a dotted text is dotted, unless it ends in a dot.
theorem dotted_left {left right : Text} (h : dotted (left ++ right) = left ++ right)
    (hlast : left.getLast? ≠ some '.') : dotted left = left := by
  have hclean : Clean (left ++ right) := h ▸ clean_dotted _
  have htrim : ∀ text : Text, Clean text → dotted text =
      Text.trimEndMatches (· == '.') (collapseDots true text) := by
    intro text ht
    rw [dotted_clean ht, (collapseDots_trim text).1]
  rw [htrim _ hclean] at h
  have hcollapse : collapseDots true (left ++ right) = left ++ right := by
    obtain ⟨rest, hrest⟩ := Text.trimEndMatches_prefix (· == '.') (collapseDots true (left ++ right))
    have hlen := collapseDots_length_le true (left ++ right)
    rw [h] at hrest
    have hsum := congrArg List.length hrest
    simp only [List.length_append] at hsum hlen
    have hnil : rest = [] := List.eq_nil_of_length_eq_zero (by omega)
    rw [hrest, hnil, List.append_nil]
  rw [htrim _ (Clean.append.mp hclean).1, collapseDots_left hcollapse, Text.trimEndMatches,
    List.rdropWhile_eq_self_iff]
  intro hne hdot
  apply hlast
  rw [List.getLast?_eq_some_getLast hne]
  simpa using hdot

-- A text without dots is its own dotted form.
theorem dotted_of_free {text : Text} (hclean : Clean text) (h : '.' ∉ text) :
    dotted text = text := by
  by_cases hne : text = []
  · subst hne
    rfl
  · rw [dotted_clean hclean, tokens_of_free hne h]
    simp [Text.joinWith]

end Dotted

end Mediaops.PathSchema
