import Mediaops.Core.PathSchema.Rendered
import Mathlib.Data.List.Flatten

namespace Mediaops.PathSchema

-- What the removal of scene tags does to a text, piece by piece.

-- No piece of the text is a scene tag.
def Tagless (text : Text) : Prop :=
  ∀ piece ∈ Text.split isTagSeparator text, isSceneTag piece = false

instance (text : Text) : Decidable (Tagless text) := List.decidableBAll ..

def writeTokens (toks : List (Option Char × Text)) : Text :=
  toks.flatMap fun (sep, token) => sep.toList ++ token

-- Tokens as they stand after the first: each has the separator before it.
def Spelled (toks : List (Option Char × Text)) : Prop :=
  ∀ pair ∈ toks, (∃ c ∈ pair.1, isTagSeparator c = true) ∧ ∀ c ∈ pair.2, isTagSeparator c = false

section Tokens

theorem sceneTokens_separator {c : Char} (hc : isTagSeparator c = true) {text first : Text}
    {rest : List (Option Char × Text)} (h : sceneTokens text = (none, first) :: rest) :
    sceneTokens (c :: text) = (none, []) :: (some c, first) :: rest := by
  unfold sceneTokens
  rw [h]
  exact if_pos hc

theorem sceneTokens_letter {c : Char} (hc : isTagSeparator c = false) {text first : Text}
    {rest : List (Option Char × Text)} (h : sceneTokens text = (none, first) :: rest) :
    sceneTokens (c :: text) = (none, c :: first) :: rest := by
  unfold sceneTokens
  rw [h]
  exact if_neg (by rw [isTagSeparator] at hc; simp [hc])

-- The tokens are the pieces, and written one after the other they are the text.
theorem sceneTokens_spec (text : Text) : ∃ first rest, sceneTokens text = (none, first) :: rest ∧
    first :: rest.map Prod.snd = Text.split isTagSeparator text ∧
    first ++ writeTokens rest = text ∧ (∀ c ∈ first, isTagSeparator c = false) ∧ Spelled rest := by
  induction text with
  | nil => exact ⟨[], [], rfl, rfl, rfl, by simp, by simp [Spelled]⟩
  | cons c text ih =>
      obtain ⟨first, rest, htoks, hsplit, hwrite, hfree, hspelled⟩ := ih
      cases hc : isTagSeparator c with
      | true =>
          refine ⟨[], (some c, first) :: rest, sceneTokens_separator hc htoks, ?_, ?_, by simp, ?_⟩
          · simp [Text.split, hc, ← hsplit]
          · rw [← hwrite]
            simp [writeTokens]
          · intro pair hpair
            rcases List.mem_cons.mp hpair with rfl | hpair
            · exact ⟨⟨c, rfl, hc⟩, hfree⟩
            · exact hspelled pair hpair
      | false =>
          refine ⟨c :: first, rest, sceneTokens_letter hc htoks, ?_, ?_, ?_, hspelled⟩
          · simp [Text.split, hc, ← hsplit]
          · rw [List.cons_append, hwrite]
          · intro d hd
            rcases List.mem_cons.mp hd with rfl | hd
            · exact hc
            · exact hfree d hd

theorem sceneTokens_front {front text first : Text} {rest : List (Option Char × Text)}
    (hfree : ∀ c ∈ front, isTagSeparator c = false)
    (h : sceneTokens text = (none, first) :: rest) :
    sceneTokens (front ++ text) = (none, front ++ first) :: rest := by
  induction front with
  | nil => exact h
  | cons c front ih =>
      have hfront := ih fun d hd => hfree d (List.mem_cons_of_mem _ hd)
      exact sceneTokens_letter (hfree c List.mem_cons_self) hfront

theorem sceneTokens_write {first : Text} {rest : List (Option Char × Text)}
    (hfree : ∀ c ∈ first, isTagSeparator c = false) (hspelled : Spelled rest) :
    sceneTokens (first ++ writeTokens rest) = (none, first) :: rest := by
  induction rest generalizing first with
  | nil =>
      have hnil : sceneTokens [] = (none, []) :: [] := rfl
      have hfirst := sceneTokens_front hfree hnil
      simpa [writeTokens] using hfirst
  | cons pair rest ih =>
      obtain ⟨⟨c, hc, hsep⟩, hpiece⟩ := hspelled pair List.mem_cons_self
      obtain ⟨sep, piece⟩ := pair
      obtain rfl : sep = some c := hc
      have hrest := ih hpiece fun p hp => hspelled p (List.mem_cons_of_mem _ hp)
      have hcut := sceneTokens_front hfree (sceneTokens_separator hsep hrest)
      simpa [writeTokens] using hcut

end Tokens

section Strip

def kept (text : Text) : List (Option Char × Text) :=
  (sceneTokens text).filter fun token => !isSceneTag token.2

-- What is left of a text are its tokens that are no tags, the first of them
-- without its separator.
theorem stripSceneTags_spec (text : Text) :
    (kept text = [] ∧ stripSceneTags text = []) ∨
      ∃ sep first rest, kept text = (sep, first) :: rest ∧
        stripSceneTags text = first ++ writeTokens rest ∧
        sceneTokens (stripSceneTags text) = (none, first) :: rest := by
  obtain ⟨head, tail, htoks, -, -, hhead, htail⟩ := sceneTokens_spec text
  cases hkept : kept text with
  | nil =>
      refine .inl ⟨rfl, ?_⟩
      unfold kept at hkept
      rw [stripSceneTags, hkept]
  | cons pair rest =>
      obtain ⟨sep, first⟩ := pair
      have hstrip : stripSceneTags text = first ++ writeTokens rest := by
        unfold kept at hkept
        rw [stripSceneTags, hkept]
        rfl
      have hparts : (∀ c ∈ first, isTagSeparator c = false) ∧ Spelled rest := by
        rw [kept, htoks] at hkept
        have hsub : ∀ pair ∈ tail.filter (fun token => !isSceneTag token.2), pair ∈ tail :=
          fun pair hpair => (List.mem_filter.mp hpair).1
        by_cases htag : isSceneTag head = true
        · rw [List.filter_cons_of_neg (by simp [htag])] at hkept
          rw [hkept] at hsub
          exact ⟨(htail _ (hsub _ List.mem_cons_self)).2,
            fun pair hpair => htail pair (hsub pair (List.mem_cons_of_mem _ hpair))⟩
        · rw [List.filter_cons_of_pos (by simp [htag]), List.cons.injEq, Prod.mk.injEq] at hkept
          obtain ⟨⟨rfl, rfl⟩, rfl⟩ := hkept
          exact ⟨hhead, fun pair hpair => htail pair (hsub pair hpair)⟩
      refine .inr ⟨sep, first, rest, rfl, hstrip, ?_⟩
      rw [hstrip]
      exact sceneTokens_write hparts.1 hparts.2

theorem isSceneTag_of_kept {text : Text} {pair : Option Char × Text} (h : pair ∈ kept text) :
    isSceneTag pair.2 = false := by
  simpa using (List.mem_filter.mp h).2

theorem tagless_iff {text : Text} :
    Tagless text ↔ ∀ pair ∈ sceneTokens text, isSceneTag pair.2 = false := by
  obtain ⟨first, rest, htoks, hsplit, -⟩ := sceneTokens_spec text
  simp only [Tagless, ← hsplit, htoks, List.forall_mem_cons, List.forall_mem_map]

theorem tagless_strip (text : Text) : Tagless (stripSceneTags text) := by
  obtain ⟨-, hstrip⟩ | ⟨sep, first, rest, hkept, -, htoks⟩ := stripSceneTags_spec text
  · rw [hstrip]
    decide
  · rw [tagless_iff, htoks]
    intro pair hpair
    rcases List.mem_cons.mp hpair with rfl | hpair
    · have hmem : (sep, first) ∈ kept text := hkept ▸ List.mem_cons_self
      have hfirst := isSceneTag_of_kept hmem
      exact hfirst
    · exact isSceneTag_of_kept (hkept ▸ List.mem_cons_of_mem _ hpair)

theorem stripSceneTags_of_tagless {text : Text} (h : Tagless text) : stripSceneTags text = text := by
  obtain ⟨first, rest, htoks, -, hwrite, -⟩ := sceneTokens_spec text
  have hall : kept text = sceneTokens text := by
    rw [kept, List.filter_eq_self]
    intro pair hpair
    simp [tagless_iff.mp h pair hpair]
  obtain ⟨hkept, -⟩ | ⟨sep, first', rest', hkept, hstrip, -⟩ := stripSceneTags_spec text
  · rw [hall, htoks] at hkept
    cases hkept
  · rw [hall, htoks, List.cons.injEq, Prod.mk.injEq] at hkept
    obtain ⟨⟨-, rfl⟩, rfl⟩ := hkept
    rw [hstrip, hwrite]

theorem stripSceneTags_eq_self {text : Text} : stripSceneTags text = text ↔ Tagless text :=
  ⟨fun h => h ▸ tagless_strip text, stripSceneTags_of_tagless⟩

theorem stripSceneTags_sublist (text : Text) : (stripSceneTags text).Sublist text := by
  obtain ⟨head, tail, htoks, -, hwrite, -⟩ := sceneTokens_spec text
  have hall : writeTokens (sceneTokens text) = text := by
    rw [htoks]
    simpa [writeTokens] using hwrite
  obtain ⟨-, hstrip⟩ | ⟨sep, first, rest, hkept, hstrip, -⟩ := stripSceneTags_spec text
  · rw [hstrip]
    exact List.nil_sublist _
  · have hsub : (writeTokens (kept text)).Sublist (writeTokens (sceneTokens text)) :=
      List.filter_sublist.flatMap _
    rw [hkept, hall] at hsub
    refine .trans ?_ hsub
    rw [hstrip]
    simp only [writeTokens, List.flatMap_cons, List.append_assoc]
    exact List.sublist_append_right _ _

end Strip

end Mediaops.PathSchema
