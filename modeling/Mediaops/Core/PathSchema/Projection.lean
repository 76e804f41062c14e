import Mediaops.Core.PathSchema.Approval
import Mediaops.Core.PathSchema.Normalized

namespace Mediaops.PathSchema

open Checks

-- What a second normalization changes, and what the renderer finds wrong with a
-- normalized placement.

section Texts

-- No dot at either end and no two in a row.
def DottedForm (text : Text) : Prop := text = [] ∨ [] ∉ Text.split (· == '.') text

theorem dotted_eq_self {text : Text} (h : Clean text) : dotted text = text ↔ DottedForm text := by
  rw [dotted_clean h]
  constructor
  · intro hjoin
    by_cases htoks : tokens text = []
    · rw [htoks] at hjoin
      exact .inl hjoin.symm
    · right
      rw [← hjoin, Text.split_joinWith htoks fun _ ht => free_of_mem_tokens ht]
      exact fun hmem => ne_nil_of_mem_tokens hmem rfl
  · rintro (rfl | hpieces)
    · rfl
    · have hall : tokens text = Text.split (· == '.') text := by
        rw [tokens, List.filter_eq_self]
        intro piece hpiece
        rw [decide_eq_true_eq]
        rintro rfl
        exact hpieces hpiece
      rw [hall, Text.joinWith_split]

theorem dotted_length_le {text : Text} (h : Clean text) : (dotted text).length ≤ text.length := by
  rw [dotted_clean h, ← (collapseDots_trim text).1]
  obtain ⟨rest, hrest⟩ := Text.trimEndMatches_prefix (· == '.') (collapseDots true text)
  have hlen := collapseDots_length_le true text
  have hsum := congrArg List.length hrest
  rw [List.length_append] at hsum
  omega

-- A clean text survives dotting and the removal of tags only as it is.
theorem strip_dotted_eq_self {text : Text} (h : Clean text) :
    stripSceneTags (dotted text) = text ↔ DottedForm text ∧ Tagless text := by
  constructor
  · intro hsame
    have hsub := stripSceneTags_sublist (dotted text)
    have hlen := dotted_length_le h
    have hwhole : stripSceneTags (dotted text) = dotted text :=
      hsub.eq_of_length_le (by rw [hsame]; exact hlen)
    have hdotted : dotted text = text := hwhole.symm.trans hsame
    refine ⟨(dotted_eq_self h).mp hdotted, ?_⟩
    rw [hdotted] at hsame
    exact stripSceneTags_eq_self.mp hsame
  · rintro ⟨hform, htagless⟩
    rw [(dotted_eq_self h).mpr hform, stripSceneTags_of_tagless htagless]

theorem stripTrailingYear_prefix (text : Text) : stripTrailingYear text <+: text := by
  obtain ⟨rest, hrest⟩ := Text.trimEndMatches_prefix Text.isWhitespace text
  have htrim : Text.trimEndMatches Text.isWhitespace text <+: text := ⟨rest, hrest.symm⟩
  unfold stripTrailingYear
  dsimp only
  split
  · exact htrim
  · next before inner hsplit =>
      split
      · obtain ⟨tail, hbefore⟩ := Text.trimEndMatches_prefix (fun c => c == '.' || c == ' ') before
        have hhead : before <+: Text.trimEndMatches Text.isWhitespace text :=
          ⟨_, (Text.rsplitOnce_some hsplit).1.symm⟩
        exact (List.IsPrefix.trans ⟨tail, hbefore.symm⟩ hhead).trans htrim
      · exact htrim

theorem strip_album_eq_self {album : Text} (h : Clean album) :
    stripSceneTags (dotted (stripTrailingYear album)) = album ↔
      stripTrailingYear album = album ∧ DottedForm album ∧ Tagless album := by
  constructor
  · intro hsame
    have hclean : Clean (stripTrailingYear album) := fun c hc => h c (stripTrailingYear_subset hc)
    have hprefix := stripTrailingYear_prefix album
    have hsub := (stripSceneTags_sublist (dotted (stripTrailingYear album))).length_le
    have hlen := dotted_length_le hclean
    rw [hsame] at hsub
    have hyear : stripTrailingYear album = album :=
      hprefix.eq_of_length_le (by omega)
    rw [hyear] at hsame
    exact ⟨hyear, (strip_dotted_eq_self h).mp hsame⟩
  · rintro ⟨hyear, hfixed⟩
    rw [hyear]
    exact (strip_dotted_eq_self h).mpr hfixed

end Texts

section Normalized

def displayTexts : Placement → List Text
  | .Movie title _ _ => [title]
  | .Episode title _ _ _ _ episodeTitle _ => title :: episodeTitle.toList
  | .Track artist album _ _ _ title _ => [artist, album, title]

-- No year is left behind the album.
def Dateless : Placement → Prop
  | .Track _ album .. => stripTrailingYear album = album
  | _ => True

theorem tagless_normalize (placement : Placement) :
    ∀ text ∈ displayTexts (normalizePlacement placement), Tagless text := by
  cases placement with
  | Movie title year extension =>
      intro text htext
      rw [List.mem_singleton.mp htext]
      exact tagless_strip _
  | Episode title year season episode last episodeTitle extension =>
      intro text htext
      rcases List.mem_cons.mp htext with rfl | htext
      · exact tagless_strip _
      · obtain ⟨hmem, -⟩ := Option.mem_filter_iff.mp (Option.mem_toList.mp htext)
        obtain ⟨name, -, rfl⟩ := Option.map_eq_some_iff.mp hmem
        exact tagless_strip _
  | Track artist album year disc track title extension =>
      intro text htext
      simp only [normalizePlacement, stripPlacement, displayTexts, List.mem_cons,
        List.not_mem_nil, or_false] at htext
      rcases htext with rfl | rfl | rfl <;> exact tagless_strip _

theorem named_normalize (placement : Placement) : Named (normalizePlacement placement) := by
  cases placement with
  | Movie title year extension => trivial
  | Episode title year season episode last episodeTitle extension =>
      intro h
      have hne := (Option.mem_filter_iff.mp h).2
      simp at hne
  | Track artist album year disc track title extension => trivial

theorem trimStart_of_head {extension : Text} (h : extension.head? ≠ some '.') :
    Text.trimStartMatches (· == '.') extension = extension := by
  cases extension with
  | nil => rfl
  | cons c rest =>
      have hc : (c == '.') = false := by
        simpa using h
      exact List.dropWhile_cons_of_neg (by simp [hc])

theorem episodeTitle_eq_self {name : Text} (hne : name ≠ []) :
    ((((some name).map dotted).filter (· ≠ [])).map stripSceneTags).filter (· ≠ []) = some name ↔
      stripSceneTags (dotted name) = name := by
  by_cases hdotted : dotted name = []
  · have hgone : stripSceneTags [] ≠ name := fun h => hne h.symm
    simp [hdotted, hgone]
  · by_cases hgone : stripSceneTags (dotted name) = []
    · simp [hdotted, hgone, hne.symm]
    · simp [hdotted, Option.filter, hgone]

-- The fixed points of the normalization among placements of clean texts without tags.
theorem normalize_eq_self {placement : Placement} (h : Normal placement) (hnamed : Named placement)
    (htagless : ∀ text ∈ displayTexts placement, Tagless text) :
    normalizePlacement placement = placement ↔
      (∀ text ∈ displayTexts placement, DottedForm text) ∧ Dateless placement := by
  cases h with
  | @Movie title extension year htitle hext =>
      have htag := htagless title (by simp [displayTexts])
      simp [normalizePlacement, stripPlacement, displayTexts, Dateless, trimStart_of_head hext,
        strip_dotted_eq_self htitle, htag]
  | @Episode title extension year season episode last episodeTitle htitle hnames hext =>
      have htag := htagless title (by simp [displayTexts])
      simp only [normalizePlacement, stripPlacement, Placement.episodeTitled, displayTexts, Dateless,
        trimStart_of_head hext, Placement.Episode.injEq, strip_dotted_eq_self htitle, htag]
      cases episodeTitle with
      | none => simp
      | some name =>
          have hne : name ≠ [] := fun hnil => hnamed (by rw [hnil])
          have hclean := hnames name rfl
          have hname := htagless name (by simp [displayTexts])
          rw [episodeTitle_eq_self hne, strip_dotted_eq_self hclean]
          simp [hname]
  | @Track artist album title extension year disc track hartist halbum htitle hext =>
      have hartistTag := htagless artist (by simp [displayTexts])
      have halbumTag := htagless album (by simp [displayTexts])
      have htag := htagless title (by simp [displayTexts])
      simp only [normalizePlacement, stripPlacement, displayTexts, Dateless, trimStart_of_head hext,
        Placement.Track.injEq, strip_dotted_eq_self htitle, strip_dotted_eq_self hartist,
        strip_album_eq_self halbum, hartistTag, halbumTag, htag]
      simp
      tauto

end Normalized

section Render

-- Neither a space nor a scene tag.
def IsPlain : PathSchemaError → Prop
  | .SpaceRefused _ | .LeftoverSceneTag _ => False
  | _ => True

theorem validateDisplayToken_raises {text : Text} (hclean : Clean text) (htagless : Tagless text) :
    Raises IsPlain (validateDisplayToken text) := by
  have hspace : ¬text.any Text.isWhitespace = true := by
    simpa using fun c hc => hclean.not_whitespace hc
  have htag : ¬(Text.split (fun c => c == '.' || c == '-' || c == '_') text).any isSceneTag = true := by
    rw [List.any_eq_true]
    rintro ⟨piece, hpiece, htag⟩
    exact absurd htag (by simp [htagless piece hpiece])
  unfold validateDisplayToken rejectReservedComponent
  rw [if_neg hspace, if_neg htag]
  refine .ite (.throw trivial) ?_
  refine .bind (.ite (.throw trivial) .pure) fun _ => ?_
  exact .ite (.throw trivial) .pure

theorem validateYear_raises (year : Nat) : Raises IsPlain (validateYear year) :=
  .ite .pure (.throw trivial)

theorem validateExtension_raises (extension : Text) :
    Raises IsPlain (validateExtension extension) :=
  .ite (.throw trivial) .pure

theorem Normal.clean {placement : Placement} (h : Normal placement) :
    ∀ text ∈ displayTexts placement, Clean text := by
  cases h with
  | Movie htitle _ => simpa [displayTexts] using htitle
  | Episode htitle hnames _ =>
      intro text htext
      rcases List.mem_cons.mp htext with rfl | htext
      · exact htitle
      · exact hnames text (Option.mem_toList.mp htext)
  | Track hartist halbum htitle _ =>
      simpa [displayTexts] using ⟨hartist, halbum, htitle⟩

theorem renderPlacement_raises {placement : Placement}
    (h : ∀ text ∈ displayTexts placement, Clean text ∧ Tagless text) :
    Raises IsPlain (renderPlacement placement) := by
  have htoken : ∀ text ∈ displayTexts placement, Raises IsPlain (validateDisplayToken text) :=
    fun text htext => validateDisplayToken_raises (h text htext).1 (h text htext).2
  refine .map ?_
  cases placement with
  | Movie title year extension =>
      refine .bind (htoken title (by simp [displayTexts])) fun _ => ?_
      refine .bind (validateYear_raises year) fun _ => ?_
      exact .bind (validateExtension_raises extension) fun _ => .pure
  | Episode title year season episode last episodeTitle extension =>
      refine .bind (htoken title (by simp [displayTexts])) fun _ => ?_
      refine .bind (validateYear_raises year) fun _ => ?_
      refine .bind (validateExtension_raises extension) fun _ => ?_
      refine .ite (.throw trivial) ?_
      split
      · next name hname =>
          have hmem : name ∈ episodeTitle := (Option.mem_filter_iff.mp hname).1
          have hshown : name ∈ title :: episodeTitle.toList :=
            List.mem_cons_of_mem _ (Option.mem_toList.mpr hmem)
          exact .bind (htoken name hshown) fun _ => .pure
      · exact .pure
  | Track artist album year disc track title extension =>
      refine .bind (htoken artist (by simp [displayTexts])) fun _ => ?_
      refine .bind (htoken album (by simp [displayTexts])) fun _ => ?_
      refine .bind (htoken title (by simp [displayTexts])) fun _ => ?_
      refine .bind (validateYear_raises year) fun _ => ?_
      refine .bind (validateExtension_raises extension) fun _ => ?_
      cases track with
      | none =>
          cases disc with
          | none => exact .pure
          | some d => exact .ite (.throw trivial) .pure
      | some n =>
          refine .ite (.throw trivial) ?_
          cases disc with
          | none => exact .pure
          | some d => exact .ite (.throw trivial) .pure

end Render

-- A normalized placement is never refused for a space or a scene tag. It is its own
-- normal form unless the removal of a tag or of one year left something for a
-- second pass.
theorem normalize_projection (placement : Placement) :
    (normalizePlacement (normalizePlacement placement) = normalizePlacement placement ↔
      (∀ text ∈ displayTexts (normalizePlacement placement), DottedForm text) ∧
        Dateless (normalizePlacement placement)) ∧
    ∀ token, renderPlacement (normalizePlacement placement) ≠ .error (.SpaceRefused token) ∧
      renderPlacement (normalizePlacement placement) ≠ .error (.LeftoverSceneTag token) := by
  have hnormal := normal_normalize placement
  have htagless := tagless_normalize placement
  have hraises := renderPlacement_raises fun text htext => ⟨hnormal.clean text htext,
    htagless text htext⟩
  exact ⟨normalize_eq_self hnormal (named_normalize placement) htagless,
    fun token => ⟨hraises _, hraises _⟩⟩

-- A tag behind a space leaves the dot of that space; of two years one is taken.
theorem normalize_twice_differs :
    normalizePlacement (normalizePlacement (.Movie "A -REPACK" 2000 "mkv")) ≠
      normalizePlacement (.Movie "A -REPACK" 2000 "mkv") ∧
    normalizePlacement (normalizePlacement
        (.Track "Artist" "Album (1999) (2000)" 2000 none (some 1) "Song" "flac")) ≠
      normalizePlacement
        (.Track "Artist" "Album (1999) (2000)" 2000 none (some 1) "Song" "flac") := by
  decide +kernel

end Mediaops.PathSchema
