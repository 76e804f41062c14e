import Mediaops.Core.PathSchema.Theorems

namespace Mediaops.PathSchema

open Checks

-- What is known of a placement that `normalize_placement` returned: its texts are
-- clean, though scene tags taken out of them may have left idle dots behind.
inductive Normal : Placement → Prop where
  | Movie {title extension : Text} {year : Nat} (htitle : Clean title)
      (hext : extension.head? ≠ some '.') : Normal (.Movie title year extension)
  | Episode {title extension : Text} {year season episode : Nat} {last : Option Nat}
      {episodeTitle : Option Text} (htitle : Clean title) (hnames : ∀ t ∈ episodeTitle, Clean t)
      (hext : extension.head? ≠ some '.') :
      Normal (.Episode title year season episode last episodeTitle extension)
  | Track {artist album title extension : Text} {year : Nat} {disc track : Option Nat}
      (hartist : Clean artist) (halbum : Clean album) (htitle : Clean title)
      (hext : extension.head? ≠ some '.') :
      Normal (.Track artist album year disc track title extension)

section Normalize

theorem mem_sceneTokens {text : Text} {sep : Option Char} {token : Text}
    (h : (sep, token) ∈ sceneTokens text) : (∀ c ∈ sep, c ∈ text) ∧ ∀ c ∈ token, c ∈ text := by
  induction text generalizing sep token with
  | nil =>
      simp only [sceneTokens, List.mem_singleton, Prod.mk.injEq] at h
      simp [h]
  | cons d rest ih =>
      have hrest : ∀ s t, (s, t) ∈ sceneTokens rest →
          (∀ c ∈ s, c ∈ d :: rest) ∧ ∀ c ∈ t, c ∈ d :: rest := by
        intro s t hmem
        exact ⟨fun c hc => List.mem_cons_of_mem _ ((ih hmem).1 c hc),
          fun c hc => List.mem_cons_of_mem _ ((ih hmem).2 c hc)⟩
      unfold sceneTokens at h
      cases htoks : sceneTokens rest with
      | nil =>
          rw [htoks] at h
          split at h
          · simp only [List.mem_cons, Prod.mk.injEq, List.not_mem_nil, or_false] at h
            rcases h with ⟨rfl, rfl⟩ | ⟨rfl, rfl⟩ <;> simp
          · simp only [List.mem_singleton, Prod.mk.injEq] at h
            obtain ⟨rfl, rfl⟩ := h
            simp
      | cons first toks =>
          obtain ⟨s, t⟩ := first
          rw [htoks] at h hrest
          have hfirst := hrest s t List.mem_cons_self
          split at h
          · simp only [List.mem_cons, Prod.mk.injEq] at h
            rcases h with ⟨rfl, rfl⟩ | ⟨rfl, rfl⟩ | h
            · simp
            · exact ⟨by simp, hfirst.2⟩
            · exact hrest sep token (List.mem_cons_of_mem _ h)
          · simp only [List.mem_cons, Prod.mk.injEq] at h
            rcases h with ⟨rfl, rfl⟩ | h
            · exact ⟨hfirst.1, by simpa using hfirst.2⟩
            · exact hrest sep token (List.mem_cons_of_mem _ h)

theorem mem_stripSceneTags {text : Text} {c : Char} (h : c ∈ stripSceneTags text) : c ∈ text := by
  unfold stripSceneTags at h
  have hkept : ∀ pair ∈ (sceneTokens text).filter (fun token => !isSceneTag token.2),
      pair ∈ sceneTokens text := fun pair hpair => (List.mem_filter.mp hpair).1
  split at h
  · cases h
  · next s first rest hfilter =>
      rw [hfilter] at hkept
      rcases List.mem_append.mp h with h | h
      · exact (mem_sceneTokens (hkept _ List.mem_cons_self)).2 c h
      · obtain ⟨⟨s', token⟩, hpair, hc⟩ := List.mem_flatMap.mp h
        have hfacts := mem_sceneTokens (hkept _ (List.mem_cons_of_mem _ hpair))
        rcases List.mem_append.mp hc with hc | hc
        · exact hfacts.1 c (Option.mem_toList.mp hc)
        · exact hfacts.2 c hc

theorem stripSceneTags_clean {text : Text} (h : Clean text) : Clean (stripSceneTags text) :=
  fun c hc => h c (mem_stripSceneTags hc)

theorem trimStart_head (extension : Text) :
    (Text.trimStartMatches (· == '.') extension).head? ≠ some '.' := by
  intro h
  have := List.head?_dropWhile_not (· == '.') extension
  simp only [Text.trimStartMatches] at h
  rw [h] at this
  simp at this

theorem normal_normalize (placement : Placement) : Normal (normalizePlacement placement) := by
  cases placement with
  | Movie title year extension =>
      exact .Movie (stripSceneTags_clean (clean_dotted title)) (trimStart_head extension)
  | Episode title year season episode last episodeTitle extension =>
      refine .Episode (stripSceneTags_clean (clean_dotted title)) (fun t ht => ?_)
        (trimStart_head extension)
      obtain ⟨ht, -⟩ := Option.mem_filter_iff.mp ht
      obtain ⟨name, hname, rfl⟩ := Option.map_eq_some_iff.mp ht
      obtain ⟨hname, -⟩ := Option.mem_filter_iff.mp hname
      obtain ⟨source, -, rfl⟩ := Option.map_eq_some_iff.mp hname
      exact stripSceneTags_clean (clean_dotted source)
  | Track artist album year disc track title extension =>
      exact .Track (stripSceneTags_clean (clean_dotted artist))
        (stripSceneTags_clean (clean_dotted _)) (stripSceneTags_clean (clean_dotted title))
        (trimStart_head extension)

end Normalize

section Keys

variable [UnicodeTables]

theorem titleKey_joinWith (pieces : List Text) :
    titleKey (Text.joinWith '.' pieces) = pieces.flatMap titleKey := by
  have hdot : titleKeyChar '.' = [] := rfl
  induction pieces with
  | nil => rfl
  | cons piece rest ih =>
      by_cases hrest : rest = []
      · subst hrest
        simp [Text.joinWith]
      · rw [Text.joinWith_cons _ _ hrest, List.flatMap_cons, ← ih]
        simp [titleKey, hdot]

theorem titleKey_dotted {text : Text} (h : Clean text) : titleKey (dotted text) = titleKey text := by
  conv_rhs => rw [← Text.joinWith_split '.' text]
  rw [dotted_clean h, titleKey_joinWith, titleKey_joinWith, tokens]
  induction Text.split (· == '.') text with
  | nil => rfl
  | cons piece pieces ih =>
      by_cases hp : piece = []
      · subst hp
        simpa [titleKey] using ih
      · simp only [ne_eq, hp, not_false_eq_true, decide_true, List.filter_cons_of_pos,
          List.flatMap_cons]
        exact congrArg _ ih

theorem dotted_ne_nil_of_key {text : Text} (hclean : Clean text) (h : titleKey text ≠ []) :
    dotted text ≠ [] := by
  intro hnil
  rw [← titleKey_dotted hclean, hnil] at h
  exact h rfl

-- A key has two parts, and neither is empty.
theorem key_parts {kind : TitleKind} {left right : Text} {id : TitleId}
    (h : TitleId.fromParts kind .Key (left ++ ".".toList ++ right) = .ok id) :
    left ≠ [] ∧ right ≠ [] := by
  have hvalid : validId .Key (left ++ ".".toList ++ right) = true := by
    unfold TitleId.fromParts at h
    split at h
    · split at h
      · next hident => exact hident
      · cases h
    · cases h
  have hsegments : ∀ segment ∈ Text.split (· == '.') (left ++ '.' :: right), segment ≠ [] := by
    simp only [validId, Bool.and_eq_true, isKeyId, List.all_eq_true] at hvalid
    have hall := hvalid.2
    rw [List.append_assoc] at hall
    intro segment hsegment
    simpa using (hall segment hsegment).1
  rw [Text.split_append (by simp)] at hsegments
  constructor
  · rintro rfl
    exact hsegments [] (by simp [Text.split]) rfl
  · rintro rfl
    exact hsegments [] (by simp [Text.split]) rfl

omit [UnicodeTables] in
theorem stripTrailingYear_subset {text : Text} {c : Char} (h : c ∈ stripTrailingYear text) :
    c ∈ text := by
  obtain ⟨rest, hrest⟩ := Text.trimEndMatches_prefix Text.isWhitespace text
  have htrim : ∀ d ∈ Text.trimEndMatches Text.isWhitespace text, d ∈ text := by
    intro d hd
    rw [hrest]
    exact List.mem_append_left _ hd
  unfold stripTrailingYear at h
  dsimp only at h
  split at h
  · exact htrim c h
  · next before inner hsplit =>
      split at h
      · obtain ⟨tail, hbefore⟩ :=
          Text.trimEndMatches_prefix (fun c => c == '.' || c == ' ') before
        refine htrim c ?_
        rw [(Text.rsplitOnce_some hsplit).1, hbefore]
        exact List.mem_append_left _ (List.mem_append_left _ h)
      · exact htrim c h

theorem Placement.keyTitleId_ok {placement : Placement} {id : TitleId}
    (h : placement.keyTitleId = .ok id) :
    match placement with
    | .Movie title _ _ | .Episode title _ _ _ _ _ _ => titleKey title ≠ []
    | .Track artist album _ _ _ _ _ =>
        titleKey artist ≠ [] ∧ titleKey (stripTrailingYear album) ≠ [] := by
  cases placement with
  | Movie title year extension => exact (key_parts (mapError_ok h)).1
  | Episode title year season episode last episodeTitle extension =>
      exact (key_parts (mapError_ok h)).1
  | Track artist album year disc track title extension => exact key_parts (mapError_ok h)

-- An album whose key is not empty is not made of dots.
theorem dotted_album_ne_nil {album : Text} (hclean : Clean album)
    (h : titleKey (stripTrailingYear album) ≠ []) : dotted album ≠ [] := by
  intro hnil
  have hdots := (dotted_eq_nil hclean).mp hnil
  apply h
  have hall : ∀ c ∈ stripTrailingYear album, titleKeyChar c = [] := by
    intro c hc
    rw [dot_of_tokens_nil hdots (stripTrailingYear_subset hc)]
    rfl
  exact List.flatMap_eq_nil_iff.mpr hall

end Keys

section Tokens

-- Trimming separators off the ends leaves no piece that was not there.
theorem mem_split_trimStart {separator drop : Char → Bool} {text piece : Text}
    (hsub : ∀ c ∈ text, drop c = true → separator c = true)
    (h : piece ∈ Text.split separator (Text.trimStartMatches drop text)) :
    piece ∈ Text.split separator text := by
  induction text with
  | nil => exact h
  | cons c rest ih =>
      by_cases hc : drop c = true
      · have hsep := hsub c List.mem_cons_self hc
        rw [Text.trimStartMatches, List.dropWhile_cons_of_pos hc] at h
        rw [Text.split, if_pos hsep]
        exact List.mem_cons_of_mem _ (ih (fun d hd => hsub d (List.mem_cons_of_mem _ hd)) h)
      · rwa [Text.trimStartMatches, List.dropWhile_cons_of_neg hc] at h

theorem mem_split_trimEnd {separator drop : Char → Bool} {text piece : Text}
    (hsub : ∀ c ∈ text, drop c = true → separator c = true)
    (h : piece ∈ Text.split separator (Text.trimEndMatches drop text)) :
    piece ∈ Text.split separator text := by
  induction text using List.reverseRecOn with
  | nil => exact h
  | append_singleton rest c ih =>
      by_cases hc : drop c = true
      · have hsep := hsub c (by simp) hc
        rw [Text.trimEndMatches, List.rdropWhile_concat_pos _ _ _ hc] at h
        rw [Text.split_append hsep]
        exact List.mem_append_left _ (ih (fun d hd => hsub d (by simp [hd])) h)
      · rwa [Text.trimEndMatches, List.rdropWhile_concat_neg _ _ _ hc] at h

theorem DisplayToken.of_join {token : Text} (h : DisplayToken token) {toks : List Text}
    (hne : toks ≠ []) (hnil : ∀ t ∈ toks, t ≠ []) (hfree : ∀ t ∈ toks, '.' ∉ t)
    (hsub : ∀ t ∈ toks, ∀ c ∈ t, c ∈ token)
    (hpieces : ∀ t ∈ toks, ∀ piece ∈ Text.split isTagSeparator t,
      piece ∈ Text.split isTagSeparator token) : DisplayToken (Text.joinWith '.' toks) := by
  have hmem : ∀ c : Char, c ≠ '.' → c ∉ token → c ∉ Text.joinWith '.' toks := by
    intro c hdot hc hjoin
    rcases Text.mem_joinWith hjoin with rfl | ⟨t, ht, htc⟩
    · exact hdot rfl
    · exact hc (hsub t ht c htc)
  have hnot : ∀ other : Text, tokens other = [] → Text.joinWith '.' toks ≠ other := by
    intro other hother heq
    rw [← heq, tokens_join hnil hfree] at hother
    exact hne hother
  exact {
    ne := fun heq => hne ((Text.joinWith_eq_nil hnil).mp heq)
    plain := fun c hc => by
      rcases Text.mem_joinWith hc with rfl | ⟨t, ht, htc⟩
      · decide
      · exact h.plain c (hsub t ht c htc)
    noNul := hmem _ (by decide) h.noNul
    notDot := hnot _ (by decide)
    notDots := hnot _ (by decide)
    untagged := fun piece hpiece => by
      obtain ⟨t, ht, hpiece⟩ := (mem_split_dots hne).mp hpiece
      exact h.untagged piece (hpieces t ht piece hpiece)
    noSlash := hmem _ (by decide) h.noSlash
    noBackslash := hmem _ (by decide) h.noBackslash
    noOpen := hmem _ (by decide) h.noOpen
    noClose := hmem _ (by decide) h.noClose }

theorem DisplayToken.cut {token : Text} (h : DisplayToken token) :
    DisplayToken ((cutAtStopToken token).getD token) := by
  cases hcut : cutAtStopToken token with
  | none => exact h
  | some title =>
      obtain ⟨toks, hne, hsub, rfl⟩ := cutAtStopToken_some hcut
      have hedge : ∀ c ∈ token, isEdge c = true → isTagSeparator c = true := by
        intro c hc hedge
        have hspace : c ≠ ' ' := by
          rintro rfl
          exact absurd (h.plain _ hc) (by decide)
        simp only [isEdge, Bool.or_eq_true, beq_iff_eq, hspace, or_false] at hedge
        rcases hedge with rfl | rfl <;> rfl
      have hstart : ∀ c ∈ Text.trimStartMatches isEdge token, isEdge c = true →
          isTagSeparator c = true :=
        fun c hc => hedge c ((List.dropWhile_sublist isEdge).subset hc)
      refine h.of_join hne (fun t ht => ne_nil_of_mem_tokens (hsub ht))
        (fun t ht => free_of_mem_tokens (hsub ht))
        (fun t ht c hc => trimMatches_subset (mem_of_mem_tokens (hsub ht) hc))
        (fun t ht piece hpiece => ?_)
      refine mem_split_trimStart hedge (mem_split_trimEnd hstart ?_)
      rw [← Text.joinWith_split '.' (Text.trimEndMatches isEdge (Text.trimStartMatches isEdge token)),
        mem_split_dots (Text.split_ne_nil _ _)]
      exact ⟨t, (List.mem_filter.mp (hsub ht)).1, hpiece⟩

theorem DisplayToken.folder {title : Text} (h : DisplayToken title) (year : Nat) :
    DisplayToken (folderName title year) := by
  have hgroup : ∀ c : Char, c ≠ '(' → c ≠ ')' → c.isDigit = false → c ∉ yearGroup year := by
    intro c hopen hclose hdigit hmem
    rcases mem_yearGroup hmem with rfl | rfl | hd
    · exact hopen rfl
    · exact hclose rfl
    · rw [hdigit] at hd
      cases hd
  have hmem : ∀ c : Char, c ≠ '.' → c ∉ title → c ∉ yearGroup year → c ∉ folderName title year := by
    intro c hdot htitle hyear hfolder
    rw [folderName_eq, List.mem_append, List.mem_cons] at hfolder
    rcases hfolder with hc | hc | hc
    · exact htitle hc
    · exact hdot hc
    · exact hyear hc
  have hopen := folderName_open title year
  exact {
    ne := folderName_ne_nil title year
    plain := fun c hc => by
      rw [folderName_eq, List.mem_append, List.mem_cons] at hc
      rcases hc with hc | rfl | hc
      · exact h.plain c hc
      · decide
      · exact (yearGroup_clean year).not_whitespace hc
    noNul := hmem _ (by decide) h.noNul (hgroup _ (by decide) (by decide) (by decide))
    notDot := fun heq => by rw [heq] at hopen; exact absurd hopen (by decide)
    notDots := fun heq => by rw [heq] at hopen; exact absurd hopen (by decide)
    untagged := fun piece hpiece => by
      rw [folderName_eq, Text.split_append (by decide), List.mem_append] at hpiece
      rcases hpiece with hpiece | hpiece
      · exact h.untagged piece hpiece
      · have hsame : Text.split (fun c => c == '.' || c == '-' || c == '_' || c == ' ')
            (yearGroup year) = Text.split isTagSeparator (yearGroup year) :=
          Text.split_congr fun c hc => by
            have hspace : (c == ' ') = false := by
              rw [beq_eq_false_iff_ne]
              rintro rfl
              exact hgroup ' ' (by decide) (by decide) (by decide) hc
            simp [isTagSeparator, hspace]
        rw [← hsame] at hpiece
        exact yearGroup_untagged year piece hpiece
    noSlash := hmem _ (by decide) h.noSlash (hgroup _ (by decide) (by decide) (by decide))
    noBackslash := hmem _ (by decide) h.noBackslash (hgroup _ (by decide) (by decide) (by decide))
    noOpen := hmem _ (by decide) h.noOpen (hgroup _ (by decide) (by decide) (by decide))
    noClose := hmem _ (by decide) h.noClose (hgroup _ (by decide) (by decide) (by decide)) }

end Tokens

section Recognised

variable [UnicodeTables]

-- The placement with the dots of its texts in order, as the parser sees it.
def dottedPlacement : Placement → Placement
  | .Movie title year extension => .Movie (dotted title) year extension
  | .Episode title year season episode last episodeTitle extension =>
      .Episode (dotted title) year season episode last episodeTitle extension
  | .Track artist album year disc track title extension =>
      .Track (dotted artist) (dotted album) year disc track title extension

-- The texts do not hide which file of the title this is.
def KeepsFileKey : Placement → Bool
  | .Movie .. => true
  | .Episode title _ season episode _ _ _ =>
      match episodeTag (dotted title) with
      | none => true
      | some (s, e, _, _) => s = season && e = episode
  | .Track _ _ _ _ (some _) title _ => dotted title ≠ []
  | .Track _ album year _ none title _ =>
      !leadsNumber (if dotted title = [] then folderName (dotted album) year else dotted title)

structure Recognised (placement : Placement) : Prop where
  key : ∃ id, placement.keyTitleId = .ok id ∧ (dottedPlacement placement).keyTitleId = .ok id
  extension : isSceneTag (extensionOf placement) = false
  fileKey : KeepsFileKey placement = true

-- What a Job needs of its path: it parses to the title and the file of the placement.
def ParsesBack (placement : Placement) (path : Text) : Prop :=
  ∃ id parsed, parsePlacement path = .ok (id, parsed) ∧ placement.keyTitleId = .ok id ∧
    parsed.fileKey = placement.fileKey

omit [UnicodeTables] in
theorem isSceneTag_extension {extension ext : Text} (hhead : extension.head? ≠ some '.')
    (h : validateExtension extension = .ok ext) : isSceneTag ext = isSceneTag extension := by
  have hstrip : Text.stripPrefix ".".toList extension = none := by
    refine if_neg ?_
    rintro ⟨rest, hrest⟩
    exact hhead (by rw [← hrest]; rfl)
  have hlower := (validateExtension_ok h).2
  rw [hstrip, Option.getD_none] at hlower
  simp only [isSceneTag, Text.eqIgnoreAsciiCase, hlower, toAsciiLowercase_idem]

-- What is left to show of a kind: what the parser makes of a path without a scene tag.
theorem recognised_of_read {placement : Placement} {path : Text}
    (hread : ∀ id, placement.keyTitleId = .ok id → ∃ result,
      parsePlacement path =
        (if isSceneTag (extensionOf placement) then .error (.LeftoverSceneTag path) else result) ∧
      ((∃ parsed, result = .ok (id, parsed) ∧ parsed.fileKey = placement.fileKey) ↔
        (dottedPlacement placement).keyTitleId = .ok id ∧ KeepsFileKey placement = true)) :
    ParsesBack placement path ↔ Recognised placement := by
  constructor
  · rintro ⟨id, parsed, hparsed, hkey, hfile⟩
    obtain ⟨result, hparse, hiff⟩ := hread id hkey
    rw [hparse] at hparsed
    split at hparsed
    · cases hparsed
    · next hscene =>
        obtain ⟨hdotted, hkeeps⟩ := hiff.mp ⟨parsed, hparsed, hfile⟩
        exact ⟨⟨id, hkey, hdotted⟩, by simpa using hscene, hkeeps⟩
  · rintro ⟨⟨id, hkey, hdotted⟩, hscene, hkeeps⟩
    obtain ⟨result, hparse, hiff⟩ := hread id hkey
    obtain ⟨parsed, hresult, hfile⟩ := hiff.mpr ⟨hdotted, hkeeps⟩
    rw [hscene, if_neg (by decide), hresult] at hparse
    exact ⟨id, parsed, hparse, hkey, hfile⟩

theorem movie_recognised {title extension path : Text} {year : Nat} (htitle : Clean title)
    (hext : extension.head? ≠ some '.')
    (hrender : renderPlacement (.Movie title year extension) = .ok path) :
    ParsesBack (.Movie title year extension) path ↔ Recognised (.Movie title year extension) := by
  refine recognised_of_read fun id hkey => ?_
  obtain ⟨ext, hvalid, hparse⟩ := parse_movie hrender htitle
    (dotted_ne_nil_of_key htitle (Placement.keyTitleId_ok hkey))
  rw [isSceneTag_extension hext hvalid] at hparse
  refine ⟨_, hparse, ?_⟩
  have hdotted : TitleId.movieKey (dotted title) year = .ok id := by
    rw [TitleId.movieKey, titleKey_dotted htitle]
    exact mapError_ok hkey
  constructor
  · intro _
    exact ⟨mapError_ok_iff.mpr hdotted, rfl⟩
  · intro _
    exact ⟨_, keyed_ok.mpr ⟨mapError_ok_iff.mpr hdotted, rfl⟩, rfl⟩

theorem episode_recognised {title extension path : Text} {year season episode : Nat}
    {last : Option Nat} {episodeTitle : Option Text} (htitle : Clean title)
    (hnames : ∀ t ∈ episodeTitle, Clean t) (hext : extension.head? ≠ some '.')
    (hrender : renderPlacement (.Episode title year season episode last episodeTitle extension) =
      .ok path) :
    ParsesBack (.Episode title year season episode last episodeTitle extension) path ↔
      Recognised (.Episode title year season episode last episodeTitle extension) := by
  refine recognised_of_read fun id hkey => ?_
  obtain ⟨ext, hvalid, hparse⟩ := parse_episode hrender htitle
    (dotted_ne_nil_of_key htitle (Placement.keyTitleId_ok hkey)) hnames
  rw [isSceneTag_extension hext hvalid] at hparse
  refine ⟨_, hparse, ?_⟩
  have hdotted : TitleId.seriesKey (dotted title) year = .ok id := by
    rw [TitleId.seriesKey, titleKey_dotted htitle]
    exact mapError_ok hkey
  have hkeeps : KeepsFileKey (.Episode title year season episode last episodeTitle extension) =
      true ↔
      (foundTag (dotted title) year season episode last (titleSuffix (episodeTitle.map dotted))).1 =
        season ∧
      (foundTag (dotted title) year season episode last (titleSuffix (episodeTitle.map dotted))).2.1 =
        episode := by
    cases htag : episodeTag (dotted title) with
    | none => simp [KeepsFileKey, foundTag, htag]
    | some found => simp [KeepsFileKey, foundTag, htag]
  rw [hkeeps]
  generalize foundTag (dotted title) year season episode last
    (titleSuffix (episodeTitle.map dotted)) = found
  constructor
  · rintro ⟨parsed, hresult, hfile⟩
    refine ⟨mapError_ok_iff.mpr hdotted, ?_⟩
    split at hresult
    · cases hresult
    · have hsame := (keyed_ok.mp hresult).2
      rw [← hsame] at hfile
      simpa [Placement.fileKey, Placement.episodeTitled] using hfile
  · rintro ⟨-, hseason, hepisode⟩
    rw [if_neg (by simp [hseason])]
    refine ⟨_, keyed_ok.mpr ⟨mapError_ok_iff.mpr hdotted, rfl⟩, ?_⟩
    rw [hseason, hepisode]
    rfl

theorem track_recognised {artist album title extension path : Text} {year : Nat}
    {disc track : Option Nat} (hartist : Clean artist) (halbum : Clean album) (htitle : Clean title)
    (hext : extension.head? ≠ some '.')
    (hrender : renderPlacement (.Track artist album year disc track title extension) = .ok path) :
    ParsesBack (.Track artist album year disc track title extension) path ↔
      Recognised (.Track artist album year disc track title extension) := by
  refine recognised_of_read fun id hkey => ?_
  obtain ⟨hartistKey, halbumKey⟩ := Placement.keyTitleId_ok hkey
  obtain ⟨comps, hcomps, -⟩ := renderPlacement_ok hrender
  obtain ⟨-, halbumToken, htitleToken, -, htrack, -⟩ := render_track hcomps
  have halbumNe := dotted_album_ne_nil halbum halbumKey
  obtain ⟨ext, hvalid, hparse⟩ := parse_track hrender hartist
    (dotted_ne_nil_of_key hartist hartistKey) halbum halbumNe htitle
  rw [isSceneTag_extension hext hvalid] at hparse
  refine ⟨_, hparse, ?_⟩
  constructor
  · rintro ⟨parsed, hresult, hfile⟩
    obtain ⟨placement, hplacement, hkeyed⟩ := bind_ok hresult
    obtain ⟨⟨track', title'⟩, hread, hfinish⟩ := bind_ok hplacement
    obtain ⟨hdotted, rfl⟩ := keyed_ok.mp hkeyed
    rw [finishTrack_ok hfinish] at hfile hdotted
    refine ⟨mapError_ok_iff.mpr (mapError_ok hdotted), ?_⟩
    cases track with
    | some n =>
        simp only [KeepsFileKey, ne_eq, decide_not, Bool.not_eq_true', decide_eq_false_iff_not]
        intro hdots
        have hrest : remainder album year (some n) title = Text.decimal02 n := by
          unfold remainder
          rw [if_pos hdots]
        have hplain : leadsNumber (Text.decimal02 n) = false := by
          rw [leadsNumber, Text.splitOnce_of_free (decimal02_free n)]
        rw [hrest, splitTrack_leads hplain] at hread
        cases hread
        cases hfile
    | none =>
        have hrest : remainder album year none title =
            if dotted title = [] then folderName (dotted album) year else dotted title := rfl
        simp only [KeepsFileKey, Bool.not_eq_true']
        by_contra hleads
        rw [Bool.not_eq_false] at hleads
        rw [hrest] at hread
        have hsome := splitTrack_number hleads hread
        obtain ⟨n, rfl⟩ := Option.isSome_iff_exists.mp hsome
        cases hfile
  · rintro ⟨hdotted, hkeeps⟩
    have halbumId : TitleId.albumKey (dotted artist) (dotted album) = .ok id := mapError_ok hdotted
    cases track with
    | some n =>
        have hne : dotted title ≠ [] := by simpa [KeepsFileKey] using hkeeps
        have hrest : remainder album year (some n) title =
            Text.decimal02 n ++ '.' :: dotted title := by
          unfold remainder
          rw [if_neg hne]
          simp [trackNumber]
        have htoken := (htitleToken.dotted htitle hne).cut
        rw [hrest, splitTrack_decimal02 (htrack n rfl).2]
        simp only [bind, Except.bind, finishTrack_eq htoken htrack]
        exact ⟨_, keyed_ok.mpr ⟨mapError_ok_iff.mpr halbumId, rfl⟩, rfl⟩
    | none =>
        have hrest : remainder album year none title =
            if dotted title = [] then folderName (dotted album) year else dotted title := rfl
        have hplain : leadsNumber (remainder album year none title) = false := by
          rw [hrest]
          simpa [KeepsFileKey] using hkeeps
        have htoken : DisplayToken (remainder album year none title) := by
          rw [hrest]
          split
          · exact (halbumToken.dotted halbum halbumNe).folder year
          · next hne => exact htitleToken.dotted htitle hne
        rw [splitTrack_leads hplain]
        simp only [bind, Except.bind, finishTrack_eq htoken.cut htrack]
        exact ⟨_, keyed_ok.mpr ⟨mapError_ok_iff.mpr halbumId, rfl⟩, rfl⟩

-- A normalised placement that renders is recognised again exactly when its key
-- survives the dots, its extension is no scene tag and its texts hide no number.
theorem recognised_iff {placement : Placement} {path : Text}
    (h : renderPlacement (normalizePlacement placement) = .ok path) :
    ParsesBack (normalizePlacement placement) path ↔ Recognised (normalizePlacement placement) := by
  have hnormal := normal_normalize placement
  generalize normalizePlacement placement = normalized at h hnormal
  cases hnormal with
  | Movie htitle hext => exact movie_recognised htitle hext h
  | Episode htitle hnames hext => exact episode_recognised htitle hnames hext h
  | Track hartist halbum htitle hext => exact track_recognised hartist halbum htitle hext h

end Recognised

-- A film is recognised with its extension's dot gone.
example :
    let := UnicodeTables.ascii
    (parsePlacement "movies/Up.(2009)/Up.(2009).mkv").map Prod.snd =
      .ok (normalizePlacement (.Movie "Up" 2009 ".mkv")) := by decide +kernel

namespace Sample

def problems (track : Option Nat) : Placement :=
  .Track "Jay-Z" "The Black Album" 2003 none track "99 Problems" ".flac"

def album : @TitleId UnicodeTables.ascii :=
  @TitleId.mk UnicodeTables.ascii .Album .Key "jayz.theblackalbum" album_pair (by decide) (by simp)

end Sample

theorem recognised_problems :
    let := UnicodeTables.ascii
    renderPlacement (normalizePlacement (Sample.problems (some 8))) =
        .ok "music/Jay-Z/The.Black.Album.(2003)/The.Black.Album.(2003).08.99.Problems.flac".toList ∧
      ParsesBack (normalizePlacement (Sample.problems (some 8)))
        "music/Jay-Z/The.Black.Album.(2003)/The.Black.Album.(2003).08.99.Problems.flac" := by
  intro tables
  have hrender : renderPlacement (normalizePlacement (Sample.problems (some 8))) =
      .ok "music/Jay-Z/The.Black.Album.(2003)/The.Black.Album.(2003).08.99.Problems.flac".toList := by
    decide +kernel
  have hkey : @Placement.keyTitleId UnicodeTables.ascii
        (normalizePlacement (Sample.problems (some 8))) = .ok Sample.album ∧
      @Placement.keyTitleId UnicodeTables.ascii
        (dottedPlacement (normalizePlacement (Sample.problems (some 8)))) = .ok Sample.album := by
    clear tables
    decide +kernel
  refine ⟨hrender, (recognised_iff hrender).mpr ⟨?_, ?_, ?_⟩⟩
  · exact ⟨Sample.album, hkey⟩
  · decide +kernel
  · decide +kernel

-- Without its number the track takes the one its title starts with.
theorem unnumbered_problems :
    let := UnicodeTables.ascii
    ∃ path, renderPlacement (normalizePlacement (Sample.problems none)) = .ok path ∧
      ¬ParsesBack (normalizePlacement (Sample.problems none)) path := by
  intro tables
  have hrender : renderPlacement (normalizePlacement (Sample.problems none)) =
      .ok "music/Jay-Z/The.Black.Album.(2003)/The.Black.Album.(2003).99.Problems.flac".toList := by
    decide +kernel
  have hreparse : @parsePlacement UnicodeTables.ascii
      "music/Jay-Z/The.Black.Album.(2003)/The.Black.Album.(2003).99.Problems.flac" =
      .ok (Sample.album, .Track "Jay-Z" "The.Black.Album" 2003 none (some 99) "Problems" "flac") := by
    clear tables
    decide +kernel
  refine ⟨_, hrender, ?_⟩
  rintro ⟨id, parsed, hparsed, -, hfile⟩
  have hsame := hreparse.symm.trans hparsed
  simp only [Except.ok.injEq, Prod.mk.injEq] at hsame
  rw [← hsame.2] at hfile
  have hwhole : (normalizePlacement (Sample.problems none)).fileKey = .Whole := by decide +kernel
  rw [hwhole] at hfile
  cases hfile

end Mediaops.PathSchema
