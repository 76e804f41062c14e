import Mediaops.Core.PathSchema.Dotted
import Mediaops.Library.Checks

namespace Mediaops.PathSchema

open Checks

def isTagSeparator (c : Char) : Bool := c == '.' || c == '-' || c == '_'

-- What `validate_display_token` asks of a token.
structure DisplayToken (token : Text) : Prop where
  ne : token ≠ []
  plain : ∀ c ∈ token, Text.isWhitespace c = false
  noNul : '\x00' ∉ token
  notDot : token ≠ ".".toList
  notDots : token ≠ "..".toList
  untagged : ∀ piece ∈ Text.split isTagSeparator token, isSceneTag piece = false
  noSlash : '/' ∉ token
  noBackslash : '\\' ∉ token
  noOpen : '{' ∉ token
  noClose : '}' ∉ token

structure IsExtension (extension : Text) : Prop where
  ne : extension ≠ []
  alphanum : ∀ c ∈ extension, c.isAlphanum = true
  lower : Text.toAsciiLowercase extension = extension

section Checks

theorem validateDisplayToken_ok {token result : Text} (h : validateDisplayToken token = .ok result) :
    result = token ∧ DisplayToken token := by
  unfold validateDisplayToken at h
  obtain ⟨hne, h⟩ := guard_ok h
  obtain ⟨hplain, h⟩ := guard_ok h
  obtain ⟨hreserved, h⟩ := seq_ok h
  obtain ⟨huntagged, h⟩ := guard_ok h
  obtain ⟨hfree, h⟩ := guard_ok h
  obtain ⟨hcomponent, -⟩ := ite_ok hreserved
  simp only [not_or] at hcomponent hfree
  cases h
  refine ⟨rfl, hne, ?_, hcomponent.1, hcomponent.2.1, hcomponent.2.2, ?_, hfree.1, hfree.2.1,
    hfree.2.2.1, hfree.2.2.2⟩
  · simpa using hplain
  · intro piece hpiece
    simp only [List.any_eq_true, not_exists, not_and, Bool.not_eq_true] at huntagged
    exact huntagged piece hpiece

theorem DisplayToken.validate {token : Text} (h : DisplayToken token) :
    validateDisplayToken token = .ok token := by
  have hplain : token.any Text.isWhitespace = false := by simpa using h.plain
  have huntagged : (Text.split (fun c => c == '.' || c == '-' || c == '_') token).any isSceneTag =
      false := by
    rw [List.any_eq_false]
    intro piece hpiece
    simp [h.untagged piece hpiece]
  have hreserved : rejectReservedComponent token = .ok () :=
    if_neg (by simp only [not_or]; exact ⟨h.noNul, h.notDot, h.notDots⟩)
  simp only [validateDisplayToken, h.ne, hplain, hreserved, huntagged, h.noSlash, h.noBackslash,
    h.noOpen, h.noClose, Bool.false_eq_true, or_self, if_false]
  rfl

theorem validateYear_ok {year result : Nat} (h : validateYear year = .ok result) :
    result = year ∧ 1000 ≤ year ∧ year ≤ 9999 := by
  unfold validateYear at h
  split at h
  · next hyear => cases h; exact ⟨rfl, hyear⟩
  · cases h

theorem toLower_alphanum {c : Char} (h : c.isAlphanum = true) : c.toLower.isAlphanum = true := by
  rw [Text.isAlphanum_iff] at h ⊢
  rw [Text.toNat_toLower]
  split <;> omega

theorem validateExtension_ok {extension result : Text} (h : validateExtension extension = .ok result) :
    IsExtension result ∧
      result = Text.toAsciiLowercase ((Text.stripPrefix ".".toList extension).getD extension) := by
  obtain ⟨hcheck, h⟩ := ite_ok h
  simp only [not_or, Bool.not_eq_true', Bool.not_eq_false, List.all_eq_true] at hcheck
  cases h
  refine ⟨⟨?_, ?_, toAsciiLowercase_idem _⟩, rfl⟩
  · simpa [Text.toAsciiLowercase] using hcheck.1
  · intro c hc
    obtain ⟨d, hd, rfl⟩ := List.mem_map.mp hc
    exact toLower_alphanum (hcheck.2 d hd)

theorem IsExtension.validate {extension : Text} (h : IsExtension extension) :
    validateExtension extension = .ok extension := by
  have hstrip : Text.stripPrefix ".".toList extension = none := by
    refine if_neg ?_
    rintro ⟨rest, hrest⟩
    have := h.alphanum '.' (by rw [← hrest]; simp)
    exact absurd this (by decide)
  have hall : extension.all Char.isAlphanum = true := by simpa using h.alphanum
  simp only [validateExtension, hstrip, Option.getD_none, h.ne, hall, h.lower, Bool.not_true,
    Bool.false_eq_true, or_self, if_false]
  rfl

theorem IsExtension.free {extension : Text} (h : IsExtension extension) {c : Char}
    (hc : c.isAlphanum = false) : c ∉ extension := by
  intro hmem
  rw [h.alphanum c hmem] at hc
  cases hc

end Checks

section Inversion

theorem render_movie {title extension : Text} {year : Nat} {comps : List Text}
    (h : renderComponents (.Movie title year extension) = .ok comps) :
    DisplayToken title ∧ (1000 ≤ year ∧ year ≤ 9999) ∧ ∃ ext,
      validateExtension extension = .ok ext ∧
      comps = ["movies".toList, folderName title year,
        folderName title year ++ ".".toList ++ ext] := by
  obtain ⟨t, htitle, hrest⟩ := bind_ok h
  obtain ⟨y, hyear, hrest⟩ := bind_ok hrest
  obtain ⟨ext, hext, hrest⟩ := bind_ok hrest
  obtain ⟨ht, htoken⟩ := validateDisplayToken_ok htitle
  obtain ⟨hy, hbounds⟩ := validateYear_ok hyear
  cases hrest
  rw [ht, hy]
  exact ⟨htoken, hbounds, ext, hext, rfl⟩

-- What follows the episode tag in the stem.
def titleSuffix (episodeTitle : Option Text) : Text :=
  match episodeTitle.filter (· ≠ []) with
  | some title => '.' :: title
  | none => []

theorem titleSuffix_nil : titleSuffix (some []) = [] := rfl

theorem titleSuffix_some {title : Text} (h : title ≠ []) : titleSuffix (some title) = '.' :: title := by
  have hkept : (some title).filter (· ≠ []) = some title := by simp [Option.filter, h]
  unfold titleSuffix
  rw [hkept]

theorem render_episode {title extension : Text} {year season episode : Nat}
    {episodeEnd : Option Nat} {episodeTitle : Option Text} {comps : List Text}
    (h : renderComponents (.Episode title year season episode episodeEnd episodeTitle extension) =
      .ok comps) :
    DisplayToken title ∧ (1000 ≤ year ∧ year ≤ 9999) ∧
      (season ≤ 99 ∧ episode ≤ 999 ∧ ∀ last ∈ episodeEnd, last ≤ 999) ∧
      (∀ t ∈ episodeTitle.filter (· ≠ []), DisplayToken t) ∧ ∃ ext,
      validateExtension extension = .ok ext ∧
      comps = ["series".toList, folderName title year, "Season.".toList ++ Text.decimal02 season,
        folderName title year ++ ".".toList ++ renderEpisodeTag season episode episodeEnd ++
          titleSuffix episodeTitle ++ ".".toList ++ ext] := by
  obtain ⟨t, htitle, hrest⟩ := bind_ok h
  obtain ⟨y, hyear, hrest⟩ := bind_ok hrest
  obtain ⟨ext, hext, hrest⟩ := bind_ok hrest
  obtain ⟨hrange, hrest⟩ := guard_ok hrest
  obtain ⟨ht, htoken⟩ := validateDisplayToken_ok htitle
  obtain ⟨hy, hbounds⟩ := validateYear_ok hyear
  rw [ht, hy] at hrest
  simp only [not_or, not_lt] at hrange
  have hlast : ∀ last ∈ episodeEnd, last ≤ 999 := by
    intro last hmem
    rw [Option.mem_def.mp hmem] at hrange
    simpa using hrange.2.2
  unfold titleSuffix
  cases hname : episodeTitle.filter (· ≠ []) with
  | none =>
      rw [hname] at hrest
      cases hrest
      exact ⟨htoken, hbounds, ⟨hrange.1, hrange.2.1, hlast⟩, by simp, ext, hext, by simp⟩
  | some name =>
      rw [hname] at hrest
      obtain ⟨n, hn, hrest⟩ := bind_ok hrest
      obtain ⟨hn, hnamed⟩ := validateDisplayToken_ok hn
      rw [hn] at hrest
      cases hrest
      exact ⟨htoken, hbounds, ⟨hrange.1, hrange.2.1, hlast⟩, by simpa using hnamed, ext, hext,
        by simp⟩

def discFolder (disc : Option Nat) : List Text :=
  (disc.map fun d => "Disc.".toList ++ Text.decimal02 d).toList

def trackNumber : Option Nat → Text
  | some n => Text.decimal02 n ++ ".".toList
  | none => []

theorem render_track {artist album title extension : Text} {year : Nat} {disc track : Option Nat}
    {comps : List Text}
    (h : renderComponents (.Track artist album year disc track title extension) = .ok comps) :
    DisplayToken artist ∧ DisplayToken album ∧ DisplayToken title ∧
      (1000 ≤ year ∧ year ≤ 9999) ∧ (∀ n ∈ track, 1 ≤ n ∧ n ≤ 99) ∧
      (∀ d ∈ disc, 1 ≤ d ∧ d ≤ 99) ∧ ∃ ext, validateExtension extension = .ok ext ∧
      comps = ["music".toList, artist, folderName album year] ++ discFolder disc ++
        [folderName album year ++ ".".toList ++ trackNumber track ++ title ++ ".".toList ++ ext] := by
  obtain ⟨ar, har, hrest⟩ := bind_ok h
  obtain ⟨al, hal, hrest⟩ := bind_ok hrest
  obtain ⟨t, ht, hrest⟩ := bind_ok hrest
  obtain ⟨y, hy, hrest⟩ := bind_ok hrest
  obtain ⟨ext, hext, hrest⟩ := bind_ok hrest
  obtain ⟨har, hartist⟩ := validateDisplayToken_ok har
  obtain ⟨hal, halbum⟩ := validateDisplayToken_ok hal
  obtain ⟨ht, htitle⟩ := validateDisplayToken_ok ht
  obtain ⟨hy, hbounds⟩ := validateYear_ok hy
  rw [har, hal, ht, hy] at hrest
  refine ⟨hartist, halbum, htitle, hbounds, ?_⟩
  cases track with
  | none =>
      cases disc with
      | none =>
          cases hrest
          exact ⟨by simp, by simp, ext, hext, by simp [discFolder, trackNumber]⟩
      | some d =>
          obtain ⟨hd, hrest⟩ := guard_ok hrest
          rw [Decidable.not_not] at hd
          cases hrest
          exact ⟨by simp, by simpa using hd, ext, hext, by simp [discFolder, trackNumber]⟩
  | some n =>
      obtain ⟨hn, hrest⟩ := guard_ok hrest
      rw [Decidable.not_not] at hn
      cases disc with
      | none =>
          cases hrest
          exact ⟨by simpa using hn, by simp, ext, hext, by simp [discFolder, trackNumber]⟩
      | some d =>
          obtain ⟨hd, hrest⟩ := guard_ok hrest
          rw [Decidable.not_not] at hd
          cases hrest
          exact ⟨by simpa using hn, by simpa using hd, ext, hext, by simp [discFolder, trackNumber]⟩

end Inversion

section Names

-- A text that is one component of a path.
structure IsName (name : Text) : Prop where
  ne : name ≠ []
  noSlash : '/' ∉ name
  notDot : name ≠ ".".toList
  notDots : name ≠ "..".toList

theorem IsName.component {name : Text} (h : IsName name) :
    Path.componentOf name = some (.Normal name) := by
  unfold Path.componentOf
  rw [if_neg (by simp only [not_or]; exact ⟨h.ne, h.notDot⟩), if_neg h.notDots]

theorem components_join {names : List Text} (h : ∀ name ∈ names, IsName name) :
    Path.components (Text.joinWith '/' names) = names.map .Normal := by
  cases names with
  | nil => rfl
  | cons first rest =>
      have hfirst := h first List.mem_cons_self
      have hsplit : Text.split (· == '/') (Text.joinWith '/' (first :: rest)) = first :: rest :=
        Text.split_joinWith (by simp) fun name hname => (h name hname).noSlash
      have hrelative : Path.isAbsolute (Text.joinWith '/' (first :: rest)) = false := by
        obtain ⟨c, tail, rfl⟩ := List.exists_cons_of_ne_nil hfirst.ne
        have hc : c ≠ '/' := fun hc => hfirst.noSlash (hc ▸ List.mem_cons_self)
        cases rest with
        | nil => simp [Path.isAbsolute, Text.joinWith, hc]
        | cons second rest =>
            rw [Text.joinWith_cons _ _ (by simp)]
            simp [Path.isAbsolute, hc]
      have hrest : rest.filterMap Path.componentOf = rest.map .Normal := by
        have hall : ∀ name ∈ rest, Path.componentOf name = some (.Normal name) :=
          fun name hname => (h name (List.mem_cons_of_mem _ hname)).component
        clear hsplit hrelative h
        induction rest with
        | nil => rfl
        | cons name rest ih =>
            rw [List.filterMap_cons_some (hall name List.mem_cons_self),
              ih fun n hn => hall n (List.mem_cons_of_mem _ hn)]
            rfl
      simp only [Path.components, hrelative, hsplit, Bool.false_eq_true, if_false, hfirst.notDot,
        hfirst.component, hrest]
      rfl

theorem normalNames_map (names : List Text) : normalNames (names.map .Normal) = names := by
  induction names with
  | nil => rfl
  | cons name rest ih =>
      simp only [normalNames] at ih
      simp [normalNames, ih]

theorem hasPair_of_not_mem {second : Text} {names : List Text} (h : second ∉ names.tail) :
    hasPair second names = false := by
  fun_induction hasPair second names with
  | case1 a b rest ih =>
      simp only [List.tail_cons, List.mem_cons, not_or] at h
      have hb : b ≠ second := fun hb => h.1 hb.symm
      simp [hb, ih h.2]
  | case2 => rfl

theorem kindDir_cases {dir : Text} {kind : TitleKind} (h : kindDir dir = some kind) :
    dir = "movies".toList ∨ dir = "series".toList ∨ dir = "tv".toList ∨ dir = "music".toList := by
  unfold kindDir at h
  split at h
  · next hdir => exact .inl hdir
  · split at h
    · next hdir => exact .inr (hdir.elim .inl fun hdir => .inr (.inl hdir))
    · split at h
      · next hdir => exact .inr (.inr (.inr hdir))
      · cases h

theorem hasPair_kindDir {dir second : Text} {kind : TitleKind} {rest : List Text}
    (hdir : kindDir dir = some kind) (h : second ∉ rest.tail) : hasPair second (dir :: rest) = false := by
  cases rest with
  | nil => rfl
  | cons name rest =>
      have hops : dir ≠ "_ops".toList ∧ dir ≠ "_incoming".toList := by
        rcases kindDir_cases hdir with rfl | rfl | rfl | rfl <;> decide
      have hrest : hasPair second (name :: rest) = false := hasPair_of_not_mem h
      simp only [hasPair, hops.1, hops.2, false_or, false_and, decide_false, Bool.false_or, hrest]

-- The path under a kind directory, read back.
theorem parsePlacement_join [UnicodeTables] {dir : Text} {kind : TitleKind} {rest : List Text}
    (hdir : kindDir dir = some kind) (hnames : ∀ name ∈ rest, IsName name)
    (hdots : ∀ name ∈ rest.tail, '.' ∈ name) :
    parsePlacement (Text.joinWith '/' (dir :: rest)) =
      if hasSceneTag rest then
        .error (.LeftoverSceneTag (Text.joinWith '/' (dir :: rest)))
      else parseKind kind rest (Text.joinWith '/' (dir :: rest)) >>= fun placement =>
        placement.keyTitleId.map fun titleId => (titleId, placement) := by
  have hdirName : IsName dir := by
    rcases kindDir_cases hdir with rfl | rfl | rfl | rfl <;> constructor <;> decide
  have hparts : Path.components (Text.joinWith '/' (dir :: rest)) = (dir :: rest).map .Normal :=
    components_join fun name hname => by
      rcases List.mem_cons.mp hname with rfl | hname
      · exact hdirName
      · exact hnames name hname
  have hfree : ∀ second : Text, '.' ∉ second → second ∉ rest.tail :=
    fun second hdot hmem => hdot (hdots second hmem)
  have hbin : classifyRejectBin (Text.joinWith '/' (dir :: rest)) = none := by
    have hsplit := hasPair_kindDir hdir (hfree "needs-split" (by decide))
    have hyear := hasPair_kindDir hdir (hfree "needs-year" (by decide))
    simp only [classifyRejectBin, hparts, normalNames_map, hsplit, hyear, Bool.false_eq_true,
      if_false]
  have hnormal : (((dir :: rest).map Component.Normal).any
      fun c => c = .ParentDir || c = .RootDir) = false := by
    rw [List.any_eq_false]
    intro c hc
    obtain ⟨name, -, rfl⟩ := List.mem_map.mp hc
    simp
  have hhead : ((dir :: rest).head?.any fun c => c.head? = some '_') = false := by
    rcases kindDir_cases hdir with rfl | rfl | rfl | rfl <;> rfl
  simp only [parsePlacement, parseInner, hbin, hparts, hnormal, normalNames_map, hhead, selectKind,
    hdir, Bool.false_eq_true, if_false]
  by_cases htag : hasSceneTag rest = true
  · rw [if_pos htag]
    simp only [pure_bind, htag, if_true]
    rfl
  · rw [if_neg htag]
    simp only [pure_bind, htag, Bool.false_eq_true, if_false]
    rfl

end Names

section SceneTags

def Untagged (name : Text) : Prop :=
  ∀ piece ∈ Text.split (fun c => c == '.' || c == '-' || c == '_' || c == ' ') name,
    isSceneTag piece = false

theorem hasSceneTag_eq_false {names : List Text} :
    hasSceneTag names = false ↔ ∀ name ∈ names, Untagged name := by
  simp [hasSceneTag, Untagged]

theorem untagged_append {left right : Text} {c : Char} (hc : c = '.' ∨ c = '-') :
    Untagged (left ++ c :: right) ↔ Untagged left ∧ Untagged right := by
  unfold Untagged
  rw [Text.split_append (by rcases hc with rfl | rfl <;> rfl)]
  simp [or_imp, forall_and]

-- Every scene tag is made of these letters.
theorem isSceneTag_of_mem {piece : Text} {c : Char} (hc : c ∈ piece)
    (hletter : c.toLower ∉ "repacjko".toList) : isSceneTag piece = false := by
  rw [isSceneTag, List.any_eq_false]
  intro tag htag heq
  have hlower : Text.toAsciiLowercase piece = Text.toAsciiLowercase tag := by
    simpa [Text.eqIgnoreAsciiCase] using heq
  have hmem : c.toLower ∈ Text.toAsciiLowercase tag := by
    rw [← hlower]
    exact List.mem_map_of_mem hc
  have hletters : sceneTags.all (fun tag =>
      (Text.toAsciiLowercase tag).all fun d => decide (d ∈ "repacjko".toList)) = true := by decide
  exact hletter (Text.every (List.all_eq_true.mp hletters tag htag) _ hmem)

theorem untagged_of_mem {name : Text} {c : Char} (hfree : ∀ d ∈ name, d ∉ ".-_ ".toList)
    (hc : c ∈ name) (hletter : c.toLower ∉ "repacjko".toList) : Untagged name := by
  have hsplit : Text.split (fun c => c == '.' || c == '-' || c == '_' || c == ' ') name = [name] := by
    refine Text.split_of_free fun d hd => ?_
    have := hfree d hd
    simp_all
  intro piece hpiece
  rw [hsplit, List.mem_singleton] at hpiece
  subst hpiece
  exact isSceneTag_of_mem hc hletter

theorem untagged_alphanum {name : Text} (h : ∀ c ∈ name, c.isAlphanum = true) :
    Untagged name ↔ isSceneTag name = false := by
  have hsplit : Text.split (fun c => c == '.' || c == '-' || c == '_' || c == ' ') name = [name] := by
    refine Text.split_of_free fun d hd => ?_
    have hd := h d hd
    have hne : ∀ e : Char, e.isAlphanum = false → (d == e) = false := by
      intro e he
      simp only [beq_eq_false_iff_ne]
      rintro rfl
      rw [hd] at he
      cases he
    simp [hne '.' (by decide), hne '-' (by decide), hne '_' (by decide), hne ' ' (by decide)]
  simp [Untagged, hsplit]

theorem DisplayToken.untagged_name {token : Text} (h : DisplayToken token) : Untagged token := by
  have hspace : ∀ c ∈ token, (c == ' ') = false := by
    intro c hc
    simp only [beq_eq_false_iff_ne]
    rintro rfl
    exact absurd (h.plain _ hc) (by decide)
  have hsplit : Text.split (fun c => c == '.' || c == '-' || c == '_' || c == ' ') token =
      Text.split isTagSeparator token :=
    Text.split_congr fun c hc => by simp [isTagSeparator, hspace c hc]
  intro piece hpiece
  rw [hsplit] at hpiece
  exact h.untagged piece hpiece

theorem digit_not_letter {c : Char} (h : c.isDigit = true) : c.toLower ∉ "repacjko".toList := by
  rw [Text.isDigit_iff] at h
  have hlower : c.toLower = c := by
    apply Char.toNat_inj.mp
    rw [Text.toNat_toLower]
    split <;> omega
  rw [hlower]
  intro hmem
  have hletters : ∀ d ∈ "repacjko".toList, 97 ≤ d.toNat := Text.every (by decide)
  have := hletters c hmem
  omega

end SceneTags

section Folders

def yearGroup (year : Nat) : Text := '(' :: (Text.decimal year ++ ")".toList)

theorem folderName_eq (title : Text) (year : Nat) :
    folderName title year = title ++ '.' :: yearGroup year := by
  simp [folderName, yearGroup]

theorem mem_yearGroup {year : Nat} {c : Char} (h : c ∈ yearGroup year) :
    c = '(' ∨ c = ')' ∨ c.isDigit = true := by
  simp only [yearGroup, List.mem_cons, List.mem_append] at h
  rcases h with h | h | h
  · exact .inl h
  · exact .inr (.inr (Text.isDigit_decimal h))
  · exact .inr (.inl (by simpa using h))

theorem dottedChar_digit {c : Char} (h : c.isDigit = true) : dottedChar c = c := by
  rw [Text.isDigit_iff] at h
  have hlist : c ∉ [':', '/', '\\', '[', ']', '{', '}', ',', '_', '—', '–', '\u2019'] := by
    intro hmem
    have hrange : ∀ d ∈ [':', '/', '\\', '[', ']', '{', '}', ',', '_', '—', '–', '\u2019'],
        d.toNat < 48 ∨ 57 < d.toNat := Text.every (by decide)
    have := hrange c hmem
    omega
  have hspace : Text.isWhitespace c = false := by
    have hval : c.val.toNat = c.toNat := rfl
    simp only [Text.isWhitespace, Bool.or_eq_false_iff, Bool.and_eq_false_iff, beq_eq_false_iff_ne,
      ne_eq, ← UInt32.toNat_inj, decide_eq_false_iff_not, UInt32.le_iff_toNat_le, hval]
    simp
    omega
  simp [dottedChar, hlist, hspace]

theorem yearGroup_clean (year : Nat) : Clean (yearGroup year) := by
  intro c hc
  rcases mem_yearGroup hc with rfl | rfl | hdigit
  · decide
  · decide
  · exact dottedChar_digit hdigit

theorem yearGroup_free (year : Nat) : '.' ∉ yearGroup year := by
  intro h
  rcases mem_yearGroup h with h | h | h
  · exact absurd h (by decide)
  · exact absurd h (by decide)
  · exact absurd h (by decide)

theorem yearGroup_untagged (year : Nat) : Untagged (yearGroup year) := by
  refine untagged_of_mem (fun d hd => ?_) List.mem_cons_self (by decide)
  rcases mem_yearGroup hd with rfl | rfl | hdigit
  · decide
  · decide
  · intro hmem
    have hnone : ∀ e ∈ ".-_ ".toList, e.isDigit = false := Text.every (by decide)
    rw [hnone d hmem] at hdigit
    cases hdigit

theorem dotted_folder {title : Text} (hclean : Clean title) (hne : dotted title ≠ []) (year : Nat) :
    dotted (folderName title year) = folderName (dotted title) year := by
  have hgroup : dotted (yearGroup year) = yearGroup year :=
    dotted_of_free (yearGroup_clean year) (yearGroup_free year)
  rw [folderName_eq, dotted_append hclean (yearGroup_clean year) hne (by rw [hgroup]; exact List.cons_ne_nil _ _),
    hgroup, folderName_eq]

theorem dotted_last {text : Text} : (dotted text).getLast? ≠ some '.' := by
  intro h
  exact absurd (Text.trimEndMatches_last h) (by decide)

theorem trim_dotted_dot (text : Text) :
    Text.trimEndMatches (fun c => c == '.' || c == ' ') (dotted text ++ ".".toList) = dotted text := by
  have hdot : Text.trimEndMatches (fun c => c == '.' || c == ' ') (dotted text ++ ".".toList) =
      Text.trimEndMatches (fun c => c == '.' || c == ' ') (dotted text) :=
    List.rdropWhile_concat_pos _ _ '.' (by decide)
  rw [hdot, Text.trimEndMatches, List.rdropWhile_eq_self_iff]
  intro hne hlast
  have hlast? := List.getLast?_eq_some_getLast hne
  simp only [Bool.or_eq_true, beq_iff_eq] at hlast
  rcases hlast with hlast | hlast
  · rw [hlast] at hlast?
    exact dotted_last hlast?
  · have hmem := List.getLast_mem hne
    rw [hlast] at hmem
    exact absurd (clean_dotted text _ hmem) (by decide)

theorem rsplitOnce_folder (title : Text) (year : Nat) :
    Text.rsplitOnce '(' (folderName title year) =
      some (title ++ ".".toList, Text.decimal year ++ ")".toList) := by
  have hcut : folderName title year =
      (title ++ ".".toList) ++ '(' :: (Text.decimal year ++ ")".toList) := by
    simp [folderName]
  rw [hcut]
  refine Text.rsplitOnce_append _ ?_
  simp only [List.mem_append, not_or]
  exact ⟨fun h => absurd (Text.isDigit_decimal h) (by decide), by decide⟩

theorem stripTrailingYear_folder (text : Text) {year : Nat} (hyear : 1000 ≤ year ∧ year ≤ 9999) :
    stripTrailingYear (folderName (dotted text) year) = dotted text := by
  have htrim : Text.trimEndMatches Text.isWhitespace (folderName (dotted text) year) =
      folderName (dotted text) year := by
    have hend : folderName (dotted text) year =
        (dotted text ++ ".(".toList ++ Text.decimal year) ++ [')'] := by simp [folderName]
    rw [hend]
    exact Text.trimEndMatches_concat (by decide) _
  have hlen := Text.decimal_length_four hyear.1 hyear.2
  have hinner : (Text.decimal year ++ ")".toList).length = 5 ∧
      (Text.decimal year ++ ")".toList).getLast? = some ')' ∧
      ((Text.decimal year ++ ")".toList).take 4).all Char.isDigit = true := by
    refine ⟨by simp [hlen], by simp, ?_⟩
    rw [← hlen, List.take_left', List.all_eq_true]
    · exact fun c hc => Text.isDigit_decimal hc
    · rfl
  simp only [stripTrailingYear, htrim, rsplitOnce_folder, hinner, and_self, if_true]
  exact trim_dotted_dot text

theorem splitTitleYear_folder {text : Text} {year : Nat} (hne : dotted text ≠ [])
    (hyear : 1000 ≤ year ∧ year ≤ 9999) (raw : Text) :
    splitTitleYear (folderName (dotted text) year) raw = .ok (dotted text, year) := by
  have hlen := Text.decimal_length_four hyear.1 hyear.2
  have hlonger : (dotted text).length ≠ (folderName (dotted text) year).length := by
    simp [folderName]
  have htake : (Text.decimal year ++ ")".toList).take 4 = Text.decimal year := by
    rw [← hlen, List.take_left']
    rfl
  have hdigits : (Text.decimal year).all Char.isDigit = true :=
    List.all_eq_true.mpr fun c hc => Text.isDigit_decimal hc
  have hvalid : validateYear (Text.digitsValue (Text.decimal year)) = .ok year := by
    rw [Text.digitsValue_decimal, validateYear, if_pos hyear]
    rfl
  simp only [splitTitleYear, stripTrailingYear_folder text hyear, hlonger, if_false,
    rsplitOnce_folder, htake,
    hlen, hdigits, hvalid, hne, ne_eq, not_true_eq_false, Bool.not_true, Bool.false_eq_true, or_self]
  rfl

theorem splitStemExt_append {stem extension : Text} (hstem : stem ≠ [])
    (hext : IsExtension extension) (raw : Text) :
    splitStemExt (stem ++ ".".toList ++ extension) raw = .ok (stem, extension) := by
  have hsplit : Text.rsplitOnce '.' (stem ++ ".".toList ++ extension) = some (stem, extension) := by
    rw [List.append_assoc]
    exact Text.rsplitOnce_append stem (hext.free (by decide))
  simp only [splitStemExt, hsplit, hstem, if_false, hext.validate]
  rfl

-- The pieces of a joined text are those of its parts.
theorem mem_split_dots {toks : List Text} {piece : Text} (hne : toks ≠ []) :
    piece ∈ Text.split isTagSeparator (Text.joinWith '.' toks) ↔
      ∃ tok ∈ toks, piece ∈ Text.split isTagSeparator tok := by
  induction toks with
  | nil => exact absurd rfl hne
  | cons tok rest ih =>
      by_cases hrest : rest = []
      · subst hrest
        simp [Text.joinWith]
      · rw [Text.joinWith_cons _ _ hrest, Text.split_append (by decide), List.mem_append, ih hrest]
        simp

theorem DisplayToken.dotted {token : Text} (h : DisplayToken token) (hclean : Clean token)
    (hne : dotted token ≠ []) : DisplayToken (dotted token) := by
  have htoks : tokens token ≠ [] := fun hnil => hne ((dotted_eq_nil hclean).mpr hnil)
  have hsub : ∀ c ∈ PathSchema.dotted token, c = '.' ∨ c ∈ token := by
    intro c hc
    rw [dotted_clean hclean] at hc
    exact mem_join_tokens hc
  have hfree : ∀ c : Char, c ≠ '.' → c ∉ token → c ∉ PathSchema.dotted token := by
    intro c hdot hc hmem
    rcases hsub c hmem with rfl | hmem
    · exact hdot rfl
    · exact hc hmem
  have hnot : ∀ other : Text, tokens other = [] → PathSchema.dotted token ≠ other := by
    intro other hother heq
    rw [← heq, tokens_dotted hclean] at hother
    exact htoks hother
  exact {
    ne := hne
    plain := fun c hc => (clean_dotted token).not_whitespace hc
    noNul := hfree _ (by decide) h.noNul
    notDot := hnot _ (by decide)
    notDots := hnot _ (by decide)
    untagged := fun piece hpiece => by
      rw [dotted_clean hclean, mem_split_dots htoks] at hpiece
      obtain ⟨tok, htok, hpiece⟩ := hpiece
      refine h.untagged piece ?_
      rw [← Text.joinWith_split '.' token, mem_split_dots (Text.split_ne_nil _ _)]
      exact ⟨tok, (List.mem_filter.mp htok).1, hpiece⟩
    noSlash := hfree _ (by decide) h.noSlash
    noBackslash := hfree _ (by decide) h.noBackslash
    noOpen := hfree _ (by decide) h.noOpen
    noClose := hfree _ (by decide) h.noClose }

end Folders

end Mediaops.PathSchema
