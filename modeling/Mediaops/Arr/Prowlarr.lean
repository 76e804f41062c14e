import Mediaops.Library.Text.Utf8

namespace Mediaops.Prowlarr

-- The check that an application's URL has the base path of the edge.

-- `/`, `?`, `#` or `:`
def endsBase (b : UInt8) : Bool := b == 47 || b == 63 || b == 35 || b == 58

-- The search at offset `i` with `left` offsets to come.
def baseFrom (needle hay : Bytes) : Nat → Nat → Bool
  | 0, _ => false
  | left + 1, i =>
      let after := i + needle.length
      if Bytes.slice i needle.length hay = needle ∧
          (after = hay.length ∨ endsBase (hay.getD after 0)) then true
      else baseFrom needle hay left (i + 1)

def trimBase (urlBase : Text) : Text := Text.trimEndMatches (· == '/') urlBase

def applicationUrlOk (syncLevelUrl urlBase : Text) : Bool :=
  let base := trimBase urlBase
  if base = [] ∨ Text.startsWith ['/'] base = false then false
  else
    let hay := Text.asBytes syncLevelUrl
    let needle := Text.asBytes base
    baseFrom needle hay (hay.length + 1 - needle.length) 0

-- `scheme://authority/path?query#fragment`, cut as a URL is: the authority ends at
-- the first slash, the path at the first `?` or `#`, the query at the first `#`.
structure Url where
  scheme : Text
  authority : Text
  path : Text
  query : Option Text
  fragment : Option Text
  scheme_free : ∀ c ∈ scheme, c ∉ [':', '/', '?', '#']
  authority_free : ∀ c ∈ authority, c ∉ ['/', '?', '#']
  path_rooted : path.head? = some '/'
  path_free : ∀ c ∈ path, c ∉ ['?', '#']
  query_free : ∀ text ∈ query, '#' ∉ text

def marked (mark : Char) (part : Option Text) : Text := (part.map (mark :: ·)).getD []

namespace Url

variable (url : Url)

def origin : Text := url.scheme ++ [':', '/', '/'] ++ url.authority

def tail : Text := marked '?' url.query ++ marked '#' url.fragment

def text : Text := url.origin ++ (url.path ++ url.tail)

end Url

-- The segments of a path that starts with a slash.
def segments (path : Text) : List Text := (Text.split (· == '/') path).tail

-- One segment at least, and all of them whole and in a row.
def Occurs (base path : Text) : Prop := base ≠ [] ∧ segments base <:+: segments path

-- The text of the base, up to an end or one of the marks that end it.
def BaseAt (base text front rest : Text) : Prop :=
  text = front ++ (base ++ rest) ∧ ∀ c ∈ rest.head?, c ∈ ['/', '?', '#', ':']

-- The text of the base where it is not made of segments of the path: it starts before
-- the path or ends behind it, or a colon follows.
def Stray (url : Url) (base : Text) : Prop :=
  base ≠ [] ∧ ∃ front rest, BaseAt base url.text front rest ∧
    (front.length < url.origin.length ∨
      url.origin.length + url.path.length < front.length + base.length ∨ rest.head? = some ':')

section Search

theorem ascii_of_endsBase (b : UInt8) (h : endsBase b = true) : b.toNat < 128 := by
  simp only [endsBase, Bool.or_eq_true, beq_iff_eq] at h
  rcases h with ((rfl | rfl) | rfl) | rfl <;> decide

theorem mem_marks {c : Char} : Text.within endsBase c = true ↔ c ∈ ['/', '?', '#', ':'] := by
  simp only [Text.within, endsBase, Bool.and_eq_true, decide_eq_true_eq, Bool.or_eq_true,
    beq_iff_eq, ← UInt8.toNat_inj, UInt8.toNat_ofNat', List.mem_cons, List.not_mem_nil,
    ← Char.toNat_inj, or_false]
  simp only [UInt8.reduceToNat, Char.reduceToNat]
  omega

-- The search finds every place of the needle from its offset on.
theorem baseFrom_iff {needle hay : Bytes} (hne : needle ≠ []) {left i : Nat}
    (hleft : hay.length + 1 - needle.length = i + left) :
    baseFrom needle hay left i = true ↔ ∃ front rest, hay = front ++ (needle ++ rest) ∧
      i ≤ front.length ∧ ∀ b ∈ rest.head?, endsBase b = true := by
  have hpos := List.length_pos_iff.mpr hne
  induction left generalizing i with
  | zero =>
      refine iff_of_false (by simp [baseFrom]) ?_
      rintro ⟨front, rest, rfl, hi, -⟩
      simp only [List.length_append] at hleft
      omega
  | succ left ih =>
      have hnext := ih (i := i + 1) (by omega)
      rw [baseFrom]
      -- what the comparison at this offset says
      have hhere : (Bytes.slice i needle.length hay = needle ∧
          (i + needle.length = hay.length ∨ endsBase (hay.getD (i + needle.length) 0) = true)) ↔
          ∃ front rest, hay = front ++ (needle ++ rest) ∧ front.length = i ∧
            ∀ b ∈ rest.head?, endsBase b = true := by
        constructor
        · rintro ⟨hslice, hafter⟩
          refine ⟨hay.take i, hay.drop (i + needle.length), ?_, ?_, ?_⟩
          · have hcut := List.take_append_drop needle.length (hay.drop i)
            rw [Bytes.slice] at hslice
            rw [hslice, List.drop_drop] at hcut
            rw [hcut, List.take_append_drop]
          · rw [List.length_take]
            omega
          · intro b hb
            rw [List.head?_drop, Option.mem_def, List.getElem?_eq_some_iff] at hb
            obtain ⟨hlt, rfl⟩ := hb
            rw [List.getD_eq_getElem?_getD, List.getElem?_eq_getElem hlt] at hafter
            exact hafter.resolve_left (by omega)
        · rintro ⟨front, rest, rfl, rfl, hrest⟩
          refine ⟨by simp [Bytes.slice], ?_⟩
          cases rest with
          | nil => simp
          | cons b rest =>
              right
              rw [← List.append_assoc, ← List.length_append, List.getD_eq_getElem?_getD,
                List.getElem?_append_right (Nat.le_refl _)]
              simpa using hrest b rfl
      by_cases hmatch : Bytes.slice i needle.length hay = needle ∧
          (i + needle.length = hay.length ∨ endsBase (hay.getD (i + needle.length) 0) = true)
      · rw [if_pos hmatch]
        obtain ⟨front, rest, hhay, hlen, hrest⟩ := hhere.mp hmatch
        exact iff_of_true rfl ⟨front, rest, hhay, hlen.ge, hrest⟩
      · rw [if_neg hmatch]
        refine hnext.trans ?_
        constructor
        · rintro ⟨front, rest, hhay, hi, hrest⟩
          exact ⟨front, rest, hhay, by omega, hrest⟩
        · rintro ⟨front, rest, hhay, hi, hrest⟩
          refine ⟨front, rest, hhay, ?_, hrest⟩
          have hother : front.length ≠ i := fun hlen =>
            hmatch (hhere.mpr ⟨front, rest, hhay, hlen, hrest⟩)
          omega

-- Bytes of a base that starts with a slash are the base's text.
theorem base_bytes_iff {base text : Text} (hbase : base.head? = some '/') :
    (∃ front rest, Text.asBytes text = front ++ (Text.asBytes base ++ rest) ∧
      ∀ b ∈ rest.head?, endsBase b = true) ↔ ∃ front rest, BaseAt base text front rest := by
  obtain ⟨name, rfl⟩ : ∃ name, base = '/' :: name := by
    cases base with
    | nil => cases hbase
    | cons c name =>
        obtain rfl := Option.some.inj hbase
        exact ⟨name, rfl⟩
  have hslash : Text.asBytes ('/' :: name) = 47 :: Text.asBytes name := rfl
  have hends : ∀ right : Text, (∀ b ∈ (Text.asBytes right).head?, endsBase b = true) ↔
      ∀ c ∈ right.head?, c ∈ ['/', '?', '#', ':'] := by
    intro right
    cases right with
    | nil => simp
    | cons c right =>
        have hbyte := Text.within_byte ascii_of_endsBase [] right c.utf8Size_pos 0
        obtain ⟨b, bytes, hb⟩ := List.exists_cons_of_ne_nil (Text.encode_ne_nil c)
        simp only [List.nil_append, Text.asBytes_cons, hb, List.cons_append, Text.byteLen_nil,
          Nat.add_zero, List.getD_cons_zero] at hbyte
        simpa [hb, hbyte] using mem_marks (c := c)
  constructor
  · rintro ⟨front, rest, htext, hrest⟩
    rw [hslash, List.cons_append] at htext
    obtain ⟨left, c, right, rfl, -, hc, hascii, hright⟩ := Text.asBytes_cut (by decide) htext
    obtain ⟨after, rfl, rfl⟩ := Text.asBytes_front hright.symm
    have hc : c = '/' := by
      rw [← Char.toNat_inj]
      have hc := congrArg UInt8.toNat hc
      rw [UInt8.toNat_ofNat'] at hc
      simp only [UInt8.reduceToNat, Char.reduceToNat] at hc ⊢
      omega
    exact ⟨left, after, by rw [hc]; rfl, (hends after).mp hrest⟩
  · rintro ⟨left, after, rfl, hafter⟩
    exact ⟨Text.asBytes left, Text.asBytes after, by simp, (hends after).mpr hafter⟩

theorem trimBase_head {urlBase : Text} (h : urlBase.head? = some '/')
    (hnil : trimBase urlBase ≠ []) : (trimBase urlBase).head? = some '/' := by
  obtain ⟨rest, hrest⟩ := Text.trimEndMatches_prefix (· == '/') urlBase
  rw [← trimBase] at hrest
  rw [hrest, List.head?_append_of_ne_nil _ hnil] at h
  exact h

theorem applicationUrlOk_iff {url urlBase : Text} (h : urlBase.head? = some '/') :
    applicationUrlOk url urlBase = true ↔
      trimBase urlBase ≠ [] ∧ ∃ front rest, BaseAt (trimBase urlBase) url front rest := by
  by_cases hnil : trimBase urlBase = []
  · simp [applicationUrlOk, hnil]
  have hhead := trimBase_head h hnil
  have hstart : Text.startsWith ['/'] (trimBase urlBase) = true := by
    obtain ⟨c, name, hname⟩ := List.exists_cons_of_ne_nil hnil
    rw [hname] at hhead ⊢
    rw [List.head?_cons, Option.some.injEq] at hhead
    simp [Text.startsWith, hhead]
  have hne : Text.asBytes (trimBase urlBase) ≠ [] := by
    intro hbytes
    exact hnil (Text.byteLen_eq_zero.mp (congrArg List.length hbytes))
  have hleft : (Text.asBytes url).length + 1 - (Text.asBytes (trimBase urlBase)).length =
      0 + ((Text.asBytes url).length + 1 - (Text.asBytes (trimBase urlBase)).length) :=
    (Nat.zero_add _).symm
  have hsearch := baseFrom_iff hne hleft
  have hcode : applicationUrlOk url urlBase =
      baseFrom (Text.asBytes (trimBase urlBase)) (Text.asBytes url)
        ((Text.asBytes url).length + 1 - (Text.asBytes (trimBase urlBase)).length) 0 := by
    rw [applicationUrlOk]
    exact if_neg (by simp [hnil, hstart])
  rw [hcode, hsearch, ← base_bytes_iff hhead]
  simp [hnil]

end Search

section Segments

-- Segments written with the slash before each.
def written (pieces : List Text) : Text := pieces.flatMap ('/' :: ·)

theorem written_split (text : Text) :
    written (Text.split (· == '/') text) = '/' :: text := by
  induction text with
  | nil => rfl
  | cons c rest ih =>
      rw [Text.split]
      by_cases hc : (c == '/') = true
      · rw [if_pos hc, written, List.flatMap_cons, ← written, ih, beq_iff_eq.mp hc]
        rfl
      · rw [if_neg hc]
        cases hsplit : Text.split (· == '/') rest with
        | nil => exact absurd hsplit (Text.split_ne_nil _ _)
        | cons piece pieces =>
            rw [hsplit] at ih
            simp only [written, List.flatMap_cons, List.cons_append, List.cons.injEq,
              true_and] at ih ⊢
            rw [ih]

theorem split_slash (name : Text) : Text.split (· == '/') ('/' :: name) =
    [] :: Text.split (· == '/') name := by
  rw [Text.split]
  rfl

theorem segments_slash (name : Text) :
    segments ('/' :: name) = Text.split (· == '/') name := by
  rw [segments, split_slash, List.tail_cons]

theorem written_segments {path : Text} (h : path.head? = some '/') :
    written (segments path) = path := by
  cases path with
  | nil => cases h
  | cons c name =>
      obtain rfl := Option.some.inj h
      rw [segments_slash, written_split]

theorem head_written (pieces : List Text) : ∀ c ∈ (written pieces).head?, c = '/' := by
  cases pieces with
  | nil => simp [written]
  | cons piece pieces => simp [written]

-- A part of the path from one slash up to another, or to the end, is a row of segments.
theorem segments_infix_iff {base path : Text} (hbase : base.head? = some '/')
    (hpath : path.head? = some '/') :
    segments base <:+: segments path ↔
      ∃ front rest, path = front ++ (base ++ rest) ∧ ∀ c ∈ rest.head?, c = '/' := by
  constructor
  · rintro ⟨left, right, h⟩
    refine ⟨written left, written right, ?_, head_written right⟩
    rw [← written_segments hpath, ← h, written, written, written, List.append_assoc,
      List.flatMap_append, List.flatMap_append, ← written, ← written, written_segments hbase]
  · rintro ⟨front, rest, rfl, hrest⟩
    obtain ⟨name, rfl⟩ : ∃ name, base = '/' :: name := by
      cases base with
      | nil => cases hbase
      | cons c name =>
          obtain rfl := Option.some.inj hbase
          exact ⟨name, rfl⟩
    -- the pieces of the base, cut at the slash before it and at the one behind it
    have hright : ∃ right, Text.split (· == '/') (name ++ rest) =
        Text.split (· == '/') name ++ right := by
      cases rest with
      | nil => exact ⟨[], by simp⟩
      | cons c rest =>
          obtain rfl := hrest c rfl
          exact ⟨_, Text.split_append (by rfl) name rest⟩
    obtain ⟨right, hright⟩ := hright
    rw [segments_slash, segments, List.cons_append, Text.split_append (by rfl), hright]
    cases hsplit : Text.split (· == '/') front with
    | nil => exact absurd hsplit (Text.split_ne_nil _ _)
    | cons piece pieces => exact ⟨pieces, right, by simp⟩

end Segments

section Urls

variable {url : Url} {base : Text}

theorem Url.tail_head (url : Url) : ∀ c ∈ url.tail.head?, c ∈ ['?', '#'] := by
  intro c hc
  cases hquery : url.query with
  | some query =>
      simp only [Url.tail, hquery, marked, Option.map_some, Option.getD_some, List.cons_append,
        List.head?_cons, Option.mem_some_iff] at hc
      simp [← hc]
  | none =>
      cases hfragment : url.fragment with
      | none => simp [Url.tail, hquery, hfragment, marked] at hc
      | some fragment =>
          simp only [Url.tail, hquery, hfragment, marked, Option.map_none, Option.getD_none,
            Option.map_some, Option.getD_some, List.nil_append, List.head?_cons,
            Option.mem_some_iff] at hc
          simp [← hc]

-- The base is in the URL's text as whole segments of the path, or elsewhere.
theorem baseAt_iff (hbase : base.head? = some '/') :
    (∃ front rest, BaseAt base url.text front rest) ↔ Stray url base ∨ Occurs base url.path := by
  have hne : base ≠ [] := by
    rintro rfl
    cases hbase
  constructor
  · rintro ⟨front, rest, hplace⟩
    by_cases hstray : front.length < url.origin.length ∨
        url.origin.length + url.path.length < front.length + base.length ∨ rest.head? = some ':'
    · exact Or.inl ⟨hne, front, rest, hplace, hstray⟩
    right
    obtain ⟨htext, hrest⟩ := hplace
    -- the base starts and ends in the path
    obtain ⟨before, rfl⟩ : ∃ before, front = url.origin ++ before := by
      rcases List.append_eq_append_iff.mp htext with ⟨before, hfront, -⟩ | ⟨after, horigin, -⟩
      · exact ⟨before, hfront⟩
      · have hlen := congrArg List.length horigin
        simp only [List.length_append] at hlen
        have hnil : after = [] := List.length_eq_zero_iff.mp (by omega)
        exact ⟨[], by simp [horigin, hnil]⟩
    rw [Url.text, List.append_assoc, List.append_cancel_left_eq, ← List.append_assoc] at htext
    obtain ⟨after, hpath, hafter⟩ : ∃ after, url.path = before ++ base ++ after ∧
        rest = after ++ url.tail := by
      rcases List.append_eq_append_iff.mp htext with ⟨more, hmore, hrest⟩ | ⟨after, hafter, hrest⟩
      · have hlen := congrArg List.length hmore
        simp only [List.length_append] at hlen hstray
        have hnil : more = [] := List.length_eq_zero_iff.mp (by omega)
        exact ⟨[], by simpa [hnil] using hmore.symm, by simpa [hnil] using hrest.symm⟩
      · exact ⟨after, hafter, hrest⟩
    refine ⟨hne, (segments_infix_iff hbase url.path_rooted).mpr ⟨before, after, ?_, ?_⟩⟩
    · rw [hpath, List.append_assoc]
    · intro c hc
      have hmem : c ∈ url.path := by
        rw [hpath]
        exact List.mem_append_right _ (List.mem_of_mem_head? hc)
      have hhead : c ∈ rest.head? := by
        rw [hafter, List.head?_append, Option.mem_def.mp hc]
        rfl
      have hmark := hrest c hhead
      have hfree := url.path_free c hmem
      have hcolon : c ≠ ':' := by
        rintro rfl
        exact hstray (Or.inr (Or.inr hhead))
      simp only [List.mem_cons, List.not_mem_nil, or_false, not_or] at hmark hfree
      tauto
  · rintro (⟨-, front, rest, hplace, -⟩ | ⟨-, hsegments⟩)
    · exact ⟨front, rest, hplace⟩
    · obtain ⟨front, rest, hpath, hrest⟩ :=
        (segments_infix_iff hbase url.path_rooted).mp hsegments
      refine ⟨url.origin ++ front, rest ++ url.tail, ?_, ?_⟩
      · rw [Url.text, hpath]
        simp
      · intro c hc
        cases rest with
        | nil =>
            have htail := url.tail_head c hc
            simp only [List.mem_cons, List.not_mem_nil, or_false] at htail ⊢
            exact Or.inr (htail.imp id Or.inl)
        | cons d rest =>
            have hd := hrest d rfl
            simp only [List.cons_append, List.head?_cons, Option.mem_some_iff] at hc
            simp [← hc, hd]

end Urls

-- The check is by path segment exactly where the text of the base, followed by an end,
-- is nowhere else in the URL, or is also a row of segments of the path.
theorem application_url_ok_by_segment (url : Url) (urlBase : Text)
    (hbase : urlBase.head? = some '/') :
    (applicationUrlOk url.text urlBase = true ↔ Occurs (trimBase urlBase) url.path) ↔
      (Stray url (trimBase urlBase) → Occurs (trimBase urlBase) url.path) := by
  by_cases hnil : trimBase urlBase = []
  · -- a base of slashes only has no segment, and the check refuses it
    have hcode : applicationUrlOk url.text urlBase ≠ true := by
      rw [ne_eq, applicationUrlOk_iff hbase]
      exact fun h => h.1 hnil
    have hoccurs : ¬Occurs (trimBase urlBase) url.path := fun h => h.1 hnil
    have hstray : ¬Stray url (trimBase urlBase) := fun h => h.1 hnil
    tauto
  · rw [applicationUrlOk_iff hbase, baseAt_iff (trimBase_head hbase hnil)]
    simp only [ne_eq, hnil, not_false_eq_true, true_and]
    tauto

namespace Sample

theorem schemeFree : ∀ c ∈ "http".toList, c ∉ [':', '/', '?', '#'] := by simp

theorem hostFree : ∀ c ∈ "sonarr".toList, c ∉ ['/', '?', '#'] := by simp

theorem pathRooted : "/api".toList.head? = some '/' := by decide

theorem pathFree : ∀ c ∈ "/api".toList, c ∉ ['?', '#'] := by simp

theorem queryFree : ∀ text ∈ (none : Option Text), '#' ∉ text := by simp

-- The name of the application as the host, and no base path.
def url : Url where
  scheme := "http".toList
  authority := "sonarr".toList
  path := "/api".toList
  query := none
  fragment := none
  scheme_free := schemeFree
  authority_free := hostFree
  path_rooted := pathRooted
  path_free := pathFree
  query_free := queryFree

end Sample

theorem application_url_ok_by_segment_api :
    (applicationUrlOk Sample.url.text "/api/".toList = true ↔
      Occurs (trimBase "/api/".toList) Sample.url.path) ↔
      (Stray Sample.url (trimBase "/api/".toList) →
        Occurs (trimBase "/api/".toList) Sample.url.path) :=
  application_url_ok_by_segment Sample.url "/api/".toList (by decide)

-- The slash before the host is taken for the slash of the base.
theorem application_url_ok_by_host :
    Sample.url.text = "http://sonarr/api".toList ∧
      applicationUrlOk Sample.url.text "/sonarr".toList = true ∧
      ¬Occurs (trimBase "/sonarr".toList) Sample.url.path := by
  refine ⟨by decide, by decide, ?_⟩
  rintro ⟨-, hsegments⟩
  revert hsegments
  decide

end Mediaops.Prowlarr
