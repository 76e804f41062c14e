import Mediaops.Apply
import Mediaops.Core.TitleId.Theorems
import Mediaops.Install.Separation

namespace Mediaops

-- Where the files of two copies are staged: the directory tells the titles apart, and
-- the names tell the files of one title apart.

open Transfer (StagingLayout stagingPlace stagedNames)

namespace Path

theorem isAbsolute_of_free {path : Text} (h : '/' ∉ path) : isAbsolute path = false := by
  simp only [isAbsolute, decide_eq_false_iff_not]
  exact fun hhead => h (List.mem_of_mem_head? hhead)

-- A root puts the same text before every relative path.
theorem join_front (root : Text) :
    ∃ front, ∀ tail, isAbsolute tail = false → join root tail = front ++ tail := by
  by_cases h : root = [] ∨ root.getLast? = some '/'
  · refine ⟨root, fun tail htail => ?_⟩
    simp [join, htail, h]
  · refine ⟨root ++ "/".toList, fun tail htail => ?_⟩
    simp [join, htail, h]

theorem join_plain {path tail : Text} (hpath : path ≠ []) (hlast : path.getLast? ≠ some '/')
    (htail : isAbsolute tail = false) : join path tail = path ++ '/' :: tail := by
  simp [join, htail, hpath, hlast]

end Path

variable [UnicodeTables]

namespace TitleId

theorem id_slash {source : TitleSource} {raw : Text} (h : validId source raw = true) :
    '/' ∉ raw := by
  intro hmem
  cases source with
  | Tmdb | Tvdb =>
      simp only [validId, Bool.and_eq_true, List.all_eq_true] at h
      exact absurd (h.2.1 _ hmem) (by decide)
  | Mbid =>
      simp only [validId, Bool.and_eq_true] at h
      obtain ⟨piece, hpiece, hslash⟩ : ∃ piece ∈ Text.split (· == '-') raw, '/' ∈ piece :=
        Text.mem_split_of_mem hmem (by decide)
      have hmbid := h.2
      unfold isMbid at hmbid
      split at hmbid
      · rename_i a b c d e hpieces
        rw [hpieces] at hpiece
        simp only [Bool.and_eq_true, List.all_eq_true] at hmbid
        exact absurd (hmbid.2 piece hpiece _ hslash) (by decide)
      · cases hmbid
  | Key =>
      simp only [validId, Bool.and_eq_true, isKeyId, List.all_eq_true] at h
      obtain ⟨segment, hsegment, hslash⟩ : ∃ segment ∈ Text.split (· == '.') raw, '/' ∈ segment :=
        Text.mem_split_of_mem hmem (by decide)
      have hclean := (h.2 segment hsegment).2 _ hslash
      rw [UnicodeTables.isAlphanumeric_ascii _ (by decide)] at hclean
      exact absurd hclean.1 (by decide)

theorem stagingToken_slash (id : TitleId) : '/' ∉ id.stagingToken := by
  have hkind : '/' ∉ id.kind.asStr := by cases id.kind <;> decide
  have hsource : '/' ∉ id.source.asStr := by cases id.source <;> decide
  rw [stagingToken_eq]
  simp only [List.mem_append, List.mem_cons, not_or]
  exact ⟨hkind, by decide, hsource, by decide, id_slash id.ident⟩

theorem stagingToken_last (id : TitleId) : id.stagingToken.getLast? ≠ some '/' :=
  fun h => stagingToken_slash id (List.mem_of_getLast? h)

theorem stagingToken_ne (id : TitleId) : id.stagingToken ≠ [] := by
  rw [stagingToken_eq]
  simp

end TitleId

namespace Transfer

-- The place of a staged file, piece by piece.
theorem stagingPlace_front {root front : Text}
    (hfront : ∀ tail, Path.isAbsolute tail = false → Path.join root tail = front ++ tail)
    (titleId : TitleId) {name : Text} (hname : Path.isAbsolute name = false) :
    stagingPlace root titleId name =
      front ++ "_incoming/".toList ++ titleId.stagingToken ++ '/' :: name := by
  have htoken := Path.isAbsolute_of_free titleId.stagingToken_slash
  have hdir : Path.join "_incoming" titleId.stagingToken =
      "_incoming/".toList ++ titleId.stagingToken :=
    Path.join_plain (by decide) (by decide) htoken
  have hlast : ("_incoming/".toList ++ titleId.stagingToken).getLast? ≠ some '/' := by
    rw [List.getLast?_append_of_ne_nil _ titleId.stagingToken_ne]
    exact titleId.stagingToken_last
  have hplace : Path.join ("_incoming/".toList ++ titleId.stagingToken) name =
      "_incoming/".toList ++ titleId.stagingToken ++ '/' :: name :=
    Path.join_plain (by simp) hlast hname
  have hrel : Path.isAbsolute ("_incoming/".toList ++ titleId.stagingToken ++ '/' :: name) = false :=
    Path.isAbsolute_of_head (c := '_') rfl (by decide)
  rw [stagingPlace, hdir, hplace, hfront _ hrel]
  simp

theorem stagingPlace_titles {root : Text} {titleId titleId' : TitleId} {name name' : Text}
    (hname : Path.isAbsolute name = false) (hname' : Path.isAbsolute name' = false) :
    stagingPlace root titleId name = stagingPlace root titleId' name' ↔
      titleId = titleId' ∧ name = name' := by
  obtain ⟨front, hfront⟩ := Path.join_front root
  rw [stagingPlace_front hfront titleId hname, stagingPlace_front hfront titleId' hname']
  constructor
  · intro h
    simp only [List.append_assoc] at h
    obtain ⟨htoken, hrest⟩ := Text.cut_unique titleId.stagingToken_slash
      titleId'.stagingToken_slash (List.append_cancel_left (List.append_cancel_left h))
    exact ⟨TitleId.stagingToken_injective htoken, hrest⟩
  · rintro ⟨rfl, rfl⟩
    rfl

end Transfer

namespace Apply

-- The name under which a copy is staged.
def finalName (copy : Plan.Copy) : Option Text :=
  (PathSchema.render copy.titleId copy.placement).toOption.bind Path.fileName

theorem finalName_of {copy : Plan.Copy} {dest name : Text}
    (hdest : PathSchema.render copy.titleId copy.placement = .ok dest)
    (hname : Path.fileName dest = some name) : finalName copy = some name := by
  rw [finalName, hdest]
  exact hname

theorem finalName_fits {copy : Plan.Copy} {name : Text} (h : finalName copy = some name) :
    PathSchema.Fitting name ∧ PathSchema.IsName name ∧ '.' ∈ name := by
  unfold finalName at h
  cases hdest : PathSchema.render copy.titleId copy.placement with
  | error e => rw [hdest] at h; cases h
  | ok dest => rw [hdest] at h; exact Transfer.rendered_fits hdest h

def layoutOf (root : Text) (titleId : TitleId) (name : Text) : StagingLayout :=
  .fromStaged (stagingPlace root titleId name)

-- A copy of another title, or one whose file is staged under other names.
def Elsewhere (a : Plan.Copy) (name : Text) (copy : Plan.Copy) : Prop :=
  copy.titleId ≠ a.titleId ∨ ∀ other, finalName copy = some other → other ∉ stagedNames name

-- Then its staging touches neither the partial file of the first nor its sidecar.
structure Clear (layout own : StagingLayout) : Prop where
  partialPath : ¬layout.Private own.partialPath
  sidecar : own.sidecar ≠ layout.sidecar

theorem Elsewhere.clear {a copy : Plan.Copy} {name other : Text} (ha : finalName a = some name)
    (hcopy : finalName copy = some other) (h : Elsewhere a name copy) (root : Text) :
    Clear (layoutOf root copy.titleId other) (layoutOf root a.titleId name) := by
  obtain ⟨hfit, hisName, -⟩ := finalName_fits ha
  obtain ⟨hfit', hisName', -⟩ := finalName_fits hcopy
  have hplaces : ∀ n ∈ stagedNames name, ∀ n' ∈ stagedNames other,
      stagingPlace root a.titleId n = stagingPlace root copy.titleId n' →
        copy.titleId = a.titleId ∧ n = n' := by
    intro n hn n' hn' hsame
    rw [Transfer.stagingPlace_titles
      (Transfer.isAbsolute_of_fitting (Transfer.fitting_staged hfit n hn))
      (Transfer.isAbsolute_of_fitting (Transfer.fitting_staged hfit' n' hn'))] at hsame
    exact ⟨hsame.1.symm, hsame.2⟩
  -- Of the names of the first only the suffixed ones count.
  have hnames : copy.titleId = a.titleId → other ≠ name ∧ other ≠ name ++ ".partial".toList := by
    intro htitle
    rcases h with h | h
    · exact absurd htitle h
    · have hother := h other hcopy
      simp only [stagedNames, List.mem_cons, List.not_mem_nil, or_false, not_or] at hother
      exact ⟨hother.1, hother.2.1⟩
  have hsuffix : ∀ suffix, stagingPlace root a.titleId name ++ suffix =
      stagingPlace root a.titleId (name ++ suffix) :=
    Transfer.stagingPlace_append hfit hisName.ne
  have hsuffix' : ∀ suffix, stagingPlace root copy.titleId other ++ suffix =
      stagingPlace root copy.titleId (other ++ suffix) :=
    Transfer.stagingPlace_append hfit' hisName'.ne
  constructor
  · rintro (hstaged | hunfinished)
    · have hsame := (hsuffix _).symm.trans hstaged
      obtain ⟨htitle, he⟩ := hplaces _ (by simp [stagedNames]) other (by simp [stagedNames]) hsame
      exact (hnames htitle).2 he.symm
    · have hsame := (hsuffix _).symm.trans (hunfinished.trans (hsuffix' _))
      obtain ⟨htitle, he⟩ := hplaces _ (by simp [stagedNames]) _ (by simp [stagedNames]) hsame
      exact (hnames htitle).1 (List.append_cancel_right he).symm
  · intro hsidecar
    have hsame := (hsuffix _).symm.trans (hsidecar.trans (hsuffix' _))
    obtain ⟨htitle, he⟩ := hplaces _ (by simp [stagedNames]) _ (by simp [stagedNames]) hsame
    exact (hnames htitle).1 (List.append_cancel_right he).symm

-- The directory of a title holds the staged files of no other title.
theorem under_stagingDir {root : Text} {titleId titleId' : TitleId} {name : Text}
    (hname : Path.isAbsolute name = false)
    (h : under (stagingDir root titleId') (stagingPlace root titleId name) = true) :
    titleId' = titleId := by
  obtain ⟨front, hfront⟩ := Path.join_front root
  have htoken := Path.isAbsolute_of_free titleId'.stagingToken_slash
  have hincoming : Path.join root "_incoming" = front ++ "_incoming".toList := hfront _ rfl
  have hdir : stagingDir root titleId' =
      front ++ "_incoming".toList ++ '/' :: titleId'.stagingToken := by
    rw [stagingDir, hincoming]
    exact Path.join_plain (by simp) (by simp) htoken
  obtain ⟨rest, hrest⟩ := List.isPrefixOf_iff_prefix.mp h
  rw [hdir, Transfer.stagingPlace_front hfront titleId hname] at hrest
  have hcut : titleId'.stagingToken ++ '/' :: rest = titleId.stagingToken ++ '/' :: name := by
    simpa [List.append_assoc] using hrest
  exact TitleId.stagingToken_injective (Text.cut_unique titleId'.stagingToken_slash
    titleId.stagingToken_slash hcut).1

end Apply

end Mediaops
