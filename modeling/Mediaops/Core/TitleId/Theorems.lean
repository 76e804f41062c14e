import Mediaops.Core.TitleId
import Mediaops.Library.Checks
import Mediaops.Library.Text.Lemmas

namespace Mediaops.TitleId

-- The text of a title id: what a reader makes of it, and that nothing longer
-- reads as an id with a dash after it.

theorem kind_parse {raw : Text} {kind : TitleKind} :
    TitleKind.parse raw = .ok kind ↔ raw = kind.asStr := by
  unfold TitleKind.parse
  constructor
  · intro h
    split_ifs at h with hmovie hseries halbum <;> cases h <;> assumption
  · rintro rfl
    cases kind <;> rfl

theorem source_parse {raw : Text} {source : TitleSource} :
    TitleSource.parse raw = .ok source ↔ raw = source.asStr := by
  unfold TitleSource.parse
  constructor
  · intro h
    split_ifs at h with htmdb htvdb hmbid hkey <;> cases h <;> assumption
  · rintro rfl
    cases source <;> rfl

theorem kind_free (kind : TitleKind) : ':' ∉ kind.asStr := by
  cases kind <;> decide

theorem source_free (source : TitleSource) : ':' ∉ source.asStr := by
  cases source <;> decide

theorem kind_dash (kind : TitleKind) : '-' ∉ kind.asStr := by
  cases kind <;> decide

theorem source_dash (source : TitleSource) : '-' ∉ source.asStr := by
  cases source <;> decide

theorem mbid_length {text : Text} (h : isMbid text = true) : text.length = 36 := by
  have hjoin := Text.joinWith_split '-' text
  unfold isMbid at h
  split at h
  · next a b c d e hpieces =>
      simp only [Bool.and_eq_true, beq_iff_eq] at h
      obtain ⟨⟨⟨⟨⟨ha, hb⟩, hc⟩, hd⟩, he⟩, -⟩ := h
      rw [hpieces] at hjoin
      rw [← hjoin]
      simp [Text.joinWith, List.intercalate, ha, hb, hc, hd, he]
  · cases h

theorem isMbid_dash {left right : Text} (hleft : isMbid left = true) :
    isMbid (left ++ '-' :: right) = false := by
  unfold isMbid at hleft ⊢
  rw [Text.split_append (by simp)]
  split at hleft
  · next a b c d e hpieces =>
      obtain ⟨f, rest, hright⟩ := Text.split_cons (· == '-') right
      rw [hpieces, hright]
      rfl
  · cases hleft

variable [UnicodeTables]

theorem fromParts_ok {kind : TitleKind} {source : TitleSource} {raw : Text} {id : TitleId}
    (h : fromParts kind source raw = .ok id) :
    id.kind = kind ∧ id.source = source ∧ validId source raw = true := by
  unfold fromParts at h
  split_ifs at h with hpair hident hm <;> cases h <;> exact ⟨rfl, rfl, hident⟩

-- An id is kept as it was given, but for the case of an mbid.
theorem fromParts_id {kind : TitleKind} {source : TitleSource} {raw : Text} {id : TitleId}
    (h : fromParts kind source raw = .ok id) :
    id.id = if source = .Mbid then Text.toAsciiLowercase raw else raw := by
  unfold fromParts at h
  split_ifs at h with hpair hident hm
  · cases h
    rw [if_pos hm]
  · cases h
    rw [if_neg hm]

theorem fromParts_self (id : TitleId) : fromParts id.kind id.source id.id = .ok id := by
  unfold fromParts
  rw [dif_pos id.pair, dif_pos id.ident]
  by_cases hm : id.source = .Mbid
  · rw [dif_pos hm]
    congr
    exact id.lower hm
  · rw [dif_neg hm]

theorem parse_ok {raw : Text} {id : TitleId} (h : parse raw = .ok id) :
    ∃ rest, raw = id.kind.asStr ++ ':' :: (id.source.asStr ++ ':' :: rest) ∧
      fromParts id.kind id.source rest = .ok id := by
  unfold parse at h
  split at h
  · cases h
  next kindRaw afterKind hkindSplit =>
    split at h
    · cases h
    next sourceRaw rest hsourceSplit =>
      obtain ⟨-, h₁⟩ := Checks.guard_ok h
      obtain ⟨kind, hkind, h₂⟩ := Checks.bind_ok h₁
      obtain ⟨source, hsource, h₃⟩ := Checks.bind_ok h₂
      obtain ⟨rfl, rfl, -⟩ := fromParts_ok h₃
      obtain ⟨hraw, -⟩ := Text.splitOnce_some hkindSplit
      obtain ⟨hafter, -⟩ := Text.splitOnce_some hsourceSplit
      refine ⟨rest, ?_, h₃⟩
      rw [hraw, hafter, kind_parse.mp hkind, source_parse.mp hsource]

theorem render_eq (id : TitleId) :
    id.render = id.kind.asStr ++ ':' :: (id.source.asStr ++ ':' :: id.id) := by
  simp [render]

theorem parse_render (id : TitleId) : parse id.render = .ok id := by
  have hkind : id.kind.asStr ≠ [] := by cases id.kind <;> decide
  have hsource : id.source.asStr ≠ [] := by cases id.source <;> decide
  unfold parse
  rw [render_eq, Text.splitOnce_append (kind_free _)]
  dsimp only
  rw [Text.splitOnce_append (source_free _)]
  dsimp only
  rw [if_neg (by simp [hkind, hsource]), kind_parse.mpr rfl, source_parse.mpr rfl]
  exact fromParts_self id

theorem render_injective : Function.Injective render := by
  intro left right h
  have hparse := parse_render left
  rw [h, parse_render right] at hparse
  exact (Except.ok.inj hparse).symm

theorem dash_free {source : TitleSource} {raw : Text} (hsource : source ≠ .Mbid)
    (h : validId source raw = true) : '-' ∉ raw := by
  intro hdash
  cases source with
  | Mbid => exact hsource rfl
  | Tmdb | Tvdb =>
      simp only [validId, Bool.and_eq_true, List.all_eq_true] at h
      exact absurd (h.2.1 _ hdash) (by decide)
  | Key =>
      simp only [validId, Bool.and_eq_true, isKeyId, List.all_eq_true] at h
      have hsplit : ∃ segment ∈ Text.split (· == '.') raw, '-' ∈ segment :=
        Text.mem_split_of_mem hdash (by decide)
      obtain ⟨segment, hsegment, hmem⟩ := hsplit
      have hclean := (h.2 segment hsegment).2 _ hmem
      rw [UnicodeTables.isAlphanumeric_ascii _ (by decide)] at hclean
      exact absurd hclean.1 (by decide)

-- The end of an id of a known source is visible to whoever reads on past a dash.
theorem id_cut {left right : TitleId} {rest rest' : Text} (hsource : left.source = right.source)
    (h : left.id ++ '-' :: rest = right.id ++ '-' :: rest') : left.id = right.id ∧ rest = rest' := by
  by_cases hm : left.source = .Mbid
  · have hleft := left.ident
    have hright := right.ident
    rw [hm, validId, Bool.and_eq_true] at hleft
    rw [← hsource, hm, validId, Bool.and_eq_true] at hright
    have hlen : left.id.length = right.id.length := by
      rw [mbid_length hleft.2, mbid_length hright.2]
    have happ := List.append_inj h hlen
    exact ⟨happ.1, (List.cons.inj happ.2).2⟩
  · have hm' : right.source ≠ .Mbid := fun e => hm (hsource.trans e)
    exact Text.cut_unique (dash_free hm left.ident) (dash_free hm' right.ident) h

theorem eq_of_parts {left right : TitleId} (hkind : left.kind = right.kind)
    (hsource : left.source = right.source) (hid : left.id = right.id) : left = right := by
  cases left
  cases right
  cases hkind
  cases hsource
  cases hid
  rfl

theorem stagingToken_eq (id : TitleId) :
    id.stagingToken = id.kind.asStr ++ '-' :: (id.source.asStr ++ '-' :: id.id) := by
  simp [stagingToken]

-- So a staging token can be told from what follows it.
theorem stagingToken_cut {left right : TitleId} {rest rest' : Text}
    (h : left.stagingToken ++ '-' :: rest = right.stagingToken ++ '-' :: rest') :
    left = right ∧ rest = rest' := by
  rw [stagingToken_eq, stagingToken_eq] at h
  simp only [List.append_assoc, List.cons_append] at h
  obtain ⟨hkind, h⟩ := Text.cut_unique (kind_dash _) (kind_dash _) h
  obtain ⟨hsource, h⟩ := Text.cut_unique (source_dash _) (source_dash _) h
  have hkind : left.kind = right.kind := by
    have hread := kind_parse.mpr (rfl : left.kind.asStr = left.kind.asStr)
    rw [hkind, kind_parse.mpr rfl] at hread
    exact (Except.ok.inj hread).symm
  have hsource : left.source = right.source := by
    have hread := source_parse.mpr (rfl : left.source.asStr = left.source.asStr)
    rw [hsource, source_parse.mpr rfl] at hread
    exact (Except.ok.inj hread).symm
  obtain ⟨hid, hrest⟩ := id_cut hsource h
  exact ⟨eq_of_parts hkind hsource hid, hrest⟩

theorem stagingToken_injective : Function.Injective stagingToken := by
  intro left right h
  have hcut : left.stagingToken ++ '-' :: [] = right.stagingToken ++ '-' :: [] := by rw [h]
  exact (stagingToken_cut hcut).1

-- What reads as an id is never an id's text cut at a dash.
theorem render_cut {raw rest : Text} {id other : TitleId} (hparse : parse raw = .ok other)
    (h : id.render = raw ++ '-' :: rest) : False := by
  obtain ⟨tail, rfl, hparts⟩ := parse_ok hparse
  have hread := parse_render id
  have hsame : parse id.render = fromParts other.kind other.source (tail ++ '-' :: rest) := by
    have hkind : other.kind.asStr ≠ [] := by cases other.kind <;> decide
    have hsource : other.source.asStr ≠ [] := by cases other.source <;> decide
    rw [h, parse, List.append_assoc, List.cons_append, Text.splitOnce_append (kind_free _)]
    dsimp only
    rw [List.append_assoc, List.cons_append, Text.splitOnce_append (source_free _)]
    dsimp only
    rw [if_neg (by simp [hkind, hsource]), kind_parse.mpr rfl, source_parse.mpr rfl]
    rfl
  rw [hread] at hsame
  obtain ⟨-, -, hlong⟩ := fromParts_ok hsame.symm
  obtain ⟨-, -, hshort⟩ := fromParts_ok hparts
  by_cases hm : other.source = .Mbid
  · rw [hm] at hlong hshort
    simp only [validId, Bool.and_eq_true] at hlong hshort
    rw [isMbid_dash hshort.2] at hlong
    exact absurd hlong.2 Bool.noConfusion
  · exact dash_free hm hlong (by simp)

end Mediaops.TitleId
