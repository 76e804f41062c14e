import Mediaops.Core.PathSchema.SceneTags
import Mediaops.Core.PathSchema.Theorems

namespace Mediaops.PathSchema

-- What the approval of a hold lets through, and what it rewrites.

-- The display tokens that the approval does not look at.
def unguardedTokens : Placement → List Text
  | .Movie .. => []
  | .Episode _ _ _ _ _ episodeTitle _ => episodeTitle.toList
  | .Track artist .. => [artist]

-- An episode title that is there is not empty.
def Named : Placement → Prop
  | .Episode _ _ _ _ _ episodeTitle _ => episodeTitle ≠ some []
  | _ => True

theorem stripPlacement_eq_self {placement : Placement} (hnamed : Named placement)
    (hguarded : ∀ token ∈ placementTokens placement, stripSceneTags token = token) :
    stripPlacement placement = placement ↔
      ∀ token ∈ unguardedTokens placement, stripSceneTags token = token := by
  cases placement with
  | Movie title year extension =>
      have htitle := hguarded title (by simp [placementTokens])
      simp [stripPlacement, unguardedTokens, htitle]
  | Episode title year season episode last episodeTitle extension =>
      have htitle := hguarded title (by simp [placementTokens])
      cases episodeTitle with
      | none => simp [stripPlacement, Placement.episodeTitled, unguardedTokens, htitle]
      | some name =>
          have hname : name ≠ [] := fun h => hnamed (by rw [h])
          by_cases hstrip : stripSceneTags name = name
          · simp [stripPlacement, Placement.episodeTitled, unguardedTokens, htitle, hstrip, hname]
          · by_cases hnil : stripSceneTags name = []
            · simp [stripPlacement, Placement.episodeTitled, unguardedTokens, hnil, hname.symm]
            · simp [stripPlacement, Placement.episodeTitled, unguardedTokens, htitle, hstrip]
  | Track artist album year disc track title extension =>
      have halbum := hguarded album (by simp [placementTokens])
      have htitle := hguarded title (by simp [placementTokens])
      simp [stripPlacement, unguardedTokens, halbum, htitle]

variable [UnicodeTables]

theorem preflight_ok {titleId : TitleId} {placement result : Placement}
    (h : preflightApprovePlacement titleId placement = .ok result) :
    (∀ token ∈ placementTokens placement, stripSceneTags token = token) ∧
      result = stripPlacement placement ∧ ∃ path, render titleId result = .ok path := by
  unfold preflightApprovePlacement at h
  cases hspace : (placementTokens placement).find? fun t => t.any Text.isWhitespace with
  | some token =>
      rw [hspace] at h
      cases h
  | none =>
      cases htag : (placementTokens placement).find? fun t => stripSceneTags t ≠ t with
      | some token =>
          rw [hspace, htag] at h
          cases h
      | none =>
          rw [hspace, htag] at h
          obtain ⟨path, hrender, hresult⟩ := Checks.bind_ok h
          cases hresult
          refine ⟨fun token htoken => ?_, rfl, path, hrender⟩
          simpa using List.find?_eq_none.mp htag token htoken

-- An approval leaves the placement as it was exactly when no piece of an unguarded
-- token is a scene tag.
theorem approval_unchanged {titleId : TitleId} {placement result : Placement}
    (hnamed : Named placement) (h : preflightApprovePlacement titleId placement = .ok result) :
    (result = placement ∧ ∃ path, render titleId placement = .ok path) ↔
      ∀ token ∈ unguardedTokens placement, Tagless token := by
  obtain ⟨hguarded, rfl, path, hrender⟩ := preflight_ok h
  have hfixed : stripPlacement placement = placement ↔
      ∀ token ∈ unguardedTokens placement, Tagless token := by
    rw [stripPlacement_eq_self hnamed hguarded]
    exact forall₂_congr fun token _ => stripSceneTags_eq_self
  constructor
  · rintro ⟨hsame, -⟩
    exact hfixed.mp hsame
  · intro hunguarded
    have hsame := hfixed.mpr hunguarded
    rw [hsame] at hrender
    exact ⟨hsame, path, hrender⟩

omit [UnicodeTables] in
theorem approval_unchanged_pilot :
    let := UnicodeTables.ascii
    Named (Sample.pilot "Pilot") ∧
      preflightApprovePlacement Sample.series (Sample.pilot "Pilot") = .ok (Sample.pilot "Pilot") ∧
      ∃ path, render Sample.series (Sample.pilot "Pilot") = .ok path := by
  intro _
  have hnamed : Named (Sample.pilot "Pilot") := by
    intro h
    cases h
  have hpassed : preflightApprovePlacement Sample.series (Sample.pilot "Pilot") =
      .ok (Sample.pilot "Pilot") := by decide +kernel
  have htagless : ∀ token ∈ unguardedTokens (Sample.pilot "Pilot"), Tagless token := by
    decide +kernel
  exact ⟨hnamed, hpassed, ((approval_unchanged hnamed hpassed).mpr htagless).2⟩

omit [UnicodeTables] in
-- The tag in an episode title is taken out without a word.
theorem approval_rewrites_title :
    let := UnicodeTables.ascii
    Named (Sample.pilot "Pilot.REPACK") ∧
      preflightApprovePlacement Sample.series (Sample.pilot "Pilot.REPACK") =
        .ok (Sample.pilot "Pilot") ∧ Sample.pilot "Pilot" ≠ Sample.pilot "Pilot.REPACK" := by
  intro _
  refine ⟨fun h => ?_, by decide +kernel, by decide +kernel⟩
  cases h

end Mediaops.PathSchema
