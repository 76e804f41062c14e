import Mediaops.Api.SyncPlan
import Mediaops.Core.TitleId.Theorems

namespace Mediaops.SyncPlan

-- Titles and files are told apart by their texts: the identity on the wire, the
-- name of the staging directory and the name of the Job.

theorem decimal_dash (n : Nat) : '-' ∉ Text.decimal n := by
  intro h
  exact absurd (Text.isDigit_decimal h) (by decide)

-- Two numbers written with one letter each.
theorem pair_unique {a b a' b' : Nat} (mark : Char) {mark' : Char}
    (h : mark :: (Text.decimal a ++ '-' :: mark' :: Text.decimal b) =
      mark :: (Text.decimal a' ++ '-' :: mark' :: Text.decimal b')) : a = a' ∧ b = b' := by
  obtain ⟨ha, hb⟩ := Text.cut_unique (decimal_dash a) (decimal_dash a') (List.cons.inj h).2
  exact ⟨Text.decimal_injective ha, Text.decimal_injective (List.cons.inj hb).2⟩

theorem keyText_injective : Function.Injective keyText := by
  intro left right h
  cases left with
  | Whole => cases right <;> first | rfl | cases h
  | Episode season episode =>
      cases right with
      | Episode season' episode' =>
          have hpair : season = season' ∧ episode = episode' :=
            pair_unique 's' (by simpa [keyText] using h)
          rw [hpair.1, hpair.2]
      | Whole => cases h
      | Track disc track => cases h
  | Track disc track =>
      cases right with
      | Track disc' track' =>
          have hpair : disc = disc' ∧ track = track' :=
            pair_unique 'd' (by simpa [keyText] using h)
          rw [hpair.1, hpair.2]
      | Whole => cases h
      | Episode season episode => cases h

variable [UnicodeTables]

theorem jobName_injective {id id' : TitleId} {placement placement' : Placement}
    (h : jobName id placement = jobName id' placement') :
    id = id' ∧ placement.fileKey = placement'.fileKey := by
  unfold jobName at h
  simp only [List.append_assoc] at h
  obtain ⟨hid, hkey⟩ := TitleId.stagingToken_cut (List.append_cancel_left h)
  exact ⟨hid, keyText_injective hkey⟩

theorem identity_faithful :
    (∀ id : TitleId, TitleId.parse id.render = .ok id) ∧
    (∀ (text : Text) (id : TitleId), TitleId.parse text = .ok id →
      ∃ raw, text = id.kind.asStr ++ ":".toList ++ id.source.asStr ++ ":".toList ++ raw ∧
        id.id = if id.source = .Mbid then Text.toAsciiLowercase raw else raw) ∧
    Function.Injective TitleId.stagingToken ∧
    ∀ (id id' : TitleId) (placement placement' : Placement),
      jobName id placement = jobName id' placement' →
        id = id' ∧ placement.fileKey = placement'.fileKey := by
  refine ⟨TitleId.parse_render, ?_, TitleId.stagingToken_injective, ?_⟩
  · intro text id h
    obtain ⟨raw, htext, hparts⟩ := TitleId.parse_ok h
    exact ⟨raw, by simp [htext], TitleId.fromParts_id hparts⟩
  · intro id id' placement placement' h
    exact jobName_injective h

end Mediaops.SyncPlan
