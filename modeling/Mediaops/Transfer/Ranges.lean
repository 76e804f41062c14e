import Mediaops.Transfer.Calls

namespace Mediaops.Transfer

section Plan

variable {fileLen rangeLen : Nat}

theorem planFrom_within {fuel offset : Nat} {range : Nat × Nat}
    (h : range ∈ planFrom fileLen rangeLen fuel offset) : range.1 + range.2 ≤ fileLen := by
  induction fuel generalizing offset with
  | zero => cases h
  | succ fuel ih =>
      unfold planFrom at h
      by_cases ho : offset < fileLen
      · rw [if_pos ho] at h
        rcases List.mem_cons.mp h with rfl | h
        · dsimp only
          omega
        · exact ih h
      · rw [if_neg ho] at h
        cases h

-- No byte from `offset` on is left out while there is fuel for one byte a piece.
theorem planFrom_covers (hr : 0 < rangeLen) {fuel offset j : Nat} (hf : fileLen ≤ offset + fuel)
    (hj : offset ≤ j) (hlt : j < fileLen) :
    ∃ range ∈ planFrom fileLen rangeLen fuel offset, range.1 ≤ j ∧ j < range.1 + range.2 := by
  induction fuel generalizing offset with
  | zero => omega
  | succ fuel ih =>
      have ho : offset < fileLen := by omega
      unfold planFrom
      rw [if_pos ho]
      by_cases hin : j < offset + min rangeLen (fileLen - offset)
      · exact ⟨_, List.mem_cons_self, hj, hin⟩
      · have hlen : 1 ≤ min rangeLen (fileLen - offset) := by omega
        obtain ⟨range, hmem, hcov⟩ :=
          @ih (offset + min rangeLen (fileLen - offset)) (by omega) (by omega)
        exact ⟨range, List.mem_cons_of_mem _ hmem, hcov⟩

theorem planRanges_within {range : Nat × Nat} (h : range ∈ planRanges fileLen rangeLen) :
    range.1 + range.2 ≤ fileLen := by
  unfold planRanges at h
  by_cases hz : fileLen = 0 ∨ rangeLen = 0
  · rw [if_pos hz] at h
    cases h
  · rw [if_neg hz] at h
    exact planFrom_within h

theorem planRanges_covers (hr : 0 < rangeLen) {j : Nat} (hlt : j < fileLen) :
    ∃ range ∈ planRanges fileLen rangeLen, range.1 ≤ j ∧ j < range.1 + range.2 := by
  unfold planRanges
  rw [if_neg (by omega)]
  exact planFrom_covers hr (by omega) (Nat.zero_le j) hlt

end Plan

section Slots

variable {index : Nat}

theorem splitSlots_one (slots : Nat) (todo : List (Nat × Nat)) :
    splitSlots slots [{ index, remaining := todo }] =
      ((todo.take slots).map fun range => (index, range),
        [{ index, remaining := todo.drop slots }]) := by
  induction slots generalizing todo with
  | zero => rfl
  | succ slots ih =>
      cases todo with
      | nil => rfl
      | cons range todo =>
          have hnext := ih todo
          simp only [splitSlots, largestAt, List.cons_ne_nil, ↓reduceIte, List.modify_zero_cons,
            popRange, List.tail_cons, hnext, List.take_succ_cons, List.map_cons,
            List.drop_succ_cons]

theorem takeSlots_one {slots : Nat} (hs : 0 < slots) (todo : List (Nat × Nat)) :
    takeSlots [{ index, remaining := todo }] slots =
      ((todo.take slots).map fun range => (index, range),
        [{ index, remaining := todo.drop slots }]) := by
  obtain ⟨slots, rfl⟩ : ∃ n, slots = n + 1 := ⟨slots - 1, by omega⟩
  cases todo with
  | nil => simp [takeSlots, firstSlots, splitSlots_one]
  | cons range todo =>
      have hrest : firstSlots slots [] = ([], []) := by cases slots <;> rfl
      simp [takeSlots, firstSlots, hrest, splitSlots_one]

-- The one file of a pull gives the front of its list.
theorem batchOf_eq (todo : List (Nat × Nat)) (concurrency : Nat) :
    batchOf todo concurrency = (todo.take (max concurrency 1), todo.drop (max concurrency 1)) := by
  unfold batchOf
  rw [takeSlots_one (by omega)]
  simp [Function.comp_def]

end Slots

namespace Sidecar

theorem has_iff {sidecar : Sidecar} {offset len : Nat} :
    sidecar.has offset len = true ↔ ∃ r ∈ sidecar.ranges, r.offset = offset ∧ r.len = len := by
  simp [has]

variable {sidecar : Sidecar} {offset len : Nat} {blake3 : Text}

theorem has_record : (sidecar.record offset len blake3).has offset len = true := by
  unfold record
  by_cases h : sidecar.has offset len = true
  · rw [if_pos h]; exact h
  · rw [if_neg h]
    simp [has]

theorem record_mono {o l : Nat} (h : sidecar.has o l = true) :
    (sidecar.record offset len blake3).has o l = true := by
  obtain ⟨r, hr, hrange⟩ := has_iff.mp h
  unfold record
  by_cases hin : sidecar.has offset len = true
  · rw [if_pos hin]; exact h
  · rw [if_neg hin]
    exact has_iff.mpr ⟨r, List.mem_append_left _ hr, hrange⟩

theorem mem_record {r : SidecarRange} (h : r ∈ (sidecar.record offset len blake3).ranges) :
    r ∈ sidecar.ranges ∨ r = { offset, len, blake3 } := by
  unfold record at h
  by_cases hin : sidecar.has offset len = true
  · rw [if_pos hin] at h; exact .inl h
  · rw [if_neg hin] at h
    exact (List.mem_append.mp h).imp_right List.mem_singleton.mp

-- Only the list of ranges changes.
theorem record_eq : sidecar.record offset len blake3 =
    { sidecar with ranges := (sidecar.record offset len blake3).ranges } := by
  unfold record
  by_cases hin : sidecar.has offset len = true
  · rw [if_pos hin]
  · rw [if_neg hin]

end Sidecar

theorem has_of_not_remaining {planned : List (Nat × Nat)} {sidecar : Sidecar} {range : Nat × Nat}
    (hp : range ∈ planned) (h : range ∉ remaining planned sidecar) :
    sidecar.has range.1 range.2 = true := by
  by_contra hhas
  exact h (List.mem_filter.mpr ⟨hp, by simpa using hhas⟩)

-- Two files agree on a range, byte by byte.
def Matches (a b : Bytes) (offset len : Nat) : Prop :=
  ∀ j, offset ≤ j → j < offset + len → a[j]? = b[j]?

section Matches

variable {a b c : Bytes} {offset len : Nat}

theorem matches_of_slice (h : Bytes.slice offset len a = Bytes.slice offset len b) :
    Matches a b offset len := by
  intro j hlo hhi
  have hat := congrArg (fun bytes => bytes[j - offset]?) h
  simp only [Bytes.getElem?_slice (show j - offset < len by omega)] at hat
  rwa [Nat.add_sub_cancel' hlo] at hat

theorem getElem?_overwrite_slice (hfit : offset + len ≤ a.length)
    (hlen : (Bytes.slice offset len b).length = len) {j : Nat} (hlo : offset ≤ j)
    (hhi : j < offset + len) :
    (Bytes.overwrite offset (Bytes.slice offset len b) a)[j]? = b[j]? := by
  obtain ⟨k, rfl⟩ := Nat.exists_eq_add_of_le hlo
  rw [Bytes.getElem?_overwrite_of_mem (by omega) (by omega), Bytes.getElem?_slice (by omega)]

-- A write of the other file's bytes keeps every agreement there was.
theorem Matches.overwrite {o l : Nat} (h : Matches a b o l)
    (hfit : offset + len ≤ a.length) (hlen : (Bytes.slice offset len b).length = len) :
    Matches (Bytes.overwrite offset (Bytes.slice offset len b) a) b o l := by
  intro j hlo hhi
  by_cases hlt : j < offset
  · rw [Bytes.getElem?_overwrite_of_lt (by omega) hlt]
    exact h j hlo hhi
  by_cases hge : offset + len ≤ j
  · rw [Bytes.getElem?_overwrite_of_ge (by omega) (by rw [hlen]; exact hge)]
    exact h j hlo hhi
  exact getElem?_overwrite_slice hfit hlen (by omega) (by omega)

theorem matches_overwrite (hfit : offset + len ≤ a.length)
    (hlen : (Bytes.slice offset len b).length = len) :
    Matches (Bytes.overwrite offset (Bytes.slice offset len b) a) b offset len := by
  intro j hlo hhi
  exact getElem?_overwrite_slice hfit hlen (by omega) (by omega)

theorem Matches.resize {fileLen : Nat} (h : Matches a b offset len) (hfit : offset + len ≤ fileLen)
    (ha : offset + len ≤ a.length) : Matches (Bytes.resize fileLen a) b offset len := by
  intro j hlo hhi
  rw [Bytes.getElem?_resize (by omega) (by omega)]
  exact h j hlo hhi

-- A file that agrees on every byte of its length is the beginning of the other.
theorem eq_take_of_matches {fileLen : Nat} (hlen : a.length = fileLen)
    (h : ∀ j, j < fileLen → a[j]? = b[j]?) : fileLen ≤ b.length ∧ a = b.take fileLen := by
  have hle : fileLen ≤ b.length := by
    by_contra hlt
    have hlast := h b.length (by omega)
    rw [List.getElem?_eq_none (Nat.le_refl _), List.getElem?_eq_none_iff] at hlast
    omega
  refine ⟨hle, List.ext_getElem? fun j => ?_⟩
  by_cases hj : j < fileLen
  · rw [h j hj, List.getElem?_take_of_lt hj]
  · rw [List.getElem?_eq_none (by omega), List.getElem?_eq_none (by simp; omega)]

end Matches

end Mediaops.Transfer
