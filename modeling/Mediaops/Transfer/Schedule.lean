import Mathlib.Algebra.Order.BigOperators.Group.List
import Mathlib.Algebra.Order.Group.Nat
import Mediaops.Transfer.Ranges

namespace Mediaops.Transfer

-- The plan of a file's ranges in the program's own integers, and how the slots of a
-- round are given to the files.

-- `a - b` and `a + b` of u64, none where they would leave the type.
def u64Sub (a b : UInt64) : Option UInt64 := if b ≤ a then some (a - b) else none

def u64Add (a b : UInt64) : Option UInt64 := if a.toNat + b.toNat < 2 ^ 64 then some (a + b) else none

-- The loop of `plan_ranges`; none when it has not ended or has left the type.
def planLoop (fileLen rangeLen : UInt64) : Nat → UInt64 → Option (List (UInt64 × UInt64))
  | 0, _ => none
  | fuel + 1, offset =>
      if offset < fileLen then do
        let rest ← u64Sub fileLen offset
        let len := min rangeLen rest
        let next ← u64Add offset len
        let pieces ← planLoop fileLen rangeLen fuel next
        pure ((offset, len) :: pieces)
      else pure []

def planRangesU64 (fileLen rangeLen : UInt64) : Option (List (UInt64 × UInt64)) :=
  if fileLen = 0 ∨ rangeLen = 0 then some []
  else planLoop fileLen rangeLen (fileLen.toNat + 1) 0

-- Pieces that follow each other from `start` to `stop`.
def Tiles (start stop : Nat) : List (Nat × Nat) → Prop
  | [] => start = stop
  | (offset, len) :: rest => offset = start ∧ Tiles (start + len) stop rest

-- `iter().sum::<u64>()`
def sumU64 : Nat → List Nat → Option Nat
  | total, [] => some total
  | total, n :: rest => if total + n < 2 ^ 64 then sumU64 (total + n) rest else none

-- The keys of one `max_by_key`: none where a sum leaves the type.
def keysFit (files : List PendingFile) : Bool :=
  (files.filter (·.remaining ≠ [])).all fun file => (sumU64 0 (file.remaining.map Prod.snd)).isSome

def splitSlotsU64 : Nat → List PendingFile → Option (List (Nat × Nat × Nat) × List PendingFile)
  | 0, files => some ([], files)
  | slots + 1, files =>
      if keysFit files then
        match largestAt files with
        | none => some ([], files)
        | some (pos, file) =>
            match file.remaining with
            | [] => some ([], files)
            | range :: _ => do
                let (taken, files) ← splitSlotsU64 slots (files.modify pos popRange)
                pure ((file.index, range) :: taken, files)
      else none

def takeSlotsU64 (files : List PendingFile) (n : Nat) :
    Option (List (Nat × Nat × Nat) × List PendingFile) := do
  let (first, files) := firstSlots n files
  let (more, files) ← splitSlotsU64 (n - first.length) files
  pure (first ++ more, files)

section Plan

theorem toNat_min (a b : UInt64) : (min a b).toNat = min a.toNat b.toNat := by
  have hdef : min a b = if a ≤ b then a else b := rfl
  rw [hdef]
  by_cases h : a ≤ b
  · rw [if_pos h, Nat.min_eq_left (UInt64.le_iff_toNat_le.mp h)]
  · rw [if_neg h, Nat.min_eq_right]
    rw [UInt64.le_iff_toNat_le] at h
    omega

theorem planLoop_eq {fileLen rangeLen : UInt64} (hr : 0 < rangeLen.toNat) {fuel : Nat}
    {offset : UInt64} (hfuel : fileLen.toNat ≤ offset.toNat + fuel) :
    ∃ pieces, planLoop fileLen rangeLen (fuel + 1) offset = some pieces ∧
      pieces.map (fun piece => (piece.1.toNat, piece.2.toNat)) =
        planFrom fileLen.toNat rangeLen.toNat fuel offset.toNat := by
  have hmax := fileLen.toNat_lt
  induction fuel generalizing offset with
  | zero =>
      have hdone : ¬offset < fileLen := by
        rw [UInt64.lt_iff_toNat_lt]
        omega
      exact ⟨[], by simp [planLoop, hdone], rfl⟩
  | succ fuel ih =>
      rw [planLoop, planFrom]
      by_cases hlt : offset < fileLen
      · have hnat := UInt64.lt_iff_toNat_lt.mp hlt
        have hle : offset ≤ fileLen := UInt64.le_of_lt hlt
        have hsub : (fileLen - offset).toNat = fileLen.toNat - offset.toNat :=
          UInt64.toNat_sub_of_le _ _ hle
        have hmin : (min rangeLen (fileLen - offset)).toNat =
            min rangeLen.toNat (fileLen.toNat - offset.toNat) := by
          rw [toNat_min, hsub]
        have hfit : offset.toNat + (min rangeLen (fileLen - offset)).toNat < 2 ^ 64 := by
          rw [hmin]
          omega
        have hnext : (offset + min rangeLen (fileLen - offset)).toNat =
            offset.toNat + min rangeLen.toNat (fileLen.toNat - offset.toNat) := by
          rw [UInt64.toNat_add, Nat.mod_eq_of_lt hfit, hmin]
        have hleft : fileLen.toNat ≤ (offset + min rangeLen (fileLen - offset)).toNat + fuel := by
          rw [hnext]
          omega
        obtain ⟨pieces, hpieces, hsame⟩ := ih hleft
        rw [hnext] at hsame
        refine ⟨(offset, min rangeLen (fileLen - offset)) :: pieces, ?_, ?_⟩
        · rw [if_pos hlt]
          simp only [u64Sub, if_pos hle, u64Add, if_pos hfit, hpieces, Option.bind_eq_bind,
            Option.bind_some, Option.pure_def]
        · rw [if_pos hnat, List.map_cons, hsame, hmin]
      · have hnat : ¬offset.toNat < fileLen.toNat := by rwa [← UInt64.lt_iff_toNat_lt]
        rw [if_neg hlt, if_neg hnat]
        exact ⟨[], rfl, rfl⟩

-- The loop ends within the type, with the plan the pull works from.
theorem planRangesU64_eq (fileLen rangeLen : UInt64) :
    ∃ pieces, planRangesU64 fileLen rangeLen = some pieces ∧
      pieces.map (fun piece => (piece.1.toNat, piece.2.toNat)) =
        planRanges fileLen.toNat rangeLen.toNat := by
  have hzero : ∀ n : UInt64, n = 0 ↔ n.toNat = 0 := fun n => by
    rw [← UInt64.toNat_inj, UInt64.toNat_zero]
  rw [planRangesU64, planRanges]
  simp only [hzero]
  by_cases hnone : fileLen.toNat = 0 ∨ rangeLen.toNat = 0
  · exact ⟨[], by rw [if_pos hnone], by rw [if_pos hnone]; rfl⟩
  · rw [if_neg hnone, if_neg hnone]
    have hfuel : fileLen.toNat ≤ (0 : UInt64).toNat + fileLen.toNat := by simp
    exact planLoop_eq (by omega) hfuel

theorem planFrom_tiles {fileLen rangeLen fuel offset : Nat} (hr : 0 < rangeLen)
    (hle : offset ≤ fileLen) (hfuel : fileLen ≤ offset + fuel) :
    Tiles offset fileLen (planFrom fileLen rangeLen fuel offset) := by
  induction fuel generalizing offset with
  | zero =>
      simp only [planFrom, Tiles]
      omega
  | succ fuel ih =>
      rw [planFrom]
      by_cases hlt : offset < fileLen
      · rw [if_pos hlt]
        exact ⟨rfl, ih (by omega) (by omega)⟩
      · rw [if_neg hlt]
        simp only [Tiles]
        omega

theorem planRanges_tiles (fileLen : Nat) {rangeLen : Nat} (hr : 0 < rangeLen) :
    Tiles 0 fileLen (planRanges fileLen rangeLen) := by
  rw [planRanges]
  by_cases hzero : fileLen = 0
  · rw [if_pos (Or.inl hzero)]
    simp [Tiles, hzero]
  · rw [if_neg (by omega)]
    exact planFrom_tiles hr (Nat.zero_le _) (by omega)

theorem planFrom_sizes {fileLen rangeLen fuel offset : Nat} (hr : 0 < rangeLen) :
    ∀ range ∈ planFrom fileLen rangeLen fuel offset, 0 < range.2 ∧ range.2 ≤ rangeLen := by
  induction fuel generalizing offset with
  | zero => simp [planFrom]
  | succ fuel ih =>
      rw [planFrom]
      by_cases hlt : offset < fileLen
      · rw [if_pos hlt]
        intro range hrange
        rcases List.mem_cons.mp hrange with rfl | hrange
        · dsimp only
          omega
        · exact ih range hrange
      · simp [hlt]

theorem planRanges_sizes {fileLen rangeLen : Nat} (hr : 0 < rangeLen) :
    ∀ range ∈ planRanges fileLen rangeLen, 0 < range.2 ∧ range.2 ≤ rangeLen := by
  rw [planRanges]
  by_cases hnone : fileLen = 0 ∨ rangeLen = 0
  · simp [hnone]
  · rw [if_neg hnone]
    exact planFrom_sizes hr

-- Pieces of a tiling that are not empty are all different.
theorem Tiles.nodup {start stop : Nat} {pieces : List (Nat × Nat)} (h : Tiles start stop pieces)
    (hpos : ∀ piece ∈ pieces, 0 < piece.2) : pieces.Nodup := by
  have hfrom : ∀ start (rest : List (Nat × Nat)), Tiles start stop rest →
      (∀ piece ∈ rest, 0 < piece.2) → ∀ piece ∈ rest, start ≤ piece.1 := by
    intro start rest
    induction rest generalizing start with
    | nil => simp
    | cons first rest ih =>
        intro htiles hpos piece hpiece
        rcases List.mem_cons.mp hpiece with rfl | hpiece
        · exact htiles.1.ge
        · have hnext := ih _ htiles.2 (fun p hp => hpos p (List.mem_cons_of_mem _ hp)) piece hpiece
          omega
  induction pieces generalizing start with
  | nil => exact List.nodup_nil
  | cons first rest ih =>
      have hrest := fun p hp => hpos p (List.mem_cons_of_mem _ hp)
      refine List.nodup_cons.mpr ⟨fun hmem => ?_, ih h.2 hrest⟩
      have hge := hfrom _ rest h.2 hrest first hmem
      have hlen := hpos first List.mem_cons_self
      have hstart := h.1
      omega

theorem planRanges_nodup (fileLen rangeLen : Nat) : (planRanges fileLen rangeLen).Nodup := by
  by_cases hr : 0 < rangeLen
  · exact (planRanges_tiles fileLen hr).nodup fun piece hp => (planRanges_sizes hr piece hp).1
  · have hzero : rangeLen = 0 := by omega
    simp [planRanges, hzero]

end Plan

-- The ranges that the slots have for the file `index`, in order.
def drawn (index : Nat) (slots : List (Nat × Nat × Nat)) : List (Nat × Nat) :=
  slots.filterMap fun slot => if slot.1 = index then some slot.2 else none

-- Every range with its file.
def pairs (files : List PendingFile) : List (Nat × Nat × Nat) :=
  files.flatMap fun file => file.remaining.map fun range => (file.index, range)

-- What the slots have and what the files have left is what the files had: each file's
-- ranges in their order, and nothing of another file.
structure Draws (files : List PendingFile) (slots : List (Nat × Nat × Nat))
    (left : List PendingFile) : Prop where
  each : List.Forall₂ (fun file rest => rest.index = file.index ∧
    file.remaining = drawn file.index slots ++ rest.remaining) files left
  all : (slots ++ pairs left).Perm (pairs files)

section Draws

variable {files mid left : List PendingFile} {slots more : List (Nat × Nat × Nat)}

theorem drawn_append (index : Nat) (slots more : List (Nat × Nat × Nat)) :
    drawn index (slots ++ more) = drawn index slots ++ drawn index more :=
  List.filterMap_append

theorem drawn_of_notMem {index : Nat} (h : index ∉ slots.map Prod.fst) : drawn index slots = [] := by
  rw [drawn, List.filterMap_eq_nil_iff]
  intro slot hslot
  rw [if_neg]
  rintro rfl
  exact h (List.mem_map_of_mem hslot)

theorem pairs_cons (file : PendingFile) (files : List PendingFile) :
    pairs (file :: files) = file.remaining.map (fun range => (file.index, range)) ++ pairs files :=
  List.flatMap_cons

theorem mem_pairs_index {slot : Nat × Nat × Nat} (h : slot ∈ pairs files) :
    slot.1 ∈ files.map PendingFile.index := by
  simp only [pairs, List.mem_flatMap, List.mem_map] at h ⊢
  obtain ⟨file, hfile, range, -, rfl⟩ := h
  exact ⟨file, hfile, rfl⟩

theorem Draws.refl (files : List PendingFile) : Draws files [] files where
  each := by
    rw [List.forall₂_same]
    exact fun file _ => ⟨rfl, rfl⟩
  all := .refl _

theorem Draws.indexes (h : Draws files slots left) :
    left.map PendingFile.index = files.map PendingFile.index := by
  have heach := h.each
  clear h
  induction heach with
  | nil => rfl
  | cons hhead htail ih => rw [List.map_cons, List.map_cons, hhead.1, ih]

theorem Draws.slot_index (h : Draws files slots left) {slot : Nat × Nat × Nat}
    (hslot : slot ∈ slots) : slot.1 ∈ files.map PendingFile.index :=
  mem_pairs_index (h.all.subset (List.mem_append_left _ hslot))

theorem Draws.trans (h : Draws files slots mid) (h' : Draws mid more left) :
    Draws files (slots ++ more) left where
  each := by
    have heach := h.each
    have heach' := h'.each
    clear h h'
    induction heach generalizing left with
    | nil =>
        cases heach'
        exact .nil
    | cons hhead htail ih =>
        cases heach' with
        | cons hhead' htail' =>
            refine .cons ⟨hhead'.1.trans hhead.1, ?_⟩ (ih htail')
            rw [drawn_append, List.append_assoc, ← hhead.1, ← hhead'.2, hhead.1, ← hhead.2]
  all := by
    rw [List.append_assoc]
    exact (h'.all.append_left slots).trans h.all

-- A file in front that the slots have nothing of, or whose first range comes first.
theorem Draws.skip {file : PendingFile} (h : Draws files slots left)
    (hnew : file.index ∉ files.map PendingFile.index) :
    Draws (file :: files) slots (file :: left) where
  each := by
    refine .cons ⟨rfl, ?_⟩ h.each
    rw [drawn_of_notMem, List.nil_append]
    intro hmem
    obtain ⟨slot, hslot, hindex⟩ := List.mem_map.mp hmem
    exact hnew (hindex ▸ h.slot_index hslot)
  all := by
    rw [pairs_cons, pairs_cons, ← List.append_assoc]
    refine (List.perm_append_comm.append_right _).trans ?_
    rw [List.append_assoc]
    exact h.all.append_left _

theorem Draws.take {file : PendingFile} {range : Nat × Nat} {rest : List (Nat × Nat)}
    (h : Draws files slots left) (hnew : file.index ∉ files.map PendingFile.index)
    (hfile : file.remaining = range :: rest) :
    Draws (file :: files) ((file.index, range) :: slots)
      ({ file with remaining := rest } :: left) := by
  have hfirst : Draws (file :: files) [(file.index, range)]
      ({ file with remaining := rest } :: files) := by
    refine ⟨.cons ⟨rfl, by simp [drawn, hfile]⟩ ?_, ?_⟩
    · rw [List.forall₂_same]
      intro other hother
      refine ⟨rfl, ?_⟩
      rw [drawn_of_notMem, List.nil_append]
      intro hmem
      rw [List.map_singleton, List.mem_singleton] at hmem
      change other.index = file.index at hmem
      exact hnew (hmem ▸ List.mem_map_of_mem hother)
    · rw [pairs_cons, pairs_cons, hfile]
      exact .refl _
  have hother : ({ file with remaining := rest } : PendingFile).index ∉
      files.map PendingFile.index := hnew
  exact hfirst.trans (h.skip hother)

-- One range of the file at a place.
theorem draws_modify (h : (files.map PendingFile.index).Nodup) {pos : Nat} {file : PendingFile}
    (hpos : files[pos]? = some file) {range : Nat × Nat} {rest : List (Nat × Nat)}
    (hfile : file.remaining = range :: rest) :
    Draws files [(file.index, range)] (files.modify pos popRange) := by
  induction files generalizing pos with
  | nil => simp at hpos
  | cons first files ih =>
      simp only [List.map_cons, List.nodup_cons] at h
      cases pos with
      | zero =>
          rw [List.getElem?_cons_zero, Option.some.injEq] at hpos
          subst hpos
          rw [List.modify_zero_cons, popRange, hfile, List.tail_cons]
          exact (Draws.refl files).take h.1 hfile
      | succ pos =>
          rw [List.getElem?_cons_succ] at hpos
          exact (ih h.2 hpos).skip h.1

end Draws

section Slots

variable {files : List PendingFile} {n : Nat}

theorem firstSlots_draws (h : (files.map PendingFile.index).Nodup) :
    Draws files (firstSlots n files).1 (firstSlots n files).2 := by
  induction files generalizing n with
  | nil => cases n <;> exact .refl []
  | cons file files ih =>
      simp only [List.map_cons, List.nodup_cons] at h
      cases n with
      | zero => exact .refl _
      | succ slots =>
          rw [firstSlots]
          split
          · exact (ih h.2).skip h.1
          · next range rest hfile => exact (ih h.2).take h.1 hfile

-- The first pass gives a file one slot, and all of them have one if there are enough.
theorem firstSlots_sublist (n : Nat) (files : List PendingFile) :
    ((firstSlots n files).1.map Prod.fst).Sublist (files.map PendingFile.index) := by
  induction files generalizing n with
  | nil => cases n <;> exact .refl []
  | cons file files ih =>
      cases n with
      | zero => exact List.nil_sublist _
      | succ slots =>
          rw [firstSlots]
          split
          · exact (ih (slots + 1)).cons _
          · exact (ih slots).cons_cons _

theorem firstSlots_length (n : Nat) (files : List PendingFile) :
    (firstSlots n files).1.length ≤ n := by
  induction files generalizing n with
  | nil => cases n <;> simp [firstSlots]
  | cons file files ih =>
      cases n with
      | zero => exact Nat.le_refl 0
      | succ slots =>
          rw [firstSlots]
          split
          · exact ih (slots + 1)
          · exact Nat.succ_le_succ (ih slots)

theorem firstSlots_all (n : Nat) (files : List PendingFile) (h : (firstSlots n files).1.length < n) :
    ∀ file ∈ files, file.remaining ≠ [] → file.index ∈ (firstSlots n files).1.map Prod.fst := by
  induction files generalizing n with
  | nil => simp
  | cons file files ih =>
      cases n with
      | zero => exact absurd h (Nat.not_lt_zero _)
      | succ slots =>
          rw [firstSlots] at h ⊢
          split
          · next hnone =>
              rw [hnone] at h
              intro other hother hne
              rcases List.mem_cons.mp hother with rfl | hother
              · exact absurd hnone hne
              · exact ih (slots + 1) h other hother hne
          · next range rest hsome =>
              rw [hsome] at h
              intro other hother hne
              rcases List.mem_cons.mp hother with rfl | hother
              · exact List.mem_cons_self
              · exact List.mem_cons_of_mem _ (ih slots (Nat.lt_of_succ_lt_succ h) other hother hne)

theorem largestAt_some {pos : Nat} {file : PendingFile} (h : largestAt files = some (pos, file)) :
    files[pos]? = some file ∧ file.remaining ≠ [] := by
  induction files generalizing pos with
  | nil => cases h
  | cons first files ih =>
      rw [largestAt] at h
      split at h
      · split at h
        · cases h
        · next hne =>
            obtain ⟨rfl, rfl⟩ := Prod.mk.inj (Option.some.inj h)
            exact ⟨rfl, hne⟩
      · next at' best hbest =>
          split at h
          · next hlarger =>
              obtain ⟨rfl, rfl⟩ := Prod.mk.inj (Option.some.inj h)
              exact ⟨rfl, hlarger.1⟩
          · obtain ⟨rfl, rfl⟩ := Prod.mk.inj (Option.some.inj h)
            exact ih hbest

theorem largestAt_none (h : largestAt files = none) : ∀ file ∈ files, file.remaining = [] := by
  induction files with
  | nil => simp
  | cons first files ih =>
      rw [largestAt] at h
      split at h
      · next hnone =>
          split at h
          · next hempty =>
              intro file hfile
              rcases List.mem_cons.mp hfile with rfl | hfile
              · exact hempty
              · exact ih hnone file hfile
          · cases h
      · split at h <;> cases h

theorem splitSlots_draws (h : (files.map PendingFile.index).Nodup) :
    Draws files (splitSlots n files).1 (splitSlots n files).2 := by
  induction n generalizing files with
  | zero => exact .refl files
  | succ slots ih =>
      rw [splitSlots]
      split
      · exact .refl files
      · next pos file hbest =>
          obtain ⟨hpos, hne⟩ := largestAt_some hbest
          split
          · exact .refl files
          · next range rest hfile =>
              have hone := draws_modify h hpos hfile
              exact hone.trans (ih (hone.indexes ▸ h))

-- The second pass stops when the slots are used up or nothing is left.
theorem splitSlots_length (n : Nat) (files : List PendingFile) :
    (splitSlots n files).1.length = n ∨
      (splitSlots n files).1.length < n ∧ ∀ file ∈ (splitSlots n files).2, file.remaining = [] := by
  induction n generalizing files with
  | zero => exact Or.inl rfl
  | succ slots ih =>
      rw [splitSlots]
      split
      · next hnone => exact Or.inr ⟨Nat.succ_pos _, largestAt_none hnone⟩
      · next pos file hbest =>
          split
          · next hempty => exact absurd hempty (largestAt_some hbest).2
          · next range rest hfile =>
              rcases ih (files.modify pos popRange) with hfull | ⟨hshort, hleft⟩
              · exact Or.inl (congrArg Nat.succ hfull)
              · exact Or.inr ⟨Nat.succ_lt_succ hshort, hleft⟩

theorem takeSlots_eq (files : List PendingFile) (n : Nat) :
    takeSlots files n = ((firstSlots n files).1 ++
      (splitSlots (n - (firstSlots n files).1.length) (firstSlots n files).2).1,
      (splitSlots (n - (firstSlots n files).1.length) (firstSlots n files).2).2) := rfl

theorem takeSlots_draws (h : (files.map PendingFile.index).Nodup) :
    Draws files (takeSlots files n).1 (takeSlots files n).2 := by
  have hfirst := firstSlots_draws (n := n) h
  rw [takeSlots_eq]
  exact hfirst.trans (splitSlots_draws (hfirst.indexes ▸ h))

def pendingRanges (files : List PendingFile) : Nat :=
  (files.map fun file => file.remaining.length).sum

theorem length_pairs (files : List PendingFile) : (pairs files).length = pendingRanges files := by
  simp [pairs, pendingRanges, List.length_flatMap]

theorem takeSlots_length (h : (files.map PendingFile.index).Nodup) :
    (takeSlots files n).1.length = min n (pendingRanges files) := by
  have hall := (takeSlots_draws (n := n) h).all.length_eq
  have hfirst := firstSlots_length n files
  rw [List.length_append, length_pairs, length_pairs, takeSlots_eq] at hall
  dsimp only at hall
  rw [takeSlots_eq]
  rcases splitSlots_length (n - (firstSlots n files).1.length) (firstSlots n files).2 with
    hfull | ⟨hshort, hleft⟩
  · rw [List.length_append, hfull] at hall ⊢
    omega
  · have hzero : pendingRanges
        (splitSlots (n - (firstSlots n files).1.length) (firstSlots n files).2).2 = 0 := by
      refine List.sum_eq_zero fun len hlen => ?_
      obtain ⟨file, hfile, rfl⟩ := List.mem_map.mp hlen
      rw [hleft file hfile, List.length_nil]
    rw [List.length_append] at hall ⊢
    omega

-- A file gets a second slot only when every file with ranges has had its first.
theorem takeSlots_fair {before after : List (Nat × Nat × Nat)} {slot : Nat × Nat × Nat}
    (h : (files.map PendingFile.index).Nodup)
    (htaken : (takeSlots files n).1 = before ++ slot :: after)
    (hsecond : slot.1 ∈ before.map Prod.fst) :
    ∀ file ∈ files, file.remaining ≠ [] → file.index ∈ before.map Prod.fst := by
  rw [takeSlots_eq] at htaken
  obtain ⟨more, hbefore, hmore⟩ : ∃ more, before = (firstSlots n files).1 ++ more ∧
      (splitSlots (n - (firstSlots n files).1.length) (firstSlots n files).2).1 =
        more ++ slot :: after := by
    rcases List.append_eq_append_iff.mp htaken with ⟨more, hbefore, hmore⟩ | ⟨tail, hfirst, htail⟩
    · exact ⟨more, hbefore, hmore⟩
    · cases tail with
      | nil => exact ⟨[], by simpa using hfirst.symm, htail.symm⟩
      | cons other tail =>
          -- the slot is of the first pass, where no file has two
          obtain ⟨rfl, rfl⟩ := List.cons.inj htail
          have hnodup := h.sublist (firstSlots_sublist n files)
          rw [hfirst, List.map_append, List.map_cons] at hnodup
          exact absurd rfl ((List.nodup_append.mp hnodup).2.2 _ hsecond _ List.mem_cons_self)
  have hroom : (firstSlots n files).1.length < n := by
    by_contra hfull
    have hnone : n - (firstSlots n files).1.length = 0 := by omega
    rw [hnone, splitSlots] at hmore
    simp at hmore
  intro file hfile hne
  rw [hbefore, List.map_append]
  exact List.mem_append_left _ (firstSlots_all n files hroom file hfile hne)

end Slots

section Sums

variable {files left : List PendingFile} {slots : List (Nat × Nat × Nat)}

theorem sumU64_some {total : Nat} {lens : List Nat} (h : total + lens.sum < 2 ^ 64) :
    sumU64 total lens = some (total + lens.sum) := by
  induction lens generalizing total with
  | nil => rfl
  | cons len lens ih =>
      rw [List.sum_cons] at h ⊢
      rw [sumU64, if_pos (by omega), ih (by omega), Nat.add_assoc]

-- Every file's bytes fit the type.
def Fits (files : List PendingFile) : Prop := ∀ file ∈ files, pendingBytes file < 2 ^ 64

theorem fits_of_sum (h : (files.map pendingBytes).sum < 2 ^ 64) : Fits files := by
  intro file hfile
  exact (List.single_le_sum (by simp) _ (List.mem_map_of_mem hfile)).trans_lt h

theorem Fits.keys (h : Fits files) : keysFit files = true := by
  rw [keysFit, List.all_eq_true]
  intro file hfile
  have hbytes := h file (List.mem_of_mem_filter hfile)
  rw [pendingBytes] at hbytes
  rw [sumU64_some (by omega)]
  rfl

-- A file has no more bytes left than it had.
theorem Draws.fits (h : Draws files slots left) (hfits : Fits files) : Fits left := by
  have heach := h.each
  clear h
  induction heach with
  | nil => exact hfits
  | cons hhead htail ih =>
      rename_i file rest files left
      intro other hother
      rcases List.mem_cons.mp hother with rfl | hother
      · have hbytes := hfits file List.mem_cons_self
        rw [pendingBytes, hhead.2, List.map_append, List.sum_append] at hbytes
        rw [pendingBytes]
        omega
      · exact ih (fun file hfile => hfits file (List.mem_cons_of_mem _ hfile)) other hother

theorem splitSlotsU64_eq {n : Nat} (h : (files.map PendingFile.index).Nodup) (hfits : Fits files) :
    splitSlotsU64 n files = some (splitSlots n files) := by
  induction n generalizing files with
  | zero => rfl
  | succ slots ih =>
      rw [splitSlotsU64, splitSlots, if_pos hfits.keys]
      cases hbest : largestAt files with
      | none => rfl
      | some best =>
          obtain ⟨pos, file⟩ := best
          cases hfile : file.remaining with
          | nil => simp only [hfile]
          | cons range rest =>
              have hone := draws_modify h (largestAt_some hbest).1 hfile
              simp only [hfile, ih (hone.indexes ▸ h) (hone.fits hfits), Option.bind_eq_bind,
                Option.bind_some, Option.pure_def]

-- The sums stay in their type.
theorem takeSlotsU64_eq {n : Nat} (h : (files.map PendingFile.index).Nodup)
    (hsum : (files.map pendingBytes).sum < 2 ^ 64) :
    takeSlotsU64 files n = some (takeSlots files n) := by
  have hfirst := firstSlots_draws (n := n) h
  rw [takeSlotsU64]
  simp only [splitSlotsU64_eq (hfirst.indexes ▸ h) (hfirst.fits (fits_of_sum hsum)),
    Option.bind_eq_bind, Option.bind_some, Option.pure_def]
  rfl

end Sums

end Mediaops.Transfer
