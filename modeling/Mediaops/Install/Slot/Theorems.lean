import Mediaops.Install.Slot.Copies

namespace Mediaops.Install.InstallTemporary

open Transfer (Volume onVolume look step change stat openFile)

-- Attempts at one copy, each of them ended by its environment at any call: what they
-- leave, and when the copy can still be made.

section

variable {b3 : Bytes → Blake3Hex} {source dest : Text} {bytes : Bytes} {media : Bool}
  {moves : Nat → Move Disk} {turn : Nat} {disk w : Disk}

-- The slot can be had: it is not there yet, or it stands with its identity.
def Joined (b3 : Bytes → Blake3Hex) (source dest : Text) (disk : Disk) : Prop :=
  disk.slots (directory b3 source dest) = .Absent ∨
    disk.slots (directory b3 source dest) = .Made (.Saved (identity source dest))

-- The source is there, and the slot's data is nobody else's.
structure Ready (b3 : Bytes → Blake3Hex) (source dest : Text) (bytes : Bytes) (disk : Disk) :
    Prop where
  holds : disk.volume.files.content source = some bytes
  clean : Clean (paths b3 source dest) disk.volume.files

-- Every entry but the slot's data stays, and so does every slot.
def Keeps (b3 : Bytes → Blake3Hex) (source dest : Text) (disk w : Disk) : Prop :=
  (∀ path node, path ≠ (paths b3 source dest).data → disk.volume.files.node path = some node →
    w.volume.files.node path = some node) ∧
  ∀ dir, disk.slots dir ≠ .Absent → w.slots dir = disk.slots dir

theorem Keeps.refl (disk : Disk) : Keeps b3 source dest disk disk :=
  ⟨fun _ _ _ h => h, fun _ _ => rfl⟩

theorem Keeps.trans {mid : Disk} (h : Keeps b3 source dest disk mid)
    (h' : Keeps b3 source dest mid w) : Keeps b3 source dest disk w := by
  constructor
  · intro path node hpath hnode
    exact h'.1 path node hpath (h.1 path node hpath hnode)
  · intro dir hdir
    rw [h'.2 dir (by rw [h.2 dir hdir]; exact hdir), h.2 dir hdir]

section Worlds

variable (hsource : source ≠ (paths b3 source dest).data)

theorem content_cleared {path : Text} (hpath : path ≠ (paths b3 source dest).data)
    (files : Files Text) :
    (cleared (paths b3 source dest) files).content path = files.content path := by
  unfold Files.content
  rw [node_cleared, if_neg hpath, data_cleared]

theorem keeps_cleared : Keeps b3 source dest disk
    (disk.withFiles (cleared (paths b3 source dest) disk.volume.files)) := by
  constructor
  · intro path node hpath hnode
    exact (node_cleared ..).trans ((if_neg hpath).trans hnode)
  · exact fun _ _ => rfl

theorem keeps_adds {files : Files Text} {names : List Text}
    (hadds : Files.Adds (cleared (paths b3 source dest) disk.volume.files) files names)
    (hfree : ∀ path ∈ names, path ≠ (paths b3 source dest).data →
      (cleared (paths b3 source dest) disk.volume.files).node path = none) :
    Keeps b3 source dest disk (disk.withFiles files) := by
  constructor
  · intro path node hpath hnode
    have hbase : (cleared (paths b3 source dest) disk.volume.files).node path = some node := by
      rw [node_cleared, if_neg hpath, hnode]
    have hother : path ∉ names := by
      intro hmem
      rw [hfree path hmem hpath] at hbase
      cases hbase
    exact (hadds.node path).trans ((if_neg hother).trans hbase)
  · exact fun _ _ => rfl

theorem Unlinked.keeps (h : Unlinked (paths b3 source dest) disk w) :
    Keeps b3 source dest disk w := by
  rcases h with rfl | ⟨files, rfl, rfl | hadds⟩
  · exact Keeps.refl _
  · exact keeps_cleared
  · exact keeps_adds hadds fun path hpath hne => absurd (List.mem_singleton.mp hpath) hne

theorem Placed.keeps (h : Placed (paths b3 source dest) bytes disk w) :
    Keeps b3 source dest disk w := by
  obtain ⟨hfree, ⟨files, rfl, hadds, -⟩ | ⟨files, rfl, hadds, -⟩⟩ := h
  · refine keeps_adds hadds fun path hpath hne => ?_
    rcases List.mem_cons.mp hpath with rfl | hpath
    · exact hfree
    · exact absurd (List.mem_singleton.mp hpath) hne
  · refine keeps_adds hadds fun path hpath _ => ?_
    rw [List.mem_singleton.mp hpath]
    exact hfree

include hsource

theorem Ready.cleared (h : Ready b3 source dest bytes disk) :
    Ready b3 source dest bytes
      (disk.withFiles (Install.cleared (paths b3 source dest) disk.volume.files)) where
  holds := (content_cleared hsource _).trans h.holds
  clean node hnode := by
    rw [Disk.withFiles_files, node_cleared, if_pos rfl] at hnode
    cases hnode

theorem Ready.adds {files : Files Text} {names : List Text} (h : Ready b3 source dest bytes disk)
    (hadds : Files.Adds (Install.cleared (paths b3 source dest) disk.volume.files) files names)
    (hnames : names = [(paths b3 source dest).data] ∨
      names = [dest, (paths b3 source dest).data] ∨ names = [dest])
    (hfree : source ∉ names) : Ready b3 source dest bytes (disk.withFiles files) where
  holds := (hadds.content hfree).trans ((content_cleared hsource _).trans h.holds)
  clean node hnode := by
    rw [Disk.withFiles_files] at hnode ⊢
    rw [hadds.node] at hnode
    rcases hnames with rfl | rfl | rfl
    · rw [if_pos List.mem_cons_self] at hnode
      cases hnode
      exact ⟨_, rfl, .inl (hadds.nlink_new (by simp))⟩
    · rw [if_pos (by simp)] at hnode
      cases hnode
      refine ⟨_, rfl, .inr ⟨hadds.nlink_new ?_, ?_⟩⟩
      · simpa using dest_ne_slotData b3 source dest
      · exact (hadds.node _).trans (if_pos List.mem_cons_self)
    · rw [if_neg (by simpa using (dest_ne_slotData b3 source dest).symm), node_cleared,
        if_pos rfl] at hnode
      cases hnode

theorem Unlinked.ready (h : Unlinked (paths b3 source dest) disk w)
    (hready : Ready b3 source dest bytes disk) : Ready b3 source dest bytes w := by
  rcases h with rfl | ⟨files, rfl, rfl | hadds⟩
  · exact hready
  · exact hready.cleared hsource
  · exact hready.adds hsource hadds (.inl rfl) (by simpa using hsource)

theorem Placed.ready {bytes' : Bytes} (h : Placed (paths b3 source dest) bytes' disk w)
    (hready : Ready b3 source dest bytes disk) : Ready b3 source dest bytes w := by
  -- The destination was free, and the source was not.
  have hne : source ≠ dest := by
    rintro rfl
    have hcontent := (content_cleared hsource disk.volume.files).trans hready.holds
    have hfree : (cleared (paths b3 source source) disk.volume.files).node source = none := h.1
    rw [Files.content, hfree] at hcontent
    cases hcontent
  obtain ⟨hfree, ⟨files, rfl, hadds, -⟩ | ⟨files, rfl, hadds, -⟩⟩ := h
  · exact hready.adds hsource hadds (.inr (.inl rfl)) (by simpa using ⟨hne, hsource⟩)
  · exact hready.adds hsource hadds (.inr (.inr rfl))
      fun hmem => hne (List.mem_singleton.mp hmem)

end Worlds

-- What the copy leaves, from its slot on.
structure Carries (b3 : Bytes → Blake3Hex) (source dest : Text) (bytes : Bytes) (disk w : Disk) :
    Prop where
  ready : Ready b3 source dest bytes w
  keeps : Keeps b3 source dest disk w
  slots : w.slots = disk.slots

-- What an attempt leaves: it is cut or the slot can be had as before.
structure Leaves (b3 : Bytes → Blake3Hex) (source dest : Text) (bytes : Bytes) (cut : Prop)
    (disk w : Disk) : Prop where
  ready : Ready b3 source dest bytes w
  keeps : Keeps b3 source dest disk w
  joined : Joined b3 source dest w ↔ Joined b3 source dest disk ∧ ¬cut

section Attempts

variable (hmoves : Undisturbed moves)

include hmoves

theorem copyThrough_carries (hsource : source ≠ (paths b3 source dest).data)
    (hready : Ready b3 source dest bytes disk) :
    Carries b3 source dest bytes disk (copyThrough b3 source dest media moves turn disk).world := by
  have hunlinked : ∀ w, Unlinked (paths b3 source dest) disk w →
      Carries b3 source dest bytes disk w := by
    intro w hw
    refine ⟨hw.ready hsource hready, hw.keeps, ?_⟩
    rcases hw with rfl | ⟨files, rfl, -⟩ <;> rfl
  have hplaced : ∀ bytes' w, Placed (paths b3 source dest) bytes' disk w →
      Carries b3 source dest bytes disk w := by
    intro bytes' w hw
    refine ⟨hw.ready hsource hready, hw.keeps, ?_⟩
    obtain ⟨-, ⟨files, rfl, -⟩ | ⟨files, rfl, -⟩⟩ := hw <;> rfl
  by_cases hgood : ∃ i, Linkable b3 source dest disk i ∧ (moves Site.LinkData.turn).pick = 0
  · obtain ⟨i, hlinkable, hpick⟩ := hgood
    apply Passes.world (passes_copyThrough hmoves hlinkable hpick)
    · intro _ _ w hw
      exact hplaced _ w ⟨hlinkable.free, .inr hw⟩
    · rintro w (hw | hw)
      · exact hunlinked w hw
      · exact hplaced _ w hw
  · have hrefused : Refused moves turn (copyThrough b3 source dest media) disk
        (Unlinked (paths b3 source dest) disk) :=
      refused_copyThrough hmoves fun i hi hpick => hgood ⟨i, hi, hpick⟩
    exact hunlinked _ hrefused.2

omit hmoves in
theorem Ready.withSlot (h : Ready b3 source dest bytes disk) (found : Marker) :
    Ready b3 source dest bytes (disk.withSlot (directory b3 source dest) (.Made found)) where
  holds := h.holds
  clean := h.clean

omit hmoves in
theorem keeps_withSlot (habsent : disk.slots (directory b3 source dest) = .Absent)
    (slot : SlotDir) :
    Keeps b3 source dest disk (disk.withSlot (directory b3 source dest) slot) := by
  refine ⟨fun _ _ _ hnode => hnode, fun dir hdir => ?_⟩
  have hne : dir ≠ directory b3 source dest := by
    rintro rfl
    exact hdir habsent
  exact Function.update_of_ne hne ..

-- One attempt at the copy: all that was there stays, and the slot can be had again
-- unless the attempt is cut while it makes the slot.
theorem copyAcrossDevices_leaves (media : Bool) (turn : Nat)
    (hsource : source ≠ (paths b3 source dest).data)
    (hready : Ready b3 source dest bytes disk) :
    Leaves b3 source dest bytes (Cut b3 source dest moves disk) disk
      (copyAcrossDevices b3 source dest media moves turn disk).world := by
  unfold copyAcrossDevices
  by_cases hsaved : disk.slots (directory b3 source dest) = .Made (.Saved (identity source dest))
  · have hmade : disk.slots (directory b3 source dest) ≠ .Absent := by simp [hsaved]
    have hcut : ¬Cut b3 source dest moves disk := fun h => hmade h.1
    have hjoined : Joined b3 source dest disk := .inr hsaved
    have hsame : Leaves b3 source dest bytes (Cut b3 source dest moves disk) disk disk :=
      ⟨hready, Keeps.refl _, fun h => ⟨h, hcut⟩, And.left⟩
    apply Passes.cut (P := fun _ => Leaves b3 source dest bytes (Cut b3 source dest moves disk) disk)
      (passes_openSlot_made hmoves hsaved)
    · rintro _ next w - ⟨-, rfl⟩
      obtain ⟨hready', hkeeps, hslots⟩ : Carries b3 source dest bytes w _ :=
        copyThrough_carries hmoves hsource hready
      refine ⟨hready', hkeeps, fun _ => ⟨hjoined, hcut⟩, fun _ => .inr ?_⟩
      rw [hslots, hsaved]
    · rintro _ _ - rfl
      exact hsame
    · rintro _ - rfl
      exact hsame
  by_cases habsent : disk.slots (directory b3 source dest) = .Absent
  · have hjoined : Joined b3 source dest disk := .inl habsent
    have hbegun : ∀ w, Begun b3 source dest moves disk w →
        Leaves b3 source dest bytes (Cut b3 source dest moves disk) disk w := by
      rintro w (⟨hfate, rfl⟩ | ⟨-, found, rfl, hfound⟩)
      · have hcut : ¬Cut b3 source dest moves w := fun h => hfate h.2.1
        exact ⟨hready, Keeps.refl _, fun h => ⟨h, hcut⟩, And.left⟩
      · refine ⟨hready.withSlot found, keeps_withSlot habsent _, ?_, ?_⟩
        · rintro (h | h)
          · rw [Disk.withSlot_self] at h
            cases h
          · rw [Disk.withSlot_self] at h
            cases h
            exact ⟨hjoined, hfound.mp rfl⟩
        · rintro ⟨-, hcut⟩
          refine .inr ?_
          rw [Disk.withSlot_self, hfound.mpr hcut]
    apply Passes.cut (P := fun _ => Leaves b3 source dest bytes (Cut b3 source dest moves disk) disk)
      ((passes_openSlot_new hmoves habsent).and_world (openSlot_new_world hmoves habsent))
    · rintro _ next w - ⟨⟨-, rfl⟩, hbegin⟩
      -- The slot is made, so the copy goes on from there.
      obtain ⟨hready', hkeeps, hjoin⟩ := hbegun _ hbegin
      have hsaved : (claimed b3 source dest disk).slots (directory b3 source dest) =
          .Made (.Saved (identity source dest)) := Disk.withSlot_self ..
      obtain ⟨hready'', hkeeps', hslots⟩ : Carries b3 source dest bytes _ _ :=
        copyThrough_carries hmoves hsource hready'
      refine ⟨hready'', hkeeps.trans hkeeps', ?_⟩
      rw [← hjoin]
      unfold Joined
      rw [hslots]
    · rintro _ w - ⟨-, hleft⟩
      exact hbegun w hleft
    · rintro w - ⟨-, hleft⟩
      exact hbegun w hleft
  · -- Something else is in the slot's place, and stays there.
    have hnot : ¬Joined b3 source dest disk := by
      rintro (h | h)
      · exact habsent h
      · exact hsaved h
    rw [(Refused.bind (refused_openSlot hmoves true habsent hsaved) fun _ =>
      copyThrough b3 source dest media).2]
    exact ⟨hready, Keeps.refl _, fun h => absurd h hnot, fun h => absurd h.1 hnot⟩

theorem cleanup_leaves (hsource : source ≠ (paths b3 source dest).data)
    (hready : Ready b3 source dest bytes disk) :
    Leaves b3 source dest bytes False disk
      (cleanupInstallTemporary b3 source dest moves turn disk).world := by
  have hsame : Leaves b3 source dest bytes False disk disk :=
    ⟨hready, Keeps.refl _, fun h => ⟨h, id⟩, And.left⟩
  have hcleared : Leaves b3 source dest bytes False disk
      (disk.withFiles (cleared (paths b3 source dest) disk.volume.files)) :=
    ⟨hready.cleared hsource, keeps_cleared, fun h => ⟨h, id⟩, And.left⟩
  unfold cleanupInstallTemporary
  by_cases hsaved : disk.slots (directory b3 source dest) = .Made (.Saved (identity source dest))
  · apply Passes.cut (P := fun _ => Leaves b3 source dest bytes False disk)
      (passes_openOwner hmoves false hsaved)
    · rintro _ next w - ⟨rfl, rfl⟩
      rw [if_pos rfl]
      apply Passes.world (Site.passes (passes_clearData hmoves hready.clean))
      · rintro _ _ w rfl
        exact hcleared
      · rintro w (rfl | rfl)
        · exact hsame
        · exact hcleared
    · rintro _ _ - rfl
      exact hsame
    · rintro _ - rfl
      exact hsame
  by_cases habsent : disk.slots (directory b3 source dest) = .Absent
  · apply Passes.cut (P := fun _ => Leaves b3 source dest bytes False disk)
      (passes_openSlot_absent hmoves habsent)
    · rintro _ next w - ⟨rfl, rfl⟩
      exact hsame
    · rintro _ _ - rfl
      exact hsame
    · rintro _ - rfl
      exact hsame
  · rw [(Refused.bind (refused_openSlot hmoves false habsent hsaved) fun there =>
      if there then Site.Clear.run (clearData (paths b3 source dest)) else pure ()).2]
    exact hsame

end Attempts

-- An environment in which every call goes through, on one device.
def calm : Nat → Move Disk := fun _ => {}

theorem undisturbed_calm : Undisturbed calm := fun _ _ => rfl

theorem allGo_calm (turns : List Nat) : AllGo calm turns := fun _ _ => rfl

-- The copy can be taken up: the cleanup goes through, and so does the copy as long as
-- its destination is free.
def Restarts (b3 : Bytes → Blake3Hex) (source dest : Text) (bytes : Bytes) (media : Bool)
    (disk : Disk) : Prop :=
  (cleanupInstallTemporary b3 source dest calm 0 disk).outcome = .Done () ∧
    (disk.volume.files.node dest = none →
      (copyAcrossDevices b3 source dest media calm 0 disk).outcome = .Done () ∧
        (copyAcrossDevices b3 source dest media calm 0 disk).world.volume.files.content dest =
          some bytes)

theorem cleanup_calm (hready : Ready b3 source dest bytes disk)
    (hjoined : Joined b3 source dest disk) :
    (cleanupInstallTemporary b3 source dest calm 0 disk).outcome = .Done () := by
  unfold cleanupInstallTemporary
  rcases hjoined with habsent | hsaved
  · apply Passes.done_bind (P := fun o _ => o = .Done ())
      (passes_openSlot_absent undisturbed_calm habsent) (allGo_calm _)
    rintro _ next w ⟨rfl, rfl⟩
    rfl
  · apply Passes.done_bind (P := fun o _ => o = .Done ())
      (passes_openOwner undisturbed_calm false hsaved) (allGo_calm _)
    rintro _ next w ⟨rfl, rfl⟩
    rw [if_pos rfl]
    exact ((passes_clearData undisturbed_calm hready.clean).done (allGo_calm _)).elim
      fun _ hdone => hdone.1

theorem copyThrough_calm (hsource : source ≠ (paths b3 source dest).data)
    (hready : Ready b3 source dest bytes disk) (hfree : disk.volume.files.node dest = none) :
    (copyThrough b3 source dest media calm turn disk).outcome = .Done () ∧
      (copyThrough b3 source dest media calm turn disk).world.volume.files.content dest =
        some bytes := by
  obtain ⟨i, hnode, hbytes⟩ := Files.content_some
    ((content_cleared hsource disk.volume.files).trans hready.holds)
  have hlinkable : Linkable b3 source dest disk i := by
    refine ⟨hready.clean, hnode, ?_⟩
    rw [node_cleared, if_neg (dest_ne_slotData b3 source dest), hfree]
  obtain ⟨_, hdone, files, hworld, hadds, hcopied⟩ :=
    (passes_copyThrough undisturbed_calm hlinkable rfl).done (allGo_calm _)
  refine ⟨hdone, ?_⟩
  rw [hworld, Disk.withFiles_files]
  have hdest := (hadds.node dest).trans (if_pos List.mem_cons_self)
  rw [Files.content_file hdest, hcopied, ← hbytes, data_cleared]

theorem restarts_iff (hsource : source ≠ (paths b3 source dest).data)
    (hready : Ready b3 source dest bytes disk) :
    Restarts b3 source dest bytes media disk ↔ Joined b3 source dest disk := by
  constructor
  · rintro ⟨hdone, -⟩
    by_contra hnot
    have hthere : disk.slots (directory b3 source dest) ≠ .Absent := fun h => hnot (.inl h)
    have hother : disk.slots (directory b3 source dest) ≠
        .Made (.Saved (identity source dest)) := fun h => hnot (.inr h)
    have hrefused : Refused calm 0 (openSlot b3 source dest false) disk (· = disk) :=
      refused_openSlot undisturbed_calm false hthere hother
    exact (hrefused.bind _).1 () hdone
  · intro hjoined
    refine ⟨cleanup_calm hready hjoined, fun hfree => ?_⟩
    unfold copyAcrossDevices
    rcases hjoined with habsent | hsaved
    · apply Passes.done_bind
        (P := fun o w => o = .Done () ∧ w.volume.files.content dest = some bytes)
        (passes_openSlot_new undisturbed_calm habsent) (allGo_calm _)
      rintro _ next w ⟨-, rfl⟩
      exact copyThrough_calm hsource (hready.withSlot _) hfree
    · apply Passes.done_bind
        (P := fun o w => o = .Done () ∧ w.volume.files.content dest = some bytes)
        (passes_openSlot_made undisturbed_calm hsaved) (allGo_calm _)
      rintro _ next w ⟨-, rfl⟩
      exact copyThrough_calm hsource hready hfree

-- One attempt to clean up or to copy, in its environment.
inductive Attempt where
  | Cleanup (moves : Nat → Move Disk)
  | Copy (media : Bool) (moves : Nat → Move Disk)

namespace Attempt

def environment : Attempt → Nat → Move Disk
  | Cleanup moves => moves
  | Copy _ moves => moves

def after (b3 : Bytes → Blake3Hex) (source dest : Text) : Attempt → Disk → Disk
  | Cleanup moves, disk => (cleanupInstallTemporary b3 source dest moves 0 disk).world
  | Copy media moves, disk => (copyAcrossDevices b3 source dest media moves 0 disk).world

-- The attempt ends while it makes the slot.
def CutOff (b3 : Bytes → Blake3Hex) (source dest : Text) : Attempt → Disk → Prop
  | Cleanup _, _ => False
  | Copy _ moves, disk => Cut b3 source dest moves disk

theorem leaves (attempt : Attempt) (hmoves : Undisturbed attempt.environment)
    (hsource : source ≠ (paths b3 source dest).data) (hready : Ready b3 source dest bytes disk) :
    Leaves b3 source dest bytes (attempt.CutOff b3 source dest disk) disk
      (attempt.after b3 source dest disk) := by
  cases attempt with
  | Cleanup moves => exact cleanup_leaves hmoves hsource hready
  | Copy media moves => exact copyAcrossDevices_leaves hmoves media _ hsource hready

end Attempt

def run (b3 : Bytes → Blake3Hex) (source dest : Text) (attempts : List Attempt) (disk : Disk) :
    Disk :=
  attempts.foldl (fun disk attempt => attempt.after b3 source dest disk) disk

-- No attempt of the run ends while it makes the slot.
def NeverCutOff (b3 : Bytes → Blake3Hex) (source dest : Text) : List Attempt → Disk → Prop
  | [], _ => True
  | attempt :: rest, disk =>
      ¬attempt.CutOff b3 source dest disk ∧
        NeverCutOff b3 source dest rest (attempt.after b3 source dest disk)

theorem run_leaves (hsource : source ≠ (paths b3 source dest).data) (attempts : List Attempt)
    (hmoves : ∀ attempt ∈ attempts, Undisturbed attempt.environment)
    (hready : Ready b3 source dest bytes disk) :
    Leaves b3 source dest bytes (¬NeverCutOff b3 source dest attempts disk) disk
      (run b3 source dest attempts disk) := by
  induction attempts generalizing disk with
  | nil => exact ⟨hready, Keeps.refl _, fun h => ⟨h, fun hcut => hcut trivial⟩, And.left⟩
  | cons attempt rest ih =>
      obtain ⟨hready', hkeeps, hjoined⟩ :=
        attempt.leaves (hmoves attempt List.mem_cons_self) hsource hready
      obtain ⟨hready'', hkeeps', hjoined'⟩ :=
        ih (fun a ha => hmoves a (List.mem_cons_of_mem _ ha)) hready'
      refine ⟨hready'', hkeeps.trans hkeeps', ?_⟩
      rw [run, List.foldl_cons, ← run, hjoined', hjoined, NeverCutOff]
      tauto

-- Whatever runs before, no entry goes but the slot's own data, and the copy can be
-- taken up again if and only if no attempt was cut off while it made the slot.
theorem slot_restarts (hsource : source ≠ (paths b3 source dest).data) (attempts : List Attempt)
    (hmoves : ∀ attempt ∈ attempts, Undisturbed attempt.environment)
    (hready : Ready b3 source dest bytes disk) (hjoined : Joined b3 source dest disk) :
    Keeps b3 source dest disk (run b3 source dest attempts disk) ∧
      (Restarts b3 source dest bytes media (run b3 source dest attempts disk) ↔
        NeverCutOff b3 source dest attempts disk) := by
  obtain ⟨hready', hkeeps, hafter⟩ := run_leaves hsource attempts hmoves hready
  refine ⟨hkeeps, ?_⟩
  rw [restarts_iff hsource hready', hafter]
  tauto

end

namespace Sample

def b3 : Bytes → Blake3Hex := Blake3Hex.Sample.b3

def source : Text := "/work/Up.(2009).mkv".toList
def dest : Text := "/lib/movies/Up.(2009)/Up.(2009).mkv".toList

-- A film has been encoded on another device, and nothing is in its place yet.
def encoded : Disk where
  volume := {
    files := {
      dir := [(source, .File 0)]
      data := fun _ => [1, 2, 3]
      next := 1
      distinct := List.nodup_singleton _
      bound := Files.bound_one }
    sidecars := fun _ => .Absent }
  slots := fun _ => .Absent

-- The machine goes down right before the named call.
def downAt (site : Site) (turn : Nat) : Move Disk :=
  if turn = site.turn then { fate := .Stops 0 } else {}

theorem undisturbed_down (site : Site) : Undisturbed (downAt site) := by
  intro turn disk
  unfold downAt
  split <;> rfl

theorem source_ne_data : source ≠ (paths b3 source dest).data := by
  intro hsame
  have hname := @slotData_fileName b3 identity source dest
  rw [show slotData b3 identity source dest = source from hsame.symm] at hname
  exact absurd hname (by decide)

theorem encoded_ready : Ready b3 source dest [1, 2, 3] encoded := by
  have hnode : encoded.volume.files.node (paths b3 source dest).data = none := by
    have hname : ¬source = (paths b3 source dest).data := source_ne_data
    simp [encoded, Files.node, Table.lookup, hname]
  refine ⟨by decide, fun node h => ?_⟩
  rw [hnode] at h
  cases h

end Sample

-- A copy that goes down with its data half written and its slot made is taken up again.
theorem slot_restarts_after_chunks :
    Keeps Sample.b3 Sample.source Sample.dest Sample.encoded
        (run Sample.b3 Sample.source Sample.dest [.Copy false (Sample.downAt .Chunks)]
          Sample.encoded) ∧
      (Restarts Sample.b3 Sample.source Sample.dest [1, 2, 3] true
          (run Sample.b3 Sample.source Sample.dest [.Copy false (Sample.downAt .Chunks)]
            Sample.encoded) ↔
        NeverCutOff Sample.b3 Sample.source Sample.dest [.Copy false (Sample.downAt .Chunks)]
          Sample.encoded) := by
  refine slot_restarts Sample.source_ne_data _ ?_ Sample.encoded_ready (.inl rfl)
  intro attempt hmem
  rw [List.mem_singleton.mp hmem]
  exact Sample.undisturbed_down _

-- A slot's directory without its marker is there to stay, and the copy is never made.
theorem slot_cut_short :
    Joined Sample.b3 Sample.source Sample.dest Sample.encoded ∧
      ¬Restarts Sample.b3 Sample.source Sample.dest [1, 2, 3] false
        (run Sample.b3 Sample.source Sample.dest [.Copy false (Sample.downAt .OpenDir)]
          Sample.encoded) := by
  refine ⟨.inl rfl, fun hrestarts => ?_⟩
  obtain ⟨hready, -, hjoined⟩ := copyAcrossDevices_leaves
    (Sample.undisturbed_down .OpenDir) false 0 Sample.source_ne_data Sample.encoded_ready
  have hnot := (hjoined.mp ((restarts_iff Sample.source_ne_data hready).mp hrestarts)).2
  refine hnot ⟨rfl, by decide, .inl fun hgo => ?_⟩
  exact absurd (hgo Site.OpenDir.turn (by decide)) (by decide)

end Mediaops.Install.InstallTemporary
