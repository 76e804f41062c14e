import Mediaops.Transfer.Resume

namespace Mediaops.Transfer

section

variable [UnicodeTables]

-- The partial file as it is found.
structure Opened (remote : Text × List Component → Bytes) (layout : StagingLayout)
    (spec : PullSpec) (i : Nat) (sidecar : Sidecar) (v : Volume) : Prop where
  saved : v.sidecars layout.sidecar = .Saved sidecar
  node : v.files.node layout.partialPath = some (.File i)
  ranges : ∀ r ∈ sidecar.ranges, r.offset + r.len ≤ (v.files.data i).length ∧
    Matches (v.files.data i) (remote spec.remote.key) r.offset r.len

-- The partial file while ranges come in: it has the full length and only this
-- name, and every recorded range already has the remote file's bytes.
structure Filling (remote : Text × List Component → Bytes) (layout : StagingLayout)
    (spec : PullSpec) (i : Nat) (sidecar : Sidecar) (v : Volume) : Prop where
  saved : v.sidecars layout.sidecar = .Saved sidecar
  sole : v.files.Sole layout.partialPath i
  length : (v.files.data i).length = spec.fileLen
  ranges : ∀ r ∈ sidecar.ranges,
    Matches (v.files.data i) (remote spec.remote.key) r.offset r.len

-- A sidecar that this attempt may save.
structure Sourced (b3 : Bytes → Text) (remote : Text × List Component → Bytes) (spec : PullSpec)
    (sidecar : Sidecar) : Prop where
  source : sidecar.source = spec.remote.key
  digests : RightDigests b3 remote sidecar

section

variable {W : Type} [Mounted W] {T : Terms W} {layout : StagingLayout} {spec : PullSpec}
  {b3 : Bytes → Text} {remote : Text × List Component → Bytes} {v₀ : Volume} {i : Nat}
  {sidecar : Sidecar}

theorem stable_opened : Stable layout (Opened remote layout spec i sidecar) := by
  intro v v' h hv
  exact {
    saved := h.sidecar.trans hv.saved
    node := by rw [h.files.names _ (.inr rfl), hv.node]
    ranges := by rw [h.files.data i (Files.node_bound hv.node)]; exact hv.ranges }

theorem stable_filling : Stable layout (Filling remote layout spec i sidecar) := by
  intro v v' h hv
  have hdata := h.files.data i (Files.node_bound hv.sole.1)
  exact {
    saved := h.sidecar.trans hv.saved
    sole := h.files.sole (.inr rfl) hv.sole
    length := by rw [hdata]; exact hv.length
    ranges := by rw [hdata]; exact hv.ranges }

theorem Filling.honest {v : Volume} (h : Filling remote layout spec i sidecar v)
    (hs : Sourced b3 remote spec sidecar) : Honest b3 remote layout v :=
  honest_saved h.saved hs.digests

theorem Sourced.record (h : Sourced b3 remote spec sidecar) (offset len : Nat) :
    Sourced b3 remote spec (sidecar.record offset len
      (b3 (Bytes.slice offset len (remote spec.remote.key)))) := by
  have hsource : (sidecar.record offset len
      (b3 (Bytes.slice offset len (remote spec.remote.key)))).source = spec.remote.key := by
    rw [Sidecar.record_eq]
    exact h.source
  refine ⟨hsource, fun r hr => ?_⟩
  rw [hsource]
  rcases Sidecar.mem_record hr with hr | rfl
  · rw [← h.source]
    exact h.digests r hr
  · rfl

-- Opening the partial file finds what was counted, or makes an empty file when
-- nothing was.
theorem runs_openPartial (hT : Agreed T layout) (hs : Resumed b3 remote layout spec v₀ sidecar) :
    Runs volumeOf T (Begun layout v₀ sidecar) (openPartial layout.partialPath : Prog W TransferError _)
      (fun i v => Opened remote layout spec i sidecar v) (Honest b3 remote layout) := by
  have hhonest : ∀ v, Begun layout v₀ sidecar v → Honest b3 remote layout v :=
    fun v hv => honest_saved hv.saved hs.digests
  refine runs_onVolume hT (fun v v' h hv => ⟨hv.files.trans h.files, h.sidecar.trans hv.saved⟩)
    ?_ hhonest fun part v hv => ⟨Touches.refl layout v, hhonest v hv⟩
  intro pick v i v' hv hrun
  have hnames := hv.files.names layout.partialPath (.inr rfl)
  dsimp only at hrun
  split at hrun
  · rename_i hnone
    split at hrun
    · rename_i j files hcreate
      cases hrun
      obtain ⟨rfl, -, -, -, hnode⟩ := Files.create_ok hcreate
      refine ⟨fun path _ => Files.preserves_create hcreate, hv.saved, ?_, fun r hr => ?_⟩
      · rw [hnode, if_pos rfl]
      · obtain ⟨bytes, hbytes, -⟩ := (hs.counted r hr).onDisk
        obtain ⟨j, hj, -⟩ := Files.content_some hbytes
        rw [← hnames, hnone] at hj
        cases hj
    · cases hrun
  · rename_i j hj
    cases hrun
    refine ⟨Touches.refl layout v, hv.saved, hj, fun r hr => ?_⟩
    obtain ⟨bytes, hbytes, hlen, hslice⟩ := (hs.counted r hr).onDisk
    obtain ⟨k, hk, hdata⟩ := Files.content_some hbytes
    have hsame : v.files.data i = bytes := by
      rw [hnames, hk] at hj
      obtain rfl : k = i := by cases hj; rfl
      rw [hv.files.data k (Files.node_bound hk), hdata]
    rw [hsame]
    exact ⟨hlen, matches_of_slice hslice⟩
  · cases hrun

theorem runs_preparePartial (hT : Agreed T layout) (hs : Resumed b3 remote layout spec v₀ sidecar) :
    Runs volumeOf T (Begun layout v₀ sidecar)
      (preparePartial spec layout.partialPath : Prog W TransferError _)
      (fun _ v => ∃ i, Filling remote layout spec i sidecar v) (Honest b3 remote layout) := by
  unfold preparePartial
  refine Runs.bind (runs_openPartial hT hs) ?_
  intro i
  have hhonest : ∀ v, Opened remote layout spec i sidecar v → Honest b3 remote layout v :=
    fun v hv => honest_saved hv.saved hs.digests
  have hstable : ∀ links, Stable layout fun v => Opened remote layout spec i sidecar v ∧
      (links = 1 → v.files.Sole layout.partialPath i) :=
    fun links v v' h hv =>
      ⟨stable_opened v v' h hv.1, fun hl => h.files.sole (.inr rfl) (hv.2 hl)⟩
  refine Runs.bind (A := fun links v => Opened remote layout spec i sidecar v ∧
      (links = 1 → v.files.Sole layout.partialPath i)) (runs_look hT stable_opened ?_ hhonest) ?_
  · intro v links hv hlinks
    cases hlinks
    exact ⟨hv, Files.sole_of_nlink hv.node⟩
  intro links
  apply runs_guard fun v hv => hhonest v hv.1
  intro hone
  have hlinks : links = 1 := by omega
  refine Runs.bind (runs_step hT (hstable links) fun v hv => hhonest v hv.1) ?_
  rintro ⟨⟩
  refine runs_onVolume hT (hstable links) ?_ (fun v hv => hhonest v hv.1)
    fun part v hv => ⟨Touches.refl layout v, hhonest v hv.1⟩
  rintro pick v a v' ⟨hv, hsole⟩ hrun
  cases hrun
  refine ⟨fun path hpath => (hsole hlinks).preserves_store (fun h => hpath (.inr h)) _, i, ?_⟩
  exact {
    saved := hv.saved
    sole := (hsole hlinks).store i _
    length := by
      dsimp only
      rw [Files.data_store, Bytes.length_resize]
    ranges := by
      intro r hr
      dsimp only
      rw [Files.data_store]
      exact (hv.ranges r hr).2.resize (hs.counted r hr).within (hv.ranges r hr).1 }

-- One range: fetched, written, synced, recorded, in this order.
theorem runs_finishRange (hT : Agreed T layout) (hs : Sourced b3 remote spec sidecar)
    {task : Nat × Nat} (hfit : task.1 + task.2 ≤ spec.fileLen) :
    Runs volumeOf T (Filling remote layout spec i sidecar)
      (finishRange b3 remote spec layout sidecar task : Prog W TransferError _)
      (fun sidecar' v => Filling remote layout spec i sidecar' v ∧
        Sourced b3 remote spec sidecar' ∧ sidecar'.has task.1 task.2 = true ∧
        ∀ o l, sidecar.has o l = true → sidecar'.has o l = true)
      (Honest b3 remote layout) := by
  obtain ⟨offset, len⟩ := task
  have hhonest : ∀ v, Filling remote layout spec i sidecar v → Honest b3 remote layout v :=
    fun v hv => hv.honest hs
  unfold finishRange
  refine Runs.bind (A := fun bytes v => Filling remote layout spec i sidecar v ∧
      bytes = Bytes.slice offset len (remote spec.remote.key))
    (runs_look hT stable_filling ?_ hhonest) ?_
  · intro v bytes hv hbytes
    cases hbytes
    exact ⟨hv, rfl⟩
  intro bytes
  refine Runs.of_pre (fun v hv => hv.2) ?_
  rintro rfl
  apply runs_guard fun v hv => hhonest v hv.1
  intro hlen
  have hlen : (Bytes.slice offset len (remote spec.remote.key)).length = len := by
    by_contra hne
    exact hlen hne
  refine Runs.bind (A := fun _ v => Filling remote layout spec i sidecar v ∧
      Matches (v.files.data i) (remote spec.remote.key) offset len) ?_ ?_
  · unfold writeRange
    refine Runs.bind (A := fun j v => Filling remote layout spec i sidecar v ∧ j = i)
      (runs_look hT (fun v v' h hv => ⟨stable_filling v v' h hv.1, hv.2⟩) ?_
        fun v hv => hhonest v hv.1) ?_
    · rintro v j ⟨hv, -⟩ hopen
      rw [hv.sole.1] at hopen
      cases hopen
      exact ⟨hv, rfl⟩
    intro j
    refine Runs.of_pre (fun v hv => hv.2) ?_
    rintro rfl
    have htouch : ∀ v bytes, Filling remote layout spec j sidecar v →
        Touches layout v { v with files := v.files.store j bytes } :=
      fun v bytes hv path hpath => hv.sole.preserves_store (fun h => hpath (.inr h)) _
    refine Runs.bind (A := fun _ v => Filling remote layout spec j sidecar v ∧
        Matches (v.files.data j) (remote spec.remote.key) offset len)
      (runs_onVolume hT (fun v v' h hv => ⟨stable_filling v v' h hv.1, hv.2⟩) ?_
        (fun v hv => hhonest v hv.1) ?_) ?_
    · rintro pick v a v' ⟨hv, -⟩ hrun
      cases hrun
      refine ⟨htouch v _ hv, ?_, ?_⟩
      · exact {
          saved := hv.saved
          sole := hv.sole.store j _
          length := by
            dsimp only
            rw [Files.data_store, Bytes.length_overwrite (by rw [hlen, hv.length]; exact hfit),
              hv.length]
          ranges := by
            intro r hr
            dsimp only
            rw [Files.data_store]
            exact (hv.ranges r hr).overwrite (by rw [hv.length]; exact hfit) hlen }
      · dsimp only
        rw [Files.data_store]
        exact matches_overwrite (by rw [hv.length]; exact hfit) hlen
    · rintro part v ⟨hv, -⟩
      exact ⟨htouch v _ hv, (hhonest v hv).of_sidecar rfl⟩
    rintro ⟨⟩
    refine runs_step hT ?_ fun v hv => hhonest v hv.1
    intro v v' h hv
    have hdata := h.files.data j (Files.node_bound hv.1.sole.1)
    exact ⟨stable_filling v v' h hv.1, by rw [hdata]; exact hv.2⟩
  rintro ⟨⟩
  have hnext := hs.record offset len
  refine Runs.bind (A := fun _ v => Filling remote layout spec i (sidecar.record offset len
      (b3 (Bytes.slice offset len (remote spec.remote.key)))) v)
    (runs_save hT ?_ ?_ (fun v hv => hhonest v hv.1) fun v hv => hv.honest hnext) ?_
  · intro v v' h hv
    have hdata := h.files.data i (Files.node_bound hv.1.sole.1)
    exact ⟨stable_filling v v' h hv.1, by rw [hdata]; exact hv.2⟩
  · rintro v ⟨hv, hmatch⟩
    exact {
      saved := Function.update_self ..
      sole := hv.sole
      length := hv.length
      ranges := by
        intro r hr
        rcases Sidecar.mem_record hr with hr | rfl
        · exact hv.ranges r hr
        · exact hmatch }
  rintro ⟨⟩
  exact runs_pure fun v hv =>
    ⟨hv, hnext, Sidecar.has_record, fun o l h => Sidecar.record_mono h⟩

-- What a stretch of fetching ends with: the ranges of `tasks` are recorded now.
structure Fetched (b3 : Bytes → Text) (remote : Text × List Component → Bytes)
    (layout : StagingLayout) (spec : PullSpec) (i : Nat) (tasks : List (Nat × Nat))
    (sidecar sidecar' : Sidecar) (v : Volume) : Prop where
  filling : Filling remote layout spec i sidecar' v
  sourced : Sourced b3 remote spec sidecar'
  done : ∀ task ∈ tasks, sidecar'.has task.1 task.2 = true
  mono : ∀ o l, sidecar.has o l = true → sidecar'.has o l = true

theorem fetched_nil (hs : Sourced b3 remote spec sidecar) {v : Volume}
    (hv : Filling remote layout spec i sidecar v) :
    Fetched b3 remote layout spec i [] sidecar sidecar v where
  filling := hv
  sourced := hs
  done _ h := absurd h List.not_mem_nil
  mono _ _ h := h

theorem runs_drainTasks (hT : Agreed T layout) {fuel : Nat} {tasks : List (Nat × Nat)}
    (hfuel : tasks.length ≤ fuel) (hfit : ∀ task ∈ tasks, task.1 + task.2 ≤ spec.fileLen)
    (hs : Sourced b3 remote spec sidecar) :
    Runs volumeOf T (Filling remote layout spec i sidecar)
      (drainTasks b3 remote spec layout fuel tasks sidecar : Prog W TransferError _)
      (fun sidecar' v => Fetched b3 remote layout spec i tasks sidecar sidecar' v)
      (Honest b3 remote layout) := by
  induction fuel generalizing tasks sidecar with
  | zero =>
      have hnil : tasks = [] := List.length_eq_zero_iff.mp (by omega)
      subst hnil
      exact runs_pure fun v hv => fetched_nil hs hv
  | succ fuel ih =>
      unfold drainTasks
      refine Runs.bind (A := fun k v => Filling remote layout spec i sidecar v ∧
          (tasks ≠ [] → k < tasks.length))
        (runs_onVolume hT stable_filling ?_ (fun v hv => hv.honest hs)
          fun part v hv => ⟨Touches.refl layout v, hv.honest hs⟩) ?_
      · intro pick v k v' hv hrun
        cases hrun
        refine ⟨Touches.refl layout v, hv, fun hne => Nat.mod_lt _ ?_⟩
        exact List.length_pos_of_ne_nil hne
      intro k
      refine Runs.of_pre (fun v hv => hv.2) fun hk => ?_
      cases htask : tasks[k]? with
      | none =>
          have hnil : tasks = [] := by
            by_contra hne
            rw [List.getElem?_eq_none_iff] at htask
            have := hk hne
            omega
          subst hnil
          exact runs_pure fun v hv => fetched_nil hs hv.1
      | some task =>
          obtain ⟨hlt, rfl⟩ := List.getElem?_eq_some_iff.mp htask
          have hperm := List.getElem_cons_eraseIdx_perm hlt
          refine Runs.bind ((runs_finishRange hT hs (hfit _ (List.getElem_mem hlt))).mono
            (fun v hv => hv.1) (fun _ _ h => h) fun _ h => h) ?_
          intro sidecar'
          refine Runs.of_pre (fun v hv => hv.2) ?_
          rintro ⟨hs', hhas, hmono⟩
          have hrest : ∀ task ∈ tasks.eraseIdx k, task.1 + task.2 ≤ spec.fileLen :=
            fun task h => hfit task (List.mem_of_mem_eraseIdx h)
          refine (ih (by rw [List.length_eraseIdx_of_lt hlt]; omega) hrest hs').mono
            (fun v hv => hv.1) ?_ fun _ h => h
          intro sidecar'' v h
          refine ⟨h.filling, h.sourced, fun t ht => ?_, fun o l hol => h.mono o l (hmono o l hol)⟩
          rcases List.mem_cons.mp (hperm.mem_iff.mpr ht) with rfl | ht
          · exact h.mono _ _ hhas
          · exact h.done t ht

theorem runs_fetchRounds (hT : Agreed T layout) {fuel : Nat} {todo : List (Nat × Nat)}
    (hfuel : todo.length ≤ fuel) (hfit : ∀ task ∈ todo, task.1 + task.2 ≤ spec.fileLen)
    (hs : Sourced b3 remote spec sidecar) :
    Runs volumeOf T (Filling remote layout spec i sidecar)
      (fetchRounds b3 remote spec layout fuel todo sidecar : Prog W TransferError _)
      (fun sidecar' v => Fetched b3 remote layout spec i todo sidecar sidecar' v)
      (Honest b3 remote layout) := by
  induction fuel generalizing todo sidecar with
  | zero =>
      have hnil : todo = [] := List.length_eq_zero_iff.mp (by omega)
      subst hnil
      exact runs_pure fun v hv => fetched_nil hs hv
  | succ fuel ih =>
      unfold fetchRounds
      apply runs_ite
      · rintro rfl
        exact runs_pure fun v hv => fetched_nil hs hv
      intro hne
      rw [batchOf_eq]
      dsimp only
      have hpos := List.length_pos_of_ne_nil hne
      refine Runs.bind (runs_drainTasks hT (Nat.le_refl _)
        (fun task h => hfit task (List.mem_of_mem_take h)) hs) ?_
      intro sidecar'
      refine Runs.of_pre (fun v hv => hv.sourced) fun hs' => ?_
      refine Runs.of_pre (fun v hv => hv.done) fun hdone => ?_
      refine Runs.of_pre (fun v hv => hv.mono) fun hmono => ?_
      refine (ih (by rw [List.length_drop]; omega) (fun task h => hfit task (List.mem_of_mem_drop h))
        hs').mono (fun v hv => hv.filling) ?_ fun _ h => h
      intro sidecar'' v h
      refine ⟨h.filling, h.sourced, fun task ht => ?_, fun o l hol => h.mono o l (hmono o l hol)⟩
      rw [← List.take_append_drop (max spec.concurrency 1) todo] at ht
      rcases List.mem_append.mp ht with ht | ht
      · exact h.mono _ _ (hdone task ht)
      · exact h.done task ht

-- With every planned range recorded the partial file is the remote file.
theorem Filling.whole {v : Volume} (h : Filling remote layout spec i sidecar v) {rangeLen : Nat}
    (hr : 0 < rangeLen)
    (hall : ∀ range ∈ planRanges spec.fileLen rangeLen, sidecar.has range.1 range.2 = true) :
    spec.fileLen ≤ (remote spec.remote.key).length ∧
      v.files.data i = (remote spec.remote.key).take spec.fileLen := by
  apply eq_take_of_matches h.length
  intro j hj
  obtain ⟨range, hmem, hlo, hhi⟩ := planRanges_covers hr hj
  obtain ⟨r, hr, ho, hl⟩ := Sidecar.has_iff.mp (hall range hmem)
  exact h.ranges r hr j (by omega) (by omega)

-- What a pull that succeeds leaves.
structure Staged (b3 : Bytes → Text) (remote : Text × List Component → Bytes)
    (layout : StagingLayout) (spec : PullSpec) (v : Volume) : Prop where
  honest : Honest b3 remote layout v
  length : spec.fileLen ≤ (remote spec.remote.key).length
  content : v.files.content layout.staged = some ((remote spec.remote.key).take spec.fileLen)

theorem runs_publish (hT : Agreed T layout) (hne : layout.staged ≠ layout.partialPath)
    (hlen : spec.fileLen ≤ (remote spec.remote.key).length) :
    Runs volumeOf T (fun v => Honest b3 remote layout v ∧
        v.files.content layout.partialPath = some ((remote spec.remote.key).take spec.fileLen))
      (publish layout : Prog W TransferError _)
      (fun _ v => Staged b3 remote layout spec v) (Honest b3 remote layout) := by
  have hstable : ∀ path, layout.Private path → Stable layout fun v => Honest b3 remote layout v ∧
      v.files.content path = some ((remote spec.remote.key).take spec.fileLen) :=
    fun path hpath v v' h hv =>
      ⟨hv.1.of_sidecar h.sidecar, by rw [h.files.content hpath]; exact hv.2⟩
  unfold publish
  refine Runs.bind (runs_change hT (hstable _ (.inr rfl)) (B := fun v => Honest b3 remote layout v ∧
      v.files.content layout.staged = some ((remote spec.remote.key).take spec.fileLen)) ?_
    fun v hv => hv.1) ?_
  · rintro v files ⟨hv, hcontent⟩ hlink
    obtain ⟨i, hsource, -, hdata, -, hnode⟩ := Files.link_ok hlink
    refine ⟨fun path _ => Files.preserves_link hlink, hv.of_sidecar rfl, ?_⟩
    rw [Files.content_file (by rw [hnode, if_pos rfl]), hdata, ← Files.content_file hsource, hcontent]
  rintro ⟨⟩
  refine Runs.bind (runs_change hT (hstable _ (.inl rfl)) (B := fun v => Honest b3 remote layout v ∧
      v.files.content layout.staged = some ((remote spec.remote.key).take spec.fileLen)) ?_
    fun v hv => hv.1) ?_
  · rintro v files ⟨hv, hcontent⟩ hunlink
    refine ⟨fun path hpath => Files.preserves_unlink (fun h => hpath (.inr h)) hunlink,
      hv.of_sidecar rfl, ?_⟩
    exact (Files.preserves_unlink hne hunlink).content hcontent
  rintro ⟨⟩
  refine (runs_step hT (hstable _ (.inl rfl)) fun v hv => hv.1).mono (fun _ h => h) ?_ fun _ h => h
  exact fun _ v hv => ⟨hv.1, hlen, hv.2⟩

-- A pull's result: the staged file, and nothing counted that was not this file's.
structure Pulled (b3 : Bytes → Text) (remote : Text × List Component → Bytes)
    (layout : StagingLayout) (spec : PullSpec) (v₀ : Volume) (out : PullOutcome) (v : Volume) :
    Prop where
  staged : Staged b3 remote layout spec v
  path : out.staged = layout.staged
  resumed : ∀ range ∈ out.resumedRanges,
    Counted remote layout spec v₀ layout.partialPath range.1 range.2
  adopted : out.alreadyStaged = true → ∃ sidecar, SameSource layout spec v₀ sidecar

theorem runs_fetchFile (hT : Agreed T layout) (hb3 : Function.Injective b3)
    (hne : layout.staged ≠ layout.partialPath)
    (hv₀ : Honest b3 remote layout v₀) :
    Runs volumeOf T (Quiet layout v₀) (fetchFile b3 remote spec layout : Prog W TransferError _)
      (fun out v => Pulled b3 remote layout spec v₀ out v) (Honest b3 remote layout) := by
  unfold fetchFile
  refine Runs.bind (runs_resume hT hb3 hv₀) ?_
  intro sidecar
  refine Runs.of_pre (fun v hv => hv.1) fun hs => ?_
  have hsourced : Sourced b3 remote spec sidecar := ⟨hs.source, hs.digests⟩
  refine Runs.bind ((runs_preparePartial hT hs).mono (fun v hv => hv.2) (fun _ _ h => h)
    fun _ h => h) ?_
  rintro ⟨⟩
  -- The inode of the partial file is fixed from here on.
  have hfetch : ∀ i, Runs volumeOf T (Filling remote layout spec i sidecar)
      (fetchRounds b3 remote spec layout
        (remaining (planRanges spec.fileLen sidecar.rangeLen) sidecar).length
        (remaining (planRanges spec.fileLen sidecar.rangeLen) sidecar) sidecar :
        Prog W TransferError _)
      (fun _ v => spec.fileLen ≤ (remote spec.remote.key).length ∧ Honest b3 remote layout v ∧
        v.files.content layout.partialPath = some ((remote spec.remote.key).take spec.fileLen))
      (Honest b3 remote layout) := by
    intro i
    refine (runs_fetchRounds hT (Nat.le_refl _) (fun task h =>
      planRanges_within (List.mem_of_mem_filter h)) hsourced).mono (fun _ h => h) ?_ fun _ h => h
    intro sidecar' v h
    have hall : ∀ range ∈ planRanges spec.fileLen sidecar.rangeLen,
        sidecar'.has range.1 range.2 = true := by
      intro range hmem
      by_cases htodo : range ∈ remaining (planRanges spec.fileLen sidecar.rangeLen) sidecar
      · exact h.done range htodo
      · exact h.mono _ _ (has_of_not_remaining hmem htodo)
    obtain ⟨hlen, hdata⟩ := h.filling.whole hs.rangeLen hall
    exact ⟨hlen, h.filling.honest h.sourced, by rw [Files.content_file h.filling.sole.1, hdata]⟩
  refine Runs.bind (runs_exists hfetch) ?_
  intro _
  refine Runs.of_pre (fun v hv => hv.1) fun hlen => ?_
  refine Runs.bind ((runs_publish hT hne hlen).mono (fun v hv => hv.2) (fun _ _ h => h)
    fun _ h => h) ?_
  rintro ⟨⟩
  refine runs_pure fun v hv => ⟨hv, rfl, ?_, fun h => by cases h⟩
  intro range hmem
  obtain ⟨r, hr, rfl⟩ := List.mem_map.mp hmem
  exact hs.counted r hr

theorem runs_adoptStaged (hT : Agreed T layout) (hb3 : Function.Injective b3)
    (hne : layout.staged ≠ layout.partialPath) (hv₀ : Honest b3 remote layout v₀)
    (hnode : v₀.files.node layout.staged = some (.File i))
    (hlen : (v₀.files.data i).length = spec.fileLen) :
    Runs volumeOf T (Quiet layout v₀) (adoptStaged b3 spec layout i : Prog W TransferError _)
      (fun out v => Pulled b3 remote layout spec v₀ out v) (Honest b3 remote layout) := by
  have hquiet : ∀ v, Quiet layout v₀ v → Honest b3 remote layout v :=
    fun v hv => hv₀.of_sidecar hv.sidecar
  unfold adoptStaged
  refine Runs.bind ((runs_load hT).mono (fun _ h => h) (fun _ _ h => h) hquiet) ?_
  rintro (_ | proof)
  · exact runs_throw fun v hv => hquiet v hv.1
  refine Runs.of_pre (fun v hv => hv.2 proof rfl) ?_
  rintro ⟨hsaved, hpos⟩
  refine Runs.bind (A := fun _ v => Quiet layout v₀ v ∧ checkSource proof spec = .ok ())
    (runs_lift (fun _ hok v hv => ⟨hv.1, hok⟩) fun v hv => hquiet v hv.1) ?_
  rintro ⟨⟩
  refine Runs.of_pre (fun v hv => hv.2) fun hsource => ?_
  obtain ⟨hfileLen, hkey⟩ := checkSource_ok hsource
  apply runs_guard fun v hv => hquiet v hv.1
  intro hknown
  have hknown : sourceIsKnown proof = true := by simpa using hknown
  have hsame : SameSource layout spec v₀ proof := ⟨hsaved, hknown, hkey hknown, hfileLen⟩
  refine Runs.bind ((runs_verifyRecordedRanges hT proof (.inl rfl)).mono (fun v hv => hv.1)
    (fun _ _ h => h) hquiet) ?_
  intro proof'
  refine Runs.of_pre (fun v hv => hv.2) ?_
  rintro ⟨hfields, hranges⟩
  apply runs_guard fun v hv => hquiet v hv.1
  intro hall
  have hall : remaining (planRanges spec.fileLen proof'.rangeLen) proof' = [] := by
    by_contra h
    exact hall h
  -- Every planned range was read back with an honest digest.
  have hwhole : spec.fileLen ≤ (remote spec.remote.key).length ∧
      v₀.files.data i = (remote spec.remote.key).take spec.fileLen := by
    apply eq_take_of_matches hlen
    intro j hj
    have hlen' : 0 < proof'.rangeLen := by rw [hfields]; exact hpos
    obtain ⟨range, hmem, hlo, hhi⟩ := planRanges_covers hlen' hj
    have hhas := has_of_not_remaining hmem (by rw [hall]; exact List.not_mem_nil)
    obtain ⟨r, hr, ho, hl⟩ := Sidecar.has_iff.mp hhas
    obtain ⟨hmem', bytes, hbytes, hreads⟩ := hranges r hr
    obtain ⟨bytes', hbytes', -, hslice⟩ :=
      (counted_of_reads hb3 hv₀ hsame hbytes hmem' hreads).1.onDisk
    rw [Files.content_file hnode] at hbytes'
    cases hbytes'
    exact matches_of_slice hslice j (by omega) (by omega)
  have hstaged : ∀ v, Quiet layout v₀ v →
      v.files.content layout.staged = some ((remote spec.remote.key).take spec.fileLen) := by
    intro v hv
    rw [hv.files.content (.inl rfl), Files.content_file hnode, hwhole.2]
  have hdone : ∀ v, Quiet layout v₀ v → Staged b3 remote layout spec v :=
    fun v hv => ⟨hquiet v hv, hwhole.1, hstaged v hv⟩
  have hfinish : Runs volumeOf T (Staged b3 remote layout spec)
      (pure { staged := layout.staged, resumedRanges := [], alreadyStaged := true } :
        Prog W TransferError _)
      (fun out v => Pulled b3 remote layout spec v₀ out v) (Honest b3 remote layout) :=
    runs_pure fun v hv => ⟨hv, rfl, fun range h => absurd h List.not_mem_nil, fun _ => ⟨proof, hsame⟩⟩
  refine Runs.bind (A := fun _ v => Quiet layout v₀ v)
    (runs_look hT (fun v v' h hv => ⟨hv.1.trans h, hv.2⟩) (fun v _ hv _ => hv.1)
      fun v hv => hquiet v hv.1) ?_
  rintro (_ | ⟨_ | _, _⟩)
  · exact hfinish.mono hdone (fun _ _ h => h) fun _ h => h
  · apply runs_ite
    · intro _
      refine Runs.bind (runs_change hT (stable_quiet layout v₀) (B := Staged b3 remote layout spec)
        ?_ hquiet) fun _ => hfinish
      intro v files hv hunlink
      refine ⟨fun path hpath => Files.preserves_unlink (fun h => hpath (.inr h)) hunlink, ?_⟩
      exact ⟨(hquiet v hv).of_sidecar rfl, hwhole.1,
        (Files.preserves_unlink hne hunlink).content (hstaged v hv)⟩
    · intro _
      exact Runs.bind (A := fun _ _ => False) (runs_throw fun v hv => hquiet v hv)
        fun _ _ _ h => h.elim
  · exact Runs.bind (A := fun _ _ => False) (runs_throw fun v hv => hquiet v hv)
      fun _ _ _ h => h.elim

theorem fromSpec_ok (h : StagingLayout.fromSpec spec = .ok layout) :
    layout.staged ≠ layout.partialPath := by
  unfold StagingLayout.fromSpec at h
  obtain ⟨rel, -, h⟩ := Checks.bind_ok h
  cases h
  simp [StagingLayout.fromStaged]

theorem runs_pullFile (hT : Agreed T layout) (hb3 : Function.Injective b3)
    (hlayout : StagingLayout.fromSpec spec = .ok layout) (hv₀ : Honest b3 remote layout v₀) :
    Runs volumeOf T (Quiet layout v₀) (pullFile b3 remote spec : Prog W TransferError _)
      (fun out v => Pulled b3 remote layout spec v₀ out v) (Honest b3 remote layout) := by
  have hquiet : ∀ v, Quiet layout v₀ v → Honest b3 remote layout v :=
    fun v hv => hv₀.of_sidecar hv.sidecar
  have hne := fromSpec_ok hlayout
  unfold pullFile
  apply runs_guard hquiet
  intro _
  apply runs_guard hquiet
  intro _
  refine Runs.bind (A := fun found v => Quiet layout v₀ v ∧ found = layout)
    (runs_lift (fun found hfound v hv => ⟨hv, ?_⟩) hquiet) ?_
  · rw [hlayout] at hfound
    cases hfound
    rfl
  intro found
  refine Runs.of_pre (fun v hv => hv.2) ?_
  rintro rfl
  refine Runs.bind (runs_step hT (fun v v' h hv => ⟨hv.1.trans h, hv.2⟩) fun v hv => hquiet v hv.1) ?_
  rintro ⟨⟩
  refine Runs.bind (runs_step hT (fun v v' h hv => ⟨hv.1.trans h, hv.2⟩) fun v hv => hquiet v hv.1) ?_
  rintro ⟨⟩
  -- A staged file that cannot be looked at is treated as absent; the last link
  -- refuses it then.
  refine Runs.bind (A := fun read v => Quiet found v₀ v ∧ ∀ i len,
      read = .ok (some (.File i, len)) →
        v₀.files.node found.staged = some (.File i) ∧ (v₀.files.data i).length = len)
    (Runs.attempt (runs_look hT (fun v v' h hv => ⟨hv.1.trans h, hv.2⟩) ?_ ?_)) ?_
  · rintro v read ⟨hv, -⟩ hread
    refine ⟨hv, ?_⟩
    rintro i len ⟨⟩
    have hnames := hv.files.names found.staged (.inl rfl)
    cases hnode : v.files.node found.staged with
    | none => rw [hnode] at hread; cases hread
    | some node =>
        rw [hnode] at hread
        cases hread
        rw [hnames] at hnode
        dsimp only
        rw [hv.files.data i (Files.node_bound hnode)]
        exact ⟨hnode, rfl⟩
  · rintro v ⟨hv, -⟩
    exact ⟨hquiet v hv, fun e => ⟨hv, fun _ _ h => by cases h⟩⟩
  have hfetch : Runs volumeOf T (Quiet found v₀) (fetchFile b3 remote spec found : Prog W TransferError _)
      (fun out v => Pulled b3 remote found spec v₀ out v) (Honest b3 remote found) :=
    runs_fetchFile hT hb3 hne hv₀
  rintro (e | _ | ⟨i | _, len⟩)
  · exact hfetch.mono (fun v hv => hv.1) (fun _ _ h => h) fun _ h => h
  · exact hfetch.mono (fun v hv => hv.1) (fun _ _ h => h) fun _ h => h
  · refine Runs.of_pre (fun v hv => hv.2 i len rfl) ?_
    rintro ⟨hnode, rfl⟩
    apply runs_ite
    · intro hlen
      exact (runs_adoptStaged hT hb3 hne hv₀ hnode hlen).mono (fun v hv => hv.1) (fun _ _ h => h)
        fun _ h => h
    · exact fun _ => runs_throw fun v hv => hquiet v hv.1
  · exact runs_throw fun v hv => hquiet v hv.1

end

section History

variable (b3 : Bytes → Text) (remote : Text × List Component → Bytes) (layout : StagingLayout)

def Allowed (move : Move Volume) : Prop := ∀ v, Quiet layout v (move.outside v)

def pullTerms : Terms Volume where
  allowed := Allowed layout
  guar _ v v' := Touches layout v v'

omit [UnicodeTables] in
theorem agreed_pullTerms : Agreed (pullTerms layout) layout :=
  ⟨fun _ hmove => hmove, fun _ _ _ h => h⟩

-- One staging place over time. It starts without a proof of a known source. Pulls
-- into it, each with a remote, a length, a range length and a concurrency of its
-- own, end in any way, also by a stop at any call. In between the sidecar stays or
-- is removed, and anything at all may happen to the files.
inductive History : Volume → Prop where
  | Start (v : Volume) (h : ∀ sidecar, v.sidecars layout.sidecar = .Saved sidecar →
      sourceIsKnown sidecar = false) : History v
  | Attempt {v : Volume} (h : History v) (spec : PullSpec)
      (hlayout : StagingLayout.fromSpec spec = .ok layout) (moves : Nat → Move Volume) (turn : Nat)
      (hmoves : ∀ n, Allowed layout (moves n)) :
      History (pullFile b3 remote spec moves turn v).world
  | Between {v v' : Volume} (h : History v)
      (hsidecar : v'.sidecars layout.sidecar = v.sidecars layout.sidecar ∨
        v'.sidecars layout.sidecar = .Absent) : History v'

variable {b3 remote layout} {spec : PullSpec} {v : Volume}

omit [UnicodeTables] in
theorem runs_at {α : Type} {P : Volume → Prop} {m : Prog Volume TransferError α}
    {A : α → Volume → Prop} {H : Volume → Prop} (h : Runs volumeOf (pullTerms layout) P m A H) (hv : P v)
    {moves : Nat → Move Volume} (turn : Nat) (hmoves : ∀ n, Allowed layout (moves n)) :
    (∀ a, (m moves turn v).outcome = .Done a → A a (m moves turn v).world) ∧
      ((∀ a, (m moves turn v).outcome ≠ .Done a) → H (m moves turn v).world) := by
  obtain ⟨-, hpost⟩ := h [] v hv moves turn hmoves
  cases ho : (m moves turn v).outcome with
  | Done a =>
      rw [ho] at hpost
      refine ⟨?_, fun hne => absurd rfl (hne a)⟩
      rintro a' ⟨⟩
      exact hpost
  | Failed e => rw [ho] at hpost; exact ⟨fun _ h => (by cases h), fun _ => hpost⟩
  | Stopped => rw [ho] at hpost; exact ⟨fun _ h => (by cases h), fun _ => hpost⟩

theorem History.honest (hb3 : Function.Injective b3) (h : History b3 remote layout v) :
    Honest b3 remote layout v := by
  induction h with
  | Start v h =>
      intro sidecar hsaved hknown
      rw [h sidecar hsaved] at hknown
      cases hknown
  | @Attempt v _ spec hlayout moves turn hmoves ih =>
      obtain ⟨hdone, hhalt⟩ := runs_at (runs_pullFile (agreed_pullTerms layout) hb3 hlayout ih)
        (Quiet.refl layout v) turn hmoves
      by_cases hends : ∃ out, (pullFile b3 remote spec moves turn v).outcome = .Done out
      · obtain ⟨out, hout⟩ := hends
        exact (hdone out hout).staged.honest
      · exact hhalt fun out hout => hends ⟨out, hout⟩
  | Between h hsidecar ih =>
      rcases hsidecar with hsame | habsent
      · exact ih.of_sidecar hsame
      · intro sidecar hsaved
        rw [habsent] at hsaved
        cases hsaved

end History

end

namespace Sample

-- A pull of six bytes by fours that is stopped after its first range.

def title : @TitleId UnicodeTables.ascii :=
  TitleId.Sample.matrix

def source : RemoteRef where
  rootId := "seedbox"
  relPath := "a.mkv"
  valid := by decide +kernel

def spec (rangeLen : Nat) : @PullSpec UnicodeTables.ascii :=
  @PullSpec.mk UnicodeTables.ascii "/library".toList title "a.mkv".toList source 6 rangeLen 2

def layout : StagingLayout := .fromStaged "/library/_incoming/movie-tmdb-603/a.mkv".toList

def b3 (bytes : Bytes) : Text := bytes.map Char.ofUInt8

def remote (_ : Text × List Component) : Bytes := [1, 2, 3, 4, 5, 6]

def fresh : Volume where
  files := {
    dir := []
    data := fun _ => []
    next := 0
    distinct := List.nodup_nil
    bound := Files.bound_none }
  sidecars _ := .Absent

def moves (n : Nat) : Move Volume := if n = 15 then { fate := .Stops 0 } else {}

def cut : Volume := (@pullFile UnicodeTables.ascii Volume _ b3 remote (spec 4) moves 0 fresh).world

theorem b3_injective : Function.Injective b3 := by
  apply List.map_injective_iff.mpr
  intro a b h
  have hval := congrArg (fun c => c.val.toNat) h
  apply UInt8.toNat_inj.mp
  change a.toUInt32.toNat = b.toUInt32.toNat at hval
  simpa using hval

theorem fromSpec_spec (rangeLen : Nat) :
    @StagingLayout.fromSpec UnicodeTables.ascii (spec rangeLen) = .ok layout := by
  have hfour : @StagingLayout.fromSpec UnicodeTables.ascii (spec 4) = .ok layout := by
    decide +kernel
  exact hfour

theorem allowed_moves (n : Nat) : Allowed layout (moves n) := by
  intro v
  unfold moves
  split
  · exact Quiet.refl layout v
  · exact Quiet.refl layout v

theorem history_cut : @History UnicodeTables.ascii b3 remote layout cut :=
  @History.Attempt UnicodeTables.ascii b3 remote layout fresh
    (@History.Start UnicodeTables.ascii b3 remote layout fresh fun _ h => by cases h)
    (spec 4) (fromSpec_spec 4) moves 0 allowed_moves

theorem saved_cut : cut.sidecars layout.sidecar = .Saved {
    remoteRoot := "seedbox", remotePath := "a.mkv", fileLen := 6, rangeLen := 4,
    ranges := [{ offset := 0, len := 4, blake3 := b3 [1, 2, 3, 4] }] } := by
  decide +kernel

theorem resumed_cut : (@pullFile UnicodeTables.ascii Volume _ b3 remote (spec 2) moves 16 cut).outcome =
    .Done { staged := layout.staged, resumedRanges := [(0, 4)], alreadyStaged := false } := by
  decide +kernel

end Sample

end Mediaops.Transfer
