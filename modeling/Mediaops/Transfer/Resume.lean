import Mediaops.Library.Checks
import Mediaops.Transfer.Ranges

namespace Mediaops.Transfer

-- What a pull may count on from an earlier attempt.

def Sidecar.source (sidecar : Sidecar) : Text × List Component :=
  (sidecar.remoteRoot, Path.components sidecar.remotePath)

section Honest

variable (b3 : Bytes → Text) (remote : Text × List Component → Bytes) (layout : StagingLayout)

-- Each recorded digest is that of the remote file's own bytes.
def RightDigests (sidecar : Sidecar) : Prop :=
  ∀ r ∈ sidecar.ranges, r.blake3 = b3 (Bytes.slice r.offset r.len (remote sidecar.source))

-- What every call of every pull keeps true of the sidecar on disk.
def Honest (v : Volume) : Prop :=
  ∀ sidecar, v.sidecars layout.sidecar = .Saved sidecar → sourceIsKnown sidecar = true →
    RightDigests b3 remote sidecar

end Honest

variable [UnicodeTables]

-- The sidecar that stands there is about the file the pull asks for.
structure SameSource (layout : StagingLayout) (spec : PullSpec) (v : Volume) (sidecar : Sidecar) :
    Prop where
  saved : v.sidecars layout.sidecar = .Saved sidecar
  known : sourceIsKnown sidecar = true
  source : sidecar.source = spec.remote.key
  fileLen : sidecar.fileLen = spec.fileLen

-- A range that counts as downloaded: recorded for this very file, and on disk with
-- the remote file's bytes.
structure Counted (remote : Text × List Component → Bytes) (layout : StagingLayout)
    (spec : PullSpec) (v : Volume) (path : Text) (offset len : Nat) : Prop where
  recorded : ∃ sidecar, SameSource layout spec v sidecar ∧ sidecar.has offset len = true
  within : offset + len ≤ spec.fileLen
  onDisk : ∃ bytes, v.files.content path = some bytes ∧ offset + len ≤ bytes.length ∧
    Bytes.slice offset len bytes = Bytes.slice offset len (remote spec.remote.key)

section

variable {layout : StagingLayout} {spec : PullSpec} {b3 : Bytes → Text}
  {remote : Text × List Component → Bytes} {v v' : Volume}

omit [UnicodeTables] in
theorem Honest.of_sidecar (h : Honest b3 remote layout v)
    (hsame : v'.sidecars layout.sidecar = v.sidecars layout.sidecar) :
    Honest b3 remote layout v' := by
  intro sidecar hsaved
  exact h sidecar (hsame ▸ hsaved)

omit [UnicodeTables] in
theorem honest_saved {sidecar : Sidecar} (hsaved : v.sidecars layout.sidecar = .Saved sidecar)
    (h : RightDigests b3 remote sidecar) : Honest b3 remote layout v := by
  intro sidecar' hsaved' _
  rw [hsaved] at hsaved'
  cases hsaved'
  exact h

omit [UnicodeTables] in
theorem rangeBufLen_ok {fileLen offset len n : Nat} (h : rangeBufLen fileLen offset len = .ok n) :
    n = len ∧ 0 < len ∧ offset + len ≤ fileLen := by
  unfold rangeBufLen at h
  dsimp only at h
  obtain ⟨-, h⟩ := Checks.guard_ok h
  obtain ⟨hend, h⟩ := Checks.guard_ok h
  obtain ⟨hlen, h⟩ := Checks.guard_ok h
  cases h
  exact ⟨rfl, by omega, by omega⟩

omit [UnicodeTables] in
theorem checkSidecar_ok {sidecar : Sidecar} (h : checkSidecar sidecar = .ok ()) :
    0 < sidecar.rangeLen := by
  unfold checkSidecar at h
  obtain ⟨-, h⟩ := Checks.guard_ok h
  obtain ⟨hlen, -⟩ := Checks.guard_ok h
  omega

theorem checkSource_ok {sidecar : Sidecar} (h : checkSource sidecar spec = .ok ()) :
    sidecar.fileLen = spec.fileLen ∧
      (sourceIsKnown sidecar = true → sidecar.source = spec.remote.key) := by
  unfold checkSource at h
  obtain ⟨hc, -⟩ := Checks.ite_ok h
  push Not at hc
  obtain ⟨hlen, hsource⟩ := hc
  refine ⟨hlen, fun hknown => ?_⟩
  simp only [sourceIsKnown, Bool.and_eq_true, decide_eq_true_eq] at hknown
  obtain ⟨hroot, hpath⟩ := hsource (.inl hknown.1)
  simp only [Bool.not_eq_true, Bool.not_eq_false', Path.equal, decide_eq_true_eq] at hpath
  rw [Sidecar.source, RemoteRef.key, hroot, hpath]

end

section Specs

variable {W : Type} [Mounted W] {T : Terms W} {layout : StagingLayout} {spec : PullSpec}
  {b3 : Bytes → Text} {remote : Text × List Component → Bytes} {v₀ : Volume}

omit [UnicodeTables] in
theorem stable_quiet (layout : StagingLayout) (v₀ : Volume) : Stable layout (Quiet layout v₀) :=
  fun _ _ h h₀ => h₀.trans h

omit [UnicodeTables] in
theorem runs_load (hT : Agreed T layout) :
    Runs volumeOf T (Quiet layout v₀) (load layout.sidecar : Prog W TransferError _)
      (fun found v => Quiet layout v₀ v ∧ ∀ sidecar, found = some sidecar →
        v₀.sidecars layout.sidecar = .Saved sidecar ∧ 0 < sidecar.rangeLen)
      (Quiet layout v₀) := by
  unfold load
  refine Runs.bind (A := fun file v => Quiet layout v₀ v ∧ v₀.sidecars layout.sidecar = file)
    (runs_look hT (stable_quiet layout v₀) ?_ fun _ hv => hv) ?_
  · intro v file hv hfile
    cases hfile
    exact ⟨hv, hv.sidecar.symm⟩
  rintro (_ | _ | _ | sidecar)
  · exact runs_pure fun v hv => ⟨hv.1, fun _ h => by cases h⟩
  · exact runs_throw fun v hv => hv.1
  · exact runs_throw fun v hv => hv.1
  · refine Runs.bind (A := fun _ v => (Quiet layout v₀ v ∧
      v₀.sidecars layout.sidecar = .Saved sidecar) ∧ 0 < sidecar.rangeLen)
      (runs_lift (fun _ hok v hv => ⟨hv, checkSidecar_ok hok⟩) fun v hv => hv.1) ?_
    rintro ⟨⟩
    refine runs_pure fun v hv => ⟨hv.1.1, ?_⟩
    rintro sidecar' ⟨⟩
    exact ⟨hv.1.2, hv.2⟩

-- A recorded range whose bytes are still on disk.
def Reads (b3 : Bytes → Text) (bytes : Bytes) (fileLen : Nat) (r : SidecarRange) : Prop :=
  b3 (Bytes.slice r.offset r.len bytes) = r.blake3 ∧ r.offset + r.len ≤ bytes.length ∧
    r.offset + r.len ≤ fileLen

omit [UnicodeTables] in
theorem runs_keepRanges (hT : Agreed T layout) {path : Text} {i fileLen : Nat}
    (hi : i < v₀.files.next) (ranges : List SidecarRange) :
    Runs volumeOf T (Quiet layout v₀) (keepRanges b3 path i fileLen ranges : Prog W TransferError _)
      (fun kept v => Quiet layout v₀ v ∧
        ∀ r ∈ kept, r ∈ ranges ∧ Reads b3 (v₀.files.data i) fileLen r)
      (Quiet layout v₀) := by
  induction ranges with
  | nil => exact runs_pure fun v hv => ⟨hv, fun r hr => by cases hr⟩
  | cons range rest ih =>
      unfold keepRanges
      have hskip : ∀ (kept : List SidecarRange) v, (Quiet layout v₀ v ∧
          ∀ r ∈ kept, r ∈ rest ∧ Reads b3 (v₀.files.data i) fileLen r) →
          Quiet layout v₀ v ∧
            ∀ r ∈ kept, r ∈ range :: rest ∧ Reads b3 (v₀.files.data i) fileLen r :=
        fun kept v hv => ⟨hv.1, fun r hr => ⟨List.mem_cons_of_mem _ (hv.2 r hr).1, (hv.2 r hr).2⟩⟩
      refine Runs.bind (A := fun len v => Quiet layout v₀ v ∧ len = range.len ∧ 0 < range.len ∧
        range.offset + range.len ≤ fileLen)
        (runs_lift (fun len hlen v hv => ⟨hv, rangeBufLen_ok hlen⟩) fun _ hv => hv) ?_
      intro len
      refine Runs.of_pre (fun v hv => hv.2) ?_
      rintro ⟨rfl, hpos, hwithin⟩
      refine Runs.bind (A := fun read v => Quiet layout v₀ v ∧ ∀ bytes, read = .ok bytes →
        bytes = Bytes.slice range.offset range.len (v₀.files.data i) ∧ bytes.length = range.len)
        (Runs.attempt ?_) ?_
      · refine runs_look hT (fun v v' h hv => ⟨hv.1.trans h, hv.2⟩) ?_ ?_
        · rintro v bytes ⟨hv, -⟩ hread
          refine ⟨hv, ?_⟩
          rintro bytes' ⟨⟩
          dsimp only at hread
          rw [hv.files.data i hi] at hread
          split at hread
          · cases hread
            exact ⟨rfl, ‹_›⟩
          · cases hread
        · rintro v ⟨hv, -⟩
          exact ⟨hv, fun e => ⟨hv, fun _ h => by cases h⟩⟩
      intro read
      refine Runs.of_pre (fun v hv => hv.2) fun hread => ?_
      refine Runs.bind (ih.mono (fun v hv => hv.1) (fun _ _ h => h) fun _ h => h) ?_
      intro kept
      cases read with
      | error e => exact runs_pure (hskip kept)
      | ok bytes =>
          obtain ⟨rfl, hlen⟩ := hread bytes rfl
          apply runs_ite
          · intro hdigest
            refine runs_pure fun v hv => ⟨hv.1, fun r hr => ?_⟩
            rcases List.mem_cons.mp hr with rfl | hr
            · refine ⟨List.mem_cons_self, hdigest, ?_, hwithin⟩
              simp only [Bytes.slice, List.length_take, List.length_drop] at hlen
              omega
            · exact (hskip kept v hv).2 r hr
          · intro _
            exact runs_pure (hskip kept)

omit [UnicodeTables] in
theorem runs_verifyRecordedRanges (hT : Agreed T layout) (sidecar : Sidecar) {path : Text}
    (hpath : layout.Private path) :
    Runs volumeOf T (Quiet layout v₀) (verifyRecordedRanges b3 sidecar path : Prog W TransferError _)
      (fun sidecar' v => Quiet layout v₀ v ∧
        sidecar' = { sidecar with ranges := sidecar'.ranges } ∧
        ∀ r ∈ sidecar'.ranges, r ∈ sidecar.ranges ∧ ∃ bytes, v₀.files.content path = some bytes ∧
          Reads b3 bytes sidecar.fileLen r)
      (Quiet layout v₀) := by
  unfold verifyRecordedRanges
  refine Runs.bind (A := fun _ v => Quiet layout v₀ v)
    (runs_look hT (stable_quiet layout v₀) (fun v _ hv _ => hv) fun _ hv => hv) ?_
  rintro (_ | ⟨_ | _, _⟩)
  · exact runs_pure fun v hv => ⟨hv, rfl, fun r hr => by cases hr⟩
  · refine Runs.bind (A := fun i v => Quiet layout v₀ v ∧ v₀.files.node path = some (.File i))
      (runs_look hT (stable_quiet layout v₀) ?_ fun _ hv => hv) ?_
    · intro v i hv hopen
      split at hopen
      · rename_i j hj
        cases hopen
        exact ⟨hv, by rw [← hv.files.names path hpath, hj]⟩
      · cases hopen
    intro i
    refine Runs.of_pre (fun v hv => hv.2) fun hnode => ?_
    refine Runs.bind ((runs_keepRanges hT (Files.node_bound hnode) sidecar.ranges).mono
      (fun v hv => hv.1) (fun _ _ h => h) fun _ h => h) ?_
    intro kept
    refine runs_pure fun v hv => ⟨hv.1, rfl, fun r hr => ?_⟩
    obtain ⟨hmem, hreads⟩ := hv.2 r hr
    exact ⟨hmem, _, Files.content_file hnode, hreads⟩
  · exact runs_throw fun v hv => hv

-- The sidecar an attempt goes on with.
structure Resumed (b3 : Bytes → Text) (remote : Text × List Component → Bytes)
    (layout : StagingLayout) (spec : PullSpec) (v₀ : Volume) (sidecar : Sidecar) : Prop where
  root : sidecar.remoteRoot = spec.remote.rootId
  path : sidecar.remotePath = spec.remote.relPath
  rangeLen : 0 < sidecar.rangeLen
  digests : RightDigests b3 remote sidecar
  counted : ∀ r ∈ sidecar.ranges, Counted remote layout spec v₀ layout.partialPath r.offset r.len

theorem Resumed.source {sidecar : Sidecar} (h : Resumed b3 remote layout spec v₀ sidecar) :
    sidecar.source = spec.remote.key := by
  rw [Sidecar.source, RemoteRef.key, h.root, h.path]

-- Bytes that read back with an honest digest are the remote file's.
theorem counted_of_reads (hb3 : Function.Injective b3) (hv₀ : Honest b3 remote layout v₀)
    {sidecar : Sidecar} (hsame : SameSource layout spec v₀ sidecar) {path : Text} {bytes : Bytes}
    (hbytes : v₀.files.content path = some bytes) {r : SidecarRange} (hr : r ∈ sidecar.ranges)
    (hreads : Reads b3 bytes sidecar.fileLen r) :
    Counted remote layout spec v₀ path r.offset r.len ∧
      r.blake3 = b3 (Bytes.slice r.offset r.len (remote spec.remote.key)) := by
  obtain ⟨hdigest, hlen, hwithin⟩ := hreads
  have hright := hv₀ sidecar hsame.saved hsame.known r hr
  rw [hsame.source] at hright
  have hslice := hb3 (hdigest.trans hright)
  refine ⟨⟨⟨sidecar, hsame, ?_⟩, ?_, bytes, hbytes, hlen, hslice⟩, hright⟩
  · exact Sidecar.has_iff.mpr ⟨r, hr, rfl, rfl⟩
  · rw [← hsame.fileLen]
    exact hwithin

-- After `resume` the files are as at the start and the sidecar is the one returned.
structure Begun (layout : StagingLayout) (v₀ : Volume) (sidecar : Sidecar) (v : Volume) : Prop where
  files : Files.Apart layout.Private v₀.files v.files
  saved : v.sidecars layout.sidecar = .Saved sidecar

theorem runs_recall (hT : Agreed T layout) (hb3 : Function.Injective b3)
    (hv₀ : Honest b3 remote layout v₀) :
    Runs volumeOf T (Quiet layout v₀) (loadSidecar b3 spec layout : Prog W TransferError _)
      (fun sidecar v => Quiet layout v₀ v ∧ 0 < sidecar.rangeLen ∧
        ∀ r ∈ sidecar.ranges, Counted remote layout spec v₀ layout.partialPath r.offset r.len ∧
          r.blake3 = b3 (Bytes.slice r.offset r.len (remote spec.remote.key)))
      (Quiet layout v₀) := by
  unfold loadSidecar
  refine Runs.bind (runs_load hT) ?_
  rintro (_ | existing)
  · apply runs_guard fun v hv => hv.1
    intro hrange
    exact runs_pure fun v hv => ⟨hv.1, Nat.pos_of_ne_zero hrange, fun r hr => by cases hr⟩
  · refine Runs.of_pre (fun v hv => hv.2 existing rfl) ?_
    rintro ⟨hsaved, hpos⟩
    refine Runs.bind (A := fun _ v => Quiet layout v₀ v ∧ checkSource existing spec = .ok ())
      (runs_lift (fun _ hok v hv => ⟨hv.1, hok⟩) fun v hv => hv.1) ?_
    rintro ⟨⟩
    refine Runs.of_pre (fun v hv => hv.2) fun hsource => ?_
    obtain ⟨hfileLen, hkey⟩ := checkSource_ok hsource
    apply runs_guard fun v hv => hv.1
    intro _
    refine (runs_verifyRecordedRanges hT _ (.inr rfl)).mono (fun v hv => hv.1) ?_ fun _ hv => hv
    rintro sidecar v ⟨hv, hfields, hranges⟩
    refine ⟨hv, ?_, fun r hr => ?_⟩
    · rw [hfields]
      dsimp only
      split
      · exact hpos
      · exact hpos
    · obtain ⟨hmem, bytes, hbytes, hreads⟩ := hranges r hr
      by_cases hknown : sourceIsKnown existing = true
      · rw [if_pos hknown] at hmem hreads
        exact counted_of_reads hb3 hv₀ ⟨hsaved, hknown, hkey hknown, hfileLen⟩ hbytes hmem hreads
      · rw [if_neg hknown] at hmem
        cases hmem

theorem runs_resume (hT : Agreed T layout) (hb3 : Function.Injective b3)
    (hv₀ : Honest b3 remote layout v₀) :
    Runs volumeOf T (Quiet layout v₀) (resume b3 spec layout : Prog W TransferError _)
      (fun sidecar v => Resumed b3 remote layout spec v₀ sidecar ∧ Begun layout v₀ sidecar v)
      (Honest b3 remote layout) := by
  have hquiet : ∀ v, Quiet layout v₀ v → Honest b3 remote layout v :=
    fun v hv => hv₀.of_sidecar hv.sidecar
  unfold resume
  refine Runs.bind ((runs_recall hT hb3 hv₀).mono (fun _ h => h) (fun _ _ h => h) hquiet) ?_
  intro sidecar
  refine Runs.of_pre (fun v hv => hv.2) ?_
  rintro ⟨hpos, hranges⟩
  have hdigests : RightDigests b3 remote { sidecar with
      remoteRoot := spec.remote.rootId, remotePath := spec.remote.relPath } :=
    fun r hr => (hranges r hr).2
  refine Runs.bind (A := fun _ v => Begun layout v₀ { sidecar with
      remoteRoot := spec.remote.rootId, remotePath := spec.remote.relPath } v) ?_ ?_
  · refine runs_save hT (fun v v' h hv => ⟨hv.1.trans h, hv.2⟩) ?_ (fun v hv => hquiet v hv.1) ?_
    · exact fun v hv => ⟨hv.1.files, Function.update_self ..⟩
    · exact fun v hv => honest_saved hv.saved hdigests
  rintro ⟨⟩
  exact runs_pure fun v hv => ⟨⟨rfl, rfl, hpos, hdigests, fun r hr => (hranges r hr).1⟩, hv⟩

end Specs

end Mediaops.Transfer
