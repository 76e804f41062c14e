import Mediaops.TitleIndex.Theorems

namespace Mediaops.TitleIndex

-- Runs of the title index: any number of calls on an empty index, each with its
-- own faults.

open Tx

section

variable [UnicodeTables]

inductive Op where
  | Install (titleId : TitleId) (digest : Blake3Hex) (path : Text)
  | Replace (path : Text) (currentB3 : Blake3Hex)
  | Import (entries : List TitleIndexEntry)

structure Call where
  op : Op
  faults : List Bool := []

def Op.tx : Op → IndexTx Unit
  | Install titleId digest path => recordInstall titleId digest path
  | Replace path currentB3 => recordReplace path currentB3
  | Import entries => importRows entries

def exec (rows : List Row) (call : Call) : Except StoreError Unit × List Row :=
  call.op.tx.run rows call.faults

def run (rows : List Row) (calls : List Call) : List Row :=
  calls.foldl (fun rows call => (exec rows call).2) rows

theorem run_append (rows : List Row) (pre post : List Call) :
    run rows (pre ++ post) = run (run rows pre) post := List.foldl_append

def Op.Effect : Op → List Row → List Row → Prop
  | Install titleId digest path, rows, rows' =>
      path ≠ [] ∧ Installed titleId digest path rows rows'
  | Replace path currentB3, rows, rows' => Replaced path currentB3 rows rows'
  | Import entries, rows, rows' =>
      rows = [] ∧ rows' = entries.map TitleIndexEntry.row ∧ Rows.Unique Row.key rows'

-- Rows of different paths that can all be read back.
structure Sound (rows : List Row) : Prop where
  unique : Rows.Unique Row.key rows
  stored : Stored rows

-- The digests of the paths that have one.
def Keeps (rows rows' : List Row) : Prop :=
  ∀ row ∈ rows, row.path ≠ [] → ∃ row' ∈ rows', row'.path = row.path ∧
    row'.installB3 = row.installB3

section Step

variable {rows rows' : List Row} {op : Op}

theorem exec_cases (hunique : Rows.Unique Row.key rows) {call : Call}
    {r : Except StoreError Unit} (h : exec rows call = (r, rows')) :
    (∃ e, r = .error e ∧ rows' = rows) ∨ (r = .ok () ∧ call.op.Effect rows rows') := by
  obtain ⟨op, faults⟩ := call
  cases op with
  | Install titleId digest path => exact recordInstall_leads hunique (leads_of_run h)
  | Replace path currentB3 => exact recordReplace_leads hunique (leads_of_run h)
  | Import entries => exact importRows_run h

omit [UnicodeTables] in
theorem admits_absent {new : Row} {others : List Row} {path : Text} (hpath : new.path = path)
    (habsent : ∀ other ∈ others, other.path ≠ path) : Rows.admits Row.key new others = true := by
  rw [Rows.admits_iff]
  intro k hk hmem
  obtain ⟨other, hother, hkey⟩ := List.mem_filterMap.mp hmem
  rw [key_eq_some] at hk hkey
  exact habsent other hother (by rw [hkey.1, ← hk.1, hpath])

theorem unique_effect (hunique : Rows.Unique Row.key rows) (h : op.Effect rows rows') :
    Rows.Unique Row.key rows' := by
  cases op with
  | Install titleId digest path =>
      obtain ⟨-, hinstalled⟩ := h
      cases hinstalled with
      | Same => exact hunique
      | Backfilled before row rest hrows _ _ _ habsent =>
          subst hrows
          refine Rows.unique_middle.mpr ⟨admits_absent rfl fun other hother => ?_,
            (Rows.unique_middle.mp hunique).2⟩
          refine habsent other ?_
          rcases List.mem_append.mp hother with hother | hother
          · exact List.mem_append_left _ hother
          · exact List.mem_append_right _ (List.mem_cons_of_mem _ hother)
      | Added habsent =>
          refine Rows.unique_middle.mpr ?_
          rw [List.append_nil]
          exact ⟨admits_absent rfl habsent, hunique⟩
  | Replace path currentB3 =>
      cases h with
      | At before row rest hrows _ _ =>
          subst hrows
          have hothers := Rows.unique_middle.mp hunique
          exact Rows.unique_middle.mpr hothers
  | Import entries => exact h.2.2

theorem stored_effect (hstored : Stored rows) (h : op.Effect rows rows') : Stored rows' := by
  -- A row in the place of another one that was stored.
  have hswap : ∀ {before rest : List Row} {row new : Row}, rows = before ++ row :: rest →
      (∀ entry : TitleIndexEntry, row = entry.row → ∃ entry' : TitleIndexEntry, new = entry'.row) →
      Stored (before ++ new :: rest) := by
    intro before rest row new hrows hnew other hother
    subst hrows
    rcases List.mem_append.mp hother with hother | hother
    · exact hstored other (List.mem_append_left _ hother)
    · rcases List.mem_cons.mp hother with rfl | hother
      · obtain ⟨entry, hentry⟩ := hstored row (by simp)
        exact hnew entry hentry
      · exact hstored other (List.mem_append_right _ (List.mem_cons_of_mem _ hother))
  cases op with
  | Install titleId digest path =>
      obtain ⟨-, hinstalled⟩ := h
      cases hinstalled with
      | Same => exact hstored
      | Backfilled before row rest hrows _ _ _ _ =>
          refine hswap hrows fun entry hentry => ⟨{ entry with path }, ?_⟩
          rw [hentry]
          rfl
      | Added _ =>
          intro other hother
          rcases List.mem_append.mp hother with hother | hother
          · exact hstored other hother
          · exact ⟨_, List.mem_singleton.mp hother⟩
  | Replace path currentB3 =>
      cases h with
      | At before row rest hrows _ _ =>
          refine hswap hrows fun entry hentry => ⟨{ entry with currentB3 }, ?_⟩
          rw [hentry]
          rfl
  | Import entries =>
      obtain ⟨-, rfl, -⟩ := h
      intro other hother
      obtain ⟨entry, -, rfl⟩ := List.mem_map.mp hother
      exact ⟨entry, rfl⟩

omit [UnicodeTables] in
theorem Keeps.refl (rows : List Row) : Keeps rows rows :=
  fun row hrow _ => ⟨row, hrow, rfl, rfl⟩

omit [UnicodeTables] in
theorem Keeps.trans {rows'' : List Row} (h : Keeps rows rows') (h' : Keeps rows' rows'') :
    Keeps rows rows'' := by
  intro row hrow hne
  obtain ⟨row', hrow', hpath, hdigest⟩ := h row hrow hne
  obtain ⟨row'', hrow'', hpath', hdigest'⟩ := h' row' hrow' (hpath ▸ hne)
  exact ⟨row'', hrow'', hpath'.trans hpath, hdigest'.trans hdigest⟩

theorem keeps_effect (h : op.Effect rows rows') : Keeps rows rows' := by
  cases op with
  | Install titleId digest path =>
      obtain ⟨-, hinstalled⟩ := h
      cases hinstalled with
      | Same => exact .refl rows
      | Backfilled before row rest hrows _ hpathless _ _ =>
          subst hrows
          intro other hother hne
          rcases List.mem_append.mp hother with hother | hother
          · exact ⟨other, List.mem_append_left _ hother, rfl, rfl⟩
          · rcases List.mem_cons.mp hother with rfl | hother
            · exact absurd hpathless hne
            · exact ⟨other, List.mem_append_right _ (List.mem_cons_of_mem _ hother), rfl, rfl⟩
      | Added _ => exact fun other hother _ => ⟨other, List.mem_append_left _ hother, rfl, rfl⟩
  | Replace path currentB3 =>
      cases h with
      | At before row rest hrows _ _ =>
          subst hrows
          intro other hother _
          rcases List.mem_append.mp hother with hother | hother
          · exact ⟨other, List.mem_append_left _ hother, rfl, rfl⟩
          · rcases List.mem_cons.mp hother with rfl | hother
            · exact ⟨{ other with currentB3 := currentB3.text }, by simp, rfl, rfl⟩
            · exact ⟨other, List.mem_append_right _ (List.mem_cons_of_mem _ hother), rfl, rfl⟩
  | Import entries =>
      obtain ⟨rfl, -, -⟩ := h
      exact fun other hother => absurd hother List.not_mem_nil

theorem exec_step (hsound : Sound rows) (call : Call) :
    Sound (exec rows call).2 ∧ Keeps rows (exec rows call).2 := by
  have hexec : exec rows call = ((exec rows call).1, (exec rows call).2) := rfl
  obtain ⟨e, -, hsame⟩ | ⟨-, heffect⟩ := exec_cases hsound.unique hexec
  · rw [hsame]
    exact ⟨hsound, .refl rows⟩
  · exact ⟨⟨unique_effect hsound.unique heffect, stored_effect hsound.stored heffect⟩,
      keeps_effect heffect⟩

end Step

theorem run_sound {rows : List Row} (hsound : Sound rows) (calls : List Call) :
    Sound (run rows calls) ∧ Keeps rows (run rows calls) := by
  induction calls generalizing rows with
  | nil => exact ⟨hsound, .refl rows⟩
  | cons call rest ih =>
      obtain ⟨hsound', hkeeps⟩ := exec_step hsound call
      obtain ⟨hlast, hkeeps'⟩ := ih hsound'
      exact ⟨hlast, hkeeps.trans hkeeps'⟩

theorem sound_nil : Sound [] :=
  ⟨List.nodup_nil, fun _ h => absurd h List.not_mem_nil⟩

section Again

variable {titleId : TitleId} {digest : Blake3Hex} {path : Text} {rows : List Row}

theorem installed_proof {rows' : List Row} (h : Installed titleId digest path rows rows') :
    ∃ row ∈ rows', row.path = path ∧ row.installB3 = digest.text := by
  cases h with
  | Same row hrow hpath hdigest => exact ⟨row, hrow, hpath, hdigest⟩
  | Backfilled before row rest _ _ _ hdigest _ =>
      exact ⟨{ row with path }, by simp, rfl, hdigest⟩
  | Added _ => exact ⟨(TitleIndexEntry.mk titleId path digest digest).row, by simp, rfl, rfl⟩

-- Where the path has the digest, an install of both changes nothing; it goes
-- through unless a statement fails.
theorem install_again (hsound : Sound rows) {row : Row} (hrow : row ∈ rows)
    (hpath : row.path = path) (hne : path ≠ []) (hdigest : row.installB3 = digest.text)
    (faults : List Bool) :
    (exec rows ⟨.Install titleId digest path, faults⟩).2 = rows ∧
      (exec rows ⟨.Install titleId digest path, []⟩).1 = .ok () := by
  constructor
  · generalize hexec : exec rows ⟨.Install titleId digest path, faults⟩ = after
    obtain ⟨r, rows'⟩ := after
    obtain ⟨e, -, hsame⟩ | ⟨-, -, hinstalled⟩ := exec_cases hsound.unique hexec
    · exact hsame
    · cases hinstalled with
      | Same => rfl
      | Backfilled _ _ _ _ _ _ _ habsent => exact absurd hpath (habsent row hrow)
      | Added habsent => exact absurd hpath (habsent row hrow)
  · -- The row that is found is the one at hand, and it can be read.
    have hfound : ∃ found ∈ rows, rows.find? (fun other => other.path = path) = some found ∧
        found.path = path := by
      cases hfind : rows.find? (fun other => other.path = path) with
      | none =>
          have hout := List.find?_eq_none.mp hfind row hrow
          simp [hpath] at hout
      | some found =>
          exact ⟨found, List.mem_of_find?_eq_some hfind, rfl, by simpa using List.find?_some hfind⟩
    obtain ⟨found, hmem, hfind, hfoundPath⟩ := hfound
    have hkey : ∀ other : Row, other.path = path → other.key = some path :=
      fun other hother => key_eq_some.mpr ⟨hother, hother ▸ hne⟩
    obtain rfl := Rows.eq_of_key hsound.unique hmem hrow (hkey _ hfoundPath) (hkey _ hpath)
    obtain ⟨entry, rfl⟩ := hsound.stored found hmem
    have hsame : entry.installB3 = digest := by
      cases hb : entry.installB3
      cases digest
      simp only [TitleIndexEntry.row, hb] at hdigest
      simp [hdigest]
    have hget : getPath path ⟨rows, rows, []⟩ = (.ok (some entry), ⟨rows, rows, []⟩) := by
      rw [getPath, if_neg hne, query_calm, hfind]
      simp [entryFromRow_row]
    have hrun : recordInstall titleId digest path ⟨rows, rows, []⟩ = (.ok (), ⟨rows, rows, []⟩) := by
      rw [recordInstall, if_neg hne]
      dsimp only
      rw [bind_ok hget]
      dsimp only
      rw [if_pos hsame]
      rfl
    simp [exec, Op.tx, Tx.run, hrun]

end Again

-- On an empty index, over any calls with any faults: one row for a path; the
-- install digest of a path stays as it is once it is there; a second install of
-- the same digest, however much later, changes nothing and succeeds; a replacement
-- changes one digest of the one row; an install fills in one row with both of its
-- digests kept, or adds one; and what fails leaves the index as it was.
theorem install_proofs (calls : List Call) :
    Rows.Unique Row.key (run [] calls) ∧
    (∀ more, ∀ row ∈ run [] calls, row.path ≠ [] →
      (∃ later ∈ run [] (calls ++ more), later.path = row.path) ∧
        ∀ later ∈ run [] (calls ++ more), later.path = row.path →
          later.installB3 = row.installB3) ∧
    (∀ titleId titleId' digest path faults faults' more,
      (exec (run [] calls) ⟨.Install titleId digest path, faults⟩).1 = .ok () →
        let there := run [] (calls ++ ⟨.Install titleId digest path, faults⟩ :: more)
        (exec there ⟨.Install titleId' digest path, faults'⟩).2 = there ∧
          (exec there ⟨.Install titleId' digest path, []⟩).1 = .ok ()) ∧
    (∀ path currentB3 faults rows',
      exec (run [] calls) ⟨.Replace path currentB3, faults⟩ = (.ok (), rows') →
        Replaced path currentB3 (run [] calls) rows') ∧
    (∀ titleId digest path faults rows',
      exec (run [] calls) ⟨.Install titleId digest path, faults⟩ = (.ok (), rows') →
        path ≠ [] ∧ Installed titleId digest path (run [] calls) rows') ∧
    (∀ call e rows', exec (run [] calls) call = (.error e, rows') → rows' = run [] calls) := by
  obtain ⟨hsound, -⟩ := run_sound sound_nil calls
  have hok : ∀ {call : Call} {rows' : List Row}, exec (run [] calls) call = (.ok (), rows') →
      call.op.Effect (run [] calls) rows' := by
    intro call rows' h
    obtain ⟨e, herr, -⟩ | ⟨-, heffect⟩ := exec_cases hsound.unique h
    · cases herr
    · exact heffect
  refine ⟨hsound.unique, fun more row hrow hne => ?_, ?_, ?_, ?_, ?_⟩
  · obtain ⟨hlast, hkeeps⟩ := run_sound hsound more
    rw [run_append]
    obtain ⟨kept, hkept, hpath, hdigest⟩ := hkeeps row hrow hne
    refine ⟨⟨kept, hkept, hpath⟩, fun later hlater hsame => ?_⟩
    have hkey : ∀ other : Row, other.path = row.path → other.key = some row.path :=
      fun other hother => key_eq_some.mpr ⟨hother, hother ▸ hne⟩
    obtain rfl := Rows.eq_of_key hlast.unique hlater hkept (hkey _ hsame) (hkey _ hpath)
    exact hdigest
  · intro titleId titleId' digest path faults faults' more hfirst
    obtain ⟨hne, hinstalled⟩ : path ≠ [] ∧ Installed titleId digest path (run [] calls)
        (exec (run [] calls) ⟨.Install titleId digest path, faults⟩).2 :=
      hok (Prod.ext hfirst rfl)
    obtain ⟨row, hrow, hpath, hdigest⟩ := installed_proof hinstalled
    obtain ⟨hsound', -⟩ := exec_step hsound ⟨.Install titleId digest path, faults⟩
    obtain ⟨hlast, hkeeps⟩ := run_sound hsound' more
    obtain ⟨later, hlater, hlaterPath, hlaterDigest⟩ := hkeeps row hrow (hpath ▸ hne)
    dsimp only
    rw [run_append]
    exact install_again hlast hlater (hlaterPath.trans hpath) hne (hlaterDigest.trans hdigest) _
  · intro path currentB3 faults rows' h
    exact hok h
  · intro titleId digest path faults rows' h
    exact hok h
  · intro call e rows' h
    obtain ⟨-, -, hsame⟩ | ⟨hgood, -⟩ := exec_cases hsound.unique h
    · exact hsame
    · cases hgood

end

namespace Sample

def digest : Blake3Hex := ⟨List.replicate 64 'a', hex_as⟩

def matrix : @TitleId UnicodeTables.ascii :=
  TitleId.Sample.matrix

def install : @Call UnicodeTables.ascii :=
  @Call.mk UnicodeTables.ascii (@Op.Install UnicodeTables.ascii matrix digest "m/a.mkv") []

end Sample

theorem install_proofs_twice :
    let := UnicodeTables.ascii
    run [] [Sample.install] ≠ [] ∧
      (exec (run [] [Sample.install]) Sample.install).2 = run [] [Sample.install] := by
  intro _
  have hfirst : (exec [] Sample.install).1 = .ok () := by decide +kernel
  refine ⟨by decide +kernel, ?_⟩
  obtain ⟨-, -, hagain, -⟩ := install_proofs []
  exact (hagain _ Sample.matrix _ _ [] [] [] hfirst).1

end Mediaops.TitleIndex
