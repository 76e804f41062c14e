import Mathlib.Algebra.Order.BigOperators.Group.List
import Mathlib.Algebra.Order.Group.Nat
import Mediaops.Ssh.Splice

namespace Mediaops.Ssh

open Diff

section Exactness

theorem splicedLines_of_any {live : Text} (h : (lines live).any hostLine = true) :
    splicedLines live = (lines live).map spliceLine := by
  rw [splicedLines, h]
  rfl

theorem splicedLines_of_none {live : Text} (h : (lines live).any hostLine = false) :
    splicedLines live = insertAfterPass (lines live) := by
  rw [splicedLines, h, map_spliceLine h]
  rfl

theorem items_lines {text : Text} (h : Rewritable text) :
    Nginx.items (full (lines text)) = Nginx.items text :=
  (run_lines text Nginx.clean h.returns).1

theorem Rewritable.shapes_spliced {text : Text} (h : Rewritable text) :
    shapes (full ((lines text).map spliceLine)) = shapes text := by
  rw [shapes, shapes, ← items_lines h]
  exact (run_spliced Nginx.clean (lines text) h.hosts).2

-- One more line is one more `Host` directive.
theorem sameStructure_inserted {live result : Text} (h : Rewritable live)
    (hinsert : Insertable live)
    (hresult : Nginx.items result = Nginx.items (full (insertAfterPass (lines live)))) :
    SameStructure live result := by
  obtain ⟨width, below, hlines, hafter⟩ := insertAfterPass_eq (lines live)
  have hspaces : ∀ c ∈ List.replicate width ' ', Nginx.blank c = true := by
    intro c hc
    rw [List.eq_of_mem_replicate hc]
    rfl
  refine Or.inr ⟨(Nginx.items (full (aboveInsertion (lines live)))).map shape,
    (Nginx.items (full below)).map shape, ?_, ?_⟩
  · rw [shapes, ← items_lines h]
    conv_lhs => rw [hlines]
    rw [Nginx.items, full_append, Nginx.run_append, hinsert.whole, List.map_append]
    rfl
  · rw [shapes, hresult, hafter, Nginx.items, full_append, Nginx.run_append, hinsert.whole,
      run_full_cons, run_hostText hspaces]
    simp only [List.map_append]
    rfl

-- So is a last directive that is ended where it is rewritten.
theorem sameStructure_open {front rest result : Text} (hended : Ended front) (h : Rewritable front)
    (hclean : (Nginx.run Nginx.clean front).1 = Nginx.clean) (hopen : HostOpen rest)
    (hresult : Nginx.items result = Nginx.items (full ((lines (front ++ rest)).map spliceLine))) :
    SameStructure (front ++ rest) result := by
  obtain ⟨line, back, hlines, hline, hindent, hback, hnone⟩ := hopen.starts
  obtain ⟨hitems, hends⟩ := run_lines front Nginx.clean h.returns
  obtain ⟨hstate, -⟩ := run_spliced Nginx.clean (lines front) h.hosts
  rw [hends hended, hclean] at hstate
  have hlive : shapes (front ++ rest) = shapes front := by
    have hrest : (Nginx.run Nginx.clean rest).2 = [] := hopen.unended
    rw [shapes, Nginx.items, Nginx.run_append, hclean, hrest, List.append_nil]
    rfl
  have hnew : Nginx.items result = Nginx.items (full ((lines front).map spliceLine)) ++
      [.directive ["proxy_set_header".toList, "Host".toList, "$host".toList]] := by
    rw [hresult, lines_append rest hended, hlines, List.map_append, List.map_cons,
      map_spliceLine hback, spliceLine, if_pos hline, Nginx.items, full_append, Nginx.run_append,
      hstate, run_full_cons, run_hostText hindent]
    have hbelow : (Nginx.run Nginx.clean (full back)).2 = [] := hnone
    rw [hbelow]
    rfl
  refine Or.inr ⟨shapes front, [], by rw [hlive, List.append_nil], ?_⟩
  rw [shapes, hnew, List.map_append]
  congr 1
  exact h.shapes_spliced

theorem sameStructure_of_spliceable {live result : Text} (h : Spliceable live)
    (hresult : Nginx.items result = Nginx.items (full (splicedLines live))) :
    SameStructure live result := by
  rcases h with ⟨hrewritable, hinserts⟩ | ⟨front, rest, rfl, hended, hrewritable, hclean, hopen⟩
  · cases hany : (lines live).any hostLine with
    | true =>
        left
        rw [splicedLines_of_any hany] at hresult
        rw [← hrewritable.shapes_spliced, shapes, hresult]
        rfl
    | false =>
        rw [splicedLines_of_none hany] at hresult
        exact sameStructure_inserted hrewritable (hinserts hany) hresult
  · obtain ⟨line, back, hlines, hline, -⟩ := hopen.starts
    have hany : (lines (front ++ rest)).any hostLine = true := by
      rw [lines_append rest hended, hlines]
      simp [hline]
    rw [splicedLines_of_any hany] at hresult
    exact sameStructure_open hended hrewritable hclean hopen hresult

theorem Spliceable.ascii {live : Text} (h : Spliceable live)
    (hany : (lines live).any hostLine = false) :
    ∀ line ∈ aboveInsertion (lines live), ∀ c ∈ line, c.toNat < 128 := by
  rcases h with ⟨-, hinserts⟩ | ⟨front, rest, rfl, hended, -, -, hopen⟩
  · exact (hinserts hany).ascii
  · obtain ⟨line, back, hlines, hline, -⟩ := hopen.starts
    rw [lines_append rest hended, hlines] at hany
    simp [hline] at hany

theorem spliceExact_of_false {live : Text} (h : nginxHostOk live = some false)
    (hspliceable : Spliceable live) : SpliceExact live := by
  obtain ⟨tail, htail, hsplice⟩ := splice_pieces h
  have hok := nginxHostOk_result h hspliceable.ascii tail
  refine ⟨_, hsplice, hok, ?_, ?_, ?_⟩
  · rw [spliceHostDollarHost, hok]
    rfl
  · intro line hline hhost
    have hpieces : ∀ piece ∈ splicedLines live ++ tail, '\n' ∉ piece := by
      intro piece hpiece
      rcases List.mem_append.mp hpiece with hpiece | hpiece
      · exact newline_notMem_spliced hpiece
      · rcases htail with rfl | rfl
        · cases hpiece
        · simp [List.mem_singleton.mp hpiece]
    rw [Text.split_joinWith (by simp [splicedLines_ne_nil]) hpieces, List.mem_append] at hline
    rcases hline with hline | hline
    · exact setsHost_spliced hline hhost
    · rcases htail with rfl | rfl
      · cases hline
      · rw [List.mem_singleton.mp hline] at hhost
        exact absurd hhost (by decide)
  · exact sameStructure_of_spliceable hspliceable (items_pieces (splicedLines_ne_nil live) htail)

-- A text that the scan takes is kept as it is.
theorem spliceExact_of_true {live : Text} (h : nginxHostOk live = some true) :
    SpliceExact live ↔ ∀ line ∈ Text.split (· == '\n') live, hostLine line → SetsHost line := by
  have hsplice : spliceHostDollarHost live = some live := by
    rw [spliceHostDollarHost, h]
    rfl
  constructor
  · rintro ⟨result, hresult, -, -, hlines, -⟩
    rw [hsplice] at hresult
    obtain rfl := Option.some.inj hresult
    exact hlines
  · intro hlines
    exact ⟨live, hsplice, h, hsplice, hlines, Or.inl rfl⟩

theorem not_spliceExact_of_none {live : Text} (h : nginxHostOk live = none) : ¬SpliceExact live := by
  rintro ⟨result, hresult, -⟩
  rw [spliceHostDollarHost, h] at hresult
  cases hresult

end Exactness

section Converse

theorem flatMap_eq_of_length_le {α β : Type*} {old new : α → List β} {ls : List α}
    (hle : ∀ a ∈ ls, (new a).length ≤ (old a).length) (heq : ls.flatMap new = ls.flatMap old) :
    ∀ a ∈ ls, new a = old a := by
  induction ls with
  | nil => simp
  | cons first rest ih =>
      simp only [List.mem_cons, forall_eq_or_imp] at hle ⊢
      have hrest : (rest.flatMap new).length ≤ (rest.flatMap old).length := by
        rw [List.length_flatMap, List.length_flatMap]
        exact List.sum_le_sum fun a ha => hle.2 a ha
      have hlength := congrArg List.length heq
      simp only [List.flatMap_cons, List.length_append] at heq hlength
      obtain ⟨hfirst, hmore⟩ := List.append_inj heq (by omega)
      exact ⟨hfirst, ih hle.2 hmore⟩

theorem hostLine_letter {line : Text} (h : hostLine line = true) :
    ∃ c rest, trimStart line = c :: rest ∧ c.isAlpha = true := by
  obtain ⟨more, hmore⟩ := List.isPrefixOf_iff_prefix.mp h
  cases htrim : trimStart line with
  | nil =>
      rw [htrim] at hmore
      cases hmore
  | cons c rest =>
      rw [htrim] at hmore
      have hlower : 'p' = c.toLower := (List.cons.inj hmore).1
      refine ⟨c, rest, rfl, ?_⟩
      have hvalue : 'p'.toNat = c.toLower.toNat := congrArg Char.toNat hlower
      rw [Text.toNat_toLower] at hvalue
      change (c.isUpper || c.isLower) = true
      rw [Bool.or_eq_true, Text.isUpper_iff, Text.isLower_iff]
      revert hvalue
      split <;> simp <;> omega

-- A `Host` line that ends between directives completes one.
theorem items_hostLine {line : Text} (hline : hostLine line = true)
    (hindent : ∀ c ∈ indentation line, Nginx.blank c = true)
    (hend : (Nginx.run Nginx.clean (line ++ ['\n'])).1 = Nginx.clean) :
    Nginx.items (line ++ ['\n']) ≠ [] := by
  intro hnone
  obtain ⟨c, rest, htrim, hletter⟩ := hostLine_letter hline
  obtain ⟨hbegun, hfirst⟩ := Nginx.begun_letter hletter
  have hsplit : line = indentation line ++ c :: rest := by
    rw [← htrim]
    exact List.takeWhile_append_dropWhile.symm
  have hrun : Nginx.run Nginx.clean (line ++ ['\n']) =
      Nginx.run (Nginx.step Nginx.clean c).1 (rest ++ ['\n']) := by
    conv_lhs => rw [hsplit]
    rw [List.append_assoc, Nginx.run_append, Nginx.run_blanks hindent, List.cons_append,
      Nginx.run_cons, hfirst]
    rfl
  rw [Nginx.items, hrun] at hnone
  have hlast := hbegun.run hnone
  rw [← hrun, hend] at hlast
  exact Nginx.not_begun_clean hlast

def lineShapes (line : Text) : List (Option Nginx.Item) := shapes (line ++ ['\n'])

theorem shapes_full {ls : List Text}
    (h : ∀ line ∈ ls, (Nginx.run Nginx.clean (line ++ ['\n'])).1 = Nginx.clean) :
    shapes (full ls) = ls.flatMap lineShapes := by
  induction ls with
  | nil => rfl
  | cons line rest ih =>
      simp only [List.mem_cons, forall_eq_or_imp] at h
      rw [List.flatMap_cons, ← ih h.2, shapes, Nginx.items, run_full_cons, h.1, List.map_append]
      rfl

theorem Linewise.run_line {live line : Text} (h : Linewise live) (hmem : line ∈ lines live) :
    (Nginx.run Nginx.clean (line ++ ['\n'])).1 = Nginx.clean := by
  obtain ⟨front, back, hlines⟩ := List.append_of_mem hmem
  have habove := h.whole front (line :: back) hlines
  have hline := h.whole (front ++ [line]) back (by rw [hlines, List.append_assoc]; rfl)
  rw [full_append, Nginx.run_append, habove] at hline
  simpa using hline

theorem lineShapes_hostText {indent : Text} (h : ∀ c ∈ indent, Nginx.blank c = true) :
    lineShapes (hostText indent) = [none] := by
  rw [lineShapes, shapes, Nginx.items, run_hostText h]
  rfl

-- Each line keeps its number of directives, or loses some.
theorem Linewise.lineShapes_le {live line : Text} (h : Linewise live) (hmem : line ∈ lines live) :
    (lineShapes (spliceLine line)).length ≤ (lineShapes line).length := by
  by_cases hline : hostLine line = true
  · have hindent := h.indented line hmem hline
    have hsome := items_hostLine hline hindent (h.run_line hmem)
    rw [spliceLine, if_pos hline, lineShapes_hostText hindent, lineShapes, shapes, List.length_map]
    exact List.length_pos_iff.mpr hsome
  · rw [spliceLine, if_neg hline]

theorem Linewise.shapes_spliced {live : Text} (h : Linewise live) :
    shapes (full ((lines live).map spliceLine)) =
      (lines live).flatMap fun line => lineShapes (spliceLine line) := by
  rw [shapes_full, List.flatMap_map]
  intro line hline
  obtain ⟨old, hold, rfl⟩ := List.mem_map.mp hline
  by_cases hhost : hostLine old = true
  · rw [spliceLine, if_pos hhost, run_hostText (h.indented old hold hhost)]
  · rw [spliceLine, if_neg hhost]
    exact h.run_line hold

-- Where nothing is lost, each `Host` line held its directive and nothing else.
theorem Linewise.lineShapes_host {live result line : Text} (h : Linewise live)
    (hsame : SameStructure live result) (hresult : shapes result =
      (lines live).flatMap fun line => lineShapes (spliceLine line))
    (hmem : line ∈ lines live) (hline : hostLine line = true) : lineShapes line = [none] := by
  have hlive : shapes live = (lines live).flatMap lineShapes := by
    rw [← shapes_full fun line hline => h.run_line hline, shapes, shapes, Nginx.items, Nginx.items,
      (run_lines live Nginx.clean h.returns).1]
  have hle : (shapes result).length ≤ (shapes live).length := by
    rw [hresult, hlive, List.length_flatMap, List.length_flatMap]
    exact List.sum_le_sum fun line hline => h.lineShapes_le hline
  have hequal : shapes result = shapes live := by
    rcases hsame with hsame | ⟨front, back, hfront, hback⟩
    · exact hsame
    · rw [hfront, hback] at hle
      simp only [List.length_append, List.length_cons] at hle
      omega
  rw [hresult, hlive] at hequal
  rw [← flatMap_eq_of_length_le (fun line hline => h.lineShapes_le hline) hequal line hmem,
    spliceLine, if_pos hline, lineShapes_hostText (h.indented line hmem hline)]

theorem Linewise.hostAlone {live line : Text} {front back : List Text} (h : Linewise live)
    (hlines : lines live = front ++ line :: back) (hline : hostLine line = true)
    (hshapes : lineShapes line = [none]) :
    HostAlone (Nginx.run Nginx.clean (full front)).1 line := by
  have hmem : line ∈ lines live := by simp [hlines]
  obtain ⟨item, hitem, hshape⟩ := List.map_eq_singleton_iff.mp hshapes
  refine ⟨h.whole front (line :: back) hlines, h.indented line hmem hline, item, ?_, ?_⟩
  · by_contra hother
    rw [shape, if_neg hother] at hshape
    cases hshape
  · exact Prod.ext (h.run_line hmem) hitem

theorem Linewise.insertable {live : Text} (h : Linewise live) : Insertable live := by
  obtain ⟨width, below, hlines, -⟩ := insertAfterPass_eq (lines live)
  refine ⟨h.whole (aboveInsertion (lines live)) below hlines, fun line hline => ?_⟩
  refine h.ascii line ?_
  rw [hlines]
  exact List.mem_append_left below hline

theorem Linewise.spliceable {live : Text} (h : Linewise live) (hok : nginxHostOk live = some false)
    (hexact : SpliceExact live) : Spliceable live := by
  refine Or.inl ⟨⟨h.returns, fun front line back hlines hline => Or.inl ?_⟩, fun _ => h.insertable⟩
  obtain ⟨result, hresult, -, -, -, hsame⟩ := hexact
  obtain ⟨tail, htail, hsplice⟩ := splice_pieces hok
  obtain rfl := Option.some.inj (hsplice.symm.trans hresult)
  have hany : (lines live).any hostLine = true := by
    rw [hlines]
    simp [hline]
  refine h.hostAlone hlines hline (h.lineShapes_host hsame ?_ (by simp [hlines]) hline)
  rw [← h.shapes_spliced, ← splicedLines_of_any hany, shapes, shapes,
    items_pieces (splicedLines_ne_nil live) htail]

end Converse

section Writing

-- The live file is read, spliced, read again and written whole.
theorem writesDesired (live : Text) : WritesDesired live := by
  intro render port sshConfig remotePath urlBase desired appPort hrender hne hpath hread hdesired
  have hfirst := hread 0 (by decide)
  have hsecond := hread 1 (by decide)
  have hrun : writeSplicedNginxApp render port sshConfig remotePath urlBase appPort =
      some (catCommand sshConfig remotePath ::
          (writeRemoteFile render (fun number => port (number + 1)) sshConfig remotePath desired).1,
        (writeRemoteFile render (fun number => port (number + 1)) sshConfig remotePath desired).2) := by
    rw [writeSplicedNginxApp]
    simp only [hfirst]
    split at hdesired
    · rename_i hblank
      obtain rfl := Option.some.inj hdesired
      rw [if_pos hblank]
      rfl
    · rename_i hfilled
      rw [if_neg hfilled, hdesired]
      rfl
  refine ⟨_, _, hrun, ?_⟩
  by_cases hsame : live = desired
  · left
    refine ⟨hsame, ?_⟩
    rw [writeRemoteFile]
    simp only [hsecond, unifiedDiff, if_pos hsame, if_true]
  · right
    refine ⟨writeCommand sshConfig remotePath desired, ?_,
      writeCommand_exact sshConfig desired hne hpath⟩
    rw [writeRemoteFile_commands hrender hsecond hsame]

end Writing

-- The header's directive may be the last, without its end.
example : SplicesWell "proxy_set_header Host $http_host".toList := by
  refine Or.inr ⟨by decide +kernel, Or.inr ⟨[], _, rfl, Or.inl rfl, ⟨?_, ?_⟩, rfl, ⟨?_, ?_⟩⟩⟩
  · simp
  · simp [lines]
  · exact ⟨_, [], rfl, by decide +kernel, Text.every (by decide +kernel), rfl, rfl⟩
  · decide +kernel

namespace Sample

-- The application's block with what is set there behind `proxy_pass`.
def location (directives : String) : Text :=
  "location /sonarr \x7b\n    proxy_pass http://127.0.0.1:8989;\n    ".toList ++
    directives.toList ++ "\n\x7d\n".toList

end Sample

end Mediaops.Ssh
