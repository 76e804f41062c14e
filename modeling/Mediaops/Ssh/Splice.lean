import Mediaops.Core.Diff.Host
import Mediaops.Library.Nginx
import Mediaops.Ssh

namespace Mediaops.Ssh

open Diff

-- The `Host` header of a live nginx application, rewritten line by line, against the
-- directives that nginx reads in it.

-- `str::lines`: a newline ends a line, with the carriage return before it.
def lines : Text → List Text
  | [] => []
  | c :: rest =>
      if c = '\n' then [] :: lines rest
      else if c = '\r' ∧ rest.head? = some '\n' then lines rest
      else
        match lines rest with
        | [] => [[c]]
        | line :: more => (c :: line) :: more

-- `str::trim_start`
def trimStart (line : Text) : Text := Text.trimStartMatches Text.isWhitespace line

def indentation (line : Text) : Text := line.takeWhile Text.isWhitespace

def hostLine (line : Text) : Bool :=
  Text.startsWith "proxy_set_header host ".toList (Text.toAsciiLowercase (trimStart line))

def passLine (line : Text) : Bool :=
  Text.startsWith "proxy_pass ".toList (Text.toAsciiLowercase (trimStart line))

def hostText (indent : Text) : Text := indent ++ "proxy_set_header Host $host;".toList

def spliceLine (line : Text) : Text := if hostLine line then hostText (indentation line) else line

-- Behind the first line that passes to the application, or behind all lines.
def insertAfterPass : List Text → List Text
  | [] => [hostText (List.replicate 4 ' ')]
  | line :: rest =>
      if passLine line then
        line :: hostText (List.replicate (Text.byteLen (indentation line)) ' ') :: rest
      else line :: insertAfterPass rest

def splicedLines (live : Text) : List Text :=
  let out := (lines live).map spliceLine
  if (lines live).any hostLine then out else insertAfterPass out

-- None is the panic of `nginx_host_ok`.
def spliceHostDollarHost (live : Text) : Option Text := do
  if ← nginxHostOk live then pure live
  else
    let text := Text.joinWith '\n' (splicedLines live)
    pure (if live.getLast? = some '\n' ∧ text.getLast? ≠ some '\n' then text ++ ['\n'] else text)

def desiredNginxApp (urlBase : Text) (port : Nat) : Text :=
  "location ".toList ++ urlBase ++ " \x7b\n    proxy_pass http://127.0.0.1:".toList ++
    Text.decimal port ++ urlBase ++ ";\n    proxy_set_header Host $host;\n\x7d\n".toList

section

variable (render : Text → Text → Text → Text)
  (port : Nat → ExecCommand → Except ExecError ExecOutput)

-- None is the panic of the splice.
def writeSplicedNginxApp (sshConfig remotePath urlBase : Text) (appPort : Nat) :
    Option (List ExecCommand × Except SshError Text) :=
  let cat := catCommand sshConfig remotePath
  match oldText remotePath (port 0 cat) with
  | .error e => some ([cat], .error e)
  | .ok live => do
      let desired ←
        if Text.trimMatches Text.isWhitespace live = [] then
          some (desiredNginxApp urlBase appPort)
        else spliceHostDollarHost live
      let (commands, result) :=
        writeRemoteFile render (fun number => port (number + 1)) sshConfig remotePath desired
      pure (cat :: commands, result)

end

-- A whole directive that sets the `Host` header.
def isHost : Nginx.Item → Bool
  | .directive [name, header, _] =>
      Text.eqIgnoreAsciiCase name "proxy_set_header".toList &&
        Text.eqIgnoreAsciiCase header "host".toList
  | _ => false

-- The directives and braces of a text, without what its `Host` directives set.
def shape (item : Nginx.Item) : Option Nginx.Item := if isHost item then none else some item

def shapes (text : Text) : List (Option Nginx.Item) := (Nginx.items text).map shape

-- Nothing is changed in them but for one more `Host` directive at most.
def SameStructure (live result : Text) : Prop :=
  shapes result = shapes live ∨
    ∃ front back, shapes live = front ++ back ∧ shapes result = front ++ none :: back

-- The line begins with a directive that sets the header to `$host`.
def SetsHost (line : Text) : Prop :=
  ∃ name header, (Nginx.items (trimStart line)).head? =
      some (.directive [name, header, "$host".toList]) ∧
    isHost (.directive [name, header, "$host".toList])

def SpliceExact (live : Text) : Prop :=
  ∃ result, spliceHostDollarHost live = some result ∧ nginxHostOk result = some true ∧
    spliceHostDollarHost result = some result ∧
    (∀ line ∈ Text.split (· == '\n') result, hostLine line → SetsHost line) ∧
    SameStructure live result

def full (lines : List Text) : Text := lines.flatMap (· ++ ['\n'])

-- The lines above the one that is inserted.
def aboveInsertion : List Text → List Text
  | [] => []
  | line :: rest => if passLine line then [line] else line :: aboveInsertion rest

-- Behind whole directives and braces, the line is one whole `Host` directive.
structure HostAlone (state : Nginx.State) (line : Text) : Prop where
  begins : state = Nginx.clean
  indented : ∀ c ∈ indentation line, Nginx.blank c = true
  alone : ∃ item, isHost item ∧ Nginx.run Nginx.clean (line ++ ['\n']) = (Nginx.clean, [item])

-- The line is read as the one that is written in its place.
def ReadsSame (state : Nginx.State) (line : Text) : Prop :=
  Nginx.run state (line ++ ['\n']) = Nginx.run state (hostText (indentation line) ++ ['\n'])

-- No string or escape spans a carriage return with a newline behind it, and each `Host` line
-- can be rewritten on its own.
structure Rewritable (text : Text) : Prop where
  returns : ∀ front rest, text = front ++ '\r' :: '\n' :: rest →
    Nginx.Plain (Nginx.run Nginx.clean front).1
  hosts : ∀ front line back, lines text = front ++ line :: back → hostLine line →
    HostAlone (Nginx.run Nginx.clean (full front)).1 line ∨
      ReadsSame (Nginx.run Nginx.clean (full front)).1 line

-- One more line can stand behind the application's address, for the scan and for nginx.
structure Insertable (live : Text) : Prop where
  whole : (Nginx.run Nginx.clean (full (aboveInsertion (lines live)))).1 = Nginx.clean
  ascii : ∀ line ∈ aboveInsertion (lines live), ∀ c ∈ line, c.toNat < 128

-- A text of one `Host` directive that nothing ends, and that ends with the new line.
structure HostOpen (text : Text) : Prop where
  starts : ∃ line back, lines text = line :: back ∧ hostLine line ∧
    (∀ c ∈ indentation line, Nginx.blank c = true) ∧ back.any hostLine = false ∧
    Nginx.items (full back) = []
  unended : Nginx.items text = []

def Ended (text : Text) : Prop := text = [] ∨ text.getLast? = some '\n'

-- The lines can be rewritten one by one, up to a last directive that nothing ends.
def Spliceable (live : Text) : Prop :=
  (Rewritable live ∧ ((lines live).any hostLine = false → Insertable live)) ∨
    ∃ front rest, live = front ++ rest ∧ Ended front ∧ Rewritable front ∧
      (Nginx.run Nginx.clean front).1 = Nginx.clean ∧ HostOpen rest

-- A text the scan takes as it is keeps its `Host` lines; one it cannot scan is not spliced.
def SplicesWell (live : Text) : Prop :=
  (nginxHostOk live = some true ∧
      ∀ line ∈ Text.split (· == '\n') live, hostLine line → SetsHost line) ∨
    (nginxHostOk live = some false ∧ Spliceable live)

-- Each line of an ASCII text holds whole directives and braces.
structure Linewise (live : Text) : Prop where
  ascii : ∀ line ∈ lines live, ∀ c ∈ line, c.toNat < 128
  returns : ∀ front rest, live = front ++ '\r' :: '\n' :: rest →
    Nginx.Plain (Nginx.run Nginx.clean front).1
  whole : ∀ front back, lines live = front ++ back →
    (Nginx.run Nginx.clean (full front)).1 = Nginx.clean
  indented : ∀ line ∈ lines live, hostLine line → ∀ c ∈ indentation line, Nginx.blank c = true

-- While the remote file reads `live`, it is left alone as it should be, or written so.
def WritesDesired (live : Text) : Prop :=
  ∀ (render : Text → Text → Text → Text) (port : Nat → ExecCommand → Except ExecError ExecOutput)
    (sshConfig remotePath urlBase desired : Text) (appPort : Nat),
    (∀ old new path, old ≠ new → render old new path ≠ []) →
    remotePath ≠ [] → (∀ c ∈ remotePath, PathChar c) →
    (∀ number < 2, oldText remotePath (port number (catCommand sshConfig remotePath)) = .ok live) →
    (if Text.trimMatches Text.isWhitespace live = [] then some (desiredNginxApp urlBase appPort)
      else spliceHostDollarHost live) = some desired →
    ∃ commands result, writeSplicedNginxApp render port sshConfig remotePath urlBase appPort =
        some (commands, result) ∧
      ((live = desired ∧
          commands = [catCommand sshConfig remotePath, catCommand sshConfig remotePath]) ∨
        ∃ command, commands =
            [catCommand sshConfig remotePath, catCommand sshConfig remotePath, command] ∧
          WritesExactly command remotePath desired)

section Lines

theorem lines_cons_newline (rest : Text) : lines ('\n' :: rest) = [] :: lines rest := by
  simp [lines]

theorem lines_cons_return {rest : Text} (h : rest.head? = some '\n') :
    lines ('\r' :: rest) = lines rest := by
  simp [lines, h]

@[simp] theorem full_nil : full [] = [] := rfl

@[simp] theorem full_cons (line : Text) (rest : List Text) :
    full (line :: rest) = line ++ '\n' :: full rest := by simp [full]

@[simp] theorem full_append (left right : List Text) : full (left ++ right) = full left ++ full right := by
  simp [full]

-- Any other character goes in front of the first line.
theorem full_lines_cons {c : Char} {rest : Text} (hc : c ≠ '\n')
    (h : ¬(c = '\r' ∧ rest.head? = some '\n')) :
    (lines rest = [] ∧ full (lines (c :: rest)) = [c, '\n']) ∨
      full (lines (c :: rest)) = c :: full (lines rest) := by
  rw [lines, if_neg hc, if_neg h]
  cases lines rest with
  | nil => exact Or.inl ⟨rfl, rfl⟩
  | cons line more => exact Or.inr rfl

theorem lines_eq_nil {text : Text} (h : lines text = []) : text = [] := by
  induction text with
  | nil => rfl
  | cons c rest ih =>
      rw [lines] at h
      split at h
      · cases h
      · split at h
        · rename_i hreturn
          rw [ih h] at hreturn
          simp at hreturn
        · split at h <;> cases h

theorem newline_notMem {text line : Text} (h : line ∈ lines text) : '\n' ∉ line := by
  induction text generalizing line with
  | nil => cases h
  | cons c rest ih =>
      rw [lines] at h
      split at h
      · rcases List.mem_cons.mp h with rfl | h
        · simp
        · exact ih h
      · rename_i hc
        split at h
        · exact ih h
        · cases hlines : lines rest with
          | nil =>
              rw [hlines] at h
              rw [List.mem_singleton.mp h]
              simpa using Ne.symm hc
          | cons first more =>
              rw [hlines] at h ih
              rcases List.mem_cons.mp h with rfl | h
              · simpa [Ne.symm hc] using ih List.mem_cons_self
              · exact ih (List.mem_cons_of_mem _ h)

-- The text starts with its first line.
theorem lines_head {text line : Text} {back : List Text} (h : lines text = line :: back) :
    line <+: text := by
  induction text generalizing line back with
  | nil => cases h
  | cons c rest ih =>
      rw [lines] at h
      split at h
      · obtain ⟨rfl, -⟩ := List.cons.inj h
        exact List.nil_prefix
      · split at h
        · -- the line ends at once, before the carriage return
          rename_i hreturn
          obtain ⟨more, rfl⟩ := List.head?_eq_some_iff.mp hreturn.2
          rw [lines_cons_newline] at h
          obtain ⟨rfl, -⟩ := List.cons.inj h
          exact List.nil_prefix
        · cases hlines : lines rest with
          | nil =>
              rw [hlines] at h
              obtain ⟨rfl, -⟩ := List.cons.inj h
              exact ⟨rest, rfl⟩
          | cons first more =>
              rw [hlines] at h
              obtain ⟨rfl, -⟩ := List.cons.inj h
              exact (List.prefix_cons_inj c).mpr (ih hlines)

-- A line of a text and the lines above it, in the text.
theorem lines_cut {text line : Text} {front back : List Text}
    (h : lines text = front ++ line :: back) :
    ∃ pre post, text = pre ++ (line ++ post) ∧ ∀ above ∈ front, ∀ c ∈ above, c ∈ pre := by
  induction text generalizing front line with
  | nil => simp [lines] at h
  | cons c rest ih =>
      cases front with
      | nil =>
          obtain ⟨post, hpost⟩ := lines_head h
          exact ⟨[], post, hpost.symm, by simp⟩
      | cons above front =>
          rw [lines] at h
          split at h
          · obtain ⟨rfl, hback⟩ := List.cons.inj h
            obtain ⟨pre, post, rfl, hpre⟩ := ih hback
            refine ⟨c :: pre, post, rfl, ?_⟩
            simp only [List.mem_cons, forall_eq_or_imp, List.not_mem_nil, false_implies,
              implies_true, true_and]
            exact fun other hother d hd => Or.inr (hpre other hother d hd)
          · split at h
            · obtain ⟨pre, post, rfl, hpre⟩ := ih h
              exact ⟨c :: pre, post, rfl, fun other hother d hd => by
                simp [hpre other hother d hd]⟩
            · cases hlines : lines rest with
              | nil =>
                  rw [hlines] at h
                  simp at h
              | cons first more =>
                  rw [hlines] at h
                  obtain ⟨rfl, hback⟩ := List.cons.inj h
                  have hrest : lines rest = first :: front ++ line :: back := by
                    rw [hlines, hback]
                    rfl
                  obtain ⟨pre, post, rfl, hpre⟩ := ih hrest
                  refine ⟨c :: pre, post, rfl, fun other hother d hd => ?_⟩
                  rcases List.mem_cons.mp hother with rfl | hother
                  · rcases List.mem_cons.mp hd with rfl | hd
                    · exact List.mem_cons_self
                    · exact List.mem_cons_of_mem _ (hpre first List.mem_cons_self d hd)
                  · exact List.mem_cons_of_mem _ (hpre other (by simp [hother]) d hd)

theorem ended_tail {c : Char} {rest : Text} (h : Ended (c :: rest)) : Ended rest := by
  cases rest with
  | nil => exact Or.inl rfl
  | cons d rest => exact Or.inr (by simpa [Ended] using h)

-- A newline ends the lines in front of it.
theorem lines_append {front : Text} (rest : Text) (h : Ended front) :
    lines (front ++ rest) = lines front ++ lines rest := by
  induction front with
  | nil => rfl
  | cons c front ih =>
      have hih := ih (ended_tail h)
      by_cases hc : c = '\n'
      · subst hc
        rw [List.cons_append, lines_cons_newline, lines_cons_newline, hih, List.cons_append]
      -- a character before the newline that ends `front`
      have hmore : front ≠ [] := by
        rintro rfl
        exact absurd h (by simp [Ended, hc])
      have hhead : (front ++ rest).head? = front.head? := by
        cases front with
        | nil => exact absurd rfl hmore
        | cons d front => rfl
      rw [List.cons_append, lines, lines, if_neg hc, if_neg hc, hhead, hih]
      split
      · rfl
      · cases hlines : lines front with
        | nil => exact absurd (lines_eq_nil hlines) hmore
        | cons line more => rfl

end Lines

section Structure

-- The directives of the lines are those of the text, which may lack the last newline.
theorem run_lines (text : Text) (state : Nginx.State)
    (h : ∀ front rest, text = front ++ '\r' :: '\n' :: rest →
      Nginx.Plain (Nginx.run state front).1) :
    (Nginx.run state (full (lines text))).2 = (Nginx.run state text).2 ∧
      (Ended text → (Nginx.run state (full (lines text))).1 = (Nginx.run state text).1) := by
  induction text generalizing state with
  | nil => exact ⟨rfl, fun _ => rfl⟩
  | cons c rest ih =>
      obtain ⟨hitems, hends⟩ := ih (Nginx.step state c).1 fun front more hmore => by
        simpa [Nginx.run_cons] using h (c :: front) more (by simp [hmore])
      by_cases hc : c = '\n'
      · subst hc
        rw [lines_cons_newline, full_cons, List.nil_append, Nginx.run_cons, Nginx.run_cons, hitems]
        exact ⟨rfl, fun hended => hends (ended_tail hended)⟩
      by_cases hreturn : c = '\r' ∧ rest.head? = some '\n'
      · obtain ⟨rfl, hhead⟩ := hreturn
        obtain ⟨more, rfl⟩ := List.head?_eq_some_iff.mp hhead
        have hplain : Nginx.Plain state := h [] more rfl
        obtain ⟨hnone, hsame⟩ := Nginx.step_return hplain
        obtain ⟨hitems, hends⟩ := ih state fun front tail htail => by
          cases front with
          | nil => simp at htail
          | cons d front =>
              obtain ⟨rfl, htail⟩ := List.cons.inj htail
              simpa [Nginx.run_cons, hsame] using
                h ('\r' :: '\n' :: front) tail (by simp [htail])
        have hskip : Nginx.run state ('\r' :: '\n' :: more) = Nginx.run state ('\n' :: more) := by
          rw [Nginx.run_cons, Nginx.run_cons, Nginx.run_cons, hnone, hsame]
          rfl
        rw [lines_cons_return hhead, hskip]
        exact ⟨hitems, fun hended => hends (ended_tail hended)⟩
      · rcases full_lines_cons hc hreturn with ⟨hnil, hfull⟩ | hfull
        · rw [hfull, lines_eq_nil hnil]
          exact ⟨Nginx.run_newline state [c], fun hended => absurd hended (by simp [Ended, hc])⟩
        · rw [hfull, Nginx.run_cons, Nginx.run_cons, hitems]
          exact ⟨rfl, fun hended => hends (ended_tail hended)⟩

-- The lines of the rewriting are joined again, with or without the last newline.
theorem full_joinWith {pieces : List Text} (h : pieces ≠ []) :
    Text.joinWith '\n' pieces ++ ['\n'] = full pieces := by
  induction pieces with
  | nil => exact absurd rfl h
  | cons piece rest ih =>
      by_cases hrest : rest = []
      · subst hrest
        simp [Text.joinWith]
      · rw [Text.joinWith_cons _ _ hrest, full_cons, ← ih hrest]
        simp

theorem run_hostText {indent : Text} (h : ∀ c ∈ indent, Nginx.blank c = true) :
    Nginx.run Nginx.clean (hostText indent ++ ['\n']) =
      (Nginx.clean, [.directive ["proxy_set_header".toList, "Host".toList, "$host".toList]]) := by
  have hrest : Nginx.run Nginx.clean ("proxy_set_header Host $host;".toList ++ ['\n']) =
      (Nginx.clean, [.directive ["proxy_set_header".toList, "Host".toList, "$host".toList]]) := by
    decide +kernel
  rw [hostText, List.append_assoc, Nginx.run_append, Nginx.run_blanks h, hrest]
  rfl

theorem run_full_cons (state : Nginx.State) (line : Text) (rest : List Text) :
    Nginx.run state (full (line :: rest)) =
      ((Nginx.run (Nginx.run state (line ++ ['\n'])).1 (full rest)).1,
        (Nginx.run state (line ++ ['\n'])).2 ++
          (Nginx.run (Nginx.run state (line ++ ['\n'])).1 (full rest)).2) := by
  rw [← Nginx.run_append]
  simp

-- Each rewritten line leaves the reader where the old one left it.
theorem run_spliceLine {state : Nginx.State} {line : Text}
    (h : hostLine line → HostAlone state line ∨ ReadsSame state line) :
    (Nginx.run state (spliceLine line ++ ['\n'])).1 = (Nginx.run state (line ++ ['\n'])).1 ∧
      (Nginx.run state (spliceLine line ++ ['\n'])).2.map shape =
        (Nginx.run state (line ++ ['\n'])).2.map shape := by
  by_cases hline : hostLine line = true
  · rw [spliceLine, if_pos hline]
    rcases h hline with ⟨rfl, hindent, item, hitem, halone⟩ | hsame
    · have hshape : shape item = none := if_pos hitem
      rw [run_hostText hindent, halone]
      refine ⟨rfl, ?_⟩
      rw [List.map_singleton, List.map_singleton, hshape]
      rfl
    · rw [hsame]
      exact ⟨rfl, rfl⟩
  · rw [spliceLine, if_neg hline]
    exact ⟨rfl, rfl⟩

theorem run_spliced (state : Nginx.State) (ls : List Text)
    (h : ∀ above line back, ls = above ++ line :: back → hostLine line →
      HostAlone (Nginx.run state (full above)).1 line ∨
        ReadsSame (Nginx.run state (full above)).1 line) :
    (Nginx.run state (full (ls.map spliceLine))).1 = (Nginx.run state (full ls)).1 ∧
      (Nginx.run state (full (ls.map spliceLine))).2.map shape =
        (Nginx.run state (full ls)).2.map shape := by
  induction ls generalizing state with
  | nil => exact ⟨rfl, rfl⟩
  | cons line rest ih =>
      have hfirst : hostLine line → HostAlone state line ∨ ReadsSame state line :=
        h [] line rest rfl
      obtain ⟨hstate, hitems⟩ := run_spliceLine hfirst
      have hih := ih (Nginx.run state (line ++ ['\n'])).1 fun above other back hrest hother => by
        have hhost := h (line :: above) other back (by simp [hrest]) hother
        rwa [run_full_cons] at hhost
      rw [List.map_cons, run_full_cons, run_full_cons, hstate]
      refine ⟨hih.1, ?_⟩
      rw [List.map_append, List.map_append, hitems, hih.2]

theorem joinWith_cut (above : List Text) (line : Text) (below : List Text) :
    ∃ rest, Text.joinWith '\n' (above ++ line :: below) = full above ++ (line ++ rest) := by
  induction above with
  | nil =>
      by_cases h : below = []
      · exact ⟨[], by simp [h, Text.joinWith]⟩
      · exact ⟨'\n' :: Text.joinWith '\n' below, by simp [Text.joinWith_cons _ _ h]⟩
  | cons piece above ih =>
      obtain ⟨rest, hrest⟩ := ih
      refine ⟨rest, ?_⟩
      rw [List.cons_append, Text.joinWith_cons _ _ (by simp), hrest]
      simp

theorem insertAfterPass_eq (ls : List Text) :
    ∃ width below, ls = aboveInsertion ls ++ below ∧
      insertAfterPass ls = aboveInsertion ls ++ hostText (List.replicate width ' ') :: below := by
  induction ls with
  | nil => exact ⟨4, [], rfl, rfl⟩
  | cons line rest ih =>
      rw [insertAfterPass, aboveInsertion]
      split
      · exact ⟨_, rest, rfl, rfl⟩
      · obtain ⟨width, below, hrest, hinsert⟩ := ih
        refine ⟨width, below, ?_, by rw [hinsert]; rfl⟩
        rw [List.cons_append, ← hrest]

theorem splicedLines_ne_nil (live : Text) : splicedLines live ≠ [] := by
  unfold splicedLines
  intro hnil
  split at hnil
  · rename_i hany
    rw [List.map_eq_nil_iff] at hnil
    rw [hnil] at hany
    cases hany
  · obtain ⟨width, below, -, hinsert⟩ := insertAfterPass_eq ((lines live).map spliceLine)
    rw [hinsert] at hnil
    simp at hnil

-- A text without a `Host` line is not rewritten.
theorem map_spliceLine {ls : List Text} (h : ls.any hostLine = false) : ls.map spliceLine = ls := by
  rw [List.any_eq_false] at h
  have hsame : ls.map spliceLine = ls.map id := List.map_congr_left fun line hline =>
    if_neg (h line hline)
  rw [hsame, List.map_id]

-- The result is the new lines, with an empty piece behind them where a newline is kept.
theorem splice_pieces {live : Text} (h : nginxHostOk live = some false) :
    ∃ tail : List Text, (tail = [] ∨ tail = [[]]) ∧
      spliceHostDollarHost live = some (Text.joinWith '\n' (splicedLines live ++ tail)) := by
  have hsplice : spliceHostDollarHost live =
      some (if live.getLast? = some '\n' ∧
          (Text.joinWith '\n' (splicedLines live)).getLast? ≠ some '\n' then
        Text.joinWith '\n' (splicedLines live) ++ ['\n']
      else Text.joinWith '\n' (splicedLines live)) := by
    rw [spliceHostDollarHost, h]
    rfl
  rw [hsplice]
  split
  · refine ⟨[[]], Or.inr rfl, ?_⟩
    rw [Text.joinWith_append '\n' (splicedLines_ne_nil live) (by simp)]
    rfl
  · exact ⟨[], Or.inl rfl, by rw [List.append_nil]⟩

theorem items_pieces {out tail : List Text} (hout : out ≠ []) (htail : tail = [] ∨ tail = [[]]) :
    Nginx.items (Text.joinWith '\n' (out ++ tail)) = Nginx.items (full out) := by
  have hjoin : Nginx.items (Text.joinWith '\n' out) = Nginx.items (full out) := by
    rw [← full_joinWith hout, Nginx.items, Nginx.items, Nginx.run_newline]
  rcases htail with rfl | rfl
  · rw [List.append_nil, hjoin]
  · rw [Text.joinWith_append '\n' hout (by simp), ← hjoin]
    exact Nginx.run_newline _ _

end Structure

section Scan

-- The first new line is found by the scan when nothing longer stands before it.
theorem nginxHostOk_spliced {above below : List Text} {indent : Text}
    (habove : ∀ line ∈ above, ∀ c ∈ line, c.toNat < 128) (hindent : ∀ c ∈ indent, c.toNat < 128) :
    nginxHostOk (Text.joinWith '\n' (above ++ hostText indent :: below)) = some true := by
  obtain ⟨rest, hrest⟩ := joinWith_cut above (hostText indent) below
  rw [hrest]
  have htoken : HostToken (full above ++ (hostText indent ++ rest))
      (full above ++ indent ++ "proxy_set_header ".toList) := by
    refine ⟨⟨"Host $host".toList, ';' :: rest, by simp [hostText], by decide, by simp⟩, ?_⟩
    have hlast : (full above ++ indent ++ "proxy_set_header ".toList).getLast? = some ' ' := by
      rw [List.getLast?_append]
      rfl
    rw [hlast]
    simp
  have hshield := htoken.shields fun c hc => by
    simp only [List.mem_append, full, List.mem_flatMap, List.mem_singleton] at hc
    rcases hc with (⟨line, hline, hc | rfl⟩ | hc) | hc
    · exact habove line hline c hc
    · decide
    · exact hindent c hc
    · revert c
      simp
  rcases nginxHostOk_cases (full above ++ (hostText indent ++ rest)) with ⟨-, hnot⟩ | ⟨ok, hok, hahead, -⟩
  · exact absurd hshield hnot
  · rw [hok, hahead.mpr ⟨_, htoken⟩]

theorem trimStart_hostText {indent : Text} (h : ∀ c ∈ indent, Text.isWhitespace c = true) :
    trimStart (hostText indent) = "proxy_set_header Host $host;".toList := by
  rw [trimStart, Text.trimStartMatches, hostText, List.dropWhile_append_of_pos h]
  decide

theorem setsHost_hostText {indent : Text} (h : ∀ c ∈ indent, Text.isWhitespace c = true) :
    SetsHost (hostText indent) := by
  refine ⟨"proxy_set_header".toList, "Host".toList, ?_, by decide⟩
  rw [trimStart_hostText h]
  decide +kernel

theorem indentation_whitespace (line : Text) : ∀ c ∈ indentation line, Text.isWhitespace c = true := by
  intro c hc
  exact List.mem_takeWhile_imp hc

theorem spaces_whitespace (width : Nat) : ∀ c ∈ List.replicate width ' ', Text.isWhitespace c = true := by
  intro c hc
  rw [List.eq_of_mem_replicate hc]
  decide

-- Every `Host` line among the new lines sets the header.
theorem setsHost_spliced {live line : Text} (hmem : line ∈ splicedLines live)
    (hline : hostLine line = true) : SetsHost line := by
  unfold splicedLines at hmem
  split at hmem
  · obtain ⟨old, -, rfl⟩ := List.mem_map.mp hmem
    by_cases hold : hostLine old = true
    · rw [spliceLine, if_pos hold]
      exact setsHost_hostText (indentation_whitespace old)
    · rw [spliceLine, if_neg hold] at hline
      exact absurd hline hold
  · rename_i hany
    rw [Bool.not_eq_true] at hany
    rw [map_spliceLine hany] at hmem
    obtain ⟨width, below, hlines, hinsert⟩ := insertAfterPass_eq (lines live)
    rw [hinsert, List.mem_append, List.mem_cons] at hmem
    have hnone : ∀ old ∈ lines live, ¬hostLine old = true := List.any_eq_false.mp hany
    rcases hmem with habove | rfl | hbelow
    · exact absurd hline (hnone line (by rw [hlines]; simp [habove]))
    · exact setsHost_hostText (spaces_whitespace width)
    · exact absurd hline (hnone line (by rw [hlines]; simp [hbelow]))

theorem newline_notMem_spliced {live line : Text} (hmem : line ∈ splicedLines live) : '\n' ∉ line := by
  have hhost : ∀ indent : Text, '\n' ∉ indent → '\n' ∉ hostText indent := by
    intro indent hindent
    simpa [hostText] using hindent
  unfold splicedLines at hmem
  split at hmem
  · obtain ⟨old, hold, rfl⟩ := List.mem_map.mp hmem
    have hfree := newline_notMem hold
    unfold spliceLine
    split
    · exact hhost _ fun hin => hfree ((List.takeWhile_prefix _).subset hin)
    · exact hfree
  · rename_i hany
    rw [Bool.not_eq_true] at hany
    rw [map_spliceLine hany] at hmem
    obtain ⟨width, below, hlines, hinsert⟩ := insertAfterPass_eq (lines live)
    rw [hinsert, List.mem_append, List.mem_cons] at hmem
    rcases hmem with habove | rfl | hbelow
    · have hline : line ∈ lines live := by
        rw [hlines]
        exact List.mem_append_left _ habove
      exact newline_notMem hline
    · exact hhost _ (by simp [List.mem_replicate])
    · have hline : line ∈ lines live := by
        rw [hlines]
        exact List.mem_append_right _ hbelow
      exact newline_notMem hline

-- A text without the token has nothing longer in front of a `Host` line.
theorem ascii_above {live line : Text} {front back : List Text}
    (h : nginxHostOk live = some false) (hlines : lines live = front ++ line :: back)
    (hline : hostLine line = true) :
    (∀ above ∈ front, ∀ c ∈ above, c.toNat < 128) ∧ ∀ c ∈ indentation line, c.toNat < 128 := by
  obtain ⟨pre, post, hlive, hpre⟩ := lines_cut hlines
  have hshort : ∀ start c tail, live = start ++ c :: tail → 128 ≤ c.toNat →
      Text.byteLen (c :: tail) ≤ 10 := by
    intro start c tail heq hhigh
    rcases nginxHostOk_cases live with ⟨hnone, -⟩ | ⟨ok, hok, hahead, hshield⟩
    · rw [hnone] at h
      cases h
    · rw [hok] at h
      obtain rfl := Option.some.inj h
      by_contra hroom
      obtain ⟨start, htoken, -⟩ := hshield start c tail heq hhigh (by rw [asBytes_needle]; omega)
      exact absurd (hahead.mpr ⟨_, htoken⟩) (by simp)
  have hlong : 22 ≤ (trimStart line).length := by
    have hstart := (List.isPrefixOf_iff_prefix.mp hline).length_le
    simpa [Text.toAsciiLowercase] using hstart
  have hsplit : indentation line ++ trimStart line = line := List.takeWhile_append_dropWhile
  have hbytes := Text.length_le_byteLen (trimStart line)
  constructor
  · intro above habove c hc
    by_contra hhigh
    obtain ⟨start, tail, rfl⟩ := List.append_of_mem (hpre above habove c hc)
    have hfew := hshort start c (tail ++ (line ++ post)) (by rw [hlive]; simp) (by omega)
    rw [← hsplit] at hfew
    simp only [Text.byteLen_cons, Text.byteLen_append] at hfew
    omega
  · intro c hc
    by_contra hhigh
    obtain ⟨start, tail, heq⟩ := List.append_of_mem hc
    have hfew := hshort (pre ++ start) c (tail ++ (trimStart line ++ post)) (by
      rw [hlive]
      conv_lhs => rw [← hsplit, heq]
      simp) (by omega)
    simp only [Text.byteLen_cons, Text.byteLen_append] at hfew
    omega

-- The scan finds what the splice wrote, so the splice leaves its own result.
theorem nginxHostOk_result {live : Text} (h : nginxHostOk live = some false)
    (hinserts : (lines live).any hostLine = false →
      ∀ line ∈ aboveInsertion (lines live), ∀ c ∈ line, c.toNat < 128) (tail : List Text) :
    nginxHostOk (Text.joinWith '\n' (splicedLines live ++ tail)) = some true := by
  cases hany : (lines live).any hostLine with
  | true =>
      obtain ⟨line, hfind⟩ := Option.isSome_iff_exists.mp (by
        rw [List.find?_isSome]
        simpa using hany : ((lines live).find? hostLine).isSome)
      obtain ⟨hline, front, back, hlines, hfirst⟩ := List.find?_eq_some_iff_append.mp hfind
      have hfront : front.map spliceLine = front := map_spliceLine (by simpa using hfirst)
      have hspliced : splicedLines live =
          front ++ hostText (indentation line) :: back.map spliceLine := by
        rw [splicedLines, hany, if_pos rfl, hlines, List.map_append, List.map_cons, hfront,
          spliceLine, if_pos hline]
      obtain ⟨habove, hindent⟩ := ascii_above h hlines hline
      rw [hspliced, List.append_assoc, List.cons_append]
      exact nginxHostOk_spliced habove hindent
  | false =>
      obtain ⟨width, below, -, hinsert⟩ := insertAfterPass_eq (lines live)
      have hspliced : splicedLines live = aboveInsertion (lines live) ++
          hostText (List.replicate width ' ') :: below := by
        rw [splicedLines, hany, map_spliceLine hany, ← hinsert]
        rfl
      rw [hspliced, List.append_assoc, List.cons_append]
      refine nginxHostOk_spliced (hinserts hany) fun c hc => ?_
      rw [List.eq_of_mem_replicate hc]
      decide

end Scan

end Mediaops.Ssh
