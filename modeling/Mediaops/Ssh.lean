import Mediaops.Core.Diff
import Mediaops.Library.Shell

namespace Mediaops

namespace Diff

-- `render` is the diff library's text for two texts with its header for the path.
def unifiedDiff (render : Text → Text → Text → Text) (old new path : Text) : Text :=
  if old = new then [] else render old new path

end Diff

namespace Ssh

open Diff

-- Files of the box that are read and written by commands over ssh.

structure ExecCommand where
  program : Text
  args : List Text
  deriving DecidableEq, Repr

structure ExecOutput where
  status : Int
  stdout : Bytes
  stderr : Bytes
  deriving DecidableEq, Repr

inductive ExecError where
  | BulkCopy
  | Failed (program message : Text)
  | Status (program : Text) (status : Int)
  deriving DecidableEq, Repr

inductive SshError where
  | Exec (error : ExecError)
  | Other (message : Text)
  deriving DecidableEq, Repr

def sshExec (sshConfig : Text) (remoteArgv : List Text) : ExecCommand where
  program := "ssh".toList
  args := ["-F".toList, sshConfig, "seedbox".toList] ++ remoteArgv

def catCommand (sshConfig remotePath : Text) : ExecCommand :=
  sshExec sshConfig ["sudo".toList, "cat".toList, remotePath]

def contains (needle text : Text) : Bool := decide (needle <:+: text)

-- What `sudo cat` says of the file; a file that is not there is empty.
def oldText (remotePath : Text) (answer : Except ExecError ExecOutput) : Except SshError Text :=
  match answer with
  | .error e => .error (.Exec e)
  | .ok old =>
      if old.status = 0 then .ok (Text.fromUtf8Lossy old.stdout)
      else
        let err := Text.fromUtf8Lossy old.stderr
        if contains "No such file".toList err ∨ contains "not found".toList err then .ok []
        else .error (.Other ("sudo cat ".toList ++ remotePath ++ " failed: ".toList ++ err))

-- `str::replace('\'', "'\\''")`
def escaped (text : Text) : Text := text.flatMap fun c => if c = '\'' then "'\\''".toList else [c]

def writeCommand (sshConfig remotePath contents : Text) : ExecCommand :=
  let script := "printf '%s' '".toList ++ escaped contents ++ "' > ".toList ++ remotePath
  let quoted := "'".toList ++ escaped script ++ "'".toList
  sshExec sshConfig ["sudo".toList, "/bin/sh".toList, "-c".toList, quoted]

section

variable (render : Text → Text → Text → Text)
  -- The answer to each command, by its number.
  (port : Nat → ExecCommand → Except ExecError ExecOutput)

-- The commands that are run, and the result.
def writeRemoteFile (sshConfig remotePath contents : Text) :
    List ExecCommand × Except SshError Text :=
  let cat := catCommand sshConfig remotePath
  match oldText remotePath (port 0 cat) with
  | .error e => ([cat], .error e)
  | .ok old =>
      let diff := unifiedDiff render old contents remotePath
      if diff = [] then ([cat], .ok diff)
      else
        let write := writeCommand sshConfig remotePath contents
        match port 1 write with
        | .error e => ([cat, write], .error (.Exec e))
        | .ok _ => ([cat, write], .ok diff)

end

-- ssh joins the arguments behind the host with single spaces.
def remoteLine (command : ExecCommand) : Text := Text.joinWith ' ' (command.args.drop 3)

-- The characters of a remote path.
def PathChar (c : Char) : Prop := c.isAlphanum = true ∨ c ∈ ['/', '.', '-', '_']

instance : DecidablePred PathChar :=
  fun c => inferInstanceAs (Decidable (c.isAlphanum = true ∨ c ∈ ['/', '.', '-', '_']))

-- The write command is the one redirected `printf` of the contents, read twice by the
-- shell with nothing else in it.
def WritesExactly (command : ExecCommand) (remotePath contents : Text) : Prop :=
  ∃ script, Shell.simpleCommand (remoteLine command) =
      some ⟨["sudo".toList, "/bin/sh".toList, "-c".toList, script], none⟩ ∧
    Shell.simpleCommand script =
      some ⟨["printf".toList, "%s".toList, contents], some remotePath⟩

section Quoting

theorem escaped_eq (text : Text) : escaped text = Shell.escape text := rfl

theorem PathChar.bare {text : Text} (h : ∀ c ∈ text, PathChar c) : Shell.Bare text := by
  intro c hc
  rcases h c hc with halpha | hmark
  · rw [Text.isAlphanum_iff] at halpha
    have hne : ∀ d : Char, ¬((65 ≤ d.toNat ∧ d.toNat ≤ 90) ∨ (97 ≤ d.toNat ∧ d.toNat ≤ 122) ∨
        (48 ≤ d.toNat ∧ d.toNat ≤ 57)) → c ≠ d := by
      rintro d hd rfl
      exact hd halpha
    constructor
    · intro hspecial
      exact absurd rfl (hne c (Text.every (p := fun d => ¬((65 ≤ d.toNat ∧ d.toNat ≤ 90) ∨
        (97 ≤ d.toNat ∧ d.toNat ≤ 122) ∨ (48 ≤ d.toNat ∧ d.toNat ≤ 57))) (by decide) c hspecial))
    · intro hmarks
      exact absurd rfl (hne c (Text.every (p := fun d => ¬((65 ≤ d.toNat ∧ d.toNat ≤ 90) ∨
        (97 ≤ d.toNat ∧ d.toNat ≤ 122) ∨ (48 ≤ d.toNat ∧ d.toNat ≤ 57))) (by decide) c hmarks))
  · simp only [List.mem_cons, List.not_mem_nil, or_false] at hmark
    rcases hmark with rfl | rfl | rfl | rfl <;> decide

theorem lex_word {text : Text} (h : Shell.Bare text) (hne : text ≠ []) (rest : Text) :
    Shell.lex .plain none (text ++ ' ' :: rest) =
      (Shell.lex .plain none rest).map (Shell.Token.word text :: ·) := by
  rw [Shell.lex_bare h none _ hne, Shell.lex_space]
  rfl

theorem lex_quoted (text rest : Text) :
    Shell.lex .plain none (Shell.quote text ++ ' ' :: rest) =
      (Shell.lex .plain none rest).map (Shell.Token.word text :: ·) := by
  rw [Shell.lex_quote, Shell.lex_space]
  rfl

-- The script is one simple command, whatever the contents are.
theorem script_reads {remotePath : Text} (contents : Text) (hne : remotePath ≠ [])
    (hpath : ∀ c ∈ remotePath, PathChar c) :
    Shell.simpleCommand ("printf '%s' '".toList ++ escaped contents ++ "' > ".toList ++ remotePath) =
      some ⟨["printf".toList, "%s".toList, contents], some remotePath⟩ := by
  have hscript : "printf '%s' '".toList ++ escaped contents ++ "' > ".toList ++ remotePath =
      "printf".toList ++ ' ' :: (Shell.quote "%s".toList ++ ' ' :: (Shell.quote contents ++
        ' ' :: ('>' :: ' ' :: remotePath))) := by
    simp [Shell.quote, escaped_eq, Shell.escape_cons]
  have htarget : Shell.lex .plain none (' ' :: remotePath) =
      some [Shell.Token.word remotePath] := by
    have hbare := Shell.lex_bare (PathChar.bare hpath) none [] hne
    rw [List.append_nil] at hbare
    rw [Shell.lex_space, hbare]
    rfl
  have hname : Shell.Bare "printf".toList := by decide
  have htokens : Shell.lex .plain none
      ("printf '%s' '".toList ++ escaped contents ++ "' > ".toList ++ remotePath) =
      some [Shell.Token.word "printf".toList, Shell.Token.word "%s".toList,
        Shell.Token.word contents, Shell.Token.output, Shell.Token.word remotePath] := by
    rw [hscript, lex_word hname (by decide), lex_quoted, lex_quoted, Shell.lex_output (by rfl),
      htarget]
    rfl
  rw [Shell.simpleCommand, htokens]
  rfl

-- So is the line the login shell gets, with the script as its last word.
theorem line_reads (script : Text) :
    Shell.simpleCommand (Text.joinWith ' ' ["sudo".toList, "/bin/sh".toList, "-c".toList,
      Shell.quote script]) =
      some ⟨["sudo".toList, "/bin/sh".toList, "-c".toList, script], none⟩ := by
  have hline : Text.joinWith ' ' ["sudo".toList, "/bin/sh".toList, "-c".toList,
      Shell.quote script] = "sudo".toList ++ ' ' :: ("/bin/sh".toList ++ ' ' :: ("-c".toList ++
        ' ' :: (Shell.quote script ++ []))) := by
    simp [Text.joinWith, List.intercalate]
  have hsudo : Shell.Bare "sudo".toList := by decide
  have hshell : Shell.Bare "/bin/sh".toList := by decide
  have hflag : Shell.Bare "-c".toList := by decide
  have htokens : Shell.lex .plain none (Text.joinWith ' ' ["sudo".toList, "/bin/sh".toList,
      "-c".toList, Shell.quote script]) =
      some [Shell.Token.word "sudo".toList, Shell.Token.word "/bin/sh".toList,
        Shell.Token.word "-c".toList, Shell.Token.word script] := by
    rw [hline, lex_word hsudo (by decide), lex_word hshell (by decide), lex_word hflag (by decide),
      Shell.lex_quote]
    rfl
  rw [Shell.simpleCommand, htokens]
  rfl

theorem writeCommand_exact {remotePath : Text} (sshConfig contents : Text) (hne : remotePath ≠ [])
    (hpath : ∀ c ∈ remotePath, PathChar c) :
    WritesExactly (writeCommand sshConfig remotePath contents) remotePath contents :=
  ⟨_, line_reads _, script_reads contents hne hpath⟩

-- A file that can be read and differs takes two commands.
theorem writeRemoteFile_commands {render : Text → Text → Text → Text}
    {port : Nat → ExecCommand → Except ExecError ExecOutput}
    {sshConfig remotePath contents old : Text}
    (hrender : ∀ old new path, old ≠ new → render old new path ≠ [])
    (hold : oldText remotePath (port 0 (catCommand sshConfig remotePath)) = .ok old)
    (hdiffer : old ≠ contents) :
    (writeRemoteFile render port sshConfig remotePath contents).1 =
      [catCommand sshConfig remotePath, writeCommand sshConfig remotePath contents] := by
  rw [writeRemoteFile]
  simp only [hold, unifiedDiff, if_neg hdiffer, if_neg (hrender old contents remotePath hdiffer)]
  cases port 1 (writeCommand sshConfig remotePath contents) <;> rfl

end Quoting

-- Where the file can be read and differs, the second of two commands writes it.
theorem write_remote_file_quoted (render : Text → Text → Text → Text)
    (port : Nat → ExecCommand → Except ExecError ExecOutput)
    (sshConfig remotePath contents old : Text)
    (hrender : ∀ old new path, old ≠ new → render old new path ≠ [])
    (hne : remotePath ≠ []) (hpath : ∀ c ∈ remotePath, PathChar c)
    (hold : oldText remotePath (port 0 (catCommand sshConfig remotePath)) = .ok old)
    (hdiffer : old ≠ contents) :
    ∃ command, (writeRemoteFile render port sshConfig remotePath contents).1 =
        [catCommand sshConfig remotePath, command] ∧
      WritesExactly command remotePath contents :=
  ⟨writeCommand sshConfig remotePath contents, writeRemoteFile_commands hrender hold hdiffer,
    writeCommand_exact sshConfig contents hne hpath⟩

namespace Sample

def hunk (lines : Nat) : Text :=
  if lines = 1 then ['1'] else if lines = 0 then "0,0".toList else "1,".toList ++ Text.decimal lines

-- The diff of two texts with no line in common, each line ended by a newline.
def wholeDiff (old new path : Text) : Text :=
  let lines text := (Text.split (· == '\n') text).dropLast
  let marked mark text := (lines text).flatMap fun line => mark :: (line ++ ['\n'])
  "--- a/".toList ++ path ++ "\n+++ b/".toList ++ path ++ "\n@@ -".toList ++
    hunk (lines old).length ++ " +".toList ++ hunk (lines new).length ++ " @@\n".toList ++
    marked '-' old ++ marked '+' new

theorem wholeDiff_ne_nil (old new path : Text) : wholeDiff old new path ≠ [] := by
  unfold wholeDiff
  simp only [List.append_assoc]
  exact List.append_ne_nil_of_left_ne_nil (by decide) _

def sshConfig : Text := "/tmp/ssh_config".toList

def path : Text := "/etc/nginx/apps/sonarr.conf".toList

def contents : Text := "# it's $host\n".toList

-- There is no file yet.
def port (number : Nat) (_ : ExecCommand) : Except ExecError ExecOutput :=
  if number = 0 then
    .ok ⟨1, [], Text.asBytes "cat: /etc/nginx/apps/sonarr.conf: No such file or directory".toList⟩
  else .ok ⟨0, [], []⟩

end Sample

theorem write_remote_file_quoted_sonarr :
    ∃ command, (writeRemoteFile Sample.wholeDiff Sample.port Sample.sshConfig Sample.path
        Sample.contents).1 = [catCommand Sample.sshConfig Sample.path, command] ∧
      WritesExactly command Sample.path Sample.contents :=
  write_remote_file_quoted Sample.wholeDiff Sample.port Sample.sshConfig Sample.path
    Sample.contents [] (fun old new path _ => Sample.wholeDiff_ne_nil old new path) (by decide)
    (Text.every (by decide +kernel)) (by decide +kernel) (by decide)

-- An empty path is made of no other character, and leaves a `>` without a file.
theorem write_remote_file_no_path :
    (∀ c ∈ ([] : Text), PathChar c) ∧
      (writeRemoteFile Sample.wholeDiff Sample.port Sample.sshConfig [] "x".toList).1 =
        [catCommand Sample.sshConfig [], writeCommand Sample.sshConfig [] "x".toList] ∧
      ¬WritesExactly (writeCommand Sample.sshConfig [] "x".toList) [] "x".toList := by
  refine ⟨by simp, by decide +kernel, ?_⟩
  rintro ⟨script, hline, hscript⟩
  have hread := line_reads "printf '%s' 'x' > ".toList
  have hsame : remoteLine (writeCommand Sample.sshConfig [] "x".toList) =
      Text.joinWith ' ' ["sudo".toList, "/bin/sh".toList, "-c".toList,
        Shell.quote "printf '%s' 'x' > ".toList] := by decide
  rw [hsame, hread] at hline
  obtain ⟨hwords, -⟩ := Shell.SimpleCommand.mk.inj (Option.some.inj hline)
  have hword := (List.cons.inj (List.cons.inj (List.cons.inj (List.cons.inj hwords).2).2).2).1
  rw [← hword] at hscript
  have hnone : Shell.simpleCommand "printf '%s' 'x' > ".toList = none := by decide
  rw [hnone] at hscript
  cases hscript

end Ssh

end Mediaops
