import Mediaops.Library.Text.Lemmas

namespace Mediaops.Shell

-- A command line as the POSIX shell reads it: quoting, words and one redirection. What
-- the shell would do more with than take it as it stands (an expansion, another
-- operator, a comment, a reserved word) has no reading here.

inductive Token where
  | word (text : Text)
  | output
  deriving DecidableEq, Repr

inductive Mode where
  | plain
  | escaped
  | single
  | double
  | doubleEscaped
  deriving DecidableEq, Repr

-- Outside of quotes these start an expansion, a pattern, a comment or an operator.
def special : List Char :=
  ['$', '\x60', '*', '?', '[', ']', '~', '#', '=', '%', '!', '\x7b', '\x7d', '&', '|', ';', '<', '(',
    ')', '\n']

def flush (word : Option Text) : List Token := (word.map Token.word).toList

-- The tokens of the rest of a line, `word` being the word that is read. An unquoted `>`
-- right behind a word could be part of a descriptor's redirection, and has no reading.
def lex : Mode → Option Text → Text → Option (List Token)
  | .plain, word, [] => some (flush word)
  | _, _, [] => none
  | .plain, word, c :: rest =>
      if c = '\'' then lex .single (some (word.getD [])) rest
      else if c = '"' then lex .double (some (word.getD [])) rest
      else if c = '\\' then lex .escaped word rest
      else if c = ' ' ∨ c = '\t' then (lex .plain none rest).map (flush word ++ ·)
      else if c = '>' then
        if word.isSome ∨ rest.head?.any ['>', '&', '|'].contains then none
        else (lex .plain none rest).map (Token.output :: ·)
      else if c ∈ special then none
      else lex .plain (some (word.getD [] ++ [c])) rest
  | .escaped, word, c :: rest =>
      if c = '\n' then lex .plain word rest else lex .plain (some (word.getD [] ++ [c])) rest
  | .single, word, c :: rest =>
      if c = '\'' then lex .plain word rest else lex .single (some (word.getD [] ++ [c])) rest
  | .double, word, c :: rest =>
      if c = '"' then lex .plain word rest
      else if c = '\\' then lex .doubleEscaped word rest
      else if c = '$' ∨ c = '\x60' then none
      else lex .double (some (word.getD [] ++ [c])) rest
  | .doubleEscaped, word, c :: rest =>
      if c = '\n' then lex .double word rest
      else if c ∈ ['$', '\x60', '"', '\\'] then lex .double (some (word.getD [] ++ [c])) rest
      else lex .double (some (word.getD [] ++ ['\\', c])) rest

-- A command of words alone, its output to a file or not.
structure SimpleCommand where
  words : List Text
  output : Option Text
  deriving DecidableEq, Repr

def reserved : List Text :=
  ["if".toList, "then".toList, "else".toList, "elif".toList, "fi".toList, "do".toList,
    "done".toList, "case".toList, "esac".toList, "while".toList, "until".toList, "for".toList,
    "in".toList]

def parse : List Token → Option SimpleCommand
  | [] => some ⟨[], none⟩
  | .word text :: rest => (parse rest).map fun command => { command with words := text :: command.words }
  | .output :: .word target :: rest =>
      (parse rest).bind fun command =>
        if command.output = none then some { command with output := some target } else none
  | .output :: _ => none

-- The command of a line.
def simpleCommand (line : Text) : Option SimpleCommand :=
  ((lex .plain none line).bind parse).filter fun command =>
    command.words.head?.any fun name => !reserved.contains name

-- Every single quote is closed, escaped and opened again.
def escape (text : Text) : Text := text.flatMap fun c => if c = '\'' then "'\\''".toList else [c]

def quote (text : Text) : Text := '\'' :: (escape text ++ ['\''])

section Quoting

@[simp] theorem escape_nil : escape [] = [] := rfl

theorem escape_cons (c : Char) (text : Text) :
    escape (c :: text) = (if c = '\'' then "'\\''".toList else [c]) ++ escape text :=
  List.flatMap_cons

theorem lex_open (word : Option Text) (rest : Text) :
    lex .plain word ('\'' :: rest) = lex .single (some (word.getD [])) rest := rfl

theorem lex_close (word : Option Text) (rest : Text) :
    lex .single word ('\'' :: rest) = lex .plain word rest := rfl

theorem lex_single {c : Char} (h : c ≠ '\'') (word : Option Text) (rest : Text) :
    lex .single word (c :: rest) = lex .single (some (word.getD [] ++ [c])) rest := if_neg h

theorem lex_escaped_quote (word : Option Text) (rest : Text) :
    lex .plain word ('\\' :: '\'' :: rest) = lex .plain (some (word.getD [] ++ ['\''])) rest := rfl

-- Between single quotes the escaped text is read as the text: by induction on it, an
-- escaped quote going out of the quotes and back.
theorem lex_escape (text word rest : Text) :
    lex .single (some word) (escape text ++ '\'' :: rest) = lex .plain (some (word ++ text)) rest := by
  induction text generalizing word with
  | nil => simp [lex_close]
  | cons c text ih =>
      rw [escape_cons]
      by_cases hc : c = '\''
      · subst hc
        have hnext := ih (word ++ ['\''])
        simp only [if_true, List.append_assoc]
        simpa [lex_close, lex_escaped_quote, lex_open] using hnext
      · have hnext := ih (word ++ [c])
        rw [if_neg hc, List.singleton_append, List.cons_append, lex_single hc]
        simpa using hnext

theorem lex_quote (text rest : Text) :
    lex .plain none (quote text ++ rest) = lex .plain (some text) rest := by
  have hnext := lex_escape text [] rest
  simpa [quote, lex_open] using hnext

-- Characters that stand for themselves.
def Bare (text : Text) : Prop :=
  ∀ c ∈ text, c ∉ special ∧ c ∉ ['\'', '"', '\\', ' ', '\t', '>']

instance (text : Text) : Decidable (Bare text) :=
  List.decidableBAll (fun c => c ∉ special ∧ c ∉ ['\'', '"', '\\', ' ', '\t', '>']) text

theorem lex_bare {text : Text} (h : Bare text) (word : Option Text) (rest : Text) (hne : text ≠ []) :
    lex .plain word (text ++ rest) = lex .plain (some (word.getD [] ++ text)) rest := by
  induction text generalizing word with
  | nil => exact absurd rfl hne
  | cons c text ih =>
      obtain ⟨hspecial, hmarks⟩ := h c List.mem_cons_self
      simp only [List.mem_cons, List.not_mem_nil, or_false, not_or] at hmarks
      obtain ⟨hsingle, hdouble, hslash, hspace, htab, hangle⟩ := hmarks
      rw [List.cons_append, lex, if_neg hsingle, if_neg hdouble, if_neg hslash,
        if_neg (by tauto), if_neg hangle, if_neg hspecial]
      cases text with
      | nil => simp
      | cons d text =>
          rw [ih (fun e he => h e (List.mem_cons_of_mem _ he)) _ (by simp)]
          simp

theorem lex_space (word : Option Text) (rest : Text) :
    lex .plain word (' ' :: rest) = (lex .plain none rest).map (flush word ++ ·) := by
  rw [lex]
  simp

theorem lex_output {rest : Text} (h : rest.head?.any ['>', '&', '|'].contains = false) :
    lex .plain none ('>' :: rest) = (lex .plain none rest).map (Token.output :: ·) := by
  rw [lex]
  simp [h]

end Quoting

end Mediaops.Shell
