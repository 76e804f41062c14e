import Mediaops.Library.Text.Lemmas

namespace Mediaops.Nginx

-- The reader of nginx configuration files: words, directives and braces, with its
-- comments, its quotes and its escapes. What it rejects it reads here as it comes.

-- Where the reader is. `dollar` holds behind a `$`, where a brace opens no block.
inductive Reading where
  | between
  | comment
  | word (text : Text) (dollar : Bool)
  | escaped (text : Text)
  | quoted (mark : Char) (text : Text)
  | quotedEscaped (mark : Char) (text : Text)
  deriving DecidableEq, Repr

-- A directive, a block it opens or the end of one, with the words before it.
inductive Item where
  | directive (words : List Text)
  | opens (words : List Text)
  | closes (words : List Text)
  deriving DecidableEq, Repr

-- The words of the directive that is being read, and where it is read.
structure State where
  words : List Text
  reading : Reading
  deriving DecidableEq, Repr

def clean : State := ⟨[], .between⟩

def blank (c : Char) : Bool := c == ' ' || c == '\t' || c == '\r' || c == '\n'

-- What an escaped character stands for.
def unescape (c : Char) : Text :=
  if c = '"' ∨ c = '\'' ∨ c = '\\' then [c]
  else if c = 't' then ['\t']
  else if c = 'r' then ['\r']
  else if c = 'n' then ['\n']
  else ['\\', c]

def between (words : List Text) (c : Char) : State × List Item :=
  if blank c then (⟨words, .between⟩, [])
  else if c = ';' then (clean, [.directive words])
  else if c = '\x7b' then (clean, [.opens words])
  else if c = '\x7d' then (clean, [.closes words])
  else if c = '#' then (⟨words, .comment⟩, [])
  else if c = '\\' then (⟨words, .escaped []⟩, [])
  else if c = '"' ∨ c = '\'' then (⟨words, .quoted c []⟩, [])
  else (⟨words, .word [c] (c = '$')⟩, [])

def inWord (words : List Text) (text : Text) (dollar : Bool) (c : Char) : State × List Item :=
  if c = '\x7b' ∧ dollar then (⟨words, .word (text ++ [c]) true⟩, [])
  else if c = '\\' then (⟨words, .escaped text⟩, [])
  else if blank c then (⟨words ++ [text], .between⟩, [])
  else if c = ';' then (clean, [.directive (words ++ [text])])
  else if c = '\x7b' then (clean, [.opens (words ++ [text])])
  else (⟨words, .word (text ++ [c]) (c = '$')⟩, [])

def step (state : State) (c : Char) : State × List Item :=
  match state.reading with
  | .between => between state.words c
  | .comment => (⟨state.words, if c = '\n' then .between else .comment⟩, [])
  | .word text dollar => inWord state.words text dollar c
  | .escaped text => (⟨state.words, .word (text ++ unescape c) false⟩, [])
  | .quoted mark text =>
      if c = '\\' then (⟨state.words, .quotedEscaped mark text⟩, [])
      else if c = mark then (⟨state.words ++ [text], .between⟩, [])
      else (⟨state.words, .quoted mark (text ++ [c])⟩, [])
  | .quotedEscaped mark text => (⟨state.words, .quoted mark (text ++ unescape c)⟩, [])

def run : State → Text → State × List Item
  | state, [] => (state, [])
  | state, c :: rest =>
      let (next, new) := step state c
      let (last, later) := run next rest
      (last, new ++ later)

-- The directives and braces of a text.
def items (text : Text) : List Item := (run clean text).2

-- A line end is read here as any other blank.
def Plain (state : State) : Prop :=
  state.reading = .between ∨ state.reading = .comment ∨
    ∃ text dollar, state.reading = .word text dollar

@[simp] theorem run_nil (state : State) : run state [] = (state, []) := rfl

theorem run_cons (state : State) (c : Char) (rest : Text) :
    run state (c :: rest) =
      ((run (step state c).1 rest).1, (step state c).2 ++ (run (step state c).1 rest).2) := rfl

theorem run_append (state : State) (left right : Text) :
    run state (left ++ right) = ((run (run state left).1 right).1,
      (run state left).2 ++ (run (run state left).1 right).2) := by
  induction left generalizing state with
  | nil => rfl
  | cons c left ih =>
      rw [List.cons_append, run_cons, run_cons, ih]
      simp only [List.append_assoc]

-- The end of a line completes no directive.
theorem step_newline (state : State) : (step state '\n').2 = [] := by
  unfold step
  split
  · rfl
  · rfl
  · simp [inWord, blank]
  · rfl
  · split
    · rfl
    · split <;> rfl
  · rfl

theorem run_newline (state : State) (text : Text) :
    (run state (text ++ ['\n'])).2 = (run state text).2 := by
  rw [run_append, run_cons, run_nil]
  simp [step_newline]

-- Nor does a carriage return before it, which is one more blank.
theorem step_return {state : State} (h : Plain state) :
    (step state '\r').2 = [] ∧ step (step state '\r').1 '\n' = step state '\n' := by
  obtain ⟨words, reading⟩ := state
  rcases h with rfl | rfl | ⟨text, dollar, rfl⟩
  · exact ⟨rfl, rfl⟩
  · exact ⟨rfl, rfl⟩
  · simp [step, inWord, between, blank]

-- Blanks between two directives are not read.
theorem run_blanks {text : Text} (h : ∀ c ∈ text, blank c = true) :
    run clean text = (clean, []) := by
  induction text with
  | nil => rfl
  | cons c text ih =>
      simp only [List.mem_cons, forall_eq_or_imp] at h
      have hstep : step clean c = (clean, []) := by simp [step, clean, between, h.1]
      rw [run_cons, hstep, ih h.2]
      rfl

-- A directive is begun that is not read to its end.
def Begun (state : State) : Prop :=
  state.words ≠ [] ∨ (state.reading ≠ .between ∧ state.reading ≠ .comment)

theorem not_begun_clean : ¬Begun clean := by simp [Begun, clean]

-- It goes on until it is read as an item.
theorem Begun.step {state : State} {c : Char} (h : Begun state)
    (hnone : (step state c).2 = []) : Begun (step state c).1 := by
  obtain ⟨words, reading⟩ := state
  cases reading with
  | between =>
      have hwords : words ≠ [] := by simpa [Begun] using h
      simp only [Nginx.step, between] at hnone ⊢
      split_ifs at hnone ⊢ <;> simp_all [Begun]
  | comment =>
      have hwords : words ≠ [] := by simpa [Begun] using h
      exact Or.inl hwords
  | word text dollar =>
      simp only [Nginx.step, inWord] at hnone ⊢
      split_ifs at hnone ⊢ <;> simp_all [Begun]
  | escaped text => exact Or.inr (by simp [Nginx.step])
  | quoted mark text =>
      simp only [Nginx.step]
      split_ifs <;> simp [Begun]
  | quotedEscaped mark text => exact Or.inr (by simp [Nginx.step])

theorem Begun.run {state : State} {text : Text} (h : Begun state)
    (hnone : (run state text).2 = []) : Begun (run state text).1 := by
  induction text generalizing state with
  | nil => exact h
  | cons c rest ih =>
      rw [run_cons, List.append_eq_nil_iff] at hnone
      exact ih (h.step hnone.1) hnone.2

-- A letter begins a word.
theorem begun_letter {c : Char} (h : c.isAlpha = true) :
    Begun (step clean c).1 ∧ (step clean c).2 = [] := by
  have hother : ∀ d : Char, d.isAlpha = false → c ≠ d := by
    rintro d hd rfl
    rw [h] at hd
    cases hd
  have hblank : blank c = false := by
    simp [blank, hother ' ', hother '\t', hother '\r', hother '\n']
  simp [step, clean, between, hblank, hother ';', hother '\x7b', hother '\x7d', hother '#',
    hother '\\', hother '"', hother '\'', Begun]

end Mediaops.Nginx
