import Mediaops.Core.Diff

namespace Mediaops.Diff

-- The scan for the `Host` header, against what it looks for.

-- `host $host`, in any case, at the end of `front`: after the start or a blank, and
-- before the end or one of the bytes that end a directive's argument.
structure HostToken (conf front : Text) : Prop where
  found : ∃ token rest, conf = front ++ (token ++ rest) ∧ Text.toAsciiLowercase token = needle ∧
    ∀ c ∈ rest.head?, c ∈ [';', ' ', '\n', '\r', '\t', '}']
  before : ∀ c ∈ front.getLast?, c ∈ [' ', '\t', '\n', '\x0c', '\r']

-- The scan returns, and says whether the token occurs.
def Exact (conf : Text) : Prop :=
  ∃ ok, nginxHostOk conf = some ok ∧ (ok = true ↔ ∃ front, HostToken conf front)

-- A longer character that the scan could enter comes after the token.
def Shielded (conf : Text) : Prop :=
  ∀ front c rest, conf = front ++ c :: rest → 128 ≤ c.toNat →
    Text.byteLen needle < Text.byteLen (c :: rest) →
      ∃ start, HostToken conf start ∧ start.length < front.length

section Positions

theorem asBytes_needle : Text.byteLen needle = 10 := by decide

-- The token at a boundary of the lowered text.
def tokenAt (front rest : Text) : Bool :=
  Text.startsWith needle rest && front.getLast?.all (Text.within isAsciiWhitespace) &&
    (rest.drop 10).head?.all (Text.within endsHost)

theorem ascii_of_whitespace (b : UInt8) (h : isAsciiWhitespace b = true) : b.toNat < 128 := by
  simp only [isAsciiWhitespace, Bool.or_eq_true, beq_iff_eq] at h
  rcases h with (((rfl | rfl) | rfl) | rfl) | rfl <;> decide

theorem ascii_of_endsHost (b : UInt8) (h : endsHost b = true) : b.toNat < 128 := by
  simp only [endsHost, Bool.or_eq_true, beq_iff_eq] at h
  rcases h with ((((rfl | rfl) | rfl) | rfl) | rfl) | rfl <;> decide

theorem before_ok (front rest : Text) :
    (Text.byteLen front = 0 ∨
      isAsciiWhitespace ((Text.asBytes (front ++ rest)).getD (Text.byteLen front - 1) 0) = true) ↔
      front.getLast?.all (Text.within isAsciiWhitespace) = true := by
  rcases List.eq_nil_or_concat front with rfl | ⟨front, c, rfl⟩
  · simp
  · have hpos := c.utf8Size_pos
    have hbyte := Text.within_byte ascii_of_whitespace front (c := c) rest
      (j := c.utf8Size - 1) (by omega) 0
    have hplace : Text.byteLen (front ++ [c]) - 1 = Text.byteLen front + (c.utf8Size - 1) := by
      simp only [Text.byteLen_append, Text.byteLen_cons, Text.byteLen_nil]
      omega
    rw [List.concat_eq_append, List.append_assoc, List.singleton_append, hplace, hbyte]
    simp [hpos.ne']

theorem after_ok (front token rest : Text) :
    (Text.byteLen front + Text.byteLen token = (Text.asBytes (front ++ (token ++ rest))).length ∨
      endsHost ((Text.asBytes (front ++ (token ++ rest))).getD
        (Text.byteLen front + Text.byteLen token) 0) = true) ↔
      rest.head?.all (Text.within endsHost) = true := by
  have hlen : (Text.asBytes (front ++ (token ++ rest))).length =
      Text.byteLen front + Text.byteLen token + Text.byteLen rest := by
    simp [Text.byteLen, Nat.add_assoc]
  cases rest with
  | nil =>
      rw [hlen]
      simp
  | cons c rest =>
      have hpos := c.utf8Size_pos
      have hbyte := Text.within_byte ascii_of_endsHost (front ++ token) rest hpos 0
      simp only [List.append_assoc, Text.byteLen_append, Nat.add_zero] at hbyte
      rw [hlen, hbyte]
      simp [hpos.ne']

-- At a boundary the position is looked at as the text there is.
theorem hostAt_boundary (front rest : Text) :
    hostAt (front ++ rest) (Text.byteLen front) = some (tokenAt front rest) := by
  unfold hostAt tokenAt
  rw [Text.sliceFrom_append]
  by_cases h : Text.startsWith needle rest = true
  · obtain ⟨tail, rfl⟩ := List.isPrefixOf_iff_prefix.mp h
    have hafter := after_ok front needle tail
    have hbefore := before_ok front (needle ++ tail)
    have hdrop : (needle ++ tail).drop needle.length = tail := List.drop_left
    have hten : needle.length = 10 := by decide
    rw [hten] at hdrop
    simp only [Option.bind_eq_bind, Option.bind_some, h, if_true, Bool.true_and, hdrop, hafter,
      hbefore]
    simp
  · simp [h]

theorem hostAt_inside (front : Text) {c : Char} (rest : Text) (h : 128 ≤ c.toNat) :
    hostAt (front ++ c :: rest) (Text.byteLen front + 1) = none := by
  have hsize : 1 < c.utf8Size := by
    have hpos := c.utf8Size_pos
    have hone := Text.utf8Size_eq_one_iff c
    omega
  unfold hostAt
  rw [Text.sliceFrom_inside front rest (by omega) hsize]
  rfl

theorem tokenAt_length {front rest : Text} (h : tokenAt front rest = true) :
    Text.byteLen needle ≤ Text.byteLen rest := by
  simp only [tokenAt, Bool.and_eq_true] at h
  obtain ⟨tail, rfl⟩ := List.isPrefixOf_iff_prefix.mp h.1.1
  simp

-- A token somewhere in what is still to be scanned.
def TokenAhead (front rest : Text) : Prop :=
  ∃ mid tail, rest = mid ++ tail ∧ tokenAt (front ++ mid) tail = true

theorem tokenAhead_cons (front : Text) (c : Char) (rest : Text) :
    TokenAhead front (c :: rest) ↔
      tokenAt front (c :: rest) = true ∨ TokenAhead (front ++ [c]) rest := by
  constructor
  · rintro ⟨mid, tail, heq, htoken⟩
    cases mid with
    | nil =>
        left
        simp only [List.nil_append] at heq
        simpa [heq] using htoken
    | cons d mid =>
        simp only [List.cons_append, List.cons.injEq] at heq
        obtain ⟨rfl, rfl⟩ := heq
        exact Or.inr ⟨mid, tail, rfl, by simpa using htoken⟩
  · rintro (htoken | ⟨mid, tail, rfl, htoken⟩)
    · exact ⟨[], c :: rest, rfl, by simpa using htoken⟩
    · exact ⟨c :: mid, tail, rfl, by simpa using htoken⟩

-- No room for the token is left.
theorem not_tokenAhead {front rest : Text} (h : Text.byteLen rest < Text.byteLen needle) :
    ¬TokenAhead front rest := by
  rintro ⟨mid, tail, rfl, htoken⟩
  have hlen := tokenAt_length htoken
  simp only [Text.byteLen_append] at h
  omega

-- The first longer character ahead that the scan could enter, with no token before it.
def Exposed (front rest : Text) : Prop :=
  ∃ mid c tail, rest = mid ++ c :: tail ∧ 128 ≤ c.toNat ∧
    Text.byteLen needle < Text.byteLen (c :: tail) ∧
    ∀ start stop, mid = start ++ stop → tokenAt (front ++ start) (stop ++ c :: tail) = false

theorem not_exposed {front rest : Text} (h : Text.byteLen rest ≤ Text.byteLen needle) :
    ¬Exposed front rest := by
  rintro ⟨mid, c, tail, rfl, -, hroom, -⟩
  rw [Text.byteLen_append] at h
  omega

theorem not_exposed_of_token {front rest : Text} (h : tokenAt front rest = true) :
    ¬Exposed front rest := by
  rintro ⟨mid, c, tail, rfl, -, -, hclear⟩
  have hhere := hclear [] mid rfl
  rw [List.append_nil, h] at hhere
  cases hhere

theorem exposed_cons {front : Text} {c : Char} {rest : Text} (hc : c.toNat < 128)
    (h : tokenAt front (c :: rest) = false) :
    Exposed front (c :: rest) ↔ Exposed (front ++ [c]) rest := by
  constructor
  · rintro ⟨mid, d, tail, heq, hhigh, hroom, hclear⟩
    cases mid with
    | nil =>
        simp only [List.nil_append, List.cons.injEq] at heq
        obtain ⟨rfl, rfl⟩ := heq
        omega
    | cons e mid =>
        simp only [List.cons_append, List.cons.injEq] at heq
        obtain ⟨rfl, rfl⟩ := heq
        refine ⟨mid, d, tail, rfl, hhigh, hroom, fun start stop hmid => ?_⟩
        simpa using hclear (c :: start) stop (by simp [hmid])
  · rintro ⟨mid, d, tail, rfl, hhigh, hroom, hclear⟩
    refine ⟨c :: mid, d, tail, rfl, hhigh, hroom, fun start stop hmid => ?_⟩
    cases start with
    | nil =>
        simp only [List.nil_append] at hmid
        simpa [← hmid] using h
    | cons e start =>
        simp only [List.cons_append, List.cons.injEq] at hmid
        obtain ⟨rfl, rfl⟩ := hmid
        simpa using hclear start stop rfl

-- What is left to scan is in one of two states.
def Scanned (front rest : Text) (result : Option Bool) : Prop :=
  (result = none ∧ Exposed front rest) ∨
    ∃ ok, result = some ok ∧ (ok = true ↔ TokenAhead front rest) ∧ ¬Exposed front rest

-- The scan from a boundary: by induction on the characters still to come. It ends at
-- the first token, or inside the first longer character that it enters.
theorem hostFrom_spec (rest front : Text) :
    Scanned front rest (hostFrom (front ++ rest)
      (Text.byteLen rest + 1 - Text.byteLen needle) (Text.byteLen front)) := by
  induction rest generalizing front with
  | nil =>
      have hroom : Text.byteLen ([] : Text) < Text.byteLen needle := by decide
      have hleft : Text.byteLen ([] : Text) + 1 - Text.byteLen needle = 0 := by decide
      rw [hleft]
      exact Or.inr ⟨false, rfl, by simp [not_tokenAhead hroom], not_exposed hroom.le⟩
  | cons c rest ih =>
      by_cases hroom : Text.byteLen (c :: rest) < Text.byteLen needle
      · have hleft : Text.byteLen (c :: rest) + 1 - Text.byteLen needle = 0 := by omega
        rw [hleft]
        exact Or.inr ⟨false, rfl, by simp [not_tokenAhead hroom], not_exposed hroom.le⟩
      obtain ⟨left, hleft⟩ : ∃ left, Text.byteLen (c :: rest) + 1 - Text.byteLen needle = left + 1 :=
        ⟨Text.byteLen (c :: rest) - Text.byteLen needle, by omega⟩
      rw [hleft, hostFrom, hostAt_boundary]
      simp only [Option.bind_eq_bind, Option.bind_some]
      by_cases htoken : tokenAt front (c :: rest) = true
      · rw [if_pos htoken]
        refine Or.inr ⟨true, rfl, ?_, not_exposed_of_token htoken⟩
        simp [tokenAhead_cons, htoken]
      rw [if_neg htoken]
      rw [Bool.not_eq_true] at htoken
      by_cases hc : c.toNat < 128
      · -- the next position is the next boundary
        have hone := (Text.utf8Size_eq_one_iff c).mpr hc
        have hnext : Text.byteLen (front ++ [c]) = Text.byteLen front + 1 := by simp [hone]
        have hrest : left = Text.byteLen rest + 1 - Text.byteLen needle := by
          simp only [Text.byteLen_cons, hone] at hleft hroom
          omega
        have hih := ih (front ++ [c])
        rw [hnext, ← hrest, List.append_assoc, List.singleton_append] at hih
        unfold Scanned at hih ⊢
        rw [exposed_cons hc htoken, tokenAhead_cons]
        simpa [htoken] using hih
      · have hsize : 1 < c.utf8Size := by
          have hpos := c.utf8Size_pos
          have hone := Text.utf8Size_eq_one_iff c
          omega
        cases left with
        | zero =>
            -- the token would have to start at the last position
            have hfull : Text.byteLen (c :: rest) ≤ Text.byteLen needle := by omega
            have hrest : Text.byteLen rest < Text.byteLen needle := by
              rw [Text.byteLen_cons] at hfull
              omega
            refine Or.inr ⟨false, rfl, ?_, not_exposed hfull⟩
            simp [tokenAhead_cons, htoken, not_tokenAhead hrest]
        | succ left =>
            left
            rw [hostFrom, hostAt_inside front rest (by omega)]
            refine ⟨rfl, [], c, rest, rfl, by omega, by omega, ?_⟩
            intro start stop hmid
            obtain ⟨rfl, rfl⟩ := List.append_eq_nil_iff.mp hmid.symm
            simpa using htoken

end Positions

section Tokens

theorem mem_blanks {c : Char} :
    Text.within isAsciiWhitespace c = true ↔ c ∈ [' ', '\t', '\n', '\x0c', '\r'] := by
  simp only [Text.within, isAsciiWhitespace, Bool.and_eq_true, decide_eq_true_eq, Bool.or_eq_true,
    beq_iff_eq, ← UInt8.toNat_inj, UInt8.toNat_ofNat', List.mem_cons, List.not_mem_nil,
    ← Char.toNat_inj, or_false]
  simp only [UInt8.reduceToNat, Char.reduceToNat]
  omega
theorem mem_ends {c : Char} :
    Text.within endsHost c = true ↔ c ∈ [';', ' ', '\n', '\r', '\t', '}'] := by
  simp only [Text.within, endsHost, Bool.and_eq_true, decide_eq_true_eq, Bool.or_eq_true,
    beq_iff_eq, ← UInt8.toNat_inj, UInt8.toNat_ofNat', List.mem_cons, List.not_mem_nil,
    ← Char.toNat_inj, or_false]
  simp only [UInt8.reduceToNat, Char.reduceToNat]
  omega

-- A character that is no letter is its own lowered form and no other's.
theorem lower_mem {c : Char} {marks : List Char} (h : ∀ d ∈ marks, d.toNat < 65 ∨ 122 < d.toNat) :
    c.toLower ∈ marks ↔ c ∈ marks := by
  have hsame : ∀ d ∈ marks, (c.toLower = d ↔ c = d) := by
    intro d hd
    have := h d hd
    rw [← Char.toNat_inj, ← Char.toNat_inj, Text.toNat_toLower]
    split <;> omega
  constructor
  · intro hmem
    exact (hsame _ hmem).mp rfl ▸ hmem
  · intro hmem
    rw [(hsame c hmem).mpr rfl]
    exact hmem

theorem all_head_lower {text : Text} {p : Char → Bool} {marks : List Char}
    (hp : ∀ c, p c = true ↔ c ∈ marks) (hmarks : ∀ d ∈ marks, d.toNat < 65 ∨ 122 < d.toNat) :
    (Text.toAsciiLowercase text).head?.all p = true ↔ ∀ c ∈ text.head?, c ∈ marks := by
  simp [Text.toAsciiLowercase, Option.all_eq_true, hp, lower_mem hmarks]

theorem all_last_lower {text : Text} {p : Char → Bool} {marks : List Char}
    (hp : ∀ c, p c = true ↔ c ∈ marks) (hmarks : ∀ d ∈ marks, d.toNat < 65 ∨ 122 < d.toNat) :
    (Text.toAsciiLowercase text).getLast?.all p = true ↔ ∀ c ∈ text.getLast?, c ∈ marks := by
  simp [Text.toAsciiLowercase, Option.all_eq_true, hp, lower_mem hmarks]

-- The token is looked for in the lowered text.
theorem hostToken_iff (conf front : Text) :
    HostToken conf front ↔ ∃ rest, conf = front ++ rest ∧
      tokenAt (Text.toAsciiLowercase front) (Text.toAsciiLowercase rest) = true := by
  constructor
  · rintro ⟨⟨token, rest, rfl, htoken, hrest⟩, hfront⟩
    refine ⟨token ++ rest, rfl, ?_⟩
    have hlower : Text.toAsciiLowercase (token ++ rest) = needle ++ Text.toAsciiLowercase rest := by
      rw [← htoken]
      simp [Text.toAsciiLowercase]
    have hdrop : (needle ++ Text.toAsciiLowercase rest).drop needle.length =
        Text.toAsciiLowercase rest := List.drop_left
    have hten : needle.length = 10 := by decide
    rw [hten] at hdrop
    rw [tokenAt, hlower, hdrop, Bool.and_eq_true, Bool.and_eq_true]
    refine ⟨⟨List.isPrefixOf_iff_prefix.mpr ⟨_, rfl⟩, ?_⟩, ?_⟩
    · exact (all_last_lower (fun _ => mem_blanks) (by simp)).mpr hfront
    · exact (all_head_lower (fun _ => mem_ends) (by simp)).mpr hrest
  · rintro ⟨rest, rfl, htoken⟩
    rw [tokenAt, Bool.and_eq_true, Bool.and_eq_true] at htoken
    obtain ⟨⟨hstart, hfront⟩, hrest⟩ := htoken
    have hcut : Text.toAsciiLowercase (rest.take 10) = needle := by
      have htake := List.prefix_iff_eq_take.mp (List.isPrefixOf_iff_prefix.mp hstart)
      rw [htake, Text.toAsciiLowercase, Text.toAsciiLowercase, List.map_take]
      rfl
    have hdrop : (Text.toAsciiLowercase rest).drop 10 = Text.toAsciiLowercase (rest.drop 10) := by
      rw [Text.toAsciiLowercase, Text.toAsciiLowercase, List.map_drop]
    rw [hdrop] at hrest
    refine ⟨⟨rest.take 10, rest.drop 10, by rw [List.take_append_drop], hcut, ?_⟩, ?_⟩
    · exact (all_head_lower (fun _ => mem_ends) (by simp)).mp hrest
    · exact (all_last_lower (fun _ => mem_blanks) (by simp)).mp hfront
theorem tokenAhead_iff (conf : Text) :
    TokenAhead [] (Text.toAsciiLowercase conf) ↔ ∃ front, HostToken conf front := by
  constructor
  · rintro ⟨mid, tail, heq, htoken⟩
    obtain ⟨front, rest, rfl, rfl, rfl⟩ := List.map_eq_append_iff.mp heq
    exact ⟨front, (hostToken_iff _ _).mpr ⟨rest, rfl, htoken⟩⟩
  · rintro ⟨front, htoken⟩
    obtain ⟨rest, rfl, hlower⟩ := (hostToken_iff _ _).mp htoken
    exact ⟨_, _, List.map_append .., hlower⟩

theorem high_toLower (c : Char) : 128 ≤ c.toLower.toNat ↔ 128 ≤ c.toNat := by
  rw [Text.toNat_toLower]
  split <;> omega

-- No token starts at a longer character.
theorem not_token_high {front : Text} {c : Char} {tail : Text} (h : 128 ≤ c.toNat) :
    tokenAt front (c :: tail) = false := by
  rw [Bool.eq_false_iff]
  intro htoken
  simp only [tokenAt, Bool.and_eq_true] at htoken
  obtain ⟨rest, hrest⟩ := List.isPrefixOf_iff_prefix.mp htoken.1.1
  obtain ⟨rfl, -⟩ := List.cons.inj hrest
  exact absurd h (by decide)

theorem exposed_iff (conf : Text) :
    Exposed [] (Text.toAsciiLowercase conf) ↔ ¬Shielded conf := by
  constructor
  · rintro ⟨mid, c, tail, heq, hhigh, hroom, hclear⟩ hshield
    obtain ⟨front, rest, rfl, rfl, hrest⟩ := List.map_eq_append_iff.mp heq
    obtain ⟨d, rest, rfl, rfl, rfl⟩ := List.map_eq_cons_iff.mp hrest
    have hlen := Text.byteLen_toAsciiLowercase (d :: rest)
    rw [Text.toAsciiLowercase, List.map_cons] at hlen
    rw [hlen] at hroom
    obtain ⟨start, htoken, hshort⟩ := hshield front d rest rfl ((high_toLower d).mp hhigh) hroom
    obtain ⟨after, hafter, htoken⟩ := (hostToken_iff _ _).mp htoken
    obtain ⟨stop, rfl, rfl⟩ : ∃ stop, front = start ++ stop ∧ after = stop ++ d :: rest := by
      rcases List.append_eq_append_iff.mp hafter with ⟨more, rfl, hmore⟩ | ⟨stop, rfl, hstop⟩
      · simp only [List.length_append] at hshort
        omega
      · exact ⟨stop, rfl, hstop⟩
    have hnone := hclear (Text.toAsciiLowercase start) (Text.toAsciiLowercase stop)
      (List.map_append ..)
    rw [List.nil_append] at hnone
    rw [Text.toAsciiLowercase, Text.toAsciiLowercase, List.map_append, List.map_cons] at htoken
    rw [Text.toAsciiLowercase, Text.toAsciiLowercase, htoken] at hnone
    cases hnone
  · intro hshield
    simp only [Shielded, not_forall, exists_prop, not_exists, not_and] at hshield
    obtain ⟨front, c, rest, rfl, hhigh, hroom, hclear⟩ := hshield
    have hlen := Text.byteLen_toAsciiLowercase (c :: rest)
    rw [Text.toAsciiLowercase, List.map_cons] at hlen
    refine ⟨Text.toAsciiLowercase front, c.toLower, Text.toAsciiLowercase rest, ?_,
      (high_toLower c).mpr hhigh, hlen ▸ hroom, ?_⟩
    · simp [Text.toAsciiLowercase]
    · intro start stop hmid
      obtain ⟨left, right, rfl, rfl, rfl⟩ := List.map_eq_append_iff.mp hmid
      rw [List.nil_append, Bool.eq_false_iff]
      intro htoken
      cases right with
      | nil => exact absurd htoken (by simp [not_token_high ((high_toLower c).mpr hhigh)])
      | cons d right =>
          refine hclear left ((hostToken_iff _ _).mpr ⟨d :: right ++ c :: rest, by simp, ?_⟩)
            (by simp)
          simpa [Text.toAsciiLowercase] using htoken

-- A token with nothing longer in front of it shields the whole text.
theorem HostToken.shields {conf front : Text} (h : HostToken conf front)
    (hascii : ∀ c ∈ front, c.toNat < 128) : Shielded conf := by
  obtain ⟨token, rest, heq, htoken, -⟩ := h.found
  obtain ⟨d, token, rfl, hd, -⟩ := List.map_eq_cons_iff.mp htoken
  -- the token's own first character is no longer one either
  have hlow : d.toNat < 128 := by
    by_contra hhigh
    have := (high_toLower d).mpr (by omega)
    rw [hd] at this
    exact absurd this (by decide)
  have hpast : ∀ c ∈ front ++ [d], c.toNat < 128 := by
    intro c hc
    rcases List.mem_append.mp hc with hc | hc
    · exact hascii c hc
    · rw [List.mem_singleton.mp hc]
      exact hlow
  intro start c tail hstart hhigh _
  refine ⟨front, h, ?_⟩
  have hcut : (front ++ [d]) ++ (token ++ rest) = start ++ c :: tail := by
    rw [← hstart, heq]
    simp
  rcases List.append_eq_append_iff.mp hcut with ⟨more, rfl, -⟩ | ⟨more, hmore, htail⟩
  · simp
  · cases more with
    | nil =>
        rw [List.append_nil] at hmore
        simp [← hmore]
    | cons e more =>
        obtain ⟨rfl, -⟩ := List.cons.inj htail
        have := hpast c (by simp [hmore])
        omega

end Tokens

-- The scan of a whole text: it ends inside a longer character, or says what there is.
theorem nginxHostOk_cases (conf : Text) :
    (nginxHostOk conf = none ∧ ¬Shielded conf) ∨
      ∃ ok, nginxHostOk conf = some ok ∧ (ok = true ↔ ∃ front, HostToken conf front) ∧
        Shielded conf := by
  have hspec := hostFrom_spec (Text.toAsciiLowercase conf) []
  rw [List.nil_append, Text.byteLen_nil] at hspec
  rcases hspec with ⟨hnone, hexposed⟩ | ⟨ok, hok, hahead, hexposed⟩
  · exact Or.inl ⟨hnone, (exposed_iff conf).mp hexposed⟩
  · refine Or.inr ⟨ok, hok, hahead.trans (tokenAhead_iff conf), ?_⟩
    by_contra hnot
    exact hexposed ((exposed_iff conf).mpr hnot)

-- The scan is total and exact on the texts in which no longer character can be
-- entered before the token, and on no others.
theorem nginx_host_ok_exact (conf : Text) : Exact conf ↔ Shielded conf := by
  rcases nginxHostOk_cases conf with ⟨hnone, hnot⟩ | ⟨ok, hok, hahead, hshield⟩
  · refine iff_of_false ?_ hnot
    rintro ⟨ok, hok, -⟩
    rw [hnone] at hok
    cases hok
  · exact iff_of_true ⟨ok, hok, hahead⟩ hshield

-- A comment with an accent in it, and room for the token behind.
theorem nginx_host_ok_panics : ¬Exact "# café: proxy_pass".toList := by
  rintro ⟨ok, hok, -⟩
  have hnone : nginxHostOk "# café: proxy_pass".toList = none := by decide +kernel
  rw [hnone] at hok
  cases hok

end Mediaops.Diff
