import Mediaops.Core.TitleId

namespace Mediaops

-- One component of a path, as the host language's `Path::components` yields them.
inductive Component where
  | RootDir
  | CurDir
  | ParentDir
  | Normal (name : Text)
  deriving DecidableEq, Repr

namespace Path

-- An empty piece and a `.` disappear.
def componentOf (piece : Text) : Option Component :=
  if piece = [] ∨ piece = ".".toList then none
  else if piece = "..".toList then some .ParentDir
  else some (.Normal piece)

def isAbsolute (path : Text) : Bool := path.head? = some '/'

-- A `.` at the start of a relative path is the one that is kept.
def components (path : Text) : List Component :=
  if isAbsolute path then .RootDir :: (Text.split (· == '/') path).filterMap componentOf
  else match Text.split (· == '/') path with
    | [] => []
    | first :: rest =>
        (if first = ".".toList then [Component.CurDir] else (componentOf first).toList) ++
          rest.filterMap componentOf

-- Paths compare by their components.
def equal (left right : Text) : Bool := components left = components right

def join (path tail : Text) : Text :=
  if isAbsolute tail then tail
  else if path = [] ∨ path.getLast? = some '/' then path ++ tail
  else path ++ "/".toList ++ tail

def fileName (path : Text) : Option Text :=
  match (components path).getLast? with
  | some (.Normal name) => some name
  | _ => none

end Path

inductive Placement where
  | Movie (title : Text) (year : Nat) (extension : Text)
  | Episode (title : Text) (year season episode : Nat) (episodeEnd : Option Nat)
      (episodeTitle : Option Text) (extension : Text)
  | Track (artist album : Text) (year : Nat) (disc track : Option Nat) (title : Text)
      (extension : Text)
  deriving DecidableEq, Repr

-- Which file of a title this is.
inductive FileKey where
  | Whole
  | Episode (season episode : Nat)
  | Track (disc track : Nat)
  deriving DecidableEq, Repr

inductive RejectBin where
  | NeedsSplit | NeedsYear
  deriving DecidableEq, Repr

def RejectBin.asStr : RejectBin → Text
  | NeedsSplit => "needs-split"
  | NeedsYear => "needs-year"

inductive PathSchemaError where
  | RejectBin (bin : RejectBin)
  | SpaceRefused (token : Text)
  | LeftoverSceneTag (token : Text)
  | Invalid (raw : Text)
  | KindMismatch
  | InvalidYear (year : Nat)
  | SeasonEpisodeOutOfRange (season episode : Nat)
  | TrackOutOfRange (track : Nat)
  | EmptyFinalName
  deriving DecidableEq, Repr

def PathSchemaError.display : PathSchemaError → Text
  | RejectBin bin => "reject bin ".toList ++ bin.asStr
  | SpaceRefused token => "space refused in `".toList ++ token ++ "`".toList
  | LeftoverSceneTag token => "leftover scene tag in `".toList ++ token ++ "`".toList
  | Invalid raw => "invalid library path `".toList ++ raw ++ "`".toList
  | KindMismatch => "kind/placement mismatch"
  | InvalidYear year => "year ".toList ++ Text.decimal year ++ " is outside 1000..=9999".toList
  | SeasonEpisodeOutOfRange season episode =>
      "season ".toList ++ Text.decimal season ++ " / episode ".toList ++ Text.decimal episode ++
        " is outside range".toList
  | TrackOutOfRange track => "track ".toList ++ Text.decimal track ++ " is outside 1..=99".toList
  | EmptyFinalName => "empty final name"

namespace Placement

-- `Placement::episode_titled`: an empty episode title is no title.
def episodeTitled (title : Text) (year season episode : Nat) (episodeEnd : Option Nat)
    (episodeTitle : Option Text) (extension : Text) : Placement :=
  .Episode title year season episode episodeEnd (episodeTitle.filter (· ≠ [])) extension

def kind : Placement → TitleKind
  | Movie .. => .Movie
  | Episode .. => .Series
  | Track .. => .Album

-- Tracks without a number fall back to `Whole`.
def fileKey : Placement → FileKey
  | Movie .. => .Whole
  | Episode _ _ season episode _ _ _ => .Episode season episode
  | Track _ _ _ disc (some track) _ _ => .Track (disc.getD 1) track
  | Track _ _ _ _ none _ _ => .Whole

section Debug

variable [UnicodeTables]

-- `format!("{self:?}")`, the text of the error `key_title_id` reports.
def debugText (text : Text) : Text :=
  "\"".toList ++ text.flatMap UnicodeTables.escapeDebug ++ "\"".toList

def debugOption (show_ : α → Text) : Option α → Text
  | none => "None"
  | some value => "Some(".toList ++ show_ value ++ ")".toList

def debug : Placement → Text
  | Movie title year extension =>
      "Movie \x7b title: ".toList ++ debugText title ++ ", year: ".toList ++ Text.decimal year ++
        ", extension: ".toList ++ debugText extension ++ " \x7d".toList
  | Episode title year season episode episodeEnd episodeTitle extension =>
      "Episode \x7b title: ".toList ++ debugText title ++ ", year: ".toList ++
        Text.decimal year ++ ", season: ".toList ++ Text.decimal season ++ ", episode: ".toList ++
        Text.decimal episode ++ ", episode_end: ".toList ++ debugOption Text.decimal episodeEnd ++
        ", episode_title: ".toList ++ debugOption debugText episodeTitle ++
        ", extension: ".toList ++ debugText extension ++ " \x7d".toList
  | Track artist album year disc track title extension =>
      "Track \x7b artist: ".toList ++ debugText artist ++ ", album: ".toList ++ debugText album ++
        ", year: ".toList ++ Text.decimal year ++ ", disc: ".toList ++
        debugOption Text.decimal disc ++ ", track: ".toList ++ debugOption Text.decimal track ++
        ", title: ".toList ++ debugText title ++ ", extension: ".toList ++ debugText extension ++
        " \x7d".toList

-- The identity the planner and the on-disk scan compare.
def keyTitleId (placement : Placement) : Except PathSchemaError TitleId :=
  (match placement with
    | Movie title year _ => TitleId.movieKey title year
    | Episode title year .. => TitleId.seriesKey title year
    | Track artist album .. => TitleId.albumKey artist album).mapError
      fun _ => .Invalid placement.debug

end Debug

end Placement

namespace PathSchema

def sceneTags : List Text := ["REPACJ".toList, "REPACK".toList, "PROPER".toList]

def stopTokens : List Text :=
  ["web", "internal", "readnfo", "hdr", "hdr10", "hdr10+", "hdr10plus", "dv", "dovi", "h", "xvid",
    "8bit", "opus", "flac", "amzn", "dsnp", "atvp", "hmax", "nf", "hulu", "pcok", "uhd", "multi",
    "hybrid", "imax", "repack", "repack2", "proper", "complete", "season", "pack"].map String.toList

def releaseMarkers : List Text :=
  ["web-dl", "webdl", "webrip", "bluray", "blu-ray", "bdrip", "brrip", "dvdrip", "hdtv", "remux",
    "x264", "x265", "h264", "h265", "hevc", "avc", "av1", "10bit", "eac3", "ac3", "aac", "atmos",
    "truehd", "dts", "dts-hd"].map String.toList

def isSceneTag (part : Text) : Bool := sceneTags.any fun tag => Text.eqIgnoreAsciiCase part tag

-- `s.replace(" - ", " ")`: matches are taken left to right and do not overlap.
def replaceSpacedDash : Text → Text
  | ' ' :: '-' :: ' ' :: rest => ' ' :: replaceSpacedDash rest
  | c :: rest => c :: replaceSpacedDash rest
  | [] => []

def dottedChar (c : Char) : Char :=
  if c ∈ [':', '/', '\\', '[', ']', '{', '}', ',', '_', '—', '–', '\u2019'] then '.'
  else if Text.isWhitespace c then '.'
  else c

-- Runs of dots collapse; a leading dot goes because the run starts before it.
def collapseDots : Bool → Text → Text
  | _, [] => []
  | lastDot, c :: rest =>
      if c = '.' then
        if lastDot then collapseDots true rest else '.' :: collapseDots true rest
      else c :: collapseDots false rest

def dotted (text : Text) : Text :=
  let spaced := replaceSpacedDash (text.map fun c => if c = '\u00a0' then ' ' else c)
  Text.trimEndMatches (· == '.') (collapseDots true (spaced.map dottedChar))

-- The pieces between separators, each with the separator before it.
def sceneTokens : Text → List (Option Char × Text)
  | [] => [(none, [])]
  | c :: rest =>
      if c == '.' || c == '-' || c == '_' then
        match sceneTokens rest with
        | [] => [(none, []), (some c, [])]
        | (_, token) :: tokens => (none, []) :: (some c, token) :: tokens
      else match sceneTokens rest with
        | [] => [(none, [c])]
        | (sep, token) :: tokens => (sep, c :: token) :: tokens

-- Only the first surviving token loses the separator before it.
def stripSceneTags (name : Text) : Text :=
  match (sceneTokens name).filter fun token => !isSceneTag token.2 with
  | [] => []
  | (_, first) :: rest => first ++ rest.flatMap fun (sep, token) => sep.toList ++ token

def stripPlacement : Placement → Placement
  | .Movie title year extension => .Movie (stripSceneTags title) year extension
  | .Episode title year season episode episodeEnd episodeTitle extension =>
      .episodeTitled (stripSceneTags title) year season episode episodeEnd
        (episodeTitle.map stripSceneTags) extension
  | .Track artist album year disc track title extension =>
      .Track (stripSceneTags artist) (stripSceneTags album) year disc track
        (stripSceneTags title) extension

-- The one door from a catalogue's texts to a placement that can be rendered.
def normalizePlacement : Placement → Placement
  | .Movie title year extension =>
      stripPlacement (.Movie (dotted title) year (Text.trimStartMatches (· == '.') extension))
  | .Episode title year season episode episodeEnd episodeTitle extension =>
      stripPlacement (.episodeTitled (dotted title) year season episode episodeEnd
        (episodeTitle.map dotted) (Text.trimStartMatches (· == '.') extension))
  | .Track artist album year disc track title extension =>
      stripPlacement (.Track (dotted artist) (dotted (stripTrailingYear album)) year disc track
        (dotted title) (Text.trimStartMatches (· == '.') extension))

def rejectReservedComponent (name : Text) : Except PathSchemaError Unit :=
  if '\x00' ∈ name ∨ name = ".".toList ∨ name = "..".toList then throw (.Invalid name) else pure ()

def validateDisplayToken (token : Text) : Except PathSchemaError Text := do
  if token = [] then throw (.Invalid token)
  if token.any Text.isWhitespace then throw (.SpaceRefused token)
  rejectReservedComponent token
  if (Text.split (fun c => c == '.' || c == '-' || c == '_') token).any isSceneTag then
    throw (.LeftoverSceneTag token)
  if '/' ∈ token ∨ '\\' ∈ token ∨ '{' ∈ token ∨ '}' ∈ token then throw (.Invalid token)
  pure token

def validateYear (year : Nat) : Except PathSchemaError Nat :=
  if 1000 ≤ year ∧ year ≤ 9999 then pure year else throw (.InvalidYear year)

def validateExtension (extension : Text) : Except PathSchemaError Text :=
  let extension := (Text.stripPrefix ".".toList extension).getD extension
  if extension = [] ∨ !extension.all Char.isAlphanum then throw (.Invalid extension)
  else pure (Text.toAsciiLowercase extension)

def folderName (title : Text) (year : Nat) : Text :=
  title ++ ".(".toList ++ Text.decimal year ++ ")".toList

def renderEpisodeTag (season episode : Nat) (episodeEnd : Option Nat) : Text :=
  "S".toList ++ Text.decimal02 season ++ "E".toList ++ Text.decimal02 episode ++
    match episodeEnd with
    | some last => "-E".toList ++ Text.decimal02 last
    | none => []

-- The path components of a placement, in order.
def renderComponents : Placement → Except PathSchemaError (List Text)
  | .Movie title year extension => do
      let title ← validateDisplayToken title
      let year ← validateYear year
      let extension ← validateExtension extension
      let folder := folderName title year
      pure ["movies".toList, folder, folder ++ ".".toList ++ extension]
  | .Episode title year season episode episodeEnd episodeTitle extension => do
      let title ← validateDisplayToken title
      let year ← validateYear year
      let extension ← validateExtension extension
      if 99 < season ∨ 999 < episode ∨ episodeEnd.any (999 < ·) then
        throw (.SeasonEpisodeOutOfRange season episode)
      let folder := folderName title year
      let stem := folder ++ ".".toList ++ renderEpisodeTag season episode episodeEnd
      let stem ← match episodeTitle.filter (· ≠ []) with
        | some episodeTitle => do
            let episodeTitle ← validateDisplayToken episodeTitle
            pure (stem ++ ".".toList ++ episodeTitle)
        | none => pure stem
      pure ["series".toList, folder, "Season.".toList ++ Text.decimal02 season,
        stem ++ ".".toList ++ extension]
  | .Track artist album year disc track title extension => do
      let artist ← validateDisplayToken artist
      let album ← validateDisplayToken album
      let title ← validateDisplayToken title
      let year ← validateYear year
      let extension ← validateExtension extension
      if let some n := track then
        if ¬(1 ≤ n ∧ n ≤ 99) then throw (.TrackOutOfRange n)
      if let some d := disc then
        if ¬(1 ≤ d ∧ d ≤ 99) then throw (.TrackOutOfRange d)
      let folder := folderName album year
      let file := match track with
        | some n => folder ++ ".".toList ++ Text.decimal02 n ++ ".".toList ++ title ++
            ".".toList ++ extension
        | none => folder ++ ".".toList ++ title ++ ".".toList ++ extension
      pure (["music".toList, artist, folder] ++
        (disc.map fun d => "Disc.".toList ++ Text.decimal02 d).toList ++ [file])

def renderPlacement (placement : Placement) : Except PathSchemaError Text :=
  (renderComponents placement).map (Text.joinWith '/')

def kindDir (name : Text) : Option TitleKind :=
  if name = "movies".toList then some .Movie
  else if name = "series".toList ∨ name = "tv".toList then some .Series
  else if name = "music".toList then some .Album
  else none

-- The year of a folder name is its last parenthesis, so cutting there finds it again.
def splitTitleYear (folder raw : Text) : Except PathSchemaError (Text × Nat) := do
  let title := stripTrailingYear folder
  if title.length = folder.length then throw (.RejectBin .NeedsYear)
  match Text.rsplitOnce '(' folder with
  | none => throw (.Invalid raw)
  | some (_, inner) =>
      let digits := inner.take 4
      if digits.length ≠ 4 ∨ !digits.all Char.isDigit then throw (.Invalid raw)
      let year ← (validateYear (Text.digitsValue digits)).mapError fun _ => .Invalid raw
      if title = [] then throw (.Invalid raw)
      pure (title, year)

def boundary : Text → Bool
  | [] => true
  | c :: _ => !c.isAlphanum

def takeDigits (count : Nat) (text : Text) : Text := (text.take count).takeWhile Char.isDigit

def isEpisodeMark (c : Char) : Bool := c == 'E' || c == 'e'

-- The optional `-E03` or `E03` right after the episode number. It counts only
-- when a boundary follows.
def episodeTagEnd (text : Text) : Option Nat × Text :=
  let tail := match text with
    | '-' :: rest => rest
    | _ => text
  match tail with
  | mark :: rest =>
      let digits := takeDigits 3 rest
      let after := rest.drop digits.length
      if isEpisodeMark mark ∧ digits ≠ [] ∧ boundary after then
        (some (Text.digitsValue digits), after)
      else (none, text)
  | [] => (none, text)

-- An episode tag at the head of the text.
def episodeTagAt (text : Text) : Option (Nat × Nat × Option Nat × Text) :=
  match text with
  | [] => none
  | s :: rest =>
      if s == 'S' || s == 's' then
        let seasonDigits := takeDigits 2 rest
        match seasonDigits, rest.drop seasonDigits.length with
        | _ :: _, mark :: rest =>
            let episodeDigits := takeDigits 3 rest
            if isEpisodeMark mark ∧ episodeDigits ≠ [] then
              let (episodeEnd, after) := episodeTagEnd (rest.drop episodeDigits.length)
              if boundary after then
                some (Text.digitsValue seasonDigits, Text.digitsValue episodeDigits, episodeEnd,
                  after)
              else none
            else none
        | _, _ => none
      else none

-- The leftmost tag that does not follow an ASCII alphanumeric. The source walks
-- bytes: a byte of a longer scalar is neither a letter nor a digit of ASCII.
def episodeTagFrom (afterAlphanum : Bool) : Text → Option (Nat × Nat × Option Nat × Text)
  | [] => none
  | c :: rest =>
      match if afterAlphanum then none else episodeTagAt (c :: rest) with
      | some found => some found
      | none => episodeTagFrom c.isAlphanum rest

def episodeTag (stem : Text) : Option (Nat × Nat × Option Nat × Text) := episodeTagFrom false stem

def smallNumber (rest : Text) : Option Nat :=
  if rest.length ≤ 2 ∧ rest.all Char.isDigit then Text.parseBelow 256 rest else none

def seasonDir (name : Text) : Option Nat :=
  let name := dotted name
  ((Text.stripPrefix "Season.".toList name).or (Text.stripPrefix "season.".toList name)).bind
    smallNumber

def discDir (name : Text) : Option Nat :=
  let name := dotted name
  ((((Text.stripPrefix "Disc.".toList name).or (Text.stripPrefix "disc.".toList name)).or
    (Text.stripPrefix "CD.".toList name)).or (Text.stripPrefix "CD".toList name)).bind smallNumber

def isReleaseMarker (token : Text) : Bool :=
  let folded := Text.trimMatches (· == '-') (Text.toAsciiLowercase token)
  (4 ≤ folded.length && folded.getLast? == some 'p' && folded.dropLast.all Char.isDigit) ||
    releaseMarkers.contains folded ||
    ((Text.stripPrefix "ddp".toList folded).map fun rest => rest.all Char.isDigit).getD false

def isStopToken (token : Text) : Bool :=
  isReleaseMarker token ||
    stopTokens.contains (Text.trimMatches (· == '-') (Text.toAsciiLowercase token))

-- A remainder with a release marker is a scene name and is cut at its first
-- release token; any other remainder is the title.
def cutAtStopToken (after : Text) : Option Text :=
  let trimmed := Text.trimMatches (fun c => c == '.' || c == '-' || c == ' ') after
  if trimmed = [] then none
  else
    let tokens := (Text.split (· == '.') trimmed).filter (· ≠ [])
    if !tokens.any isReleaseMarker then some (Text.joinWith '.' tokens)
    else
      let kept := tokens.takeWhile fun token => !isStopToken token
      if kept = [] then none else some (Text.joinWith '.' kept)

def splitStemExt (file raw : Text) : Except PathSchemaError (Text × Text) :=
  match Text.rsplitOnce '.' file with
  | none => throw (.Invalid raw)
  | some (stem, extension) => do
      if stem = [] then throw (.Invalid raw)
      let extension ← (validateExtension extension).mapError fun _ => .Invalid raw
      pure (stem, extension)

def parseMovie (comps : List Text) (raw : Text) : Except PathSchemaError Placement :=
  match comps with
  | [folder, file] => do
      let (title, year) ← splitTitleYear (dotted folder) raw
      let (stem, extension) ← splitStemExt file raw
      let stem := dotted stem
      let start := folderName title year
      if ¬Text.eqIgnoreAsciiCase stem start ∧ ¬Text.startsWithCi stem (start ++ ".".toList) then
        throw (.Invalid raw)
      let _ ← (validateDisplayToken title).mapError fun _ => .Invalid raw
      pure (.Movie title year extension)
  | _ => throw (.Invalid raw)

def parseEpisodeFile (folder file : Text) (dirSeason : Option Nat) (raw : Text) :
    Except PathSchemaError Placement := do
  let (title, year) ← splitTitleYear (dotted folder) raw
  let _ ← (validateDisplayToken title).mapError fun _ => .Invalid raw
  let (stem, extension) ← splitStemExt file raw
  match episodeTag (dotted stem) with
  | none => throw (.Invalid raw)
  | some (season, episode, episodeEnd, after) =>
      if 99 < season ∨ 999 < episode ∨ episodeEnd.any (999 < ·) then
        throw (.SeasonEpisodeOutOfRange season episode)
      if dirSeason.any (· ≠ season) then throw (.Invalid raw)
      pure (.episodeTitled title year season episode episodeEnd (cutAtStopToken after) extension)

def parseEpisode (comps : List Text) (raw : Text) : Except PathSchemaError Placement :=
  match comps with
  | [folder, file] => parseEpisodeFile folder file none raw
  | [folder, seasonFolder, file] =>
      if (seasonDir seasonFolder).isSome then
        parseEpisodeFile folder file (seasonDir seasonFolder) raw
      else throw (.Invalid raw)
  | _ => throw (.Invalid raw)

-- The track number and the title of what follows the album prefix.
def splitTrack (rest raw : Text) : Except PathSchemaError (Option Nat × Text) :=
  match Text.splitOnce '.' rest with
  | some (n, title) =>
      if n.length ≤ 3 ∧ n ≠ [] ∧ n.all Char.isDigit then
        match Text.parseBelow 256 n with
        | some n => pure (some n, title)
        | none => throw (.Invalid raw)
      else pure (none, rest)
  | none => pure (none, rest)

def parseTrackFile (artist albumFolder : Text) (disc : Option Nat) (file raw : Text) :
    Except PathSchemaError Placement := do
  let artist := dotted artist
  let _ ← (validateDisplayToken artist).mapError fun _ => .Invalid raw
  let (album, year) ← splitTitleYear (dotted albumFolder) raw
  let _ ← (validateDisplayToken album).mapError fun _ => .Invalid raw
  let (stem, extension) ← splitStemExt file raw
  let stem := dotted stem
  let start := folderName album year ++ ".".toList
  let rest := if Text.startsWithCi stem start then stem.drop start.length else stem
  let (track, title) ← splitTrack rest raw
  let title := (cutAtStopToken title).getD title
  if title = [] then throw (.Invalid raw)
  let _ ← (validateDisplayToken title).mapError fun _ => .Invalid raw
  if let some n := track then
    if ¬(1 ≤ n ∧ n ≤ 99) then throw (.TrackOutOfRange n)
  pure (.Track artist album year disc track title extension)

def parseTrack (comps : List Text) (raw : Text) : Except PathSchemaError Placement :=
  match comps with
  | [artist, album, file] => parseTrackFile artist album none file raw
  | [artist, album, discFolder, file] =>
      match discDir discFolder with
      | some disc => parseTrackFile artist album (some disc) file raw
      | none => throw (.Invalid raw)
  | _ => throw (.Invalid raw)

def inferKind (comps : List Text) : Option TitleKind :=
  match comps.getLast? with
  | none => none
  | some file =>
      let stem := match Text.rsplitOnce '.' file with
        | some (stem, _) => stem
        | none => file
      if (episodeTag stem).isSome || comps.any fun c => (seasonDir c).isSome then some .Series
      else match comps.length with
        | 2 => some .Movie
        | 3 | 4 => some .Album
        | _ => none

def normalNames (comps : List Component) : List Text :=
  comps.filterMap fun
    | .Normal name => some name
    | _ => none

def hasPair (second : Text) : List Text → Bool
  | a :: b :: rest =>
      ((a = "_ops".toList ∨ a = "_incoming".toList) ∧ b = second) || hasPair second (b :: rest)
  | _ => false

def classifyRejectBin (path : Text) : Option RejectBin :=
  let names := normalNames (Path.components path)
  if hasPair "needs-split" names then some .NeedsSplit
  else if hasPair "needs-year" names then some .NeedsYear
  else none

-- The kind a path is read under, with the components left after a kind directory.
def selectKind (hint : Option (Option TitleKind)) (comps : List Text) (raw : Text) :
    Except PathSchemaError (TitleKind × List Text) :=
  match hint with
  | none =>
      match comps with
      | [] => throw (.Invalid raw)
      | first :: rest =>
          match kindDir first with
          | none => throw (.Invalid raw)
          | some kind => pure (kind, rest)
  | some (some kind) =>
      if 2 < comps.length ∧ comps.head?.bind kindDir = some kind then pure (kind, comps.tail)
      else pure (kind, comps)
  | some none =>
      match if 2 < comps.length then comps.head?.bind kindDir else none with
      | some kind => pure (kind, comps.tail)
      | none =>
          match inferKind comps with
          | some kind => pure (kind, comps)
          | none => throw (.Invalid raw)

def hasSceneTag (comps : List Text) : Bool :=
  comps.any fun c =>
    (Text.split (fun c => c == '.' || c == '-' || c == '_' || c == ' ') c).any isSceneTag

def parseKind (kind : TitleKind) (comps : List Text) (raw : Text) :
    Except PathSchemaError Placement :=
  match kind with
  | .Movie => parseMovie comps raw
  | .Series => parseEpisode comps raw
  | .Album => parseTrack comps raw

section

variable [UnicodeTables]

def parseInner (path : Text) (hint : Option (Option TitleKind)) :
    Except PathSchemaError (TitleId × Placement) := do
  if let some bin := classifyRejectBin path then throw (.RejectBin bin)
  let parts := Path.components path
  if parts.any fun c => c = .ParentDir || c = .RootDir then throw (.Invalid path)
  let comps := normalNames parts
  if comps.head?.any fun c => c.head? = some '_' then throw (.Invalid path)
  let (kind, comps) ← selectKind hint comps path
  if hasSceneTag comps then throw (.LeftoverSceneTag path)
  let placement ← parseKind kind comps path
  let titleId ← placement.keyTitleId
  pure (titleId, placement)

def parsePlacement (path : Text) : Except PathSchemaError (TitleId × Placement) :=
  parseInner path none

def parse (path : Text) : Except PathSchemaError TitleId := (parsePlacement path).map Prod.fst

def parseRemote (kind : Option TitleKind) (relPath : Text) :
    Except PathSchemaError (TitleId × Placement) :=
  parseInner relPath (some kind)

-- The title id only has to agree on kind; the path never carries its id.
def render (titleId : TitleId) (placement : Placement) : Except PathSchemaError Text :=
  if titleId.kind ≠ placement.kind then throw .KindMismatch else renderPlacement placement

-- Staging layout: `_incoming/<kind-source-id>/<final_name>`.
def stagingPath (titleId : TitleId) (finalName : Text) : Except PathSchemaError Text := do
  if finalName = [] then throw .EmptyFinalName
  if finalName.any Text.isWhitespace then throw (.SpaceRefused finalName)
  rejectReservedComponent finalName
  if '/' ∈ finalName ∨ '\\' ∈ finalName then throw (.Invalid finalName)
  pure (Path.join (Path.join "_incoming" titleId.stagingToken) finalName)

def placementTokens : Placement → List Text
  | .Movie title _ extension => [title, extension]
  | .Episode title _ _ _ _ _ extension => [title, extension]
  | .Track _ album _ _ _ title extension => [album, title, extension]

def preflightApprovePlacement (titleId : TitleId) (placement : Placement) :
    Except PathSchemaError Placement := do
  if let some token := (placementTokens placement).find? fun t => t.any Text.isWhitespace then
    throw (.SpaceRefused token)
  if let some token := (placementTokens placement).find? fun t => stripSceneTags t ≠ t then
    throw (.LeftoverSceneTag token)
  let stripped := stripPlacement placement
  let _ ← render titleId stripped
  pure stripped

end

end PathSchema

end Mediaops
