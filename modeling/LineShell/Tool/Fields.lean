/-
Programs about the columns of lines: `cut`, `paste`, `nl`, `fold`,
`expand`, `unexpand`.
-/
import LineShell.Tool.Copy
import LineShell.Tool.Sort

namespace LineShell.Tool

open Posix

variable {ρ : Type}

/-- Prints what becomes of each input in turn; an input that cannot be
opened or read is complained of. -/
def eachInput (names : List Bytes) (use : Bytes → Job ρ Unit) : Job ρ Int := do
  let statuses ← names.mapM fun name => do
    match ← Job.readFile name with
    | .ok data => do
        use data
        pure 0
    | .error (_, e) => do
        Job.complainOf (shown name) e
        pure failure
  Job.closeStandardInput "-" names (firstBad statuses)

-- ==================================================================== cut

/-- Why a list of positions cannot be read. -/
inductive RangeError where
  | zero
  | decreasing
  | noEnd
  | badRange
  | badValue (text : Bytes)
  | tooLarge (text : Bytes)
  deriving DecidableEq, Repr

/-- The complaint; fields and bytes are called by their names. -/
def RangeError.text (fields : Bool) : RangeError → Bytes
  | zero =>
      Bytes.ofString <|
        if fields then "fields are numbered from 1"
        else "byte/character positions are numbered from 1"
  | decreasing => Bytes.ofString "invalid decreasing range"
  | noEnd => Bytes.ofString "invalid range with no endpoint: -"
  | badRange =>
      Bytes.ofString (if fields then "invalid field range" else "invalid byte or character range")
  | badValue t =>
      let what := if fields then "field value " else "byte/character position "
      Bytes.ofString ("invalid " ++ what) ++ marked t
  | tooLarge t =>
      Bytes.ofString (if fields then "field number " else "byte/character offset ") ++ marked t ++
        Bytes.ofString " is too large"

/-- A range of positions, from 1 on; it may be without an end. -/
abbrev Span := Nat × Option Nat

/-- The largest position. -/
def positionMax : Nat := 18446744073709551614

/-- A position in a list; none where the text is empty. -/
def readPosition (text : Bytes) : Except RangeError (Option Nat) :=
  if text.isEmpty then .ok none
  else
    let n := (decimal? text).getD 0
    if positionMax < n then .error (.tooLarge text) else .ok (some n)

/-- One range of a list, which the given rest of the list starts with. -/
def readSpan (text rest : Bytes) : Except RangeError Span := do
  let isDigit (b : UInt8) : Bool := 48 ≤ b && b ≤ 57
  let low := text.takeWhile isDigit
  let dashed := text.drop low.length
  let high := (dashed.drop 1).takeWhile isDigit
  let beyond := text.drop (low.length + 1 + high.length)
  match dashed with
  | [] =>
      match ← readPosition low with
      | some 0 | none => throw .zero
      | some n => pure (n, some n)
  | 45 :: _ =>
      if beyond.head? = some 45 then throw .badRange
      if !beyond.isEmpty then throw (.badValue (rest.drop (low.length + 1 + high.length)))
      if low.isEmpty && high.isEmpty then throw .noEnd
      match ← readPosition low, ← readPosition high with
      | some 0, _ => throw .zero
      | low, some high =>
          if high < low.getD 1 then throw .decreasing else pure (low.getD 1, some high)
      | low, none => pure (low.getD 1, none)
  | _ => throw (.badValue (rest.drop low.length))

/-- The ranges of a list that is cut into texts. -/
def readSpansOf : List Bytes → Bytes → Except RangeError (List Span)
  | [], _ => .ok []
  | text :: texts, rest => do
      let span ← readSpan text rest
      pure (span :: (← readSpansOf texts (rest.drop (text.length + 1))))

/-- The ranges of a list. -/
def readSpans (text : Bytes) : Except RangeError (List Span) :=
  readSpansOf (text.splitOnP fun b => b == 44 || b == 32 || b == 9) text

/-- Is the position in some range? -/
def Span.covers (spans : List Span) (n : Nat) : Bool :=
  spans.any fun (low, high) => low ≤ n && high.all (n ≤ ·)

/-- Does a joined range start at the position? -/
def Span.startsAt (spans : List Span) (n : Nat) : Bool :=
  (spans.any fun (low, _) => low = n) &&
    !spans.any fun (low, high) => low < n && high.all (n ≤ ·)

/-- The chosen bytes of a line, with a delimiter between ranges that were
chosen apart. -/
def cutBytes (chosen starts : Nat → Bool) (delimiter : Option Bytes) (line : Bytes) : Bytes :=
  let kept := (line.zipIdx 1).filter fun (_, n) => chosen n
  (kept.zipIdx.flatMap fun ((b, n), i) =>
    match delimiter with
    | some d => if i ≠ 0 && starts n then d ++ [b] else [b]
    | none => [b])

/-- The chosen fields of a line. -/
def cutFields (chosen : Nat → Bool) (separator : UInt8) (delimiter line : Bytes) : Bytes :=
  let kept :=
    (((line.splitOnP (· == separator)).zipIdx 1).filter fun (_, n) => chosen n).map Prod.fst
  (kept.intersperse delimiter).flatten

def cutSpec : Spec :=
  { plain := "nszC", valued := "bcfdo"
    long :=
      [("bytes", 'b'), ("characters", 'c'), ("fields", 'f'), ("delimiter", 'd'),
       ("only-delimited", 's'),
       ("zero-terminated", 'z'), ("complement", 'C'), ("output-delimiter", 'o')] }

def cutTool : Body ρ := fun args =>
  withOptions cutSpec args failure fun o => do
    let complain {α : Type} (message : String) : Job ρ α := Job.misused (Bytes.ofString message)
    let lists := o.given.filter fun (c, _) => "bcf".toList.contains c
    let fields := o.has 'f'
    if 1 < lists.length then complain "only one list may be specified"
    let text : Bytes ←
      match lists with
      | (_, text) :: _ => pure text
      | [] => complain "you must specify a list of bytes, characters, or fields"
    if 1 < ((o.value? 'd').getD []).length then complain "the delimiter must be a single character"
    if !fields && o.has 'd' then
      complain "an input delimiter may be specified only when operating on fields"
    if !fields && o.has 's' then
      complain "suppressing non-delimited lines makes sense\n\tonly when operating on fields"
    let spans ←
      match readSpans text with
      | .ok spans => pure spans
      | .error e => Job.misused (e.text fields)
    let complement := o.has 'C'
    let chosen (n : Nat) : Bool := Span.covers spans n != complement
    let starts (n : Nat) : Bool :=
      if complement then n = 1 || Span.covers spans (n - 1) else Span.startsAt spans n
    let stop : UInt8 := if o.has 'z' then 0 else 10
    let separator : UInt8 := ((o.value? 'd').map fun d => d.headD 0).getD 9
    let delimiter := (o.value? 'o').getD [separator]
    eachInput (Job.inputs o.operands) fun data => do
      let lines := linesBy stop data
      let shownLines :=
        if fields then
          lines.filterMap fun line =>
            if line.contains separator then some (cutFields chosen separator delimiter line)
            else if o.has 's' then none
            else some line
        else lines.map (cutBytes chosen starts (o.value? 'o'))
      Job.say (withEnds stop shownLines)

-- ================================================================== paste

/-- The delimiters that a list stands for; none if it ends in a backslash
that escapes nothing. -/
def readDelimiters : Bytes → Option (List Bytes)
  | [] => some []
  | [92] => none
  | 92 :: b :: rest => do
      let more ← readDelimiters rest
      let one : Bytes :=
        if b = 48 then []
        else [([(98, 8), (102, 12), (110, 10), (114, 13), (116, 9), (118, 11)].lookup b).getD b]
      pure (one :: more)
  | b :: rest => do pure ([b] :: (← readDelimiters rest))

/-- Texts with delimiters between them, taken in turn. -/
def withDelimiters (delimiters : List Bytes) (texts : List Bytes) : Bytes :=
  texts.zipIdx.flatMap fun (text, i) =>
    if i = 0 then text else (delimiters[(i - 1) % delimiters.length]?).getD [] ++ text

/-- Lines of several inputs side by side, while any has one; `-` takes
each of its lines once. -/
def sideBySide (delimiters : List Bytes) (stop : UInt8) : Nat → List (List Bytes) → List Bytes
  | 0, _ => []
  | n + 1, columns =>
      if columns.all List.isEmpty then []
      else
        (withDelimiters delimiters (columns.map (·.headD [])) ++ [stop]) ::
          sideBySide delimiters stop n (columns.map (·.drop 1))

/-- The lines that each of several names of standard input gets: every so
many-th one. -/
def dealt (lines : List Bytes) (count index : Nat) : List Bytes :=
  (lines.zipIdx.filter fun (_, i) => i % count = index).map Prod.fst

def pasteTool : Body ρ := fun args =>
  withOptions
    { plain := "sz", valued := "d"
      long := [("serial", 's'), ("delimiters", 'd'), ("zero-terminated", 'z')] }
    args failure fun o => do
      let stop : UInt8 := if o.has 'z' then 0 else 10
      let text := (o.value? 'd').getD [9]
      let delimiters ←
        match readDelimiters text with
        | some [] => pure [[]]
        | some ds => pure ds
        | none =>
            Job.die (Bytes.ofString "delimiter list ends with an unescaped backslash: " ++ text)
      let names := Job.inputs o.operands
      if o.has 's' then
        let statuses ← names.mapM fun name => do
          match ← Job.readFile name with
          | .ok data => do
              Job.say (withDelimiters delimiters (linesBy stop data) ++ [stop])
              pure 0
          | .error (unopened, e) => do
              if !unopened then Job.say [stop]
              Job.complainOf (shown name) e
              pure failure
        Job.closeStandardInput "-" names (firstBad statuses)
      else do
        let dashes := names.count dash
        let input ← if dashes = 0 then pure (.ok []) else Job.readAll Fd.stdin
        let rec columnsOf (index : Nat) : List Bytes → Job ρ (List (List Bytes) × Int)
          | [] => pure ([], 0)
          | name :: rest => do
              if name = dash then
                match input with
                | .ok data => do
                    let (others, status) ← columnsOf (index + 1) rest
                    pure (dealt (linesBy stop data) dashes index :: others, status)
                | .error e => do
                    Job.complainOf dash e
                    let (others, _) ← columnsOf (index + 1) rest
                    pure ([] :: others, failure)
              else
                match ← Job.readFile name with
                | .ok data => do
                    let (others, status) ← columnsOf index rest
                    pure (linesBy stop data :: others, status)
                | .error (unopened, e) => do
                    Job.complainOf (shown name) e
                    if unopened then Job.exit failure
                    let (others, _) ← columnsOf index rest
                    pure ([] :: others, failure)
        let (columns, status) ← columnsOf 0 names
        let most := (columns.map List.length).foldl max 0
        Job.say (sideBySide delimiters stop (most + 1) columns).flatten
        Job.closeStandardInput "-" names status

-- =================================================================== fold

/-- The column after a byte. -/
def columnAfter (b : UInt8) (column : Nat) : Nat :=
  if b = 8 then column - 1
  else if b = 13 then 0
  else if b = 9 then column + (8 - column % 8)
  else column + 1

/-- The column after some bytes. -/
def columnAt (bytes : Bool) (text : Bytes) : Nat :=
  text.foldl (fun column b => if bytes then column + 1 else columnAfter b column) 0

/-- A piece of a line up to its last blank, and what follows it. -/
def splitAtBlank (piece : Bytes) : Bytes × Bytes :=
  let isGap (b : UInt8) : Bool := b = 32 || b = 9
  let tail := (piece.reverse.takeWhile (!isGap ·)).reverse
  if tail.length = piece.length then (piece, [])
  else (piece.take (piece.length - tail.length), tail)

/-- A line in pieces of a width, after some bytes that are not written
yet. -/
def foldLine (bytes spaces : Bool) (width : Nat) : Nat → Bytes → Bytes → List Bytes
  | 0, piece, rest => [piece ++ rest]
  | _, piece, [] => [piece]
  | n + 1, piece, b :: rest =>
      if columnAt bytes (piece ++ [b]) ≤ width || piece.isEmpty then
        foldLine bytes spaces width n (piece ++ [b]) rest
      else
        let (whole, tail) := if spaces then splitAtBlank piece else (piece, [])
        whole :: foldLine bytes spaces width n tail (b :: rest)

/-- A number that an option takes, from a least one on. -/
def numberOrDie (fault : String) (least : Nat) (text : Bytes) : Job ρ Nat :=
  let refuse (more : String) : Job ρ Nat :=
    Job.die (Bytes.ofString (fault ++ ": ") ++ marked text ++ Bytes.ofString more)
  match decimal? (if text.head? = some 43 then text.drop 1 else text) with
  | none => refuse ""
  | some n => if n < least then refuse (": " ++ Errno.ERANGE.libraryText) else pure n

/-- Arguments with a dash and a number made into an option with a value. -/
def numberOption (letter : UInt8) (args : List Bytes) : List Bytes :=
  args.flatMap fun arg =>
    match arg with
    | 45 :: b :: rest => if 48 ≤ b && b ≤ 57 then [[45, letter], b :: rest] else [arg]
    | _ => [arg]

def foldTool : Body ρ := fun args =>
  withOptions
    { plain := "bs", valued := "w", long := [("bytes", 'b'), ("spaces", 's'), ("width", 'w')] }
    (numberOption 119 args) failure fun o => do
      let width ←
          numberOrDie "invalid number of columns" 1 ((o.value? 'w').getD (Bytes.ofString "80"))
      eachInput (Job.inputs o.operands) fun data =>
        Job.say <| (wholeLines data).flatMap fun line =>
          let ended := line.getLast? = some 10
          let text := if ended then line.dropLast else line
          let pieces := foldLine (o.has 'b') (o.has 's') width (2 * text.length + 1) [] text
          (pieces.intersperse [10]).flatten ++ if ended then [10] else []

-- ================================================================= expand

/-- Where tabs end: at some columns, and after the last at every multiple
of a number, counted from a column on; otherwise a blank is all. -/
structure TabStops where
  columns : List Nat := []
  every : Option Nat := some 8
  origin : Nat := 0

/-- The column at which a tab ends. -/
def TabStops.next (t : TabStops) (column : Nat) : Nat :=
  match t.columns.find? (column < ·) with
  | some stop => stop
  | none =>
      match t.every with
      | some n => if n = 0 then column + 1 else column + (n - (column - t.origin) % n)
      | none => column + 1

/-- Does a tab end at a column? -/
def TabStops.isStop (t : TabStops) (column : Nat) : Bool :=
  0 < column && t.next (column - 1) = column && (t.every.isSome || t.columns.contains column)

/-- Reads a list of columns, or complains and ends the program. -/
def readTabStops (text : Bytes) : Job ρ TabStops := do
  let parts := (text.splitOnP fun b => b == 44 || b == 32 || b == 9).filter (!·.isEmpty)
  let number (part : Bytes) : Job ρ Nat :=
    match decimal? part with
    | none =>
        let isDigit (b : UInt8) : Bool := 48 ≤ b && b ≤ 57
        Job.die (Bytes.ofString "tab size contains invalid character(s): " ++
          marked (part.dropWhile isDigit))
    | some 0 => Job.die (Bytes.ofString "tab size cannot be 0")
    | some n => pure n
  let plain := parts.filter fun p => p.head? ≠ some 43 && p.head? ≠ some 47
  let columns ← plain.mapM number
  if (columns.zip (columns.drop 1)).any fun (a, b) => b ≤ a then
    Job.die (Bytes.ofString "tab sizes must be ascending")
  match parts.find? fun p => p.head? = some 43 || p.head? = some 47, columns with
  | some p, _ => do
      let n ← number (p.drop 1)
      pure { columns, every := some n,
             origin := if p.head? = some 43 then columns.getLast?.getD 0 else 0 }
  | none, [one] => pure { every := some one }
  | none, [] => pure {}
  | none, _ => pure { columns, every := none }

/-- The tab stops that options ask for. -/
def tabStopsOf (o : Options) : Job ρ TabStops :=
  match o.value? 't' with
  | some text => readTabStops text
  | none => pure {}

/-- Text with blanks for tabs; `start` tells whether only blanks were
before. -/
def expanded (t : TabStops) (initial : Bool) : Nat → Bool → Bytes → List Bytes
  | _, _, [] => []
  | column, start, b :: rest =>
      if b = 10 then [10] :: expanded t initial 0 true rest
      else if b = 9 && (start || !initial) then
        let next := t.next column
        List.replicate (next - column) 32 :: expanded t initial next start rest
      else
        let next := if b = 9 then t.next column else if b = 8 then column - 1 else column + 1
        [b] :: expanded t initial next (start && (b = 32 || b = 9)) rest

def expandTool : Body ρ := fun args =>
  withOptions { plain := "i", valued := "t", long := [("initial", 'i'), ("tabs", 't')] }
    (numberOption 116 args) failure fun o => do
      let t ← tabStopsOf o
      eachInput (Job.inputs o.operands) fun data =>
        Job.say (expanded t (o.has 'i') 0 true data).flatten

/-- A row of blanks from one column to another, with tabs where they end
at stops. One blank before a stop stays as it is, unless more follow. -/
def tabbed (t : TabStops) : Nat → Nat → Nat → Bytes
  | 0, _, _ => []
  | n + 1, column, last =>
      let next := t.next column
      if next ≤ last && t.isStop next && (1 < next - column || next < last) then
        9 :: tabbed t n next last
      else List.replicate (last - column) 32

/-- Text with tabs for blanks: `pending` is the column from which there
were only blanks. -/
def unexpanded (t : TabStops) (all : Bool) : Nat → Option Nat → Bool → Bytes → List Bytes
  | column, pending, _, [] => [tabbed t column (pending.getD column) column]
  | column, pending, start, b :: rest =>
      let flushed := tabbed t (column + 1) (pending.getD column) column
      if (b = 32 || b = 9) && (start || all) then
        let next := if b = 9 then t.next column else column + 1
        let origin := pending.getD column
        if b = 9 && origin < column && column < t.next origin then
          [9] :: unexpanded t all next none start rest
        else unexpanded t all next (some origin) start rest
      else if b = 10 then flushed :: [10] :: unexpanded t all 0 none true rest
      else
        let next := if b = 8 then column - 1 else if b = 9 then t.next column else column + 1
        flushed :: [b] :: unexpanded t all next none false rest

def unexpandTool : Body ρ := fun args =>
  withOptions
    { plain := "af", valued := "t", long := [("all", 'a'), ("first-only", 'f'), ("tabs", 't')] }
    (numberOption 116 args) failure fun o => do
      let t ← tabStopsOf o
      let all := (o.has 'a' || o.has 't') && !o.has 'f'
      eachInput (Job.inputs o.operands) fun data =>
        Job.say (unexpanded t all 0 none true data).flatten

-- ===================================================================== nl

/-- The parts of a page, each with its own style of numbering. -/
inductive PagePart where
  | header | body | footer
  deriving DecidableEq, Repr

/-- How `nl` numbers lines. -/
structure Numbering where
  styles : PagePart → UInt8
  separator : Bytes
  width : Nat
  start : Int
  step : Int
  /-- How the number stands: `ln`, `rn` or `rz`. -/
  format : Bytes
  /-- How many empty lines count as one. -/
  blanks : Nat
  delimiter : Bytes
  keeps : Bool

/-- A number as `nl` writes it. -/
def Numbering.number (m : Numbering) (n : Int) : Bytes :=
  let text := decimalOf n
  let gap := m.width - text.length
  if m.format = Bytes.ofString "ln" then text ++ List.replicate gap 32
  else if m.format = Bytes.ofString "rz" then zeroFilled m.width text
  else List.replicate gap 32 ++ text

/-- The part of a page that a line starts. -/
def Numbering.starts? (m : Numbering) (line : Bytes) : Option PagePart :=
  if m.delimiter.isEmpty then none
  else if line = m.delimiter ++ m.delimiter ++ m.delimiter then some .header
  else if line = m.delimiter ++ m.delimiter then some .body
  else if line = m.delimiter then some .footer
  else none

/-- The lines with their numbers, in a part of a page, after a number and
some empty lines. -/
def Numbering.lines (m : Numbering) :
    PagePart → Int → Nat → List Bytes → List Bytes × PagePart × Int × Nat
  | part, n, blanks, [] => ([], part, n, blanks)
  | part, n, blanks, line :: rest =>
      match m.starts? line with
      | some next =>
          let n := if m.keeps then n else m.start
          let (more, state) := m.lines next n blanks rest
          ([10] :: more, state)
      | none =>
          let bare := List.replicate (m.width + m.separator.length) 32
          let style := m.styles part
          let counts := line.isEmpty && style = 97 && 1 < m.blanks
          let numbered :=
            if style = 97 then !line.isEmpty || m.blanks ≤ 1 || blanks + 1 = m.blanks
            else style = 116 && !line.isEmpty
          let blanks := if counts then (if blanks + 1 = m.blanks then 0 else blanks + 1) else 0
          let shown := if numbered then m.number n ++ m.separator ++ line else bare ++ line
          let (more, state) := m.lines part (if numbered then n + m.step else n) blanks rest
          ((shown ++ [10]) :: more, state)

/-- A style of numbering, or a complaint. -/
def styleOf (part : String) (text : Option Bytes) (default : UInt8) : Job ρ UInt8 :=
  match text with
  | none => pure default
  | some [b] => if b = 97 || b = 116 || b = 110 then pure b else wrong [b]
  | some text => wrong text
where
  wrong (text : Bytes) : Job ρ UInt8 :=
    Job.misused (Bytes.ofString ("invalid " ++ part ++ " numbering style: ") ++ marked text)

/-- An integer that an option takes. -/
def integerOrDie (fault : String) (text : Option Bytes) (default : Int) : Job ρ Int :=
  match text with
  | none => pure default
  | some text =>
      match signed? text with
      | some n => pure n
      | none => Job.die (Bytes.ofString (fault ++ ": ") ++ marked text)

def nlSpec : Spec :=
  { plain := "p", valued := "bdfhilnsvw"
    long :=
      [("body-numbering", 'b'), ("section-delimiter", 'd'), ("footer-numbering", 'f'),
       ("header-numbering", 'h'), ("line-increment", 'i'), ("join-blank-lines", 'l'),
       ("number-format", 'n'), ("no-renumber", 'p'), ("number-separator", 's'),
       ("starting-line-number", 'v'), ("number-width", 'w')] }

def nlTool : Body ρ := fun args =>
  withOptions nlSpec args failure fun o => do
    let body ← styleOf "body" (o.value? 'b') 116
    let header ← styleOf "header" (o.value? 'h') 110
    let footer ← styleOf "footer" (o.value? 'f') 110
    let format := (o.value? 'n').getD (Bytes.ofString "rn")
    if !(["ln", "rn", "rz"].map Bytes.ofString).contains format then
      Job.misused (Bytes.ofString "invalid line numbering format: " ++ marked format)
    let start ← integerOrDie "invalid starting line number" (o.value? 'v') 1
    let step ← integerOrDie "invalid line number increment" (o.value? 'i') 1
    let width ← numberOrDie "invalid line number field width" 1 ((o.value? 'w').getD [54])
    let blanks ← numberOrDie "invalid line number of blank lines" 1 ((o.value? 'l').getD [49])
    let delimiter :=
      match o.value? 'd' with
      | some [b] => [b, 58]
      | some text => text
      | none => [92, 58]
    let m : Numbering :=
      { styles := fun part =>
          match part with | .header => header | .body => body | .footer => footer
        separator := (o.value? 's').getD [9], width, start, step, format, blanks, delimiter
        keeps := o.has 'p' }
    let names := Job.inputs o.operands
    let rec number (part : PagePart) (n : Int) (blanks : Nat) : List Bytes → Job ρ Int
      | [] => pure 0
      | name :: rest => do
          match ← Job.readFile name with
          | .error (_, e) => do
              Job.complainOf (shown name) e
              let _ ← number part n blanks rest
              pure failure
          | .ok data => do
              let (lines, part, n, blanks) := m.lines part n blanks (linesOf data)
              Job.say lines.flatten
              number part n blanks rest
    Job.closeStandardInput "-" names (← number .body m.start 0 names)

end LineShell.Tool
