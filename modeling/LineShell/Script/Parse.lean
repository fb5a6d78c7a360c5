/-
Reading a script, one command line at a time.

What a byte means depends on where it stands (`Around`), and what a word
means on whether a keyword may come there, so that lexemes are made only
when a statement asks for them; one of them can be given back. A line may
announce documents, whose texts are the lines after it: they are read at
the next end of a line, and statements know them by number. The text of an
alias is read in its place, as if it stood there.

`&&` and `||` bind alike and to the left; pipelines bind tighter, and
lists of statements looser. Every reader takes a bound on its depth,
which the length of the text covers.
-/
import LineShell.Script.Syntax

namespace LineShell.Script

-- ================================================================ lexemes

inductive Lexeme where
  | word (pieces : Word)
  /-- A redirection from or to what the next word names. -/
  | diversion (fd : Nat) (direction : Direction)
  /-- The announcement of a document; `strip`: without leading tabs. -/
  | announcement (fd : Nat) (strip : Bool)
  | sign (text : String)
  | keyword (text : String)
  | newline
  /-- The end of the text. -/
  | finish

namespace Lexeme

/-- How a lexeme is named where it was not expected. -/
def describe : Lexeme → String
  | word _ => "word"
  | diversion _ _ | announcement _ _ => "redirection"
  | sign text | keyword text => "\"" ++ text ++ "\""
  | newline => "newline"
  | finish => "end of file"

/-- The keyword that a word is where one may come, else the lexeme itself. -/
def asKeyword (l : Lexeme) : Lexeme :=
  match l with
  | word pieces =>
      match (bare? pieces).bind Bytes.decode with
      | some text => if keywords.contains text then keyword text else l
      | none => l
  | _ => l

/-- Does the lexeme end a list of statements? -/
def endsList : Lexeme → Bool
  | finish => true
  | sign text => text = ")" || text = ";;"
  | keyword text =>
      ["do", "done", "elif", "else", "esac", "fi", "then", "\x7d"].contains text
  | _ => false

end Lexeme

/-- Why a text is no script. -/
inductive Fault where
  | unterminatedQuote
  | missingBrace
  | missingParentheses
  | unfinishedBackquote
  | badLoopVariable
  | badFunctionName
  | unexpected (found : String) (wanted : Option String)
  deriving DecidableEq, Repr

def Fault.message (fault : Fault) : String :=
  "Syntax error: " ++
    match fault with
    | unterminatedQuote => "Unterminated quoted string"
    | missingBrace => "Missing '\x7d'"
    | missingParentheses => "Missing '))'"
    | unfinishedBackquote => "EOF in backquote substitution"
    | badLoopVariable => "Bad for loop variable"
    | badFunctionName => "Bad function name"
    | unexpected found none => found ++ " unexpected"
    | unexpected found (some wanted) => found ++ " unexpected (expecting \"" ++ wanted ++ "\")"

-- ================================================================= source

/-- A document whose text is still to come. -/
structure Announced where
  number : Nat
  delimiter : Bytes
  /-- Does the text stand for itself? -/
  literal : Bool
  strip : Bool
  deriving Repr

/-- What a word may be where it is read, other than a word. -/
structure Position where
  keywords : Bool := false
  aliases : Bool := false

/-- Where a statement may start. -/
def Position.command : Position := { keywords := true, aliases := true }

/-- Where a statement goes on. -/
def Position.argument : Position := {}

/-- An alias whose text is being read. -/
structure OpenAlias where
  name : Bytes
  /-- How much there is to read after it. -/
  after : Nat
  /-- Does it end in a blank, so that the next word may be an alias too? -/
  continues : Bool
  deriving Repr

/-- A text being read. -/
structure Source where
  rest : Bytes
  /-- The aliases with their texts, and those that are being read. -/
  aliases : List (Bytes × Bytes) := []
  opened : List OpenAlias := []
  line : Nat := 1
  /-- A lexeme given back. -/
  pushed : Option Lexeme := none
  announced : List Announced := []
  /-- The texts of documents, by number. -/
  documents : List (Nat × Word) := []
  /-- The number of the next document. -/
  next : Nat := 0
  /-- Was the end of the text looked at? -/
  ended : Bool := false

/-- The alias that a lexeme is, with its text, unless that is being read. -/
def Source.aliasOf (s : Source) : Lexeme → Option (Bytes × Bytes)
  | .word pieces => do
      let name ← bare? pieces
      guard (!(s.opened.any (·.name = name)))
      let text ← s.aliases.lookup name
      pure (name, text)
  | _ => none

/-- A reader of a text. -/
abbrev Reader := ExceptT Fault (StateM Source)

namespace Reader

/-- Passes bytes. -/
def pass (count : Nat) : Reader Unit :=
  modify fun s =>
    { s with rest := s.rest.drop count, line := s.line + (s.rest.take count).count 10 }

/-- Notes that the text ended here. -/
def atEnd : Reader Unit := modify ({ · with ended := true })

/-- Gives a lexeme back. -/
def push (l : Lexeme) : Reader Unit := modify ({ · with pushed := some l })

/-- Puts the text of an alias before what is to be read. -/
def openAlias (name text : Bytes) : Reader Unit := do
  if !text.isEmpty then
    modify fun s =>
      let continues := text.getLast?.any fun b => b = 32 || b = 9
      { s with
        rest := text ++ s.rest
        opened := { name, after := s.rest.length, continues } :: s.opened }

/-- Leaves aliases whose texts have been passed; the value says whether the
next word may be an alias because of them. -/
def leaveAliases : Reader Bool := do
  let s ← get
  let (opened, passed) := s.opened.partition fun a => a.after ≤ s.rest.length
  set { s with opened }
  pure (passed.any (·.continues))

/-- Refuses a lexeme. -/
def refuse {α : Type} (l : Lexeme) (wanted : Option String := none) : Reader α :=
  throw (.unexpected l.describe wanted)

end Reader

-- ================================================================== bytes

/-- What surrounds the bytes of a word. -/
structure Around where
  double : Bool := false
  /-- Between a parameter's braces, where blanks do not end the word? -/
  braces : Bool := false
  document : Bool := false
  /-- In the word that delimits a document, which is not expanded? -/
  delimiter : Bool := false
  /-- In an expression: how many of its parentheses are open. -/
  depth : Option Nat := none

/-- Does the byte end a word outside quotes? -/
def endsWord (b : UInt8) : Bool := ([9, 10, 32, 38, 40, 41, 59, 60, 62, 124] : Bytes).contains b

/-- Does the byte stand for itself here, with nothing to look at? -/
def Around.isPlain (a : Around) (b : UInt8) : Bool :=
  if b = 92 then false
  else if b = 36 || b = 96 then a.delimiter
  else if b = 34 then a.depth.isSome || (a.document && !a.braces)
  else if b = 39 then a.double
  else if b = 125 && a.braces then false
  else if (b = 40 || b = 41) && a.depth.isSome then false
  else a.double || a.braces || !endsWord b

/-- Does a backslash here protect the byte, and go away itself? -/
def Around.protects (a : Around) (b : UInt8) : Bool :=
  !a.double || b = 92 || b = 96 || b = 36 || (b = 34 && !(a.document && !a.braces)) ||
    (b = 125 && a.braces)

/-- Why the text may not end here, if it may not. -/
def Around.unfinished (a : Around) : Option Fault :=
  if a.depth.isSome then some .missingParentheses
  else if a.double && !a.document then some .unterminatedQuote
  else if a.braces then some .missingBrace
  else none

/-- Puts text before a word; text of one kind is kept together. -/
def withText (bytes : Bytes) (quoted : Bool) : Word → Word
  | .text more q :: rest =>
      if q = quoted then .text (bytes ++ more) q :: rest
      else .text bytes quoted :: .text more q :: rest
  | word => .text bytes quoted :: word

/-- What double quotes make of the word between them. All arguments alone
are left as they are, since there may be none. -/
def inDoubleQuotes (inside : Word) : Word :=
  match inside with
  | [.parameter [64] .value _] => inside
  | _ => .quotes :: inside

/-- The text up to a backquote, and what follows it. A backslash protects
backquotes, backslashes and dollar signs, and in double quotes those. -/
def upToBackquote (double : Bool) : Bytes → Bytes → Option (Bytes × Bytes)
  | _, [] => none
  | seen, 96 :: rest => some (seen.reverse, rest)
  | seen, 92 :: c :: rest =>
      if c = 10 then upToBackquote double seen rest
      else if c = 96 || c = 92 || c = 36 || (double && c = 34) then
        upToBackquote double (c :: seen) rest
      else upToBackquote double (c :: 92 :: seen) rest
  | seen, b :: rest => upToBackquote double (b :: seen) rest

/-- The lines up to one that is the delimiter, the line after it, and
whether it was there. -/
def documentLines (a : Announced) : List Bytes → List Bytes × List Bytes × Bool
  | [] => ([], [], false)
  | line :: rest =>
      let line := if a.strip then line.dropWhile (· = 9) else line
      if line = a.delimiter then ([], rest, true)
      else
        let (inside, rest, found) := documentLines a rest
        (line :: inside, rest, found)

/-- Lines with an end between each two. -/
def unlines (lines : List Bytes) : Bytes := (lines.intersperse [10]).flatten

/-- What stands after a parameter's name in braces, up to the text that it
takes, and what follows. A brace after a colon does not close. -/
def readUse : Bytes → (Word → Use) × Bytes
  | 58 :: 45 :: rest => (.replaced .orElse true, rest)
  | 58 :: 43 :: rest => (.replaced .instead true, rest)
  | 58 :: 61 :: rest => (.replaced .assign true, rest)
  | 58 :: 63 :: rest => (.replaced .require true, rest)
  | 58 :: 125 :: rest => (fun _ => .value, rest)
  | 58 :: _ :: rest => (fun _ => .bad, rest)
  | 45 :: rest => (.replaced .orElse false, rest)
  | 43 :: rest => (.replaced .instead false, rest)
  | 61 :: rest => (.replaced .assign false, rest)
  | 63 :: rest => (.replaced .require false, rest)
  | 37 :: 37 :: rest => (.trimmed true true, rest)
  | 37 :: rest => (.trimmed true false, rest)
  | 35 :: 35 :: rest => (.trimmed false true, rest)
  | 35 :: rest => (.trimmed false false, rest)
  | 125 :: rest => (fun _ => .value, 125 :: rest)
  | rest => (fun _ => .bad, rest.drop 1)

/-- A parameter's name at the start of a text; in braces a name of digits
may be long. -/
def takeName (braced : Bool) : Bytes → Bytes
  | b :: rest =>
      if startsName b then b :: rest.takeWhile continuesName
      else if isDigit b then b :: (if braced then rest.takeWhile isDigit else [])
      else if isSpecial b then [b]
      else []
  | [] => []

/-- The name of a parameter in braces, its use up to the text that it
takes, and what follows. -/
def readParameter (inside : Bytes) : Bytes × (Word → Use) × Bytes :=
  let plainly : Bytes × (Word → Use) × Bytes :=
    let name := takeName true inside
    if name.isEmpty then ([], (fun _ => .bad),
          if inside.head? = some 125 then inside else inside.drop 1)
    else
      let (use, rest) := readUse (inside.drop name.length)
      (name, use, rest)
  match inside with
  | 35 :: b :: rest =>
      let name := takeName true (b :: rest)
      let after := (b :: rest).drop name.length
      let closed := after.head? = some 125
      if startsName b || isDigit b then (name, (fun _ => if closed then .length else .bad), after)
      else if !name.isEmpty && closed then (name, (fun _ => .length), after)
      else if b ≠ 125 && rest.head? = some 125 then ([], (fun _ => .bad), rest)
      else plainly
  | _ => plainly

/-- Is the text to come after a name a pattern? -/
def isTrim (use : Word → Use) : Bool :=
  match use [] with
  | .trimmed _ _ _ => true
  | _ => false

/-- The signs between words, longer ones before their beginnings. -/
def signs : List String := ["&&", "||", ";;", "|", "&", ";", "(", ")"]

/-- A redirection sign at the start of a text, and how long it is. -/
def redirection? (text : Bytes) : Option (Lexeme × Nat) :=
  let given := (text.takeWhile isDigit).take 1
  let fd (usual : Nat) : Nat := given.head?.elim usual fun d => d.toNat - 48
  let found (l : Lexeme) (size : Nat) : Option (Lexeme × Nat) := some (l, given.length + size)
  match text.drop given.length with
  | 60 :: 60 :: 45 :: _ => found (.announcement (fd 0) true) 3
  | 60 :: 60 :: _ => found (.announcement (fd 0) false) 2
  | 60 :: 38 :: _ => found (.diversion (fd 0) .copy) 2
  | 60 :: 62 :: _ => found (.diversion (fd 0) .readWrite) 2
  | 60 :: _ => found (.diversion (fd 0) .read) 1
  | 62 :: 62 :: _ => found (.diversion (fd 1) .append) 2
  | 62 :: 124 :: _ => found (.diversion (fd 1) (.write true)) 2
  | 62 :: 38 :: _ => found (.diversion (fd 1) .copy) 2
  | 62 :: _ => found (.diversion (fd 1) (.write false)) 1
  | _ => none

/-- How far a list of statements goes. -/
inductive Extent where
  /-- To the end of the line. -/
  | line
  /-- To a lexeme that ends lists, with at least one statement. -/
  | nonempty
  | optional
  deriving DecidableEq, Repr

namespace Reader

-- ================================================================ readers

mutual

/-- The pieces of a word up to its end, which is left in place. -/
def pieces : Nat → Around → Reader Word
  | 0, _ => pure []
  | n + 1, a => do
      match (← get).rest with
      | [] =>
          atEnd
          match a.unfinished with
          | some fault => throw fault
          | none => pure []
      | b :: rest =>
          let run := (b :: rest).takeWhile a.isPlain
          if !run.isEmpty then
            pass run.length
            pure (withText run a.double (← pieces n a))
          else if b = 92 then
            match rest with
            | [] =>
                pass 1
                pure (withText [b] true (← pieces n a))
            | 10 :: _ =>
                pass 2
                pieces n a
            | c :: _ =>
                pass 2
                pure (withText (if a.protects c then [c] else [b, c]) true (← pieces n a))
          else if b = 36 then
            pass 1
            let p ← dollar n a
            pure (p :: (← pieces n a))
          else if b = 96 then
            let p ← backquoted n a
            pure (p :: (← pieces n a))
          else if b = 34 then
            if a.double && !a.braces then pure []
            else if a.double then
              pass 1
              pieces n a
            else
              pass 1
              let inside ← pieces n { double := true }
              pass 1
              pure (inDoubleQuotes inside ++ (← pieces n a))
          else if b = 39 then
            let inside := rest.takeWhile (· ≠ 39)
            pass (inside.length + 2)
            if inside.length = rest.length then
              atEnd
              throw .unterminatedQuote
            pure (.quotes :: withText inside true (← pieces n a))
          else
            match a.depth with
            | none => pure []
            | some depth =>
                if b = 41 && depth = 0 && rest.head? = some 41 then pure []
                else
                  pass 1
                  let depth := if b = 40 then depth + 1 else depth - 1
                  pure (withText [b] true (← pieces n { a with depth := some depth }))
termination_by structural n => n

/-- The piece after a dollar sign. -/
def dollar : Nat → Around → Reader Piece
  | 0, a => pure (.text [36] a.double)
  | n + 1, a => do
      match (← get).rest with
      | 40 :: 40 :: _ =>
          pass 2
          let e ← pieces n { double := true, document := a.document, depth := some 0 }
          pass 2
          pure (.arithmetic e a.double)
      | 40 :: _ =>
          pass 1
          let body ← list n .optional none
          match ← next n .argument false with
          | .sign ")" => pure (.output (body.getD .nothing) a.double)
          | l => refuse l ")"
      | 123 :: inside =>
          let (name, use, rest) := readParameter inside
          modify ({ · with rest })
          let word ← pieces n
            { double := a.double && !isTrim use, braces := true, document := a.document }
          pass 1
          pure (.parameter name (use word) a.double)
      | rest =>
          let name := takeName false rest
          pass name.length
          pure (if name.isEmpty then .text [36] a.double else .parameter name .value a.double)
termination_by structural n => n

/-- The piece that a script in backquotes is. -/
def backquoted : Nat → Around → Reader Piece
  | 0, a => pure (.text [96] a.double)
  | n + 1, a => do
      let s ← get
      match upToBackquote a.double [] (s.rest.drop 1) with
      | none =>
          pass s.rest.length
          atEnd
          throw .unfinishedBackquote
      | some (script, after) =>
          let opened := s.opened.map ({ · with after := 0 })
          set { s with rest := script, opened, line := 1 }
          let body ← list n .optional none
          modify fun t =>
            { t with
              rest := s.rest
              opened := s.opened
              line := s.line
              pushed := none
              ended := s.ended }
          pass (s.rest.length - after.length)
          pure (.output (body.getD .nothing) a.double)
termination_by structural n => n

/-- A new lexeme. -/
def scan : Nat → Bool → Reader Lexeme
  | 0, _ => pure .finish
  | n + 1, delimiter => do
      match (← get).rest with
      | [] =>
          atEnd
          pure .finish
      | b :: rest =>
          if b = 32 || b = 9 then
            pass 1
            scan n delimiter
          else if b = 92 && rest.head? = some 10 then
            pass 2
            scan n delimiter
          else if b = 35 then
            pass ((b :: rest).takeWhile (· ≠ 10)).length
            scan n delimiter
          else if b = 10 then
            pass 1
            pure .newline
          else
            match signs.find? fun s => (Bytes.ofString s).isPrefixOf (b :: rest) with
            | some s =>
                pass s.length
                pure (.sign s)
            | none =>
                match redirection? (b :: rest) with
                | some (l, size) =>
                    pass size
                    pure l
                | none => pure (.word (← pieces n { delimiter }))
termination_by structural n => n

/-- The texts of the documents announced. -/
def takeDocuments : Nat → Reader Unit
  | 0 => pure ()
  | n + 1 => do
      let s ← get
      match s.announced with
      | [] => pure ()
      | a :: more =>
          let (inside, rest, found) := documentLines a (s.rest.splitOnP (· == 10))
          if !found then atEnd
          let text := if found then inside.flatMap (· ++ [10]) else unlines inside
          let word ←
            if a.literal then pure [.text text true]
            else
              set { s with rest := text }
              pieces n { double := true, document := true }
          modify fun t =>
            { t with
              rest := unlines rest
              line := s.line + inside.length + 1
              pushed := s.pushed
              ended := s.ended || !found
              announced := more
              documents := (a.number, word) :: t.documents }
          takeDocuments n
termination_by structural n => n

/-- The next lexeme: as a keyword where one may come, aliases replaced
where they may come, and past ends of lines if those do not count. -/
def next : Nat → Position → Bool → Reader Lexeme
  | 0, _, _ => pure .finish
  | n + 1, position, newlines => do
      let (l, position) ← match (← get).pushed with
        | some l =>
            modify ({ · with pushed := none })
            pure (l, position)
        | none =>
            let l ← scan n false
            let more ← leaveAliases
            pure (l, { position with aliases := position.aliases || more })
      match l, newlines with
      | .newline, true =>
          takeDocuments n
          next n position newlines
      | _, _ =>
          let l := if position.keywords then l.asKeyword else l
          let s ← get
          match if position.aliases then s.aliasOf l else none with
          | some (name, text) =>
              openAlias name text
              next n position newlines
          | none => pure l
termination_by structural n => n

/-- A redirection, after its sign. -/
def target : Nat → Nat → Direction → Reader (Diversion Word)
  | 0, fd, direction => pure ⟨fd, direction, []⟩
  | n + 1, fd, direction => do
      match ← next n .argument false with
      | .word w => pure ⟨fd, direction, w⟩
      | l => refuse l
termination_by structural n => n

/-- The announcement of a document, after its sign. -/
def announce : Nat → Nat → Bool → Reader (Diversion Word)
  | 0, fd, _ => pure ⟨fd, .read, []⟩
  | n + 1, fd, strip => do
      match ← scan n true with
      | .word w =>
          let letters : Piece → Bytes
            | .text b _ => b
            | _ => []
          let number := (← get).next
          let a : Announced :=
            { number, delimiter := w.flatMap letters, literal := isQuoted w, strip }
          modify fun s => { s with next := number + 1, announced := s.announced ++ [a] }
          pure ⟨fd, .document number, []⟩
      | l => refuse l
termination_by structural n => n

/-- The redirections that follow a statement. -/
def diversions : Nat → Reader (List (Diversion Word))
  | 0 => pure []
  | n + 1 => do
      match ← next n .command false with
      | .diversion fd direction => do
          let d ← target n fd direction
          pure (d :: (← diversions n))
      | .announcement fd strip => do
          let d ← announce n fd strip
          pure (d :: (← diversions n))
      | l =>
          push l
          pure []
termination_by structural n => n

/-- A list of statements, after some of them. -/
def list : Nat → Extent → Option Statement → Reader (Option Statement)
  | 0, _, so => pure so
  | n + 1, extent, so => do
      match ← next n .command (extent ≠ .line) with
      | .newline =>
          takeDocuments n
          pure so
      | .finish =>
          takeDocuments n
          push .finish
          pure so
      | l =>
          push l
          if extent = .optional && l.endsList then pure so
          else
            let extent := if extent = .nonempty then .optional else extent
            let line := (← get).line
            let s ← chain n
            let after ← next n .argument false
            let s := match after with
              | .sign "&" => .background line s
              | _ => s
            let so := some (Statement.after so s)
            match after with
            | .finish =>
                takeDocuments n
                push .finish
                pure so
            | .newline =>
                push .newline
                list n extent so
            | .sign "&" | .sign ";" => list n extent so
            | l =>
                if extent = .line then refuse l
                push l
                pure so
termination_by structural n => n

/-- Pipelines joined by `&&` and `||`. -/
def chain : Nat → Reader Statement
  | 0 => pure .nothing
  | n + 1 => do
      let first ← pipeline n .argument false
      chainRest n first
termination_by structural n => n

/-- What may follow a pipeline in a chain. -/
def chainRest : Nat → Statement → Reader Statement
  | 0, left => pure left
  | n + 1, left => do
      match ← next n .argument false with
      | .sign "&&" => do
          let right ← pipeline n .command true
          chainRest n (.andThen left right)
      | .sign "||" => do
          let right ← pipeline n .command true
          chainRest n (.orElse left right)
      | l =>
          push l
          pure left
termination_by structural n => n

/-- Statements joined by `|`, possibly negated. -/
def pipeline : Nat → Position → Bool → Reader Statement
  | 0, _, _ => pure .nothing
  | n + 1, position, newlines => do
      let l ← next n position newlines
      let negated := match l with
        | .keyword "!" => true
        | _ => false
      if !negated then push l
      let first ← command n (if negated then .command else .argument) false
      let rest ← pipelineRest n
      let s := if rest.isEmpty then first else .pipeline (first :: rest)
      pure (if negated then .negation s else s)
termination_by structural n => n

/-- The further statements of a pipeline. -/
def pipelineRest : Nat → Reader (List Statement)
  | 0 => pure []
  | n + 1 => do
      match ← next n .argument false with
      | .sign "|" => do
          let s ← command n .command true
          pure (s :: (← pipelineRest n))
      | l =>
          push l
          pure []
termination_by structural n => n

/-- One statement with its redirections. -/
def command : Nat → Position → Bool → Reader Statement
  | 0, _, _ => pure .nothing
  | n + 1, position, newlines => do
      let line := (← get).line
      let l ← next n position newlines
      match l with
      | .word _ | .diversion _ _ | .announcement _ _ => do
          push l
          simple n (← get).line [] [] []
      | _ => do
          let body ← compound n line l
          let ds ← diversions n
          match body with
          | .subshell line body _ => pure (.subshell line body ds)
          | _ => pure (if ds.isEmpty then body else .diverted line body ds)
termination_by structural n => n

/-- A statement that starts with a keyword or a parenthesis. -/
def compound : Nat → Nat → Lexeme → Reader Statement
  | 0, _, _ => pure .nothing
  | n + 1, line, l =>
      match l with
      | .sign "(" => do
          let body ← list n .nonempty none
          close n (.sign ")") (.subshell line (body.getD .nothing) [])
      | .keyword "\x7b" => do
          let body ← list n .nonempty none
          close n (.keyword "\x7d") (body.getD .nothing)
      | .keyword "if" => conditional n
      | .keyword "while" => loop n true
      | .keyword "until" => loop n false
      | .keyword "for" => forEach n line
      | .keyword "case" => choice n line
      | l => refuse l
termination_by structural n => n

/-- A statement that a given lexeme has to end. -/
def close : Nat → Lexeme → Statement → Reader Statement
  | 0, _, s => pure s
  | n + 1, wanted, s => do
      match ← next n .argument false, wanted with
      | .sign found, .sign text => if found = text then pure s else refuse (.sign found) text
      | .keyword found, .keyword text =>
          if found = text then pure s else refuse (.keyword found) text
      | l, .sign text | l, .keyword text => refuse l text
      | l, _ => refuse l
termination_by structural n => n

/-- The body of a statement between two keywords. -/
def between : Nat → String → Reader Statement
  | 0, _ => pure .nothing
  | n + 1, opening => do
      let _ ← close n (.keyword opening) .nothing
      let body ← list n .nonempty none
      pure (body.getD .nothing)
termination_by structural n => n

/-- A conditional, after its first keyword. -/
def conditional : Nat → Reader Statement
  | 0 => pure .nothing
  | n + 1 => do
      let test ← list n .nonempty none
      let yes ← between n "then"
      let test := test.getD .nothing
      match ← next n .argument false with
      | .keyword "elif" => pure (.conditional test yes (← conditional n))
      | .keyword "else" => do
          let no ← list n .nonempty none
          close n (.keyword "fi") (.conditional test yes (no.getD .nothing))
      | l =>
          push l
          close n (.keyword "fi") (.conditional test yes .nothing)
termination_by structural n => n

/-- The test and the body of a loop. -/
def loop : Nat → Bool → Reader Statement
  | 0, _ => pure .nothing
  | n + 1, expected => do
      let test ← list n .nonempty none
      let body ← between n "do"
      close n (.keyword "done") (.loop expected (test.getD .nothing) body)
termination_by structural n => n

/-- Words up to something else. -/
def words : Nat → Reader (List Word)
  | 0 => pure []
  | n + 1 => do
      match ← next n .argument false with
      | .word w => pure (w :: (← words n))
      | l =>
          push l
          pure []
termination_by structural n => n

/-- A loop over words, after its keyword. -/
def forEach : Nat → Nat → Reader Statement
  | 0, _ => pure .nothing
  | n + 1, line => do
      let name ← match ← next n .argument false with
        | .word w =>
            match bare? w with
            | some name => if isName name then pure name else throw .badLoopVariable
            | none => throw .badLoopVariable
        | _ => throw .badLoopVariable
      let ws ← match ← next n .command true with
        | .keyword "in" => do
            let ws ← words n
            match ← next n .argument false with
            | .newline =>
                takeDocuments n
                pure ws
            | .sign ";" => pure ws
            | l => refuse l
        | .sign ";" => pure [[.parameter [64] .value true]]
        | l =>
            push l
            pure [[.parameter [64] .value true]]
      let l ← next n .command true
      push l
      let body ← between n "do"
      close n (.keyword "done") (.forEach line name ws body)
termination_by structural n => n

/-- A choice, after its keyword. -/
def choice : Nat → Nat → Reader Statement
  | 0, _ => pure .nothing
  | n + 1, line => do
      match ← next n .argument false with
      | .word subject => do
          match ← next n .command true with
          | .keyword "in" => pure (.choice line subject (← branches n))
          | l => refuse l "in"
      | l => refuse l
termination_by structural n => n

/-- The branches of a choice up to its end. -/
def branches : Nat → Reader (List (List Word × Statement))
  | 0 => pure []
  | n + 1 => do
      match ← next n { keywords := true } true with
      | .keyword "esac" => pure []
      | l => do
          let l ← match l with
            | .sign "(" => next n .argument false
            | _ => pure l
          let patterns ← patterns n l
          let body ← list n .optional none
          let branch := (patterns, body.getD .nothing)
          match ← next n { keywords := true } true with
          | .keyword "esac" => pure [branch]
          | .sign ";;" => pure (branch :: (← branches n))
          | l => refuse l ";;"
termination_by structural n => n

/-- The patterns of a branch, of which one has been read. -/
def patterns : Nat → Lexeme → Reader (List Word)
  | 0, _ => pure []
  | n + 1, l => do
      let first ← match l with
        | .word w => pure w
        | .keyword text => pure [.text (Bytes.ofString text) false]
        | l => refuse l ")"
      match ← next n .argument false with
      | .sign "|" => do
          let l ← next n .argument false
          pure (first :: (← patterns n l))
      | .sign ")" => pure [first]
      | l => refuse l ")"
termination_by structural n => n

/-- A simple statement, after some of its parts, the last ones first. -/
def simple : Nat → Nat → List (Bytes × Word) → List Word → List (Diversion Word) → Reader Statement
  | 0, line, assignments, ws, ds => pure (.simple line assignments.reverse ws.reverse ds.reverse)
  | n + 1, line, assignments, ws, ds => do
      match ← next n { aliases := ws.isEmpty } false with
      | .word w =>
          match ws, assignment? w with
          | [], some a => simple n line (a :: assignments) ws ds
          | _, _ => simple n line assignments (w :: ws) ds
      | .diversion fd direction => do
          let d ← target n fd direction
          simple n line assignments ws (d :: ds)
      | .announcement fd strip => do
          let d ← announce n fd strip
          simple n line assignments ws (d :: ds)
      | l =>
          match l, assignments, ws, ds with
          | .sign "(", [], [w], [] => do
              let _ ← close n (.sign ")") .nothing
              match bare? w with
              | some name =>
                  let isFree := !((name.decode.map specialBuiltins.contains).getD true)
                  if isName name && isFree then pure (.definition name (← command n .command true))
                  else throw .badFunctionName
              | none => throw .badFunctionName
          | _, _, _, _ =>
              push l
              pure (.simple line assignments.reverse ws.reverse ds.reverse)
termination_by structural n => n

end

end Reader

-- ============================================================ whole lines

/-- What the next line of a script holds. -/
inductive Reading where
  | statement (s : Statement)
  | blank
  | finish

/-- Reads one command line, which may go on over several lines. -/
def Source.read (s : Source) : Except Fault Reading × Source :=
  let longest := s.aliases.foldl (fun n (_, text) => n * (text.length + 1)) 1
  let depth := 16 * s.rest.length * longest + 64
  let line : Reader Reading := do
    match ← Reader.list depth .line none with
    | some statement => pure (.statement statement)
    | none =>
        match (← get).pushed with
        | some .finish => pure .finish
        | _ => pure .blank
  line.run.run { s with pushed := none, ended := false }

end LineShell.Script
