/-
The plain text of a log record: what a terminal would show of it.

Sequences that control a terminal are left out as a terminal would read
them, byte by byte, and so are all control characters but blanks. While
text is shown, any byte that can be shown is, whatever sequence a control
character before it left open.
-/
import LineShell.Text.Utf8

namespace LineShell.Plain

-- ============================================================== sequences

/-- How far a terminal has read a control sequence. -/
inductive Stage where
  | ground
  | escape
  /-- After an intermediate byte. -/
  | escapeMore
  | control | controlValues | controlMore | controlIgnored
  | device | deviceValues | deviceMore | deviceIgnored | deviceText
  | command
  | string
  deriving DecidableEq, Repr

/-- What a byte is to a terminal. -/
inductive Effect where
  | shown
  /-- A control character that is obeyed at once. -/
  | obeyed
  | silent
  deriving DecidableEq, Repr

/-- Is the byte a control character that ends no sequence? -/
def isControl (b : UInt8) : Bool := b < 0x20 && b ≠ 0x18 && b ≠ 0x1A && b ≠ 0x1B

/-- The stage after the values of a sequence, for the bytes before its
last one. -/
def amongValues (b : UInt8) (values more ignored : Stage) : Stage :=
  if b < 0x30 then more else if b < 0x3C then values else ignored

/-- What a byte does at a stage: the stage after it, if another one, and
its effect. -/
def change (s : Stage) (b : UInt8) : Option Stage × Effect :=
  let ends := 0x40 ≤ b && b ≤ 0x7E
  let goesOn := 0x20 ≤ b && b < 0x40
  if b = 0x18 || b = 0x1A then (some .ground, .obeyed)
  else if b = 0x1B then (some .escape, .silent)
  else
    match s with
    | .ground =>
        if isControl b then (none, .obeyed)
        else if b < 0x80 then (none, if b = 0x7F then .silent else .shown)
        else (none, if (Bytes.lead b).isSome then .shown else .silent)
    | .escape =>
        if isControl b then (none, .obeyed)
        else if b = 0x5B then (some .control, .silent)
        else if b = 0x5D then (some .command, .silent)
        else if b = 0x50 then (some .device, .silent)
        else if b = 0x58 || b = 0x5E || b = 0x5F then (some .string, .silent)
        else if 0x20 ≤ b && b < 0x30 then (some .escapeMore, .silent)
        else if 0x30 ≤ b && b < 0x7F then (some .ground, .silent)
        else (none, .silent)
    | .escapeMore =>
        if isControl b then (none, .obeyed)
        else if 0x30 ≤ b && b < 0x7F then (some .ground, .silent)
        else (none, .silent)
    | .control | .controlValues | .controlMore | .controlIgnored =>
        if isControl b then (none, .obeyed)
        else if ends then (some .ground, .silent)
        else if !goesOn then (none, .silent)
        else
          match s with
          | .control => (some (amongValues b .controlValues .controlMore .controlValues), .silent)
          | .controlValues =>
              (some (amongValues b .controlValues .controlMore .controlIgnored), .silent)
          | .controlMore =>
              (some (amongValues b .controlIgnored .controlMore .controlIgnored), .silent)
          | _ => (none, .silent)
    | .device | .deviceValues | .deviceMore =>
        if ends then (some .deviceText, .silent)
        else if !goesOn then (none, .silent)
        else
          match s with
          | .device => (some (amongValues b .deviceValues .deviceMore .deviceValues), .silent)
          | .deviceValues =>
              (some (amongValues b .deviceValues .deviceMore .deviceIgnored), .silent)
          | _ => (some (amongValues b .deviceIgnored .deviceMore .deviceIgnored), .silent)
    | .deviceIgnored | .deviceText | .string => (if b = 0x9C then some .ground else none, .silent)
    | .command => (if b = 0x07 then some .ground else none, .silent)

/-- Is the control character a blank? -/
def isBlank (b : UInt8) : Bool := b = 9 || b = 10 || b = 12 || b = 13

/-- Is a byte with an effect shown? -/
def Effect.shows (e : Effect) (b : UInt8) : Bool := e = .shown || (e = .obeyed && isBlank b)

-- ================================================================== text

/-- A text being shown. -/
structure Screen where
  stage : Stage := .ground
  /-- Is text being shown, rather than a sequence read? -/
  showing : Bool := false
  /-- How many bytes the character at hand still has. -/
  pending : Nat := 0

/-- Reads a byte of a sequence that shows nothing. -/
def Screen.skip (s : Screen) (b : UInt8) : Screen :=
  { s with stage := ((change s.stage b).1).getD s.stage, showing := false }

/-- Reads a byte where text is shown. -/
def Screen.present (s : Screen) (b : UInt8) : Screen × Bool :=
  let (stage, effect) := change .ground b
  let s := { s with stage := stage.getD s.stage }
  if effect.shows b then
    match Bytes.lead b with
    | some (_, _, size) =>
        if size = 1 then ({ s with showing := true }, true)
        else ({ stage := .ground, showing := true, pending := size - 1 }, true)
    | none => ({ s with showing := true }, true)
  else (s.skip b, false)

/-- Reads one byte, and says whether it is shown. -/
def Screen.read (s : Screen) (b : UInt8) : Screen × Bool :=
  if 0 < s.pending then ({ s with pending := s.pending - 1 }, true)
  else if s.showing then s.present b
  else if (change s.stage b).2.shows b then (s.skip b).present b
  else (s.skip b, false)

/-- The bytes that are shown. -/
def shown : Screen → Bytes → Bytes
  | _, [] => []
  | s, b :: rest =>
      let (s, shows) := s.read b
      if shows then b :: shown s rest else shown s rest

/-- A text without what controls a terminal. -/
def text (given : String) : String := (shown {} (Bytes.ofString given)).decodeLossy

end LineShell.Plain
