/-
Reading tokens one by one.

A text can be read again after a failure: what a reading leaves over is a
text like any other. Behind a token that is what follows it. Behind a
failure it is what the word with the open quote did not take, and such a
word takes all there is.
-/
import LineShell.Token.Scan

namespace LineShell.Token

/-- What a word leaves over, whether its quotes are closed or not. -/
def afterWord : Quoting → List Char → List Char
  | _, [] => []
  | .bare, c :: cs =>
      if endsWord c then c :: cs
      else if c = '\x27' then afterWord .single cs
      else if c = '"' then afterWord .double cs
      else if c = '\\' then
        match cs with
        | [] => []
        | _ :: ds => afterWord .bare ds
      else afterWord .bare cs
  | .single, c :: cs => if c = '\x27' then afterWord .bare cs else afterWord .single cs
  | .double, c :: cs =>
      if c = '"' then afterWord .bare cs
      else if c = '\\' then
        match cs with
        | [] => []
        | _ :: ds => afterWord .double ds
      else afterWord .double cs

/-- One reading: a token or a failure, and what is left. At the end of
the text the token is `eof`. -/
def read (cs : List Char) : Except SyntaxError Token × List Char :=
  match next cs with
  | .ok (t, rest) => (.ok t, rest)
  | .error e => (.error e, afterWord .bare (Text.skipBlank cs))

/-- What is left after so many readings. -/
def leftAfter (cs : List Char) : Nat → List Char
  | 0 => cs
  | n + 1 => leftAfter (read cs).2 n

/-- What the reading after those comes to. -/
def answer (cs : List Char) (n : Nat) : Except SyntaxError Token := (read (leftAfter cs n)).1

end LineShell.Token
