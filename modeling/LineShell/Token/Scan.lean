/-
Scanning: from the characters of a line to its tokens.

`next` reads one token and gives what follows it. An operator is the
longest spelling that fits; the digit 2 belongs to an operator only when
`>` follows at once and a token starts there. Everything else is a word,
which runs up to a blank or one of `;<>|&` outside quotes. Quotes are
removed as they are read: single quotes keep all characters, double
quotes let a backslash protect the character after it, and outside
quotes a backslash does the same (with nothing after it, it stands for
nothing).

The only error is a quote that is never closed. It uses up the line, so
a scan is a list of tokens and at most one error after them
(`Scan.ofLine`).
-/
import LineShell.Text.Blank
import LineShell.Token

namespace LineShell.Token

-- ================================================================ words

/-- Where the reader of a word stands with respect to quotes. -/
inductive Quoting where
  | bare
  | single
  | double
  deriving DecidableEq, Repr

/-- Does the character end a word when it stands outside quotes? -/
def endsWord (c : Char) : Bool :=
  Text.isBlank c || c = ';' || c = '<' || c = '>' || c = '|' || c = '&'

/-- Puts a character in front of a word that was read. -/
def consWord (c : Char) (read : Except SyntaxError (List Char × List Char)) :
    Except SyntaxError (List Char × List Char) :=
  read.map fun (w, rest) => (c :: w, rest)

theorem consWord_eq_ok {c : Char} {read : Except SyntaxError (List Char × List Char)}
    {w rest : List Char} :
    consWord c read = .ok (w, rest) ↔ ∃ v, read = .ok (v, rest) ∧ w = c :: v := by
  rcases read with e | ⟨v, r⟩ <;> simp [consWord, Except.map]
  grind

/-- The characters of a word without their quotes, and what follows the
word. -/
def takeWord : Quoting → List Char → Except SyntaxError (List Char × List Char)
  | .bare, [] => .ok ([], [])
  | .bare, c :: cs =>
      if endsWord c then .ok ([], c :: cs)
      else if c = '\x27' then takeWord .single cs
      else if c = '"' then takeWord .double cs
      else if c = '\\' then
        match cs with
        | [] => .ok ([], [])
        | d :: ds => consWord d (takeWord .bare ds)
      else consWord c (takeWord .bare cs)
  | .single, [] => .error (.unterminated '\x27')
  | .single, c :: cs =>
      if c = '\x27' then takeWord .bare cs else consWord c (takeWord .single cs)
  | .double, [] => .error (.unterminated '"')
  | .double, c :: cs =>
      if c = '"' then takeWord .bare cs
      else if c = '\\' then
        match cs with
        | [] => .error (.unterminated '"')
        | d :: ds => consWord d (takeWord .double ds)
      else consWord c (takeWord .double cs)

-- =============================================================== tokens

/-- The token at the start of a text that begins with no blank, and what
follows it. -/
def nextAt : List Char → Except SyntaxError (Token × List Char)
  | [] => .ok (.eof, [])
  | '|' :: '|' :: cs => .ok (.or, cs)
  | '|' :: cs => .ok (.pipe, cs)
  | ';' :: cs => .ok (.semi, cs)
  | '&' :: '&' :: cs => .ok (.and, cs)
  | '&' :: '>' :: '>' :: cs => .ok (.redirect .bothAppend, cs)
  | '&' :: '>' :: cs => .ok (.redirect .both, cs)
  | '&' :: cs => .ok (.background, cs)
  | '<' :: cs => .ok (.redirect .input, cs)
  | '>' :: '>' :: cs => .ok (.redirect .append, cs)
  | '>' :: cs => .ok (.redirect .output, cs)
  | '2' :: '>' :: '>' :: cs => .ok (.redirect .errorAppend, cs)
  | '2' :: '>' :: cs => .ok (.redirect .error, cs)
  | cs => (takeWord .bare cs).map fun (w, rest) => (.word (String.ofList w), rest)

/-- The first token of a text, and what follows it. At the end of the
text the token is `eof`. -/
def next (cs : List Char) : Except SyntaxError (Token × List Char) :=
  nextAt (Text.skipBlank cs)

-- ============================================================= progress

/-- A word takes nothing from what follows it. -/
theorem length_takeWord_le {q : Quoting} {cs w rest : List Char}
    (h : takeWord q cs = .ok (w, rest)) : rest.length ≤ cs.length := by
  fun_induction takeWord q cs generalizing w rest <;> grind [consWord_eq_ok]

/-- A word that starts with a character of its own takes it. -/
theorem length_takeWord_lt {c : Char} {cs w rest : List Char} (hc : endsWord c = false)
    (h : takeWord .bare (c :: cs) = .ok (w, rest)) :
    rest.length < (c :: cs).length := by
  unfold takeWord at h
  grind [consWord_eq_ok, → length_takeWord_le]

/-- What is left after the leading blanks does not start with one. -/
theorem isBlank_head_skipBlank {c : Char} {cs rest : List Char}
    (h : Text.skipBlank cs = c :: rest) : Text.isBlank c = false := by
  have := List.head?_dropWhile_not Text.isBlank cs
  simp only [Text.skipBlank] at h
  simp_all

/-- A token other than the end of the text takes at least one
character. -/
theorem length_nextAt_lt {cs rest : List Char} {t : Token}
    (hb : ∀ c r, cs = c :: r → Text.isBlank c = false)
    (h : nextAt cs = .ok (t, rest)) (ht : t ≠ .eof) : rest.length < cs.length := by
  unfold nextAt at h
  split at h
  all_goals try (simp only [Except.ok.injEq, Prod.mk.injEq] at h; grind)
  rename_i cs' hn h1 h2 h3 h4 h5 h6 h7 h8 h9 h10 h11 h12
  cases cs with
  | nil => exact absurd rfl hn
  | cons c r =>
    have hw : endsWord c = false := by
      have := hb c r rfl
      simp only [endsWord, this, Bool.false_or, Bool.or_eq_false_iff, decide_eq_false_iff_not]
      exact ⟨⟨⟨⟨fun e => h3 r (e ▸ rfl), fun e => h8 r (e ▸ rfl)⟩, fun e => h10 r (e ▸ rfl)⟩,
        fun e => h2 r (e ▸ rfl)⟩, fun e => h7 r (e ▸ rfl)⟩
    match hr : takeWord .bare (c :: r) with
    | .error e => simp [hr, Except.map] at h
    | .ok (w, rest') =>
      simp only [hr, Except.map, Except.ok.injEq, Prod.mk.injEq] at h
      exact h.2 ▸ length_takeWord_lt hw hr

/-- Reading a token that is not the end of the line takes at least one
character. -/
theorem length_next_lt {cs rest : List Char} {t : Token}
    (h : next cs = .ok (t, rest)) (ht : t ≠ .eof) : rest.length < cs.length :=
  Nat.lt_of_lt_of_le
    (length_nextAt_lt (fun _ _ hs => isBlank_head_skipBlank hs) h ht)
    (Text.length_skipBlank_le cs)

-- ======================================================== a whole line

/-- The tokens of a line up to its end or up to its first error, and
that error. -/
structure Scan where
  tokens : List Token
  failure : Option SyntaxError
  deriving DecidableEq, Repr, Inhabited

/-- Puts a token in front of a scan. -/
def Scan.push (t : Token) (s : Scan) : Scan := { s with tokens := t :: s.tokens }

/-- All tokens of a text. -/
def Scan.ofChars (cs : List Char) : Scan :=
  match _h : next cs with
  | .error e => ⟨[], some e⟩
  | .ok (t, rest) =>
      if _ht : t = .eof then ⟨[], none⟩
      else (Scan.ofChars rest).push t
termination_by cs.length
decreasing_by exact length_next_lt _h _ht

/-- All tokens of a line. -/
def Scan.ofLine (line : String) : Scan := Scan.ofChars line.toList

end LineShell.Token
