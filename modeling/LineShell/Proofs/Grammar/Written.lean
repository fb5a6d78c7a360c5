/-
Writing trees, and reading back what was written.

A tree is written in infix order with one space between tokens. Words are
put in single quotes, which keep every character but the quote itself; so
that one stands outside, behind a backslash (`Token.quote`). The
redirections of a command stand after its words.

# Scanning

Each written token is scanned back if nothing follows that it would go on
with (`next_written`). Before a space no token goes on; without it `2>`
could go on to be `2>>`, and a word would go on. So a written list of tokens
is scanned as that list (`scan_line`), whatever the words are.

# Parsing

The tokens of a tree spell it (`spelledBy_tokens`), and a shaped tree is
the one that its spelling is read as.
-/
import LineShell.Proofs.Grammar.Reader

namespace LineShell

open Token (Scan)

namespace Token

-- =================================================================== tokens

/-- A character between single quotes; the quote itself closes them, and
they open again behind it. -/
def quotedChar (c : Char) : List Char :=
  if c = '\x27' then ['\x27', '\\', '\x27', '\x27'] else [c]

/-- A text in single quotes. -/
def quote (text : String) : String :=
  String.ofList ('\x27' :: text.toList.flatMap quotedChar ++ ['\x27'])

/-- How a token is written. -/
def written : Token → String
  | word text => quote text
  | pipe => "|"
  | or => "||"
  | and => "&&"
  | background => "&"
  | semi => ";"
  | redirect .input => "<"
  | redirect .output => ">"
  | redirect .append => ">>"
  | redirect .error => "2>"
  | redirect .errorAppend => "2>>"
  | redirect .both => "&>"
  | redirect .bothAppend => "&>>"
  | eof => ""

/-- Tokens with a space between them. -/
def line (ts : List Token) : String := " ".intercalate (ts.map written)

-- ================================================================= scanning

/-- Does the token go on if the character follows it? -/
def goesOn : Token → Char → Bool
  | word _, c => !endsWord c
  | pipe, c => c = '|'
  | background, c => c = '&' || c = '>'
  | redirect .output, c | redirect .error, c | redirect .both, c => c = '>'
  | _, _ => false

/-- The token ends where the text begins. -/
def EndsBefore (t : Token) (cs : List Char) : Prop := ∀ c r, cs = c :: r → t.goesOn c = false

theorem endsBefore_nil (t : Token) : t.EndsBefore [] := nofun

/-- No token goes on with a space. -/
theorem endsBefore_space (t : Token) (cs : List Char) : t.EndsBefore (' ' :: cs) := by
  rintro c r ⟨⟩
  cases t with
  | word text => exact (rfl : (!endsWord ' ') = false)
  | redirect op => cases op <;> rfl
  | pipe | or | and | background | semi | eof => rfl

theorem EndsBefore.not_begun {t : Token} {cs : List Char} (h : t.EndsBefore cs) {c : Char}
    (hc : t.goesOn c = true) : ∀ r, cs = c :: r → False := fun r heq =>
  Bool.false_ne_true ((h c r heq).symm.trans hc)

/-- No word goes on with the text. -/
def Closing (cs : List Char) : Prop := ∀ c r, cs = c :: r → endsWord c = true

theorem EndsBefore.closing {text : String} {cs : List Char} (h : (word text).EndsBefore cs) :
    Closing cs := fun c r heq => by
  simpa [goesOn] using h c r heq

theorem takeWord_bare_of_closing {cs : List Char} (h : Closing cs) :
    takeWord .bare cs = .ok ([], cs) := by
  cases cs with
  | nil => rfl
  | cons c r =>
      rw [takeWord.eq_def]
      exact if_pos (h c r rfl)

theorem takeWord_bare_quote (cs : List Char) :
    takeWord .bare ('\x27' :: cs) = takeWord .single cs := by
  have hword : endsWord '\x27' = false := by decide
  rw [takeWord.eq_def]
  simp [hword]

theorem takeWord_bare_backslash (c : Char) (cs : List Char) :
    takeWord .bare ('\\' :: c :: cs) = consWord c (takeWord .bare cs) := by
  rfl

theorem takeWord_single_quote (cs : List Char) :
    takeWord .single ('\x27' :: cs) = takeWord .bare cs := by
  rfl

theorem takeWord_single_cons {c : Char} (cs : List Char) (h : c ≠ '\x27') :
    takeWord .single (c :: cs) = consWord c (takeWord .single cs) := by
  rw [takeWord, if_neg h]

/-- Between the quotes, each character is read as itself. -/
theorem takeWord_single_quoted (cs : List Char) {rest w r : List Char}
    (h : takeWord .bare rest = .ok (w, r)) :
    takeWord .single (cs.flatMap quotedChar ++ '\x27' :: rest) = .ok (cs ++ w, r) := by
  induction cs with
  | nil =>
      rw [List.flatMap_nil, List.nil_append, takeWord_single_quote]
      exact h
  | cons c cs ih =>
      rw [List.flatMap_cons, List.append_assoc, quotedChar]
      split
      · next hc =>
        -- out of the quotes, the quote behind its backslash, and in again
        subst hc
        show takeWord .single ('\x27' :: '\\' :: '\x27' :: '\x27' ::
          (cs.flatMap quotedChar ++ '\x27' :: rest)) = _
        rw [takeWord_single_quote, takeWord_bare_backslash, takeWord_bare_quote, ih]
        rfl
      · next hc =>
        rw [List.singleton_append, takeWord_single_cons _ hc, ih]
        rfl

theorem toList_quote (text : String) :
    (quote text).toList = '\x27' :: (text.toList.flatMap quotedChar ++ ['\x27']) := by
  rw [quote, String.toList_ofList]
  rfl

/-- No blank is skipped in front of a written token. -/
theorem next_eq_nextAt {c : Char} {cs : List Char} (h : Text.isBlank c = false) :
    next (c :: cs) = nextAt (c :: cs) := by
  rw [next, Text.skipBlank, List.dropWhile_cons_of_neg]
  rw [h]
  exact Bool.false_ne_true

/-- A quoted text is read as a word, with what the word goes on with. -/
theorem next_quote (text : String) {rest w r : List Char} (h : takeWord .bare rest = .ok (w, r)) :
    next ((quote text).toList ++ rest) = .ok (.word (text ++ String.ofList w), r) := by
  have hword : ∀ cs, nextAt ('\x27' :: cs) = (takeWord .bare ('\x27' :: cs)).map
      fun read => (.word (String.ofList read.1), read.2) := fun cs => rfl
  rw [toList_quote, List.cons_append, List.append_assoc, next_eq_nextAt (by decide), hword,
    takeWord_bare_quote]
  show Except.map _ (takeWord .single (text.toList.flatMap quotedChar ++ '\x27' :: rest)) = _
  rw [takeWord_single_quoted _ h]
  show Except.ok (word (String.ofList (text.toList ++ w)), r) = _
  rw [String.ofList_append, String.ofList_toList]

/-- Every token but the end of the line is scanned back. -/
theorem next_written {t : Token} {rest : List Char} (ht : t ≠ .eof) (h : t.EndsBefore rest) :
    next (t.written.toList ++ rest) = .ok (t, rest) := by
  cases t with
  | word text =>
      show next ((quote text).toList ++ rest) = _
      rw [next_quote text (takeWord_bare_of_closing h.closing)]
      show Except.ok (word (text ++ ""), rest) = _
      rw [String.append_empty]
  | eof => exact absurd rfl ht
  | pipe => exact (next_eq_nextAt (by decide)).trans (nextAt.eq_3 _ (h.not_begun rfl))
  | background =>
      refine (next_eq_nextAt (by decide)).trans (nextAt.eq_8 _ (h.not_begun rfl) ?_ (h.not_begun rfl))
      exact fun r heq => h.not_begun rfl _ heq
  | or | and | semi => exact next_eq_nextAt (by decide)
  | redirect op =>
      cases op with
      | input | append | errorAppend | bothAppend => exact next_eq_nextAt (by decide)
      | output => exact (next_eq_nextAt (by decide)).trans (nextAt.eq_11 _ (h.not_begun rfl))
      | error => exact (next_eq_nextAt (by decide)).trans (nextAt.eq_13 _ (h.not_begun rfl))
      | both => exact (next_eq_nextAt (by decide)).trans (nextAt.eq_7 _ (h.not_begun rfl))

/-- The space between tokens is skipped. -/
theorem next_space (cs : List Char) : next (' ' :: cs) = next cs := by
  rw [next, Text.skipBlank, List.dropWhile_cons_of_pos (by decide)]
  rfl

/-- The scan of a text is its first token and the scan of what follows. -/
theorem ofChars_eq (cs : List Char) : Scan.ofChars cs =
    match next cs with
    | .error e => ⟨[], some e⟩
    | .ok (t, rest) => if t = .eof then ⟨[], none⟩ else (Scan.ofChars rest).push t := by
  rw [Scan.ofChars.eq_def]
  split
  · next e he => rw [he]
  · next t rest hnext =>
    rw [hnext]
    rfl

theorem ofChars_of_next {cs rest : List Char} {t : Token} (h : next cs = .ok (t, rest))
    (ht : t ≠ .eof) : Scan.ofChars cs = (Scan.ofChars rest).push t := by
  rw [ofChars_eq, h]
  exact if_neg ht

theorem line_cons {t : Token} {ts : List Token} (h : ts ≠ []) :
    (line (t :: ts)).toList = t.written.toList ++ ' ' :: (line ts).toList := by
  have hne : ts.map written ≠ [] := fun hnil => h (List.map_eq_nil_iff.mp hnil)
  rw [line, List.map_cons, String.intercalate_cons_of_ne_nil hne, String.toList_append,
    String.toList_append, List.append_assoc]
  rfl

/-- A written list of tokens is scanned as that list. -/
theorem scan_line {ts : List Token} (heof : Token.eof ∉ ts) :
    Scan.ofLine (line ts) = ⟨ts, none⟩ := by
  show Scan.ofChars (line ts).toList = ⟨ts, none⟩
  have hempty : Scan.ofChars [] = ⟨[], none⟩ := ofChars_eq []
  induction ts with
  | nil => exact hempty
  | cons t ts ih =>
      have ht : t ≠ .eof := fun ht => heof (ht ▸ List.mem_cons_self)
      by_cases hts : ts = []
      · subst hts
        have hline : (line [t]).toList = t.written.toList ++ [] := by
          rw [List.append_nil]
          exact congrArg String.toList String.intercalate_singleton
        rw [hline, ofChars_of_next (next_written ht (endsBefore_nil t)) ht, hempty]
        rfl
      · rw [line_cons hts, ofChars_of_next (next_written ht (endsBefore_space t _)) ht,
          ofChars_eq, next_space, ← ofChars_eq, ih fun hmem => heof (List.mem_cons_of_mem _ hmem)]
        rfl

end Token

-- ================================================================= commands

namespace Command

open LineShell.Parser (applyRedirect)

/-- The redirections of a command, at most one a stream. -/
def redirects (c : Command) : List (RedirectOp × String) :=
  c.input.toList.map (fun path => (.input, path)) ++
  c.output.toList.map (fun out => (if out.append then .append else .output, out.path)) ++
  c.error.toList.map (fun err => (if err.append then .errorAppend else .error, err.path))

/-- The words, and behind them the redirections. -/
def tokens (c : Command) : List Token :=
  c.argv.map .word ++ c.redirects.flatMap fun (op, path) => [.redirect op, .word path]

/-- From its words and its redirections a command comes back. -/
theorem foldl_redirects {c : Command} (h : c.Proper) :
    c.redirects.foldl applyRedirect (.ofWords c.argv) = c := by
  obtain ⟨verb, argv, input, output, error⟩ := c
  obtain rfl : verb = argv.head?.getD "" := h.verb
  rcases input with _ | input <;> rcases output with _ | ⟨output, _ | _⟩ <;>
    rcases error with _ | ⟨error, _ | _⟩ <;> rfl

theorem items?_redirects (rs : List (RedirectOp × String)) :
    Token.items? (rs.flatMap fun (op, path) => [.redirect op, .word path]) = some ([], rs) := by
  induction rs with
  | nil => rfl
  | cons r rs ih =>
      rw [List.flatMap_cons]
      show (Token.items? (rs.flatMap fun (op, path) => [.redirect op, .word path])).map _ = _
      rw [ih]
      rfl

theorem items?_words (words : List String) :
    Token.items? (words.map .word) = some (words, []) := by
  induction words with
  | nil => rfl
  | cons w words ih => rw [List.map_cons, Token.items?, ih]; rfl

/-- A proper command is spelled by its tokens. -/
theorem ofTokens?_tokens {c : Command} (h : c.Proper) : ofTokens? c.tokens = some c := by
  have hitems : Token.items? c.tokens = some (c.argv, c.redirects) := by
    rw [tokens, Token.items?_append (items?_words c.argv) (items?_redirects c.redirects),
      List.append_nil, List.nil_append]
  have hne : (c.argv, c.redirects) ≠ ([], []) := by
    intro hnil
    obtain ⟨hargv, hredirects⟩ := Prod.mk.inj hnil
    have hc := foldl_redirects h
    rw [hargv, hredirects] at hc
    have hnonempty := h.nonempty
    rw [← hc] at hnonempty
    simp [ofWords] at hnonempty
  rw [ofTokens?, hitems, Option.bind_some, ofItems?_of_ne hne]
  exact congrArg some (foldl_redirects h)

end Command

-- ==================================================================== trees

namespace Tree

/-- The tokens of a tree, in infix order. -/
def tokens : Tree → List Token
  | leaf c => c.tokens
  | node op l r => l.tokens ++ op.token :: r.tokens

/-- The line that a tree is written as. -/
def written (t : Tree) : String := Token.line t.tokens

theorem spelledBy_tokens {t : Tree} (h : t.Shaped) : t.SpelledBy t.tokens := by
  induction t with
  | leaf c => exact .leaf (Command.ofTokens?_tokens h)
  | node op l r ihl ihr =>
      obtain ⟨-, -, hl, hr⟩ := h
      exact .node (ihl hl) (ihr hr)

/-- No token of a spelling is the end of the line. -/
theorem SpelledBy.eof_notMem {t : Tree} {ts : List Token} (h : t.SpelledBy ts) :
    Token.eof ∉ ts := by
  induction h with
  | leaf hc =>
      intro hmem
      cases (Command.tokens_of_ofTokens? hc).2 _ hmem
  | @node op l r ls rs _ _ ihl ihr =>
      intro hmem
      rcases List.mem_append.mp hmem with hmem | hmem
      · exact ihl hmem
      · rcases List.mem_cons.mp hmem with hop | hmem
        · cases op <;> cases hop
        · exact ihr hmem

/-- Parsing undoes writing. -/
theorem parse_written {t : Tree} (h : t.Shaped) : Tree.parse t.written = .ok (some t) := by
  have hspelled := spelledBy_tokens h
  have hscan : Scan.ofLine t.written = ⟨t.tokens, none⟩ :=
    Token.scan_line hspelled.eof_notMem
  refine Tree.parse_eq_some_iff.mpr ⟨?_, t.tokens, hspelled, h, ?_⟩
  · rw [hscan]
  · rw [hscan]
    exact .inl rfl

/-- A quote, no character at all, an operator and a backslash in words, and
the digit of `2>` in front of one. -/
theorem parse_written_quotes :
    Tree.parse "'it'\\''s' '' < 'a\nb' | '\x00;' '2' > '|' 2>> '\\' && >> '\"é\"' & '2>'" =
      .ok (some
        (.node .parallel
          (.node .andThen
            (.node .pipe
              (.leaf ⟨"it's", ["it's", ""], some "a\nb", none, none⟩)
              (.leaf ⟨"\x00;", ["\x00;", "2"], none, some ⟨"|", false⟩, some ⟨"\\", true⟩⟩))
            (.leaf ⟨"", [], none, some ⟨"\"é\"", true⟩, none⟩))
          (.leaf ⟨"2>", ["2>"], none, none, none⟩))) := by
  have hshaped : Tree.Shaped
      (.node .parallel
        (.node .andThen
          (.node .pipe
            (.leaf ⟨"it's", ["it's", ""], some "a\nb", none, none⟩)
            (.leaf ⟨"\x00;", ["\x00;", "2"], none, some ⟨"|", false⟩, some ⟨"\\", true⟩⟩))
          (.leaf ⟨"", [], none, some ⟨"\"é\"", true⟩, none⟩))
        (.leaf ⟨"2>", ["2>"], none, none, none⟩)) := by
    decide
  have hparse := parse_written hshaped
  rw [show Tree.written _ =
    "'it'\\''s' '' < 'a\nb' | '\x00;' '2' > '|' 2>> '\\' && >> '\"é\"' & '2>'" by
      decide +kernel] at hparse
  exact hparse

end Tree

end LineShell
