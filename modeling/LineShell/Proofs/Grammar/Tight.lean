/-
Tokens written as tightly as they can be.

Of two written tokens the second begins with a character of its own kind
(`Token.leading`): a word with its quote, `2>` with the digit. The first one
goes on with that character only if the two are of the kinds that
`Token.needsSpace` lists (`needsSpace_eq`). There a space stands between
them, and nowhere else. The tokens come back all the same, since each of them
ends before what follows it (`scan_tight`).

None of these spaces can be spared: two tokens of such kinds, one directly
behind the other, are read as others (`scan_adjacent`).
-/
import LineShell.Proofs.Grammar.Written

namespace LineShell.Token

-- =================================================================== spaces

/-- Does a space stand between the tokens? -/
def needsSpace : Token → Token → Bool
  | word _, word _ => true
  | word _, redirect .error | word _, redirect .errorAppend => true
  | pipe, pipe | pipe, or => true
  | background, background | background, and => true
  | background, redirect .both | background, redirect .bothAppend => true
  | background, redirect .output | background, redirect .append => true
  | redirect .output, redirect .output | redirect .output, redirect .append => true
  | redirect .error, redirect .output | redirect .error, redirect .append => true
  | redirect .both, redirect .output | redirect .both, redirect .append => true
  | _, _ => false

/-- Tokens with the spaces that they need between them. -/
def tight : List Token → String
  | [] => ""
  | [t] => t.written
  | s :: t :: ts => s.written ++ (if s.needsSpace t then " " else "") ++ tight (t :: ts)

/-- The character that a written token begins with. -/
def leading : Token → Char
  | word _ => '\x27'
  | pipe | or => '|'
  | and | background | redirect .both | redirect .bothAppend => '&'
  | semi => ';'
  | redirect .input => '<'
  | redirect .output | redirect .append => '>'
  | redirect .error | redirect .errorAppend => '2'
  | eof => ' '

theorem exists_written_eq_cons {t : Token} (ht : t ≠ .eof) :
    ∃ cs, t.written.toList = t.leading :: cs := by
  cases t with
  | word text => exact ⟨_, toList_quote text⟩
  | redirect op => cases op <;> exact ⟨_, rfl⟩
  | pipe | or | and | background | semi => exact ⟨_, rfl⟩
  | eof => exact absurd rfl ht

/-- A space stands where the first token would go on with the second. -/
theorem needsSpace_eq (s t : Token) : s.needsSpace t = s.goesOn t.leading := by
  cases s with
  | word text =>
      -- only the quote and the digit do not end words
      cases t with
      | redirect op => cases op <;> rfl
      | word _ | pipe | or | and | background | semi | eof => rfl
  | redirect op =>
      cases t with
      | redirect op' => cases op <;> cases op' <;> rfl
      | word _ | pipe | or | and | background | semi | eof => cases op <;> rfl
  | pipe | or | and | background | semi | eof =>
      cases t with
      | redirect op => cases op <;> rfl
      | word _ | pipe | or | and | background | semi | eof => rfl

/-- Without need of a space, a token ends where the next one begins. -/
theorem endsBefore_written {s t : Token} (ht : t ≠ .eof) (h : s.needsSpace t = false)
    (cs : List Char) : s.EndsBefore (t.written.toList ++ cs) := by
  obtain ⟨ds, hds⟩ := exists_written_eq_cons ht
  intro c r heq
  rw [hds, List.cons_append] at heq
  rw [← (List.cons.inj heq).1, ← needsSpace_eq]
  exact h

-- ================================================================= scanning

/-- Behind the first token, a tight text goes on with the space that is needed,
and with the tokens that follow. -/
theorem tight_cons (s t : Token) (ts : List Token) : (tight (s :: t :: ts)).toList =
    s.written.toList ++ ((if s.needsSpace t then [' '] else []) ++ (tight (t :: ts)).toList) := by
  rw [tight, String.toList_append, String.toList_append, List.append_assoc]
  split <;> rfl

theorem exists_tight_eq (t : Token) (ts : List Token) :
    ∃ cs, (tight (t :: ts)).toList = t.written.toList ++ cs := by
  cases ts with
  | nil => exact ⟨[], (List.append_nil _).symm⟩
  | cons u us => exact ⟨_, tight_cons t u us⟩

/-- The space between tokens makes no token of its own. -/
theorem ofChars_needed (b : Bool) (cs : List Char) :
    Scan.ofChars ((if b then [' '] else []) ++ cs) = Scan.ofChars cs := by
  cases b with
  | false => rfl
  | true =>
      show Scan.ofChars (' ' :: cs) = _
      rw [ofChars_eq, next_space, ← ofChars_eq]

/-- Of a text that is scanned as these tokens, the first token read is the first
of them, and what is left is scanned as the others. -/
theorem of_ofChars_eq_cons {cs rest : List Char} {s x : Token} {ts : List Token}
    (hnext : next cs = .ok (x, rest)) (hx : x ≠ .eof) (h : Scan.ofChars cs = ⟨s :: ts, none⟩) :
    x = s ∧ Scan.ofChars rest = ⟨ts, none⟩ := by
  rw [ofChars_of_next hnext hx] at h
  obtain ⟨htokens, hfailure⟩ := Scan.mk.inj h
  obtain ⟨hhead, htail⟩ := List.cons.inj htokens
  refine ⟨hhead, ?_⟩
  rw [← htail, ← hfailure]

/-- A word that the digit of a `2>` follows at once takes it. -/
theorem next_quote_two (text : String) (cs : List Char) :
    next ((quote text).toList ++ '2' :: '>' :: cs) = .ok (word (text ++ "2"), '>' :: cs) := by
  refine next_quote (w := ['2']) text ?_
  rw [takeWord.eq_def]
  show consWord '2' (takeWord .bare ('>' :: cs)) = _
  rw [takeWord_bare_of_closing]
  · rfl
  · rintro c r ⟨⟩
    rfl

/-- Two tokens that need a space are not read back without one. -/
theorem scan_adjacent {s t : Token} (h : s.needsSpace t = true) :
    Scan.ofLine (s.written ++ t.written) ≠ ⟨[s, t], none⟩ := by
  have longer : ∀ text : String, word (text ++ "2") ≠ word text := by
    intro text heq
    have hlength := congrArg String.length (word.inj heq)
    rw [String.length_append] at hlength
    exact absurd hlength (by simp)
  intro hscan
  rw [Scan.ofLine, String.toList_append] at hscan
  revert h
  fun_cases needsSpace s t with
  | case1 text text' =>
      -- two words make one, so that the second is missing
      intro _
      have hnil : takeWord .bare [] = .ok ([], []) := rfl
      have hword : takeWord .bare (quote text').toList = .ok (text'.toList, []) := by
        rw [toList_quote, takeWord_bare_quote, takeWord_single_quoted _ hnil, List.append_nil]
      obtain ⟨-, hrest⟩ := of_ofChars_eq_cons (next_quote text hword) nofun hscan
      rw [ofChars_eq] at hrest
      cases hrest
  | case2 text =>
      exact fun _ => longer text (of_ofChars_eq_cons (next_quote_two text []) nofun hscan).1
  | case3 text =>
      exact fun _ => longer text (of_ofChars_eq_cons (next_quote_two text ['>']) nofun hscan).1
  | case18 => exact nofun
  -- two operators begin with a longer one
  | _ => exact fun _ => absurd hscan (by decide +kernel)

/-- Tokens are read back from their tight text, whatever their number and
whatever the words are; and each space in it is needed. -/
theorem scan_tight {ts : List Token} (heof : Token.eof ∉ ts) :
    Scan.ofLine (tight ts) = ⟨ts, none⟩ ∧
      ∀ s t, s.needsSpace t = true → Scan.ofLine (s.written ++ t.written) ≠ ⟨[s, t], none⟩ := by
  refine ⟨?_, fun s t h => scan_adjacent h⟩
  show Scan.ofChars (tight ts).toList = ⟨ts, none⟩
  have hempty : Scan.ofChars [] = ⟨[], none⟩ := ofChars_eq []
  induction ts with
  | nil => exact hempty
  | cons s ts ih =>
      have hs : s ≠ .eof := fun hs => heof (hs ▸ List.mem_cons_self)
      have hts : Token.eof ∉ ts := fun hmem => heof (List.mem_cons_of_mem _ hmem)
      cases ts with
      | nil =>
          have hnext := next_written hs (endsBefore_nil s)
          rw [List.append_nil] at hnext
          rw [tight, ofChars_of_next hnext hs, hempty]
          rfl
      | cons t ts =>
          have ht : t ≠ .eof := fun ht => hts (ht ▸ List.mem_cons_self)
          have hends : s.EndsBefore
              ((if s.needsSpace t then [' '] else []) ++ (tight (t :: ts)).toList) := by
            obtain ⟨cs, hcs⟩ := exists_tight_eq t ts
            cases hneeds : s.needsSpace t with
            | true => exact endsBefore_space s _
            | false =>
                rw [hcs]
                exact endsBefore_written ht hneeds cs
          rw [tight_cons, ofChars_of_next (next_written hs hends) hs, ofChars_needed, ih hts]
          rfl

/-- A word before `2>`, operators in a row that begin alike, and some that need
no space although they do. -/
theorem scan_tight_operators_in_a_row :
    Token.eof ∉ [word "it's", .redirect .error, .redirect .output, word "", .pipe, .or,
        .background, .redirect .bothAppend, .redirect .append, .and, .redirect .errorAppend,
        word "2", .or, .pipe, word "2", .semi] ∧
      Scan.ofLine "'it'\\''s' 2> >''| ||& &>>>>&&2>>'2'|||'2';" =
        ⟨[word "it's", .redirect .error, .redirect .output, word "", .pipe, .or,
          .background, .redirect .bothAppend, .redirect .append, .and, .redirect .errorAppend,
          word "2", .or, .pipe, word "2", .semi], none⟩ := by
  refine ⟨by decide, ?_⟩
  rw [← (scan_tight (by decide)).1]
  exact congrArg Scan.ofLine (by decide +kernel)

end LineShell.Token
