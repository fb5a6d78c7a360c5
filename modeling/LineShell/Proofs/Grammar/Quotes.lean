/-
The quotes of a line, character by character.

# What a token takes

`Mode` tells for each character whether it stands in quotes or behind a
backslash, and knows nothing of tokens. A token starts outside quotes, and
where it ends, its quotes are closed (`Mode.Takes`): only a backslash at the
very end of the text protects nothing. So the reader of words and `Mode` agree
at the end of every token, whatever stands in it.

# Where a line fails

A word can fail only in quotes that go to the end of the text. So a line fails
if and only if it ends in quotes, and names the quote it ends in
(`failure_ofChars`).
-/
import Mathlib.Data.List.TakeWhile
import LineShell.Proofs.Grammar.Written

namespace LineShell.Token

open Text (isBlank skipBlank)

-- =================================================================== quotes

/-- Where a character stands with respect to quotes and backslashes. -/
inductive Mode where
  | plain
  /-- Behind a backslash outside quotes. -/
  | escaped
  | single
  | double
  | doubleEscaped
  deriving DecidableEq, Repr

namespace Mode

/-- Where the next character stands. -/
def after : Mode → Char → Mode
  | plain, c =>
      if c = '\x27' then single else if c = '"' then double else if c = '\\' then escaped else plain
  | escaped, _ => plain
  | single, c => if c = '\x27' then plain else single
  | double, c => if c = '"' then plain else if c = '\\' then doubleEscaped else double
  | doubleEscaped, _ => double

/-- Where the end of a text stands, given where its beginning does. -/
def through (m : Mode) (cs : List Char) : Mode := cs.foldl after m

/-- The quote that has been opened and not closed. -/
def quote? : Mode → Option Char
  | plain | escaped => none
  | single => some '\x27'
  | double | doubleEscaped => some '"'

@[simp] theorem through_nil (m : Mode) : m.through [] = m := rfl

@[simp] theorem through_cons (m : Mode) (c : Char) (cs : List Char) :
    m.through (c :: cs) = (m.after c).through cs := rfl

theorem through_append (m : Mode) (cs ds : List Char) :
    m.through (cs ++ ds) = (m.through cs).through ds := List.foldl_append

/-- Other characters than quotes and backslashes leave it at that. -/
theorem after_plain {c : Char} (h : c ≠ '\x27') (h' : c ≠ '"') (h'' : c ≠ '\\') :
    plain.after c = plain := by
  rw [after, if_neg h, if_neg h', if_neg h'']

/-- What ends a word is no quote. -/
theorem after_plain_of_endsWord {c : Char} (h : endsWord c = true) : plain.after c = plain := by
  refine after_plain ?_ ?_ ?_ <;> rintro rfl <;> exact absurd h (by decide)

theorem through_skipBlank (cs : List Char) : plain.through (skipBlank cs) = plain.through cs := by
  induction cs with
  | nil => rfl
  | cons c cs ih =>
      by_cases hc : isBlank c = true
      · have hends : endsWord c = true := by simp [endsWord, hc]
        rw [skipBlank, List.dropWhile_cons_of_pos hc, through_cons, after_plain_of_endsWord hends]
        exact ih
      · rw [skipBlank, List.dropWhile_cons_of_neg hc]

/-- What is taken off a text closes its quotes; only the last character may be
a backslash that protects nothing. -/
def Takes (m : Mode) (cs rest : List Char) : Prop :=
  ∃ taken, cs = taken ++ rest ∧
    (m.through taken = plain ∨ rest = [] ∧ m.through taken = escaped)

variable {m : Mode} {c : Char} {cs rest : List Char}

theorem Takes.refl (cs : List Char) : plain.Takes cs cs := ⟨[], rfl, .inl rfl⟩

theorem Takes.cons {m' : Mode} (hm : m.after c = m') (h : m'.Takes cs rest) :
    m.Takes (c :: cs) rest := by
  obtain ⟨taken, rfl, hmode⟩ := h
  refine ⟨c :: taken, rfl, ?_⟩
  rwa [through_cons, hm]

theorem Takes.suffix (h : m.Takes cs rest) : rest <:+ cs := by
  obtain ⟨taken, rfl, -⟩ := h
  exact List.suffix_append taken rest

/-- The end of the text stands where that of the rest does. -/
theorem Takes.through (h : m.Takes cs rest) :
    m.through cs = plain.through rest ∨ rest = [] ∧ m.through cs = escaped := by
  obtain ⟨taken, rfl, hmode | ⟨rfl, hmode⟩⟩ := h
  · exact .inl (by rw [through_append, hmode])
  · exact .inr ⟨rfl, by rw [List.append_nil, hmode]⟩

theorem Takes.quote? (h : m.Takes cs rest) :
    (m.through cs).quote? = (plain.through rest).quote? := by
  rcases h.through with hmode | ⟨rfl, hmode⟩
  · rw [hmode]
  · rw [hmode]
    rfl

/-- A text that does not end in a backslash leaves none that does. -/
theorem Takes.not_escaped (h : m.Takes cs rest) (hend : m.through cs ≠ escaped) :
    plain.through rest ≠ escaped := by
  rcases h.through with hmode | ⟨-, hmode⟩
  · rwa [← hmode]
  · exact absurd hmode hend

end Mode

/-- The mode of a reader in the middle of a word. -/
def Quoting.mode : Quoting → Mode
  | bare => .plain
  | single => .single
  | double => .double

-- ==================================================================== words

theorem consWord_eq_error {c : Char} {read : Except SyntaxError (List Char × List Char)}
    {e : SyntaxError} : consWord c read = .error e ↔ read = .error e := by
  cases read with
  | error e' => exact ⟨fun h => (by cases h; rfl), fun h => (by cases h; rfl)⟩
  | ok r => exact ⟨nofun, nofun⟩

/-- A word closes its quotes. -/
theorem takes_takeWord {q : Quoting} {cs w rest : List Char} (h : takeWord q cs = .ok (w, rest)) :
    q.mode.Takes cs rest := by
  fun_induction takeWord q cs generalizing w rest with
  | case1 | case2 => cases h; exact .refl _
  | case3 cs hends ih | case4 cs hends hquote ih | case9 cs ih | case12 cs ih =>
      exact .cons rfl (ih h)
  | case5 => cases h; exact ⟨['\\'], rfl, .inr ⟨rfl, rfl⟩⟩
  | case6 _ _ _ _ _ ih | case14 _ _ _ ih =>
      obtain ⟨v, hv, -⟩ := consWord_eq_ok.mp h
      exact .cons rfl (.cons rfl (ih hv))
  | case7 c cs hends hsingle hdouble hback ih =>
      obtain ⟨v, hv, -⟩ := consWord_eq_ok.mp h
      exact .cons (Mode.after_plain hsingle hdouble hback) (ih hv)
  | case8 | case11 | case13 => cases h
  | case10 c cs hsingle ih =>
      obtain ⟨v, hv, -⟩ := consWord_eq_ok.mp h
      exact .cons (if_neg hsingle) (ih hv)
  | case15 c cs hdouble hback ih =>
      obtain ⟨v, hv, -⟩ := consWord_eq_ok.mp h
      exact .cons ((if_neg hdouble).trans (if_neg hback)) (ih hv)

/-- A word that fails is in quotes to the end of the text. -/
theorem quote?_of_takeWord {q : Quoting} {cs : List Char} {e : SyntaxError}
    (h : takeWord q cs = .error e) :
    some e = (q.mode.through cs).quote?.map SyntaxError.unterminated := by
  fun_induction takeWord q cs with
  | case1 | case2 | case5 => cases h
  | case3 cs hends ih | case4 cs hends hquote ih | case9 cs ih | case12 cs ih => exact ih h
  | case6 hends _ _ d ds ih => exact ih (consWord_eq_error.mp h)
  | case7 c cs hends hsingle hdouble hback ih =>
      rw [Quoting.mode, Mode.through_cons, Mode.after_plain hsingle hdouble hback]
      exact ih (consWord_eq_error.mp h)
  | case8 | case11 | case13 => cases h; rfl
  | case10 c cs hsingle ih =>
      rw [Quoting.mode, Mode.through_cons, Mode.after, if_neg hsingle]
      exact ih (consWord_eq_error.mp h)
  | case14 d ds _ ih => exact ih (consWord_eq_error.mp h)
  | case15 c cs hdouble hback ih =>
      rw [Quoting.mode, Mode.through_cons, Mode.after, if_neg hdouble, if_neg hback]
      exact ih (consWord_eq_error.mp h)

-- =================================================================== tokens

/-- What is known of a word that was read as a token. -/
theorem of_word_eq_ok {read : Except SyntaxError (List Char × List Char)} {t : Token}
    {rest : List Char}
    (h : read.map (fun (w, rest) => (word (String.ofList w), rest)) = .ok (t, rest)) :
    ∃ w, read = .ok (w, rest) ∧ t = word (String.ofList w) := by
  cases read with
  | error e => cases h
  | ok x => cases h; exact ⟨x.1, rfl, rfl⟩

/-- A token closes its quotes. -/
theorem takes_nextAt {cs rest : List Char} {t : Token} (h : nextAt cs = .ok (t, rest)) :
    Mode.plain.Takes cs rest := by
  rw [nextAt.eq_def] at h
  split at h
  case h_14 =>
    obtain ⟨w, hword, -⟩ := of_word_eq_ok h
    exact takes_takeWord hword
  case h_1 => cases h; exact .refl _
  case h_3 | h_4 | h_8 | h_9 | h_11 => cases h; exact .cons rfl (.refl _)
  case h_2 | h_5 | h_7 | h_10 | h_13 => cases h; exact .cons rfl (.cons rfl (.refl _))
  case h_6 | h_12 => cases h; exact .cons rfl (.cons rfl (.cons rfl (.refl _)))

/-- What is taken off behind the leading blanks is taken off with them. -/
theorem Mode.Takes.of_skipBlank {cs rest : List Char} (h : Mode.plain.Takes (skipBlank cs) rest) :
    Mode.plain.Takes cs rest := by
  induction cs with
  | nil => exact h
  | cons c cs ih =>
      by_cases hc : isBlank c = true
      · rw [skipBlank, List.dropWhile_cons_of_pos hc] at h
        exact .cons (Mode.after_plain_of_endsWord (by simp [endsWord, hc])) (ih h)
      · rwa [skipBlank, List.dropWhile_cons_of_neg hc] at h

/-- A token behind blanks closes its quotes too. -/
theorem takes_next {cs rest : List Char} {t : Token} (h : next cs = .ok (t, rest)) :
    Mode.plain.Takes cs rest :=
  (takes_nextAt h).of_skipBlank

theorem takeWord_of_nextAt_eq_error {cs : List Char} {e : SyntaxError} (h : nextAt cs = .error e) :
    takeWord .bare cs = .error e := by
  rw [nextAt.eq_def] at h
  split at h
  case h_14 =>
    cases hword : takeWord .bare cs with
    | error e' => rw [hword] at h; cases h; rfl
    | ok r => rw [hword] at h; cases h
  all_goals cases h

/-- The end of a text is read only where nothing but blanks is left. -/
theorem skipBlank_eq_nil_of_next {cs rest : List Char} (h : next cs = .ok (.eof, rest)) :
    skipBlank cs = [] := by
  rw [next, nextAt.eq_def] at h
  split at h
  case h_1 hnil => exact hnil
  case h_14 =>
    obtain ⟨w, -, hword⟩ := of_word_eq_ok h
    cases hword
  all_goals cases h

-- ==================================================================== lines

/-- A line fails if it ends in quotes, and because of these. -/
theorem failure_ofChars (cs : List Char) : (Scan.ofChars cs).failure =
    (Mode.plain.through cs).quote?.map SyntaxError.unterminated := by
  fun_induction Scan.ofChars cs with
  | case1 cs e hnext =>
      rw [← Mode.through_skipBlank]
      exact quote?_of_takeWord (takeWord_of_nextAt_eq_error hnext)
  | case2 cs rest hnext =>
      rw [← Mode.through_skipBlank, skipBlank_eq_nil_of_next hnext]
      rfl
  | case3 cs t rest hnext ht ih =>
      rw [(takes_next hnext).quote?]
      exact ih

end LineShell.Token
