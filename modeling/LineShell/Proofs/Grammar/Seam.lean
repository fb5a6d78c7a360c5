/-
Reading across the seam of two texts.

# What goes on

Whether a token goes on behind the end of a text is decided by the first
character that follows. Operators go on with `|`, `&` and `>` alone (`Apart`).
A word goes on with every character that does not end words (`Closing`), and
behind a last backslash with all of them. So what is added behind a token
leaves it as it is, if neither is the case (`next_append`).

# Separators

Behind a blank and behind a `;` there is nothing to go on with. A text that is
scanned without an error, and does not end in a backslash that protects
nothing, keeps its tokens if one of these follows, and the text behind it adds
its own tokens and its own error (`scan_separated`). That holds at all seams
whose left sides keep what matters from token to token
(`ofChars_append_of_step`).
-/
import LineShell.Proofs.Grammar.Quotes

namespace LineShell.Token

open Text (isBlank skipBlank)

-- ==================================================================== seams

/-- No operator goes on with the text. -/
def Apart (cs : List Char) : Prop := ∀ c r, cs = c :: r → c ≠ '|' ∧ c ≠ '&' ∧ c ≠ '>'

/-- The text is empty, or goes on with a blank or a `;`. -/
def Seamed (cs : List Char) : Prop := ∀ c r, cs = c :: r → isBlank c = true ∨ c = ';'

theorem Seamed.closing {cs : List Char} (h : Seamed cs) : Closing cs := by
  intro c r heq
  rcases h c r heq with hc | rfl
  · simp [endsWord, hc]
  · decide

theorem Seamed.apart {cs : List Char} (h : Seamed cs) : Apart cs := by
  intro c r heq
  refine ⟨?_, ?_, ?_⟩ <;>
  · rintro rfl
    rcases h _ r heq with hc | hc
    · exact absurd hc (by decide)
    · exact absurd hc (by decide)

/-- A text that an operator does not begin is not begun by it with more text
behind that no operator goes on with. -/
theorem Apart.not_begun {tail cs : List Char} (htail : Apart tail) (ds : List Char)
    (hds : ∀ d ∈ ds, d = '|' ∨ d = '&' ∨ d = '>') (h : ∀ r, cs = ds ++ r → False) :
    ∀ r, cs ++ tail = ds ++ r → False := by
  intro r heq
  rcases List.append_eq_append_iff.mp heq with ⟨as, hcs, htl⟩ | ⟨bs, hcs, -⟩
  · cases as with
    | nil => exact h [] (by rw [hcs, List.append_nil, List.append_nil])
    | cons a as =>
        obtain ⟨hpipe, hand, hgreater⟩ := htail a (as ++ r) htl
        rcases hds a (hcs ▸ List.mem_append_right _ List.mem_cons_self) with ha | ha | ha
        · exact hpipe ha
        · exact hand ha
        · exact hgreater ha
  · exact h bs hcs

-- ==================================================================== words

theorem takeWord_bare_doubleQuote (cs : List Char) :
    takeWord .bare ('"' :: cs) = takeWord .double cs := by
  have hword : endsWord '"' = false := by decide
  rw [takeWord.eq_def]
  simp [hword]

theorem takeWord_bare_cons {c : Char} (cs : List Char) (hends : endsWord c = false)
    (hsingle : c ≠ '\x27') (hdouble : c ≠ '"') (hback : c ≠ '\\') :
    takeWord .bare (c :: cs) = consWord c (takeWord .bare cs) := by
  rw [takeWord.eq_def]
  simp only [hends, hsingle, hdouble, hback]
  rfl

theorem takeWord_double_quote (cs : List Char) :
    takeWord .double ('"' :: cs) = takeWord .bare cs := by
  rw [takeWord.eq_def]
  exact if_pos rfl

theorem takeWord_double_cons {c : Char} (cs : List Char) (hdouble : c ≠ '"') (hback : c ≠ '\\') :
    takeWord .double (c :: cs) = consWord c (takeWord .double cs) := by
  rw [takeWord.eq_def]
  simp only [hdouble, hback]
  rfl

/-- A word stays the same, and leaves over what is added. -/
theorem takeWord_append {q : Quoting} {cs w rest tail : List Char}
    (h : takeWord q cs = .ok (w, rest))
    (htail : rest = [] → Closing tail ∧ q.mode.through cs ≠ .escaped) :
    takeWord q (cs ++ tail) = .ok (w, rest ++ tail) := by
  fun_induction takeWord q cs generalizing w rest with
  | case1 => cases h; exact takeWord_bare_of_closing (htail rfl).1
  | case2 c cs hends =>
      cases h
      rw [List.cons_append, takeWord.eq_def]
      exact if_pos hends
  | case3 cs hends ih =>
      rw [List.cons_append, takeWord_bare_quote]
      exact ih h htail
  | case4 cs hends hquote ih =>
      rw [List.cons_append, takeWord_bare_doubleQuote]
      exact ih h htail
  | case5 => cases h; exact absurd rfl (htail rfl).2
  | case6 hends _ _ d ds ih =>
      obtain ⟨v, hv, rfl⟩ := consWord_eq_ok.mp h
      rw [List.cons_append, List.cons_append, takeWord_bare_backslash, ih hv htail]
      rfl
  | case7 c cs hends hsingle hdouble hback ih =>
      obtain ⟨v, hv, rfl⟩ := consWord_eq_ok.mp h
      rw [Quoting.mode, Mode.through_cons, Mode.after_plain hsingle hdouble hback] at htail
      rw [List.cons_append,
        takeWord_bare_cons _ (Bool.eq_false_iff.mpr hends) hsingle hdouble hback, ih hv htail]
      rfl
  | case8 => cases h
  | case9 cs ih => exact ih h htail
  | case10 c cs hsingle ih =>
      obtain ⟨v, hv, rfl⟩ := consWord_eq_ok.mp h
      rw [Quoting.mode, Mode.through_cons, Mode.after, if_neg hsingle] at htail
      rw [List.cons_append, takeWord_single_cons _ hsingle, ih hv htail]
      rfl
  | case11 => cases h
  | case12 cs ih =>
      rw [List.cons_append, takeWord_double_quote]
      exact ih h htail
  | case13 => cases h
  | case14 d ds _ ih =>
      obtain ⟨v, hv, rfl⟩ := consWord_eq_ok.mp h
      show consWord d (takeWord .double (ds ++ tail)) = _
      rw [ih hv htail]
      rfl
  | case15 c cs hdouble hback ih =>
      obtain ⟨v, hv, rfl⟩ := consWord_eq_ok.mp h
      rw [Quoting.mode, Mode.through_cons, Mode.after, if_neg hdouble, if_neg hback] at htail
      rw [List.cons_append, takeWord_double_cons _ hdouble hback, ih hv htail]
      rfl

-- =================================================================== tokens

theorem isBlank_of_endsWord {c : Char} (h : endsWord c = false) : isBlank c = false := by
  simp only [endsWord, Bool.or_eq_false_iff] at h
  exact h.1.1.1.1.1

/-- Does a word start here? The digit of `2>` starts none. -/
def startsWord : List Char → Bool
  | [] => false
  | c :: cs => !endsWord c && !(c = '2' && cs.head? = some '>')

theorem nextAt_of_startsWord {cs : List Char} (h : startsWord cs = true) :
    nextAt cs = (takeWord .bare cs).map fun (w, rest) => (word (String.ofList w), rest) := by
  rw [nextAt.eq_def]
  split
  case h_14 => rfl
  all_goals simp [startsWord, endsWord] at h

theorem next_of_startsWord {cs : List Char} (h : startsWord cs = true) :
    next cs = (takeWord .bare cs).map fun (w, rest) => (word (String.ofList w), rest) := by
  cases cs with
  | nil => cases h
  | cons c cs =>
      simp only [startsWord, Bool.and_eq_true, Bool.not_eq_true'] at h
      rw [next_eq_nextAt (isBlank_of_endsWord h.1), nextAt_of_startsWord (by simp [startsWord, h])]

theorem startsWord_of_nextAt {cs rest : List Char} {text : String}
    (hblank : ∀ c r, cs = c :: r → isBlank c = false)
    (h : nextAt cs = .ok (word text, rest)) : startsWord cs = true := by
  rw [nextAt.eq_def] at h
  split at h
  case h_14 hnil hor hpipe hsemi hand hbothAppend hboth hbackground hinput happend houtput
      herrorAppend herror =>
    cases cs with
    | nil => exact absurd rfl hnil
    | cons c r =>
        have hends : endsWord c = false := by
          simp only [endsWord, hblank c r rfl, Bool.false_or, Bool.or_eq_false_iff,
            decide_eq_false_iff_not]
          exact ⟨⟨⟨⟨fun hc => hsemi r (hc ▸ rfl), fun hc => hinput r (hc ▸ rfl)⟩,
            fun hc => houtput r (hc ▸ rfl)⟩, fun hc => hpipe r (hc ▸ rfl)⟩,
            fun hc => hbackground r (hc ▸ rfl)⟩
        have htwo : (c = '2' && r.head? = some '>') = false := by
          refine Bool.eq_false_iff.mpr fun hc => ?_
          obtain ⟨rfl, hhead⟩ : c = '2' ∧ r.head? = some '>' := by simpa using hc
          obtain ⟨r', rfl⟩ := List.head?_eq_some_iff.mp hhead
          exact herror r' rfl
        rw [startsWord, hends, htwo]
        rfl
  all_goals cases h

/-- Where a word is read, it starts behind the blanks. -/
theorem startsWord_of_next {cs rest : List Char} {text : String}
    (h : next cs = .ok (word text, rest)) : startsWord (skipBlank cs) = true :=
  startsWord_of_nextAt (fun _ _ => isBlank_head_skipBlank) h

theorem startsWord_append {cs tail : List Char} (h : startsWord cs = true) (htail : Apart tail) :
    startsWord (cs ++ tail) = true := by
  cases cs with
  | nil => cases h
  | cons c r =>
      cases r with
      | cons d r => exact h
      | nil =>
          have hhead : tail.head? ≠ some '>' := by
            intro hhead
            obtain ⟨r, rfl⟩ := List.head?_eq_some_iff.mp hhead
            exact (htail '>' r rfl).2.2 rfl
          simp only [startsWord, List.cons_append, List.nil_append, Bool.and_eq_true,
            Bool.not_eq_true', decide_eq_false hhead, Bool.and_false] at h ⊢
          exact ⟨h.1, trivial⟩

/-- The first token stays the same, and leaves over what is added. -/
theorem nextAt_append {cs rest tail : List Char} {t : Token} (hne : cs ≠ [])
    (hblank : ∀ c r, cs = c :: r → isBlank c = false) (h : nextAt cs = .ok (t, rest))
    (htail : Apart tail)
    (hword : ∀ text, t = word text → rest = [] →
      Closing tail ∧ Mode.plain.through cs ≠ .escaped) :
    nextAt (cs ++ tail) = .ok (t, rest ++ tail) := by
  by_cases hstart : startsWord cs = true
  · rw [nextAt_of_startsWord hstart] at h
    obtain ⟨w, hw, rfl⟩ := of_word_eq_ok h
    rw [nextAt_of_startsWord (startsWord_append hstart htail), takeWord_append hw (hword _ rfl)]
    rfl
  have hread := h
  rw [nextAt.eq_def] at h
  split at h
  · exact absurd rfl hne
  · next cs => cases h; rfl
  · next cs hpipe =>
      cases h
      exact nextAt.eq_3 _ (htail.not_begun ['|'] (by simp) hpipe)
  · next cs => cases h; rfl
  · next cs => cases h; rfl
  · next cs => cases h; rfl
  · next cs happend =>
      cases h
      exact nextAt.eq_7 _ (htail.not_begun ['>'] (by simp) happend)
  · next cs hand happend hboth =>
      cases h
      exact nextAt.eq_8 _ (htail.not_begun ['&'] (by simp) hand)
        (htail.not_begun ['>', '>'] (by simp) happend) (htail.not_begun ['>'] (by simp) hboth)
  · next cs => cases h; rfl
  · next cs => cases h; rfl
  · next cs happend =>
      cases h
      exact nextAt.eq_11 _ (htail.not_begun ['>'] (by simp) happend)
  · next cs => cases h; rfl
  · next cs happend =>
      cases h
      exact nextAt.eq_13 _ (htail.not_begun ['>'] (by simp) happend)
  · obtain ⟨w, -, rfl⟩ := of_word_eq_ok h
    exact absurd (startsWord_of_nextAt hblank hread) hstart

theorem skipBlank_append (cs tail : List Char) : skipBlank (cs ++ tail) =
    if skipBlank cs = [] then skipBlank tail else skipBlank cs ++ tail := by
  rw [skipBlank, List.dropWhile_append]
  exact if_congr List.isEmpty_iff rfl rfl

theorem next_append {cs rest tail : List Char} {t : Token} (h : next cs = .ok (t, rest))
    (ht : t ≠ .eof) (htail : Apart tail)
    (hword : ∀ text, t = word text → rest = [] →
      Closing tail ∧ Mode.plain.through cs ≠ .escaped) :
    next (cs ++ tail) = .ok (t, rest ++ tail) := by
  have hne : skipBlank cs ≠ [] := by
    intro hnil
    rw [next, hnil] at h
    cases h
    exact ht rfl
  rw [next, skipBlank_append, if_neg hne]
  rw [← Mode.through_skipBlank] at hword
  exact nextAt_append hne (fun _ _ => isBlank_head_skipBlank) h htail hword

-- ==================================================================== scans

/-- Leading blanks make no token. -/
theorem ofChars_append_of_blank {cs : List Char} (h : skipBlank cs = []) (tail : List Char) :
    Scan.ofChars (cs ++ tail) = Scan.ofChars tail := by
  rw [ofChars_eq, next, skipBlank_append, if_pos h, ← next, ← ofChars_eq]

/-- What follows a text adds its own tokens, and its own error, if each token of
the text stays as it is, because of something that what it leaves over shares. -/
theorem ofChars_append_of_step (Fits : List Char → Prop) {tail : List Char}
    (hstep : ∀ {cs t rest}, Fits cs → next cs = .ok (t, rest) → t ≠ .eof →
      Fits rest ∧ next (cs ++ tail) = .ok (t, rest ++ tail))
    {cs : List Char} (h : (Scan.ofChars cs).failure = none) (hfits : Fits cs) :
    Scan.ofChars (cs ++ tail) =
      { Scan.ofChars tail with
        tokens := (Scan.ofChars cs).tokens ++ (Scan.ofChars tail).tokens } := by
  fun_induction Scan.ofChars cs with
  | case1 cs e hnext => cases h
  | case2 cs rest hnext =>
      rw [ofChars_append_of_blank (skipBlank_eq_nil_of_next hnext)]
      rfl
  | case3 cs t rest hnext ht ih =>
      obtain ⟨hfits, hnext'⟩ := hstep hfits hnext ht
      rw [ofChars_of_next hnext' ht, ih h hfits]
      rfl

/-- A text behind a seam adds its own tokens, and its own error. -/
theorem ofChars_append {cs tail : List Char} (h : (Scan.ofChars cs).failure = none)
    (hend : Mode.plain.through cs ≠ .escaped) (htail : Seamed tail) :
    Scan.ofChars (cs ++ tail) =
      { Scan.ofChars tail with
        tokens := (Scan.ofChars cs).tokens ++ (Scan.ofChars tail).tokens } := by
  refine ofChars_append_of_step (Mode.plain.through · ≠ .escaped)
    (fun hend hnext ht => ⟨(takes_next hnext).not_escaped hend, ?_⟩) h hend
  exact next_append hnext ht htail.apart fun _ _ _ => ⟨htail.closing, hend⟩

/-- So does a text behind a `;` and blanks on both sides of it, with the
token of the `;` before it. -/
theorem ofChars_append_semi {cs before after tail : List Char}
    (h : (Scan.ofChars cs).failure = none) (hend : Mode.plain.through cs ≠ .escaped)
    (hbefore : ∀ c ∈ before, isBlank c = true) (hafter : ∀ c ∈ after, isBlank c = true) :
    Scan.ofChars (cs ++ before ++ ';' :: (after ++ tail)) =
      { Scan.ofChars tail with
        tokens := (Scan.ofChars cs).tokens ++ .semi :: (Scan.ofChars tail).tokens } := by
  have hseam : Seamed (before ++ ';' :: (after ++ tail)) := by
    rintro c r heq
    cases before with
    | nil => exact .inr (List.cons.inj heq).1.symm
    | cons b bs => exact .inl (hbefore c ((List.cons.inj heq).1 ▸ List.mem_cons_self))
  have hsemi : Scan.ofChars (before ++ ';' :: (after ++ tail)) =
      (Scan.ofChars tail).push .semi := by
    have hnext : next (';' :: (after ++ tail)) = .ok (.semi, after ++ tail) := rfl
    rw [ofChars_append_of_blank (List.dropWhile_eq_nil_iff.mpr hbefore), ofChars_of_next hnext nofun,
      ofChars_append_of_blank (List.dropWhile_eq_nil_iff.mpr hafter)]
  rw [List.append_assoc, ofChars_append h hend hseam, hsemi]
  rfl

-- ============================================================ separators

/-- White space and `;` separate: where a line that has no error, and does not
end in a backslash that protects nothing, is followed by one of them, the text
behind it adds its own tokens and its own error, as if it stood alone. -/
theorem scan_separated {line : String} (hline : (Scan.ofLine line).failure = none)
    (hend : Mode.plain.through line.toList ≠ .escaped) (line' : String) :
    (∀ blanks : String, blanks ≠ "" → (∀ c ∈ blanks.toList, isBlank c = true) →
      Scan.ofLine (line ++ blanks ++ line') =
        { tokens := (Scan.ofLine line).tokens ++ (Scan.ofLine line').tokens,
          failure := (Scan.ofLine line').failure }) ∧
    Scan.ofLine (line ++ ";" ++ line') =
      { tokens := (Scan.ofLine line).tokens ++ .semi :: (Scan.ofLine line').tokens,
        failure := (Scan.ofLine line').failure } := by
  unfold Scan.ofLine at hline ⊢
  refine ⟨fun blanks hne hblanks => ?_, ?_⟩
  · have hseam : Seamed (blanks.toList ++ line'.toList) := by
      rintro c r heq
      obtain ⟨b, bs, hbs⟩ := List.exists_cons_of_ne_nil (mt String.toList_eq_nil_iff.mp hne)
      rw [hbs] at heq hblanks
      exact .inl (hblanks c ((List.cons.inj heq).1 ▸ List.mem_cons_self))
    rw [String.toList_append, String.toList_append, List.append_assoc,
      ofChars_append hline hend hseam,
      ofChars_append_of_blank (List.dropWhile_eq_nil_iff.mpr hblanks)]
  · have hsemi : Scan.ofChars (line.toList ++ [] ++ ';' :: ([] ++ line'.toList)) = _ :=
      ofChars_append_semi hline hend nofun nofun
    rw [List.append_nil, List.nil_append] at hsemi
    rw [String.toList_append, String.toList_append, List.append_assoc]
    exact hsemi

/-- A `2` that no `>` follows any more, an escaped backslash, a protected blank at
the end; and an open quote behind the separator. -/
theorem scan_separated_open_quote :
    (Scan.ofLine "a|2\\\\\\ ").failure = none ∧
      Scan.ofLine "a|2\\\\\\ \u3000>\"b" =
        ⟨[.word "a", .pipe, .word "2\\ ", .redirect .output], some (.unterminated '"')⟩ := by
  have hline : (Scan.ofLine "a|2\\\\\\ ").failure = none := by decide +kernel
  have hblank : ∀ c ∈ "\u3000".toList, isBlank c = true := by
    intro c hc
    obtain rfl : c = '\u3000' := List.mem_singleton.mp hc
    decide
  obtain ⟨hblanks, -⟩ := scan_separated hline (by decide +kernel) ">\"b"
  refine ⟨hline, (hblanks "\u3000" (by decide) hblank).trans ?_⟩
  decide +kernel

/-- Behind a last backslash a blank separates nothing. -/
example : Scan.ofLine ("a\\" ++ " " ++ "b") = ⟨[.word "a b"], none⟩ := by decide +kernel

end LineShell.Token
