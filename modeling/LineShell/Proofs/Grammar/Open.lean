/-
Lines with an open quote.

# The last word

An open quote stands in the last word of its line: behind the last character
that ends words and that no quote and no backslash protects. `LastWord` cuts
the line there. The text before the cut has its quotes closed, and each of its
words is followed by something that ends it, so none of its tokens goes on
behind the cut. Hence the line has the tokens of the text before the cut, and
then the error of its last word (`LastWord.ofChars`).

# Reading on

Read one by one, the tokens of a line come in their order, then its error if
it has one, and then the end of the line for ever (`answer_eq`): the word
that fails has taken all there was.
-/
import LineShell.Proofs.Grammar.Seam
import LineShell.Token.Reader

namespace LineShell.Token

open Text (isBlank skipBlank)

-- ============================================================ unbroken texts

/-- Does nothing end a word in the text, if it begins in this mode? -/
def Mode.unbroken : Mode → List Char → Bool
  | _, [] => true
  | m, c :: cs => !(m = plain && endsWord c) && (m.after c).unbroken cs

theorem Mode.unbroken_append (m : Mode) (cs ds : List Char) :
    m.unbroken (cs ++ ds) = (m.unbroken cs && (m.through cs).unbroken ds) := by
  induction cs generalizing m with
  | nil => rfl
  | cons c cs ih => rw [List.cons_append, unbroken, unbroken, ih, through_cons, Bool.and_assoc]

/-- A character that breaks nothing leaves it to the rest of the text. -/
theorem Mode.unbroken_cons {m : Mode} {c : Char} (h : (m = plain && endsWord c) = false)
    (cs : List Char) : m.unbroken (c :: cs) = (m.after c).unbroken cs := by
  rw [unbroken, h, Bool.not_false, Bool.true_and]

/-- A word takes the whole text if nothing in it ends words. -/
theorem eq_nil_iff_unbroken {q : Quoting} {cs w rest : List Char}
    (h : takeWord q cs = .ok (w, rest)) : rest = [] ↔ q.mode.unbroken cs = true := by
  fun_induction takeWord q cs generalizing w rest with
  | case1 => cases h; exact iff_of_true rfl rfl
  | case2 c cs hends =>
      cases h
      simp [Quoting.mode, Mode.unbroken, hends]
  | case3 cs hends ih | case4 cs hends hquote ih => exact ih h
  | case5 => cases h; exact iff_of_true rfl rfl
  | case6 hends _ _ d ds ih =>
      obtain ⟨v, hv, -⟩ := consWord_eq_ok.mp h
      exact ih hv
  | case7 c cs hends hsingle hdouble hback ih =>
      obtain ⟨v, hv, -⟩ := consWord_eq_ok.mp h
      rw [Quoting.mode, Mode.unbroken_cons (by simp [hends]),
        Mode.after_plain hsingle hdouble hback]
      exact ih hv
  | case8 | case11 | case13 => cases h
  | case9 cs ih | case12 cs ih => exact ih h
  | case10 c cs hsingle ih =>
      obtain ⟨v, hv, -⟩ := consWord_eq_ok.mp h
      rw [Quoting.mode, Mode.unbroken_cons rfl, Mode.after, if_neg hsingle]
      exact ih hv
  | case14 d ds _ ih =>
      obtain ⟨v, hv, -⟩ := consWord_eq_ok.mp h
      exact ih hv
  | case15 c cs hdouble hback ih =>
      obtain ⟨v, hv, -⟩ := consWord_eq_ok.mp h
      rw [Quoting.mode, Mode.unbroken_cons rfl, Mode.after, if_neg hdouble, if_neg hback]
      exact ih hv

theorem Mode.endsWord_of_unbroken {c : Char} {cs : List Char}
    (h : plain.unbroken (c :: cs) = true) : endsWord c = false := by
  simp only [unbroken, decide_true, Bool.true_and, Bool.and_eq_true, Bool.not_eq_true'] at h
  exact h.1

/-- A text that nothing breaks starts a word. -/
theorem startsWord_of_unbroken {cs : List Char} (hne : cs ≠ [])
    (h : Mode.plain.unbroken cs = true) : startsWord cs = true := by
  cases cs with
  | nil => exact absurd rfl hne
  | cons c cs =>
      have htwo : (c = '2' && cs.head? = some '>') = false := by
        refine Bool.eq_false_iff.mpr fun hc => ?_
        obtain ⟨rfl, hhead⟩ : c = '2' ∧ cs.head? = some '>' := by simpa using hc
        obtain ⟨r, rfl⟩ := List.head?_eq_some_iff.mp hhead
        exact absurd h (by simp [Mode.after, Mode.unbroken, endsWord])
      rw [startsWord, Mode.endsWord_of_unbroken h, htwo]
      rfl

-- =============================================================== last words

/-- The text is empty, or its last character ends words and is not protected. -/
def Ended (cs : List Char) : Prop :=
  cs = [] ∨ ∃ bs c, cs = bs ++ [c] ∧ Mode.plain.through bs = .plain ∧ endsWord c = true

/-- A line, cut before its last word. -/
structure LastWord (line before word : List Char) : Prop where
  eq : line = before ++ word
  ended : Ended before
  unbroken : Mode.plain.unbroken word = true

theorem Ended.through {cs : List Char} (h : Ended cs) : Mode.plain.through cs = .plain := by
  obtain rfl | ⟨bs, c, rfl, hbs, hc⟩ := h
  · rfl
  · rw [Mode.through_append, hbs]
    exact Mode.after_plain_of_endsWord hc

theorem Ended.not_unbroken {cs : List Char} (h : Ended cs) (hne : cs ≠ []) :
    Mode.plain.unbroken cs = false := by
  obtain rfl | ⟨bs, c, rfl, hbs, hc⟩ := h
  · exact absurd rfl hne
  · rw [Mode.unbroken_append, hbs]
    simp [Mode.unbroken, hc]

/-- What a token leaves over of an ended text is ended. -/
theorem Ended.of_takes {cs rest : List Char} (h : Ended cs) (htakes : Mode.plain.Takes cs rest) :
    Ended rest := by
  obtain rfl | ⟨bs, c, rfl, hbs, hc⟩ := h
  · exact .inl (List.suffix_nil.mp htakes.suffix)
  obtain ⟨taken, heq, htaken⟩ := htakes
  rcases List.eq_nil_or_concat rest with rfl | ⟨rs, d, rfl⟩
  · exact .inl rfl
  obtain ⟨rfl, rfl⟩ : bs = taken ++ rs ∧ c = d := by
    rw [List.concat_eq_append, ← List.append_assoc] at heq
    exact ⟨List.append_inj_left' heq rfl, (List.cons.inj (List.append_inj_right' heq rfl)).1⟩
  rcases htaken with htaken | ⟨hnil, -⟩
  · rw [Mode.through_append, htaken] at hbs
    exact .inr ⟨rs, c, List.concat_eq_append, hbs, hc⟩
  · exact absurd hnil (by simp)

/-- A word of an ended text leaves at least the character that ends the text. -/
theorem Ended.ne_nil_of_next {cs rest : List Char} {text : String} (h : Ended cs)
    (hnext : next cs = .ok (word text, rest)) : rest ≠ [] := by
  rintro rfl
  have hstart := startsWord_of_next hnext
  rw [next, nextAt_of_startsWord hstart] at hnext
  obtain ⟨w, hw, -⟩ := of_word_eq_ok hnext
  have hended : Ended (skipBlank cs) := h.of_takes (Mode.Takes.of_skipBlank (.refl _))
  have hbroken := hended.not_unbroken fun hnil => by rw [hnil] at hstart; cases hstart
  exact absurd ((eq_nil_iff_unbroken hw).mp rfl) (by rw [Quoting.mode, hbroken]; decide)

/-- A text that begins in some mode is unbroken, or is cut behind the last
character that breaks it. -/
theorem Mode.unbroken_or_cut (m : Mode) (cs : List Char) : m.unbroken cs = true ∨
    ∃ bs c word, cs = bs ++ c :: word ∧ m.through bs = plain ∧ endsWord c = true ∧
      plain.unbroken word = true := by
  induction cs generalizing m with
  | nil => exact .inl rfl
  | cons c cs ih =>
      rcases ih (m.after c) with hrest | ⟨bs, d, word, rfl, hbs, hd, hword⟩
      · cases hc : (m = plain && endsWord c) with
        | false => exact .inl ((unbroken_cons hc cs).trans hrest)
        | true =>
            obtain ⟨rfl, hends⟩ : m = plain ∧ endsWord c = true := by simpa using hc
            rw [after_plain_of_endsWord hends] at hrest
            exact .inr ⟨[], c, cs, rfl, rfl, hends, hrest⟩
      · exact .inr ⟨c :: bs, d, word, rfl, hbs, hd, hword⟩

theorem exists_lastWord (line : List Char) : ∃ before word, LastWord line before word := by
  rcases Mode.plain.unbroken_or_cut line with h | ⟨bs, c, word, rfl, hbs, hc, hword⟩
  · exact ⟨[], line, rfl, .inl rfl, h⟩
  · refine ⟨bs ++ [c], word, ?_, .inr ⟨bs, c, rfl, hbs, hc⟩, hword⟩
    rw [List.append_assoc]
    rfl

namespace LastWord

variable {line before word : List Char}

theorem through (h : LastWord line before word) :
    Mode.plain.through word = Mode.plain.through line := by
  rw [h.eq, Mode.through_append, h.ended.through]

theorem apart (h : LastWord line before word) : Apart word := by
  rintro c r rfl
  have hends := Mode.endsWord_of_unbroken h.unbroken
  refine ⟨?_, ?_, ?_⟩ <;> rintro rfl <;> exact absurd hends (by decide)

/-- The text before the cut has closed its quotes. -/
theorem failure_before (h : LastWord line before word) : (Scan.ofChars before).failure = none := by
  rw [failure_ofChars, h.ended.through]
  rfl

/-- A last word with an open quote is nothing but that failure. -/
theorem ofChars_word (h : LastWord line before word) {q : Char}
    (hq : (Mode.plain.through line).quote? = some q) :
    Scan.ofChars word = ⟨[], some (.unterminated q)⟩ := by
  have hfailure : (Scan.ofChars word).failure = some (.unterminated q) := by
    rw [failure_ofChars, h.through, hq]
    rfl
  have hne : word ≠ [] := by
    rintro rfl
    rw [← h.through] at hq
    cases hq
  cases hnext : next word with
  | error e =>
      rw [ofChars_eq, hnext] at hfailure ⊢
      exact congrArg (Scan.mk []) hfailure
  | ok r =>
      -- a word that is read takes all, and then its quotes are closed
      rw [next_of_startsWord (startsWord_of_unbroken hne h.unbroken)] at hnext
      obtain ⟨w, hw, -⟩ := of_word_eq_ok hnext
      have hquote := (takes_takeWord hw).quote?
      rw [(eq_nil_iff_unbroken hw).mpr h.unbroken, Quoting.mode, h.through, hq] at hquote
      cases hquote

/-- With a quote open, a line has the tokens that stand before its last word. -/
theorem ofChars (h : LastWord line before word) {q : Char}
    (hq : (Mode.plain.through line).quote? = some q) :
    Scan.ofChars line = ⟨(Scan.ofChars before).tokens, some (.unterminated q)⟩ := by
  have hstep {cs rest : List Char} {t : Token} (hended : Ended cs)
      (hnext : next cs = .ok (t, rest)) (ht : t ≠ .eof) :
      Ended rest ∧ next (cs ++ word) = .ok (t, rest ++ word) := by
    refine ⟨hended.of_takes (takes_next hnext), next_append hnext ht h.apart ?_⟩
    exact fun text htext hnil => absurd hnil (hended.ne_nil_of_next (htext ▸ hnext))
  rw [h.eq, ofChars_append_of_step Ended hstep h.failure_before h.ended, h.ofChars_word hq,
    List.append_nil]

/-- There is one cut only. -/
theorem unique (h : LastWord line before word) {before' word' : List Char}
    (h' : LastWord line before' word') : before' = before ∧ word' = word := by
  -- between two cuts stands a text that both ends in a break and is unbroken
  have hbetween : ∀ {bs as ws : List Char}, Ended bs → Ended (bs ++ as) →
      Mode.plain.unbroken (as ++ ws) = true → as = [] := by
    intro bs as ws hbs has hws
    by_contra hne
    have hended : Ended as := has.of_takes ⟨bs, rfl, .inl hbs.through⟩
    rw [Mode.unbroken_append, hended.not_unbroken hne] at hws
    cases hws
  obtain ⟨as, rfl, rfl⟩ | ⟨as, rfl, rfl⟩ := List.append_eq_append_iff.mp (h.eq.symm.trans h'.eq)
  · obtain rfl := hbetween h.ended h'.ended h.unbroken
    exact ⟨List.append_nil before, rfl⟩
  · obtain rfl := hbetween h'.ended h.ended h'.unbroken
    exact ⟨(List.append_nil before').symm, rfl⟩

end LastWord

-- ================================================================== readings

/-- A word leaves over what its reader does not take; a word that fails, nothing. -/
theorem afterWord_eq (q : Quoting) (cs : List Char) : afterWord q cs =
    match takeWord q cs with
    | .ok (_, rest) => rest
    | .error _ => [] := by
  have hcons : ∀ (c : Char) (read : Except SyntaxError (List Char × List Char)),
      (match consWord c read with | .ok (_, rest) => rest | .error _ => []) =
        match read with | .ok (_, rest) => rest | .error _ => [] := by
    rintro c (e | r) <;> rfl
  fun_induction takeWord q cs with
  | case1 | case5 | case8 | case11 | case13 => rfl
  | case2 c cs hends => rw [afterWord.eq_def]; exact if_pos hends
  | case3 cs hends ih => rw [← ih, afterWord.eq_def]; exact if_neg hends
  | case4 cs hends hquote ih =>
      rw [← ih, afterWord.eq_def]
      simp only [hends, hquote]
      rfl
  | case6 hends _ _ d ds ih => rw [hcons]; exact ih
  | case7 c cs hends hsingle hdouble hback ih =>
      rw [hcons, ← ih, afterWord.eq_def]
      simp only [hends, hsingle, hdouble, hback]
      rfl
  | case9 cs ih => exact ih
  | case10 c cs hsingle ih =>
      rw [hcons, ← ih]
      exact if_neg hsingle
  | case12 cs ih => rw [← ih, afterWord.eq_def]; exact if_pos rfl
  | case14 d ds _ ih => rw [hcons]; exact ih
  | case15 c cs hdouble hback ih =>
      rw [hcons, ← ih, afterWord.eq_def]
      simp only [hdouble, hback]
      rfl

theorem read_of_next_eq_ok {cs rest : List Char} {t : Token} (h : next cs = .ok (t, rest)) :
    read cs = (.ok t, rest) := by
  rw [read, h]

theorem read_of_next_eq_error {cs : List Char} {e : SyntaxError} (h : next cs = .error e) :
    read cs = (.error e, []) := by
  rw [read, h, afterWord_eq, takeWord_of_nextAt_eq_error h]

theorem read_of_skipBlank_eq_nil {cs : List Char} (h : skipBlank cs = []) :
    read cs = (.ok .eof, []) := by
  unfold read next
  rw [h]
  rfl

@[simp] theorem answer_zero (cs : List Char) : answer cs 0 = (read cs).1 := rfl

@[simp] theorem answer_succ (cs : List Char) (n : Nat) :
    answer cs (n + 1) = answer (read cs).2 n := rfl

/-- Where nothing is left, the end of the line is read for ever. -/
theorem answer_nil (n : Nat) : answer [] n = .ok .eof := by
  induction n with
  | zero => rfl
  | succ n ih => exact ih

/-- Readings give the tokens in their order, then the error if there is one,
and then the end of the line. -/
theorem answer_eq (cs : List Char) (n : Nat) : answer cs n =
    match (Scan.ofChars cs).tokens[n]? with
    | some t => .ok t
    | none =>
        if n = (Scan.ofChars cs).tokens.length then (Scan.ofChars cs).failure.elim (.ok .eof) .error
        else .ok .eof := by
  fun_induction Scan.ofChars cs generalizing n with
  | case1 cs e hnext =>
      cases n with
      | zero => rw [answer_zero, read_of_next_eq_error hnext]; rfl
      | succ n => rw [answer_succ, read_of_next_eq_error hnext]; exact answer_nil n
  | case2 cs rest hnext =>
      have hread : read cs = (.ok .eof, []) :=
        read_of_skipBlank_eq_nil (skipBlank_eq_nil_of_next hnext)
      cases n with
      | zero => rw [answer_zero, hread]; rfl
      | succ n => rw [answer_succ, hread]; exact answer_nil n
  | case3 cs t rest hnext ht ih =>
      cases n with
      | zero => rw [answer_zero, read_of_next_eq_ok hnext]; rfl
      | succ n =>
          rw [answer_succ, read_of_next_eq_ok hnext, ih n]
          simp [Scan.push]

variable {cs : List Char} {n : Nat}

theorem answer_of_lt (h : n < (Scan.ofChars cs).tokens.length) :
    answer cs n = .ok (Scan.ofChars cs).tokens[n] := by
  rw [answer_eq, List.getElem?_eq_getElem h]

theorem answer_of_gt (h : (Scan.ofChars cs).tokens.length < n) : answer cs n = .ok .eof := by
  rw [answer_eq, List.getElem?_eq_none h.le]
  exact if_neg h.ne'

theorem answer_length (cs : List Char) : answer cs (Scan.ofChars cs).tokens.length =
    (Scan.ofChars cs).failure.elim (.ok .eof) .error := by
  rw [answer_eq, List.getElem?_eq_none le_rfl]
  exact if_pos rfl

theorem answer_eq_error_iff {e : SyntaxError} : answer cs n = .error e ↔
    n = (Scan.ofChars cs).tokens.length ∧ (Scan.ofChars cs).failure = some e := by
  rcases lt_trichotomy n (Scan.ofChars cs).tokens.length with h | rfl | h
  · rw [answer_of_lt h]
    exact ⟨nofun, fun hn => absurd hn.1 h.ne⟩
  · rw [answer_length]
    cases (Scan.ofChars cs).failure with
    | none => exact ⟨nofun, nofun⟩
    | some e' => simp
  · rw [answer_of_gt h]
    exact ⟨nofun, fun hn => absurd hn.1 h.ne'⟩

-- =============================================================== open quotes

/-- Reading the tokens of a line meets an error if and only if the line ends
in quotes. The error names that quote, and after it comes the end of the line.
Before it come the tokens of the text before the last word, which are all that
this text has; and the open quote is in the last word. -/
theorem error_iff_open_quote (line : List Char) :
    ((∃ n e, answer line n = .error e) ↔
      Mode.plain.through line ∈ [Mode.single, .double, .doubleEscaped]) ∧
    ∀ n e, answer line n = .error e →
      (∃ q, (Mode.plain.through line).quote? = some q ∧
        e.message = "unterminated " ++ String.singleton q ++ " quote") ∧
      (∃! cut : List Char × List Char, LastWord line cut.1 cut.2) ∧
      (∀ before word, LastWord line before word →
        Mode.plain.through word = Mode.plain.through line ∧
        (∀ i < n, ∃ t ≠ .eof, answer line i = .ok t ∧ answer before i = .ok t) ∧
        answer before n = .ok .eof) ∧
      answer line (n + 1) = .ok .eof := by
  have hmode : ∀ m : Mode, m.quote? ≠ none ↔ m ∈ [Mode.single, .double, .doubleEscaped] := by
    rintro (_ | _ | _ | _ | _) <;> decide
  refine ⟨?_, fun n e h => ?_⟩
  · simp only [← hmode, answer_eq_error_iff, failure_ofChars, Option.map_eq_some_iff,
      Option.ne_none_iff_exists']
    exact ⟨fun ⟨_, _, _, q, hq, _⟩ => ⟨q, hq⟩, fun ⟨q, hq⟩ => ⟨_, _, rfl, q, hq, rfl⟩⟩
  obtain ⟨rfl, hfailure⟩ := answer_eq_error_iff.mp h
  obtain ⟨q, hq, rfl⟩ := Option.map_eq_some_iff.mp ((failure_ofChars line).symm.trans hfailure)
  refine ⟨⟨q, hq, rfl⟩, ?_, fun before word hlast => ?_, answer_of_gt (Nat.lt_succ_self _)⟩
  · obtain ⟨before, word, hlast⟩ := exists_lastWord line
    exact ⟨(before, word), hlast, fun cut hcut => Prod.ext_iff.mpr (hlast.unique hcut)⟩
  have htokens : (Scan.ofChars line).tokens = (Scan.ofChars before).tokens := by
    rw [hlast.ofChars hq]
  refine ⟨hlast.through, fun i hi => ⟨_, ?_, answer_of_lt hi, ?_⟩, ?_⟩
  · exact fun heof => eof_notMem_ofChars line (heof ▸ List.getElem_mem hi)
  · rw [answer_of_lt (htokens ▸ hi)]
    simp only [htokens]
  · rw [htokens, answer_length, hlast.failure_before]
    rfl

/-- The `2` before the escaped `>` belongs to a word, which the quote goes on
with; the word begins behind the blank that nothing protects. -/
theorem error_iff_open_quote_two :
    answer "a';'|b\\ c 2\\>\"d'".toList 3 = .error (.unterminated '"') ∧
      answer "a';'|b\\ c 2\\>\"d'".toList 4 = .ok .eof := by
  have h : answer "a';'|b\\ c 2\\>\"d'".toList 3 = .error (.unterminated '"') := by decide +kernel
  exact ⟨h, ((error_iff_open_quote _).2 3 _ h).2.2.2⟩

end LineShell.Token
