/-
Readings make progress.

# One reading

A reading that does not come to the end of the text, be it a token or a
failure, takes a character that is no blank (`read_cases`). The reader of a
word takes nothing at a blank and at each of `;<>|&`, so this rests on what
comes before it: the blanks are skipped, and `nextAt` has a token for each of
the others. What it leaves to the reader of words begins with a character that
the word takes.

# All readings

The text gets shorter with each such reading, so there are no more of them
than it has characters. Behind them comes the end of the text for ever
(`exists_end`).
-/
import LineShell.Proofs.Grammar.Open

namespace LineShell.Token

open Text (isBlank skipBlank)

variable {cs rest : List Char}

/-- The text is some characters, not all of them blanks, and then this rest. -/
def Consumes (cs rest : List Char) : Prop :=
  ∃ taken, cs = taken ++ rest ∧ ∃ c ∈ taken, isBlank c = false

theorem Consumes.suffix (h : Consumes cs rest) : rest <:+ cs := by
  obtain ⟨taken, heq, -⟩ := h
  exact ⟨taken, heq.symm⟩

theorem Consumes.length_lt (h : Consumes cs rest) : rest.length < cs.length := by
  obtain ⟨taken, rfl, c, hc, -⟩ := h
  have hpos : 0 < taken.length := List.length_pos_of_mem hc
  rw [List.length_append]
  omega

theorem Consumes.not_blank (h : Consumes cs rest) : ¬ ∀ c ∈ cs, isBlank c = true := by
  obtain ⟨taken, rfl, c, hc, hsolid⟩ := h
  intro hall
  have hblank : isBlank c = true := hall c (List.mem_append_left rest hc)
  rw [hsolid] at hblank
  cases hblank

/-- What takes the first character behind the blanks takes one that is no blank. -/
theorem consumes_of_skipBlank {c : Char} {ds : List Char} (h : skipBlank cs = c :: ds)
    (hrest : rest <:+ ds) : Consumes cs rest := by
  obtain ⟨us, rfl⟩ := hrest
  have hcs : cs = cs.takeWhile isBlank ++ (c :: (us ++ rest)) := by
    rw [← h]
    exact (List.takeWhile_append_dropWhile).symm
  refine ⟨cs.takeWhile isBlank ++ c :: us, ?_, c, by simp, isBlank_head_skipBlank h⟩
  rw [List.append_assoc, List.cons_append]
  exact hcs

-- =============================================================== one reading

/-- A token leaves over less than the text behind the blanks. -/
theorem suffix_of_next {c : Char} {ds : List Char} {t : Token} (hskip : skipBlank cs = c :: ds)
    (hnext : next cs = .ok (t, rest)) (ht : t ≠ .eof) : rest <:+ ds := by
  unfold next at hnext
  rw [hskip] at hnext
  have hsolid : ∀ d r, c :: ds = d :: r → isBlank d = false := by
    intro d r heq
    exact isBlank_head_skipBlank (hskip.trans heq)
  have hlt : rest.length < (c :: ds).length := length_nextAt_lt hsolid hnext ht
  rcases List.suffix_cons_iff.mp (takes_nextAt hnext).suffix with rfl | hsuffix
  · omega
  · exact hsuffix

/-- A reading comes to the end of a text that has nothing but blanks, or to
something else and takes a character that is none. -/
theorem read_cases (cs : List Char) :
    ((∀ c ∈ cs, isBlank c = true) ∧ read cs = (.ok .eof, [])) ∨
      ((read cs).1 ≠ .ok .eof ∧ Consumes cs (read cs).2) := by
  cases hskip : skipBlank cs with
  | nil => exact .inl ⟨List.dropWhile_eq_nil_iff.mp hskip, read_of_skipBlank_eq_nil hskip⟩
  | cons c ds =>
      right
      cases hnext : next cs with
      | error e =>
          -- the word that fails has taken all there was
          rw [read_of_next_eq_error hnext]
          exact ⟨nofun, consumes_of_skipBlank hskip List.nil_suffix⟩
      | ok r =>
          obtain ⟨t, rest⟩ := r
          have ht : t ≠ .eof := by
            rintro rfl
            rw [skipBlank_eq_nil_of_next hnext] at hskip
            cases hskip
          rw [read_of_next_eq_ok hnext]
          refine ⟨?_, consumes_of_skipBlank hskip (suffix_of_next hskip hnext ht)⟩
          intro heof
          exact ht (Except.ok.inj heof)

theorem read_suffix (cs : List Char) : (read cs).2 <:+ cs := by
  rcases read_cases cs with ⟨-, hread⟩ | ⟨-, htakes⟩
  · rw [hread]
    exact List.nil_suffix
  · exact htakes.suffix

-- ============================================================== all readings

/-- The readings that come to something are the first ones, and they are no
more than the characters of the text. -/
theorem exists_end (cs : List Char) : ∃ n ≤ cs.length,
    (∀ i < n, answer cs i ≠ .ok .eof) ∧ ∀ i, n ≤ i → answer cs i = .ok .eof := by
  induction hlen : cs.length using Nat.strong_induction_on generalizing cs with
  | _ len ih =>
      rcases read_cases cs with ⟨-, hread⟩ | ⟨hne, htakes⟩
      · refine ⟨0, Nat.zero_le len, fun i hi => absurd hi (Nat.not_lt_zero i), fun i _ => ?_⟩
        cases i with
        | zero => rw [answer_zero, hread]
        | succ i => rw [answer_succ, hread]; exact answer_nil i
      · have hlt : (read cs).2.length < len := hlen ▸ htakes.length_lt
        obtain ⟨n, hn, hbefore, hbehind⟩ := ih _ hlt (read cs).2 rfl
        refine ⟨n + 1, by omega, fun i hi => ?_, fun i hi => ?_⟩
        · cases i with
          | zero => rw [answer_zero]; exact hne
          | succ i => rw [answer_succ]; exact hbefore i (by omega)
        · cases i with
          | zero => omega
          | succ i => rw [answer_succ]; exact hbehind i (by omega)

/-- A reading comes to the end of the text if and only if only blanks are
left. Otherwise, be it a token or a failure, it takes a character that is no
blank. What it leaves over is a suffix of the text. So reading on, one comes
to the end after no more tokens and failures than there are characters, and
stays there. -/
theorem readings_progress (cs : List Char) :
    ((read cs).1 = .ok .eof ↔ ∀ c ∈ cs, isBlank c = true) ∧
    ((read cs).1 ≠ .ok .eof → Consumes cs (read cs).2) ∧
    (read cs).2 <:+ cs ∧
    ∃ n ≤ cs.length,
      (∀ i < n, answer cs i ≠ .ok .eof) ∧ ∀ i, n ≤ i → answer cs i = .ok .eof := by
  refine ⟨?_, ?_, read_suffix cs, exists_end cs⟩
  · rcases read_cases cs with ⟨hblank, hread⟩ | ⟨hne, htakes⟩
    · exact iff_of_true (by rw [hread]) hblank
    · exact iff_of_false hne htakes.not_blank
  · intro hne
    rcases read_cases cs with ⟨-, hread⟩ | ⟨-, htakes⟩
    · exact absurd (by rw [hread]) hne
    · exact htakes

/-- The `2` that no `>` follows at once begins a word, an operator ends it, and
the quote that stays open is one reading of its own. -/
theorem readings_progress_two :
    Consumes "2 >&\t'b ".toList " >&\t'b ".toList ∧
      answer "2 >&\t'b ".toList 3 = .error (.unterminated '\x27') ∧
      ∀ i, 4 ≤ i → answer "2 >&\t'b ".toList i = .ok .eof := by
  have hread : (read "2 >&\t'b ".toList).2 = " >&\t'b ".toList := by decide +kernel
  have hquote : answer "2 >&\t'b ".toList 3 = .error (.unterminated '\x27') := by decide +kernel
  have hend : answer "2 >&\t'b ".toList 4 = .ok .eof := by decide +kernel
  obtain ⟨-, htakes, -, n, -, hbefore, hbehind⟩ := readings_progress "2 >&\t'b ".toList
  refine ⟨hread ▸ htakes (by decide +kernel), hquote, fun i hi => hbehind i ?_⟩
  have hn : n ≤ 4 := by
    by_contra hlt
    exact hbefore 4 (by omega) hend
  omega

end LineShell.Token
