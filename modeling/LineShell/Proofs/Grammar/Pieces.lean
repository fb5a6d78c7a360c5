/-
The ways to write a word.

A word is written as a row of pieces: characters that stand for themselves,
characters behind a backslash, and texts in single or double quotes
(`Piece`). The pieces can be mixed and may be empty; each adds what it stands
for, whatever stands behind it (`takeWord_piece`). So where something that
ends words follows, the row is read as one word, and what follows is left
over.

One row is read otherwise. The digit 2, written as it is and followed by a
`>` at once, belongs to the operator (`next_pieces`). With any quotes, and
even empty ones behind it, the 2 is a word.
-/
import LineShell.Proofs.Grammar.Seam

namespace LineShell.Token

-- =================================================================== pieces

/-- Does the character stand for itself outside quotes? -/
def isBare (c : Char) : Bool := !(endsWord c || c = '\x27' || c = '"' || c = '\\')

theorem endsWord_of_isBare {c : Char} (h : isBare c = true) : endsWord c = false := by
  simp only [isBare, Bool.not_eq_true', Bool.or_eq_false_iff] at h
  exact h.1.1.1

/-- What stands between double quotes: only behind a backslash may it be a
double quote or a backslash. -/
inductive Enclosed where
  | plain (c : Char) (h : c ≠ '"' ∧ c ≠ '\\')
  | escaped (c : Char)
  deriving DecidableEq

/-- One of the pieces that a word is written with. -/
inductive Piece where
  | bare (c : Char) (h : isBare c = true)
  | escaped (c : Char)
  | single (cs : List Char) (h : '\x27' ∉ cs)
  | double (es : List Enclosed)
  deriving DecidableEq

namespace Enclosed

/-- How the character is written. -/
def source : Enclosed → List Char
  | plain c _ => [c]
  | escaped c => ['\\', c]

/-- The character. -/
def value : Enclosed → Char
  | plain c _ | escaped c => c

end Enclosed

namespace Piece

/-- How the piece is written. -/
def source : Piece → List Char
  | bare c _ => [c]
  | escaped c => ['\\', c]
  | single cs _ => '\x27' :: cs ++ ['\x27']
  | double es => '"' :: es.flatMap Enclosed.source ++ ['"']

/-- What the piece stands for. -/
def value : Piece → List Char
  | bare c _ | escaped c => [c]
  | single cs _ => cs
  | double es => es.map Enclosed.value

/-- How a row of pieces is written. -/
def sourceOf (ps : List Piece) : List Char := ps.flatMap source

/-- The word that a row of pieces stands for. -/
def wordOf (ps : List Piece) : List Char := ps.flatMap value

@[simp] theorem sourceOf_cons (p : Piece) (ps : List Piece) :
    sourceOf (p :: ps) = p.source ++ sourceOf ps := rfl

@[simp] theorem wordOf_cons (p : Piece) (ps : List Piece) :
    wordOf (p :: ps) = p.value ++ wordOf ps := rfl

/-- Every word can be written: a backslash serves each character. -/
theorem exists_wordOf_eq (cs : List Char) : ∃ ps, wordOf ps = cs := by
  refine ⟨cs.map escaped, ?_⟩
  induction cs with
  | nil => rfl
  | cons c cs ih => rw [List.map_cons, wordOf_cons, ih]; rfl

end Piece

-- ================================================================== reading

theorem takeWord_of_isBare {c : Char} (h : isBare c = true) (cs : List Char) :
    takeWord .bare (c :: cs) = consWord c (takeWord .bare cs) := by
  simp only [isBare, Bool.not_eq_true', Bool.or_eq_false_iff, decide_eq_false_iff_not] at h
  obtain ⟨⟨⟨hends, hsingle⟩, hdouble⟩, hback⟩ := h
  exact takeWord_bare_cons cs hends hsingle hdouble hback

theorem takeWord_single_append {cs rest w r : List Char} (hcs : '\x27' ∉ cs)
    (h : takeWord .bare rest = .ok (w, r)) :
    takeWord .single (cs ++ '\x27' :: rest) = .ok (cs ++ w, r) := by
  induction cs with
  | nil => rw [List.nil_append, takeWord_single_quote]; exact h
  | cons c cs ih =>
      rw [List.cons_append, takeWord_single_cons _ (List.ne_of_not_mem_cons hcs).symm,
        ih (List.not_mem_of_not_mem_cons hcs)]
      rfl

theorem takeWord_double_append (es : List Enclosed) {rest w r : List Char}
    (h : takeWord .bare rest = .ok (w, r)) :
    takeWord .double (es.flatMap Enclosed.source ++ '"' :: rest) =
      .ok (es.map Enclosed.value ++ w, r) := by
  induction es with
  | nil => rw [List.flatMap_nil, List.nil_append, takeWord_double_quote]; exact h
  | cons e es ih =>
      rw [List.flatMap_cons, List.append_assoc]
      cases e with
      | plain c hc =>
          rw [Enclosed.source, List.singleton_append, takeWord_double_cons _ hc.1 hc.2, ih]
          rfl
      | escaped c =>
          show consWord c (takeWord .double (es.flatMap Enclosed.source ++ '"' :: rest)) = _
          rw [ih]
          rfl

/-- A piece adds what it stands for to the word that goes on behind it. -/
theorem takeWord_piece (p : Piece) {rest w r : List Char} (h : takeWord .bare rest = .ok (w, r)) :
    takeWord .bare (p.source ++ rest) = .ok (p.value ++ w, r) := by
  cases p with
  | bare c hc => rw [Piece.source, List.singleton_append, takeWord_of_isBare hc, h]; rfl
  | escaped c =>
      rw [Piece.source, List.cons_append, List.singleton_append, takeWord_bare_backslash, h]
      rfl
  | single cs hcs =>
      rw [Piece.source, List.cons_append, List.cons_append, List.append_assoc, takeWord_bare_quote]
      exact takeWord_single_append hcs h
  | double es =>
      rw [Piece.source, List.cons_append, List.cons_append, List.append_assoc,
        takeWord_bare_doubleQuote]
      exact takeWord_double_append es h

/-- A row of pieces is read to its end. -/
theorem takeWord_pieces (ps : List Piece) {rest : List Char} (hrest : Closing rest) :
    takeWord .bare (Piece.sourceOf ps ++ rest) = .ok (Piece.wordOf ps, rest) := by
  induction ps with
  | nil => exact takeWord_bare_of_closing hrest
  | cons p ps ih =>
      rw [Piece.sourceOf_cons, Piece.wordOf_cons, List.append_assoc]
      exact takeWord_piece p ih

-- =================================================================== starts

namespace Piece

/-- A piece begins with a character that does not end words. -/
theorem source_eq_cons (p : Piece) : ∃ c cs, p.source = c :: cs ∧ endsWord c = false := by
  cases p with
  | bare c hc => exact ⟨c, [], rfl, endsWord_of_isBare hc⟩
  | escaped c => exact ⟨_, _, rfl, by decide⟩
  | single cs hcs => exact ⟨_, _, rfl, by decide⟩
  | double es => exact ⟨_, _, rfl, by decide⟩

/-- A `>` behind a row of pieces is none of theirs. -/
theorem head?_sourceOf_append {ps : List Piece} {rest : List Char} :
    (sourceOf ps ++ rest).head? = some '>' ↔ sourceOf ps = [] ∧ rest.head? = some '>' := by
  cases ps with
  | nil => exact (and_iff_right rfl).symm
  | cons p ps =>
      obtain ⟨c, cs, hsource, hends⟩ := p.source_eq_cons
      rw [sourceOf_cons, hsource]
      refine iff_of_false (fun hhead => ?_) (fun h => List.cons_ne_nil _ _ h.1)
      obtain rfl : c = '>' := Option.some.inj hhead
      exact absurd hends (by decide)

/-- No blank begins a row of pieces. -/
theorem skipBlank_sourceOf_append {ps : List Piece} (hne : ps ≠ []) (rest : List Char) :
    Text.skipBlank (sourceOf ps ++ rest) = sourceOf ps ++ rest := by
  obtain ⟨p, ps, rfl⟩ := List.exists_cons_of_ne_nil hne
  obtain ⟨c, cs, hsource, hends⟩ := p.source_eq_cons
  rw [sourceOf_cons, hsource]
  exact List.dropWhile_cons_of_neg (by rw [isBlank_of_endsWord hends]; decide)

/-- A row of pieces starts a word, unless it is the digit of an operator. -/
theorem startsWord_sourceOf {ps : List Piece} (hne : ps ≠ []) (rest : List Char) :
    startsWord (sourceOf ps ++ rest) = true ↔ ¬ (sourceOf ps = ['2'] ∧ rest.head? = some '>') := by
  obtain ⟨p, ps, rfl⟩ := List.exists_cons_of_ne_nil hne
  cases p with
  | bare c hc =>
      have hstart : startsWord (sourceOf (bare c hc :: ps) ++ rest) =
          !(c = '2' && (sourceOf ps ++ rest).head? = some '>') := by
        show (!endsWord c && _) = _
        rw [endsWord_of_isBare hc]
        rfl
      rw [hstart, sourceOf_cons, source, List.singleton_append, List.cons.injEq]
      simp only [head?_sourceOf_append, Bool.not_eq_true', Bool.and_eq_false_iff,
        decide_eq_false_iff_not, not_and_or, or_assoc]
  | escaped c =>
      exact iff_of_true rfl fun h => absurd (List.cons.inj h.1).1 (by decide)
  | single cs hcs =>
      exact iff_of_true rfl fun h => absurd (List.cons.inj h.1).1 (by decide)
  | double es =>
      exact iff_of_true rfl fun h => absurd (List.cons.inj h.1).1 (by decide)

end Piece

-- ==================================================================== words

/-- However a word is written as a row of pieces, it is read as that word, and
what follows is left over, if that ends words; the only exception is a bare 2
before a `>`. -/
theorem next_pieces {ps : List Piece} (hne : ps ≠ []) {rest : List Char} (hrest : Closing rest) :
    next (Piece.sourceOf ps ++ rest) = .ok (.word (String.ofList (Piece.wordOf ps)), rest) ↔
      ¬ (Piece.sourceOf ps = ['2'] ∧ rest.head? = some '>') := by
  rw [← Piece.startsWord_sourceOf hne]
  refine ⟨fun h => ?_, fun h => ?_⟩
  · rw [← Piece.skipBlank_sourceOf_append hne]
    exact startsWord_of_next h
  · rw [next_of_startsWord h, takeWord_pieces ps hrest]
    rfl

/-- A 2 before empty quotes, behind it an escaped quote in quotes and an escaped
blank: the `>` is left over. -/
theorem next_pieces_two_quoted :
    next "2''\"a\\\"|\"\\ >f".toList = .ok (.word "2a\"| ", ">f".toList) := by
  have hclosing : Closing ">f".toList := by
    rintro c r heq
    obtain ⟨rfl, -⟩ := List.cons.inj heq
    decide
  let pieces : List Piece := [.bare '2' (by decide), .single [] (by decide),
    .double [.plain 'a' (by decide), .escaped '"', .plain '|' (by decide)], .escaped ' ']
  have hne : pieces ≠ [] := List.cons_ne_nil _ _
  exact (next_pieces hne hclosing).mpr (by decide)

end LineShell.Token
