/-
A reader that is asked in any state: at any token, before any text.

# States

A request leaves the reader at some token, before what it has not read; so it
does when it fails, in the middle of whatever it was reading. All that a
function of the reader does to the state, it does by going on to the next
token (`advance_standingAt`), so each of them leaves a suffix of the text
(`Keeps`), and so does asking again and again (`asked_of_ofLine`).

# Errors

Each level of operators goes on for as long as one of its own operators
follows. Hence the commands side by side, above which is only `;`, end at `;`
or at the end of the line, and the sequence at the end of the line. No token
is left over, and of the four kinds of errors three remain.
-/
import LineShell.Proofs.Grammar.Asking
import LineShell.Proofs.Grammar.Progress

namespace LineShell.Parser

open Token (Scan)

variable {α β : Type} {p q : Parser} {e : SyntaxError} {t : Token} {cs : List Char}

-- ================================================================== states

/-- A reader at a token, before a text. -/
def standingAt (t : Token) (cs : List Char) : Parser := ⟨t, Scan.ofChars cs⟩

theorem standingAt_eq_before (t : Token) (cs : List Char) :
    standingAt t cs = before (Scan.ofChars cs).failure (t :: (Scan.ofChars cs).tokens) := rfl

/-- What is left when a reading comes to this result: a reader before a suffix of
the text. -/
inductive Leaves (cs : List Char) : EStateM.Result SyntaxError Parser α → Prop where
  | ok {a : α} {t : Token} {rest : List Char} (h : rest <:+ cs) :
      Leaves cs (.ok a (standingAt t rest))
  | error {e : SyntaxError} {t : Token} {rest : List Char} (h : rest <:+ cs) :
      Leaves cs (.error e (standingAt t rest))

theorem Leaves.mono {rest : List Char} {r : EStateM.Result SyntaxError Parser α}
    (h : Leaves rest r) (hsuffix : rest <:+ cs) : Leaves cs r := by
  cases h with
  | ok h => exact .ok (h.trans hsuffix)
  | error h => exact .error (h.trans hsuffix)

/-- In every state, the reading leaves a suffix of the text. -/
def Keeps (x : Read α) : Prop := ∀ t cs, Leaves cs (x (standingAt t cs))

theorem Keeps.bind {x : Read α} {g : α → Read β} (hx : Keeps x) (hg : ∀ a, Keeps (g a)) :
    Keeps (x >>= g) := by
  intro t cs
  have hleaves := hx t cs
  cases hread : x (standingAt t cs) with
  | ok a q =>
      rw [hread] at hleaves
      rw [bind_of_ok hread]
      cases hleaves with
      | ok h => exact (hg a _ _).mono h
  | error e q =>
      rw [hread] at hleaves
      rw [bind_of_error hread]
      cases hleaves with
      | error h => exact .error h

theorem keeps_pure (a : α) : Keeps (pure a : Read α) := fun _ cs => .ok (List.suffix_refl cs)

theorem keeps_throw (e : SyntaxError) : Keeps (throw e : Read α) :=
  fun _ cs => .error (List.suffix_refl cs)

theorem keeps_token : Keeps token := fun _ cs => .ok (List.suffix_refl cs)

theorem keeps_get : Keeps (get : Read Parser) := fun _ cs => .ok (List.suffix_refl cs)

/-- Going on is one reading of the text. If that fails, the token stays. -/
theorem advance_standingAt (t : Token) (cs : List Char) :
    advance (standingAt t cs) =
      match Token.read cs with
      | (.ok u, rest) => .ok () (standingAt u rest)
      | (.error e, rest) => .error e (standingAt t rest) := by
  have hempty : Scan.ofChars [] = ⟨[], none⟩ := Token.ofChars_eq []
  unfold standingAt
  cases hnext : Token.next cs with
  | error e =>
      rw [Token.read_of_next_eq_error hnext, Token.ofChars_eq, hnext]
      simp only [hempty]
      rfl
  | ok r =>
      obtain ⟨u, rest⟩ := r
      by_cases hu : u = .eof
      · subst hu
        rw [Token.read_of_skipBlank_eq_nil (Token.skipBlank_eq_nil_of_next hnext),
          Token.ofChars_eq, hnext]
        simp only [hempty]
        rfl
      · rw [Token.read_of_next_eq_ok hnext, Token.ofChars_of_next hnext hu]
        rfl

theorem keeps_advance : Keeps advance := by
  intro t cs
  have hsuffix := Token.read_suffix cs
  rw [advance_standingAt]
  generalize Token.read cs = r at hsuffix
  obtain ⟨e | u, rest⟩ := r
  · exact .error hsuffix
  · exact .ok hsuffix

theorem keeps_filename : Keeps filename := by
  unfold filename
  refine keeps_advance.bind fun _ => keeps_token.bind fun t => ?_
  cases t with
  | word path => exact keeps_advance.bind fun _ => keeps_pure path
  | pipe | or | and | background | semi | redirect _ | eof => exact keeps_throw _

theorem keeps_items (n : Nat) : Keeps (items n) := by
  induction n with
  | zero => exact keeps_pure _
  | succ n ih =>
      unfold items
      refine keeps_token.bind fun t => ?_
      cases t with
      | word w => exact keeps_advance.bind fun _ => ih.bind fun _ => keeps_pure _
      | redirect op => exact keeps_filename.bind fun _ => ih.bind fun _ => keeps_pure _
      | pipe | or | and | background | semi | eof => exact keeps_pure _

theorem keeps_simple : Keeps simple := by
  unfold simple
  refine keeps_get.bind fun p => (keeps_items p.rounds).bind fun (words, redirects) => ?_
  cases hempty : words.isEmpty && redirects.isEmpty with
  | true =>
      simp only [hempty, if_true]
      exact keeps_token.bind fun t => keeps_throw _
  | false =>
      simp only [hempty]
      exact keeps_pure _

section Level

variable {operand : Read Tree} (operator : Token → Option Operator)

theorem Keeps.chain (hoperand : Keeps operand) (n : Nat) (tree : Tree) :
    Keeps (chain operator operand n tree) := by
  induction n generalizing tree with
  | zero => exact keeps_pure tree
  | succ n ih =>
      unfold Parser.chain
      refine keeps_token.bind fun t => ?_
      cases operator t with
      | none => exact keeps_pure tree
      | some op => exact keeps_advance.bind fun _ => hoperand.bind fun right => ih _

theorem Keeps.level (hoperand : Keeps operand) : Keeps (level operator operand) := by
  unfold Parser.level
  exact hoperand.bind fun first => keeps_get.bind fun p => hoperand.chain operator p.rounds first

end Level

theorem keeps_parallel : Keeps parallel := by
  unfold parallel conditional pipeline
  have hleaf : Keeps (Tree.leaf <$> simple) := keeps_simple.bind fun c => keeps_pure (Tree.leaf c)
  exact ((hleaf.level _).level _).level _

theorem keeps_sequence (n : Nat) (tree : Tree) : Keeps (sequence n tree) := by
  induction n generalizing tree with
  | zero => exact keeps_pure tree
  | succ n ih =>
      unfold sequence
      refine keeps_token.bind fun t => ?_
      by_cases hsemi : t = .semi
      · rw [if_pos hsemi]
        refine keeps_advance.bind fun _ => keeps_token.bind fun u => ?_
        by_cases hend : u = .eof
        · rw [if_pos hend]
          exact keeps_pure tree
        · rw [if_neg hend]
          exact keeps_parallel.bind fun right => ih _
      · rw [if_neg hsemi]
        exact keeps_pure tree

theorem keeps_command : Keeps command := by
  unfold command
  refine keeps_token.bind fun t => ?_
  by_cases hend : t = .eof
  · rw [if_pos hend]
    exact keeps_pure none
  · rw [if_neg hend]
    refine keeps_parallel.bind fun first => keeps_get.bind fun p =>
      (keeps_sequence p.rounds first).bind fun tree => keeps_token.bind fun u => ?_
    cases u with
    | eof => exact keeps_pure (some tree)
    | word _ | pipe | or | and | background | semi | redirect _ => exact keeps_throw _

/-- One request leaves a suffix of the text. -/
theorem ask_standingAt (t : Token) (cs : List Char) :
    ∃ t' rest, (standingAt t cs).ask.2 = standingAt t' rest ∧ rest <:+ cs := by
  have hleaves := keeps_command t cs
  cases hcommand : command (standingAt t cs) with
  | ok tree q =>
      rw [hcommand] at hleaves
      rw [ask_of_ok hcommand]
      cases hleaves with
      | ok h => exact ⟨_, _, rfl, h⟩
  | error e q =>
      rw [hcommand] at hleaves
      rw [ask_of_error hcommand]
      cases hleaves with
      | error h => exact ⟨_, _, rfl, h⟩

/-- So do many. -/
theorem asked_standingAt (t : Token) (cs : List Char) (n : Nat) :
    ∃ t' rest, (standingAt t cs).asked n = standingAt t' rest ∧ rest <:+ cs := by
  induction n generalizing t cs with
  | zero => exact ⟨t, cs, rfl, List.suffix_refl cs⟩
  | succ n ih =>
      obtain ⟨u, us, hask, hus⟩ := ask_standingAt t cs
      obtain ⟨t', rest, hasked, hrest⟩ := ih u us
      refine ⟨t', rest, ?_, hrest.trans hus⟩
      rw [asked, hask, hasked]

/-- So whatever was asked, the reader of a line stands before a suffix of it. -/
theorem asked_of_ofLine {line : String} (h : ofLine line = .ok p) (n : Nat) :
    ∃ t rest, p.asked n = standingAt t rest ∧ rest <:+ line.toList := by
  have hleaves : Leaves line.toList (advance ⟨.eof, Scan.ofLine line⟩) :=
    keeps_advance .eof line.toList
  unfold ofLine at h
  cases hadvance : advance ⟨.eof, Scan.ofLine line⟩ with
  | error e q =>
      rw [hadvance] at h
      cases h
  | ok _ q =>
      rw [hadvance] at h hleaves
      cases h
      cases hleaves with
      | @ok _ u us hus =>
          obtain ⟨t, rest, hasked, hrest⟩ := asked_standingAt u us n
          exact ⟨t, rest, hasked, hrest.trans hus⟩

-- ================================================================== errors

/-- The commands side by side end at `;` or at the end of the line. -/
theorem current_of_parallel {tree : Tree} (h : parallel (standingAt t cs) = .ok tree q) :
    q.current = .semi ∨ q.current = .eof := by
  rw [standingAt_eq_before] at h
  obtain ⟨seg, rest, -, rfl, -, -, hstops⟩ := parallel_reads.sound h clean_cons
  rw [current_before]
  exact current_of_stops hstops

/-- How a request fails: by an error of the scan, at the token where a command
is missing, or where a file name is. -/
theorem error_of_command (h : command (standingAt t cs) = .error e q) :
    (∃ i, Token.answer cs i = .error e) ∨ e = .expectedCommand q.current ∨
      e = .expectedFilename := by
  have ht : t ≠ .eof := by
    rintro rfl
    cases h
  have heof : Token.eof ∉ t :: (Scan.ofChars cs).tokens := by
    intro hmem
    rcases List.mem_cons.mp hmem with heq | hmem
    · exact ht heq.symm
    · exact Token.eof_notMem_ofChars cs hmem
  rw [standingAt_eq_before] at h
  cases breaks_of_command clean_cons heof h with
  | command => exact .inr (.inl (by rw [current_before]))
  | filename => exact .inr (.inr rfl)
  | quote hf => exact .inl ⟨_, Token.answer_eq_error_iff.mpr ⟨rfl, hf⟩⟩

/-- Only a token that is left over is called unexpected. -/
theorem message_ne_unexpected (hne : ∀ x, e ≠ .unexpected x) (text : String) :
    e.message ≠ "unexpected token " ++ text := by
  -- the wordings differ within their first three letters
  have hthree (a b : String) (ha : 3 ≤ a.toList.length) :
      (a ++ b).toList.take 3 = a.toList.take 3 := by
    rw [String.toList_append, List.take_append_of_le_length ha]
  intro h
  have hstart : e.message.toList.take 3 = "unexpected token ".toList.take 3 := by
    rw [h, hthree _ _ (by decide +kernel)]
  cases e with
  | unexpected x => exact hne x rfl
  | unterminated quote =>
      have hmessage : (SyntaxError.unterminated quote).message =
          "unterminated " ++ (String.singleton quote ++ " quote") := String.append_assoc
      rw [hmessage, hthree _ _ (by decide +kernel)] at hstart
      exact absurd hstart (by decide +kernel)
  | expectedCommand x =>
      have hmessage : (SyntaxError.expectedCommand x).message =
          "expected command, found " ++ x.name := rfl
      rw [hmessage, hthree _ _ (by decide +kernel)] at hstart
      exact absurd hstart (by decide +kernel)
  | expectedFilename => exact absurd hstart (by decide +kernel)

/-- In whatever state the reader is asked, the commands side by side end at `;`
or at the end of the line, so no token is ever called unexpected: each error is
one that the scan of the text meets, or names the token at which a command is
missing, or says that a file name is. The states that requests leave, also
those that fail, are such states again. -/
theorem command_errors (t : Token) (cs : List Char) :
    (∀ tree q, parallel (standingAt t cs) = .ok tree q →
      q.current = .semi ∨ q.current = .eof) ∧
    (∀ e q, command (standingAt t cs) = .error e q →
      ((∃ i, Token.answer cs i = .error e) ∨
        e.message = "expected command, found " ++ q.current.name ∨
        e.message = "expected filename after redirection operator") ∧
      ∀ text, e.message ≠ "unexpected token " ++ text) ∧
    ∀ n, ∃ t' rest, (standingAt t cs).asked n = standingAt t' rest ∧ rest <:+ cs := by
  refine ⟨fun tree q h => current_of_parallel h, fun e q h => ?_, asked_standingAt t cs⟩
  have herror := error_of_command h
  refine ⟨?_, message_ne_unexpected fun x hx => ?_⟩
  · rcases herror with hscan | rfl | rfl
    · exact .inl hscan
    · exact .inr (.inl rfl)
    · exact .inr (.inr rfl)
  · subst hx
    rcases herror with ⟨i, hi⟩ | hcommand | hfilename
    · obtain ⟨-, hf⟩ := Token.answer_eq_error_iff.mp hi
      obtain ⟨quote, hquote⟩ := Token.unterminated_of_ofChars hf
      cases hquote
    · cases hcommand
    · cases hfilename

/-- The quote behind `;` stays open. The commands side by side end before it, the
request notices it, and the next one finds no command at the `;`. -/
theorem command_errors_open_quote :
    ofLine "a&b;'c" = .ok (standingAt (.word "a") "&b;'c".toList) ∧
    ∃ tree q e q', parallel (standingAt (.word "a") "&b;'c".toList) = .ok tree q ∧
      (q.current = .semi ∨ q.current = .eof) ∧
      command (standingAt (.word "a") "&b;'c".toList) = .error e q' ∧
      (∀ text, e.message ≠ "unexpected token " ++ text) ∧
      (standingAt (.word "a") "&b;'c".toList).answer 1 = .error (.expectedCommand .semi) ∧
      ∃ t rest, (standingAt (.word "a") "&b;'c".toList).asked 2 = standingAt t rest := by
  obtain ⟨hparallel, hcommand, hasked⟩ := command_errors (.word "a") "&b;'c".toList
  obtain ⟨t, rest, hrest, -⟩ := hasked 2
  have hstate : standingAt (.word "a") "&b;'c".toList =
      before (some (.unterminated '\x27')) [.word "a", .background, .word "b", .semi] := by
    decide +kernel
  have hread : parallel (standingAt (.word "a") "&b;'c".toList) =
      .ok (.node .parallel (.leaf (.ofWords ["a"])) (.leaf (.ofWords ["b"])))
        (before (some (.unterminated '\x27')) [.semi]) := by
    rw [hstate]
    rfl
  have herror : command (standingAt (.word "a") "&b;'c".toList) =
      .error (.unterminated '\x27') (before none [.semi]) := by
    rw [hstate]
    rfl
  have hnext : (standingAt (.word "a") "&b;'c".toList).answer 1 =
      .error (.expectedCommand .semi) := by
    rw [hstate]
    rfl
  exact ⟨by decide +kernel, _, _, _, _, hread, hparallel _ _ hread, herror, (hcommand _ _ herror).2, hnext,
    t, rest, hrest⟩

end LineShell.Parser
