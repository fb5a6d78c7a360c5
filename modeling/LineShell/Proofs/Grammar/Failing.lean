/-
Where reading fails.

Whatever it reads, the reader stands before a suffix of the line's tokens.
That is so after a failure too, and what it has taken by then is told by the
kind of the failure (`Breaks`).

A missing command is noticed where one has to begin, at the start or behind
an operator (`Token.Awaits`); nothing of it is taken. A missing file name is
noticed behind a redirection operator in a command (`Token.Within`), and
takes the operator. An open quote leaves the last token with nothing behind
it, since the scan has used up the line.

The loops of the grammar add to what was read before them. So the lemmas
about loops speak of that too: `seg` is what spells the tree, or the words
and redirections, that the loop starts from.
-/
import LineShell.Proofs.Grammar.Reader

namespace LineShell

open Token (Scan)

namespace Token

/-- Behind these tokens a command has to begin. -/
inductive Awaits : List Token → Prop where
  | start : Awaits []
  | operator {tree : Tree} {ts : List Token} {op : Operator} (h : tree.SpelledBy ts) :
      Awaits (ts ++ [op.token])

/-- Behind these tokens a command begins or goes on: where it began, there are
words and redirections up to here. -/
def Within (ts : List Token) : Prop :=
  ∃ front seg x, ts = front ++ seg ∧ Awaits front ∧ items? seg = some x

variable {tree : Tree} {seg ts : List Token}

theorem Awaits.after (h : Awaits ts) (hseg : tree.SpelledBy seg) (op : Operator) :
    Awaits (seg ++ op.token :: ts) := by
  cases h with
  | start => exact .operator hseg
  | @operator tree' us op' h =>
      have hnode : Awaits ((seg ++ op.token :: us) ++ [op'.token]) := .operator (.node hseg h)
      rwa [List.append_assoc] at hnode

theorem Within.after (h : Within ts) (hseg : tree.SpelledBy seg) (op : Operator) :
    Within (seg ++ op.token :: ts) := by
  obtain ⟨front, items, x, rfl, hfront, hitems⟩ := h
  exact ⟨_, items, x, (List.append_assoc seg (op.token :: front) items).symm,
    hfront.after hseg op, hitems⟩

end Token

namespace Parser

open Token (Awaits Within)

variable {α β : Type} {p q : Parser} {f : Option SyntaxError} {e : SyntaxError} {t : Token}
  {ts seg : List Token}

-- =============================================== where a failure leaves it

/-- How a reading fails that starts before tokens, what it has taken then, and
where the reader stands. -/
inductive Breaks (f : Option SyntaxError) (ts : List Token) : SyntaxError → Parser → Prop where
  | command {front us : List Token} (hts : ts = front ++ us) (hfront : Awaits front)
      (hclean : Clean f us) (hstop : ∀ t ∈ us.head?, t.isItem = false) :
      Breaks f ts (.expectedCommand (us.headD .eof)) (before f us)
  | filename {front us : List Token} (op : RedirectOp) (hts : ts = front ++ .redirect op :: us)
      (hfront : Within front) (hclean : Clean f us)
      (hstop : ∀ path, us.head? ≠ some (.word path)) :
      Breaks f ts .expectedFilename (before f us)
  | quote {e : SyntaxError} {t : Token} (hf : f = some e) (hmem : t ∈ ts) :
      Breaks f ts e (before none [t])

/-- What fails behind an operator and its left operand has failed. -/
theorem Breaks.after {tree : Tree} (h : Breaks f ts e q) (hseg : tree.SpelledBy seg)
    (op : Operator) : Breaks f (seg ++ op.token :: ts) e q := by
  cases h with
  | @command front us hts hfront hclean hstop =>
      refine .command ?_ (hfront.after hseg op) hclean hstop
      rw [hts, List.append_assoc, List.cons_append]
  | @filename front us redirection hts hfront hclean hstop =>
      refine .filename redirection ?_ (hfront.after hseg op) hclean hstop
      rw [hts, List.append_assoc, List.cons_append]
  | quote hf hmem => exact .quote hf (List.mem_append_right _ (List.mem_cons_of_mem _ hmem))

/-- A sequence of two readings fails in the first or in the second. -/
theorem of_bind_eq_error {x : Read α} {k : α → Read β} (h : (x >>= k) p = .error e q) :
    x p = .error e q ∨ ∃ a p', x p = .ok a p' ∧ k a p' = .error e q := by
  change EStateM.bind x k p = .error e q at h
  unfold EStateM.bind at h
  split at h
  · next a p' hx => exact .inr ⟨a, p', hx, h⟩
  · next hx =>
    cases h
    exact .inl hx

theorem bind_of_error {x : Read α} {k : α → Read β} (h : x p = .error e q) :
    (x >>= k) p = .error e q := by
  show EStateM.bind x k p = .error e q
  unfold EStateM.bind
  rw [h]

/-- Going on fails where the tokens end in an open quote. -/
theorem of_advance_eq_error (h : advance (before f (t :: ts)) = .error e q) :
    f = some e ∧ q = before none [t] := by
  cases ts with
  | nil =>
      cases f with
      | none => cases h
      | some e' =>
          cases h
          exact ⟨rfl, rfl⟩
  | cons u us => cases h

/-- What goes on first fails there, or afterwards. -/
theorem of_advance_bind_eq_error {k : Unit → Read α} (seg : List Token)
    (h : (advance >>= k) (before f (t :: ts)) = .error e q) :
    Breaks f (seg ++ t :: ts) e q ∨ Clean f ts ∧ k () (before f ts) = .error e q := by
  rcases of_bind_eq_error h with h | ⟨_, p', hadvance, h⟩
  · obtain ⟨hf, rfl⟩ := of_advance_eq_error h
    exact .inl (.quote hf (List.mem_append_right _ List.mem_cons_self))
  · obtain ⟨rfl, hclean⟩ := of_advance_eq_ok hadvance
    exact .inr ⟨hclean, h⟩

-- =============================================================== commands

theorem breaks_of_filename {op : RedirectOp} (hseg : Within seg)
    (h : filename (before f (.redirect op :: ts)) = .error e q) :
    Breaks f (seg ++ .redirect op :: ts) e q := by
  unfold filename at h
  rcases of_advance_bind_eq_error seg h with h | ⟨hclean, h⟩
  · exact h
  · rw [token_bind, current_before] at h
    match ts, h, hclean with
    | .word w :: rest, h, _ =>
        rcases of_advance_bind_eq_error (seg ++ [.redirect op]) h with h | ⟨-, h⟩
        · rwa [List.append_assoc] at h
        · cases h
    | [], h, hclean | .pipe :: _, h, hclean | .or :: _, h, hclean | .and :: _, h, hclean
    | .background :: _, h, hclean | .semi :: _, h, hclean | .redirect _ :: _, h, hclean
    | .eof :: _, h, hclean =>
        cases h
        exact .filename op rfl hseg hclean nofun

/-- Behind words and redirections, only a file name can be missing. -/
theorem breaks_of_items {n : Nat} {x : List String × List (RedirectOp × String)}
    (hseg : Token.items? seg = some x) (h : items n (before f ts) = .error e q) :
    Breaks f (seg ++ ts) e q := by
  induction n generalizing seg x ts with
  | zero => cases h
  | succ n ih =>
      unfold items at h
      rw [token_bind, current_before] at h
      cases ts with
      | nil => cases h
      | cons t ts =>
          cases t with
          | word w =>
              rcases of_advance_bind_eq_error seg h with h | ⟨-, h⟩
              · exact h
              rcases of_bind_eq_error h with h | ⟨_, _, _, h⟩
              · have hword : Token.items? [.word w] = some ([w], []) := rfl
                have := ih (Token.items?_append hseg hword) h
                rwa [List.append_assoc] at this
              · cases h
          | redirect op =>
              rcases of_bind_eq_error h with h | ⟨path, p', hpath, h⟩
              · exact breaks_of_filename ⟨[], seg, x, rfl, .start, hseg⟩ h
              obtain ⟨rest, rfl, rfl, -⟩ := of_filename_eq_ok hpath
              rcases of_bind_eq_error h with h | ⟨_, _, _, h⟩
              · have hredirect :
                    Token.items? [.redirect op, .word path] = some ([], [(op, path)]) := rfl
                have := ih (Token.items?_append hseg hredirect) h
                rwa [List.append_assoc] at this
              · cases h
          | pipe | or | and | background | semi | eof => cases h

-- ================================================================== levels

/-- A reading of operands stands before a suffix afterwards, whether it fails or
not. -/
structure Breaking (operand : Read Tree) : Prop where
  breaks {f : Option SyntaxError} {ts : List Token} {e : SyntaxError} {q : Parser} :
    Clean f ts → operand (before f ts) = .error e q → Breaks f ts e q
  reads : ∃ k, Reads k operand

theorem simple_breaking : Breaking (Tree.leaf <$> simple) where
  breaks {f ts e q} hclean h := by
    rcases of_bind_eq_error (k := fun c => pure (Tree.leaf c)) h with h | ⟨_, _, _, h⟩
    · unfold simple at h
      rw [get_bind] at h
      rcases of_bind_eq_error h with h | ⟨⟨words, redirects⟩, p', hitems, h⟩
      · have hnil : Token.items? [] = some ([], []) := rfl
        exact breaks_of_items hnil h
      · obtain ⟨seg, rest, rfl, rfl, hrest, hseg, hstop⟩ :=
          of_items_eq_ok hitems lt_rounds_before hclean
        dsimp only at h
        split at h
        · next hempty =>
          rw [token_bind, current_before] at h
          cases h
          obtain ⟨rfl, rfl⟩ : words = [] ∧ redirects = [] := by simpa using hempty
          obtain rfl := Token.eq_nil_of_items?_eq_nil hseg
          exact .command rfl .start hrest hstop
        · cases h
    · cases h
  reads := ⟨_, simple_reads⟩

/-- In a chain that starts from a tree, what spells it has been taken. -/
theorem Breaking.chain {operand : Read Tree} {operator : Token → Option Operator}
    (hoperand : Breaking operand) (hoperator : ∀ t op, operator t = some op → t = op.token)
    {n : Nat} {tree : Tree} (hclean : Clean f ts) (hseg : tree.SpelledBy seg)
    (h : chain operator operand n tree (before f ts) = .error e q) :
    Breaks f (seg ++ ts) e q := by
  induction n generalizing tree seg ts with
  | zero => cases h
  | succ n ih =>
      unfold Parser.chain at h
      rw [token_bind, current_before] at h
      cases hnext : operator (ts.headD .eof) with
      | none =>
          rw [hnext] at h
          cases h
      | some op =>
          rw [hnext] at h
          obtain ⟨rest, rfl⟩ := eq_cons_of_headD_eq_token op (hoperator _ op hnext)
          rcases of_advance_bind_eq_error seg h with h | ⟨hclean, h⟩
          · exact h
          rcases of_bind_eq_error h with h | ⟨right, p', hright, h⟩
          · exact (hoperand.breaks hclean h).after hseg op
          · obtain ⟨k, hreads⟩ := hoperand.reads
            obtain ⟨rs, rest, rfl, rfl, hrest, hfits, -⟩ := hreads.sound hright hclean
            have := ih hrest (.node hseg hfits.spelled) h
            rwa [List.append_assoc] at this

theorem Breaking.level {operand : Read Tree} {operator : Token → Option Operator} {k : Nat}
    (hoperand : Breaking operand) (hoperator : ∀ t op, operator t = some op → t = op.token)
    (hlevel : Reads k (level operator operand)) : Breaking (level operator operand) where
  breaks {f ts e q} hclean h := by
    unfold Parser.level at h
    rcases of_bind_eq_error h with h | ⟨first, p', hfirst, h⟩
    · exact hoperand.breaks hclean h
    · obtain ⟨k, hreads⟩ := hoperand.reads
      obtain ⟨seg, rest, rfl, rfl, hrest, hfits, -⟩ := hreads.sound hfirst hclean
      rw [get_bind] at h
      exact hoperand.chain hoperator hrest hfits.spelled h
  reads := ⟨k, hlevel⟩

theorem parallel_breaking : Breaking parallel := by
  refine ((simple_breaking.level ?_ pipeline_reads).level ?_ conditional_reads).level ?_
    parallel_reads
  all_goals
    intro t op h
    cases t <;> cases h <;> rfl

-- ================================================================ sequences

/-- What stops the commands side by side is a `;` or the end of the line. -/
theorem current_of_stops (hstops : Stops 1 ts) :
    ts.headD .eof = .semi ∨ ts.headD .eof = .eof := by
  cases ts with
  | nil => exact .inr rfl
  | cons t ts =>
      obtain ⟨hitem, hops⟩ := hstops t rfl
      -- no other operator may stand there
      have hop : ∀ op : Operator, t = op.token → op.precedence = 0 := by
        intro op ht
        have hlt : op.precedence < 1 := hops op ht
        omega
      cases t with
      | word _ | redirect _ => cases hitem
      | semi => exact .inl rfl
      | eof => exact .inr rfl
      | pipe => cases hop .pipe rfl
      | and => cases hop .andThen rfl
      | or => cases hop .orElse rfl
      | background => cases hop .parallel rfl

/-- Commands joined by `;` up to a token that goes on with nothing: that is
the end of the line. -/
theorem current_of_sequence {n : Nat} {tree tree' : Tree}
    (h : sequence n tree (before f ts) = .ok tree' q) (hn : ts.length < n) (hclean : Clean f ts)
    (hstops : Stops 1 ts) (heof : Token.eof ∉ ts) : q = before none [] := by
  induction n generalizing tree ts with
  | zero => omega
  | succ n ih =>
      rw [sequence, token_bind, current_before] at h
      rcases current_of_stops hstops with hsemi | hend
      · obtain ⟨ts, rfl⟩ := eq_cons_of_headD_eq_token .sequential hsemi
        rw [if_pos hsemi] at h
        obtain ⟨_, p', hadvance, h⟩ := of_bind_eq_ok h
        obtain ⟨rfl, hclean⟩ := of_advance_eq_ok hadvance
        have heof' : Token.eof ∉ ts := fun hmem => heof (List.mem_cons_of_mem _ hmem)
        rw [token_bind, current_before] at h
        split at h
        · next hnil =>
          obtain rfl := (headD_eof_eq_eof_iff heof').mp hnil
          obtain rfl := hclean rfl
          cases h
          rfl
        · obtain ⟨right, p', hright, h⟩ := of_bind_eq_ok h
          obtain ⟨seg, rest, rfl, rfl, hrest, -, hstops⟩ := parallel_reads.sound hright hclean
          rw [List.length_cons, List.length_append] at hn
          exact ih h (by omega) hrest hstops fun hmem => heof' (List.mem_append_right _ hmem)
      · obtain rfl := (headD_eof_eq_eof_iff heof).mp hend
        obtain rfl := hclean rfl
        cases h
        rfl

/-- So it is in a sequence. -/
theorem breaks_of_sequence {n : Nat} {tree : Tree} (hclean : Clean f ts)
    (hseg : tree.SpelledBy seg) (h : sequence n tree (before f ts) = .error e q) :
    Breaks f (seg ++ ts) e q := by
  induction n generalizing tree seg ts with
  | zero => cases h
  | succ n ih =>
      rw [sequence, token_bind, current_before] at h
      split at h
      · next hsemi =>
        obtain ⟨ts, rfl⟩ := eq_cons_of_headD_eq_token .sequential hsemi
        rcases of_advance_bind_eq_error seg h with h | ⟨hclean, h⟩
        · exact h
        rw [token_bind] at h
        split at h
        · cases h
        rcases of_bind_eq_error h with h | ⟨right, p', hright, h⟩
        · exact (parallel_breaking.breaks hclean h).after hseg .sequential
        · obtain ⟨rs, rest, rfl, rfl, hrest, hfits, -⟩ := parallel_reads.sound hright hclean
          have hnode : (Tree.node .sequential tree right).SpelledBy
              (seg ++ Operator.sequential.token :: rs) := .node hseg hfits.spelled
          have := ih hrest hnode h
          rwa [List.append_assoc] at this
      · cases h

-- ============================================================ whole commands

/-- Asking for a command fails as its parts do; no token is left over behind
them. -/
theorem breaks_of_command (hclean : Clean f ts) (heof : Token.eof ∉ ts)
    (h : command (before f ts) = .error e q) : Breaks f ts e q := by
  rw [command, token_bind] at h
  split at h
  · cases h
  rcases of_bind_eq_error h with h | ⟨first, p', hfirst, h⟩
  · exact parallel_breaking.breaks hclean h
  obtain ⟨seg, rest, rfl, rfl, hrest, hfits, hstops⟩ := parallel_reads.sound hfirst hclean
  rw [get_bind] at h
  rcases of_bind_eq_error h with h | ⟨tree, p', hsequence, h⟩
  · exact breaks_of_sequence hrest hfits.spelled h
  · obtain rfl := current_of_sequence hsequence lt_rounds_before hrest hstops
      fun hmem => heof (List.mem_append_right _ hmem)
    cases h

end Parser

end LineShell
