/-
What the reader reads: every shaped tree that tokens spell, and nothing
else.

# Standing before tokens

While a line is read, the reader stands before a suffix of its tokens, and
once there is nothing more to come, no failure is to come either
(`Standing`). So each function of the reader is a relation between two
suffixes and a value.

# Levels

An operand at a level reads the longest spelling of a shaped tree that
binds at least that tightly, and stops in front of a token with which no
such tree can go on (`Reads`). The chain over operands of the next level
does so if they do (`level_reads`): that is one theorem, used for pipes,
conditionals and the commands side by side. Only `;` is different, since
it may end the line.

For completeness the chain cannot be read off its own recursion, which
goes to the right while trees grow to the left. The induction is on the
spelling (`loop_of_fits`): after the spelling of a left operand the
level stands in its chain, with rounds left for all that follows.
-/
import LineShell.Proofs.Grammar.Spelling

namespace LineShell

open Token (Scan)

namespace Parser

variable {α β : Type} {p q p' : Parser} {f : Option SyntaxError} {t : Token} {ts : List Token}

-- ================================================================ reading

theorem bind_of_ok {x : Read α} {g : α → Read β} {a : α} (h : x p = .ok a q) :
    (x >>= g) p = g a q := by
  show EStateM.bind x g p = g a q
  unfold EStateM.bind
  rw [h]

/-- A sequence of two readings that came to an end: so did both. -/
theorem of_bind_eq_ok {x : Read α} {g : α → Read β} {b : β} (h : (x >>= g) p = .ok b p') :
    ∃ a q, x p = .ok a q ∧ g a q = .ok b p' := by
  change EStateM.bind x g p = .ok b p' at h
  unfold EStateM.bind at h
  split at h
  · next a q hx => exact ⟨a, q, hx, h⟩
  · cases h

theorem token_bind {g : Token → Read β} : (token >>= g) p = g p.current p := rfl

theorem get_bind {g : Parser → Read β} : ((get : Read Parser) >>= g) p = g p p := rfl

/-- The reader that stands before tokens, after which a failure may
come. -/
def before (f : Option SyntaxError) : List Token → Parser
  | [] => ⟨.eof, ⟨[], f⟩⟩
  | t :: ts => ⟨t, ⟨ts, f⟩⟩

/-- Where the tokens end, so does the line, without a failure. -/
def Clean (f : Option SyntaxError) (ts : List Token) : Prop := ts = [] → f = none

theorem clean_none : Clean none ts := fun _ => rfl

theorem clean_cons : Clean f (t :: ts) := fun h => by cases h

theorem Clean.append {us : List Token} (h : Clean f us) : Clean f (ts ++ us) :=
  fun hnil => h (List.append_eq_nil_iff.mp hnil).2

theorem current_before : (before f ts).current = ts.headD .eof := by
  cases ts <;> rfl

theorem lt_rounds_before : ts.length < (before f ts).rounds := by
  cases ts with
  | nil => exact Nat.zero_lt_succ _
  | cons t ts => exact Nat.lt_succ_self _

theorem advance_before (h : Clean f ts) : advance (before f (t :: ts)) = .ok () (before f ts) := by
  cases ts with
  | nil =>
      rw [h rfl]
      rfl
  | cons u us => rfl

theorem of_advance_eq_ok {a : Unit} (h : advance (before f (t :: ts)) = .ok a p') :
    p' = before f ts ∧ Clean f ts := by
  cases ts with
  | nil =>
      cases f with
      | none =>
          cases h
          exact ⟨rfl, clean_none⟩
      | some e => cases h
  | cons u us =>
      cases h
      exact ⟨rfl, clean_cons⟩

/-- A line can be read if it has a token or ends at once. -/
theorem ofLine_eq_ok_iff {line : String} :
    ofLine line = .ok p ↔ p = before (Scan.ofLine line).failure (Scan.ofLine line).tokens ∧
      Clean (Scan.ofLine line).failure (Scan.ofLine line).tokens := by
  unfold ofLine
  rcases Scan.ofLine line with ⟨ts, f⟩
  constructor
  · intro h
    split at h
    · next hadvance =>
      obtain ⟨rfl, hclean⟩ := of_advance_eq_ok (t := .eof) hadvance
      cases h
      exact ⟨rfl, hclean⟩
    · cases h
  · rintro ⟨rfl, hclean⟩
    have hadvance : advance ⟨.eof, ⟨ts, f⟩⟩ = .ok () (before f ts) := advance_before hclean
    rw [hadvance]

-- =============================================================== commands

/-- The file name after a redirection operator. -/
theorem filename_before {path : String} (h : Clean f ts) :
    filename (before f (t :: .word path :: ts)) = .ok path (before f ts) := by
  unfold filename
  rw [bind_of_ok (advance_before clean_cons), token_bind]
  show (advance >>= fun _ => pure path) _ = _
  rw [bind_of_ok (advance_before h)]
  rfl

theorem of_filename_eq_ok {path : String} (h : filename (before f (t :: ts)) = .ok path p') :
    ∃ rest, ts = .word path :: rest ∧ p' = before f rest ∧ Clean f rest := by
  unfold filename at h
  obtain ⟨_, q, hadvance, h⟩ := of_bind_eq_ok h
  obtain ⟨rfl, -⟩ := of_advance_eq_ok hadvance
  rw [token_bind, current_before] at h
  match ts, h with
  | .word w :: rest, h =>
      obtain ⟨_, q, hadvance, h⟩ := of_bind_eq_ok h
      obtain ⟨rfl, hclean⟩ := of_advance_eq_ok hadvance
      cases h
      exact ⟨rest, rfl, rfl, hclean⟩
  | [], h | .pipe :: _, h | .or :: _, h | .and :: _, h | .background :: _, h
  | .semi :: _, h | .redirect _ :: _, h | .eof :: _, h => cases h

/-- The tokens do not go on with a command, nor with an operator that binds
at least that tightly. -/
def Stops (k : Nat) (ts : List Token) : Prop :=
  ∀ t ∈ ts.head?, t.isItem = false ∧ ∀ op : Operator, t = op.token → op.precedence < k

theorem stops_nil {k : Nat} : Stops k [] := fun _ h => by cases h

theorem Stops.mono {j k : Nat} (h : Stops j ts) (hle : j ≤ k) : Stops k ts := fun t ht =>
  ⟨(h t ht).1, fun op hop => Nat.lt_of_lt_of_le ((h t ht).2 op hop) hle⟩

/-- Operators and the end of the line stop every command. -/
theorem isItem_token (op : Operator) : op.token.isItem = false := by
  cases op <;> rfl

theorem token_injective {op op' : Operator} (h : op.token = op'.token) : op = op' := by
  cases op <;> cases op' <;> first | rfl | cases h

theorem stops_token {k : Nat} {op : Operator} (h : op.precedence < k) :
    Stops k (op.token :: ts) := by
  rintro t ht
  cases Option.mem_some.mp ht
  refine ⟨isItem_token op, fun op' hop' => ?_⟩
  rw [← token_injective hop']
  exact h

/-- Where nothing goes on, nothing is taken. -/
theorem items_before_stop {n : Nat} (h : ∀ t ∈ ts.head?, t.isItem = false) :
    items n (before f ts) = .ok ([], []) (before f ts) := by
  cases n with
  | zero => rfl
  | succ n =>
      unfold items
      rw [token_bind, current_before]
      match ts, h with
      | [], _ | .pipe :: _, _ | .or :: _, _ | .and :: _, _ | .background :: _, _
      | .semi :: _, _ | .eof :: _, _ => rfl
      | .word w :: _, h | .redirect op :: _, h => cases h _ rfl

/-- The words and redirections of a spelling are read, and what follows
them is not. -/
theorem items_before {seg rest : List Token} {x : List String × List (RedirectOp × String)}
    {n : Nat} (hitems : Token.items? seg = some x) (hn : seg.length < n) (hclean : Clean f rest)
    (hstops : ∀ t ∈ rest.head?, t.isItem = false) :
    items n (before f (seg ++ rest)) = .ok x (before f rest) := by
  fun_induction Token.items? seg generalizing n x with
  | case1 =>
      cases hitems
      exact items_before_stop hstops
  | case2 w seg ih =>
      obtain ⟨⟨words, redirects⟩, hx, rfl⟩ := Option.map_eq_some_iff.mp hitems
      obtain ⟨n, rfl⟩ : ∃ m, n = m + 1 := ⟨n - 1, by omega⟩
      have hread := ih hx (Nat.lt_of_succ_lt_succ hn)
      unfold items
      rw [token_bind]
      show (advance >>= fun _ => _) (before f (.word w :: (seg ++ rest))) = _
      rw [bind_of_ok (advance_before hclean.append), bind_of_ok hread]
      rfl
  | case3 op path seg ih =>
      obtain ⟨⟨words, redirects⟩, hx, rfl⟩ := Option.map_eq_some_iff.mp hitems
      obtain ⟨n, rfl⟩ : ∃ m, n = m + 1 := ⟨n - 1, by omega⟩
      have hlength : seg.length < n := by
        rw [List.length_cons, List.length_cons] at hn
        omega
      have hread := ih hx hlength
      unfold items
      rw [token_bind]
      show (filename >>= fun _ => _) (before f (.redirect op :: .word path :: (seg ++ rest))) = _
      rw [bind_of_ok (filename_before hclean.append), bind_of_ok hread]
      rfl
  | case4 => cases hitems

/-- What is read as words and redirections spells them, up to a token that
is neither. -/
theorem of_items_eq_ok {n : Nat} {x : List String × List (RedirectOp × String)}
    (h : items n (before f ts) = .ok x p') (hn : ts.length < n) (hclean : Clean f ts) :
    ∃ seg rest, ts = seg ++ rest ∧ p' = before f rest ∧ Clean f rest ∧
      Token.items? seg = some x ∧ ∀ t ∈ rest.head?, t.isItem = false := by
  induction n generalizing ts x p' with
  | zero => omega
  | succ n ih =>
      unfold items at h
      rw [token_bind, current_before] at h
      match ts, h, hn, hclean with
      | .word w :: ts, h, hn, hclean =>
          obtain ⟨_, q, hadvance, h⟩ := of_bind_eq_ok h
          obtain ⟨rfl, hclean⟩ := of_advance_eq_ok hadvance
          obtain ⟨⟨words, redirects⟩, q, hread, h⟩ := of_bind_eq_ok h
          obtain ⟨seg, rest, rfl, rfl, hrest, hitems, hstops⟩ :=
            ih hread (Nat.lt_of_succ_lt_succ hn) hclean
          cases h
          refine ⟨.word w :: seg, rest, rfl, rfl, hrest, ?_, hstops⟩
          rw [Token.items?, hitems]
          rfl
      | .redirect op :: ts, h, hn, hclean =>
          obtain ⟨path, q, hpath, h⟩ := of_bind_eq_ok h
          obtain ⟨ts, rfl, rfl, hclean⟩ := of_filename_eq_ok hpath
          obtain ⟨⟨words, redirects⟩, q, hread, h⟩ := of_bind_eq_ok h
          have hlength : ts.length < n := by
            rw [List.length_cons, List.length_cons] at hn
            omega
          obtain ⟨seg, rest, rfl, rfl, hrest, hitems, hstops⟩ := ih hread hlength hclean
          cases h
          refine ⟨.redirect op :: .word path :: seg, rest, rfl, rfl, hrest, ?_, hstops⟩
          rw [Token.items?, hitems]
          rfl
      | [], h, _, hclean =>
          cases h
          exact ⟨[], [], rfl, rfl, hclean, rfl, fun t ht => by cases ht⟩
      | .pipe :: ts, h, _, hclean | .or :: ts, h, _, hclean | .and :: ts, h, _, hclean
      | .background :: ts, h, _, hclean | .semi :: ts, h, _, hclean | .eof :: ts, h, _, hclean =>
          cases h
          refine ⟨[], _, rfl, rfl, hclean, rfl, fun t ht => ?_⟩
          cases Option.mem_some.mp ht
          rfl

-- ================================================================== levels

/-- The tokens spell the tree, which needs no parentheses and binds at
least that tightly. -/
structure Fits (k : Nat) (tree : Tree) (ts : List Token) : Prop where
  spelled : tree.SpelledBy ts
  shaped : tree.Shaped
  le_precedence : k ≤ tree.precedence

/-- The reading gives a tree that fits what it takes, and takes all that
fits the tree. -/
structure Reads (k : Nat) (operand : Read Tree) : Prop where
  sound {f : Option SyntaxError} {ts : List Token} {tree : Tree} {p' : Parser} :
    operand (before f ts) = .ok tree p' → Clean f ts →
    ∃ seg rest, ts = seg ++ rest ∧ p' = before f rest ∧ Clean f rest ∧ Fits k tree seg ∧
      Stops k rest
  complete {f : Option SyntaxError} {seg rest : List Token} {tree : Tree} :
    Fits k tree seg → Clean f rest → Stops k rest →
    operand (before f (seg ++ rest)) = .ok tree (before f rest)

/-- The command that tokens spell is read, up to a token that no command goes on
with. -/
theorem simple_before {seg rest : List Token} {c : Command} (hc : Command.ofTokens? seg = some c)
    (hclean : Clean f rest) (hstops : ∀ t ∈ rest.head?, t.isItem = false) :
    simple (before f (seg ++ rest)) = .ok c (before f rest) := by
  obtain ⟨words, redirects, hitems, hne, rfl⟩ := Command.of_ofTokens? hc
  have hlength : seg.length < (before f (seg ++ rest)).rounds := by
    have hlt : (seg ++ rest).length < (before f (seg ++ rest)).rounds := lt_rounds_before
    rw [List.length_append] at hlt
    omega
  have hread := items_before hitems hlength hclean hstops
  have hempty : (words.isEmpty && redirects.isEmpty) = false := by
    cases words <;> cases redirects <;> first | rfl | simp at hne
  unfold simple
  rw [get_bind, bind_of_ok hread]
  simp only [hempty]
  rfl

/-- Commands are read one by one. -/
theorem simple_reads : Reads Command.precedence (Tree.leaf <$> simple) where
  sound {f ts tree p'} h hclean := by
    obtain ⟨c, q, h, hleaf⟩ := of_bind_eq_ok (g := fun c => pure (Tree.leaf c)) h
    cases hleaf
    unfold simple at h
    rw [get_bind] at h
    obtain ⟨⟨words, redirects⟩, q, hitems, h⟩ := of_bind_eq_ok h
    obtain ⟨seg, rest, rfl, rfl, hrest, hseg, hstops⟩ :=
      of_items_eq_ok hitems lt_rounds_before hclean
    by_cases hne : (words, redirects) = ([], [])
    · cases hne
      cases h
    · have hc : Command.ofTokens? seg = some (redirects.foldl applyRedirect (.ofWords words)) := by
        unfold Command.ofTokens?
        rw [hseg]
        exact Command.ofItems?_of_ne hne
      have hempty : (words.isEmpty && redirects.isEmpty) = false := by
        cases words <;> cases redirects <;> first | rfl | exact absurd rfl hne
      simp only [hempty] at h
      cases h
      refine ⟨seg, rest, rfl, rfl, hrest, ⟨.leaf hc, Command.proper_of_ofTokens? hc, Nat.le_refl _⟩,
        fun t ht => ⟨hstops t ht, fun op _ => op.precedence_lt⟩⟩
  complete {f seg rest tree} hfits hclean hstops := by
    obtain ⟨hspelled, -, hle⟩ := hfits
    cases hspelled with
    | @node op _ _ _ _ _ _ => exact absurd op.precedence_lt (Nat.not_lt.mpr hle)
    | @leaf c _ hc =>
        have hsimple := simple_before hc hclean fun t ht => (hstops t ht).1
        exact bind_of_ok (g := fun c => pure (Tree.leaf c)) hsimple

/-- Where the next token is an operator, there is one. -/
theorem eq_cons_of_headD_eq_token (op : Operator) (h : ts.headD .eof = op.token) :
    ∃ rest, ts = op.token :: rest := by
  cases ts with
  | nil => cases op <;> cases h
  | cons t rest =>
      cases h
      exact ⟨rest, rfl⟩

section Level

variable {k : Nat} {operator : Token → Option Operator} {operand : Read Tree}
  (hk : k < Command.precedence)
  (hoperator : ∀ t op, operator t = some op ↔ t = op.token ∧ op.precedence = k)
  (hoperand : Reads (k + 1) operand)

/-- An operator joins what fits to the left of it with what fits more
tightly to the right. -/
theorem Fits.node {op : Operator} {l r : Tree} {ls rs : List Token} (hl : Fits k l ls)
    (hr : Fits (k + 1) r rs) (hop : op.precedence = k) :
    Fits k (.node op l r) (ls ++ op.token :: rs) where
  spelled := .node hl.spelled hr.spelled
  shaped := ⟨hop ▸ hl.le_precedence, hop ▸ hr.le_precedence, hl.shaped, hr.shaped⟩
  le_precedence := Nat.le_of_eq hop.symm

include hoperator in
/-- Where the level has no operator, it stops. -/
theorem stops_of_operator_eq_none (hstops : Stops (k + 1) ts)
    (hnone : operator (ts.headD .eof) = none) : Stops k ts := by
  intro t ht
  refine ⟨(hstops t ht).1, fun op hop => ?_⟩
  refine Nat.lt_of_le_of_ne (Nat.le_of_lt_succ ((hstops t ht).2 op hop)) fun hk => ?_
  rw [List.headD_eq_head?_getD, Option.mem_def.mp ht, Option.getD_some,
    (hoperator t op).mpr ⟨hop, hk⟩] at hnone
  cases hnone

include hoperator in
/-- Where the level has an operator, it is the next token. -/
theorem eq_cons_of_operator_eq_some {op : Operator} (hsome : operator (ts.headD .eof) = some op) :
    op.precedence = k ∧ ∃ rest, ts = op.token :: rest := by
  obtain ⟨htoken, hop⟩ := (hoperator _ op).mp hsome
  exact ⟨hop, eq_cons_of_headD_eq_token op htoken⟩

include hoperator hoperand in
theorem of_chain_eq_ok {n : Nat} {tree tree' : Tree} {seg : List Token}
    (h : chain operator operand n tree (before f ts) = .ok tree' p') (hn : ts.length < n)
    (hclean : Clean f ts) (hfits : Fits k tree seg) (hstops : Stops (k + 1) ts) :
    ∃ seg' rest, ts = seg' ++ rest ∧ p' = before f rest ∧ Clean f rest ∧
      Fits k tree' (seg ++ seg') ∧ Stops k rest := by
  induction n generalizing tree seg ts with
  | zero => omega
  | succ n ih =>
      unfold chain at h
      rw [token_bind, current_before] at h
      cases hnext : operator (ts.headD .eof) with
      | none =>
          rw [hnext] at h
          cases h
          refine ⟨[], ts, rfl, rfl, hclean, ?_, stops_of_operator_eq_none hoperator hstops hnext⟩
          rw [List.append_nil]
          exact hfits
      | some op =>
          rw [hnext] at h
          obtain ⟨hop, ts, rfl⟩ := eq_cons_of_operator_eq_some hoperator hnext
          obtain ⟨_, q, hadvance, h⟩ := of_bind_eq_ok h
          obtain ⟨rfl, hclean⟩ := of_advance_eq_ok hadvance
          obtain ⟨right, q, hright, h⟩ := of_bind_eq_ok h
          obtain ⟨rs, rest, rfl, rfl, hclean, hr, hstops⟩ := hoperand.sound hright hclean
          have hlength : rest.length < n := by
            rw [List.length_cons, List.length_append] at hn
            omega
          obtain ⟨seg', rest, rfl, rfl, hclean, hfits', hstops⟩ :=
            ih h hlength hclean (hfits.node hr hop) hstops
          refine ⟨op.token :: rs ++ seg', rest, ?_, rfl, hclean, ?_, hstops⟩
          · rw [List.cons_append, List.cons_append, List.append_assoc]
          · rw [← List.append_assoc]
            exact hfits'

include hoperator in
/-- A round of the chain, at an operator with an operand after it. -/
theorem chain_round {n : Nat} {tree : Tree} {op : Operator} (hop : op.precedence = k)
    (hclean : Clean f ts) :
    chain operator operand (n + 1) tree (before f (op.token :: ts)) =
      (operand >>= fun right => chain operator operand n (.node op tree right)) (before f ts) := by
  rw [chain, token_bind, current_before, List.headD_cons, (hoperator _ op).mpr ⟨rfl, hop⟩]
  show (advance >>= fun _ => _) (before f (op.token :: ts)) = _
  rw [bind_of_ok (advance_before hclean)]

include hk hoperand in
/-- After what spells a tree of the level, the level stands in its loop
with that tree. The loop is that of `chain` or `sequence`. -/
theorem loop_of_fits (loop : Nat → Tree → Read Tree)
    (hround : ∀ {n : Nat} {tree : Tree} {op : Operator} {ts : List Token}, op.precedence = k →
      ts.headD .eof ≠ .eof → loop (n + 1) tree (before f (op.token :: ts)) =
        (operand >>= fun right => loop n (.node op tree right)) (before f ts))
    {tree : Tree} {seg rest : List Token} (hfits : Fits k tree seg) (hclean : Clean f rest)
    (hstops : Stops (k + 1) rest) :
    ∃ first q n, operand (before f (seg ++ rest)) = .ok first q ∧ rest.length < n ∧
      loop q.rounds first q = loop n tree (before f rest) := by
  induction tree generalizing seg rest with
  | leaf c =>
      have hread := hoperand.complete ⟨hfits.spelled, hfits.shaped, hk⟩ hclean hstops
      exact ⟨_, _, _, hread, lt_rounds_before, rfl⟩
  | node op l r ihl _ =>
      by_cases hop : k + 1 ≤ op.precedence
      · have hread := hoperand.complete ⟨hfits.spelled, hfits.shaped, hop⟩ hclean hstops
        exact ⟨_, _, _, hread, lt_rounds_before, rfl⟩
      · obtain ⟨hspelled, ⟨hl, hr, hlshaped, hrshaped⟩, hle⟩ := hfits
        replace hop : op.precedence = k := Nat.le_antisymm (Nat.le_of_not_lt hop) hle
        cases hspelled with
        | @node _ _ _ ls rs hls hrs =>
            have hstop : Stops (k + 1) (op.token :: (rs ++ rest)) := stops_token (by omega)
            obtain ⟨first, q, n, hfirst, hn, hloop⟩ :=
              ihl ⟨hls, hlshaped, hop ▸ hl⟩ clean_cons hstop
            rw [List.length_cons, List.length_append] at hn
            obtain ⟨n, rfl⟩ : ∃ m, n = m + 1 := ⟨n - 1, by omega⟩
            have hright := hoperand.complete ⟨hrs, hrshaped, hop ▸ hr⟩ hclean hstops
            have hhead : (rs ++ rest).headD .eof ≠ .eof := by
              obtain ⟨token, hhead, hitem⟩ := hrs.head
              rw [List.headD_eq_head?_getD, List.head?_append, hhead]
              rintro rfl
              cases hitem
            refine ⟨first, q, n, ?_, by omega, ?_⟩
            · rw [List.append_assoc, List.cons_append, hfirst]
            · rw [hloop, hround hop hhead, bind_of_ok hright]

include hk hoperator hoperand in
/-- One level over the level below it. -/
theorem level_reads : Reads k (level operator operand) where
  sound {f ts tree p'} h hclean := by
    unfold level at h
    obtain ⟨first, q, hfirst, h⟩ := of_bind_eq_ok h
    obtain ⟨seg, rest, rfl, rfl, hclean, hfits, hstops⟩ := hoperand.sound hfirst hclean
    rw [get_bind] at h
    obtain ⟨seg', rest, rfl, rfl, hclean, hfits', hstops⟩ :=
      of_chain_eq_ok hoperator hoperand h lt_rounds_before hclean
        ⟨hfits.spelled, hfits.shaped, Nat.le_of_succ_le hfits.le_precedence⟩ hstops
    refine ⟨seg ++ seg', rest, ?_, rfl, hclean, hfits', hstops⟩
    rw [List.append_assoc]
  complete {f seg rest tree} hfits hclean hstops := by
    obtain ⟨first, q, n, hfirst, hn, hloop⟩ :=
      loop_of_fits hk hoperand (chain operator operand)
        (fun hop hhead => chain_round hoperator hop fun hnil => absurd (hnil ▸ rfl) hhead)
        hfits hclean (hstops.mono (Nat.le_succ k))
    unfold level
    rw [bind_of_ok hfirst, get_bind, hloop]
    obtain ⟨n, rfl⟩ : ∃ m, n = m + 1 := ⟨n - 1, by omega⟩
    have hnone : operator (rest.headD .eof) = none := by
      refine Option.eq_none_iff_forall_ne_some.mpr fun op hsome => ?_
      obtain ⟨hop, rest, rfl⟩ := eq_cons_of_operator_eq_some hoperator hsome
      exact absurd ((hstops _ rfl).2 op rfl) (by omega)
    rw [chain, token_bind, current_before, hnone]
    rfl

end Level

theorem pipeline_reads : Reads 3 pipeline := by
  refine level_reads (by decide) (fun t op => ?_) simple_reads
  cases t <;> cases op <;> simp [Operator.token, Operator.precedence]

theorem conditional_reads : Reads 2 conditional := by
  refine level_reads (by decide) (fun t op => ?_) pipeline_reads
  cases t <;> cases op <;> simp [Operator.token, Operator.precedence]

theorem parallel_reads : Reads 1 parallel := by
  refine level_reads (by decide) (fun t op => ?_) conditional_reads
  cases t <;> cases op <;> simp [Operator.token, Operator.precedence]

-- ============================================================ the whole line

/-- Behind `;` comes a right operand, unless the line ends. -/
theorem sequence_round {n : Nat} {tree : Tree} {op : Operator} (hop : op.precedence = 0)
    (hhead : ts.headD .eof ≠ .eof) :
    sequence (n + 1) tree (before f (op.token :: ts)) =
      (parallel >>= fun right => sequence n (.node op tree right)) (before f ts) := by
  obtain rfl : op = .sequential := by
    cases op <;> first | rfl | cases hop
  have hclean : Clean f ts := fun hnil => absurd (hnil ▸ rfl) hhead
  have hsemi : (before f (.semi :: ts)).current = .semi := rfl
  rw [← current_before (f := f)] at hhead
  rw [sequence, token_bind]
  refine (congrFun (if_pos hsemi) _).trans ?_
  rw [bind_of_ok (advance_before hclean), token_bind]
  exact congrFun (if_neg hhead) _

theorem headD_eof_eq_eof_iff (heof : Token.eof ∉ ts) : ts.headD .eof = .eof ↔ ts = [] := by
  cases ts with
  | nil => exact ⟨fun _ => rfl, fun _ => rfl⟩
  | cons t ts =>
      refine ⟨fun h => absurd ?_ heof, fun h => by cases h⟩
      cases h
      exact List.mem_cons_self

/-- A sequence that goes to the end of the line: its tokens spell the tree,
but for a last `;`. -/
theorem of_sequence_eq_ok {n : Nat} {tree tree' : Tree} {seg : List Token}
    (h : sequence n tree (before f ts) = .ok tree' p') (hend : p'.current = .eof)
    (heof : Token.eof ∉ ts) (hn : ts.length < n) (hclean : Clean f ts) (hfits : Fits 0 tree seg) :
    f = none ∧ ∃ seg', Fits 0 tree' (seg ++ seg') ∧ (ts = seg' ∨ ts = seg' ++ [.semi]) := by
  induction n generalizing tree seg ts with
  | zero => omega
  | succ n ih =>
      rw [sequence, token_bind, current_before] at h
      split at h
      · next hsemi =>
        obtain ⟨ts, rfl⟩ : ∃ us, ts = .semi :: us :=
          eq_cons_of_headD_eq_token .sequential hsemi
        obtain ⟨_, q, hadvance, h⟩ := of_bind_eq_ok h
        obtain ⟨rfl, hclean⟩ := of_advance_eq_ok hadvance
        rw [token_bind, current_before] at h
        have heof' : Token.eof ∉ ts := fun hmem => heof (List.mem_cons_of_mem _ hmem)
        split at h
        · next hnil =>
          cases h
          obtain rfl := (headD_eof_eq_eof_iff heof').mp hnil
          refine ⟨hclean rfl, [], ?_, .inr rfl⟩
          rw [List.append_nil]
          exact hfits
        · obtain ⟨right, q, hright, h⟩ := of_bind_eq_ok h
          obtain ⟨rs, rest, rfl, rfl, hclean, hr, -⟩ := parallel_reads.sound hright hclean
          have hlength : rest.length < n := by
            rw [List.length_cons, List.length_append] at hn
            omega
          have hnode : Fits 0 (.node .sequential tree right) (seg ++ .semi :: rs) :=
            hfits.node hr rfl
          obtain ⟨hf, seg', hfits', hrest⟩ := ih h
            (fun hmem => heof' (List.mem_append_right _ hmem)) hlength hclean hnode
          refine ⟨hf, .semi :: rs ++ seg', ?_, ?_⟩
          · rw [← List.append_assoc]
            exact hfits'
          · rcases hrest with rfl | rfl
            · exact .inl rfl
            · refine .inr ?_
              rw [List.cons_append, List.cons_append, List.append_assoc]
      · cases h
        rw [current_before] at hend
        obtain rfl := (headD_eof_eq_eof_iff heof).mp hend
        refine ⟨hclean rfl, [], ?_, .inl rfl⟩
        rw [List.append_nil]
        exact hfits

/-- What the reader gives for a line: the tree that the line's tokens
spell, up to a last `;`. -/
theorem command_eq_ok_some_iff {tree : Tree} (heof : Token.eof ∉ ts) (hclean : Clean f ts) :
    (∃ p', command (before f ts) = .ok (some tree) p') ↔
      f = none ∧ ∃ seg, Fits 0 tree seg ∧ (ts = seg ∨ ts = seg ++ [.semi]) := by
  constructor
  · rintro ⟨p', h⟩
    rw [command, token_bind] at h
    split at h
    · cases h
    · obtain ⟨first, q, hfirst, h⟩ := of_bind_eq_ok h
      obtain ⟨seg, rest, rfl, rfl, hclean, hfits, -⟩ := parallel_reads.sound hfirst hclean
      rw [get_bind] at h
      obtain ⟨tree', q, hsequence, h⟩ := of_bind_eq_ok h
      rw [token_bind] at h
      have hend : q.current = .eof := by
        cases hcurrent : q.current with
        | eof => rfl
        | _ =>
            rw [hcurrent] at h
            cases h
      rw [hend] at h
      cases h
      obtain ⟨hf, seg', hfits', hrest⟩ := of_sequence_eq_ok hsequence hend
        (fun hmem => heof (List.mem_append_right _ hmem)) lt_rounds_before hclean
        ⟨hfits.spelled, hfits.shaped, Nat.zero_le _⟩
      refine ⟨hf, seg ++ seg', hfits', ?_⟩
      rcases hrest with rfl | rfl
      · exact .inl rfl
      · exact .inr (List.append_assoc ..).symm
  · rintro ⟨rfl, seg, hfits, hts⟩
    obtain ⟨rest, rfl, hrest⟩ : ∃ rest, ts = seg ++ rest ∧ (rest = [] ∨ rest = [.semi]) := by
      rcases hts with rfl | rfl
      · exact ⟨[], (List.append_nil _).symm, .inl rfl⟩
      · exact ⟨[.semi], rfl, .inr rfl⟩
    have hstops : Stops 1 rest := by
      rcases hrest with rfl | rfl
      · exact stops_nil
      · show Stops 1 (Operator.sequential.token :: [])
        exact stops_token Nat.zero_lt_one
    obtain ⟨first, q, n, hfirst, hn, hloop⟩ :=
      loop_of_fits (k := 0) (by decide) parallel_reads sequence sequence_round hfits clean_none
        hstops
    have hsequence : sequence n tree (before none rest) = .ok tree (before none []) := by
      obtain ⟨n, rfl⟩ : ∃ m, n = m + 1 := ⟨n - 1, by omega⟩
      rcases hrest with rfl | rfl <;> rfl
    have hcurrent : (before none (seg ++ rest)).current ≠ .eof := by
      obtain ⟨token, hhead, hitem⟩ := hfits.spelled.head
      rw [current_before, List.headD_eq_head?_getD, List.head?_append, hhead]
      rintro rfl
      cases hitem
    refine ⟨before none [], ?_⟩
    rw [command, token_bind, if_neg hcurrent, bind_of_ok hfirst, get_bind,
      bind_of_ok (hloop.trans hsequence)]
    rfl

end Parser

-- ========================================================= lines and their trees

/-- The end of the line is not among its tokens. -/
theorem Token.eof_notMem_ofChars (cs : List Char) : Token.eof ∉ (Scan.ofChars cs).tokens := by
  fun_induction Scan.ofChars cs with
  | case1 | case2 => exact List.not_mem_nil
  | case3 cs t rest hnext ht ih =>
      rintro (_ | ⟨_, hmem⟩)
      · exact ht rfl
      · exact ih hmem

theorem Tree.parse_eq_ok_iff {line : String} {tree : Option Tree} :
    Tree.parse line = .ok tree ↔
      ∃ p, Parser.ofLine line = .ok p ∧ ∃ p', Parser.command p = .ok tree p' := by
  unfold Tree.parse
  split
  · next e he =>
    refine ⟨fun h => (by cases h), fun ⟨p, hp, _⟩ => ?_⟩
    rw [he] at hp
    cases hp
  · next p hp =>
    rw [hp]
    split
    · next t p' hcommand =>
      constructor
      · rintro h
        cases h
        exact ⟨p, rfl, p', hcommand⟩
      · rintro ⟨_, ⟨⟩, q, h⟩
        cases hcommand.symm.trans h
        rfl
    · next e p' hcommand =>
      refine ⟨fun h => (by cases h), ?_⟩
      rintro ⟨_, ⟨⟩, q, h⟩
      cases hcommand.symm.trans h

/-- A line has a tree if and only if its tokens spell it, with or without a
last `;`. -/
theorem Tree.parse_eq_some_iff {line : String} {tree : Tree} :
    Tree.parse line = .ok (some tree) ↔
      (Scan.ofLine line).failure = none ∧ ∃ ts, tree.SpelledBy ts ∧ tree.Shaped ∧
        ((Scan.ofLine line).tokens = ts ∨ (Scan.ofLine line).tokens = ts ++ [.semi]) := by
  have heof : Token.eof ∉ (Scan.ofLine line).tokens := Token.eof_notMem_ofChars line.toList
  rw [Tree.parse_eq_ok_iff]
  constructor
  · rintro ⟨p, hp, hcommand⟩
    obtain ⟨rfl, hclean⟩ := Parser.ofLine_eq_ok_iff.mp hp
    obtain ⟨hf, ts, hfits, hts⟩ := (Parser.command_eq_ok_some_iff heof hclean).mp hcommand
    exact ⟨hf, ts, hfits.spelled, hfits.shaped, hts⟩
  · rintro ⟨hf, ts, hspelled, hshaped, hts⟩
    have hclean : Parser.Clean (Scan.ofLine line).failure (Scan.ofLine line).tokens :=
      fun _ => hf
    refine ⟨_, Parser.ofLine_eq_ok_iff.mpr ⟨rfl, hclean⟩, ?_⟩
    exact (Parser.command_eq_ok_some_iff heof hclean).mpr
      ⟨hf, ts, ⟨hspelled, hshaped, Nat.zero_le _⟩, hts⟩

end LineShell
