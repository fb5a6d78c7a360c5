/-
Asking a reader for a command again and again: after a few answers it
repeats itself.

Behind a command it stands at the end of the line; where it stands after a
failure depends on the kind of the failure (`Breaks`). A reader that stands
at the end of the line or at a control operator gives one answer for ever
(`Settled`). Each other answer uses something up, a token or the failure at
the end of the tokens, so there are at most one more of them than tokens
(`Standing.settled`).
-/
import LineShell.Proofs.Grammar.Failing
import LineShell.Proofs.Grammar.Quotes

namespace LineShell

open Token (Scan)

-- ======================================================== scans that fail

/-- A line can fail only because of an open quote. -/
theorem Token.unterminated_of_ofChars {cs : List Char} {e : SyntaxError}
    (h : (Scan.ofChars cs).failure = some e) : ∃ quote, e = .unterminated quote := by
  rw [Token.failure_ofChars] at h
  obtain ⟨quote, -, rfl⟩ := Option.map_eq_some_iff.mp h
  exact ⟨quote, rfl⟩

namespace Parser

variable {p q : Parser} {f : Option SyntaxError} {e : SyntaxError} {t : Token}
  {ts us : List Token}

-- ============================================================ one request

/-- What the reader answers when it is asked for a command, and where it
stands then. -/
def ask (p : Parser) : Except SyntaxError (Option Tree) × Parser :=
  match command p with
  | .ok tree q => (.ok tree, q)
  | .error e q => (.error e, q)

theorem ask_of_ok {tree : Option Tree} (h : command p = .ok tree q) : p.ask = (.ok tree, q) := by
  rw [ask, h]

theorem ask_of_error (h : command p = .error e q) : p.ask = (.error e, q) := by
  rw [ask, h]

/-- Away from the end of the line, a command is read up to there. -/
theorem command_of_ne_eof (h : p.current ≠ .eof) :
    command p =
      (parallel >>= fun first => get >>= fun q => sequence q.rounds first >>= fun tree =>
        token >>= fun t => match t with
          | .eof => pure (some tree)
          | t => throw (.unexpected t)) p := by
  rw [command, token_bind]
  exact congrFun (if_neg h) p

/-- One request, before the rest of a line: at its end there is no command;
else the command takes all the rest, or the request fails. -/
theorem ask_cases (hclean : Clean f ts) (heof : Token.eof ∉ ts) :
    ts = [] ∧ (before f ts).ask = (.ok none, before f ts) ∨
    (∃ tree, (before f ts).ask = (.ok (some tree), before none [])) ∨
    ∃ e q, (before f ts).ask = (.error e, q) ∧ Breaks f ts e q := by
  by_cases hnil : ts = []
  · refine .inl ⟨hnil, ask_of_ok ?_⟩
    rw [command, token_bind, current_before, if_pos ((headD_eof_eq_eof_iff heof).mpr hnil)]
    rfl
  refine .inr ?_
  cases hcommand : command (before f ts) with
  | error e q =>
      exact .inr ⟨e, q, ask_of_error hcommand, breaks_of_command hclean heof hcommand⟩
  | ok tree q =>
      have hask := ask_of_ok hcommand
      rw [command_of_ne_eof (current_before ▸ mt (headD_eof_eq_eof_iff heof).mp hnil)] at hcommand
      obtain ⟨first, p', hfirst, hcommand⟩ := of_bind_eq_ok hcommand
      obtain ⟨seg, rest, rfl, rfl, hrest, -, hstops⟩ := parallel_reads.sound hfirst hclean
      rw [get_bind] at hcommand
      obtain ⟨tree', p', hsequence, hcommand⟩ := of_bind_eq_ok hcommand
      obtain rfl := current_of_sequence hsequence lt_rounds_before hrest hstops
        fun hmem => heof (List.mem_append_right _ hmem)
      cases hcommand
      exact .inl ⟨tree', hask⟩

-- ============================================================ many requests

/-- The reader once so many commands have been asked for. -/
def asked (p : Parser) : Nat → Parser
  | 0 => p
  | n + 1 => p.ask.2.asked n

/-- Its answer to the request after those. -/
def answer (p : Parser) (n : Nat) : Except SyntaxError (Option Tree) := (p.asked n).ask.1

theorem asked_add (p : Parser) (n m : Nat) : p.asked (n + m) = (p.asked n).asked m := by
  induction n generalizing p with
  | zero => rw [Nat.zero_add, asked]
  | succ n ih => rw [Nat.succ_add, asked, asked, ih]

/-- The reader gives this answer and stays as it is. -/
def Settled (p : Parser) (a : Except SyntaxError (Option Tree)) : Prop := p.ask = (a, p)

section Settled

variable {a : Except SyntaxError (Option Tree)}

theorem Settled.asked (h : p.Settled a) (n : Nat) : (p.asked n).Settled a := by
  induction n with
  | zero => exact h
  | succ n ih =>
      rw [Parser.asked, h]
      exact ih

theorem Settled.answer {n m : Nat} (h : (p.asked n).Settled a) (hle : n ≤ m) :
    p.answer m = a := by
  obtain ⟨k, rfl⟩ := Nat.exists_eq_add_of_le hle
  have hasked : (p.asked (n + k)).Settled a := by
    rw [asked_add]
    exact h.asked k
  exact congrArg Prod.fst hasked

end Settled

theorem settled_end : (before none []).Settled (.ok none) := rfl

/-- At a control operator there is no command. -/
theorem settled_control (hitem : t.isItem = false) (ht : t ≠ .eof) :
    (before f (t :: ts)).Settled (.error (.expectedCommand t)) := by
  have hitems : items (before f (t :: ts)).rounds (before f (t :: ts)) = .ok ([], [])
      (before f (t :: ts)) :=
    items_before_stop fun u hu => Option.mem_some.mp hu ▸ hitem
  have hsimple : simple (before f (t :: ts)) =
      .error (.expectedCommand t) (before f (t :: ts)) := by
    unfold simple
    rw [get_bind, bind_of_ok hitems]
    rfl
  have hleaf : (Tree.leaf <$> simple) (before f (t :: ts)) =
      .error (.expectedCommand t) (before f (t :: ts)) :=
    bind_of_error (k := fun c => pure (Tree.leaf c)) hsimple
  have hparallel : parallel (before f (t :: ts)) =
      .error (.expectedCommand t) (before f (t :: ts)) :=
    bind_of_error (bind_of_error (bind_of_error hleaf))
  exact ask_of_error ((command_of_ne_eof ht).trans (bind_of_error hparallel))

/-- Where a command was missing, the reader has settled. -/
theorem settled_of_stop (hclean : Clean f us) (heof : Token.eof ∉ us)
    (hstop : ∀ t ∈ us.head?, t.isItem = false) :
    us.headD .eof = .eof ∧ (before f us).Settled (.ok none) ∨
    (us.headD .eof).isControl = true ∧
      (before f us).Settled (.error (.expectedCommand (us.headD .eof))) := by
  cases us with
  | nil =>
      obtain rfl := hclean rfl
      exact .inl ⟨rfl, settled_end⟩
  | cons t us =>
      have ht : t ≠ .eof := fun h => heof (h ▸ List.mem_cons_self)
      have hitem := hstop t rfl
      refine .inr ⟨?_, settled_control hitem ht⟩
      cases t with
      | word _ | redirect _ => cases hitem
      | eof => exact absurd rfl ht
      | pipe | or | and | background | semi => rfl

/-- The reader stands before the rest of a line whose failure, if there is
one, is an open quote. -/
structure Standing (p : Parser) (f : Option SyntaxError) (ts : List Token) : Prop where
  eq : p = before f ts
  clean : Clean f ts
  eof : Token.eof ∉ ts
  quote : ∀ e ∈ f, ∃ quote, e = .unterminated quote

/-- An answer, and what the reader may answer after it. -/
inductive Reply (f : Option SyntaxError) (ts : List Token) :
    Except SyntaxError (Option Tree) → Parser → Prop where
  | ok {tree : Option Tree} {q : Parser} (hsettled : q.Settled (.ok none)) :
      Reply f ts (.ok tree) q
  | command {x : Token} {q : Parser}
      (hsettled : x = .eof ∧ q.Settled (.ok none) ∨
        x.isControl = true ∧ q.Settled (.error (.expectedCommand x))) :
      Reply f ts (.error (.expectedCommand x)) q
  | filename {us : List Token} {q : Parser} (hlt : us.length < ts.length)
      (hstanding : Standing q f us) : Reply f ts (.error .expectedFilename) q
  | quote {quote : Char} {t : Token} {q : Parser} (hf : f ≠ none) (hts : ts ≠ [])
      (hstanding : Standing q none [t]) : Reply f ts (.error (.unterminated quote)) q

/-- What is left to read is a part of what was, whatever fails. -/
theorem Standing.reply (h : Standing p f ts) :
    Reply f ts p.ask.1 p.ask.2 ∧
      ∃ g us, Standing p.ask.2 g us ∧ (g = f ∨ g = none) := by
  obtain ⟨rfl, hclean, heof, hquote⟩ := h
  have hend : Standing (before none []) none [] :=
    ⟨rfl, clean_none, List.not_mem_nil, fun _ he => by cases he⟩
  rcases ask_cases hclean heof with ⟨rfl, hask⟩ | ⟨tree, hask⟩ | ⟨e, q, hask, hbreaks⟩
  · obtain rfl := hclean rfl
    rw [hask]
    exact ⟨.ok settled_end, none, [], hend, .inr rfl⟩
  · rw [hask]
    exact ⟨.ok settled_end, none, [], hend, .inr rfl⟩
  · rw [hask]
    cases hbreaks with
    | @command front us hts _ hclean hstop =>
        have heof : Token.eof ∉ us := fun hmem => heof (hts ▸ List.mem_append_right _ hmem)
        exact ⟨.command (settled_of_stop hclean heof hstop), f, us,
          ⟨rfl, hclean, heof, hquote⟩, .inl rfl⟩
    | @filename front us op hts _ hclean =>
        have hstanding : Standing (before f us) f us := by
          refine ⟨rfl, hclean, fun hmem => heof ?_, hquote⟩
          exact hts ▸ List.mem_append_right _ (List.mem_cons_of_mem _ hmem)
        have hlt : us.length < ts.length := by
          rw [hts, List.length_append, List.length_cons]
          omega
        exact ⟨.filename hlt hstanding, f, us, hstanding, .inl rfl⟩
    | @quote _ t hf hmem =>
        obtain ⟨quote, rfl⟩ := hquote e hf
        have hstanding : Standing (before none [t]) none [t] := by
          refine ⟨rfl, clean_none, fun h => ?_, fun _ he => by cases he⟩
          exact heof (List.mem_singleton.mp h ▸ hmem)
        refine ⟨.quote ?_ (List.ne_nil_of_mem hmem) hstanding, none, [t], hstanding, .inr rfl⟩
        rw [hf]
        exact Option.some_ne_none _

theorem Standing.asked (h : Standing p f ts) (n : Nat) :
    ∃ g us, Standing (p.asked n) g us ∧ (g = f ∨ g = none) := by
  induction n generalizing p f ts with
  | zero => exact ⟨f, ts, h, .inl rfl⟩
  | succ n ih =>
      obtain ⟨-, g, us, hstanding, hg⟩ := h.reply
      obtain ⟨g', us', hstanding', hg'⟩ := ih hstanding
      refine ⟨g', us', hstanding', ?_⟩
      rcases hg' with rfl | rfl
      · exact hg
      · exact .inr rfl

/-- What the reader may still use up: tokens, and the failure behind them. -/
def left (f : Option SyntaxError) (ts : List Token) : Nat := ts.length + f.toList.length

/-- The answer of a reader that has nothing to use up. -/
def Final (a : Except SyntaxError (Option Tree)) : Prop :=
  a = .ok none ∨ ∃ x : Token, x.isControl = true ∧ a = .error (.expectedCommand x)

/-- Every answer but the last uses something up. -/
theorem Standing.settled {n : Nat} (h : Standing p f ts) (hn : left f ts ≤ n) :
    ∃ a, Final a ∧ (p.asked n).Settled a := by
  induction n generalizing p f ts with
  | zero =>
      obtain rfl : ts = [] := List.eq_nil_of_length_eq_zero (by unfold left at hn; omega)
      obtain rfl := h.clean rfl
      obtain rfl := h.eq
      exact ⟨_, .inl rfl, settled_end⟩
  | succ n ih =>
      have hreply := h.reply.1
      rw [Parser.asked]
      generalize p.ask.1 = a at hreply
      generalize p.ask.2 = q at hreply ⊢
      cases hreply with
      | ok hsettled => exact ⟨_, .inl rfl, hsettled.asked n⟩
      | @command x _ hsettled =>
          rcases hsettled with ⟨-, hsettled⟩ | ⟨hx, hsettled⟩
          · exact ⟨_, .inl rfl, hsettled.asked n⟩
          · exact ⟨_, .inr ⟨x, hx, rfl⟩, hsettled.asked n⟩
      | filename hlt hstanding =>
          refine ih hstanding ?_
          unfold left at hn ⊢
          omega
      | quote hf hts hstanding =>
          refine ih hstanding ?_
          obtain ⟨e, rfl⟩ := Option.ne_none_iff_exists'.mp hf
          have hpos := List.length_pos_iff.mpr hts
          simp only [left, Option.toList_some, Option.toList_none, List.length_cons,
            List.length_nil] at hn ⊢
          omega

theorem standing_of_ofLine {line : String} (h : ofLine line = .ok p) :
    Standing p (Scan.ofLine line).failure (Scan.ofLine line).tokens := by
  obtain ⟨rfl, hclean⟩ := ofLine_eq_ok_iff.mp h
  exact ⟨rfl, hclean, Token.eof_notMem_ofChars line.toList,
    fun _ he => Token.unterminated_of_ofChars he⟩

section Answers

variable {i j : Nat} (h : Standing p f ts)
include h

theorem Standing.answer_of_ok {tree : Option Tree} (hi : p.answer i = .ok tree) (hlt : i < j) :
    p.answer j = .ok none := by
  obtain ⟨g, us, hstanding, -⟩ := h.asked i
  have hreply := hstanding.reply.1
  rw [show (p.asked i).ask.1 = .ok tree from hi] at hreply
  cases hreply with
  | ok hsettled =>
      rw [show (p.asked i).ask.2 = p.asked (i + 1) from (asked_add p i 1).symm] at hsettled
      exact hsettled.answer hlt

theorem Standing.answer_of_expectedCommand {x : Token}
    (hi : p.answer i = .error (.expectedCommand x)) :
    x = .eof ∧ (∀ j, i < j → p.answer j = .ok none) ∨
    x.isControl = true ∧ ∀ j, i < j → p.answer j = .error (.expectedCommand x) := by
  obtain ⟨g, us, hstanding, -⟩ := h.asked i
  have hreply := hstanding.reply.1
  rw [show (p.asked i).ask.1 = .error (.expectedCommand x) from hi] at hreply
  cases hreply with
  | command hsettled =>
      rw [show (p.asked i).ask.2 = p.asked (i + 1) from (asked_add p i 1).symm] at hsettled
      exact hsettled.imp (fun ⟨hx, hsettled⟩ => ⟨hx, fun j hlt => hsettled.answer hlt⟩)
        (fun ⟨hx, hsettled⟩ => ⟨hx, fun j hlt => hsettled.answer hlt⟩)

/-- An open quote is noticed once. -/
theorem Standing.not_unterminated_again {a b : Char} (hi : p.answer i = .error (.unterminated a))
    (hlt : i < j) : p.answer j ≠ .error (.unterminated b) := by
  intro hj
  obtain ⟨g, us, hstanding, -⟩ := h.asked i
  have hreply := hstanding.reply.1
  rw [show (p.asked i).ask.1 = .error (.unterminated a) from hi] at hreply
  cases hreply with
  | quote _ _ hstanding =>
      obtain ⟨k, rfl⟩ := Nat.exists_eq_add_of_le hlt
      obtain ⟨g', us', hstanding, hg⟩ := hstanding.asked k
      obtain rfl : g' = none := hg.elim id id
      rw [show (p.asked i).ask.2 = p.asked (i + 1) from (asked_add p i 1).symm, ← asked_add]
        at hstanding
      have hreply := hstanding.reply.1
      rw [show (p.asked (i + 1 + k)).ask.1 = .error (.unterminated b) from hj] at hreply
      cases hreply with
      | quote hf => exact hf rfl

end Answers

/-- A reader that is asked again and again gives a command at most once and
notices an open quote at most once. It has no command after an answer that
is none or a command; where a command was missing it says so for ever at a
control operator, and has no command at the end of the line. After one more
answer than there are tokens, and one for the open quote, all answers are
the same. -/
theorem answers_settle {line : String} (h : ofLine line = .ok p) :
    (∀ i j t u, p.answer i = .ok (some t) → p.answer j = .ok (some u) → i = j) ∧
    (∀ i j tree, i < j → p.answer i = .ok tree → p.answer j = .ok none) ∧
    (∀ i x, p.answer i = .error (.expectedCommand x) →
      x = .eof ∧ (∀ j, i < j → p.answer j = .ok none) ∨
      x.isControl = true ∧ ∀ j, i < j → p.answer j = .error (.expectedCommand x)) ∧
    (∀ i j a b, p.answer i = .error (.unterminated a) → p.answer j = .error (.unterminated b) →
      i = j) ∧
    ∃ a, (a = .ok none ∨ ∃ x : Token, x.isControl = true ∧ a = .error (.expectedCommand x)) ∧
      ∀ n, (Scan.ofLine line).tokens.length + 1 ≤ n → p.answer n = a := by
  have hstanding := standing_of_ofLine h
  refine ⟨fun i j t u hi hj => ?_, fun i j tree hlt hi => hstanding.answer_of_ok hi hlt,
    fun i x hi => hstanding.answer_of_expectedCommand hi, fun i j a b hi hj => ?_, ?_⟩
  · have hnot {i j : Nat} {t u : Tree} (hi : p.answer i = .ok (some t))
        (hj : p.answer j = .ok (some u)) : ¬ i < j := fun hlt => by
      cases hj.symm.trans (hstanding.answer_of_ok hi hlt)
    exact Nat.le_antisymm (Nat.le_of_not_lt (hnot hj hi)) (Nat.le_of_not_lt (hnot hi hj))
  · exact Nat.le_antisymm
      (Nat.le_of_not_lt fun hlt => hstanding.not_unterminated_again hj hlt hi)
      (Nat.le_of_not_lt fun hlt => hstanding.not_unterminated_again hi hlt hj)
  · obtain ⟨a, hfinal, hsettled⟩ := hstanding.settled
      (n := (Scan.ofLine line).tokens.length + 1) (by
        unfold left
        exact Nat.add_le_add_left Option.length_toList_le _)
    exact ⟨a, hfinal, fun n hn => hsettled.answer hn⟩

/-- Two missing file names, an open quote, a third missing file name: from
the fourth answer on there is no command. -/
theorem answers_settle_open_quote :
    ∃ p, ofLine "> > \x27" = .ok p ∧ (Scan.ofLine "> > \x27").tokens.length = 2 ∧
      p.answer 0 = .error .expectedFilename ∧ p.answer 1 = .error (.unterminated '\x27') ∧
      p.answer 2 = .error .expectedFilename ∧ ∀ n, 3 ≤ n → p.answer n = .ok none := by
  have hline : ofLine "> > \x27" =
      .ok (before (some (.unterminated '\x27')) [.redirect .output, .redirect .output]) := by
    decide +kernel
  have hlength : (Scan.ofLine "> > \x27").tokens.length = 2 := by decide +kernel
  obtain ⟨-, -, -, -, a, -, hsame⟩ := answers_settle hline
  rw [hlength] at hsame
  refine ⟨_, hline, hlength, rfl, rfl, rfl, fun n hn => ?_⟩
  exact (hsame n hn).trans (hsame 3 (Nat.le_refl _)).symm

end Parser

end LineShell
