/-
Syntax errors are noticed at the first token that is wrong.

Before that token the line could still go on to one that has a tree, with a word
that is a command or names a file (`Within.exists_spelled`). With the token it
cannot, whatever comes then. Where a command was to begin, an operator leaves a
segment empty that is not the last one (`Awaits.not_isLine`). Behind a
redirection operator there is a word in every line that has a tree
(`named_of_spelledBy`).
-/
import LineShell.Proofs.Grammar.Failing
import LineShell.Proofs.Grammar.Segments
import LineShell.Proofs.Grammar.Written

namespace LineShell

open Token (Scan)

namespace Token

variable {ts us more : List Token} {t : Token}

-- ============================================================== could go on

theorem Awaits.within (h : Awaits ts) : Within ts :=
  ⟨ts, [], _, (List.append_nil ts).symm, h, rfl⟩

/-- With words and redirections more, the command that they belong to is one. -/
theorem Within.exists_spelled {x : List String × List (RedirectOp × String)} (h : Within ts)
    (hus : items? us = some x) (hne : us ≠ []) : ∃ tree : Tree, tree.SpelledBy (ts ++ us) := by
  obtain ⟨front, seg, y, rfl, hfront, hseg⟩ := h
  have hitems := items?_append hseg hus
  have hcommand : ∃ c, Command.ofTokens? (seg ++ us) = some c := by
    refine ⟨_, Option.bind_eq_some_iff.mpr ⟨_, hitems, Command.ofItems?_of_ne fun hnil => ?_⟩⟩
    exact hne (List.append_eq_nil_iff.mp (eq_nil_of_items?_eq_nil (hnil ▸ hitems))).2
  obtain ⟨c, hc⟩ := hcommand
  rw [List.append_assoc]
  cases hfront with
  | start => exact ⟨_, .leaf hc⟩
  | operator h =>
      rw [List.append_assoc]
      exact ⟨_, .node h (.leaf hc)⟩

/-- What spells a tree can be written as a line that has one. -/
theorem parse_line_of_spelledBy {tree : Tree} (h : tree.SpelledBy ts) :
    ∃ tree', Tree.parse (line ts) = .ok (some tree') := by
  obtain ⟨tree', hshaped, hspelled⟩ := exists_spelled h.eof_notMem (isCommand_of_spelledBy h)
  refine ⟨tree', Tree.parse_eq_some_iff.mpr ?_⟩
  rw [scan_line h.eof_notMem]
  exact ⟨rfl, ts, hspelled, hshaped, .inl rfl⟩

/-- Some line goes on with these words and redirections, and has a tree. -/
theorem Within.exists_parse {x : List String × List (RedirectOp × String)} (h : Within ts)
    (hus : items? us = some x) (hne : us ≠ []) :
    ∃ l tree, Scan.ofLine l = ⟨ts ++ us, none⟩ ∧ Tree.parse l = .ok (some tree) := by
  obtain ⟨tree, hspelled⟩ := h.exists_spelled hus hne
  obtain ⟨tree', hparse⟩ := parse_line_of_spelledBy hspelled
  exact ⟨_, tree', scan_line hspelled.eof_notMem, hparse⟩

-- ================================================================ cannot go on

/-- A line that is accepted and not blank: its tokens spell a tree, but for a
last `;`. -/
theorem spelledBy_of_parse {l : String} {tree : Option Tree} (h : Tree.parse l = .ok tree)
    (hne : (Scan.ofLine l).tokens ≠ []) : ∃ t : Tree, ∃ ts, t.SpelledBy ts ∧
      ((Scan.ofLine l).tokens = ts ∨ (Scan.ofLine l).tokens = ts ++ [.semi]) := by
  cases tree with
  | none =>
      obtain ⟨p, hp, p', hcommand⟩ := Tree.parse_eq_ok_iff.mp h
      obtain ⟨rfl, -⟩ := Parser.ofLine_eq_ok_iff.mp hp
      exact absurd (Parser.eq_nil_of_command_eq_none (eof_notMem_ofChars l.toList) hcommand) hne
  | some t =>
      obtain ⟨-, ts, hspelled, -, hts⟩ := Tree.parse_eq_some_iff.mp h
      exact ⟨t, ts, hspelled, hts⟩

/-- No segment but the last one may be empty. -/
theorem not_isLine_of_split (segs : List (List Token)) {segs' : List (List Token)}
    (h : ts.splitOnP isControl = segs ++ [] :: segs') (hne : segs' ≠ []) : ¬ IsLine ts := by
  intro hline
  have hseg : (ts.splitOnP isControl)[segs.length]? = some [] := by
    rw [h, List.getElem?_append_right (Nat.le_refl _), Nat.sub_self]
    rfl
  have hpos := List.length_pos_iff.mpr hne
  rcases hline _ _ hseg with hcommand | ⟨-, -, hlast, -⟩
  · exact hcommand.nonempty rfl
  · rw [h, List.length_append, List.length_cons] at hlast
    omega

/-- Where a command has to begin, no operator stands. -/
theorem Awaits.not_isLine (h : Awaits ts) (ht : t.isControl = true) :
    ¬ IsLine (ts ++ t :: more) := by
  have hmore : (t :: more).splitOnP isControl = [] :: more.splitOnP isControl :=
    List.splitOnP_append_cons [] more ht
  cases h with
  | start => exact not_isLine_of_split [] hmore (List.splitOnP_ne_nil _ _)
  | @operator tree us op h =>
      refine not_isLine_of_split (us.splitOnP isControl) ?_
        (List.splitOnP_ne_nil isControl more)
      rw [List.append_assoc, List.singleton_append,
        List.splitOnP_append_cons us _ (isControl_token op), hmore]

/-- Behind them stands no redirection operator. -/
theorem Awaits.getLast (h : Awaits ts) : ¬ ∃ op, ts.getLast? = some (.redirect op) := by
  rintro ⟨redirection, hlast⟩
  cases h with
  | start => cases hlast
  | @operator tree us op h =>
      rw [List.getLast?_concat] at hlast
      cases op <;> cases hlast

theorem Named.append (hts : Named ts) (hus : Named us) : Named (ts ++ us) := by
  intro i op hi
  rcases Nat.lt_or_ge i ts.length with hlt | hge
  · rw [List.getElem?_append_left hlt] at hi
    obtain ⟨path, hpath⟩ := hts i op hi
    obtain ⟨hlt, -⟩ := List.getElem?_eq_some_iff.mp hpath
    exact ⟨path, (List.getElem?_append_left hlt).trans hpath⟩
  · rw [List.getElem?_append_right hge] at hi
    obtain ⟨path, hpath⟩ := hus _ op hi
    refine ⟨path, ?_⟩
    rw [List.getElem?_append_right (Nat.le_succ_of_le hge), Nat.succ_sub hge]
    exact hpath

theorem named_singleton (ht : ∀ op, t ≠ .redirect op) : Named [t] := by
  intro i op hi
  cases i with
  | zero => exact absurd (Option.some.inj hi) (ht op)
  | succ i => cases hi

/-- Where a file name is expected, no other token stands. -/
theorem not_named {op : RedirectOp} (ht : ∀ path, t ≠ .word path) :
    ¬ Named (ts ++ .redirect op :: t :: more) := by
  intro h
  obtain ⟨path, hpath⟩ := h ts.length op (by
    rw [List.getElem?_append_right (Nat.le_refl _), Nat.sub_self]
    rfl)
  rw [List.getElem?_append_right (Nat.le_succ _), Nat.succ_sub (Nat.le_refl _), Nat.sub_self]
    at hpath
  exact ht path (Option.some.inj hpath)

/-- Behind every redirection operator of a spelling is a word. -/
theorem named_of_spelledBy {tree : Tree} (h : tree.SpelledBy ts) : Named ts := by
  induction h with
  | leaf hc =>
      obtain ⟨words, redirects, hitems, -, -⟩ := Command.of_ofTokens? hc
      exact (items?_isSome_iff (isItem_of_items? hitems)).mp (Option.isSome_of_eq_some hitems)
  | @node op _ _ _ _ _ _ ihl ihr =>
      have hop : Named [op.token] := named_singleton fun redirection heq => by
        cases op <;> cases heq
      exact ihl.append (hop.append ihr)

/-- So there is in every line that is accepted. -/
theorem named_of_parse {l : String} {tree : Option Tree} (h : Tree.parse l = .ok tree)
    (hne : (Scan.ofLine l).tokens ≠ []) : Named (Scan.ofLine l).tokens := by
  obtain ⟨t, ts, hspelled, hts | hts⟩ := spelledBy_of_parse h hne
  · rw [hts]
    exact named_of_spelledBy hspelled
  · rw [hts]
    exact (named_of_spelledBy hspelled).append (named_singleton nofun)

theorem isLine_of_parse {l : String} {tree : Option Tree} (h : Tree.parse l = .ok tree)
    (hne : (Scan.ofLine l).tokens ≠ []) : IsLine (Scan.ofLine l).tokens := by
  obtain ⟨t, ts, hspelled, hts⟩ := spelledBy_of_parse h hne
  exact isLine_iff.mpr ⟨ts, isCommand_of_spelledBy hspelled, hts⟩

/-- No line is accepted with an operator where a command has to begin. -/
theorem Awaits.parse_ne_ok {l : String} (h : Awaits ts) (ht : t.isControl = true)
    (hl : (Scan.ofLine l).tokens = ts ++ t :: more) (tree : Option Tree) :
    Tree.parse l ≠ .ok tree := by
  intro hparse
  have hline := isLine_of_parse hparse (by rw [hl]; simp)
  rw [hl] at hline
  exact h.not_isLine ht hline

/-- No line is accepted without the name of a file where one is expected. -/
theorem parse_ne_ok_of_unnamed {l : String} {op : RedirectOp} (ht : ∀ path, t ≠ .word path)
    (hl : (Scan.ofLine l).tokens = ts ++ .redirect op :: t :: more) (tree : Option Tree) :
    Tree.parse l ≠ .ok tree := by
  intro hparse
  have hnamed := named_of_parse hparse (by rw [hl]; simp)
  rw [hl] at hnamed
  exact not_named ht hnamed

end Token

namespace Parser

open Token (Awaits Within Named IsLine)

variable {p q : Parser} {e : SyntaxError}

/-- The wordings of the two errors differ. -/
theorem expectedCommand_message_ne (x : Token) :
    (SyntaxError.expectedCommand x).message ≠ SyntaxError.expectedFilename.message := by
  intro h
  have hprefix : "expected command, found ".toList <+:
      "expected filename after redirection operator".toList := by
    refine ⟨x.name.toList, ?_⟩
    rw [← String.toList_append]
    exact congrArg String.toList h
  exact absurd hprefix (by decide +kernel)

/-- Where a line that can be scanned is rejected, the tokens before the one at
which the reader stands could still have gone on to an accepted line; with that
token they could not. A file name was expected directly behind a redirection
operator, and anywhere else a command. -/
theorem error_at_offence {line : String} (hscan : (Scan.ofLine line).failure = none)
    (hline : ofLine line = .ok p) (herror : command p = .error e q) :
    ∃ front rest, (Scan.ofLine line).tokens = front ++ rest ∧ q = before none rest ∧
      (∃ line' more tree, Scan.ofLine line' = ⟨front ++ more, none⟩ ∧
        Tree.parse line' = .ok (some tree)) ∧
      (q.current ≠ .eof → ∀ line' more, (Scan.ofLine line').tokens = front ++ q.current :: more →
        ∀ tree, Tree.parse line' ≠ .ok tree) ∧
      (e.message = "expected filename after redirection operator" ↔
        ∃ op, front.getLast? = some (.redirect op)) ∧
      ((¬ ∃ op, front.getLast? = some (.redirect op)) →
        e.message = "expected command, found " ++ q.current.name) := by
  obtain ⟨rfl, hclean⟩ := ofLine_eq_ok_iff.mp hline
  have hbreaks := breaks_of_command hclean (Token.eof_notMem_ofChars line.toList) herror
  rw [hscan] at hbreaks
  generalize (Scan.ofLine line).tokens = ts at hbreaks
  cases hbreaks with
  | @command front us hts hfront _ hstop =>
      refine ⟨front, us, hts, rfl, ?_, fun hne line' more hline' => ?_, ?_, fun _ => ?_⟩
      · have hword : Token.items? [.word ""] = some ([""], []) := rfl
        obtain ⟨line', tree, hscan', hparse⟩ := hfront.within.exists_parse hword nofun
        exact ⟨line', _, tree, hscan', hparse⟩
      · have hcontrol : (before none us).current.isControl = true := by
          cases us with
          | nil => exact absurd rfl hne
          | cons t us => exact Token.isControl_of_isItem_eq_false (hstop t rfl) hne
        exact hfront.parse_ne_ok hcontrol hline'
      · exact ⟨fun h => absurd h (expectedCommand_message_ne _), fun h => absurd h hfront.getLast⟩
      · rw [current_before]
        rfl
  | @filename front us op hts hfront hclean hstop =>
      refine ⟨front ++ [.redirect op], us, ?_, rfl, ?_, fun hne line' more hline' => ?_, ?_,
        fun hnot => ?_⟩
      · rw [hts, List.append_assoc, List.singleton_append]
      · have hredirect : Token.items? [.redirect op, .word ""] = some ([], [(op, "")]) := rfl
        obtain ⟨line', tree, hscan', hparse⟩ := hfront.exists_parse hredirect nofun
        refine ⟨line', [.word ""], tree, ?_, hparse⟩
        rw [hscan', List.append_assoc]
        rfl
      · have hword : ∀ path, (before none us).current ≠ .word path := by
          intro path hpath
          cases us with
          | nil => cases hpath
          | cons t us => exact hstop path (congrArg some hpath)
        rw [List.append_assoc, List.singleton_append] at hline'
        exact Token.parse_ne_ok_of_unnamed hword hline'
      · exact ⟨fun _ => ⟨op, List.getLast?_concat⟩, fun _ => rfl⟩
      · exact absurd ⟨op, List.getLast?_concat⟩ hnot
  | quote hf => cases hf

/-- Behind a redirection operator a `;` is noticed, although behind the word that
is missing it would be right. -/
theorem error_at_offence_semi :
    (Scan.ofLine "a | b 2>> ; c").failure = none ∧
    ∃ p q, ofLine "a | b 2>> ; c" = .ok p ∧ command p = .error .expectedFilename q ∧
      q = before none [.semi, .word "c"] ∧
      (∃ line' more tree,
        Scan.ofLine line' = ⟨[.word "a", .pipe, .word "b", .redirect .errorAppend] ++ more, none⟩ ∧
        Tree.parse line' = .ok (some tree)) ∧
      ∀ line' more, (Scan.ofLine line').tokens =
          [.word "a", .pipe, .word "b", .redirect .errorAppend, .semi] ++ more →
        ∀ tree, Tree.parse line' ≠ .ok tree := by
  have hscan : Scan.ofLine "a | b 2>> ; c" = ⟨[.word "a", .pipe, .word "b",
      .redirect .errorAppend, .semi, .word "c"], none⟩ := by
    decide +kernel
  have hfailure : (Scan.ofLine "a | b 2>> ; c").failure = none := by rw [hscan]
  have hline : ofLine "a | b 2>> ; c" = .ok (before none [.word "a", .pipe, .word "b",
      .redirect .errorAppend, .semi, .word "c"]) := by
    decide +kernel
  have herror : command (before none [.word "a", .pipe, .word "b", .redirect .errorAppend, .semi,
      .word "c"]) = .error .expectedFilename (before none [.semi, .word "c"]) := rfl
  obtain ⟨front, rest, htokens, hrest, hmore, hnone, -, -⟩ :=
    error_at_offence hfailure hline herror
  obtain rfl : rest = [.semi, .word "c"] := by
    cases rest with
    | nil => cases hrest
    | cons t rest => cases hrest; rfl
  obtain rfl : front = [.word "a", .pipe, .word "b", .redirect .errorAppend] := by
    rw [hscan] at htokens
    have hcut : [.word "a", .pipe, .word "b", .redirect .errorAppend] ++ [.semi, .word "c"] =
        front ++ [.semi, .word "c"] := htokens
    exact (List.append_cancel_right hcut).symm
  exact ⟨hfailure, _, _, hline, herror, rfl, hmore, hnone nofun⟩

end Parser

end LineShell
