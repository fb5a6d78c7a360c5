/-
Which lines have a tree: those all of whose segments are commands.

The control operators cut a line into segments. Whether a segment is a
command can be seen from it alone (`Token.IsCommand`): it is not empty,
and each redirection has its file. The levels of the grammar play no part
in that: once all segments are commands there is a tree, whatever the
operators between them are, since each operator and the command after it
join the tree of what stands before them (`Tree.join`). That is an
induction from the right end of the line (`exists_spelled_append`).

The one exception is the segment after a last `;`, which may be empty.
-/
import LineShell.Proofs.Grammar.Reader

namespace LineShell

open Token (Scan)

namespace Token

-- =============================================================== segments

/-- Directly after each redirection operator is a word. -/
def Named (seg : List Token) : Prop :=
  ∀ i op, seg[i]? = some (.redirect op) → ∃ path, seg[i + 1]? = some (.word path)

/-- The segment is a command. -/
structure IsCommand (seg : List Token) : Prop where
  nonempty : seg ≠ []
  named : Named seg

/-- All segments between control operators are commands. Of several the
last may also be empty, if the operator before it is `;`. -/
def IsLine (ts : List Token) : Prop :=
  ∀ i seg, (ts.splitOnP isControl)[i]? = some seg → IsCommand seg ∨
    seg = [] ∧ 0 < i ∧ i + 1 = (ts.splitOnP isControl).length ∧ ts.getLast? = some .semi

theorem isItem_of_isControl_eq_false {t : Token} (h : t.isControl = false) (ht : t ≠ .eof) :
    t.isItem = true := by
  cases t with
  | word w => rfl
  | redirect op => rfl
  | eof => exact absurd rfl ht
  | pipe | or | and | background | semi => cases h

theorem isControl_of_isItem_eq_false {t : Token} (h : t.isItem = false) (ht : t ≠ .eof) :
    t.isControl = true := by
  cases t with
  | pipe | or | and | background | semi => rfl
  | eof => exact absurd rfl ht
  | word w => cases h
  | redirect op => cases h

theorem isControl_eq_false_of_isItem {t : Token} (h : t.isItem = true) : t.isControl = false := by
  cases t with
  | word w => rfl
  | redirect op => rfl
  | pipe | or | and | background | semi | eof => cases h

theorem isControl_token (op : Operator) : op.token.isControl = true := by
  cases op <;> rfl

theorem exists_token_of_isControl {t : Token} (h : t.isControl = true) :
    ∃ op : Operator, t = op.token := by
  cases t with
  | pipe => exact ⟨.pipe, rfl⟩
  | or => exact ⟨.orElse, rfl⟩
  | and => exact ⟨.andThen, rfl⟩
  | background => exact ⟨.parallel, rfl⟩
  | semi => exact ⟨.sequential, rfl⟩
  | word w => cases h
  | redirect op => cases h
  | eof => cases h

-- =============================================================== commands

theorem named_word_cons {w : String} {seg : List Token} : Named (.word w :: seg) ↔ Named seg := by
  constructor
  · intro h i op hi
    exact h (i + 1) op hi
  · intro h i op hi
    cases i with
    | zero => cases hi
    | succ i => exact h i op hi

theorem named_redirect_cons {op : RedirectOp} {path : String} {seg : List Token} :
    Named (.redirect op :: .word path :: seg) ↔ Named seg := by
  refine Iff.trans ?_ (named_word_cons (w := path))
  constructor
  · intro h i op' hi
    exact h (i + 1) op' hi
  · intro h i op' hi
    cases i with
    | zero => exact ⟨path, rfl⟩
    | succ i => exact h i op' hi

/-- Words and redirections are well-formed if and only if every redirection
has its file. -/
theorem items?_isSome_iff {seg : List Token} (h : ∀ t ∈ seg, t.isItem = true) :
    (items? seg).isSome ↔ Named seg := by
  fun_induction items? seg with
  | case1 => exact ⟨fun _ i op hi => (by cases hi), fun _ => rfl⟩
  | case2 w seg ih =>
      rw [Option.isSome_map, ih fun t ht => h t (List.mem_cons_of_mem _ ht), named_word_cons]
  | case3 op path seg ih =>
      have hseg : ∀ t ∈ seg, t.isItem = true := fun t ht =>
        h t (List.mem_cons_of_mem _ (List.mem_cons_of_mem _ ht))
      rw [Option.isSome_map, ih hseg, named_redirect_cons]
  | case4 seg hnil hword hredirect =>
      refine ⟨fun hsome => (by cases hsome), fun hnamed => ?_⟩
      cases seg with
      | nil => exact absurd rfl hnil
      | cons t rest =>
          have ht := h t List.mem_cons_self
          cases t with
          | word w => exact (hword w rest rfl).elim
          | redirect op =>
              obtain ⟨path, hpath⟩ := hnamed 0 op rfl
              cases rest with
              | nil => cases hpath
              | cons t rest =>
                  cases Option.some.inj hpath
                  exact (hredirect op path rest rfl).elim
          | pipe | or | and | background | semi | eof => cases ht

/-- Segments that are commands are what commands are spelled by. -/
theorem isCommand_iff {seg : List Token} (h : ∀ t ∈ seg, t.isItem = true) :
    IsCommand seg ↔ ∃ c, Command.ofTokens? seg = some c := by
  constructor
  · rintro ⟨hne, hnamed⟩
    obtain ⟨x, hx⟩ := Option.isSome_iff_exists.mp ((items?_isSome_iff h).mpr hnamed)
    have hx' : x ≠ ([], []) := fun hnil => hne (eq_nil_of_items?_eq_nil (hnil ▸ hx))
    exact ⟨_, Option.bind_eq_some_iff.mpr ⟨x, hx, Command.ofItems?_of_ne hx'⟩⟩
  · rintro ⟨c, hc⟩
    obtain ⟨hne, -⟩ := Command.tokens_of_ofTokens? hc
    obtain ⟨words, redirects, hitems, -, -⟩ := Command.of_ofTokens? hc
    exact ⟨hne, (items?_isSome_iff h).mp (Option.isSome_of_eq_some hitems)⟩

-- ================================================================= lines

/-- All segments of a spelling are commands. -/
theorem isCommand_of_spelledBy {tree : Tree} {ts : List Token} (h : tree.SpelledBy ts) :
    ∀ seg ∈ ts.splitOnP isControl, IsCommand seg := by
  induction h with
  | @leaf c seg hc =>
      obtain ⟨-, hitem⟩ := Command.tokens_of_ofTokens? hc
      rw [List.splitOnP_eq_singleton fun t ht => isControl_eq_false_of_isItem (hitem t ht)]
      intro seg' hseg'
      rw [List.mem_singleton.mp hseg']
      exact (isCommand_iff hitem).mpr ⟨c, hc⟩
  | @node op l r ls rs _ _ ihl ihr =>
      rw [List.splitOnP_append_cons ls rs (isControl_token op)]
      intro seg hseg
      exact (List.mem_append.mp hseg).elim (ihl seg) (ihr seg)

/-- Tokens whose segments are commands spell a tree. The induction takes
the tokens from the right; those taken since the last operator are
`seg`. -/
theorem exists_spelled_append {ts seg : List Token} (heof : Token.eof ∉ ts ++ seg)
    (hseg : ∀ t ∈ seg, t.isControl = false)
    (h : ∀ seg' ∈ (ts ++ seg).splitOnP isControl, IsCommand seg') :
    ∃ tree : Tree, tree.Shaped ∧ tree.SpelledBy (ts ++ seg) := by
  have hitem : ∀ t ∈ seg, t.isItem = true := fun t ht =>
    isItem_of_isControl_eq_false (hseg t ht) fun ht' =>
      heof (List.mem_append_right _ (ht' ▸ ht))
  induction ts using List.reverseRecOn generalizing seg with
  | nil =>
      rw [List.nil_append, List.splitOnP_eq_singleton hseg] at h
      obtain ⟨c, hc⟩ := (isCommand_iff hitem).mp (h seg (List.mem_singleton_self seg))
      exact ⟨.leaf c, Command.proper_of_ofTokens? hc, .leaf hc⟩
  | append_singleton ts t ih =>
      rw [List.append_assoc, List.singleton_append] at heof h ⊢
      cases ht : t.isControl with
      | false =>
          refine ih heof ?_ h ?_
          · rintro u (_ | ⟨_, hu⟩)
            · exact ht
            · exact hseg u hu
          · rintro u (_ | ⟨_, hu⟩)
            · exact isItem_of_isControl_eq_false ht fun ht' =>
                heof (ht' ▸ List.mem_append_right _ List.mem_cons_self)
            · exact hitem u hu
      | true =>
          obtain ⟨op, rfl⟩ := exists_token_of_isControl ht
          rw [List.splitOnP_append_cons ts seg ht, List.splitOnP_eq_singleton hseg] at h
          obtain ⟨c, hc⟩ := (isCommand_iff hitem).mp
            (h seg (List.mem_append_right _ (List.mem_singleton_self seg)))
          have heof' : Token.eof ∉ ts ++ [] := fun hmem => by
            rw [List.append_nil] at hmem
            exact heof (List.mem_append_left _ hmem)
          obtain ⟨tree, hshaped, hspelled⟩ := ih heof' (fun _ hmem => by cases hmem)
            (fun seg' hseg' => h seg' (List.mem_append_left _ (by rwa [List.append_nil] at hseg')))
            (fun _ hmem => by cases hmem)
          rw [List.append_nil] at hspelled
          exact ⟨tree.join op c, Tree.shaped_join hshaped (Command.proper_of_ofTokens? hc),
            Tree.spelledBy_join hspelled hc⟩

/-- So all tokens do whose segments are commands. -/
theorem exists_spelled {ts : List Token} (heof : Token.eof ∉ ts)
    (h : ∀ seg ∈ ts.splitOnP isControl, IsCommand seg) :
    ∃ tree : Tree, tree.Shaped ∧ tree.SpelledBy ts := by
  rw [← List.append_nil ts] at heof h ⊢
  exact exists_spelled_append heof nofun h

/-- A line is one of commands only, or such a line and a `;` more. -/
theorem isLine_iff {ts : List Token} :
    IsLine ts ↔ ∃ us, (∀ seg ∈ us.splitOnP isControl, IsCommand seg) ∧
      (ts = us ∨ ts = us ++ [.semi]) := by
  have hsplit : ∀ us : List Token,
      (us ++ [semi]).splitOnP isControl = us.splitOnP isControl ++ [[]] := fun us =>
    List.splitOnP_append_cons us [] rfl
  constructor
  · intro h
    by_cases hsemi : ts.getLast? = some .semi
    · obtain ⟨us, rfl⟩ := List.getLast?_eq_some_iff.mp hsemi
      refine ⟨us, fun seg hseg => ?_, .inr rfl⟩
      obtain ⟨i, hi⟩ := List.mem_iff_getElem?.mp hseg
      obtain ⟨hlt, -⟩ := List.getElem?_eq_some_iff.mp hi
      rw [IsLine, hsplit us] at h
      rcases h i seg ((List.getElem?_append_left hlt).trans hi) with hseg | ⟨-, -, hlast, -⟩
      · exact hseg
      · rw [List.length_append, List.length_singleton] at hlast
        omega
    · refine ⟨ts, fun seg hseg => ?_, .inl rfl⟩
      obtain ⟨i, hi⟩ := List.mem_iff_getElem?.mp hseg
      rcases h i seg hi with hseg | ⟨-, -, -, hlast⟩
      · exact hseg
      · exact absurd hlast hsemi
  · rintro ⟨us, hus, rfl | rfl⟩ i seg hi
    · exact .inl (hus seg (List.mem_of_getElem? hi))
    · rw [hsplit us] at hi ⊢
      by_cases hlt : i < (us.splitOnP isControl).length
      · rw [List.getElem?_append_left hlt] at hi
        exact .inl (hus seg (List.mem_of_getElem? hi))
      · have hlength : i = (us.splitOnP isControl).length := by
          obtain ⟨hlt', -⟩ := List.getElem?_eq_some_iff.mp hi
          rw [List.length_append, List.length_singleton] at hlt'
          omega
        have hpos : 0 < (us.splitOnP isControl).length :=
          List.length_pos_iff.mpr (List.splitOnP_ne_nil isControl us)
        subst hlength
        rw [List.getElem?_concat_length] at hi
        refine .inr ⟨(Option.some.inj hi).symm, hpos, ?_, List.getLast?_concat⟩
        rw [List.length_append, List.length_singleton]

end Token

-- ============================================================== acceptance

namespace Parser

/-- There is no command only where there is no token. -/
theorem eq_nil_of_command_eq_none {f : Option SyntaxError} {ts : List Token} {p' : Parser}
    (heof : Token.eof ∉ ts) (h : command (before f ts) = .ok none p') : ts = [] := by
  rw [command, token_bind] at h
  split at h
  · next hend =>
    rw [current_before] at hend
    exact (headD_eof_eq_eof_iff heof).mp hend
  · obtain ⟨first, q, -, h⟩ := of_bind_eq_ok h
    rw [get_bind] at h
    obtain ⟨tree, q, -, h⟩ := of_bind_eq_ok h
    rw [token_bind] at h
    cases hcurrent : q.current with
    | _ =>
        rw [hcurrent] at h
        cases h

/-- A line that can be scanned and is not blank has a tree if and only if
its segments are commands, but for an empty one after a last `;`.
Otherwise there is an error. -/
theorem accepts_iff_isLine {line : String} (hscan : (Scan.ofLine line).failure = none)
    (hne : (Scan.ofLine line).tokens ≠ []) :
    ∃ p, ofLine line = .ok p ∧
      ((∃ tree p', command p = .ok (some tree) p') ↔ Token.IsLine (Scan.ofLine line).tokens) ∧
      (¬ Token.IsLine (Scan.ofLine line).tokens → ∃ e p', command p = .error e p') := by
  have heof : Token.eof ∉ (Scan.ofLine line).tokens := Token.eof_notMem_ofChars line.toList
  have hclean : Clean (Scan.ofLine line).failure (Scan.ofLine line).tokens := fun _ => hscan
  have haccepts : (∃ tree p', command (before (Scan.ofLine line).failure (Scan.ofLine line).tokens)
      = .ok (some tree) p') ↔ Token.IsLine (Scan.ofLine line).tokens := by
    rw [Token.isLine_iff]
    constructor
    · rintro ⟨tree, h⟩
      obtain ⟨-, us, hfits, hus⟩ := (command_eq_ok_some_iff heof hclean).mp h
      exact ⟨us, Token.isCommand_of_spelledBy hfits.spelled, hus⟩
    · rintro ⟨us, hcommands, hus⟩
      have heof' : Token.eof ∉ us ++ [] := fun hmem => by
        rw [List.append_nil] at hmem
        rcases hus with hus | hus
        · exact heof (hus ▸ hmem)
        · exact heof (hus ▸ List.mem_append_left _ hmem)
      obtain ⟨tree, hshaped, hspelled⟩ := Token.exists_spelled_append heof'
        (fun _ hmem => by cases hmem) (by rwa [List.append_nil])
      rw [List.append_nil] at hspelled
      exact ⟨tree, (command_eq_ok_some_iff heof hclean).mpr
        ⟨hscan, us, ⟨hspelled, hshaped, Nat.zero_le _⟩, hus⟩⟩
  refine ⟨_, ofLine_eq_ok_iff.mpr ⟨rfl, hclean⟩, haccepts, fun hnot => ?_⟩
  cases h : command (before (Scan.ofLine line).failure (Scan.ofLine line).tokens) with
  | error e p' => exact ⟨e, p', rfl⟩
  | ok tree p' =>
      cases tree with
      | some tree => exact absurd (haccepts.mp ⟨tree, p', h⟩) hnot
      | none =>
          -- only the end of the line gives no tree, and the line is not blank
          exact absurd (eq_nil_of_command_eq_none heof h) hne

/-- Before the last `;` of this line stands no command but `&`. -/
theorem accepts_iff_isLine_background_before_semi :
    (Scan.ofLine "sort < in & ;").failure = none ∧ (Scan.ofLine "sort < in & ;").tokens ≠ [] ∧
    ¬ Token.IsLine (Scan.ofLine "sort < in & ;").tokens ∧
    ∃ p, ofLine "sort < in & ;" = .ok p ∧ ∃ e p', command p = .error e p' := by
  have hscan : Scan.ofLine "sort < in & ;" =
      ⟨[.word "sort", .redirect .input, .word "in", .background, .semi], none⟩ := by
    decide +kernel
  have hfailure : (Scan.ofLine "sort < in & ;").failure = none := by
    rw [hscan]
  have hne : (Scan.ofLine "sort < in & ;").tokens ≠ [] := by
    rw [hscan]
    exact List.cons_ne_nil _ _
  have hnot : ¬ Token.IsLine (Scan.ofLine "sort < in & ;").tokens := by
    rw [hscan]
    intro h
    rcases h 1 [] rfl with ⟨hempty, -⟩ | ⟨-, -, hlast, -⟩
    · exact hempty rfl
    · cases hlast
  obtain ⟨p, hp, -, herror⟩ := accepts_iff_isLine hfailure hne
  exact ⟨hfailure, hne, hnot, p, hp, herror hnot⟩

end Parser

end LineShell
