/-
The tree of a line says what the line says.

Read from left to right, a tree gives the words of its commands and the
tokens of its operators (`Tree.reading`). Redirections are not part of
that: a command keeps only the last of each stream, so their places in the
line are not in the tree. What is left of a line without its redirections
and without a last `;` is the reading of its tree.
-/
import LineShell.Proofs.Grammar.Reader

namespace LineShell

open Token (Scan)

/-- The words of the commands, and between them the operators. -/
def Tree.reading : Tree → List Token
  | leaf c => c.argv.map .word
  | node op l r => l.reading ++ op.token :: r.reading

namespace Token

/-- The tokens without the redirection operators and their files. -/
def withoutRedirects : List Token → List Token
  | [] => []
  | redirect _ :: word _ :: ts => withoutRedirects ts
  | t :: ts => t :: withoutRedirects ts

/-- The tokens without a last `;`. -/
def withoutLastSemi (ts : List Token) : List Token :=
  if ts.getLast? = some semi then ts.dropLast else ts

/-- An operator does not name a file, so it parts redirections. -/
theorem withoutRedirects_append (ls rs : List Token) (op : Operator) :
    withoutRedirects (ls ++ op.token :: rs) =
      withoutRedirects ls ++ op.token :: withoutRedirects rs := by
  fun_induction withoutRedirects ls with
  | case1 =>
      rw [List.nil_append, List.nil_append]
      cases op <;> rfl
  | case2 redirection path ls ih =>
      rw [List.cons_append, List.cons_append, withoutRedirects]
      exact ih
  | case3 t ls hredirect ih =>
      rw [List.cons_append, List.cons_append, withoutRedirects, ih]
      intro redirection path rest ht hrest
      cases ls with
      | nil => cases op <;> cases hrest
      | cons u ls =>
          cases hrest
          exact hredirect redirection path ls ht rfl

theorem withoutRedirects_of_items? {ts : List Token} {words : List String}
    {redirects : List (RedirectOp × String)} (h : items? ts = some (words, redirects)) :
    withoutRedirects ts = words.map word := by
  fun_induction items? ts generalizing words redirects with
  | case1 =>
      cases h
      rfl
  | case2 w ts ih =>
      obtain ⟨⟨words', redirects'⟩, hitems, hx⟩ := Option.map_eq_some_iff.mp h
      cases hx
      rw [withoutRedirects, ih hitems, List.map_cons]
      exact fun _ _ _ hword => by cases hword
  | case3 op path ts ih =>
      obtain ⟨⟨words', redirects'⟩, hitems, hx⟩ := Option.map_eq_some_iff.mp h
      cases hx
      rw [withoutRedirects, ih hitems]
  | case4 => cases h

end Token

namespace Tree

theorem reading_of_spelledBy {tree : Tree} {ts : List Token} (h : tree.SpelledBy ts) :
    tree.reading = Token.withoutRedirects ts := by
  induction h with
  | leaf hc =>
      obtain ⟨words, redirects, hitems, -, rfl⟩ := Command.of_ofTokens? hc
      rw [Token.withoutRedirects_of_items? hitems, reading,
        (Command.foldl_applyRedirect _ redirects).2.1]
      rfl
  | node _ _ ihl ihr => rw [reading, Token.withoutRedirects_append, ihl, ihr]

/-- A spelling does not end in `;`, so dropping one gives the spelling
back. -/
theorem withoutLastSemi_of_spelledBy {tree : Tree} {ts us : List Token} (h : tree.SpelledBy ts)
    (hus : us = ts ∨ us = ts ++ [.semi]) : Token.withoutLastSemi us = ts := by
  unfold Token.withoutLastSemi
  rcases hus with rfl | rfl
  · obtain ⟨token, hlast, hitem⟩ := h.getLast
    rw [if_neg]
    rw [hlast]
    rintro ⟨⟩
    cases hitem
  · rw [if_pos List.getLast?_concat, List.dropLast_concat]

/-- The tree of a line has the shape that the precedences ask for, its
commands are proper, and it reads as the line does. -/
theorem reading_of_parse {line : String} {tree : Tree} (h : Tree.parse line = .ok (some tree)) :
    (Scan.ofLine line).failure = none ∧ tree.Shaped ∧
    tree.reading =
      Token.withoutRedirects (Token.withoutLastSemi (Scan.ofLine line).tokens) := by
  obtain ⟨hscan, ts, hspelled, hshaped, htokens⟩ := Tree.parse_eq_some_iff.mp h
  refine ⟨hscan, hshaped, ?_⟩
  rw [withoutLastSemi_of_spelledBy hspelled htokens]
  exact reading_of_spelledBy hspelled

/-- Redirections before, between and after words, all levels of operators,
and a last `;`. -/
theorem reading_of_parse_all_levels :
    Tree.parse "<in a 'b;c' 2>e|d>>o&&\"f\"&g||h;i;" = .ok (some
      (.node .sequential
        (.node .parallel
          (.node .andThen
            (.node .pipe
              (.leaf ⟨"a", ["a", "b;c"], some "in", none, some ⟨"e", false⟩⟩)
              (.leaf ⟨"d", ["d"], none, some ⟨"o", true⟩, none⟩))
            (.leaf (.ofWords ["f"])))
          (.node .orElse (.leaf (.ofWords ["g"])) (.leaf (.ofWords ["h"]))))
        (.leaf (.ofWords ["i"])))) ∧
    Token.withoutRedirects
      (Token.withoutLastSemi (Scan.ofLine "<in a 'b;c' 2>e|d>>o&&\"f\"&g||h;i;").tokens) =
      [.word "a", .word "b;c", .pipe, .word "d", .and, .word "f", .background, .word "g", .or,
        .word "h", .semi, .word "i"] := by
  have hparse : Tree.parse "<in a 'b;c' 2>e|d>>o&&\"f\"&g||h;i;" = .ok (some
      (.node .sequential
        (.node .parallel
          (.node .andThen
            (.node .pipe
              (.leaf ⟨"a", ["a", "b;c"], some "in", none, some ⟨"e", false⟩⟩)
              (.leaf ⟨"d", ["d"], none, some ⟨"o", true⟩, none⟩))
            (.leaf (.ofWords ["f"])))
          (.node .orElse (.leaf (.ofWords ["g"])) (.leaf (.ofWords ["h"]))))
        (.leaf (.ofWords ["i"])))) := by
    decide +kernel
  obtain ⟨-, -, hreading⟩ := reading_of_parse hparse
  exact ⟨hparse, hreading.symm⟩

end Tree

end LineShell
