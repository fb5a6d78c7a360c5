/-
Which token lists spell which trees.

# Shape

Operators have a precedence, loosest first, and commands bind tighter than
all of them. A tree is `Shaped` if it needs no parentheses: the left side
of a node binds at least as tightly as the node, the right side more
tightly. So all operators of one level associate to the left.

# Spelling

A command is spelled by words and redirections in any order, at least one
of either, where each redirection is followed by the word that names its
file (`Command.ofTokens?`). A tree is spelled by the spellings of its
leaves with the tokens of the operators between them (`SpelledBy`). Of one
list of tokens there is at most one shaped tree; that is left to the
reader (`Reader`), and nothing here depends on it.

`Tree.join` puts one operator and one command more at the end of a tree,
where the precedence has them: the result is shaped if the tree was.
-/
import Mathlib.Data.List.Induction
import LineShell.Command.Parse

namespace LineShell

-- =================================================================== shape

namespace Operator

/-- The token that stands for the operator. -/
def token : Operator → Token
  | sequential => .semi
  | parallel => .background
  | andThen => .and
  | orElse => .or
  | pipe => .pipe

/-- How tightly the operator binds. -/
def precedence : Operator → Nat
  | sequential => 0
  | parallel => 1
  | andThen | orElse => 2
  | pipe => 3

end Operator

/-- The precedence of commands, above all operators. -/
def Command.precedence : Nat := 4

theorem Operator.precedence_lt (op : Operator) : op.precedence < Command.precedence := by
  cases op <;> decide

/-- How tightly the root of a tree binds. -/
def Tree.precedence : Tree → Nat
  | leaf _ => Command.precedence
  | node op _ _ => op.precedence

/-- The verb is the first word, and there is a word or a redirection. -/
structure Command.Proper (c : Command) : Prop where
  verb : c.verb = c.argv.head?.getD ""
  nonempty : c.argv ≠ [] ∨ c.input.isSome ∨ c.output.isSome ∨ c.error.isSome

instance (c : Command) : Decidable c.Proper :=
  decidable_of_iff (c.verb = c.argv.head?.getD "" ∧
      (c.argv ≠ [] ∨ c.input.isSome ∨ c.output.isSome ∨ c.error.isSome))
    ⟨fun h => ⟨h.1, h.2⟩, fun h => ⟨h.verb, h.nonempty⟩⟩

/-- All leaves are proper, and no node needs parentheses. -/
def Tree.Shaped : Tree → Prop
  | leaf c => c.Proper
  | node op l r =>
      op.precedence ≤ l.precedence ∧ op.precedence < r.precedence ∧ l.Shaped ∧ r.Shaped

instance Tree.decidableShaped : (t : Tree) → Decidable t.Shaped
  | leaf c => inferInstanceAs (Decidable c.Proper)
  | node op l r =>
      have := decidableShaped l
      have := decidableShaped r
      inferInstanceAs (Decidable (op.precedence ≤ l.precedence ∧ op.precedence < r.precedence ∧
        l.Shaped ∧ r.Shaped))

-- ================================================================ commands

namespace Token

/-- Words and redirections, each in their order; none if there is another
token or a redirection without its file. -/
def items? : List Token → Option (List String × List (RedirectOp × String))
  | [] => some ([], [])
  | word w :: ts => (items? ts).map fun (words, redirects) => (w :: words, redirects)
  | redirect op :: word path :: ts =>
      (items? ts).map fun (words, redirects) => (words, (op, path) :: redirects)
  | _ => none

/-- Is the token part of a command? -/
def isItem : Token → Bool
  | word _ | redirect _ => true
  | _ => false

theorem isItem_of_items? {ts : List Token} {x : List String × List (RedirectOp × String)}
    (h : items? ts = some x) : ∀ t ∈ ts, t.isItem = true := by
  fun_induction items? ts generalizing x with
  | case1 => simp
  | case2 w ts ih =>
      obtain ⟨y, hy, -⟩ := Option.map_eq_some_iff.mp h
      simpa [isItem] using ih hy
  | case3 op path ts ih =>
      obtain ⟨y, hy, -⟩ := Option.map_eq_some_iff.mp h
      simpa [isItem] using ih hy
  | case4 => cases h

/-- What follows words and redirections adds its own. -/
theorem items?_append {ts us : List Token} {x y : List String × List (RedirectOp × String)}
    (hts : items? ts = some x) (hus : items? us = some y) :
    items? (ts ++ us) = some (x.1 ++ y.1, x.2 ++ y.2) := by
  fun_induction items? ts generalizing x with
  | case1 =>
      cases hts
      exact hus
  | case2 w ts ih =>
      obtain ⟨z, hz, rfl⟩ := Option.map_eq_some_iff.mp hts
      rw [List.cons_append, items?, ih hz]
      rfl
  | case3 op path ts ih =>
      obtain ⟨z, hz, rfl⟩ := Option.map_eq_some_iff.mp hts
      rw [List.cons_append, List.cons_append, items?, ih hz]
      rfl
  | case4 => cases hts

/-- Only no tokens at all give neither. -/
theorem eq_nil_of_items?_eq_nil {ts : List Token} (h : items? ts = some ([], [])) : ts = [] := by
  match ts, h with
  | [], _ => rfl
  | .word w :: rest, h =>
      obtain ⟨⟨words, redirects⟩, -, hx⟩ := Option.map_eq_some_iff.mp h
      cases hx
  | .redirect op :: .word path :: rest, h =>
      obtain ⟨⟨words, redirects⟩, -, hx⟩ := Option.map_eq_some_iff.mp h
      cases hx

end Token

namespace Command

open LineShell.Parser (applyRedirect)

/-- The command of words and redirections; none if there are none. -/
def ofItems? : List String × List (RedirectOp × String) → Option Command
  | ([], []) => none
  | (words, redirects) => some (redirects.foldl applyRedirect (.ofWords words))

/-- The command that tokens spell. -/
def ofTokens? (ts : List Token) : Option Command := (Token.items? ts).bind ofItems?

theorem ofItems?_of_ne {x : List String × List (RedirectOp × String)} (h : x ≠ ([], [])) :
    ofItems? x = some (x.2.foldl applyRedirect (.ofWords x.1)) := by
  unfold ofItems?
  split
  · exact absurd rfl h
  · rfl

/-- Redirections touch neither verb nor words, and what is redirected
stays so. -/
theorem applyRedirect_keeps (c : Command) (r : RedirectOp × String) :
    (applyRedirect c r).verb = c.verb ∧ (applyRedirect c r).argv = c.argv ∧
    ((applyRedirect c r).input.isSome ∨ (applyRedirect c r).output.isSome ∨
      (applyRedirect c r).error.isSome) := by
  obtain ⟨op, path⟩ := r
  cases op <;> simp [applyRedirect]

theorem foldl_applyRedirect (c : Command) (rs : List (RedirectOp × String)) :
    (rs.foldl applyRedirect c).verb = c.verb ∧ (rs.foldl applyRedirect c).argv = c.argv ∧
    (rs ≠ [] → (rs.foldl applyRedirect c).input.isSome ∨
      (rs.foldl applyRedirect c).output.isSome ∨ (rs.foldl applyRedirect c).error.isSome) := by
  induction rs using List.reverseRecOn with
  | nil => exact ⟨rfl, rfl, fun h => absurd rfl h⟩
  | append_singleton rs r ih =>
      rw [List.foldl_append, List.foldl_cons, List.foldl_nil]
      obtain ⟨hverb, hargv, hsome⟩ := applyRedirect_keeps (rs.foldl applyRedirect c) r
      exact ⟨hverb.trans ih.1, hargv.trans ih.2.1, fun _ => hsome⟩

/-- What the tokens of a command are. -/
theorem of_ofTokens? {ts : List Token} {c : Command} (h : ofTokens? ts = some c) :
    ∃ words redirects, Token.items? ts = some (words, redirects) ∧
      (words ≠ [] ∨ redirects ≠ []) ∧ c = redirects.foldl applyRedirect (.ofWords words) := by
  obtain ⟨⟨words, redirects⟩, hitems, hc⟩ := Option.bind_eq_some_iff.mp h
  by_cases hne : (words, redirects) = ([], [])
  · rw [hne] at hc
    cases hc
  · rw [ofItems?_of_ne hne] at hc
    refine ⟨words, redirects, hitems, ?_, (Option.some.inj hc).symm⟩
    by_cases hw : words = []
    · exact .inr fun hr => hne (by rw [hw, hr])
    · exact .inl hw

theorem proper_of_ofTokens? {ts : List Token} {c : Command} (h : ofTokens? ts = some c) :
    c.Proper := by
  obtain ⟨words, redirects, -, hne, rfl⟩ := of_ofTokens? h
  obtain ⟨hverb, hargv, hsome⟩ := foldl_applyRedirect (.ofWords words) redirects
  refine ⟨?_, ?_⟩
  · rw [hverb, hargv]
    rfl
  · rw [hargv]
    exact hne.imp_right hsome

/-- A command is spelled by words and redirections, and by one at least. -/
theorem tokens_of_ofTokens? {ts : List Token} {c : Command} (h : ofTokens? ts = some c) :
    ts ≠ [] ∧ ∀ t ∈ ts, t.isItem = true := by
  obtain ⟨words, redirects, hitems, hne, -⟩ := of_ofTokens? h
  refine ⟨?_, Token.isItem_of_items? hitems⟩
  rintro rfl
  cases hitems
  simp at hne

end Command

-- =================================================================== trees

/-- The tokens spell the tree. -/
inductive Tree.SpelledBy : Tree → List Token → Prop where
  | leaf {c : Command} {ts : List Token} : Command.ofTokens? ts = some c → SpelledBy (leaf c) ts
  | node {op : Operator} {l r : Tree} {ls rs : List Token} : SpelledBy l ls → SpelledBy r rs →
      SpelledBy (node op l r) (ls ++ op.token :: rs)

namespace Tree

/-- The first token of a spelling is part of a command. -/
theorem SpelledBy.head {t : Tree} {ts : List Token} (h : t.SpelledBy ts) :
    ∃ token, ts.head? = some token ∧ token.isItem = true := by
  induction h with
  | leaf h =>
      obtain ⟨hne, hitems⟩ := Command.tokens_of_ofTokens? h
      exact ⟨_, List.head?_eq_some_head hne, hitems _ (List.head_mem hne)⟩
  | node _ _ ihl _ =>
      obtain ⟨token, hhead, hitem⟩ := ihl
      refine ⟨token, ?_, hitem⟩
      rw [List.head?_append, hhead]
      rfl

/-- So is the last. -/
theorem SpelledBy.getLast {t : Tree} {ts : List Token} (h : t.SpelledBy ts) :
    ∃ token, ts.getLast? = some token ∧ token.isItem = true := by
  induction h with
  | leaf h =>
      obtain ⟨hne, hitems⟩ := Command.tokens_of_ofTokens? h
      exact ⟨_, List.getLast?_eq_some_getLast hne, hitems _ (List.getLast_mem hne)⟩
  | @node op l r ls rs _ _ _ ihr =>
      obtain ⟨token, hlast, hitem⟩ := ihr
      refine ⟨token, ?_, hitem⟩
      rw [List.getLast?_append, List.getLast?_cons, hlast]
      rfl

/-- An operator and a command more, after the tree. What binds less tightly
than the operator stays above it. -/
def join (op : Operator) (c : Command) : Tree → Tree
  | leaf d => node op (leaf d) (leaf c)
  | node op' l r =>
      if op.precedence ≤ op'.precedence then node op (node op' l r) (leaf c)
      else node op' l (r.join op c)

theorem spelledBy_join {op : Operator} {c : Command} {t : Tree} {ts us : List Token}
    (ht : t.SpelledBy ts) (hc : Command.ofTokens? us = some c) :
    (t.join op c).SpelledBy (ts ++ op.token :: us) := by
  induction ht with
  | leaf hd => exact .node (.leaf hd) (.leaf hc)
  | @node op' l r ls rs hl hr _ ihr =>
      unfold join
      split
      · exact .node (.node hl hr) (.leaf hc)
      · rw [List.append_assoc, List.cons_append]
        exact .node hl ihr

theorem precedence_join (op : Operator) (c : Command) (t : Tree) :
    (t.join op c).precedence = min op.precedence t.precedence := by
  have hlt := op.precedence_lt
  cases t with
  | leaf d =>
      show op.precedence = min op.precedence Command.precedence
      omega
  | node op' l r =>
      unfold join
      split
      · show op.precedence = min op.precedence op'.precedence
        omega
      · show op'.precedence = min op.precedence op'.precedence
        omega

theorem shaped_join {op : Operator} {c : Command} {t : Tree} (ht : t.Shaped) (hc : c.Proper) :
    (t.join op c).Shaped := by
  have hlt := op.precedence_lt
  induction t with
  | leaf d => exact ⟨Nat.le_of_lt hlt, hlt, ht, hc⟩
  | node op' l r _ ihr =>
      obtain ⟨hleft, hright, hl, hr⟩ := ht
      unfold join
      split
      · next hle => exact ⟨hle, hlt, ⟨hleft, hright, hl, hr⟩, hc⟩
      · next hgt =>
        refine ⟨hleft, ?_, hl, ihr hr⟩
        rw [precedence_join]
        omega

end Tree

end LineShell
