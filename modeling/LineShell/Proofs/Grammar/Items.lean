/-
Words and redirections of a command, in any order.

A command is written as a row of items, each a word or a redirection with the
name of its file. The reader takes the words in their order and the
redirections in theirs, whichever of them stand in between
(`Item.ofTokens?_flatMap`).

Each redirection operator touches some of the three streams. Of all the
redirections that touch a stream the last one counts (`foldl_eq_last`), so
that neighbours that touch none in common may change places
(`Reordered.foldl`).
-/
import Mathlib.Logic.Relation
import LineShell.Posix.Descriptor
import LineShell.Proofs.Grammar.Reader

namespace LineShell

open Posix (Fd)

-- ================================================================== streams

namespace RedirectOp

/-- The streams that the operator replaces. -/
def streams : RedirectOp → List Fd
  | input => [Fd.stdin]
  | output | append => [Fd.stdout]
  | error | errorAppend => [Fd.stderr]
  | both | bothAppend => [Fd.stdout, Fd.stderr]

/-- Does the operator add to its file? -/
def appends : RedirectOp → Bool
  | append | errorAppend | bothAppend => true
  | input | output | error | both => false

end RedirectOp

namespace Command

open LineShell.Parser (applyRedirect)

/-- The last of the redirections of a stream. -/
def last (fd : Fd) (rs : List (RedirectOp × String)) : Option (RedirectOp × String) :=
  (rs.filter fun r => fd ∈ r.1.streams).getLast?

/-- The path that a redirection names, and how its file is opened. -/
def target (r : RedirectOp × String) : Redirect := ⟨r.2, r.1.appends⟩

theorem last_concat (fd : Fd) (rs : List (RedirectOp × String)) (r : RedirectOp × String) :
    last fd (rs ++ [r]) = if fd ∈ r.1.streams then some r else last fd rs := by
  rw [last, List.filter_append]
  split
  · next h => rw [List.filter_cons_of_pos (by simpa using h), List.filter_nil, List.getLast?_concat]
  · next h =>
    rw [List.filter_cons_of_neg (by simpa using h), List.filter_nil, List.append_nil, last]

/-- Of the redirections of each stream the last one counts. -/
theorem foldl_eq_last (words : List String) (rs : List (RedirectOp × String)) :
    rs.foldl applyRedirect (.ofWords words) =
      { verb := words.head?.getD "", argv := words, input := (last Fd.stdin rs).map (·.2),
        output := (last Fd.stdout rs).map target, error := (last Fd.stderr rs).map target } := by
  induction rs using List.reverseRecOn with
  | nil => rfl
  | append_singleton rs r ih =>
      obtain ⟨op, path⟩ := r
      rw [List.foldl_append, ih, last_concat, last_concat, last_concat]
      cases op <;> rfl

/-- Neighbours that touch no stream in common change places. -/
inductive Swap : List (RedirectOp × String) → List (RedirectOp × String) → Prop where
  | swap (front back : List (RedirectOp × String)) (r s : RedirectOp × String)
      (h : ∀ fd ∈ r.1.streams, fd ∉ s.1.streams) :
      Swap (front ++ r :: s :: back) (front ++ s :: r :: back)

/-- The redirections after some such changes. -/
def Reordered : List (RedirectOp × String) → List (RedirectOp × String) → Prop :=
  Relation.ReflTransGen Swap

theorem applyRedirect_comm {r s : RedirectOp × String} (h : ∀ fd ∈ r.1.streams, fd ∉ s.1.streams)
    (c : Command) : applyRedirect (applyRedirect c r) s = applyRedirect (applyRedirect c s) r := by
  obtain ⟨op, path⟩ := r
  obtain ⟨op', path'⟩ := s
  replace h : ∀ fd ∈ op.streams, fd ∉ op'.streams := h
  cases op <;> cases op' <;> first | rfl | exact absurd h (by decide)

theorem Swap.foldl {rs ss : List (RedirectOp × String)} (h : Swap rs ss) (c : Command) :
    rs.foldl applyRedirect c = ss.foldl applyRedirect c := by
  obtain ⟨front, back, r, s, h⟩ := h
  simp only [List.foldl_append, List.foldl_cons, applyRedirect_comm h]

theorem Swap.length {rs ss : List (RedirectOp × String)} (h : Swap rs ss) :
    rs.length = ss.length := by
  obtain ⟨front, back, r, s, -⟩ := h
  simp only [List.length_append, List.length_cons]

theorem Reordered.foldl {rs ss : List (RedirectOp × String)} (h : Reordered rs ss) (c : Command) :
    rs.foldl applyRedirect c = ss.foldl applyRedirect c := by
  induction h with
  | refl => rfl
  | tail _ hswap ih => exact ih.trans (hswap.foldl c)

theorem Reordered.length {rs ss : List (RedirectOp × String)} (h : Reordered rs ss) :
    rs.length = ss.length := by
  induction h with
  | refl => rfl
  | tail _ hswap ih => exact ih.trans hswap.length

end Command

-- ==================================================================== items

/-- A word, or a redirection and the name of its file. -/
inductive Item where
  | word (text : String)
  | redirect (op : RedirectOp) (path : String)
  deriving DecidableEq, Repr

namespace Item

open LineShell.Parser (applyRedirect)

def tokens : Item → List Token
  | word text => [.word text]
  | redirect op path => [.redirect op, .word path]

def word? : Item → Option String
  | word text => some text
  | redirect _ _ => none

def redirect? : Item → Option (RedirectOp × String)
  | word _ => none
  | redirect op path => some (op, path)

/-- The words of a row of items. -/
def words (is : List Item) : List String := is.filterMap word?

/-- Its redirections. -/
def redirects (is : List Item) : List (RedirectOp × String) := is.filterMap redirect?

theorem items?_flatMap (is : List Item) :
    Token.items? (is.flatMap tokens) = some (words is, redirects is) := by
  induction is with
  | nil => rfl
  | cons i is ih =>
      cases i with
      | word text =>
          show (Token.items? (is.flatMap tokens)).map _ = _
          rw [ih]
          rfl
      | redirect op path =>
          show (Token.items? (is.flatMap tokens)).map _ = _
          rw [ih]
          rfl

theorem length_words_add (is : List Item) :
    (words is).length + (redirects is).length = is.length := by
  induction is with
  | nil => rfl
  | cons i is ih =>
      cases i with
      | word text =>
          show (words is).length + 1 + (redirects is).length = is.length + 1
          omega
      | redirect op path =>
          show (words is).length + ((redirects is).length + 1) = is.length + 1
          omega

/-- A row of items spells its words, redirected. -/
theorem ofTokens?_flatMap {is : List Item} (h : is ≠ []) :
    Command.ofTokens? (is.flatMap tokens) =
      some ((redirects is).foldl applyRedirect (.ofWords (words is))) := by
  rw [Command.ofTokens?, items?_flatMap]
  refine Command.ofItems?_of_ne fun hnil => h (List.eq_nil_of_length_eq_zero ?_)
  obtain ⟨hwords, hredirects⟩ := Prod.mk.inj hnil
  rw [← length_words_add, hwords, hredirects]
  rfl

end Item

namespace Parser

/-- In a command the words count in their order, and of the redirections of each
stream the last one, wherever they stand. So a command does not change if its
words and its redirections are put together in another way, or if neighbouring
redirections that touch no stream in common change places. -/
theorem simple_items {f : Option SyntaxError} {is : List Item} {rest : List Token}
    (hne : is ≠ []) (hclean : Clean f rest) (hstops : ∀ t ∈ rest.head?, t.isItem = false) :
    simple (before f (is.flatMap Item.tokens ++ rest)) =
      .ok { verb := (Item.words is).head?.getD "", argv := Item.words is,
            input := (Command.last Fd.stdin (Item.redirects is)).map (·.2),
            output := (Command.last Fd.stdout (Item.redirects is)).map Command.target,
            error := (Command.last Fd.stderr (Item.redirects is)).map Command.target }
        (before f rest) ∧
    ∀ js : List Item, Item.words is = Item.words js →
      Command.Reordered (Item.redirects is) (Item.redirects js) →
      simple (before f (is.flatMap Item.tokens ++ rest)) =
        simple (before f (js.flatMap Item.tokens ++ rest)) := by
  have hread := simple_before (Item.ofTokens?_flatMap hne) hclean hstops
  refine ⟨?_, fun js hwords hredirects => ?_⟩
  · rw [hread, Command.foldl_eq_last]
  · have hne' : js ≠ [] := by
      rintro rfl
      refine hne (List.eq_nil_of_length_eq_zero ?_)
      rw [← Item.length_words_add, hwords, hredirects.length]
      rfl
    rw [hread, simple_before (Item.ofTokens?_flatMap hne') hclean hstops, hwords,
      hredirects.foldl]

/-- Output goes elsewhere once both streams are redirected, input is redirected
twice, and one of these may stand on either side of `&>`. -/
theorem simple_items_around_both :
    let is : List Item := [.redirect .errorAppend "log", .word "a", .redirect .input "old",
      .redirect .both "all", .redirect .input "in", .word "b", .redirect .append "out"]
    let js : List Item := [.word "a", .redirect .errorAppend "log", .redirect .input "old",
      .redirect .input "in", .word "b", .redirect .both "all", .redirect .append "out"]
    let c : Command := ⟨"a", ["a", "b"], some "in", some ⟨"out", true⟩, some ⟨"all", false⟩⟩
    simple (before none (is.flatMap Item.tokens ++ [.pipe, .word "c"])) =
        .ok c (before none [.pipe, .word "c"]) ∧
      simple (before none (js.flatMap Item.tokens ++ [.pipe, .word "c"])) =
        .ok c (before none [.pipe, .word "c"]) := by
  intro is js c
  have hne : is ≠ [] := List.cons_ne_nil _ _
  have hstops : ∀ t ∈ [Token.pipe, .word "c"].head?, t.isItem = false := by
    rintro t ⟨⟩
    rfl
  have hswap : Command.Swap (Item.redirects is) (Item.redirects js) :=
    .swap [(.errorAppend, "log"), (.input, "old")] [(.append, "out")] (.both, "all") (.input, "in")
      (by decide)
  obtain ⟨hread, hsame⟩ := simple_items (f := none) hne clean_cons hstops
  exact ⟨hread, (hsame js rfl (.single hswap)).symm.trans hread⟩

end Parser

end LineShell
