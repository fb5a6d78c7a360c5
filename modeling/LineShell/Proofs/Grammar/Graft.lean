/-
Two lines in one.

What stands before a `;` and what stands behind it are each read as if the
other were not there; what is read from the second is a tree whose own `;`
were joined from the left, and the first tree goes below all of them, as
the leftmost operand (`Tree.graft`).
-/
import LineShell.Proofs.Grammar.Seam

namespace LineShell

open Token (Scan Mode)

namespace Tree

/-- The second tree with the first as the leftmost operand of its `;`. -/
def graft (t : Tree) : Tree → Tree
  | node .sequential l r => node .sequential (graft t l) r
  | u => node .sequential t u

variable {t u : Tree} {ts us : List Token}

theorem spelledBy_sequential (ht : t.SpelledBy ts) (hu : u.SpelledBy us) :
    (node .sequential t u).SpelledBy (ts ++ .semi :: us) :=
  @SpelledBy.node .sequential t u ts us ht hu

theorem spelledBy_graft (ht : t.SpelledBy ts) (hu : u.SpelledBy us) :
    (t.graft u).SpelledBy (ts ++ .semi :: us) := by
  induction hu with
  | leaf hc => exact spelledBy_sequential ht (.leaf hc)
  | @node op l r ls rs hl hr ihl _ =>
      have hnode : (Tree.node op l r).SpelledBy (ls ++ op.token :: rs) := .node hl hr
      cases op with
      | sequential =>
          have := spelledBy_sequential ihl hr
          rwa [List.append_assoc, List.cons_append] at this
      | parallel | andThen | orElse | pipe => exact spelledBy_sequential ht hnode

theorem shaped_graft (ht : t.Shaped) (hu : u.Shaped) : (t.graft u).Shaped := by
  induction u with
  | leaf c => exact ⟨Nat.zero_le _, Nat.succ_pos _, ht, hu⟩
  | node op l r ihl _ =>
      cases op with
      | sequential =>
          obtain ⟨-, hright, hl, hr⟩ := hu
          exact ⟨Nat.zero_le _, hright, ihl hl, hr⟩
      | parallel | andThen | orElse | pipe => exact ⟨Nat.zero_le _, Nat.succ_pos _, ht, hu⟩

/-- What a line is without a last `;`. -/
theorem spelledBy_of_parse {line : String} (h : Tree.parse line = .ok (some t))
    (hlast : (Scan.ofLine line).tokens.getLast? ≠ some .semi) :
    t.SpelledBy (Scan.ofLine line).tokens := by
  obtain ⟨-, ts, hspelled, -, rfl | htokens⟩ := Tree.parse_eq_some_iff.mp h
  · exact hspelled
  · rw [htokens, List.getLast?_concat] at hlast
    exact absurd rfl hlast

/-- Two lines with a `;` between them, and blanks around that or none, are
the graft of their trees. The first may not end in a `;` of its own, nor in
a backslash that protects nothing yet. -/
theorem parse_joined {line line' before after : String}
    (ht : Tree.parse line = .ok (some t)) (hu : Tree.parse line' = .ok (some u))
    (hlast : (Scan.ofLine line).tokens.getLast? ≠ some .semi)
    (hend : Mode.plain.through line.toList ≠ .escaped)
    (hbefore : ∀ c ∈ before.toList, Text.isBlank c = true)
    (hafter : ∀ c ∈ after.toList, Text.isBlank c = true) :
    Tree.parse (line ++ before ++ ";" ++ after ++ line') = .ok (some (t.graft u)) := by
  obtain ⟨hscan, -, -, hshaped, -⟩ := Tree.parse_eq_some_iff.mp ht
  obtain ⟨hscan', us, hspelled', hshaped', htokens'⟩ := Tree.parse_eq_some_iff.mp hu
  have hjoined : Scan.ofLine (line ++ before ++ ";" ++ after ++ line') =
      { Scan.ofLine line' with
        tokens := (Scan.ofLine line).tokens ++ .semi :: (Scan.ofLine line').tokens } := by
    have htext : (line ++ before ++ ";" ++ after ++ line').toList =
        line.toList ++ before.toList ++ ';' :: (after.toList ++ line'.toList) := by
      simp
    rw [Scan.ofLine, htext]
    exact Token.ofChars_append_semi hscan hend hbefore hafter
  have hgraft := spelledBy_graft (spelledBy_of_parse ht hlast) hspelled'
  rw [Tree.parse_eq_some_iff, hjoined]
  refine ⟨hscan', _, hgraft, shaped_graft hshaped hshaped', ?_⟩
  rw [List.append_assoc, List.cons_append]
  exact htokens'.imp (congrArg ((Scan.ofLine line).tokens ++ .semi :: ·))
    (congrArg ((Scan.ofLine line).tokens ++ .semi :: ·))

end Tree

end LineShell
