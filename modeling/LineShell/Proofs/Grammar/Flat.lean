/-
A line without `&` as its pipelines from left to right.

Between each two pipelines of such a line stands a joint: `;`, `&&` or `||`.
A flat line is no more than that (`Flat`), and it is read off the tokens
without a look at precedences, by cutting them at the joints, and each piece
at its `|` (`Flat.ofTokens?`).

The tree of the line has the same pipelines in the same order, only nested
(`Tree.flatAt`). How deep it puts each of them can be counted off the joints
(`Flat.depthBetween`): a pipeline stands below every `;` after it, and up to
the next `;` below every other joint after it; and since all are joined from
the left, it also stands below the last `;` before it, and below the joint
directly before it. The count is by the context of a pipeline, the joints on
its left and those on its right, and so are the lemmas: they say what it
means for the count that the tree of a context is one operand of a joint.
-/
import Mathlib.Data.List.TakeWhile
import LineShell.Proofs.Grammar.Reading

namespace LineShell

-- ================================================================== joints

/-- What stands between two pipelines. -/
inductive Joint where
  /-- `;` -/
  | always
  /-- `&&` -/
  | success
  /-- `||` -/
  | failure
  deriving DecidableEq, Repr

/-- The joint that a token stands for. -/
def Joint.ofToken? : Token → Option Joint
  | .semi => some always
  | .and => some success
  | .or => some failure
  | _ => none

/-- Does the token stand for a joint? -/
def Token.isJoint (t : Token) : Bool := (Joint.ofToken? t).isSome

/-- The joint of an operator between pipelines. -/
def Operator.joint? (op : Operator) : Option Joint := Joint.ofToken? op.token

namespace Operator

variable {op : Operator} {j : Joint}

theorem joint?_eq_always : op.joint? = some .always ↔ op = .sequential := by
  cases op <;> decide

/-- `&&` and `||` bind alike. -/
theorem precedence_of_joint (h : op.joint? = some j) (hj : j ≠ .always) : op.precedence = 2 := by
  cases op with
  | sequential => exact absurd (Option.some.inj h).symm hj
  | parallel | pipe => cases h
  | andThen | orElse => rfl

/-- Only `|` binds more tightly. -/
theorem eq_pipe (h : 2 < op.precedence) : op = .pipe := by
  cases op with
  | pipe => rfl
  | sequential | parallel | andThen | orElse => exact absurd h (by decide)

end Operator

-- ============================================================== flat lines

/-- A pipeline, and how deep it stands. -/
structure Pipeline where
  depth : Nat
  tree : Tree
  deriving DecidableEq, Repr

/-- Pipelines and the joints between them. -/
structure Flat where
  first : Pipeline
  rest : List (Joint × Pipeline)
  deriving DecidableEq, Repr

namespace Flat

/-- One line and another, with a joint between them. -/
def append (f : Flat) (j : Joint) (g : Flat) : Flat := ⟨f.first, f.rest ++ (j, g.first) :: g.rest⟩

/-- How deep a pipeline stands between these joints. -/
def depthBetween (before after : List Joint) : Nat :=
  after.count .always + (after.takeWhile (· ≠ .always)).length +
    (if .always ∈ before then 1 else 0) + (if before.getLast?.any (· ≠ .always) then 1 else 0)

/-- Pipelines that follow these joints, each with the depth that is given for
its context. -/
def placeAfter (depth : List Joint → List Joint → Nat) (before : List Joint) :
    List (Joint × Tree) → List (Joint × Pipeline)
  | [] => []
  | (j, p) :: rest =>
      (j, ⟨depth (before ++ [j]) (rest.map (·.1)), p⟩) :: placeAfter depth (before ++ [j]) rest

/-- A line of pipelines, each with the depth that is given for its
context. -/
def place (depth : List Joint → List Joint → Nat) (first : Tree) (rest : List (Joint × Tree)) :
    Flat :=
  ⟨⟨depth [] (rest.map (·.1)), first⟩, placeAfter depth [] rest⟩

/-- Commands joined by `|`. -/
def piped (first : Command) (rest : List Command) : Tree :=
  rest.foldl (fun t c => .node .pipe t (.leaf c)) (.leaf first)

/-- The pipeline that tokens spell: commands with `|` between them. -/
def pipeline? (ts : List Token) : Option Tree :=
  match (ts.splitOnP (· = .pipe)).mapM Command.ofTokens? with
  | some (c :: cs) => some (piped c cs)
  | _ => none

/-- The flat line that tokens spell. -/
def ofTokens? (ts : List Token) : Option Flat :=
  match (ts.splitOnP Token.isJoint).mapM pipeline? with
  | some (p :: ps) => some (place depthBetween p ((ts.filterMap Joint.ofToken?).zip ps))
  | _ => none

-- ================================================================== depths

section

variable {depth depth' : List Joint → List Joint → Nat} {before : List Joint}

theorem placeAfter_congr {rest : List (Joint × Tree)}
    (h : ∀ xs ys, xs ++ ys = before ++ rest.map (·.1) → depth xs ys = depth' xs ys) :
    placeAfter depth before rest = placeAfter depth' before rest := by
  induction rest generalizing before with
  | nil => rfl
  | cons x rest ih =>
      obtain ⟨j, p⟩ := x
      have hsplit : before ++ [j] ++ rest.map (·.1) = before ++ ((j, p) :: rest).map (·.1) := by
        rw [List.append_assoc]
        rfl
      rw [placeAfter, placeAfter, h _ _ hsplit,
        ih fun xs ys hxy => h xs ys (hxy.trans hsplit)]

/-- Only the contexts that occur count. -/
theorem place_congr {first : Tree} {rest : List (Joint × Tree)}
    (h : ∀ xs ys, xs ++ ys = rest.map (·.1) → depth xs ys = depth' xs ys) :
    place depth first rest = place depth' first rest := by
  rw [place, place, h _ _ (List.nil_append _), placeAfter_congr h]

/-- Joints further left may as well be told to the count. -/
theorem placeAfter_behind (depth : List Joint → List Joint → Nat) (ks before : List Joint)
    (rest : List (Joint × Tree)) :
    placeAfter depth (ks ++ before) rest =
      placeAfter (fun xs ys => depth (ks ++ xs) ys) before rest := by
  induction rest generalizing before with
  | nil => rfl
  | cons x rest ih =>
      obtain ⟨j, p⟩ := x
      rw [placeAfter, placeAfter, List.append_assoc, ih]

theorem placeAfter_append (depth : List Joint → List Joint → Nat) (before : List Joint)
    (rest : List (Joint × Tree)) (j : Joint) (first : Tree) (rest' : List (Joint × Tree)) :
    placeAfter depth before (rest ++ (j, first) :: rest') =
      placeAfter (fun xs ys => depth xs (ys ++ j :: rest'.map (·.1))) before rest ++
        placeAfter depth (before ++ rest.map (·.1)) ((j, first) :: rest') := by
  induction rest generalizing before with
  | nil =>
      rw [List.nil_append, List.map_nil, List.append_nil]
      rfl
  | cons x rest ih =>
      obtain ⟨k, p⟩ := x
      have hsplit : before ++ [k] ++ rest.map (·.1) = before ++ ((k, p) :: rest).map (·.1) :=
        List.append_assoc _ _ _
      rw [List.cons_append, placeAfter, ih, hsplit, List.map_append]
      rfl

/-- In a line of two, the contexts reach across the joint. -/
theorem place_append (depth : List Joint → List Joint → Nat) (first : Tree)
    (rest : List (Joint × Tree)) (j : Joint) (first' : Tree) (rest' : List (Joint × Tree)) :
    place depth first (rest ++ (j, first') :: rest') =
      (place (fun xs ys => depth xs (ys ++ j :: rest'.map (·.1))) first rest).append j
        (place (fun xs ys => depth (rest.map (·.1) ++ j :: xs) ys) first' rest') := by
  have hrest : placeAfter depth (rest.map (·.1) ++ [j]) rest' =
      placeAfter (fun xs ys => depth (rest.map (·.1) ++ j :: xs) ys) [] rest' := by
    rw [← List.append_nil (_ ++ [j]), placeAfter_behind]
    simp only [List.append_assoc, List.singleton_append]
  rw [place, placeAfter_append, List.nil_append, placeAfter, hrest, List.map_append]
  rfl

end

-- ================================================================== counts

variable {before after js : List Joint} {j : Joint}

/-- A pipeline is one deeper as part of what stands before a `;`. -/
theorem depthBetween_before_always (hjs : .always ∉ js) :
    depthBetween before (after ++ .always :: js) = depthBetween before after + 1 := by
  have hcount : (after ++ .always :: js).count Joint.always = after.count .always + 1 := by
    rw [List.count_append, List.count_cons_self, List.count_eq_zero.mpr hjs]
  have htake : (after ++ .always :: js).takeWhile (· ≠ .always) =
      after.takeWhile (· ≠ .always) := by
    rw [List.takeWhile_append]
    split
    · next h =>
      rw [(List.takeWhile_prefix _).eq_of_length h]
      exact List.append_nil after
    · rfl
  unfold depthBetween
  rw [hcount, htake]
  omega

/-- It is one deeper as part of what stands behind one. -/
theorem depthBetween_after_always (hbefore : .always ∉ before) :
    depthBetween (js ++ .always :: before) after = depthBetween before after + 1 := by
  have hlast : (js ++ .always :: before).getLast?.any (· ≠ .always) =
      before.getLast?.any (· ≠ .always) := by
    rw [List.getLast?_append, List.getLast?_cons]
    cases before.getLast? <;> rfl
  unfold depthBetween
  rw [hlast, if_pos (List.mem_append_right _ List.mem_cons_self), if_neg hbefore]
  omega

/-- It is one deeper as part of what stands before another joint. -/
theorem depthBetween_before_other (hj : j ≠ .always) (hafter : .always ∉ after) :
    depthBetween before (after ++ [j]) = depthBetween before after + 1 := by
  have hne : ∀ k ∈ after, decide (k ≠ Joint.always) = true := fun k hk =>
    decide_eq_true fun heq => hafter (heq ▸ hk)
  have hcount : (after ++ [j]).count Joint.always = after.count .always := by
    rw [List.count_append, List.count_singleton, if_neg (by simpa using hj)]
    rfl
  have htake : (after ++ [j]).takeWhile (· ≠ .always) = after ++ [j] := by
    rw [List.takeWhile_append_of_pos hne]
    exact congrArg (after ++ ·) (List.takeWhile_cons_of_pos (decide_eq_true hj))
  have htake' : after.takeWhile (· ≠ .always) = after := List.takeWhile_eq_self_iff.mpr hne
  unfold depthBetween
  rw [hcount, htake, htake', List.length_append, List.length_singleton]
  omega

/-- It is one deep behind one. -/
theorem depthBetween_after_other (hj : j ≠ .always) (hjs : .always ∉ js) :
    depthBetween (js ++ [j]) [] = 1 := by
  have hnot : .always ∉ js ++ [j] := by
    intro hmem
    rcases List.mem_append.mp hmem with hmem | hmem
    · exact hjs hmem
    · exact hj (List.mem_singleton.mp hmem).symm
  have hlast : (js ++ [j]).getLast?.any (· ≠ .always) = true := by
    rw [List.getLast?_concat]
    exact decide_eq_true hj
  unfold depthBetween
  rw [if_neg hnot, if_pos hlast]
  rfl

end Flat

-- =================================================================== trees

namespace Tree

/-- The pipelines of a tree and the joints between them. -/
def cut : Tree → Tree × List (Joint × Tree)
  | leaf c => (leaf c, [])
  | node op l r =>
      match op.joint? with
      | some j => (l.cut.1, l.cut.2 ++ (j, r.cut.1) :: r.cut.2)
      | none => (node op l r, [])

/-- The joints of a tree from left to right. -/
def joints (t : Tree) : List Joint := t.cut.2.map (·.1)

/-- The pipelines of a tree that stands at a depth, and how deep it has each
of them. -/
def flatAt (d : Nat) : Tree → Flat
  | leaf c => ⟨⟨d, leaf c⟩, []⟩
  | node op l r =>
      match op.joint? with
      | some j => (l.flatAt (d + 1)).append j (r.flatAt (d + 1))
      | none => ⟨⟨d, node op l r⟩, []⟩

variable {op : Operator} {j : Joint} {l r t : Tree}

theorem joints_node (h : op.joint? = some j) :
    (node op l r).joints = l.joints ++ j :: r.joints := by
  rw [joints, cut, h]
  exact List.map_append

theorem joints_of_none (h : op.joint? = none) : (node op l r).joints = [] := by
  rw [joints, cut, h]
  rfl

/-- What binds more tightly than all joints is one pipeline. -/
theorem cut_of_precedence (h : 2 < t.precedence) : t.cut = (t, []) := by
  cases t with
  | leaf c => rfl
  | node op l r =>
      obtain rfl := Operator.eq_pipe h
      rfl

theorem flatAt_of_precedence (h : 2 < t.precedence) (d : Nat) : t.flatAt d = ⟨⟨d, t⟩, []⟩ := by
  cases t with
  | leaf c => rfl
  | node op l r =>
      obtain rfl := Operator.eq_pipe h
      rfl

theorem joints_of_precedence (h : 2 < t.precedence) : t.joints = [] := by
  rw [joints, cut_of_precedence h]
  rfl

/-- What binds more tightly than `;` has none. -/
theorem always_notMem_joints (hshaped : t.Shaped) (h : 0 < t.precedence) :
    .always ∉ t.joints := by
  induction t with
  | leaf c => exact List.not_mem_nil
  | node op l r ihl ihr =>
      obtain ⟨hl, hr, hshapedl, hshapedr⟩ := hshaped
      cases hj : op.joint? with
      | none =>
          rw [joints_of_none hj]
          exact List.not_mem_nil
      | some j =>
          rw [joints_node hj]
          intro hmem
          rcases List.mem_append.mp hmem with hmem | hmem
          · exact ihl hshapedl (Nat.lt_of_lt_of_le h hl) hmem
          · rcases List.mem_cons.mp hmem with rfl | hmem
            · obtain rfl := Operator.joint?_eq_always.mp hj
              exact absurd h (Nat.lt_irrefl 0)
            · exact ihr hshapedr (Nat.lt_trans h hr) hmem

/-- On the left of a joint, a pipeline is one deeper. -/
theorem depthBetween_left (hshaped : (node op l r).Shaped) (hj : op.joint? = some j)
    {before after : List Joint} (h : before ++ after = l.joints) :
    Flat.depthBetween before (after ++ j :: r.joints) = Flat.depthBetween before after + 1 := by
  obtain ⟨hl, hr, hshapedl, hshapedr⟩ := hshaped
  by_cases halways : j = .always
  · subst halways
    exact Flat.depthBetween_before_always
      (always_notMem_joints hshapedr (Nat.lt_of_le_of_lt (Nat.zero_le _) hr))
  · have hop := Operator.precedence_of_joint hj halways
    rw [hop] at hl hr
    have hnot : .always ∉ after := fun hmem =>
      always_notMem_joints hshapedl (Nat.lt_of_lt_of_le Nat.two_pos hl)
        (h ▸ List.mem_append_right before hmem)
    rw [joints_of_precedence hr]
    exact Flat.depthBetween_before_other halways hnot

/-- So it is on its right. -/
theorem depthBetween_right (hshaped : (node op l r).Shaped) (hj : op.joint? = some j)
    {before after : List Joint} (h : before ++ after = r.joints) :
    Flat.depthBetween (l.joints ++ j :: before) after = Flat.depthBetween before after + 1 := by
  obtain ⟨hl, hr, hshapedl, hshapedr⟩ := hshaped
  by_cases halways : j = .always
  · subst halways
    refine Flat.depthBetween_after_always fun hmem => ?_
    exact always_notMem_joints hshapedr (Nat.lt_of_le_of_lt (Nat.zero_le _) hr)
      (h ▸ List.mem_append_left after hmem)
  · have hop := Operator.precedence_of_joint hj halways
    rw [hop] at hl hr
    rw [joints_of_precedence hr] at h
    obtain ⟨rfl, rfl⟩ := List.append_eq_nil_iff.mp h
    exact Flat.depthBetween_after_other halways
      (always_notMem_joints hshapedl (Nat.lt_of_lt_of_le Nat.two_pos hl))

/-- The depths that a tree gives its pipelines are told by the contexts. -/
theorem flatAt_eq_place (h : t.Shaped) (d : Nat) :
    t.flatAt d =
      Flat.place (fun before after => d + Flat.depthBetween before after) t.cut.1 t.cut.2 := by
  induction t generalizing d with
  | leaf c => rfl
  | node op l r ihl ihr =>
      have hshaped := h
      obtain ⟨-, -, hshapedl, hshapedr⟩ := h
      cases hj : op.joint? with
      | none =>
          rw [flatAt, cut, hj]
          rfl
      | some j =>
          have onLeft : ∀ before after, before ++ after = l.joints →
              d + 1 + Flat.depthBetween before after =
                d + Flat.depthBetween before (after ++ j :: r.joints) := by
            intro before after hsplit
            rw [depthBetween_left hshaped hj hsplit]
            omega
          have onRight : ∀ before after, before ++ after = r.joints →
              d + 1 + Flat.depthBetween before after =
                d + Flat.depthBetween (l.joints ++ j :: before) after := by
            intro before after hsplit
            rw [depthBetween_right hshaped hj hsplit]
            omega
          rw [flatAt, cut, hj]
          simp only
          rw [ihl hshapedl, ihr hshapedr, Flat.place_append, Flat.place_congr onLeft,
            Flat.place_congr onRight]
          rfl

-- ================================================================== tokens

variable {ts : List Token}

/-- An operator that is no joint is `|`, where there is no `&`. -/
theorem eq_pipe_of_spelling {ls rs : List Token} (hj : op.joint? = none)
    (hpar : .background ∉ ls ++ op.token :: rs) : op = .pipe := by
  cases op with
  | pipe => rfl
  | parallel => exact absurd (List.mem_append_right _ List.mem_cons_self) hpar
  | sequential | andThen | orElse => cases hj

/-- The tokens of a tree without `&` have the joints of the tree. -/
theorem joints_of_spelledBy (h : t.SpelledBy ts) (hshaped : t.Shaped) (hpar : .background ∉ ts) :
    ts.filterMap Joint.ofToken? = t.joints := by
  induction h with
  | @leaf c ts hc =>
      refine List.filterMap_eq_nil_iff.mpr fun x hx => ?_
      have hitem := (Command.tokens_of_ofTokens? hc).2 x hx
      cases x with
      | word w => rfl
      | redirect op => rfl
      | pipe | or | and | background | semi | eof => cases hitem
  | @node op l r ls rs _ _ ihl ihr =>
      obtain ⟨hleft, hright, hshapedl, hshapedr⟩ := hshaped
      have onLeft := ihl hshapedl fun hmem => hpar (List.mem_append_left _ hmem)
      have onRight := ihr hshapedr fun hmem =>
        hpar (List.mem_append_right _ (List.mem_cons_of_mem _ hmem))
      rw [List.filterMap_append, List.filterMap_cons, onLeft, onRight]
      cases hj : op.joint? with
      | some j =>
          rw [joints_node hj]
          simp only [show Joint.ofToken? op.token = some j from hj]
      | none =>
          obtain rfl := eq_pipe_of_spelling hj hpar
          rw [joints_of_none hj, joints_of_precedence hleft,
            joints_of_precedence (Nat.lt_of_succ_lt hright)]
          rfl

/-- A tree that binds more tightly than all joints is commands joined by
`|`. -/
theorem exists_commands (h : t.SpelledBy ts) (hshaped : t.Shaped) (hpipe : 2 < t.precedence) :
    ∃ c cs, (ts.splitOnP (· = .pipe)).mapM Command.ofTokens? = some (c :: cs) ∧
      Flat.piped c cs = t := by
  have single : ∀ {c : Command} {us : List Token}, Command.ofTokens? us = some c →
      (us.splitOnP (· = .pipe)).mapM Command.ofTokens? = some [c] := by
    intro c us hc
    have hno : ∀ x ∈ us, decide (x = Token.pipe) = false := by
      intro x hx
      have hitem := (Command.tokens_of_ofTokens? hc).2 x hx
      refine decide_eq_false fun heq => ?_
      rw [heq] at hitem
      cases hitem
    rw [List.splitOnP_eq_singleton hno, List.mapM_cons, hc]
    rfl
  induction h with
  | @leaf c us hc => exact ⟨c, [], single hc, rfl⟩
  | @node op l r ls rs _ hr ihl _ =>
      obtain ⟨hleft, hright, hshapedl, -⟩ := hshaped
      obtain rfl := Operator.eq_pipe hpipe
      obtain ⟨c, cs, hcs, hl⟩ := ihl hshapedl hleft
      -- nothing binds more tightly than `|` but a command
      cases hr with
      | @node op' =>
          have hop : ¬ Operator.pipe.precedence < op'.precedence := by
            cases op' <;> decide
          exact absurd hright hop
      | @leaf c' _ hc' =>
          refine ⟨c, cs ++ [c'], ?_, ?_⟩
          · rw [List.splitOnP_append_cons _ _ (by rfl), List.mapM_append, hcs, single hc']
            rfl
          · rw [Flat.piped, List.foldl_append, ← hl]
            rfl

/-- So it is the pipeline that its tokens spell. -/
theorem pipeline?_of_spelledBy (h : t.SpelledBy ts) (hshaped : t.Shaped)
    (hpipe : 2 < t.precedence) : Flat.pipeline? ts = some t := by
  obtain ⟨c, cs, hcs, ht⟩ := exists_commands h hshaped hpipe
  rw [Flat.pipeline?, hcs]
  exact congrArg some ht

/-- Between the joints of a tree without `&` stand its pipelines. -/
theorem pipelines_of_spelledBy (h : t.SpelledBy ts) (hshaped : t.Shaped)
    (hpar : .background ∉ ts) :
    (ts.splitOnP Token.isJoint).mapM Flat.pipeline? = some (t.cut.1 :: t.cut.2.map (·.2)) := by
  -- a tree without joints is all of one pipeline
  have single : ∀ {t : Tree} {us : List Token}, t.SpelledBy us → t.Shaped → .background ∉ us →
      2 < t.precedence →
      (us.splitOnP Token.isJoint).mapM Flat.pipeline? = some (t.cut.1 :: t.cut.2.map (·.2)) := by
    intro t us hspelled hshaped hpar hpipe
    have hno : ∀ x ∈ us, x.isJoint = false := by
      have hjoints := joints_of_spelledBy hspelled hshaped hpar
      rw [joints_of_precedence hpipe] at hjoints
      intro x hx
      rw [Token.isJoint, List.filterMap_eq_nil_iff.mp hjoints x hx]
      rfl
    rw [List.splitOnP_eq_singleton hno, List.mapM_cons,
      pipeline?_of_spelledBy hspelled hshaped hpipe, cut_of_precedence hpipe]
    rfl
  induction h with
  | @leaf c us hc => exact single (.leaf hc) hshaped hpar (show 2 < Command.precedence by decide)
  | @node op l r ls rs hl hr ihl ihr =>
      have hnode : (node op l r).SpelledBy (ls ++ op.token :: rs) := .node hl hr
      cases hj : op.joint? with
      | none =>
          obtain rfl := eq_pipe_of_spelling hj hpar
          exact single hnode hshaped hpar (Nat.lt_succ_self 2)
      | some j =>
          obtain ⟨-, -, hshapedl, hshapedr⟩ := hshaped
          have onLeft := ihl hshapedl fun hmem => hpar (List.mem_append_left _ hmem)
          have onRight := ihr hshapedr fun hmem =>
            hpar (List.mem_append_right _ (List.mem_cons_of_mem _ hmem))
          have hjoint : op.token.isJoint = true := Option.isSome_of_eq_some hj
          rw [List.splitOnP_append_cons _ _ hjoint, List.mapM_append, onLeft, onRight, cut, hj,
            List.map_append]
          rfl

/-- The tokens of a tree without `&`, cut at the joints and each piece at its
`|`, are the tree from left to right, with the depths that it has. -/
theorem ofTokens?_of_spelledBy (h : t.SpelledBy ts) (hshaped : t.Shaped)
    (hpar : .background ∉ ts) : Flat.ofTokens? ts = some (t.flatAt 0) := by
  have hzip : (ts.filterMap Joint.ofToken?).zip (t.cut.2.map (·.2)) = t.cut.2 := by
    rw [joints_of_spelledBy h hshaped hpar]
    exact (List.zip_of_prod rfl rfl).symm
  rw [Flat.ofTokens?, pipelines_of_spelledBy h hshaped hpar, flatAt_eq_place hshaped]
  simp only [hzip, Nat.zero_add]

end Tree

end LineShell
