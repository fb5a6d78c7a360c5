/-
Contracts along watched runs, and where the processes of a run stand.

A contract that the walk of every tree obeys is kept by every process that
takes such a walk: what it did leads from the first state to a state from
which what is left of its walk obeys (`Account.Stands`). Turns preserve
that, whatever the contract.

For the contract of sites this says of every process of a run: the part of
the tree that it was started for stands where its account says, and what
it did it did directly below (`Account.Sited`). A process is started
either for a leaf directly below the site of the one that starts it, or
for one side of a `|` or `&` that stands there.
-/
import LineShell.Proofs.Launch.Watch
import LineShell.Proofs.Walk.Site

namespace LineShell

open Posix

-- ============================================================= contracts

/-- A log line more for a wait does not matter. -/
theorem Walk.obeys_afterWait {σ : Type} {C : Contract σ} {s : σ}
    {Q : σ → Except ExecError Int → Prop} {child : Int} {raw : Except Errno (Pid × Ending)}
    {next : Walk} (h : next.Obeys C s Q) : (afterWait child raw next).Obeys C s Q := by
  rcases raw with e | ⟨pid, code | n⟩
  · exact h
  · exact h
  · simp only [afterWait]
    cases Signal.name? n <;> exact h

namespace Account

variable {σ : Type} {C : Contract σ} {s₀ s s' : σ} {Q : σ → Except ExecError Int → Prop}
  {a a' b : Account} {v v' : View}

/-- What the process may still do on its walk. -/
def ahead? (a : Account) : Option Walk :=
  match a.stage with
  | .wiring _ _ => some a.walk
  | .walking rest => some rest
  | _ => none

/-- What the process did leads to this state, and what it may still do
obeys from there. -/
structure Stands (C : Contract σ) (s₀ : σ) (Q : σ → Except ExecError Int → Prop) (a : Account)
    (s : σ) : Prop where
  led : C.Leads s₀ (a.own.map Deed.exchange) s
  obeys : ∀ w, a.ahead? = some w → w.Obeys C s Q

/-- The rest of a walk obeys. -/
theorem Stands.rest (h : a.Stands C s₀ Q s) {rest : Walk} (hstage : a.stage = .walking rest) :
    rest.Obeys C s Q := h.obeys rest (by simp only [ahead?, hstage])

/-- A process that has done one thing more. -/
theorem Stands.does (h : a.Stands C s₀ Q s) {x : Exchange} {rest : Walk}
    (hx : C.allows s x s') (hrest : rest.Obeys C s' Q) (v : View) (ending : Option Ending) :
    (a.does x v rest ending).Stands C s₀ Q s' where
  led := by
    rw [Account.does, List.map_append]
    exact h.led.snoc hx
  obeys w hw := by
    cases hw
    exact hrest

/-- A process that has done nothing on its walk. -/
theorem Stands.idle (h : a.Stands C s₀ Q s) {stage : Stage}
    (hobeys : ∀ w, ahead? { a with stage } = some w → w.Obeys C s Q) :
    Stands C s₀ Q { a with stage } s := ⟨h.led, hobeys⟩

/-- Open files stay. -/
theorem Turn.world (h : a.Turn v a' v') : v.world.Extends v'.world := by
  cases h with
  | @wired _ w _ _ _ happly => exact (w.apply_quiet.of_attempt happly).world
  | @builtin _ b c _ _ _ _ _ hrun =>
      have kept := Builtin.run_onward b c v
      rw [hrun] at kept
      exact kept.world
  | @leave _ b c _ _ _ _ hrun =>
      have kept := Builtin.run_onward b c v
      rw [hrun] at kept
      exact kept.world
  | channel _ hpipe => exact (Call.pipe_quiet.of_attempt hpipe).world
  | release => exact (Redirection.closeAll_quiet _ v).world
  | prepare _ hquiet | prepared _ hquiet _ => exact hquiet.world
  | quit _ hworld | away _ hworld => exact hworld
  | log | launch | fork | wait => exact .refl _

/-- The deeds of the one account lead on to those of the other. -/
structure Follows (C : Contract σ) (a : Account) (s : σ) (a' : Account) (s' : σ) : Prop where
  idle : a'.own = a.own → s' = s
  deed : ∀ d, a'.own = a.own ++ [d] → C.allows s d.exchange s'

theorem Follows.refl {stage : Stage} : Follows C a s { a with stage } s :=
  ⟨fun _ => rfl, fun d hd => by simp at hd⟩

theorem Follows.does {x : Exchange} {rest : Walk} {ending : Option Ending}
    (hx : C.allows s x s') : Follows C a s (a.does x v rest ending) s' where
  idle h := by simp [Account.does] at h
  deed d hd := by
    have hd := List.singleton_inj.mp (List.append_cancel_left hd)
    exact hd ▸ hx

/-- Turns keep every contract that walks obey. -/
theorem Turn.stands (h : a.Turn v a' v') (hs : a.Stands C s₀ Q s) :
    ∃ s', a'.Stands C s₀ Q s' ∧ Follows C a s a' s' := by
  cases h with
  | wired hstage _ =>
      refine ⟨s, hs.idle fun w hw => hs.obeys w ?_, .refl⟩
      cases hx : a.tree.external? with
      | some c => simp [ahead?, onceWired, hx] at hw
      | none =>
          simp only [ahead?, onceWired, hx, hstage] at hw ⊢
          exact hw
  | log hstage =>
      have hrest := hs.rest hstage
      exact ⟨s, hs.idle fun w hw => by cases hw; exact hrest, .refl⟩
  | @builtin _ _ _ _ n _ _ hstage _ =>
      obtain ⟨s', hx, hrest⟩ := hs.rest hstage n
      exact ⟨s', hs.does hx hrest _ _, .does hx⟩
  | launch pid hstage | fork pid hstage =>
      obtain ⟨s', hx, hrest⟩ := hs.rest hstage (.ok pid)
      refine ⟨s', hs.does hx ?_ _ _, .does hx⟩
      -- the log line for the start is no part of the contract
      exact hrest
  | channel hstage _ =>
      obtain ⟨s', hx, hrest⟩ := hs.rest hstage _
      exact ⟨s', hs.does hx hrest _ _, .does hx⟩
  | release hstage =>
      obtain ⟨s', hx, hrest⟩ := hs.rest hstage
      exact ⟨s', hs.does hx hrest _ _, .does hx⟩
  | wait raw hstage =>
      obtain ⟨s', hx, hrest⟩ := hs.rest hstage (Walk.waitAnswer raw)
      exact ⟨s', hs.does hx (Walk.obeys_afterWait hrest) _ _, .does hx⟩
  | prepared _ _ hstage =>
      refine ⟨s, hs.idle fun w hw => ?_, .refl⟩
      rcases hstage with rfl | rfl <;> cases hw
  | leave | prepare | quit | away =>
      refine ⟨s, hs.idle ?_, .refl⟩
      intro w hw
      cases hw

/-- The postcondition holds where the walk is over. -/
theorem Stands.result (h : a.Stands C s₀ Q s) {rest : Walk} (hstage : a.stage = .walking rest)
    {r : Except ExecError Int} (hr : rest.result? = some r) : Q s r := by
  have hrest := h.rest hstage
  cases rest with
  | done n | failed e =>
      cases hr
      exact hrest
  | log | builtin | launch | fork | channel | release | wait => cases hr

/-- A new account: it has done nothing, and its ancestors did what the
process that starts it and its ancestors did. -/
theorem child_deeds (hc : a.child? = some b) : b.inherited = a.deeds ∧ b.own = [] := by
  unfold child? at hc
  split at hc
  · cases hc
    exact ⟨rfl, rfl⟩
  · cases hc
    exact ⟨rfl, rfl⟩
  · cases hc

/-- What it may do is to take its walk. -/
theorem child_ahead (hc : a.child? = some b) (w : Walk) (hw : b.ahead? = some w) : w = b.walk := by
  unfold child? at hc
  split at hc
  · cases hc
    cases hw
  · cases hc
    exact (Option.some.inj hw).symm
  · cases hc

theorem child_isShell (hc : a.child? = some b) : b.isShell = false := by
  unfold child? at hc
  split at hc
  · cases hc
    rfl
  · cases hc
    rfl
  · cases hc

/-- A process that has done nothing yet. -/
theorem Stands.fresh (hobeys : a.walk.Obeys C s₀ Q) (hown : a.own = [])
    (hahead : ∀ w, a.ahead? = some w → w = a.walk) : a.Stands C s₀ Q s₀ := by
  refine ⟨by rw [hown]; exact .nil, fun w hw => ?_⟩
  rw [hahead w hw]
  exact hobeys

/-- A contract that all walks obey is kept by all processes. -/
theorem stands_invariant {s₀ : Walk → σ} (hobeys : ∀ a : Account, a.walk.Obeys C (s₀ a.walk) Q) :
    Account.Invariant (fun a => ∃ s, a.Stands C (s₀ a.walk) Q s) fun _ _ => True where
  meanwhile _ _ := trivial
  turn h _ hturn := by
    obtain ⟨s, hs⟩ := h
    obtain ⟨s', hs', -⟩ := hturn.stands hs
    rw [hturn.same] at hs' ⊢
    exact ⟨⟨s', hs'⟩, trivial⟩
  birth _ _ hc _ :=
    ⟨⟨_, .fresh (hobeys _) (child_deeds hc).2 (child_ahead hc)⟩, trivial⟩

-- ================================================================= sites

/-- The account's part of the tree stands where the account says, and the
process has acted directly below. -/
structure Sited (root : Tree) (a : Account) (s : Siting) : Prop where
  part : root.sub? a.site = some a.tree
  stands : a.Stands (siting root a.site) {} (fun s _ => s.opened = none) s

variable {root : Tree} {s s' : Siting}

/-- A process that has done nothing yet. -/
theorem Sited.fresh (hpart : root.sub? a.site = some a.tree) (hown : a.own = [])
    (hahead : ∀ w, a.ahead? = some w → w = a.walk) : a.Sited root {} where
  part := hpart
  stands := .fresh (Walk.siting_execute hpart _ _) hown hahead

theorem Turn.sited (h : a.Turn v a' v') (hs : a.Sited root s) :
    ∃ s', a'.Sited root s' ∧ Follows (siting root a.site) a s a' s' := by
  obtain ⟨s', hstands, hfollows⟩ := h.stands hs.stands
  have hsite : a'.site = a.site := by rw [h.same]
  have htree : a'.tree = a.tree := by rw [h.same]
  exact ⟨s', ⟨by rw [hsite, htree]; exact hs.part, by rw [hsite]; exact hstands⟩, hfollows⟩

/-- What a process did was allowed to it. -/
theorem Sited.allowed (h : a.Sited root s) {d : Deed} (hd : d ∈ a.own) :
    ∃ s s', (siting root a.site).allows s d.exchange s' :=
  h.stands.led.allowed (List.mem_map_of_mem hd)

/-- A process is started for a leaf directly below the site of the one that
starts it, while no channel is open, or for a side of a `|` or `&` there. -/
inductive Starts (root : Tree) (a : Account) (s : Siting) (b : Account) : Prop where
  | program {c : Command} : b.stage = .program c → Direct root a.site b.site → s.opened = none →
      Starts root a s b
  | branch {r : Position} {side : Side} {p : Operator} {w : Wiring} :
      b.stage = .wiring p w → b.site = r ++ [side] → root.op? r = some p → p.isSequel = false →
      Direct root a.site r → side.IsWired r s.opened p w → Starts root a s b

theorem Sited.starts (h : a.Sited root s) (hc : a.child? = some b) :
    b.Sited root {} ∧ Starts root a s b := by
  unfold child? at hc
  split at hc
  · next q c next hstage =>
    cases hc
    obtain ⟨-, ⟨-, -, hsub, hdirect, hopened⟩, -⟩ := h.stands.rest hstage (.ok 0)
    exact ⟨.fresh hsub rfl nofun, .program rfl hdirect hopened⟩
  · next q tree depth parent wiring branch next hstage =>
    cases hc
    obtain ⟨-, ⟨-, -, hsub, r, side, hq, hop, hnot, hdirect, hwired⟩, -⟩ :=
      h.stands.rest hstage (.ok 0)
    exact ⟨.fresh hsub rfl fun w hw => (Option.some.inj hw).symm,
      .branch rfl hq hop hnot hdirect hwired⟩
  · cases hc

end Account

-- =========================================================== the beginning

namespace Watch

variable {ρ : Type} {t : Tree} {depth : Nat} {parent : Option Operator} {m : Machine ρ} {p : Pid}
  {a : Account}

/-- The shell's account at the beginning. -/
theorem begin_shell (ha : (begin t depth parent m).accounts p = some a) :
    p = Machine.mainPid ∧ a =
      { site := [], tree := t, depth, parent, isShell := true, inherited := [], own := [],
        stage := .walking (.execute t depth parent) } := by
  simp only [begin] at ha
  split at ha
  · next hp => exact ⟨hp, (Option.some.inj ha).symm⟩
  · cases ha

theorem begin_sited (ha : (begin t depth parent m).accounts p = some a) : a.Sited t {} := by
  obtain ⟨-, rfl⟩ := begin_shell ha
  refine .fresh (Tree.sub?_nil t) rfl fun w hw => ?_
  exact (Option.some.inj hw).symm

/-- What walks obey, the processes of every run have kept to. -/
theorem stands_of_run {σ : Type} {C : Contract σ} {Q : σ → Except ExecError Int → Prop}
    (s₀ : Walk → σ) (hobeys : ∀ a : Account, a.walk.Obeys C (s₀ a.walk) Q)
    {programs : Installed ρ} (hprograms : ∀ name args, (programs name args).Respects .onward)
    {result : Except ExecError Int → ρ} (hb : m.Begins result t depth parent) {w : Watch ρ}
    (hrun : Run programs (begin t depth parent m) w) (ha : w.accounts p = some a) :
    ∃ s, a.Stands C (s₀ a.walk) Q s := by
  refine (invariant hprograms (Account.stands_invariant hobeys) hb (fun s _ _ a ha => ?_) hrun).all p
    a ha
  obtain ⟨-, rfl⟩ := begin_shell ha
  exact ⟨⟨_, .fresh (hobeys _) rfl fun w hw => (Option.some.inj hw).symm⟩, trivial⟩

end Watch

end LineShell
