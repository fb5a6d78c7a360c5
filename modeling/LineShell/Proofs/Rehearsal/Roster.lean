/-
Launchers that remember their children.

What a wait is told has to be what the child came to. A launcher has this on
record for each child that it gives (`Roster`), and tells it from there
(`Launcher.Tells`). So what is told of a branch is the status that it was
evaluated to, whatever has been started and waited for in between. Channels
leave the record as it is (`Launcher.Connects`).

The recording launcher and the scripted one keep such a record: they number
their children, and keep a list of those that they have not been asked about.
-/
import LineShell.Rehearsal.Recorded
import LineShell.Rehearsal.Scripted

namespace LineShell

open Posix

variable {σ : Type}

-- ================================================================ rosters

/-- What a launcher has on record: how many children it has given, and how each
of them ends. -/
structure Roster (σ : Type) where
  count : σ → Nat
  how : σ → Child → Ending
  /-- The states that the launcher can be in. -/
  sound : σ → Prop
  /-- How the program of a command may end. -/
  ends : Command → Ending → Prop

namespace Roster

variable (g : Roster σ) {st st' st'' : σ} {child : Child}

/-- What is on record stays there. -/
structure Onward (st st' : σ) : Prop where
  count : g.count st ≤ g.count st'
  how : ∀ child ≤ g.count st, g.how st' child = g.how st child
  sound : g.sound st'

/-- A new child is given. -/
structure Gives (st : σ) (child : Child) (st' : σ) : Prop extends g.Onward st st' where
  new : g.count st < child
  counted : child ≤ g.count st'

/-- A child is waited for; what is on record of the others stays there. -/
structure Strikes (st : σ) (child : Child) (st' : σ) : Prop where
  count : g.count st ≤ g.count st'
  how : ∀ other ≤ g.count st, other ≠ child → g.how st' other = g.how st other
  sound : g.sound st'

variable {g}

theorem Onward.refl (h : g.sound st) : g.Onward st st := ⟨Nat.le_refl _, fun _ _ => rfl, h⟩

theorem Onward.trans (h : g.Onward st st') (h' : g.Onward st' st'') : g.Onward st st'' where
  count := Nat.le_trans h.count h'.count
  how child hle := (h'.how child (Nat.le_trans hle h.count)).trans (h.how child hle)
  sound := h'.sound

/-- A child that was not given before is waited for. -/
theorem Onward.strikes (h : g.Onward st st') (hnew : g.count st < child)
    (h' : g.Strikes st' child st'') : g.Onward st st'' where
  count := Nat.le_trans h.count h'.count
  how other hle := (h'.how other (Nat.le_trans hle h.count)
    (Nat.ne_of_lt (Nat.lt_of_le_of_lt hle hnew))).trans (h.how other hle)
  sound := h'.sound

end Roster

/-- The launcher tells what is on record: a program ends as it may, and a branch
has exited with its status. -/
structure Launcher.Tells (l : Launcher σ) (g : Roster σ) : Prop where
  launch : ∀ {c st child st'}, g.sound st → l.launch c st = (.ok child, st') →
    g.Gives st child st' ∧ g.ends c (g.how st' child)
  enter : ∀ {request st st'}, g.sound st → l.enter request st = (.ok (), st') → g.Onward st st'
  exec : ∀ {c st child st'}, g.sound st → l.exec c st = (child, st') →
    g.Gives st child st' ∧ g.ends c (g.how st' child)
  finish : ∀ {n st child st'}, g.sound st → l.finish n st = (child, st') →
    g.Gives st child st' ∧ g.how st' child = .exited n
  wait : ∀ {child st e st'}, g.sound st → l.wait child st = (.ok e, st') →
    e = g.how st child ∧ g.Strikes st child st'

/-- Channels change nothing of what is on record. -/
structure Launcher.Connects (l : Launcher σ) (g : Roster σ) : Prop where
  connect : ∀ {st st'}, g.sound st → l.connect st = (.ok (), st') → g.Onward st st'
  connected : ∀ {st} ch, g.sound st → g.Onward st (l.connected ch st)
  released : ∀ {st} ch, g.sound st → g.Onward st (l.released ch st)

/-- What is kept of the others does not depend on who is taken out. -/
theorem lookup_filter_ne (xs : List (Child × Ending)) {child other : Child} (h : other ≠ child) :
    (xs.filter (·.1 ≠ child)).lookup other = xs.lookup other := by
  induction xs with
  | nil => rfl
  | cons x rest ih => grind

namespace Roster

/-- The roster of a launcher that numbers its children from one and keeps a list
of those it has not been asked about. -/
def ofPending (children : σ → Nat) (pending : σ → List (Child × Ending)) (sound : σ → Prop)
    (ends : Command → Ending → Prop) : Roster σ where
  count := children
  how st child := ((pending st).lookup child).getD (.exited 0)
  sound := sound
  ends := ends

section

variable {children : σ → Nat} {pending : σ → List (Child × Ending)} {sound : σ → Prop}
  {ends : Command → Ending → Prop} {st st' : σ} {how : Ending}

/-- A child is given that is put on the list. -/
theorem gives_of_pending (hsound : sound st') (hchildren : children st' = children st + 1)
    (hpending : pending st' = (children st + 1, how) :: pending st) :
    (ofPending children pending sound ends).Gives st (children st + 1) st' ∧
      (ofPending children pending sound ends).how st' (children st + 1) = how := by
  refine ⟨⟨⟨?_, fun other hle => ?_, hsound⟩, Nat.lt_succ_self _, Nat.le_of_eq hchildren.symm⟩, ?_⟩
  · exact Nat.le_trans (Nat.le_succ _) (Nat.le_of_eq hchildren.symm)
  · have hne : other ≠ children st + 1 := Nat.ne_of_lt (Nat.lt_succ_of_le hle)
    simp only [ofPending, hpending, List.lookup_cons, beq_false_of_ne hne]
  · simp only [ofPending, hpending, List.lookup_cons_self, Option.getD_some]

/-- So it is for a command whose program may end so. -/
theorem starts_of_pending {c : Command} (hends : ends c how) (hsound : sound st')
    (hchildren : children st' = children st + 1)
    (hpending : pending st' = (children st + 1, how) :: pending st) :
    (ofPending children pending sound ends).Gives st (children st + 1) st' ∧
      (ofPending children pending sound ends).ends c
        ((ofPending children pending sound ends).how st' (children st + 1)) := by
  obtain ⟨hgives, hhow⟩ : (ofPending children pending sound ends).Gives st (children st + 1) st' ∧
      (ofPending children pending sound ends).how st' (children st + 1) = how :=
    gives_of_pending hsound hchildren hpending
  exact ⟨hgives, by rw [hhow]; exact hends⟩

theorem onward_of_pending (hsound : sound st') (hchildren : children st' = children st)
    (hpending : pending st' = pending st) :
    (ofPending children pending sound ends).Onward st st' :=
  ⟨Nat.le_of_eq hchildren.symm, fun _ _ => by simp only [ofPending, hpending], hsound⟩

end

end Roster

/-- The roster of the recording launcher, whose programs end by a table. -/
def Recorded.roster (table : List (String × Ending)) : Roster State :=
  .ofPending State.children State.pending (·.endings = table)
    fun c e => e = (table.lookup c.verb).getD (.exited 0)

theorem Recorded.launcher_tells (table : List (String × Ending)) :
    launcher.Tells (roster table) := by
  constructor
  case launch | exec =>
    rintro c st child st' rfl h
    cases h
    exact Roster.starts_of_pending rfl rfl rfl rfl
  case enter =>
    intro request st st' hsound h
    cases h
    exact Roster.onward_of_pending hsound rfl rfl
  case finish =>
    intro n st child st' hsound h
    cases h
    exact Roster.gives_of_pending hsound rfl rfl
  case wait =>
    intro child st e st' hsound h
    cases h
    refine ⟨rfl, Nat.le_refl _, fun other _ hne => ?_, hsound⟩
    simp only [roster, Roster.ofPending, lookup_filter_ne _ hne]

theorem Recorded.launcher_connects (table : List (String × Ending)) :
    launcher.Connects (roster table) where
  connect hsound h := by
    cases h
    exact Roster.onward_of_pending hsound rfl rfl
  connected _ hsound := Roster.onward_of_pending hsound rfl rfl
  released _ hsound := Roster.onward_of_pending hsound rfl rfl

namespace Scripted

/-- A program of the verb may end so by the script: with zero, if nothing is
written down. -/
def Script.MayEnd (script : Script) (verb : String) (e : Ending) : Prop :=
  let endings := (script.endings.lookup verb).getD []
  e ∈ endings ∨ endings = [] ∧ e = .exited 0

/-- The roster of the scripted launcher. -/
def roster (script : Script) : Roster State :=
  .ofPending State.children State.pending (·.script = script)
    fun c e => script.MayEnd c.verb e

/-- A call is counted, and nothing else. -/
theorem ask_ok {st st' : State} {p : Primitive} (h : st.ask p = (.ok (), st')) :
    st' = { st with asked := p :: st.asked } := by
  unfold State.ask at h
  simp only at h
  split at h
  · cases h
  · exact (congrArg Prod.snd h).symm

theorem start_ends (st : State) (verb : String) : ∃ e, st.script.MayEnd verb e ∧
    st.start verb = { st with started := verb :: st.started }.register e := by
  refine ⟨_, ?_, rfl⟩
  unfold Script.MayEnd
  generalize (st.script.endings.lookup verb).getD [] = es
  cases hk : es[st.started.count verb]? with
  | some e => exact .inl (List.mem_of_getElem? hk)
  | none =>
      cases hlast : es.getLast? with
      | some e => exact .inl (List.mem_of_getLast? hlast)
      | none => exact .inr ⟨List.getLast?_eq_none_iff.mp hlast, rfl⟩

theorem launcher_tells (script : Script) : launcher.Tells (roster script) := by
  constructor
  case launch =>
    rintro c st child st' rfl h
    simp only [launcher] at h
    cases hask : st.ask .launch with
    | mk r st₁ =>
    rw [hask] at h
    cases r with
    | error e => cases h
    | ok _ =>
    obtain rfl := ask_ok hask
    obtain ⟨e, he, hstart⟩ := start_ends { st with asked := .launch :: st.asked } c.verb
    simp only [hstart] at h
    cases h
    exact Roster.starts_of_pending he rfl rfl rfl
  case enter =>
    intro request st st' hsound h
    simp only [launcher] at h
    cases hask : st.ask .fork with
    | mk r st₁ =>
    rw [hask] at h
    cases r with
    | error e => cases h
    | ok _ =>
    obtain rfl := ask_ok hask
    cases h
    exact Roster.onward_of_pending hsound rfl rfl
  case exec =>
    rintro c st child st' rfl h
    obtain ⟨e, he, hstart⟩ := start_ends st c.verb
    simp only [launcher, hstart] at h
    cases h
    exact Roster.starts_of_pending he rfl rfl rfl
  case finish =>
    intro n st child st' hsound h
    cases h
    exact Roster.gives_of_pending hsound rfl rfl
  case wait =>
    intro child st e st' hsound h
    simp only [launcher] at h
    cases hask : st.ask .wait with
    | mk r st₁ =>
    rw [hask] at h
    cases r with
    | error e => cases h
    | ok _ =>
    obtain rfl := ask_ok hask
    cases h
    exact ⟨rfl, Nat.le_refl _, fun _ _ _ => rfl, hsound⟩

theorem launcher_connects (script : Script) : launcher.Connects (roster script) where
  connect hsound h := by
    obtain rfl := ask_ok h
    exact Roster.onward_of_pending hsound rfl rfl
  connected _ hsound := Roster.onward_of_pending hsound rfl rfl
  released _ hsound := Roster.onward_of_pending hsound rfl rfl

end Scripted

end LineShell
