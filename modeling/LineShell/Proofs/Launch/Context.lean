/-
Which builtins each leaf of a run finds done.

What a builtin makes of a working directory and an environment is a
function of both (`Builtin.effect`), so the context of a process is told
by what led to it: `replay` applies the builtins that the process and its
ancestors ran, oldest first, to the context that the shell had at the
beginning. A process starts with its parent's deeds up to the start, and
adds its own; nothing else that it does before its program takes over is
more than quiet. So its context is at all times the replay of its deeds.

Where a builtin counts follows from where processes stand: a process acts
directly below its site, so a builtin below one side of a `|` or `&` was
run by a process that was started for that side or for a part of it, and
is a deed of such processes only.
-/
import LineShell.Proofs.Launch.Once

namespace LineShell

open Posix

-- ================================================================== replay

/-- What a deed makes of a context. -/
def Deed.replay (ctx : Context) (d : Deed) : Context :=
  match d.exchange with
  | .builtin _ b c n => if n = 0 then b.effect c (Builtin.staged c d.view) ctx else ctx
  | _ => ctx

/-- What deeds make of a context, one after the other. -/
def replay (ctx : Context) (ds : List Deed) : Context := ds.foldl Deed.replay ctx

theorem replay_append (ctx : Context) (ds : List Deed) (d : Deed) :
    replay ctx (ds ++ [d]) = d.replay (replay ctx ds) := by
  simp only [replay, List.foldl_append, List.foldl_cons, List.foldl_nil]

/-- The deed ran a builtin, for the leaf at a position. -/
def Deed.RunsBuiltin (d : Deed) (q : Position) : Prop := ∃ b c n, d.exchange = .builtin q b c n

/-- A `|` or a `&` stands at the position. -/
def Tree.Splits (root : Tree) (u : Position) : Prop :=
  ∃ op, root.op? u = some op ∧ op.isSequel = false

/-- Whoever acts directly below a position on one side of a `|` or `&` was
started on that side. -/
theorem Direct.side_above {root : Tree} {origin q u : Position} {side : Side}
    (h : Direct root origin q) (hu : root.Splits u) (hq : u ++ [side] <+: q) :
    u ++ [side] <+: origin := by
  rcases List.prefix_or_prefix_of_prefix hq h.below with hpre | hpre
  · exact hpre
  · rcases List.prefix_concat_iff.mp hpre with heq | hpre
    · exact heq ▸ List.prefix_rfl
    · obtain ⟨op, hop, hnot⟩ := hu
      obtain ⟨op', hop', hseq⟩ := h.sequel u side hpre hq
      rw [hop] at hop'
      cases hop'
      rw [hnot] at hseq
      cases hseq

-- =============================================================== processes

namespace Account

variable {root : Tree} {ctx : Context} {a a' b : Account} {s s' : Siting} {v v' : View}

/-- Is what the process does now done for the tree? -/
def isEngaged (a : Account) : Bool :=
  match a.stage with
  | .leaving _ | .quitting | .away => false
  | _ => true

/-- The leaf that the process is at: a builtin that it is about to run, or
the command that it is to become. -/
def leaf? (a : Account) : Option Position :=
  match a.stage with
  | .walking (.builtin q _ _ _) => some q
  | .program _ | .preparing _ | .loaded _ => some a.site
  | _ => none

/-- Builtins of ancestors on one side of a `|` or `&` count on that side
alone. -/
def Secluded (root : Tree) (a : Account) : Prop :=
  ∀ d ∈ a.inherited, ∀ q, d.RunsBuiltin q → ∀ u side, root.Splits u → u ++ [side] <+: q →
    u ++ [side] <+: a.site

/-- A builtin that the process ran stands directly below its site. -/
theorem Sited.ran (h : a.Sited root s) {d : Deed} (hd : d ∈ a.own) {q : Position}
    (hq : d.RunsBuiltin q) : Direct root a.site q := by
  obtain ⟨t, t', hx⟩ := h.allowed hd
  obtain ⟨b, c, n, he⟩ := hq
  rw [he] at hx
  exact hx.2.2.2.1

/-- So it is with all builtins that count for the process. -/
theorem Secluded.deeds (h : a.Secluded root) (hs : a.Sited root s) {d : Deed} (hd : d ∈ a.deeds)
    {q : Position} (hq : d.RunsBuiltin q) {u : Position} {side : Side} (hu : root.Splits u)
    (hpre : u ++ [side] <+: q) : u ++ [side] <+: a.site := by
  rcases List.mem_append.mp hd with hd | hd
  · exact h d hd q hq u side hu hpre
  · exact (hs.ran hd hq).side_above hu hpre

theorem Secluded.birth (h : a.Secluded root) (hs : a.Sited root s) (hc : a.child? = some b) :
    b.Secluded root := by
  have below : a.site <+: b.site := by
    cases (hs.starts hc).2 with
    | program _ hdirect => exact hdirect.below
    | branch _ hsite _ _ hdirect =>
        rw [hsite]
        exact hdirect.below.trans (List.prefix_append _ _)
  intro d hd q hq u side hu hpre
  rw [(child_deeds hc).1] at hd
  exact (h.deeds hs hd hq hu hpre).trans below

/-- The context of a process is the replay of its deeds. -/
structure Informed (root : Tree) (ctx : Context) (a : Account) (s : Siting) (v : View) :
    Prop where
  placed : a.Placed root s
  secluded : a.Secluded root
  context : a.isEngaged = true → v.process.context = replay ctx a.deeds

/-- A turn does to the context what the replay says. -/
theorem Turn.context (h : a.Turn v a' v') (hv : v.process.context = replay ctx a.deeds)
    (ha' : a'.isEngaged = true) : v'.process.context = replay ctx a'.deeds := by
  have quiet : v.Quiet v' → v'.process.context = replay ctx a.deeds := fun hq => by
    rw [hq.context, hv]
  -- a deed that is no builtin is replayed by doing nothing
  have idle : ∀ x rest ending, v.Quiet v' → (∀ ctx, (⟨x, v, ending⟩ : Deed).replay ctx = ctx) →
      v'.process.context = replay ctx (a.does x v rest ending).deeds := fun x rest ending hq hx => by
    rw [deeds, does, ← List.append_assoc, replay_append, hx]
    exact quiet hq
  cases h with
  | @wired _ w _ _ _ happly => exact quiet (w.apply_quiet.of_attempt happly)
  | log => exact quiet (.note v _ _)
  | builtin hstage hrun =>
      rw [deeds, does, ← List.append_assoc, replay_append, Builtin.run_context hrun, hv]
      rfl
  | leave => cases ha'
  | launch | fork | wait => exact idle _ _ _ (.refl v) fun _ => rfl
  | channel _ hpipe => exact idle _ _ _ (Call.pipe_quiet.of_attempt hpipe) fun _ => rfl
  | release => exact idle _ _ _ (Redirection.closeAll_quiet _ v) fun _ => rfl
  | prepare _ hquiet | prepared _ hquiet _ => exact quiet hquiet
  | quit | away => cases ha'

/-- Who turns to something for the tree was there for the tree before. -/
theorem Turn.engaged (h : a.Turn v a' v') (ha' : a'.isEngaged = true) : a.isEngaged = true := by
  cases h with
  | wired hstage | log hstage | builtin hstage | launch _ hstage | fork _ hstage | channel hstage
  | release hstage | wait _ hstage | prepare hstage | prepared hstage =>
      simp only [isEngaged, hstage]
  | leave | quit | away => cases ha'

theorem child_engaged (hc : a.child? = some b) : a.isEngaged = true := by
  unfold child? at hc
  split at hc
  · next hstage => simp only [isEngaged, hstage]
  · next hstage => simp only [isEngaged, hstage]
  · cases hc

theorem Turn.secluded (h : a.Turn v a' v') (hs : a.Secluded root) : a'.Secluded root := by
  rw [h.same]
  exact hs

theorem informed_invariant (root : Tree) (ctx : Context) :
    Account.Invariant (fun a => ∃ s, a.Placed root s) fun a v => ∃ s, a.Informed root ctx s v where
  meanwhile h hv := by
    obtain ⟨s, hplaced, hsecluded, hcontext⟩ := h
    refine ⟨s, hplaced, hsecluded, fun ha => ?_⟩
    rw [← hcontext ha, Process.context, Process.context, hv.process]
  turn _ h hturn := by
    obtain ⟨s, hplaced, hsecluded, hcontext⟩ := h
    obtain ⟨s', hplaced'⟩ := hturn.placed hplaced
    exact ⟨⟨s', hplaced'⟩, s', hplaced', hturn.secluded hsecluded,
      fun ha' => hturn.context (hcontext (hturn.engaged ha')) ha'⟩
  birth {a v b v'} _ h hc hv := by
    obtain ⟨s, hplaced, hsecluded, hcontext⟩ := h
    have hplaced' := hplaced.child hc
    refine ⟨⟨_, hplaced'⟩, _, hplaced', hsecluded.birth hplaced.sited hc, fun _ => ?_⟩
    obtain ⟨⟨_, _, hprocess⟩, -⟩ := hv
    obtain ⟨hinherited, hown⟩ := child_deeds hc
    rw [deeds, hinherited, hown, List.append_nil, ← hcontext (child_engaged hc), Process.context,
      Process.context, hprocess]

/-- The leaf that a process is at stands below its site. -/
theorem Sited.leaf_below (h : a.Sited root s) {q : Position} (hq : a.leaf? = some q) :
    a.site <+: q := by
  unfold leaf? at hq
  split at hq
  · next hstage =>
    cases hq
    obtain ⟨-, ⟨-, -, -, hdirect, -⟩, -⟩ := h.stands.rest hstage 0
    exact hdirect.below
  · cases hq
    exact List.prefix_rfl
  · cases hq
    exact List.prefix_rfl
  · cases hq
    exact List.prefix_rfl
  · cases hq

theorem engaged_of_leaf {q : Position} (hq : a.leaf? = some q) : a.isEngaged = true := by
  cases hstage : a.stage with
  | leaving site | quitting | away => simp [leaf?, hstage] at hq
  | _ => simp only [isEngaged, hstage]

end Account

-- ======================================================== the main result

namespace Watch

variable {ρ : Type} {programs : Installed ρ} {result : Except ExecError Int → ρ}

/-- Whatever the tree and however its processes take turns: every leaf runs
with the working directory and the environment that the builtins before it
made of the shell's, those of its own process and those of its ancestors
before they led to it, in order. All of these that stand on one side of a
`|` or `&` have the leaf on that side too. The builtins that count in the
shell itself when the execution returns are those that have no `|` or `&`
above them, and no others. -/
theorem context_of_run (hprograms : ∀ name args, (programs name args).Respects .onward)
    {t : Tree} {depth : Nat} {parent : Option Operator} {m : Machine ρ}
    (hb : m.Begins result t depth parent) {shell : Slot ρ} (hshell : shell ∈ m.slots)
    (hmain : shell.process.pid = Machine.mainPid)
    {w : Watch ρ} (hrun : Run programs (begin t depth parent m) w) :
    (∀ s ∈ w.machine.slots, s.alive → ∀ a, w.accounts s.process.pid = some a →
      ∀ leaf, a.leaf? = some leaf →
        s.process.context = replay shell.process.context a.deeds ∧
        ∀ d ∈ a.deeds, ∀ q, d.RunsBuiltin q → ∀ u side, t.Splits u → u ++ [side] <+: q →
          u ++ [side] <+: leaf) ∧
    (∀ s ∈ w.machine.slots, s.process.pid = Machine.mainPid → ∀ x, s.life = .running (.ret x) →
      ∃ a, w.accounts Machine.mainPid = some a ∧
        s.process.context = replay shell.process.context a.own) ∧
    ∀ p a, w.accounts p = some a → ∀ d ∈ a.own, ∀ q, d.RunsBuiltin q →
      (p = Machine.mainPid ↔ ∀ u side, t.Splits u → ¬u ++ [side] <+: q) := by
  have hbegin : ∀ s ∈ m.slots, s.process.pid = Machine.mainPid → ∀ a,
      (begin t depth parent m).accounts Machine.mainPid = some a →
      (∃ st, a.Placed t st) ∧
        ∃ st, a.Informed t shell.process.context st ⟨s.process, m.world⟩ := by
    intro s hs hpid a ha
    obtain rfl := hb.sound.eq_of_pid hs hshell (hpid.trans hmain.symm)
    have hplaced := begin_placed ha
    obtain ⟨-, rfl⟩ := begin_shell ha
    exact ⟨⟨_, hplaced⟩, _, hplaced, (fun d hd => nomatch hd), fun _ => rfl⟩
  have holds := invariant hprograms (Account.informed_invariant t shell.process.context) hb hbegin hrun
  obtain ⟨⟨a₀, ha₀⟩, hisShell⟩ := shell_of_run hprograms hb hrun
  refine ⟨fun s hs halive a ha leaf hleaf => ?_, fun s hs hpid x hx => ?_, fun p a ha d hd q hq => ?_⟩
  · obtain ⟨st, hplaced, hsecluded, hcontext⟩ := holds.living s hs halive a ha
    refine ⟨hcontext (Account.engaged_of_leaf hleaf), fun d hd q hq u side hu hpre => ?_⟩
    exact (hsecluded.deeds hplaced.sited hd hq hu hpre).trans (hplaced.sited.leaf_below hleaf)
  · rw [← hpid] at ha₀
    obtain ⟨hmain, hinherited⟩ := hisShell _ _ ha₀
    obtain ⟨rest, r, hstage, -, -⟩ := holds.returned hs hx ha₀ (hmain.mpr hpid)
    obtain ⟨st, -, -, hcontext⟩ := holds.living s hs (by simp only [Slot.alive, hx]) a₀ ha₀
    refine ⟨a₀, hpid ▸ ha₀, ?_⟩
    rw [hcontext (by simp only [Account.isEngaged, hstage]), Account.deeds,
      hinherited (hmain.mpr hpid), List.nil_append]
  · obtain ⟨st, hplaced⟩ := holds.all p a ha
    refine ⟨fun hp u side hu hpre => ?_, fun hq' => ?_⟩
    · have habove := (hplaced.sited.ran hd hq).side_above hu hpre
      rw [hplaced.shell ((hisShell p a ha).1.mpr hp)] at habove
      simpa using habove.length_le
    · refine (hisShell p a ha).1.mp ?_
      cases hs : a.isShell with
      | true => rfl
      | false =>
          have hwalks := (holds.proper p a ha).walks_of_own hd
          obtain ⟨r, side, op, hsite, hop, hnot⟩ :=
            hplaced.branch hs (by simpa [Account.walks, hs] using hwalks)
          exact absurd (hsite ▸ (hplaced.sited.ran hd hq).below) (hq' r side ⟨op, hop, hnot⟩)

/-- A branch runs with the variable that the shell set before it was started,
though the other branch has set it anew. -/
theorem context_of_run_beside_assignment :
    let t : Tree := .node .sequential (.leaf (.ofWords ["X=1"]))
      (.node .parallel (.leaf (.ofWords ["X=2"])) (.leaf (.ofWords ["c"])))
    ∃ w : Watch (Except ExecError Int),
      Run endAtOnce (begin t 0 none (.executing id t .atTerminal)) w ∧
      ∃ s ∈ w.machine.slots, ∃ a, w.accounts s.process.pid = some a ∧
        a.leaf? = some [.right, .right] ∧ s.process.env.get? "X" = some "1" ∧
        s.process.context = replay View.atTerminal.process.context a.deeds := by
  intro t
  have found : (begin t 0 none (.executing id t .atTerminal)).finds endAtOnce
      [1, 1, 1, 1, 1, 1, 1, 1, 2, 2, 2, 2, 3] (fun s a => s.alive &&
        (a.leaf? == some [.right, .right] && s.process.env.get? "X" == some "1")) = true := by
    decide +kernel
  obtain ⟨w, hrun, s, hs, a, ha, hcheck⟩ := run_of_finds found
  simp only [Bool.and_eq_true, beq_iff_eq] at hcheck
  obtain ⟨halive, hleaf, hx⟩ := hcheck
  exact ⟨w, hrun, s, hs, a, ha, hleaf, hx, ((context_of_run endAtOnce_respects
    (Machine.executing_begins id t .atTerminal) (List.mem_singleton_self _) rfl hrun).1 s hs halive a
      ha _ hleaf).1⟩

end Watch

end LineShell
