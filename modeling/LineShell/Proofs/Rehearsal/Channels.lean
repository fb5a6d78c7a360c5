/-
Which channels are open when.

# The ledger

`Ledger` reads off the events so far which forks are under way, which
channel each pipe was given, and which channels were made and not given up.
The pipes that are in the middle of one of their forks are the ones among
the forks under way (`Ledger.pipes`); `Ledger.held` lists their channels,
the innermost first.

# The invariant

Between events every channel that is open is either one of these, or the
channel of the pipe that the walk is in the middle of without a branch
being under way (`Ledger.Fits`, with the state of `siting`); and the
process has the descriptors that it began with and exactly the ends of the
channels that are open (`Channel.OnlyOpen`). A branch starts with its
pipe's channel among the ones held by forks under way. When it is over the
ledger stands as it stood, since a walk of a tree gives up all that it
made (`Unwinds`). A wait takes place with no channel of the walk's own open,
so what is open then is what the forks under way hold.

# Launchers

Any launcher will do that evaluates branches in the process itself
(`Launcher.OnTheSpot`). What it keeps of channels for itself, if anything,
goes along (`Launcher.Lists`).
-/
import Mathlib.Data.List.Basic
import LineShell.Proofs.Builtin
import LineShell.Proofs.Launch.Watch
import LineShell.Proofs.Rehearsal.Trace
import LineShell.Proofs.Walk.Site
import LineShell.Rehearsal.Recorded
import LineShell.Rehearsal.Scripted

namespace LineShell

open Posix

variable {σ : Type}

-- =============================================================== the ledger

/-- What the events so far come to in forks and channels. -/
structure Ledger where
  /-- The forks that are not answered yet, the innermost first: the site,
  and the operator the branch was asked for by. -/
  forks : List (Position × Operator) := []
  /-- The channel that a pipe was given. -/
  made : Position → Option Channel := fun _ => none
  /-- The channels that were made and not given up, the last first. -/
  opened : List Channel := []

def Exchange.isFork : Exchange → Bool
  | .fork .. => true
  | _ => false

namespace Ledger

def after (g : Ledger) : Event → Ledger
  | .asked q request => { g with forks := (q, request.parent) :: g.forks }
  | .answered (.fork ..) => { g with forks := g.forks.tail }
  | .answered (.channel q (.ok ch)) =>
      { g with made := Function.update g.made q (some ch), opened := ch :: g.opened }
  | .answered (.release ch) => { g with opened := g.opened.erase ch }
  | .answered _ => g

/-- The ledger of what happened. -/
def of (past : List (Moment σ)) : Ledger := (past.map Moment.event).foldl after {}

/-- The pipes with one of their own forks under way, the innermost first. -/
def pipes (g : Ledger) : List Position :=
  g.forks.filterMap fun (q, p) => if p = .pipe then some q.dropLast else none

/-- The channels of these pipes. -/
def held (g : Ledger) : List Channel := g.pipes.filterMap g.made

theorem of_snoc (past : List (Moment σ)) (m : Moment σ) :
    of (past ++ [m]) = (of past).after m.event := by
  rw [of, List.map_append, List.foldl_append]
  rfl

/-- A fork of a pipe. -/
theorem pipes_asked_pipe (g : Ledger) (r : Position) (side : Side) {request : ForkRequest}
    (hp : request.parent = .pipe) :
    (g.after (.asked (r ++ [side]) request)).pipes = r :: g.pipes := by
  simp only [after, pipes, List.filterMap_cons, hp, if_true, List.dropLast_concat]

/-- A fork of any other operator. -/
theorem pipes_asked_other (g : Ledger) (q : Position) {request : ForkRequest}
    (hp : request.parent ≠ .pipe) : (g.after (.asked q request)).pipes = g.pipes := by
  simp only [after, pipes, List.filterMap_cons, hp, if_false]

/-- The channels of pipes that were given none lately are the same. -/
theorem held_congr {g g' : Ledger} (hpipes : g'.pipes = g.pipes)
    (hmade : ∀ r ∈ g.pipes, g'.made r = g.made r) : g'.held = g.held := by
  rw [held, held, hpipes]
  exact List.filterMap_congr hmade

end Ledger

-- ============================================================ descriptors

namespace Channel

/-- The ends of channels, by their descriptors. -/
def ends (chs : List Channel) : List Fd := chs.flatMap fun ch => [ch.read, ch.write]

/-- A process has the descriptors it began with and the ends of these
channels, each of its own, and no others. -/
structure OnlyOpen (start : View) (chs : List Channel) (v : View) : Prop where
  apart : (ends chs).Nodup
  free : ∀ fd ∈ ends chs, start.process.fds.get? fd = none
  leads : ∀ ch ∈ chs, ∃ p, (v.file? ch.read).map (·.2.target) = some (.reader p) ∧
    (v.file? ch.write).map (·.2.target) = some (.writer p)
  rest : (Redirection.without v.process.fds (ends chs)).Alike start.process.fds

namespace OnlyOpen

variable {start v v' : View} {chs : List Channel} {ch : Channel}

theorem refl (v : View) : OnlyOpen v [] v :=
  ⟨List.nodup_nil, nofun, nofun, .refl _⟩

/-- What an open file leads to is told by its table and its world. -/
theorem target_eq (v : View) (fd : Fd) : (v.file? fd).map (·.2.target)
    = (v.process.fds.file? fd).bind fun i => v.world.files[i]?.map OpenFile.target := by
  unfold View.file? FdTable.file?
  cases v.process.fds.get? fd with
  | none => rfl
  | some h =>
      simp only [Option.map_some, Option.bind_some, bind, pure, Option.map_bind]
      cases v.world.files[h.file]? <;> rfl

/-- A target stays where the table and the open files do. -/
theorem target_mono {fd : Fd} {t : Target}
    (hfile : v'.process.fds.file? fd = v.process.fds.file? fd) (hworld : v.world.Extends v'.world)
    (h : (v.file? fd).map (·.2.target) = some t) : (v'.file? fd).map (·.2.target) = some t := by
  rw [target_eq] at h ⊢
  rw [hfile]
  obtain ⟨i, hi, ht⟩ := Option.bind_eq_some_iff.mp h
  rw [hi]
  exact hworld.target ht

/-- Acts that leave the table as it was. -/
theorem alike (h : OnlyOpen start chs v) (hfds : v'.process.fds.Alike v.process.fds)
    (hworld : v.world.Extends v'.world) : OnlyOpen start chs v' where
  apart := h.apart
  free := h.free
  leads ch hch := by
    obtain ⟨p, hread, hwrite⟩ := h.leads ch hch
    exact ⟨p, target_mono (hfds.files _) hworld hread, target_mono (hfds.files _) hworld hwrite⟩
  rest := (Redirection.without_alike hfds _).trans h.rest

/-- The standard streams are open as they were. -/
theorem standard (h : OnlyOpen start chs v) (hstd : start.process.fds.Standard) :
    v.process.fds.Standard := by
  intro fd hfd
  have := (h.rest.isSome fd).trans (hstd fd hfd)
  rw [Redirection.get?_without] at this
  split at this
  · cases this
  · exact this

theorem mem_ends (hch : ch ∈ chs) : ch.read ∈ ends chs ∧ ch.write ∈ ends chs :=
  ⟨List.mem_flatMap.mpr ⟨ch, hch, List.mem_cons_self⟩,
    List.mem_flatMap.mpr ⟨ch, hch, List.mem_cons_of_mem _ List.mem_cons_self⟩⟩

/-- A descriptor that leads somewhere is open. -/
theorem isSome_of_target {fd : Fd} {t : Target} (h : (v.file? fd).map (·.2.target) = some t) :
    (v.process.fds.get? fd).isSome := by
  rw [target_eq] at h
  obtain ⟨i, hi, -⟩ := Option.bind_eq_some_iff.mp h
  obtain ⟨x, hx, -⟩ := Option.map_eq_some_iff.mp hi
  rw [hx]
  rfl

/-- What is free is no end of a channel. -/
theorem notMem_ends (h : OnlyOpen start chs v) {fd : Fd} (hfree : v.process.fds.get? fd = none) :
    fd ∉ ends chs := by
  intro hmem
  obtain ⟨ch, hch, hend⟩ := List.mem_flatMap.mp hmem
  obtain ⟨p, hread, hwrite⟩ := h.leads ch hch
  have isOpen : (v.process.fds.get? fd).isSome := by
    simp only [List.mem_cons, List.not_mem_nil, or_false] at hend
    rcases hend with rfl | rfl
    · exact isSome_of_target hread
    · exact isSome_of_target hwrite
  rw [hfree] at isOpen
  cases isOpen

/-- What is free was free at the beginning. -/
theorem free_before (h : OnlyOpen start chs v) {fd : Fd} (hfree : v.process.fds.get? fd = none) :
    start.process.fds.get? fd = none := by
  have same := h.rest.isSome fd
  rw [Redirection.get?_without, if_neg (h.notMem_ends hfree), hfree] at same
  exact Option.isSome_eq_false_iff.mp same.symm |> Option.isNone_iff_eq_none.mp

/-- A channel is made: its ends are two descriptors that were free. -/
theorem connected (h : OnlyOpen start chs v) {r w : Fd}
    (hp : Call.pipe.attempt v = (.ok (r, w), v')) : OnlyOpen start (⟨r, w⟩ :: chs) v' := by
  rcases Call.pipe_spec v with ⟨e, he⟩ | ⟨r', w', v₁, heq, hr, hw, hlt, hfds, hread, hwrite⟩
  · rw [he] at hp
    cases hp
  rw [heq] at hp
  cases hp
  have kept : v.world.Extends v'.world := (Call.pipe_quiet.of_attempt heq).world
  have get? : ∀ fd, v'.process.fds.get? fd
      = if fd = w then some ⟨v.world.files.size + 1, false⟩
        else if fd = r then some ⟨v.world.files.size, false⟩ else v.process.fds.get? fd := by
    intro fd
    rw [hfds, FdTable.get?_set, FdTable.get?_set]
  have same : ∀ fd ∈ ends chs, v'.process.fds.file? fd = v.process.fds.file? fd := by
    intro fd hmem
    have hne : fd ≠ w := fun he => h.notMem_ends hw (he ▸ hmem)
    have hne' : fd ≠ r := fun he => h.notMem_ends hr (he ▸ hmem)
    rw [FdTable.file?, FdTable.file?, get?, if_neg hne, if_neg hne']
  have ends_cons : ends (⟨r, w⟩ :: chs) = r :: w :: ends chs := rfl
  refine ⟨?_, ?_, ?_, ?_⟩
  · rw [ends_cons]
    refine List.nodup_cons.mpr ⟨?_, List.nodup_cons.mpr ⟨h.notMem_ends hw, h.apart⟩⟩
    intro hmem
    rcases List.mem_cons.mp hmem with he | hmem
    · exact absurd he (Nat.ne_of_lt hlt)
    · exact h.notMem_ends hr hmem
  · intro fd hmem
    rw [ends_cons] at hmem
    rcases List.mem_cons.mp hmem with rfl | hmem
    · exact h.free_before hr
    rcases List.mem_cons.mp hmem with rfl | hmem
    · exact h.free_before hw
    · exact h.free fd hmem
  · intro ch hch
    rcases List.mem_cons.mp hch with rfl | hch
    · refine ⟨v.world.pipes.size, ?_, ?_⟩
      · rw [target_eq, FdTable.file?, get?, if_neg (Nat.ne_of_lt hlt), if_pos rfl]
        exact hread
      · rw [target_eq, FdTable.file?, get?, if_pos rfl]
        exact hwrite
    · obtain ⟨p, hread, hwrite⟩ := h.leads ch hch
      have mem := mem_ends hch
      exact ⟨p, target_mono (same _ mem.1) kept hread, target_mono (same _ mem.2) kept hwrite⟩
  · refine .trans (.of_get? fun fd => ?_) h.rest
    rw [Redirection.get?_without, Redirection.get?_without, get?, ends_cons]
    grind

/-- The channel that was made last is not among the others. -/
theorem head_notMem (h : OnlyOpen start (ch :: chs) v) : ch ∉ chs := by
  intro hmem
  have apart : (ch.read :: ch.write :: ends chs).Nodup := h.apart
  exact (List.nodup_cons.mp apart).1 (List.mem_cons_of_mem _ (mem_ends hmem).1)

/-- The channel that was made last is given up. -/
theorem released (h : OnlyOpen start (ch :: chs) v) :
    OnlyOpen start chs (Redirection.closeAll [ch.read, ch.write] v) := by
  have ends_cons : ends (ch :: chs) = ch.read :: ch.write :: ends chs := rfl
  have closed := Redirection.closeAll_alike [ch.read, ch.write] v
  have kept := Redirection.closeAll_quiet [ch.read, ch.write] v
  have apart := h.apart
  rw [ends_cons, List.nodup_cons, List.nodup_cons] at apart
  have file? : ∀ fd ∈ ends chs, (Redirection.closeAll [ch.read, ch.write] v).process.fds.file? fd
      = v.process.fds.file? fd := by
    intro fd hmem
    have hread : fd ≠ ch.read := fun he => apart.1 (List.mem_cons_of_mem _ (he ▸ hmem))
    have hwrite : fd ≠ ch.write := fun he => apart.2.1 (he ▸ hmem)
    rw [closed.files, FdTable.file?, Redirection.get?_without, if_neg (by simp [hread, hwrite])]
    rfl
  refine ⟨apart.2.2, fun fd hmem => h.free fd ?_, fun c hc => ?_, ?_⟩
  · rw [ends_cons]
    exact List.mem_cons_of_mem _ (List.mem_cons_of_mem _ hmem)
  · obtain ⟨p, hread, hwrite⟩ := h.leads c (List.mem_cons_of_mem _ hc)
    have mem := mem_ends hc
    exact ⟨p, target_mono (file? _ mem.1) kept.world hread,
      target_mono (file? _ mem.2) kept.world hwrite⟩
  · refine (Redirection.without_alike closed _).trans (.trans (.of_get? fun fd => ?_) h.rest)
    rw [Redirection.get?_without, Redirection.get?_without, Redirection.get?_without, ends_cons]
    grind

end OnlyOpen

end Channel

-- ============================================================== launchers

namespace Launcher

/-- Branches are evaluated in the process itself: its descriptors and the
world stay as a branch leaves them. -/
structure OnTheSpot (l : Launcher σ) : Prop where
  fds : ∀ before after, (l.leaveBranch before after).process.fds = after.process.fds
  world : ∀ before after, (l.leaveBranch before after).world = after.world

/-- What a launcher keeps of the channels that are open, the last first. -/
structure Lists (l : Launcher σ) (K : σ → List Channel → Prop) : Prop where
  launch : ∀ {c st chs}, K st chs → K (l.launch c st).2 chs
  enter : ∀ {q st chs}, K st chs → K (l.enter q st).2 chs
  exec : ∀ {c st chs}, K st chs → K (l.exec c st).2 chs
  finish : ∀ {n st chs}, K st chs → K (l.finish n st).2 chs
  connect : ∀ {st chs}, K st chs → K (l.connect st).2 chs
  connected : ∀ {ch st chs}, K st chs → K (l.connected ch st) (ch :: chs)
  released : ∀ {ch st chs}, K st (ch :: chs) → ch ∉ chs → K (l.released ch st) chs
  wait : ∀ {child st chs}, K st chs → K (l.wait child st).2 chs

end Launcher

-- ============================================================ the invariant

/-- How the ledger stands while a process acts from its site on, in the
middle of the pipe whose channel is open, if any is. -/
structure Ledger.Fits (origin : Position) (own : Option (Position × Channel)) (g : Ledger) :
    Prop where
  /-- The forks under way are those that lead to the site. -/
  above : ∀ r ∈ g.pipes, r.length < origin.length
  opened : g.opened = (own.map Prod.snd).toList ++ g.held
  made : ∀ q ch, own = some (q, ch) → g.made q = some ch ∧ origin <+: q

/-- The later ledger has the same forks under way, and the same channels for
the pipes above the site. -/
structure Ledger.Since (origin : Position) (g g' : Ledger) : Prop where
  forks : g'.forks = g.forks
  made : ∀ r : Position, r.length < origin.length → g'.made r = g.made r

namespace Ledger

variable {root : Tree} {origin : Position} {s s' : Siting} {g g' g'' : Ledger}

namespace Since

theorem refl (origin : Position) (g : Ledger) : Since origin g g := ⟨rfl, fun _ _ => rfl⟩

theorem trans (h : Since origin g g') (h' : Since origin g' g'') : Since origin g g'' :=
  ⟨h'.forks.trans h.forks, fun r hr => (h'.made r hr).trans (h.made r hr)⟩

theorem pipes (h : Since origin g g') : g'.pipes = g.pipes := by
  rw [Ledger.pipes, Ledger.pipes, h.forks]

/-- What pipes above the site hold is the same. -/
theorem held (h : Since origin g g') (habove : ∀ r ∈ g.pipes, r.length < origin.length) :
    g'.held = g.held :=
  held_congr h.pipes fun r hr => h.made r (habove r hr)

end Since

/-- Above the whole tree there are no pipes. -/
theorem Fits.opened_root (h : Fits [] none g) : g.opened = [] := by
  have pipes : g.pipes = [] :=
    List.eq_nil_iff_forall_not_mem.mpr fun r hr => Nat.not_lt_zero _ (h.above r hr)
  rw [h.opened, held, pipes]
  rfl

/-- An exchange that is not the answer to a fork. -/
theorem Fits.answered (h : Fits origin s.opened g) {x : Exchange} (hx : x.isFork = false)
    (ha : (siting root origin).allows s x s') :
    Fits origin s'.opened (g.after (.answered x)) ∧ Since origin g (g.after (.answered x)) := by
  cases x with
  | builtin q b c n | launch q c r =>
      obtain ⟨-, rfl, -⟩ := ha
      exact ⟨h, .refl _ _⟩
  | fork q t d p w r => cases hx
  | channel q r =>
      obtain ⟨-, rfl, -, hdirect, hclosed⟩ := ha
      cases r with
      | error e =>
          rw [hclosed] at h
          exact ⟨h, .refl _ _⟩
      | ok ch =>
          have since : Since origin g (g.after (.answered (.channel q (.ok ch)))) := by
            refine ⟨rfl, fun r hr => Function.update_of_ne ?_ _ _⟩
            rintro rfl
            exact absurd hdirect.below.length_le (Nat.not_le_of_lt hr)
          refine ⟨⟨fun r hr => h.above r (since.pipes ▸ hr), ?_, ?_⟩, since⟩
          · rw [since.held h.above]
            change ch :: g.opened = _
            rw [h.opened, hclosed]
            rfl
          · intro q' ch' he
            cases he
            exact ⟨Function.update_self _ _ _, hdirect.below⟩
  | release ch =>
      obtain ⟨q, hopen, rfl⟩ := ha
      refine ⟨⟨h.above, ?_, nofun⟩, ⟨rfl, fun _ _ => rfl⟩⟩
      change g.opened.erase ch = _
      rw [h.opened, hopen]
      exact List.erase_cons_head _ _
  | wait child r =>
      obtain ⟨-, rfl⟩ := ha
      exact ⟨h, .refl _ _⟩

/-- A branch that is asked for begins with nothing open of its own. -/
theorem Fits.asked (h : Fits origin s.opened g) {q : Position} (request : ForkRequest)
    {r : Except ExecError Child} (ha : (siting root origin).allows s
      (.fork q request.tree request.depth request.parent request.wiring r) s') :
    Fits q none (g.after (.asked q request)) := by
  obtain ⟨-, -, -, r, side, rfl, -, -, hdirect, hwired⟩ := ha
  have below : origin.length ≤ r.length := hdirect.below.length_le
  have longer : (r ++ [side]).length = r.length + 1 := List.length_append
  have opened := h.opened
  obtain ⟨own, used⟩ := s
  cases own with
  | none =>
      have other : request.parent ≠ .pipe := by
        rw [hwired.1]
        decide
      have pipes := g.pipes_asked_other (r ++ [side]) other
      refine ⟨fun r' hr' => ?_, ?_, nofun⟩
      · have := h.above r' (pipes ▸ hr')
        omega
      · exact opened.trans (held_congr pipes fun _ _ => rfl).symm
  | some own =>
      obtain ⟨q, ch⟩ := own
      obtain ⟨rfl, hp, -⟩ := hwired
      have pipes := g.pipes_asked_pipe q side hp
      refine ⟨fun r' hr' => ?_, ?_, nofun⟩
      · rw [pipes] at hr'
        rcases List.mem_cons.mp hr' with rfl | hr'
        · omega
        · have := h.above r' hr'
          omega
      · have made := (h.made q ch rfl).1
        rw [held, pipes, List.filterMap_cons]
        change g.opened = _
        rw [show (g.after (.asked (q ++ [side]) request)).made q = some ch from made]
        exact opened

/-- When the branch is over and the fork answered, all is as before it. -/
theorem Fits.returned (h : Fits origin s.opened g) {q : Position} (request : ForkRequest)
    {r : Except ExecError Child} (ha : (siting root origin).allows s
      (.fork q request.tree request.depth request.parent request.wiring r) s')
    (hsince : Since q (g.after (.asked q request)) g') (hend : Fits q none g') :
    Fits origin s'.opened (g'.after (.answered
      (.fork q request.tree request.depth request.parent request.wiring r))) ∧
    Since origin g (g'.after (.answered
      (.fork q request.tree request.depth request.parent request.wiring r))) ∧
    g'.opened = g.opened := by
  have begun := h.asked request ha
  obtain ⟨-, rfl, -, r', side, rfl, -, -, hdirect, hwired⟩ := ha
  have below : origin.length ≤ r'.length := hdirect.below.length_le
  have longer : (r' ++ [side]).length = r'.length + 1 := List.length_append
  have same : g'.opened = g.opened := by
    rw [hend.opened, hsince.held begun.above]
    exact begun.opened.symm
  have since : Since origin g (g'.after (.answered (.fork (r' ++ [side]) request.tree
      request.depth request.parent request.wiring r))) := by
    refine ⟨?_, fun r hr => hsince.made r (by omega)⟩
    change g'.forks.tail = _
    rw [hsince.forks]
    rfl
  refine ⟨⟨fun r hr => h.above r (since.pipes ▸ hr), ?_, fun q ch ho => ?_⟩, since, same⟩
  · rw [since.held h.above]
    exact same.trans h.opened
  · obtain ⟨hmade, hpre⟩ := h.made q ch ho
    -- the pipe in question is the one that asked for the branch
    have hwired : side.IsWired r' s.opened request.parent request.wiring := hwired
    rw [show s.opened = some (q, ch) from ho] at hwired
    obtain ⟨rfl, -, -⟩ := hwired
    exact ⟨(hsince.made q (by omega)).trans hmade, hpre⟩

end Ledger

-- ============================================================== rehearsals

section

variable (start : View) (K : σ → List Channel → Prop)

/-- A wait takes place while exactly the channels are open that forks under
way hold. -/
def WaitsClosed (past : List (Moment σ)) (m : Moment σ) : Prop :=
  ∀ child r, m.event = .answered (.wait child r) →
    Channel.OnlyOpen start (Ledger.of past).held m.view ∧ K m.state (Ledger.of past).held

/-- The process and the launcher have the channels of the ledger open. -/
structure Standing (g : Ledger) (st : σ) (v : View) : Prop where
  table : Channel.OnlyOpen start g.opened v
  listed : K st g.opened

/-- What a walk has done when it is over: it has given up what it made. -/
structure Unwinds (origin : Position) (past ms : List (Moment σ)) (result : Outcome × σ × View) :
    Prop where
  waits : Throughout (WaitsClosed start K) past ms
  atEnd : result.1 ≠ .left → (Ledger.of (past ++ ms)).Fits origin none ∧
    (Ledger.of past).Since origin (Ledger.of (past ++ ms)) ∧
    Standing start K (Ledger.of (past ++ ms)) result.2.1 result.2.2

variable {start K}

namespace Unwinds

variable {origin : Position} {past ms : List (Moment σ)} {result : Outcome × σ × View}

theorem cons {m : Moment σ} (hm : WaitsClosed start K past m)
    (hsince : (Ledger.of past).Since origin ((Ledger.of past).after m.event))
    (h : Unwinds start K origin (past ++ [m]) ms result) :
    Unwinds start K origin past (m :: ms) result where
  waits := ⟨hm, h.waits⟩
  atEnd ho := by
    obtain ⟨fits, since, standing⟩ := h.atEnd ho
    rw [Ledger.of_snoc] at since
    rw [List.append_cons]
    exact ⟨fits, hsince.trans since, standing⟩

/-- An exchange that is not the answer to a fork, and what comes after it. -/
theorem step {root : Tree} {s s' : Siting} {x : Exchange} {st₀ st : σ} {v₀ v : View}
    (ha : (siting root origin).allows s x s') (hx : x.isFork = false)
    (hm : WaitsClosed start K past ⟨.answered x, st₀, v₀⟩)
    (hfits : (Ledger.of past).Fits origin s.opened)
    (hstanding : Standing start K ((Ledger.of past).after (.answered x)) st v)
    (hrest : ∀ {past}, (Ledger.of past).Fits origin s'.opened →
      Standing start K (Ledger.of past) st v → Unwinds start K origin past ms result) :
    Unwinds start K origin past (⟨.answered x, st₀, v₀⟩ :: ms) result := by
  obtain ⟨fits, since⟩ := hfits.answered hx ha
  have ledger := Ledger.of_snoc past ⟨.answered x, st₀, v₀⟩
  refine .cons hm since (hrest ?_ ?_)
  · rw [ledger]
    exact fits
  · rw [ledger]
    exact hstanding

/-- A fork with all that its branch does. -/
theorem forked {asked answered : Moment σ} {within : List (Moment σ)}
    (hasked : ∀ x, asked.event ≠ .answered x)
    (hanswered : ∀ child r, answered.event ≠ .answered (.wait child r))
    (hwithin : Throughout (WaitsClosed start K) (past ++ [asked]) within)
    (hsince : (Ledger.of past).Since origin
      ((Ledger.of (past ++ asked :: within)).after answered.event))
    (h : Unwinds start K origin (past ++ asked :: (within ++ [answered])) ms result) :
    Unwinds start K origin past (asked :: (within ++ answered :: ms)) result where
  waits := by
    refine ⟨fun child r he => absurd he (hasked _), hwithin.append ⟨fun child r he =>
      absurd he (hanswered child r), ?_⟩⟩
    have waits := h.waits
    simp only [List.append_assoc, List.cons_append, List.nil_append] at waits ⊢
    exact waits
  atEnd ho := by
    obtain ⟨fits, since, standing⟩ := h.atEnd ho
    have whole : past ++ asked :: (within ++ [answered]) ++ ms
        = past ++ asked :: (within ++ answered :: ms) := by simp
    have ledger : Ledger.of (past ++ asked :: (within ++ [answered]))
        = (Ledger.of (past ++ asked :: within)).after answered.event := by
      rw [← Ledger.of_snoc, List.append_assoc]
      rfl
    rw [whole] at fits since standing
    rw [ledger] at since
    exact ⟨fits, hsince.trans since, standing⟩

/-- A fork whose branch ends the process. -/
theorem left {asked : Moment σ} {within : List (Moment σ)} {st : σ} {v : View}
    (hasked : ∀ x, asked.event ≠ .answered x)
    (hwithin : Throughout (WaitsClosed start K) (past ++ [asked]) within) :
    Unwinds start K origin past (asked :: within) (.left, st, v) where
  waits := ⟨fun _ _ he => absurd he (hasked _), hwithin⟩
  atEnd ho := absurd rfl ho

end Unwinds

variable {root : Tree} {l : Launcher σ}

/-- A channel that was made is open from then on. -/
theorem Launcher.AnswersChannel.standing (hK : l.Lists K) {g : Ledger} {q : Position} {st st₁ : σ}
    {v v₁ : View} {r : Except ExecError Channel} (h : l.AnswersChannel st v r st₁ v₁)
    (hstanding : Standing start K g st v) :
    Standing start K (g.after (.answered (.channel q r))) st₁ v₁ := by
  have listed := hK.connect hstanding.listed
  cases h with
  | refused hconnect =>
      rw [hconnect] at listed
      exact ⟨hstanding.table, listed⟩
  | unmade hconnect hpipe =>
      rw [hconnect] at listed
      rcases Call.pipe_spec v with ⟨e, he⟩ | ⟨_, _, _, hmade, -⟩
      · obtain ⟨-, rfl⟩ := Prod.mk.inj (he.symm.trans hpipe)
        exact ⟨hstanding.table, listed⟩
      · rw [hmade] at hpipe
        cases hpipe
  | made hconnect hpipe =>
      rw [hconnect] at listed
      exact ⟨hstanding.table.connected hpipe, hK.connected listed⟩

/-- Where a fork is answered, its branch has unwound, if it did anything. -/
theorem Launcher.AnswersFork.unwinds (hl : l.OnTheSpot) (hK : l.Lists K) {q : Position}
    {request : ForkRequest} {branch : Walk} {past within : List (Moment σ)} {st st₀ st₁ : σ}
    {v v₀ v₁ : View} {r : Except ExecError Child}
    (h : l.AnswersFork request branch st v within st₀ v₀ r st₁ v₁) :
    let asked := past ++ [⟨.asked q request, st, v⟩]
    (Ledger.of asked).Fits q none → Standing start K (Ledger.of asked) st v →
      (∀ st', Standing start K (Ledger.of asked) st' v →
        Unwinds start K q asked (branch.trace l st' v) (branch.rehearse l st' v)) →
      Throughout (WaitsClosed start K) asked within ∧ (Ledger.of (asked ++ within)).Fits q none ∧
        (Ledger.of asked).Since q (Ledger.of (asked ++ within)) ∧
        Standing start K (Ledger.of (asked ++ within)) st₁ v₁ := by
  intro asked hbegun hstanding hbranch
  have entered : Standing start K (Ledger.of asked) (l.enter request st).2 v :=
    ⟨hstanding.table, hK.enter hstanding.listed⟩
  -- the launcher may leave behind what the branch made of the process, but for its table
  have leaves : ∀ {g : Ledger} {st' st'' : σ} {after : View}, K st'' g.opened →
      Standing start K g st' after → Standing start K g st'' (l.leaveBranch v after) :=
    fun {_ _ _ after} hlisted hafter => ⟨hafter.table.alike (hl.fds v after ▸ .refl _)
      (.of_eq (by rw [hl.world])), hlisted⟩
  cases h with
  | refused henter =>
      rw [henter] at entered
      rw [List.append_nil]
      exact ⟨trivial, hbegun, .refl _ _, entered⟩
  | program henter =>
      rw [henter] at entered
      rw [List.append_nil]
      exact ⟨trivial, hbegun, .refl _ _, entered.table, hK.exec entered.listed⟩
  | finished henter _ hrun =>
      rw [henter] at entered
      have branch := hbranch _ entered
      rw [hrun] at branch
      obtain ⟨fits, since, standing⟩ := branch.atEnd nofun
      exact ⟨branch.waits, fits, since, leaves (hK.finish standing.listed) standing⟩
  | failed henter _ hrun =>
      rw [henter] at entered
      have branch := hbranch _ entered
      rw [hrun] at branch
      obtain ⟨fits, since, standing⟩ := branch.atEnd nofun
      exact ⟨branch.waits, fits, since, leaves standing.listed standing⟩

namespace Walk

/-- Rehearsed from a point where the ledger fits, a walk that acts from its
site on unwinds. -/
theorem unwinds_rehearse (hl : l.OnTheSpot) (hK : l.Lists K)
    (hstd : start.process.fds.Standard) {w : Walk} :
    ∀ {origin : Position} {s : Siting} {past : List (Moment σ)} (st : σ) (v : View), w.Faithful →
      w.Obeys (siting root origin) s (fun s _ => s.opened = none) →
      (Ledger.of past).Fits origin s.opened → Standing start K (Ledger.of past) st v →
      Unwinds start K origin past (w.trace l st v) (w.rehearse l st v) := by
  induction w with
  | done n | failed e =>
      intro origin s past st v _ hw hfits hstanding
      rw [show s.opened = none from hw] at hfits
      refine ⟨trivial, fun _ => ?_⟩
      simp only [trace, rehearse, List.append_nil]
      exact ⟨hfits, .refl _ _, hstanding⟩
  | log level text next ih =>
      intro origin s past st v hf hw hfits hstanding
      have noted := View.Quiet.note v level text
      exact ih st (v.note level text) hf hw hfits
        ⟨hstanding.table.alike (.refl _) noted.world, hstanding.listed⟩
  | builtin q b c next ih =>
      intro origin s past st v hf hw hfits hstanding
      simp only [trace, rehearse]
      cases hb : b.run c v with
      | mk ending v' =>
          cases ending with
          | leave => exact ⟨trivial, fun ho => absurd rfl ho⟩
          | status n =>
              obtain ⟨s', ha, hw⟩ := hw n
              have kept := Builtin.run_onward b c v
              rw [hb] at kept
              have alike := Builtin.run_alike (hstanding.table.standard hstd) hb
              exact .step ha rfl (fun _ _ h => by cases h) hfits
                ⟨hstanding.table.alike alike kept.world, hstanding.listed⟩ (ih n st v' (hf n) hw)
  | launch q c next ih =>
      intro origin s past st v hf hw hfits hstanding
      obtain ⟨s', ha, hw⟩ := hw (l.launch c st).1
      exact .step ha rfl (fun _ _ h => by cases h) hfits
        ⟨hstanding.table, hK.launch hstanding.listed⟩ (ih _ (l.launch c st).2 v (hf _) hw)
  | fork q tree depth parent wiring branch next ihb ih =>
      intro origin s past st v hf hw hfits hstanding
      obtain ⟨rfl, hf⟩ := hf
      let request : ForkRequest := ⟨tree, depth, parent, wiring⟩
      let asked := past ++ [⟨.asked q request, st, v⟩]
      have begun : (Ledger.of asked).Fits q none ∧ Standing start K (Ledger.of asked) st v := by
        obtain ⟨s', ha, -⟩ := hw (.error default)
        rw [Ledger.of_snoc]
        exact ⟨hfits.asked request ha, hstanding.table, hstanding.listed⟩
      have branch : ∀ st', Standing start K (Ledger.of asked) st' v →
          Unwinds start K q asked _ _ := fun st' hstanding => by
        obtain ⟨s', ha, -⟩ := hw (.error default)
        exact ihb st' v (faithful_execute tree depth (some parent) q)
          (siting_execute ha.2.2.1 depth (some parent)) begun.1 hstanding
      rcases fork_cases l q tree depth parent wiring (execute tree depth (some parent) q) st v with
        ⟨within, st₀, v₀, r, st₁, v₁, hanswer, hgoes⟩ | ⟨st₁, st₂, after, henter, -, hrun, hleft⟩
      · obtain ⟨waits, fits, since, standing⟩ := hanswer.unwinds hl hK begun.1 begun.2 branch
        obtain ⟨s', ha, hw⟩ := hw r
        rw [Ledger.of_snoc] at since
        obtain ⟨fits, since, -⟩ := hfits.returned request ha since fits
        rw [(hgoes next).1, (hgoes next).2]
        rw [List.append_assoc] at fits since standing
        refine .forked (fun _ h => by cases h) (fun _ _ h => by cases h) waits since
          (ih r st₁ v₁ (hf r) hw ?_ ?_)
        · rw [← List.cons_append, ← List.append_assoc, Ledger.of_snoc]
          exact fits
        · rw [← List.cons_append, ← List.append_assoc, Ledger.of_snoc]
          exact ⟨standing.table, standing.listed⟩
      · rw [(hleft next).1, (hleft next).2]
        refine .left (fun _ h => by cases h) (branch st₁ ⟨begun.2.table, ?_⟩).waits
        have entered : K (l.enter request st).2 _ := hK.enter begun.2.listed
        rw [henter] at entered
        exact entered
  | channel q next ih =>
      intro origin s past st v hf hw hfits hstanding
      obtain ⟨r, st₁, v₁, hanswer, hgoes⟩ := channel_cases l q st v
      rw [(hgoes next).1, (hgoes next).2]
      obtain ⟨s', ha, hw⟩ := hw r
      exact .step ha rfl (fun _ _ h => by cases h) hfits (hanswer.standing hK hstanding)
        (ih r st₁ v₁ (hf r) hw)
  | release ch next ih =>
      intro origin s past st v hf hw hfits hstanding
      obtain ⟨s', ha, hw⟩ := hw
      obtain ⟨table, listed⟩ := hstanding
      have opened := hfits.opened
      rw [show s.opened = some (_, ch) from ha.choose_spec.1] at opened
      have remaining : ((Ledger.of past).after (.answered (.release ch))).opened
          = (Ledger.of past).held := by
        change (Ledger.of past).opened.erase ch = _
        rw [opened]
        exact List.erase_cons_head _ _
      rw [opened] at table listed
      refine .step ha rfl (fun _ _ h => by cases h) hfits ⟨?_, ?_⟩ (ih _ _ hf hw)
      · rw [remaining]
        exact table.released
      · rw [remaining]
        exact hK.released listed table.head_notMem
  | wait child next ih =>
      intro origin s past st v hf hw hfits hstanding
      obtain ⟨s', ha, hw⟩ := hw (l.wait child st).1
      refine .step ha rfl (fun _ _ _ => ?_) hfits ⟨hstanding.table, hK.wait hstanding.listed⟩
        (ih _ (l.wait child st).2 v (hf _) hw)
      obtain ⟨table, listed⟩ := hstanding
      have opened := hfits.opened
      rw [show s.opened = none from ha.1] at opened
      rw [opened] at table listed
      exact ⟨table, listed⟩

end Walk

end

-- ======================================================== the main result

theorem Scripted.launcher_onTheSpot : Scripted.launcher.OnTheSpot :=
  ⟨fun _ _ => rfl, fun _ _ => rfl⟩

theorem Recorded.launcher_onTheSpot : Recorded.launcher.OnTheSpot :=
  ⟨fun _ _ => rfl, fun _ _ => rfl⟩

/-- A launcher need not know of channels. -/
theorem Launcher.lists_nothing (l : Launcher σ) : l.Lists fun _ _ => True := by
  constructor <;> intros <;> trivial

/-- The scripted launcher lists the channels that are open. -/
theorem Scripted.launcher_lists :
    Scripted.launcher.Lists fun st chs => st.openChannels.map Prod.snd = chs.reverse where
  launch h := by
    simp only [launcher, State.ask]
    split <;> simp_all [State.start, State.register, State.record] <;> grind
  enter h := by
    simp only [launcher, State.ask]
    split <;> grind [State.record]
  exec h := h
  finish h := h
  connect h := by
    simp only [launcher, State.ask]
    split <;> grind [State.record]
  connected {ch st chs} h := by
    change (st.openChannels ++ [(st.channels + 1, ch)]).map Prod.snd = _
    rw [List.map_append, h, List.reverse_cons]
    rfl
  released {ch st chs} h hch := by
    have others : chs.reverse.filter (fun c => decide (c ≠ ch)) = chs.reverse := by
      refine List.filter_eq_self.mpr fun c hc => decide_eq_true ?_
      rintro rfl
      exact hch (List.mem_reverse.mp hc)
    calc (st.openChannels.filter fun x => decide (x.2 ≠ ch)).map Prod.snd
        = (st.openChannels.map Prod.snd).filter fun c => decide (c ≠ ch) := by
          rw [List.filter_map]
          rfl
      _ = chs.reverse.filter (fun c => decide (c ≠ ch)) ++ [ch].filter (fun c => decide (c ≠ ch)) := by
          rw [h, List.reverse_cons, List.filter_append]
      _ = chs.reverse := by
          rw [others, List.filter_cons_of_neg (by simp), List.filter_nil, List.append_nil]
  wait h := by
    simp only [launcher, State.ask]
    split <;> grind [State.record]

namespace Walk

/-- A rehearsal of a whole tree, from a state in which nothing is listed. -/
theorem rehearse_closed (t : Tree) (depth : Nat) (parent : Option Operator) {l : Launcher σ}
    (hl : l.OnTheSpot) {K : σ → List Channel → Prop} (hK : l.Lists K) {st : σ} (hst : K st [])
    (v : View) (hstd : v.process.fds.Standard) :
    Throughout (WaitsClosed v K) [] ((execute t depth parent).trace l st v) ∧
    (((execute t depth parent).rehearse l st v).1 ≠ .left →
      Channel.OnlyOpen v [] ((execute t depth parent).rehearse l st v).2.2 ∧
      K ((execute t depth parent).rehearse l st v).2.1 []) := by
  have unwinds : Unwinds v K [] [] ((execute t depth parent).trace l st v) _ :=
    unwinds_rehearse hl hK hstd st v (faithful_execute t depth parent [])
      (siting_execute (Tree.sub?_nil t) depth parent) ⟨nofun, rfl, nofun⟩ ⟨.refl v, hst⟩
  refine ⟨unwinds.waits, fun ho => ?_⟩
  obtain ⟨fits, -, table, listed⟩ := unwinds.atEnd ho
  rw [fits.opened_root] at table listed
  exact ⟨table, listed⟩

/-- Whatever the tree and whatever fails, where branches are evaluated on
the spot: at each wait the process has open, beyond what it began with,
exactly both ends of the channels of the pipes that are in the middle of one
of their forks; and when it returns, whether with a status or with a
failure, it has nothing open but what it began with. The scripted launcher
lists just these channels as open. -/
theorem channels_closed_before_waiting (t : Tree) (depth : Nat) (parent : Option Operator) :
    (∀ {σ : Type} (l : Launcher σ), l.OnTheSpot → ∀ (st : σ) (v : View),
      v.process.fds.Standard →
      (∀ before m after child r,
        (execute t depth parent).trace l st v = before ++ m :: after →
        m.event = .answered (.wait child r) →
        Channel.OnlyOpen v (Ledger.of before).held m.view) ∧
      ∀ o st' v', (execute t depth parent).rehearse l st v = (o, st', v') → o ≠ .left →
        Channel.OnlyOpen v [] v') ∧
    (∀ (st : Scripted.State) (v : View), st.openChannels = [] → v.process.fds.Standard →
      (∀ before m after child r,
        (execute t depth parent).trace Scripted.launcher st v = before ++ m :: after →
        m.event = .answered (.wait child r) →
        m.state.openChannels.map Prod.snd = (Ledger.of before).held.reverse) ∧
      ∀ o st' v', (execute t depth parent).rehearse Scripted.launcher st v = (o, st', v') →
        o ≠ .left → st'.openChannels = []) := by
  refine ⟨fun l hl st v hstd => ?_, fun st v hst hstd => ?_⟩
  · have unlisted : (fun (_ : _) (_ : List Channel) => True) st [] := trivial
    obtain ⟨waits, atEnd⟩ := rehearse_closed t depth parent hl l.lists_nothing unlisted v hstd
    refine ⟨fun before m after child r heq he => ?_, fun o st' v' hr ho => ?_⟩
    · rw [heq] at waits
      exact (waits.at_split child r he).1
    · rw [hr] at atEnd
      exact (atEnd ho).1
  · have listed : st.openChannels.map Prod.snd = ([] : List Channel).reverse := by
      rw [hst]
      rfl
    obtain ⟨waits, atEnd⟩ := rehearse_closed t depth parent Scripted.launcher_onTheSpot
      Scripted.launcher_lists listed v hstd
    refine ⟨fun before m after child r heq he => ?_, fun o st' v' hr ho => ?_⟩
    · rw [heq] at waits
      exact (waits.at_split child r he).2
    · rw [hr] at atEnd
      exact List.map_eq_nil_iff.mp (atEnd ho).2

/-- The reading stage of a pipe waits for a program of its own while the
pipe's channel is open: the process is within that very fork. -/
theorem channels_closed_before_waiting_within_stage :
    let program (verb : String) := Tree.leaf { verb, argv := [verb] }
    let tree := Tree.node .pipe (program "a") (.node .sequential (program "b") (program "c"))
    let st : Scripted.State := { script := {} }
    let v := View.atTerminal
    (Scripted.launcher.OnTheSpot ∧ st.openChannels = [] ∧ v.process.fds.Standard) ∧
    ∃ before m after, (execute tree 0 none).trace Scripted.launcher st v = before ++ m :: after ∧
      m.event = .answered (.wait 2 (.ok (.exited 0))) ∧ (Ledger.of before).held = [⟨3, 4⟩] ∧
      Channel.OnlyOpen v [⟨3, 4⟩] m.view ∧ m.state.openChannels.map Prod.snd = [⟨3, 4⟩] := by
  intro program tree st v
  have main := channels_closed_before_waiting tree 0 none
  have stands : (((execute tree 0 none).trace Scripted.launcher st v).map Moment.event)[5]?
      = some (.answered (.wait 2 (.ok (.exited 0)))) := by decide +kernel
  have within : (Ledger.of (((execute tree 0 none).trace Scripted.launcher st v).take 5)).held
      = [⟨3, 4⟩] := by decide +kernel
  rw [List.getElem?_map] at stands
  obtain ⟨m, hm, he⟩ := Option.map_eq_some_iff.mp stands
  obtain ⟨hlt, rfl⟩ := List.getElem?_eq_some_iff.mp hm
  have split := (List.take_append_drop 5 ((execute tree 0 none).trace Scripted.launcher st v)).symm
  rw [List.drop_eq_getElem_cons hlt] at split
  refine ⟨⟨Scripted.launcher_onTheSpot, rfl, View.atTerminal_standard⟩, _, _, _, split, he, within,
    ?_, ?_⟩
  · rw [← within]
    exact (main.1 Scripted.launcher Scripted.launcher_onTheSpot st v
      View.atTerminal_standard).1 _ _ _ _ _ split he
  · have listed := (main.2 st v rfl View.atTerminal_standard).1 _ _ _ _ _ split he
    rw [within] at listed
    exact listed

end Walk

end LineShell
