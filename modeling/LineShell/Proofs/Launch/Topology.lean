/-
Which process of a run holds which end of which channel.

# Tables

`Topology` says what the descriptor table of a process for a position is:
the shell's own, except that standard input is the read end of the channel
of the innermost pipe that has the position on its right, and standard
output the write end of the channel of the innermost pipe that has it on
its left. Channels are told by what the ancestors of the process did: the
deed that made the channel has in its view the number of the open file
that became the read end, and the write end is the next one.

# The invariant

A process that is on its walk has the table of its topology, but for the
two descriptors of the channel that it has open (`Holding`). A builtin
gives its descriptors back, a release closes the two, and everything else
leaves the table alone; so a branch comes with the table of its topology
or with that table and the channel of the pipe directly above it, and its
wiring makes of it the table of its own topology (`Holding.wired`).
-/
import LineShell.Proofs.Launch.Once

namespace LineShell

open Posix

-- ================================================================ channels

/-- The stream that a branch of a pipe has replaced, by its side. -/
def Side.stream : Side → Fd
  | .left => Fd.stdout
  | .right => Fd.stdin

/-- The end of a channel that the branch on a side has to itself, by its
descriptor in the process that made the channel. -/
def Side.fd : Side → Channel → Fd
  | .left => Channel.write
  | .right => Channel.read

/-- What the end leads to, given the number of the pipe. -/
def Side.target : Side → Nat → Target
  | .left => .writer
  | .right => .reader

/-- The descriptor table of a process for a position, given the shell's and
what the process and its ancestors did. -/
structure Topology (root : Tree) (shell : FdTable) (past : List Deed) (q : Position)
    (t : FdTable) : Prop where
  stream : ∀ side : Side,
    match root.innermostPipe side q with
    | none => t.file? side.stream = shell.file? side.stream
    | some p => ∃ d ∈ past, d.Makes p ∧ t.file? side.stream = some (d.endFor side)
  stderr : t.file? Fd.stderr = shell.file? Fd.stderr
  rest : ∀ fd, Fd.stderr < fd → t.get? fd = shell.get? fd

/-- The table has two descriptors more, if a channel is open. -/
inductive Holding (past : List Deed) (t : FdTable) :
    Option (Position × Channel) → FdTable → Prop where
  | closed {t' : FdTable} : t'.Alike t → Holding past t none t'
  | opened {q : Position} {ch : Channel} {d : Deed} {t' : FdTable} : d ∈ past →
      d.exchange = .channel q (.ok ch) → t.get? ch.read = none → t.get? ch.write = none →
      ch.read < ch.write → t'.Alike ((t.set ch.read ⟨d.endFor .right, false⟩).set ch.write
        ⟨d.endFor .left, false⟩) →
      Holding past t (some (q, ch)) t'

-- ================================================================== tables

namespace Topology

variable {root : Tree} {shell t t' : FdTable} {past past' : List Deed} {q r : Position}

theorem ofShell (root : Tree) (shell : FdTable) (past : List Deed) :
    Topology root shell past [] shell where
  stream side := by
    have : root.innermostPipe side [] = none := by cases root <;> rfl
    rw [this]
  stderr := rfl
  rest _ _ := rfl

theorem alike (h : Topology root shell past q t) (ha : t'.Alike t) :
    Topology root shell past q t' where
  stream side := by
    rw [ha.files]
    exact h.stream side
  stderr := (ha.files _).trans h.stderr
  rest fd hfd := (ha.rest fd hfd).trans (h.rest fd hfd)

theorem mono (h : Topology root shell past q t) (hpast : past ⊆ past') :
    Topology root shell past' q t where
  stream side := by
    have stream := h.stream side
    split
    · next he => rwa [he] at stream
    · next p he =>
      rw [he] at stream
      obtain ⟨d, hd, hmakes⟩ := stream
      exact ⟨d, hpast hd, hmakes⟩
  stderr := h.stderr
  rest := h.rest

/-- Positions with the same innermost pipes have the same topology. -/
theorem congr (h : Topology root shell past q t)
    (hq : ∀ side, root.innermostPipe side r = root.innermostPipe side q) :
    Topology root shell past r t where
  stream side := by
    rw [hq]
    exact h.stream side
  stderr := h.stderr
  rest := h.rest

/-- One stream is replaced by an end of the channel of the pipe above. -/
theorem plug (h : Topology root shell past q t) (hop : root.op? q = some .pipe) {d : Deed}
    (hd : d ∈ past) (hmakes : d.Makes q) (side : Side) (closeOnExec : Bool) :
    Topology root shell past (q ++ [side]) (t.set side.stream ⟨d.endFor side, closeOnExec⟩) where
  stream s := by
    rw [Tree.innermostPipe_side hop]
    by_cases hs : side = s
    · subst hs
      rw [if_pos ⟨rfl, rfl⟩]
      exact ⟨d, hd, hmakes, by simp only [FdTable.file?, FdTable.get?_set, if_true, Option.map_some]⟩
    · rw [if_neg fun h => hs h.2]
      have other : s.stream ≠ side.stream := by
        cases s <;> cases side <;> first | exact absurd rfl hs | decide
      have same : (t.set side.stream ⟨d.endFor side, closeOnExec⟩).file? s.stream
          = t.file? s.stream := by
        simp only [FdTable.file?, FdTable.get?_set, if_neg other]
      rw [same]
      exact h.stream s
  stderr := by
    have other : Fd.stderr ≠ side.stream := by cases side <;> decide
    simp only [FdTable.file?, FdTable.get?_set, if_neg other]
    exact h.stderr
  rest fd hfd := by
    have other : fd ≠ side.stream := fun he => by
      rw [he] at hfd
      cases side <;> exact absurd hfd (by decide)
    rw [FdTable.get?_set, if_neg other]
    exact h.rest fd hfd

/-- The standard streams are open where the shell's are. -/
theorem standard (h : Topology root shell past q t) (hs : shell.Standard) : t.Standard := by
  have isSome : ∀ (t : FdTable) fd, (t.get? fd).isSome = (t.file? fd).isSome := fun t fd => by
    simp only [FdTable.file?, Option.isSome_map]
  have stream : ∀ side : Side, (t.get? side.stream).isSome := fun side => by
    have stream := h.stream side
    rw [isSome]
    split at stream
    · rw [stream, ← isSome]
      exact hs _ (by cases side <;> decide)
    · obtain ⟨d, -, -, hd⟩ := stream
      rw [hd]
      rfl
  intro fd hfd
  obtain rfl | rfl | rfl | habove := fd.standard_or_above
  · exact stream .right
  · exact stream .left
  · rw [isSome, h.stderr, ← isSome]
    exact hs _ (Nat.le_refl _)
  · exact absurd hfd (Nat.not_le_of_gt habove)

end Topology

-- ================================================================== wiring

theorem Wiring.apply_inherit (v : View) : inherit.apply.attempt v = (.ok (), v) := rfl

/-- What the wiring of a branch of a pipe does, where the channel lies
beyond the standard streams. -/
theorem Wiring.apply_side (side : Side) {ch : Channel} (hr : Fd.stderr < ch.read)
    (hw : Fd.stderr < ch.write) : (side.wiring ch).apply = (do
      Call.dup2 (side.fd ch) side.stream
      Call.close ch.read
      Call.close ch.write) := by
  cases side <;> simp [Side.wiring, Side.fd, Side.stream, writer, reader, apply, hr, hw]

namespace Holding

variable {root : Tree} {shell t t' t'' : FdTable} {past past' : List Deed}
  {o : Option (Position × Channel)} {r : Position} {p : Operator} {side : Side} {w : Wiring}
  {v v' : View}

theorem alike (h : Holding past t o t') (ha : t''.Alike t') : Holding past t o t'' := by
  cases h with
  | closed h => exact .closed (ha.trans h)
  | opened hd hx hr hw hlt h => exact .opened hd hx hr hw hlt (ha.trans h)

theorem mono (h : Holding past t o t') (hpast : past ⊆ past') : Holding past' t o t' := by
  cases h with
  | closed h => exact .closed h
  | opened hd hx hr hw hlt h => exact .opened (hpast hd) hx hr hw hlt h

/-- The standard streams are open while a channel is. -/
theorem standard (h : Holding past t o t') (hs : t.Standard) : t'.Standard := by
  cases h with
  | closed h => exact h.symm.standard hs
  | opened _ _ _ _ _ h => exact h.symm.standard ((hs.set _ _).set _ _)

/-- The wiring of a branch makes its topology out of what it comes with:
one end takes the place of its stream, and both are closed. -/
theorem wired (h : Holding past t o v.process.fds) (hs : shell.Standard)
    (htop : Topology root shell past r t) (hop : root.op? r = some p)
    (hw : side.IsWired r o p w) (happly : w.apply.attempt v = (.ok (), v')) :
    Topology root shell past (r ++ [side]) v'.process.fds := by
  have hstd := htop.standard hs
  cases h with
  | closed h =>
      obtain ⟨rfl, rfl⟩ := hw
      cases happly
      refine (htop.alike h).congr fun s => ?_
      rw [Tree.innermostPipe_side hop, if_neg nofun]
  | @opened q ch d _ hd hx hr hw' hlt h =>
      obtain ⟨rfl, rfl, rfl⟩ := hw
      have hread := hstd.lt_of_free hr
      have hwrite := hstd.lt_of_free hw'
      have hne : ch.read ≠ ch.write := Nat.ne_of_lt hlt
      have hgetw : v.process.fds.get? ch.write = some ⟨d.endFor .left, false⟩ := by
        rw [h.rest _ hwrite, FdTable.get?_set, if_pos rfl]
      have hgetr : v.process.fds.get? ch.read = some ⟨d.endFor .right, false⟩ := by
        rw [h.rest _ hread, FdTable.get?_set, if_neg hne, FdTable.get?_set, if_pos rfl]
      have hstream : ∀ fd, Fd.stderr < fd → fd ≠ side.stream := fun fd hfd he => by
        rw [he] at hfd
        cases side <;> exact absurd hfd (by decide)
      have hget : v.process.fds.get? (side.fd ch) = some ⟨d.endFor side, false⟩ := by
        cases side with
        | left => exact hgetw
        | right => exact hgetr
      have hfd : side.fd ch ≠ side.stream := by
        cases side with
        | left => exact hstream _ hwrite
        | right => exact hstream _ hread
      rw [Wiring.apply_side side hread hwrite, Call.attempt_bind_ok (Call.dup2_of_open hget hfd),
        Call.attempt_bind_ok (Call.close_of_open (x := ⟨d.endFor .right, false⟩) ?_),
        Call.close_of_open (x := ⟨d.endFor .left, false⟩) ?_] at happly
      · cases happly
        refine (htop.plug hop hd ⟨ch, hx⟩ side false).alike ?_
        refine (((h.set _ _).erase _).erase _).trans (.of_get? fun fd => ?_)
        grind [FdTable.get?_erase, FdTable.get?_set]
      · change ((v.process.fds.set _ _).erase _).get? _ = _
        rw [FdTable.get?_erase, if_neg hne.symm, FdTable.get?_set, if_neg (hstream _ hwrite), hgetw]
      · change (v.process.fds.set _ _).get? _ = _
        rw [FdTable.get?_set, if_neg (hstream _ hread), hgetr]

end Holding

-- =============================================================== processes

namespace Account

variable {root : Tree} {shell : View} {a a' b : Account} {s s' : Siting} {v v' : View}

/-- The descriptors of a process, by how far it has come. -/
def Plugged (root : Tree) (shell : FdTable) (a : Account) (s : Siting) (t : FdTable) : Prop :=
  match a.stage with
  | .wiring p w =>
      s.opened = none ∧ ∃ r side o t₀, a.site = r ++ [side] ∧ root.op? r = some p ∧
        side.IsWired r o p w ∧ Topology root shell a.inherited r t₀ ∧ Holding a.inherited t₀ o t
  | .walking _ => ∃ t₀, Topology root shell a.inherited a.site t₀ ∧ Holding a.deeds t₀ s.opened t
  | .program _ => Topology root shell a.inherited a.site t
  | _ => True

/-- The channels were made after a certain time, and their ends lead to
them. -/
structure Ends (first : World) (a : Account) (w : World) : Prop where
  world : first.Extends w
  made : ∀ d ∈ a.deeds, ∀ p, d.Makes p → first.files.size ≤ d.view.world.files.size ∧
    ∀ side : Side, w.files[d.endFor side]?.map OpenFile.target
      = some (side.target d.view.world.pipes.size)

theorem Ends.extends {first w w' : World} (h : Ends first a w) (hw : w.Extends w') :
    Ends first a w' where
  world := h.world.trans hw
  made d hd p hp := by
    obtain ⟨hlater, htarget⟩ := h.made d hd p hp
    exact ⟨hlater, fun side => hw.target (htarget side)⟩

/-- A new channel leads to itself. -/
theorem Turn.ends {first : World} (h : a.Turn v a' v') (he : Ends first a v.world) :
    Ends first a' v'.world := by
  have kept := he.extends h.world
  have more : ∀ x rest ending,
      (∀ p, (⟨x, v, ending⟩ : Deed).Makes p → first.files.size ≤ v.world.files.size ∧
        ∀ side : Side, v'.world.files[(⟨x, v, ending⟩ : Deed).endFor side]?.map OpenFile.target
          = some (side.target v.world.pipes.size)) →
      Ends first (a.does x v rest ending) v'.world := by
    intro x rest ending hx
    refine ⟨kept.world, fun d hd p hp => ?_⟩
    rw [deeds, does, ← List.append_assoc] at hd
    rcases List.mem_append.mp hd with hd | hd
    · exact kept.made d hd p hp
    · obtain rfl := List.mem_singleton.mp hd
      exact hx p hp
  cases h with
  | wired | log | leave | prepare | prepared | quit | away => exact ⟨kept.world, kept.made⟩
  | builtin | launch | fork | release | wait =>
      exact more _ _ _ fun p hp => by obtain ⟨ch, hp⟩ := hp; cases hp
  | channel _ hpipe =>
      refine more _ _ _ fun p hp => ⟨he.world.size_le, ?_⟩
      rcases Call.pipe_spec v with ⟨e, he⟩ | ⟨r, w, v₁, hv₁, -, -, -, -, hread, hwrite⟩
      · rw [he] at hpipe
        cases hpipe
        obtain ⟨ch, hp⟩ := hp
        cases hp
      · rw [hv₁] at hpipe
        cases hpipe
        intro side
        cases side with
        | left => exact hwrite
        | right => exact hread

theorem Turn.plugged (h : a.Turn v a' v') (hs : a.Sited root s)
    (hf : Follows (siting root a.site) a s a' s') (hstd : shell.process.fds.Standard)
    (hp : a.Plugged root shell.process.fds s v.process.fds) :
    a'.Plugged root shell.process.fds s' v'.process.fds := by
  have appended : ∀ d, a.deeds ⊆ a.inherited ++ (a.own ++ [d]) := fun d => by
    rw [← List.append_assoc]
    exact List.subset_append_left _ _
  cases h with
  | wired hstage happly =>
      obtain rfl := hf.idle rfl
      simp only [Plugged, hstage] at hp
      obtain ⟨hopened, r, side, o, t₀, hsite, hop, hw, htop, hheld⟩ := hp
      have htop := hheld.wired hstd htop hop hw happly
      rw [← hsite] at htop
      cases hx : a.tree.external? with
      | some c => simpa only [Plugged, onceWired, hx] using htop
      | none =>
          simp only [Plugged, onceWired, hx, hopened]
          exact ⟨_, htop, .closed (.refl _)⟩
  | log hstage =>
      obtain rfl := hf.idle rfl
      simp only [Plugged, hstage] at hp
      exact hp
  | builtin hstage hrun =>
      obtain ⟨-, rfl, -, -, hopened⟩ := hf.deed _ rfl
      simp only [Plugged, hstage] at hp
      obtain ⟨t₀, htop, hheld⟩ := hp
      have hv := hheld.standard (htop.standard hstd)
      exact ⟨t₀, htop, (hheld.alike (Builtin.run_alike hv hrun)).mono (appended _)⟩
  | launch pid hstage =>
      obtain ⟨-, rfl, -⟩ := hf.deed _ rfl
      simp only [Plugged, hstage] at hp
      obtain ⟨t₀, htop, hheld⟩ := hp
      exact ⟨t₀, htop, hheld.mono (appended _)⟩
  | fork pid hstage =>
      obtain ⟨-, rfl, -⟩ := hf.deed _ rfl
      simp only [Plugged, hstage] at hp
      obtain ⟨t₀, htop, hheld⟩ := hp
      exact ⟨t₀, htop, hheld.mono (appended _)⟩
  | wait raw hstage =>
      obtain ⟨-, rfl⟩ := hf.deed _ rfl
      simp only [Plugged, hstage] at hp
      obtain ⟨t₀, htop, hheld⟩ := hp
      exact ⟨t₀, htop, hheld.mono (appended _)⟩
  | channel hstage hpipe =>
      obtain ⟨-, rfl, -, -, hopened⟩ := hf.deed _ rfl
      simp only [Plugged, hstage, hopened] at hp
      obtain ⟨t₀, htop, hheld⟩ := hp
      refine ⟨t₀, htop, ?_⟩
      rcases Call.pipe_spec v with ⟨e, he⟩ | ⟨r, w, v₁, hv₁, hr, hw, hlt, hfds, -, -⟩
      · rw [he] at hpipe
        cases hpipe
        exact hheld.mono (appended _)
      · rw [hv₁] at hpipe
        cases hpipe
        cases hheld with
        | closed ha =>
            have free : ∀ fd, v.process.fds.get? fd = none → t₀.get? fd = none := fun fd hfd => by
              have := ha.isSome fd
              rw [hfd] at this
              simpa using this.symm
            refine .opened (List.mem_append_right _ (List.mem_append_right _ (List.mem_singleton_self _)))
              rfl (free r hr) (free w hw) hlt ?_
            rw [hfds]
            exact (ha.set _ _).set _ _
  | release hstage =>
      obtain ⟨q, hopened, rfl⟩ := hf.deed _ rfl
      simp only [Plugged, hstage, hopened] at hp
      obtain ⟨t₀, htop, hheld⟩ := hp
      cases hheld with
      | opened hd hx hr hw hlt ha =>
          refine ⟨t₀, htop, .closed ?_⟩
          refine (Redirection.closeAll_alike _ v).trans
            ((Redirection.without_alike ha _).trans (.of_get? fun fd => ?_))
          simp only [Redirection.get?_without, FdTable.get?_set, List.mem_cons, List.not_mem_nil]
          grind
  | prepared _ _ hstage => rcases hstage with rfl | rfl <;> trivial
  | leave | prepare | quit | away => trivial

/-- Who is started comes with what the process that starts it has. -/
theorem Plugged.birth (hs : a.Sited root s) {t : FdTable}
    (hp : a.Plugged root shell.process.fds s t) (hc : a.child? = some b) :
    b.Plugged root shell.process.fds {} t := by
  obtain ⟨-, hstarts⟩ := hs.starts hc
  obtain ⟨hinherited, -⟩ := child_deeds hc
  have hp : ∃ t₀, Topology root shell.process.fds a.inherited a.site t₀ ∧
      Holding a.deeds t₀ s.opened t := by
    unfold child? at hc
    split at hc
    · next hstage => simpa only [Plugged, hstage] using hp
    · next hstage => simpa only [Plugged, hstage] using hp
    · cases hc
  obtain ⟨t₀, htop, hheld⟩ := hp
  have htop := htop.mono (List.subset_append_left a.inherited a.own)
  cases hstarts with
  | program hstage hdirect hopened =>
      rw [hopened] at hheld
      cases hheld with
      | closed ha =>
          simp only [Plugged, hstage, hinherited]
          exact (htop.alike ha).congr hdirect.innermostPipe
  | branch hstage hsite hop _ hdirect hw =>
      simp only [Plugged, hstage, hinherited]
      exact ⟨trivial, _, _, _, t₀, hsite, hop, hw, htop.congr hdirect.innermostPipe, hheld⟩

/-- What holds of the process of an account: the tables, and where channels
lead. -/
structure Connected (root : Tree) (shell : View) (a : Account) (s : Siting) (v : View) : Prop where
  sited : a.Sited root s
  plugged : a.Plugged root shell.process.fds s v.process.fds
  ends : Ends shell.world a v.world

/-- All channels that the process knows of were made after a certain time. -/
def Late (first : World) (a : Account) : Prop :=
  ∀ d ∈ a.deeds, ∀ p, d.Makes p → first.files.size ≤ d.view.world.files.size

theorem Ends.late {first w : World} (h : Ends first a w) : a.Late first :=
  fun d hd p hp => (h.made d hd p hp).1

theorem connected_invariant (shell : View) (root : Tree) (hstd : shell.process.fds.Standard) :
    Account.Invariant (Late shell.world) fun a v => ∃ s, a.Connected root shell s v where
  meanwhile h hv := by
    obtain ⟨s, hsited, hplugged, hends⟩ := h
    refine ⟨s, hsited, ?_, hends.extends hv.world⟩
    rw [hv.process]
    exact hplugged
  turn _ h hturn := by
    obtain ⟨s, hsited, hplugged, hends⟩ := h
    obtain ⟨s', hsited', hfollows⟩ := hturn.sited hsited
    have hends := hturn.ends hends
    exact ⟨hends.late, s', hsited', hturn.plugged hsited hfollows hstd hplugged, hends⟩
  birth {a v b v'} _ h hc hv := by
    obtain ⟨s, hsited, hplugged, hends⟩ := h
    obtain ⟨⟨_, _, hprocess⟩, hworld⟩ := hv
    have hends : Ends shell.world b v'.world := by
      obtain ⟨hinherited, hown⟩ := child_deeds hc
      rw [hworld]
      refine ⟨hends.world, fun d hd => hends.made d ?_⟩
      rwa [deeds, hinherited, hown, List.append_nil] at hd
    refine ⟨hends.late, {}, (hsited.starts hc).1, ?_, hends⟩
    rw [hprocess]
    exact hplugged.birth hsited hc

/-- The process was started and has done nothing yet: an evaluator whose
streams are wired, or a program whose redirections are not in place. -/
def isFresh (a : Account) : Bool :=
  a.own.isEmpty && match a.stage with
    | .walking _ | .program _ => true
    | _ => false

/-- A process that has done nothing yet has the table of its topology. -/
theorem Connected.topology (h : a.Connected root shell s v) (hfresh : a.isFresh = true) :
    Topology root shell.process.fds a.inherited a.site v.process.fds := by
  obtain ⟨hown, hfresh⟩ := Bool.and_eq_true_iff.mp hfresh
  have hplugged := h.plugged
  cases hstage : a.stage with
  | walking rest =>
      have hled := h.sited.stands.led
      rw [List.isEmpty_iff.mp hown] at hled
      cases hled
      simp only [Plugged, hstage] at hplugged
      obtain ⟨t₀, htop, hheld⟩ := hplugged
      cases hheld with
      | closed ha => exact htop.alike ha
  | program c => simpa only [Plugged, hstage] using hplugged
  | wiring | preparing | loaded | leaving | quitting | away => simp [hstage] at hfresh

end Account

-- ======================================================== the main result

namespace Watch

variable {ρ : Type} {programs : Installed ρ} {result : Except ExecError Int → ρ}

/-- Whatever the tree and however its processes take turns: a process that
was just started has the shell's descriptors, except that its standard
input is the read end of the channel of the innermost pipe that has it on
its right, and its standard output the write end of the channel of the
innermost pipe that has it on its left. There is one channel for a pipe in
the whole run, whose ends lead to it, and the process has no other end of
any channel. -/
theorem topology_of_run (hprograms : ∀ name args, (programs name args).Respects .onward)
    {t : Tree} {depth : Nat} {parent : Option Operator} {m : Machine ρ}
    (hb : m.Begins result t depth parent) {shell : Slot ρ} (hshell : shell ∈ m.slots)
    (hmain : shell.process.pid = Machine.mainPid) (hstd : shell.process.fds.Standard)
    (hfiles : ∀ fd i, shell.process.fds.file? fd = some i → i < m.world.files.size)
    {w : Watch ρ} (hrun : Run programs (begin t depth parent m) w) {s : Slot ρ}
    (hs : s ∈ w.machine.slots) (halive : s.alive) {a : Account}
    (ha : w.accounts s.process.pid = some a) (hfresh : a.isFresh = true) :
    Topology t shell.process.fds a.inherited a.site s.process.fds ∧
    ∀ p b, w.accounts p = some b → ∀ d ∈ b.deeds, ∀ q, d.Makes q →
      (∀ d' ∈ a.inherited, d'.Makes q → d' = d) ∧
      (d ∈ a.inherited → ∀ side : Side, w.machine.world.files[d.endFor side]?.map OpenFile.target
        = some (side.target d.view.world.pipes.size)) ∧
      ∀ fd side, s.process.fds.file? fd = some (d.endFor side) →
        fd = side.stream ∧ t.innermostPipe side a.site = some q := by
  have hbegin : ∀ s ∈ m.slots, s.process.pid = Machine.mainPid → ∀ a,
      (begin t depth parent m).accounts Machine.mainPid = some a →
      a.Late m.world ∧ ∃ st, a.Connected t ⟨shell.process, m.world⟩ st ⟨s.process, m.world⟩ := by
    intro s hs hpid a ha
    obtain rfl := hb.sound.eq_of_pid hs hshell (hpid.trans hmain.symm)
    have hsited := begin_sited ha
    obtain ⟨-, rfl⟩ := begin_shell ha
    refine ⟨(fun d hd => nomatch hd), {}, hsited, ?_, .refl _, (fun d hd => nomatch hd)⟩
    exact ⟨_, .ofShell t _ _, .closed (.refl _)⟩
  have holds := invariant hprograms
    (Account.connected_invariant ⟨shell.process, m.world⟩ t hstd) hb hbegin hrun
  obtain ⟨st, hconnected⟩ := holds.living s hs halive a ha
  have htop := hconnected.topology hfresh
  have inherited : ∀ {d}, d ∈ a.inherited → d ∈ a.deeds := fun hd => List.mem_append_left _ hd
  refine ⟨htop, fun p b hb' d hd q hmakes => ⟨fun d' hd' hmakes' => ?_, fun hd side => ?_,
    fun fd side hfd => ?_⟩⟩
  · obtain ⟨ch, hx⟩ := hmakes
    obtain ⟨ch', hx'⟩ := hmakes'
    exact channel_once hprograms hb hrun ha hb' (inherited hd') hd hx' hx
  · exact (hconnected.ends.made d (inherited hd) q hmakes).2 side
  · have late : m.world.files.size ≤ d.endFor side := by
      have : m.world.files.size ≤ d.view.world.files.size := holds.all p b hb' d hd q hmakes
      cases side <;> simp only [Deed.endFor] <;> omega
    -- what the shell had open is no end of a channel
    have fresh : s.process.fds.file? fd ≠ shell.process.fds.file? fd := fun he =>
      absurd (hfiles fd _ (he ▸ hfd)) (Nat.not_lt_of_le late)
    have streams : ∀ side' : Side, fd = side'.stream →
        fd = side.stream ∧ t.innermostPipe side a.site = some q := by
      rintro side' rfl
      have stream := htop.stream side'
      split at stream
      · exact absurd stream fresh
      · next p' hp' =>
        obtain ⟨d', hd', hmakes', hfile⟩ := stream
        rw [hfd] at hfile
        obtain ⟨rfl, rfl⟩ := ends_apart hprograms hb hrun hb' ha hd (inherited hd') hmakes hmakes'
          (Option.some.inj hfile)
        obtain ⟨ch, hx⟩ := hmakes
        obtain ⟨ch', hx'⟩ := hmakes'
        rw [hx] at hx'
        cases hx'
        exact ⟨rfl, hp'⟩
    obtain rfl | rfl | rfl | habove := fd.standard_or_above
    · exact streams .right rfl
    · exact streams .left rfl
    · exact absurd htop.stderr fresh
    · refine absurd ?_ fresh
      rw [FdTable.file?, FdTable.file?, htop.rest fd habove]

/-- The left side of a pipe, on the right side of another: it reads from the
one channel and writes to the other. -/
theorem topology_of_run_between_pipes :
    let t : Tree := .node .pipe (.leaf (.ofWords ["a"]))
      (.node .pipe (.leaf (.ofWords ["b"])) (.leaf (.ofWords ["c"])))
    ∃ w : Watch (Except ExecError Int),
      Run endAtOnce (begin t 0 none (.executing id t .atTerminal)) w ∧
      ∃ s ∈ w.machine.slots, ∃ a, w.accounts s.process.pid = some a ∧ a.site = [.right, .left] ∧
        (s.process.fds.rows.map fun row => (row.1, row.2.file)) = [(0, 1), (1, 4), (2, 0)] ∧
        Topology t View.atTerminal.process.fds a.inherited a.site s.process.fds := by
  intro t
  have found : (begin t 0 none (.executing id t .atTerminal)).finds endAtOnce
      [1, 1, 1, 1, 1, 3, 3, 3, 3, 4] (fun s a => (s.alive && a.isFresh) && (a.site == [.right, .left] &&
        (s.process.fds.rows.map fun row => (row.1, row.2.file)) == [(0, 1), (1, 4), (2, 0)]))
      = true := by
    decide +kernel
  obtain ⟨w, hrun, s, hs, a, ha, hcheck⟩ := run_of_finds found
  simp only [Bool.and_eq_true, beq_iff_eq] at hcheck
  obtain ⟨⟨halive, hfresh⟩, hsite, hrows⟩ := hcheck
  refine ⟨w, hrun, s, hs, a, ha, hsite, hrows, ?_⟩
  have files : ∀ fd i, View.atTerminal.process.fds.file? fd = some i → i < 1 := by
    intro fd i hi
    match fd with
    | 0 | 1 | 2 => cases hi; decide
    | n + 3 => cases hi
  exact (topology_of_run endAtOnce_respects (Machine.executing_begins id t .atTerminal)
    (List.mem_singleton_self _) rfl View.atTerminal_standard files hrun hs halive ha hfresh).1

end Watch

end LineShell
