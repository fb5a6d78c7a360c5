/-
No branch fails to wire its streams.

A process that has a channel open on its walk has both of its descriptors
open, and they are two. So has a branch that it starts, for a branch is a
copy. What the wiring of a branch does to its table is to put one of the
two in place of a standard stream, and to close those that lie beyond the
standard streams; where both are open nothing of that fails, wherever they
lie (`Wiring.apply_ok`). Unlike the tables themselves, this does not ask
that the standard streams were open in the first place.
-/
import LineShell.Proofs.Launch.Topology

namespace LineShell

open Posix

-- ================================================================== wiring

/-- Both ends of the channel are open, by two descriptors. -/
structure Channel.IsOpen (ch : Channel) (t : FdTable) : Prop where
  read : (t.get? ch.read).isSome
  write : (t.get? ch.write).isSome
  ne : ch.read ≠ ch.write

/-- A descriptor is put in place of another one, and all else stays. -/
theorem Posix.Call.dup2_spec {v : View} {fd : Fd} (onto : Fd) (h : (v.process.fds.get? fd).isSome) :
    ∃ v', (dup2 fd onto).attempt v = (.ok (), v') ∧
      ∀ other, other ≠ onto → v'.process.fds.get? other = v.process.fds.get? other := by
  obtain ⟨x, hx⟩ := Option.isSome_iff_exists.mp h
  by_cases hfd : fd = onto
  · refine ⟨v, ?_, fun _ _ => rfl⟩
    unfold dup2
    rw [attempt_bind]
    simp only [handle, hx, if_pos hfd]
    rfl
  · refine ⟨_, dup2_of_open hx hfd, fun other hother => ?_⟩
    show (v.process.fds.set onto _).get? other = _
    rw [FdTable.get?_set, if_neg hother]

/-- Closes a descriptor, if it lies beyond the standard streams. -/
def Posix.Call.closeBeyond (fd : Fd) : Call Unit := if fd > Fd.stderr then close fd else pure ()

theorem Posix.Call.closeBeyond_spec (v : View) (fd : Fd)
    (h : Fd.stderr < fd → (v.process.fds.get? fd).isSome) :
    ∃ v', (closeBeyond fd).attempt v = (.ok (), v') ∧
      ∀ other, other ≠ fd → v'.process.fds.get? other = v.process.fds.get? other := by
  unfold closeBeyond
  by_cases hlow : Fd.stderr < fd
  · obtain ⟨x, hx⟩ := Option.isSome_iff_exists.mp (h hlow)
    refine ⟨_, by rw [if_pos hlow, close_of_open hx], fun other hother => ?_⟩
    show (v.process.fds.erase fd).get? other = _
    rw [FdTable.get?_erase, if_neg hother]
  · exact ⟨v, by rw [if_neg hlow, attempt_pure], fun _ _ => rfl⟩

/-- What the wiring of a branch of a pipe does, wherever the channel lies. -/
theorem Wiring.apply_eq (side : Side) (ch : Channel) : (side.wiring ch).apply = (do
    Call.dup2 (side.fd ch) side.stream
    Call.closeBeyond ch.read
    Call.closeBeyond ch.write) := by
  by_cases hr : ch.read > Fd.stderr <;> by_cases hw : ch.write > Fd.stderr <;>
    cases side <;>
    simp [Side.wiring, Side.fd, Side.stream, writer, reader, apply, Call.closeBeyond, hr, hw]

/-- Where both ends are open, the wiring does not fail. -/
theorem Wiring.apply_ok (side : Side) {ch : Channel} {v : View} (h : ch.IsOpen v.process.fds) :
    ((side.wiring ch).apply.attempt v).1 = .ok () := by
  have hopen : (v.process.fds.get? (side.fd ch)).isSome := by
    cases side with
    | left => exact h.write
    | right => exact h.read
  have hstream : ∀ fd, Fd.stderr < fd → fd ≠ side.stream := by
    rintro fd hfd rfl
    cases side <;> exact absurd hfd (by decide)
  obtain ⟨v₁, hdup, hrest⟩ := Call.dup2_spec side.stream hopen
  obtain ⟨v₂, hread, hrest'⟩ := Call.closeBeyond_spec v₁ ch.read fun hlow => by
    rw [hrest _ (hstream _ hlow)]
    exact h.read
  obtain ⟨v₃, hwrite, -⟩ := Call.closeBeyond_spec v₂ ch.write fun hlow => by
    rw [hrest' _ h.ne.symm, hrest _ (hstream _ hlow)]
    exact h.write
  rw [Wiring.apply_eq, Call.attempt_bind_ok hdup, Call.attempt_bind_ok hread, hwrite]

-- =============================================================== processes

namespace Account

variable {root : Tree} {a a' b : Account} {s s' : Siting} {v v' : View}

/-- The channel that a process has open on its walk, or that a branch is to
be wired to, is there. -/
def Equipped (a : Account) (s : Siting) (t : FdTable) : Prop :=
  match a.stage with
  | .wiring _ w => s.opened = none ∧
      (w = .inherit ∨ ∃ (side : Side) (ch : Channel), w = side.wiring ch ∧ ch.IsOpen t)
  | .walking _ => ∀ q ch, s.opened = some (q, ch) → ch.IsOpen t
  | _ => True

/-- An equipped branch does not fail to wire its streams. -/
theorem Equipped.wired (h : a.Equipped s v.process.fds) {p : Operator} {w : Wiring}
    (hstage : a.stage = .wiring p w) : (w.apply.attempt v).1 = .ok () := by
  simp only [Equipped, hstage] at h
  obtain ⟨-, rfl | ⟨side, ch, rfl, hopen⟩⟩ := h
  · rw [Wiring.apply_inherit]
  · exact Wiring.apply_ok side hopen

theorem Turn.equipped (h : a.Turn v a' v') (hf : Follows (siting root a.site) a s a' s')
    (he : a.Equipped s v.process.fds) : a'.Equipped s' v'.process.fds := by
  -- nothing is open where builtins run, programs start, and children are waited for
  have closed : ∀ {t : FdTable}, s.opened = none → ∀ q ch, s.opened = some (q, ch) → ch.IsOpen t :=
    fun hnone q ch hsome => by
      rw [hnone] at hsome
      cases hsome
  cases h with
  | wired hstage =>
      obtain rfl := hf.idle rfl
      simp only [Equipped, hstage] at he
      cases hx : a.tree.external? with
      | some c => simp only [Equipped, onceWired, hx]
      | none =>
          simp only [Equipped, onceWired, hx]
          exact closed he.1
  | log hstage =>
      obtain rfl := hf.idle rfl
      simp only [Equipped, hstage] at he
      exact he
  | builtin hstage _ =>
      obtain ⟨-, rfl, -, -, hopened⟩ := hf.deed _ rfl
      exact closed hopened
  | launch pid hstage =>
      obtain ⟨-, rfl, -, -, hopened⟩ := hf.deed _ rfl
      exact closed hopened
  | fork pid hstage =>
      obtain ⟨-, rfl, -⟩ := hf.deed _ rfl
      simp only [Equipped, hstage] at he
      exact he
  | channel hstage hpipe =>
      obtain ⟨-, rfl, -⟩ := hf.deed _ rfl
      intro q ch hch
      rcases Call.pipe_spec v with ⟨e, he⟩ | ⟨r, w, v₁, hv₁, -, -, hlt, hfds, -, -⟩
      · rw [he] at hpipe
        cases hpipe
        cases hch
      · rw [hv₁] at hpipe
        cases hpipe
        cases hch
        have hne : r ≠ w := Nat.ne_of_lt hlt
        refine ⟨?_, ?_, hne⟩
        · rw [hfds, FdTable.get?_set, if_neg hne, FdTable.get?_set, if_pos rfl]
          rfl
        · rw [hfds, FdTable.get?_set, if_pos rfl]
          rfl
  | release hstage =>
      obtain ⟨q, -, rfl⟩ := hf.deed _ rfl
      exact fun q ch hch => by cases hch
  | wait raw hstage =>
      obtain ⟨hopened, rfl⟩ := hf.deed _ rfl
      exact closed hopened
  | prepared _ _ hstage => rcases hstage with rfl | rfl <;> trivial
  | leave | prepare | quit | away => trivial

/-- Who is started comes with what the process that starts it has. -/
theorem Equipped.birth (hs : a.Sited root s) {t : FdTable} (h : a.Equipped s t)
    (hc : a.child? = some b) : b.Equipped {} t := by
  obtain ⟨-, hstarts⟩ := hs.starts hc
  have opened : ∀ q ch, s.opened = some (q, ch) → ch.IsOpen t := by
    unfold child? at hc
    split at hc
    · next hstage => simpa only [Equipped, hstage] using h
    · next hstage => simpa only [Equipped, hstage] using h
    · cases hc
  cases hstarts with
  | program hstage _ _ => simp only [Equipped, hstage]
  | @branch r side p w hstage _ _ _ _ hw =>
      simp only [Equipped, hstage]
      refine ⟨trivial, ?_⟩
      cases ho : s.opened with
      | none =>
          rw [ho] at hw
          exact .inl hw.2
      | some x =>
          rw [ho] at hw
          obtain ⟨-, -, hwiring⟩ := hw
          exact .inr ⟨side, x.2, hwiring, opened x.1 x.2 ho⟩

/-- Where a process stands, and what it has open. -/
theorem equipped_invariant (root : Tree) : Account.Invariant (fun a => ∃ s, a.Sited root s)
    fun a v => ∃ s, a.Sited root s ∧ a.Equipped s v.process.fds where
  meanwhile h hv := by
    rw [hv.process]
    exact h
  turn _ h hturn := by
    obtain ⟨s, hsited, hequipped⟩ := h
    obtain ⟨s', hsited', hfollows⟩ := hturn.sited hsited
    exact ⟨⟨s', hsited'⟩, s', hsited', hturn.equipped hfollows hequipped⟩
  birth _ h hc hv := by
    obtain ⟨s, hsited, hequipped⟩ := h
    obtain ⟨⟨_, _, hprocess⟩, -⟩ := hv
    refine ⟨⟨{}, (hsited.starts hc).1⟩, {}, (hsited.starts hc).1, ?_⟩
    rw [hprocess]
    exact hequipped.birth hsited hc

end Account

end LineShell
