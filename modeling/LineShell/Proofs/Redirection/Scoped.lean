/-
For good, or under a guard.

# Two ways

A process about to run a program attaches files for good, the shell does it
under a guard, around a builtin. Both replace the same streams in the same
order; what the guard adds to the table are the copies it keeps
(`Alongside`). So the two tables differ in the copies alone once the
descriptors of the opening are closed, and a builtin finds the streams that
a program would have found (`attachments_agree`).

# Which files

Each stream that the command redirects leads to the open file that its own
opening made (`Command.Makes`, `Command.Directs`), or where error shares the
file of output, to that one open file.
-/
import LineShell.Proofs.Redirection.Attachment
import LineShell.Proofs.Redirection.Budget

namespace LineShell

open Posix

/-- The copies that a guard keeps. -/
def Guard.copies (g : Guard) : List Fd := g.saved.map Prod.snd

theorem Guard.copies_saved (g : Guard) (stream copy : Fd) :
    Guard.copies { saved := g.saved ++ [(stream, copy)] } = g.copies ++ [copy] := by
  simp [copies]

/-- An open file, by its number, is the one that the opening of a path in a
mode made, among those of the command, and nothing has happened to it. -/
def Command.Makes (c : Command) (v v' : View) (path : String) (mode : Call.Mode) (n : Nat) : Prop :=
  ∃ before after fds u fd u', c.openings = before ++ (path, mode) :: after ∧
    Redirection.Opens before v fds u ∧ Call.Opening (Bytes.ofString path) mode u fd u' ∧
    n = u.world.files.size ∧ v'.world.files[n]? = u'.world.files[n]?

/-- The standard streams of a table are those that the command asks for: its
files were opened from one view to the other, and other streams are those of
the first view. -/
structure Command.Directs (c : Command) (v v' : View) (t : FdTable) : Prop where
  input : ∀ path, c.input = some path →
    ∃ n, c.Makes v v' path .forReading n ∧ t.get? Fd.stdin = some ⟨n, false⟩
  output : ∀ r, c.output = some r →
    ∃ n, c.Makes v v' r.path (.forOutput r.append) n ∧ t.get? Fd.stdout = some ⟨n, false⟩
  error : ∀ r, c.error = some r → c.sharesOutputAndError = false →
    ∃ n, c.Makes v v' r.path (.forOutput r.append) n ∧ t.get? Fd.stderr = some ⟨n, false⟩
  shared : c.sharesOutputAndError = true → t.get? Fd.stderr = t.get? Fd.stdout
  others : ∀ fd ≤ Fd.stderr, fd ∉ c.streams → t.get? fd = v.process.fds.get? fd

namespace Redirection

-- ======================================================== which open file

/-- Later openings leave an open file as it is. -/
theorem Opens.getElem?_of_lt {ts : List (String × Call.Mode)} {v v' : View} {fds : List Fd}
    (h : Opens ts v fds v') {n : Nat} (hn : n < v.world.files.size) :
    v'.world.files[n]? = v.world.files[n]? := by
  induction h with
  | nil v => rfl
  | cons hnul hopening _ ih =>
      obtain ⟨id, -, hfiles⟩ := hopening.node
      rw [ih (by rw [hfiles, Array.size_push]; omega), hfiles, Array.getElem?_push_lt hn,
        Array.getElem?_eq_getElem hn]

/-- Openings in a row, with one of them in view. -/
theorem Opens.split {ts : List (String × Call.Mode)} {v v' : View} {fds : List Fd}
    (h : Opens ts v fds v') {i : Nat} {path : String} {mode : Call.Mode}
    (hi : ts[i]? = some (path, mode)) :
    ∃ fds₁ u fd u' fds₂, Opens (ts.take i) v fds₁ u ∧
      Call.Opening (Bytes.ofString path) mode u fd u' ∧ Opens (ts.drop (i + 1)) u' fds₂ v' := by
  induction h generalizing i with
  | nil v => cases hi
  | @cons path' mode' rest v u v' fd fds hnul hopening hrest ih =>
      cases i with
      | zero =>
          cases hi
          exact ⟨[], v, fd, u, fds, .nil v, hopening, hrest⟩
      | succ i =>
          obtain ⟨fds₁, w, fd', w', fds₂, hbefore, hthis, hafter⟩ := ih hi
          exact ⟨fd :: fds₁, w, fd', w', fds₂, .cons hnul hopening hbefore, hthis, hafter⟩

theorem Opens.makes {c : Command} {v v' : View} {fds : List Fd} (h : Opens c.openings v fds v')
    {i : Nat} {path : String} {mode : Call.Mode} (hi : c.openings[i]? = some (path, mode)) :
    c.Makes v v' path mode (v.world.files.size + i) := by
  obtain ⟨fds₁, u, fd, u', fds₂, hbefore, hthis, hafter⟩ := h.split hi
  obtain ⟨hlt, hget⟩ := List.getElem?_eq_some_iff.mp hi
  have hsize : u.world.files.size = v.world.files.size + i := by
    rw [hbefore.size, List.length_take, Nat.min_eq_left (Nat.le_of_lt hlt)]
  obtain ⟨id, -, hfiles⟩ := hthis.node
  refine ⟨c.openings.take i, c.openings.drop (i + 1), fds₁, u, fd, u', ?_, hbefore, hthis,
    hsize.symm, ?_⟩
  · rw [← hget, List.getElem_cons_drop, List.take_append_drop]
  · exact hafter.getElem?_of_lt (by rw [hfiles, Array.size_push, hsize]; omega)

end Redirection

theorem Command.streams_le {c : Command} {fd : Fd} (h : fd ∈ c.streams) : fd ≤ Fd.stderr := by
  simp only [streams, List.mem_append, List.mem_map] at h
  rcases h with (⟨_, _, rfl⟩ | ⟨_, _, rfl⟩) | ⟨_, _, rfl⟩ <;> decide

theorem Command.opening?_of_shares {c : Command} (h : c.sharesOutputAndError = true) :
    ∃ i, c.opening? Fd.stdout = some i := by
  unfold sharesOutputAndError at h
  split at h
  · next out err hout _ =>
    obtain ⟨i, hi, -⟩ := opening?_stdout hout
    exact ⟨i, hi⟩
  · cases h

/-- A stream that the command does not redirect has no opening. -/
theorem Command.opening?_eq_none {c : Command} {fd : Fd} (h : fd ∉ c.streams) :
    c.opening? fd = none := by
  obtain ⟨verb, argv, ci, co, ce⟩ := c
  rcases Fd.standard_or_above fd with rfl | rfl | rfl | above
  all_goals
    cases ci <;> cases co <;> cases ce <;>
      simp_all [opening?, streams, Fd.stdin, Fd.stdout, Fd.stderr]

/-- Only the standard streams of a table count. -/
theorem Command.Directs.congr {c : Command} {v v' : View} {t t' : FdTable} (h : c.Directs v v' t)
    (hsame : ∀ fd ≤ Fd.stderr, t'.get? fd = t.get? fd) : c.Directs v v' t' where
  input path hin := by
    rw [hsame _ (by decide)]
    exact h.input path hin
  output r hout := by
    rw [hsame _ (by decide)]
    exact h.output r hout
  error r herr hshared := by
    rw [hsame _ (by decide)]
    exact h.error r herr hshared
  shared hshared := by
    rw [hsame _ (by decide), hsame _ (by decide)]
    exact h.shared hshared
  others fd hfd hnot := by
    rw [hsame fd hfd]
    exact h.others fd hfd hnot

/-- What is attached is what the command asks for. -/
theorem Command.Attached.directs {c : Command} {v v' x x' : View} (h : c.Attached v v' x x') :
    c.Directs v v' x'.process.fds := by
  obtain ⟨fds, hopens⟩ := h.opened
  have leads {fd : Fd} {i : Nat} (hi : c.opening? fd = some i) :
      x'.process.fds.get? fd = some ⟨v.world.files.size + i, false⟩ := by rw [h.streams, hi]
  constructor
  case input =>
    intro path hin
    obtain ⟨i, hi, hget⟩ := opening?_stdin hin
    exact ⟨_, hopens.makes hget, leads hi⟩
  case output =>
    intro r hout
    obtain ⟨i, hi, hget⟩ := opening?_stdout hout
    exact ⟨_, hopens.makes hget, leads hi⟩
  case error =>
    intro r herr hshared
    obtain ⟨i, hi, hget⟩ := opening?_stderr herr hshared
    exact ⟨_, hopens.makes hget, leads hi⟩
  case shared =>
    intro hshared
    obtain ⟨i, hi⟩ := opening?_of_shares hshared
    rw [leads hi, leads ((opening?_shared hshared).trans hi)]
  case others =>
    intro fd _ hfd
    rw [h.streams, opening?_eq_none hfd]

namespace Redirection

-- ============================================================== alongside

/-- Files are put in place in two tables, in the second under a guard: the
tables differ in the copies alone, and these are of numbers that are free in
the first, and none of those of the opening. -/
structure Alongside (fds : List Fd) (g : Guard) (t t' : FdTable) : Prop where
  same : ∀ fd, fd ∉ g.copies → t'.get? fd = t.get? fd
  copies : ∀ copy ∈ g.copies, t.get? copy = none ∧ copy ∉ fds

namespace Alongside

variable {fds : List Fd} {g : Guard} {t t' : FdTable}

theorem refl (fds : List Fd) (t : FdTable) : Alongside fds {} t t := ⟨fun _ _ => rfl, nofun⟩

/-- One more stream is replaced, by the same file in both tables. -/
theorem step (h : Alongside fds g t t') {fd stream copy : Fd} {x y : Handle}
    (hfd : fd ∈ fds) (hy : t'.get? fd = some y) (hx : t'.get? stream = some x)
    (hfree : t'.get? copy = none) (hopen : ∀ fd ∈ fds, (t'.get? fd).isSome)
    (hstd : (t.get? stream).isSome) :
    t.get? fd = some y ∧
      Alongside fds { saved := g.saved ++ [(stream, copy)] } (t.set stream { y with closeOnExec := false })
        ((t'.set copy { x with closeOnExec := false }).set stream { y with closeOnExec := false }) := by
  have hcopy : copy ∉ fds := fun hmem => by
    have := hopen copy hmem
    rw [hfree] at this
    cases this
  have hne : copy ≠ stream := fun he => by rw [he, hx] at hfree; cases hfree
  have free : t.get? copy = none := by
    by_cases hmem : copy ∈ g.copies
    · exact (h.copies copy hmem).1
    · rw [← h.same copy hmem, hfree]
  refine ⟨?_, ⟨fun other ho => ?_, fun other ho => ?_⟩⟩
  · rw [← h.same fd fun hmem => (h.copies fd hmem).2 hfd, hy]
  · rw [Guard.copies_saved, List.mem_append, List.mem_singleton, not_or] at ho
    rw [FdTable.get?_set, FdTable.get?_set, FdTable.get?_set, if_neg ho.2, h.same other ho.1]
  · rw [Guard.copies_saved, List.mem_append, List.mem_singleton] at ho
    rcases ho with ho | rfl
    · obtain ⟨hnone, hnot⟩ := h.copies other ho
      have hother : other ≠ stream := fun he => by rw [he] at hnone; simp [hnone] at hstd
      exact ⟨by rw [FdTable.get?_set, if_neg hother, hnone], hnot⟩
    · exact ⟨by rw [FdTable.get?_set, if_neg hne, free], hcopy⟩

/-- The descriptors of the opening are closed in both tables. -/
theorem without (h : Alongside fds g t t') {u u' : FdTable}
    (hu : u.Same (Redirection.without t fds)) (hu' : u'.Same (Redirection.without t' fds)) :
    Alongside fds g u u' := by
  refine ⟨fun fd hfd => ?_, fun copy hcopy => ?_⟩
  · rw [hu', hu, get?_without, get?_without, h.same fd hfd]
  · obtain ⟨hnone, hnot⟩ := h.copies copy hcopy
    exact ⟨by rw [hu, get?_without, if_neg hnot, hnone], hnot⟩

end Alongside

/-- Replacing streams, for good and under a guard. -/
theorem saveAndReplace_alongside {fds : List Fd} {ts : List (Fd × Fd)} {g g' : Guard}
    {x x' y y' : View} (hts : ∀ t ∈ ts, t.1 ∈ fds ∧ t.2 ≤ Fd.stderr)
    (hfds : ∀ fd ∈ fds, Fd.stderr < fd ∧ (y.process.fds.get? fd).isSome)
    (hstd : x.process.fds.Standard) (h : Alongside fds g x.process.fds y.process.fds)
    (hx : (replaceAll ts).attempt x = (.ok ⟨⟩, x'))
    (hy : saveAndReplace ts g y = ((g', none), y')) :
    Alongside fds g' x'.process.fds y'.process.fds := by
  induction ts generalizing g x y with
  | nil =>
      cases hx
      cases hy
      exact h
  | cons t rest ih =>
      obtain ⟨fd, stream⟩ := t
      obtain ⟨hmem, hstream⟩ := hts _ List.mem_cons_self
      obtain ⟨hbeyond, hopen⟩ := hfds fd hmem
      have hne : fd ≠ stream := Nat.ne_of_gt (Nat.lt_of_le_of_lt hstream hbeyond)
      rcases Call.dup_spec stream y with ⟨e, hdup⟩ | ⟨old, copy, hold, hfree, hdup⟩
      · rw [saveAndReplace_of_full hdup] at hy
        cases hy
      obtain ⟨new, hnew⟩ := Option.isSome_iff_exists.mp hopen
      obtain ⟨hsource, hnext⟩ := h.step hmem hnew hold hfree (fun fd hfd => (hfds fd hfd).2)
        (hstd stream hstream)
      have hcopy : fd ≠ copy := fun he => by rw [he, hfree] at hnew; cases hnew
      let y₁ := y.modifyFds (·.set copy { old with closeOnExec := false })
      have hdup2 : (Call.dup2 fd stream).attempt y₁
          = (.ok ⟨⟩, y₁.modifyFds (·.set stream { new with closeOnExec := false })) := by
        refine Call.dup2_of_open ?_ hne
        change (y.process.fds.set copy _).get? fd = some new
        rw [FdTable.get?_set, if_neg hcopy, hnew]
      rw [saveAndReplace_of_saved hdup hdup2] at hy
      rw [replaceAll, Call.attempt_bind_ok (Call.dup2_of_open hsource hne)] at hx
      refine ih (fun t ht => hts t (List.mem_cons_of_mem _ ht))
        (fun other ho => ⟨(hfds other ho).1, ?_⟩) (hstd.set _ _) hnext hx hy
      have := (hfds other ho).2
      change (((y.process.fds.set copy _).set stream _).get? other).isSome
      grind [FdTable.get?_set]

/-- Attaching for good, and under a guard. -/
theorem attachScoped_alongside {o : Opened} {t : FdTable} {v p s : View} {g : Guard}
    (hstd : t.Standard) (hadds : Adds t (held o) v.process.fds) (hp : attach o v = (.ok ⟨⟩, p))
    (hs : attachScoped o v = (.ok g, s)) :
    Alongside (held o) g p.process.fds s.process.fds := by
  unfold attach at hp
  unfold attachScoped at hs
  cases hreplace : (replaceAll (targets o)).attempt v with
  | mk r x =>
  rw [hreplace] at hp
  cases hp
  split at hs
  · next g' y hsave =>
    cases hs
    exact (saveAndReplace_alongside (fun _ => mem_targets) (hadds.beyond hstd) (hadds.standard hstd)
      (.refl _ _) hreplace hsave).without (closeAll_without _ x) (closeAll_without _ y)
  · cases hs

-- ============================================================== two ways

/-- What was opened has numbers enough for its copies. -/
theorem spare_of_openAll {c : Command} {o : Opened} {v v' : View} (h : openAll c v = (.ok o, v'))
    (hspare : c.openings.length + c.streams.length ≤ v.spare) : (targets o).length ≤ v'.spare := by
  rcases openAll_each c v with ⟨e, fds, u, -, hall⟩ | ⟨o', u, heach, hall, hfits⟩
  · rw [h] at hall
    cases hall
  · rw [h] at hall
    cases hall
    obtain ⟨v'', heach', hleft⟩ :=
      (openEach_limited (n := v.process.fdLimit) (v := v) heach).2 (Nat.le_of_add_right_le hspare)
    obtain rfl : v' = v'' := congrArg Prod.snd (heach.symm.trans heach')
    have hcount : (targets o).length = c.streams.length := by
      rw [← targets_streams hfits, List.length_map]
    omega

/-- Files that were opened are put in place for good, or under a guard. The
standard streams are the same either way, and those that the command asks
for. For good, no other descriptor is left; under the guard there are its
copies, until it is restored, and then the table is the one from before the
opening. Where a standard stream was to be closed in later programs, it may
have become one that stays, but leads to the same file. -/
theorem attachments_agree {c : Command} {v v' : View} {o : Opened}
    (hopen : openAll c v = (.ok o, v')) (hstd : v.process.fds.Standard)
    (hspare : c.openings.length + c.streams.length ≤ v.spare) :
    ∃ p g s, attach o v' = (.ok ⟨⟩, p) ∧ attachScoped o v' = (.ok g, s) ∧
      c.Directs v v' p.process.fds ∧ c.Directs v v' s.process.fds ∧
      (∀ fd ≤ Fd.stderr, s.process.fds.get? fd = p.process.fds.get? fd) ∧
      (∀ fd, Fd.stderr < fd → p.process.fds.get? fd = v.process.fds.get? fd) ∧
      (∀ fd, Fd.stderr < fd → fd ∉ g.copies →
        s.process.fds.get? fd = v.process.fds.get? fd) ∧
      (∀ copy ∈ g.copies, v.process.fds.get? copy = none ∧ copy ∉ held o) ∧
      p.world = v'.world ∧ s.world = v'.world ∧
      ∀ w, w.process.fds = s.process.fds →
        (restore g w).process.fds.Alike v.process.fds ∧
        (v.process.fds.Lasting → (restore g w).process.fds.Same v.process.fds) ∧
        (restore g w).world = w.world := by
  obtain ⟨hopens, hfits⟩ := opens_of_openAll hopen
  have hadds := hopens.adds
  obtain ⟨p, hattach, hattached⟩ := attached_of_openAll hopen hstd rfl
  obtain ⟨g, s, hscoped⟩ := (attachScoped_budget hstd hadds).2 (spare_of_openAll hopen hspare)
  have halong := attachScoped_alongside hstd hadds hattach hscoped
  have beyond (fd : Fd) (hfd : Fd.stderr < fd) :
      p.process.fds.get? fd = v.process.fds.get? fd := by
    rw [hattached.streams, Command.opening?_eq_none fun hmem =>
      Nat.not_le_of_lt hfd (Command.streams_le hmem)]
  have standard : p.process.fds.Standard := fun fd hfd => by
    rw [hattached.streams]
    split
    · rfl
    · exact hstd fd hfd
  have copies (copy : Fd) (hcopy : copy ∈ g.copies) : Fd.stderr < copy :=
    standard.lt_of_free (halong.copies copy hcopy).1
  have streams (fd : Fd) (hfd : fd ≤ Fd.stderr) :
      s.process.fds.get? fd = p.process.fds.get? fd :=
    halong.same fd fun hmem => Nat.not_lt_of_le hfd (copies fd hmem)
  refine ⟨p, g, s, hattach, hscoped, hattached.directs, hattached.directs.congr streams, streams,
    beyond, fun fd hfd hnot => (halong.same fd hnot).trans (beyond fd hfd), fun copy hcopy => ?_,
    hattached.world, ?_, fun w hw => ?_⟩
  · obtain ⟨hfree, hnot⟩ := halong.copies copy hcopy
    exact ⟨by rw [← beyond copy (copies copy hcopy), hfree], hnot⟩
  · have inward := attachScoped_keeps Call.handling_inward o v'
    rwa [hscoped] at inward
  · have halike : (restore g w).process.fds.Alike v.process.fds := by
      rcases attachScoped_givesBack hstd hadds with ⟨e, u, herr, -⟩ | ⟨g', u, hok, hback⟩
      · rw [hscoped] at herr
        cases herr
      · rw [hscoped] at hok
        cases hok
        exact restore_alike (hw ▸ hback)
    refine ⟨halike, fun hl => halike.same ?_ hl, restore_keeps Call.handling_inward g w⟩
    have lasting := attachScoped_keeps Call.handling_lasting o v' fun fd hfd x hx =>
      hl fd hfd x ((hadds.stream hstd hfd).symm.trans hx)
    rw [hscoped] at lasting
    exact restore_keeps Call.handling_lasting g w (hw ▸ lasting)

/-- The root directory as input, and one file for output and error: each way
error is the row of output, and the guard gives all three streams back. -/
theorem attachments_agree_shared :
    let c : Command :=
      { verb := "cat", argv := ["cat"], input := some "/", output := some ⟨"f", true⟩,
        error := some ⟨"f", false⟩ }
    let v := View.atTerminal
    ∃ o v' p g s, openAll c v = (.ok o, v') ∧ attach o v' = (.ok ⟨⟩, p) ∧
      attachScoped o v' = (.ok g, s) ∧
      p.process.fds.get? Fd.stderr = p.process.fds.get? Fd.stdout ∧
      (∃ n, c.Makes v v' "f" (.forOutput true) n ∧ s.process.fds.get? Fd.stderr = some ⟨n, false⟩) ∧
      (restore g s).process.fds.Same v.process.fds := by
  intro c v
  have hok : (openAll c v).1.isOk := by decide +kernel
  rcases hopen : openAll c v with ⟨e | o, v'⟩
  · rw [hopen] at hok
    cases hok
  obtain ⟨p, g, s, hattach, hscoped, hp, hs, -, -, -, -, -, -, hback⟩ :=
    attachments_agree hopen View.atTerminal_standard (by decide +kernel)
  obtain ⟨n, hmakes, hn⟩ := hs.output ⟨"f", true⟩ rfl
  exact ⟨o, v', p, g, s, rfl, hattach, hscoped, hp.shared (by decide),
    ⟨n, hmakes, (hs.shared (by decide)).trans hn⟩, (hback s rfl).2.1 View.atTerminal_lasting⟩

end Redirection

end LineShell
