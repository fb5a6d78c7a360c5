/-
How many descriptors redirections need.

Opening takes one spare number for each file. Putting the files in place
for a while takes one more for each stream, for its copy; for good it takes
none. So a process that runs out does so at a place that the number of
spare numbers tells: at a file, where the files after it are not touched,
or at a copy, where the streams are given back (`run_within_budget`).

What can be opened is understood of a process that has numbers enough
(`Openable`).
-/
import LineShell.Proofs.Builtin
import LineShell.Proofs.Posix.Spare
import LineShell.Proofs.Redirection.Openings

namespace LineShell

open Posix

namespace Redirection

/-- Under some limit, all files of the command can be opened. -/
def Openable (c : Command) (v : View) : Prop :=
  ∃ n o v', openAll c (v.limited n) = (.ok o, v')

theorem openable_of_isOk {c : Command} {n : Nat} {v : View}
    (h : (openAll c (v.limited n)).1.isOk) : Openable c v := by
  rcases hopen : openAll c (v.limited n) with ⟨e | o, v'⟩
  · rw [hopen] at h
    cases h
  · exact ⟨n, o, v', hopen⟩

-- ============================================================== openings

theorem openPath_limited {path : String} {mode : Call.Mode} {n : Nat} {fd : Fd} {v v' : View}
    (h : openPath path mode (v.limited n) = (.ok fd, v')) :
    (v.spare = 0 → openPath path mode v = (.error ⟨path, .system .EMFILE⟩, v)) ∧
      (v.spare ≠ 0 → ∃ v₁, openPath path mode v = (.ok fd, v₁) ∧ v₁.limited n = v' ∧
        v₁.spare + 1 = v.spare) := by
  unfold openPath at h ⊢
  split at h
  · cases h
  next hnul =>
  rw [if_neg hnul]
  have hopen : (Call.openFile (Bytes.ofString path) mode).attempt (v.limited n) = (.ok fd, v') := by
    unfold Call.attempt
    split at h <;> cases h
    next heq => rw [heq]
  obtain ⟨hfull, hspare⟩ := Call.openFile_limited hopen
  refine ⟨fun h => ?_, fun h => ?_⟩
  · have := hfull h
    unfold Call.attempt at this
    split at this <;> cases this
    next heq => rw [heq]
  · obtain ⟨v₁, hv₁, hlimited, -, hleft⟩ := hspare h
    refine ⟨v₁, ?_, hlimited, hleft⟩
    unfold Call.attempt at hv₁
    split at hv₁ <;> cases hv₁
    next heq => rw [heq]

/-- Files that can be opened are opened, one for each spare number. The first
for which there is none is the one that is named, and nothing happens to those
after it. -/
theorem openEach_limited {ts : List (String × Call.Mode)} {n : Nat} {fds : List Fd} {v w : View}
    (h : openEach ts (v.limited n) = ((fds, none), w)) :
    (∀ t, ts[v.spare]? = some t → ∃ fds' v', openEach (ts.take v.spare) v = ((fds', none), v') ∧
        openEach ts v = ((fds', some ⟨t.1, .system .EMFILE⟩), v')) ∧
      (ts.length ≤ v.spare →
        ∃ v', openEach ts v = ((fds, none), v') ∧ v'.spare + ts.length = v.spare) := by
  induction ts generalizing v fds with
  | nil =>
      cases h
      exact ⟨nofun, fun _ => ⟨v, rfl, rfl⟩⟩
  | cons t rest ih =>
      obtain ⟨path, mode⟩ := t
      cases hp : openPath path mode (v.limited n) with
      | mk r v₁ =>
          cases r with
          | error e =>
              rw [openEach_of_error hp] at h
              cases h
          | ok fd =>
              obtain ⟨hfull, hspare⟩ := openPath_limited hp
              by_cases hv : v.spare = 0
              · refine ⟨fun t ht => ?_, fun hle => absurd hle (by simp [hv])⟩
                rw [hv] at ht ⊢
                cases ht
                exact ⟨[], v, rfl, openEach_of_error (hfull hv) rest⟩
              obtain ⟨v₂, hopen, hlimited, hleft⟩ := hspare hv
              rw [openEach_of_ok hp, ← hlimited] at h
              cases hrest : openEach rest (v₂.limited n) with
              | mk r w' =>
                  obtain ⟨fds', e⟩ := r
                  rw [hrest] at h
                  cases h
                  obtain ⟨hscarce, henough⟩ := ih hrest
                  refine ⟨fun t ht => ?_, fun hle => ?_⟩
                  · rw [← hleft, List.getElem?_cons_succ] at ht
                    obtain ⟨fds'', v', hfirst, hall⟩ := hscarce t ht
                    refine ⟨fd :: fds'', v', ?_, ?_⟩
                    · rw [← hleft, List.take_succ_cons, openEach_of_ok hopen, hfirst]
                    · rw [openEach_of_ok hopen, hall]
                  · rw [List.length_cons, ← hleft] at hle
                    obtain ⟨v', hall, hcount⟩ := henough (Nat.le_of_succ_le_succ hle)
                    refine ⟨v', by rw [openEach_of_ok hopen, hall], ?_⟩
                    rw [List.length_cons, ← hleft, ← hcount]
                    omega

-- ================================================================ copies

/-- Each stream that is replaced takes one spare number, and the first for
which there is none is where it ends. -/
theorem saveAndReplace_budget {fds : List Fd} {ts : List (Fd × Fd)} {g : Guard} {v : View}
    (hts : ∀ x ∈ ts, x.1 ∈ fds ∧ x.2 ≤ Fd.stderr)
    (hfds : ∀ fd ∈ fds, Fd.stderr < fd ∧ (v.process.fds.get? fd).isSome)
    (hstd : v.process.fds.Standard) :
    (v.spare < ts.length → ∃ g' v', saveAndReplace ts g v = ((g', some .EMFILE), v')) ∧
      (ts.length ≤ v.spare → ∃ g' v', saveAndReplace ts g v = ((g', none), v')) := by
  induction ts generalizing g v with
  | nil => exact ⟨nofun, fun _ => ⟨g, v, rfl⟩⟩
  | cons t rest ih =>
      obtain ⟨fd, stream⟩ := t
      obtain ⟨hmem, hstream⟩ := hts _ List.mem_cons_self
      obtain ⟨x, hx⟩ := Option.isSome_iff_exists.mp (hstd stream hstream)
      by_cases hv : v.spare = 0
      · refine ⟨fun _ => ⟨g, v, saveAndReplace_of_full (Call.dup_of_full hx hv)⟩, fun hle => ?_⟩
        exact absurd hle (by simp [hv])
      obtain ⟨copy, hfree, hlt, hdup⟩ := Call.dup_of_spare hx hv
      obtain ⟨hbeyond, hopen⟩ := hfds fd hmem
      obtain ⟨y, hy⟩ := Option.isSome_iff_exists.mp hopen
      have hcopy : fd ≠ copy := fun he => by rw [he, hfree] at hy; cases hy
      let v₁ := v.modifyFds (·.set copy { x with closeOnExec := false })
      let v₂ := v₁.modifyFds (·.set stream { y with closeOnExec := false })
      have table : v₂.process.fds = (v.process.fds.set copy { x with closeOnExec := false }).set
        stream { y with closeOnExec := false } := rfl
      have hdup2 : (Call.dup2 fd stream).attempt v₁ = (.ok ⟨⟩, v₂) := by
        refine Call.dup2_of_open ?_ (Nat.ne_of_gt (Nat.lt_of_le_of_lt hstream hbeyond))
        change (v.process.fds.set copy _).get? fd = some y
        rw [FdTable.get?_set, if_neg hcopy, hy]
      have hleft : v₂.spare + 1 = v.spare := by
        have still : (v.process.fds.set copy { x with closeOnExec := false }).isOpen stream := by
          rw [FdTable.isOpen_set]
          simp [FdTable.isOpen, hx]
        change ((v.process.fds.set copy _).set stream _).spare v.process.fdLimit + 1 = v.spare
        rw [FdTable.spare_set_of_open still, FdTable.spare_set_of_free hfree hlt]
        rfl
      rw [saveAndReplace_of_saved hdup hdup2, List.length_cons, ← hleft]
      obtain ⟨hscarce, henough⟩ := ih (g := { saved := g.saved ++ [(stream, copy)] }) (v := v₂)
        (fun t ht => hts t (List.mem_cons_of_mem _ ht))
        (fun other ho => ⟨(hfds other ho).1, by
          rw [table]
          have := (hfds other ho).2
          grind [FdTable.get?_set]⟩)
        (by rw [table]; exact (hstd.set _ _).set _ _)
      exact ⟨fun h => hscarce (Nat.lt_of_succ_lt_succ h),
        fun h => henough (Nat.le_of_succ_le_succ h)⟩

/-- Putting files in place for a while takes one spare number for each stream. -/
theorem attachScoped_budget {o : Opened} {t : FdTable} {v : View} (hstd : t.Standard)
    (hadds : Adds t (held o) v.process.fds) :
    (v.spare < (targets o).length → ∃ v', attachScoped o v = (.error .EMFILE, v')) ∧
      ((targets o).length ≤ v.spare → ∃ g v', attachScoped o v = (.ok g, v')) := by
  obtain ⟨hscarce, henough⟩ := saveAndReplace_budget (g := {}) (fun _ => mem_targets)
    (hadds.beyond hstd) (hadds.standard hstd)
  refine ⟨fun h => ?_, fun h => ?_⟩
  · obtain ⟨g', v', hsave⟩ := hscarce h
    exact ⟨_, by rw [attachScoped, hsave]⟩
  · obtain ⟨g', v', hsave⟩ := henough h
    exact ⟨g', _, by rw [attachScoped, hsave]⟩

end Redirection

namespace Builtin

open Redirection

/-- Where files, or copies of the streams, do not all find a spare number, the
first that does not is where the run ends, and with numbers enough the body
runs. Files that are put in place for good need none beyond their own. -/
theorem run_within_budget (b : Builtin) {c : Command} {v : View}
    (hstd : v.process.fds.Standard) (hopenable : Openable c v) :
    (∀ hscarce : v.spare < c.openings.length,
      ∃ e fds v' v'', e = ⟨c.openings[v.spare].1, .system .EMFILE⟩ ∧
        openEach (c.openings.take v.spare) v = ((fds, none), v') ∧
        openAll c v = (.error e, v'') ∧ v''.world = v'.world ∧
        b.run c v = (.status exitFailure, report e.message v'')) ∧
    (c.openings.length ≤ v.spare → ∃ o v', openAll c v = (.ok o, v') ∧
      (held o).length = c.openings.length ∧ (targets o).map Prod.snd = c.streams ∧
      (∃ v'', attach o v' = (.ok ⟨⟩, v'')) ∧
      (v.spare < c.openings.length + c.streams.length →
        ∃ v'', attachScoped o v' = (.error .EMFILE, v'') ∧
          b.run c v = (.status exitFailure, report (c.verb ++ ": " ++ Errno.EMFILE.text) v'')) ∧
      (c.openings.length + c.streams.length ≤ v.spare →
        ∃ g v'', attachScoped o v' = (.ok g, v'') ∧ b.run c v = match b.body c v'' with
          | (.leave, w) => (.leave, w)
          | (.status n, w) => (.status n, restore g w))) := by
  obtain ⟨n, o, w, hlimited⟩ := hopenable
  rcases openAll_each c (v.limited n) with ⟨e, fds, w', -, hfails⟩ | ⟨o', w', heach, hall, hfits⟩
  · rw [hfails] at hlimited
    cases hlimited
  obtain ⟨hscarce, henough⟩ := openEach_limited heach
  constructor
  · intro hlt
    obtain ⟨fds, v', hfirst, hnext⟩ := hscarce _ (List.getElem?_eq_getElem hlt)
    rcases openAll_each c v with ⟨e, fds', v'', heach', hopen⟩ | ⟨_, _, heach', -, -⟩
    · rw [hnext] at heach'
      cases heach'
      refine ⟨_, fds, v', _, rfl, hfirst, hopen, closeAll_keeps Call.handling_inward _ _, ?_⟩
      simp only [run, hopen, refuse]
    · rw [hnext] at heach'
      cases heach'
  · intro hle
    obtain ⟨v', heach', hleft⟩ := henough hle
    rcases openAll_each c v with ⟨e, fds', v'', heach'', -⟩ | ⟨o₁, v₁, heach'', hopen, hfits₁⟩
    · rw [heach'] at heach''
      cases heach''
    have hstreams := targets_streams hfits₁
    obtain rfl : v' = v₁ := congrArg Prod.snd (heach'.symm.trans heach'')
    rcases openAll_adds c v with ⟨_, _, h, -⟩ | ⟨_, _, h, hadds⟩
    · rw [hopen] at h
      cases h
    rw [hopen] at h
    cases h
    obtain ⟨hfull, hfree⟩ := attachScoped_budget hstd hadds
    have hcount : (targets o₁).length = c.streams.length := by rw [← hstreams, List.length_map]
    refine ⟨o₁, v', hopen, held_length hfits₁, hstreams, attach_ok hadds, fun hlt => ?_,
      fun hle' => ?_⟩
    · obtain ⟨v'', hattach⟩ := hfull (by omega)
      refine ⟨v'', hattach, ?_⟩
      simp only [run, hopen, hattach, refuse]
    · obtain ⟨g, v'', hattach⟩ := hfree (by omega)
      refine ⟨g, v'', hattach, ?_⟩
      rcases hbody : b.body c v'' with ⟨_ | _, w⟩ <;> simp only [run, hopen, hattach, hbody]

/-- One file for two streams takes a number for itself and two for copies. With
one number `exit` does not come to it, and the file is there all the same. -/
theorem run_within_budget_shared :
    let c : Command :=
      { verb := "exit", argv := ["exit"], output := some ⟨"f", false⟩, error := some ⟨"f", true⟩ }
    let v (k : Nat) : View := View.atTerminal.modifyProcess ({ · with fdLimit := 3 + k })
    (∃ v', openAll c (v 0) = (.error ⟨"f", .system .EMFILE⟩, v') ∧ v'.world = (v 0).world) ∧
      (∃ o v' v'', openAll c (v 2) = (.ok o, v') ∧ attachScoped o v' = (.error .EMFILE, v'') ∧
        (exit.run c (v 2)).1 = .status exitFailure) ∧
      ∃ o v' g v'', openAll c (v 3) = (.ok o, v') ∧ attachScoped o v' = (.ok g, v'') ∧
        (exit.run c (v 3)).1 = .leave := by
  intro c v
  have hopens : (openAll c (View.atTerminal.limited 1024)).1.isOk := by decide +kernel
  have hopenable (k : Nat) : Openable c (v k) := openable_of_isOk hopens
  have budget (k : Nat) := run_within_budget exit (v := v k) View.atTerminal_standard (hopenable k)
  refine ⟨?_, ?_, ?_⟩
  · obtain ⟨e, fds, v', v'', rfl, hnone, hopen, hworld, -⟩ := (budget 0).1 (by decide)
    cases hnone
    exact ⟨v'', hopen, hworld⟩
  · obtain ⟨o, v', hopen, -, -, -, hscarce, -⟩ := (budget 2).2 (by decide)
    obtain ⟨v'', hattach, hrun⟩ := hscarce (by decide)
    exact ⟨o, v', v'', hopen, hattach, congrArg Prod.fst hrun⟩
  · obtain ⟨o, v', hopen, -, -, -, -, henough⟩ := (budget 3).2 (by decide)
    obtain ⟨g, v'', hattach, hrun⟩ := henough (by decide)
    exact ⟨o, v', g, v'', hopen, hattach, by rw [hrun]; rfl⟩

end Builtin

end LineShell
