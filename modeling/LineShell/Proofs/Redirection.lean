/-
Redirections come and go without a trace.

# Quiet

Opening, attaching and restoring change descriptors, open files and the
file tree, and nothing else of a process.

# Giving back

`GivesBack` says of a table that undoing a list of replacements, the last
one first, leads to another table, up to likeness. Saving one more stream
and replacing it keeps that (`saveAndReplace_givesBack`), whether or not
the next step fails; closing the descriptors of the opening keeps it too,
because no copy that was saved is one of them. So a guard always leads
back to the table from before the opening.
-/
import LineShell.Proofs.Posix.Opening

namespace LineShell.Redirection

open Posix

-- ================================================================== quiet

section

variable {F : Frame} (hF : Call.Handling F)
include hF

theorem closeAll_keeps (fds : List Fd) (v : View) : F.holds v (closeAll fds v) := by
  induction fds generalizing v with
  | nil => exact F.refl v
  | cons fd rest ih => exact F.trans (hF.close fd v) (ih _)

theorem replaceAll_keeps (ts : List (Fd × Fd)) : (replaceAll ts).Keeps F := by
  induction ts with
  | nil => exact Call.keeps_pure _
  | cons t rest ih => exact (hF.dup2 t.1 t.2).bind fun _ => ih

theorem attach_keeps (o : Opened) (v : View) : F.holds v (attach o v).2 :=
  F.trans (replaceAll_keeps hF (targets o) v) (closeAll_keeps hF _ _)

theorem restore_keeps (g : Guard) (v : View) : F.holds v (restore g v) := by
  have back : ∀ (saved : List (Fd × Fd)) (v : View), F.holds v (saved.foldl
      (fun v x => (Call.close x.2).after ((Call.dup2 x.2 x.1).after v)) v) := by
    intro saved
    induction saved with
    | nil => exact F.refl
    | cons x rest ih =>
        exact fun v => F.trans (F.trans (hF.dup2 x.2 x.1 v) (hF.close x.2 _)) (ih _)
  exact F.trans (back _ v) (hF.note _ _ _)

theorem saveAndReplace_keeps (ts : List (Fd × Fd)) (g : Guard) (v : View) :
    F.holds v (saveAndReplace ts g v).2 := by
  induction ts generalizing g v with
  | nil => exact F.refl v
  | cons t rest ih =>
      obtain ⟨fd, stream⟩ := t
      have saved := hF.dup stream v
      simp only [saveAndReplace, Call.after] at saved ⊢
      split
      · next h => rw [h] at saved; exact saved
      · next copy v₁ h =>
        rw [h] at saved
        have replaced := hF.dup2 fd stream v₁
        simp only [Call.after] at replaced
        split
        · next h' => rw [h'] at replaced; exact F.trans saved replaced
        · next h' =>
          rw [h'] at replaced
          exact F.trans (F.trans saved replaced) (ih _ _)

theorem attachScoped_keeps (o : Opened) (v : View) : F.holds v (attachScoped o v).2 := by
  have replaced := saveAndReplace_keeps hF (targets o) {} v
  unfold attachScoped
  split
  · next h => rw [h] at replaced; exact F.trans replaced (closeAll_keeps hF _ _)
  · next h =>
    rw [h] at replaced
    exact F.trans replaced (F.trans (restore_keeps hF _ _) (closeAll_keeps hF _ _))

end

section

variable {F : Frame} (hF : F.Tolerant)
include hF

theorem openPath_keeps (path : String) (mode : Call.Mode) (v : View) :
    F.holds v (openPath path mode v).2 := by
  unfold openPath
  split
  · exact F.refl v
  · have kept := Call.openFile_keeps hF (Bytes.ofString path) mode v
    split
    · next h => rw [Call.after_of_ok h] at kept; exact kept
    · next h => rw [Call.after_of_error h] at kept; exact kept

theorem openNext_keeps (o : Opened) (target : Option (String × Call.Mode))
    (record : Opened → Fd → Opened) (v : View) : F.holds v (openNext o target record v).2 := by
  cases target with
  | none => exact F.refl v
  | some target =>
      have kept := openPath_keeps hF target.1 target.2 v
      simp only [openNext]
      split
      · next h => rw [h] at kept; exact kept
      · next h =>
        rw [h] at kept
        exact F.trans kept (closeAll_keeps (.of_tolerant hF) _ _)

theorem openAll_keeps (c : Command) (v : View) : F.holds v (openAll c v).2 := by
  unfold openAll
  have first := openNext_keeps hF {} (c.input.map (·, .forReading)) ({ · with input := some · }) v
  split
  · next h => rw [h] at first; exact first
  · next o v₁ h =>
    rw [h] at first
    have second := openNext_keeps hF o (c.output.map outputTarget) ({ · with output := some · }) v₁
    split
    · next h' => rw [h'] at second; exact F.trans first second
    · next o' v₂ h' =>
      rw [h'] at second
      split
      · exact F.trans first second
      · exact F.trans (F.trans first second) (openNext_keeps hF _ _ _ _)

end

theorem closeAll_quiet (fds : List Fd) (v : View) : v.Quiet (closeAll fds v) :=
  closeAll_keeps (.of_tolerant .quiet) fds v

theorem openAll_quiet (c : Command) (v : View) : v.Quiet (openAll c v).2 := openAll_keeps .quiet c v

theorem attach_quiet (o : Opened) (v : View) : v.Quiet (attach o v).2 :=
  attach_keeps (.of_tolerant .quiet) o v

theorem restore_quiet (g : Guard) (v : View) : v.Quiet (restore g v) :=
  restore_keeps (.of_tolerant .quiet) g v

theorem attachScoped_quiet (o : Opened) (v : View) : v.Quiet (attachScoped o v).2 :=
  attachScoped_keeps (.of_tolerant .quiet) o v

-- ================================================================ opening

/-- A table with some descriptors closed. -/
def without (t : FdTable) (fds : List Fd) : FdTable := fds.foldl FdTable.erase t

theorem without_alike {t t' : FdTable} (h : t.Alike t') (fds : List Fd) :
    (without t fds).Alike (without t' fds) := by
  induction fds generalizing t t' with
  | nil => exact h
  | cons fd rest ih => exact ih (h.erase fd)

theorem get?_without (t : FdTable) (fds : List Fd) (fd : Fd) :
    (without t fds).get? fd = if fd ∈ fds then none else t.get? fd := by
  induction fds generalizing t with
  | nil => rfl
  | cons first rest ih =>
      have := ih (t.erase first)
      simp only [without, List.foldl_cons] at this ⊢
      rw [this]
      grind [FdTable.get?_erase]

theorem closeAll_without (fds : List Fd) (v : View) :
    (closeAll fds v).process.fds.Same (without v.process.fds fds) := by
  induction fds generalizing v with
  | nil => exact fun _ => rfl
  | cons fd rest ih =>
      intro other
      have later := ih ((Call.close fd).after v) other
      rw [get?_without, Call.close_get?] at later
      refine later.trans ?_
      rw [get?_without]
      grind

theorem closeAll_alike (fds : List Fd) (v : View) :
    (closeAll fds v).process.fds.Alike (without v.process.fds fds) := .of_get? (closeAll_without fds v)

/-- The second table is the first with some descriptors more. -/
structure Adds (t : FdTable) (fds : List Fd) (t' : FdTable) : Prop where
  free : ∀ fd ∈ fds, t.get? fd = none
  isOpen : ∀ fd ∈ fds, (t'.get? fd).isSome
  same : ∀ fd, fd ∉ fds → t'.get? fd = t.get? fd

namespace Adds

theorem nil (t : FdTable) : Adds t [] t := ⟨nofun, nofun, fun _ _ => rfl⟩

theorem without_same {t t' : FdTable} {fds : List Fd} (h : Adds t fds t') :
    (without t' fds).Same t := by
  intro fd
  rw [get?_without]
  split
  · next hmem => exact (h.free fd hmem).symm
  · next hmem => exact h.same fd hmem

theorem without_alike {t t' : FdTable} {fds : List Fd} (h : Adds t fds t') :
    (without t' fds).Alike t := .of_get? h.without_same

/-- What is added lies beyond the standard streams. -/
theorem beyond {t t' : FdTable} {fds : List Fd} (h : Adds t fds t') (hstd : t.Standard) :
    ∀ fd ∈ fds, Fd.stderr < fd ∧ (t'.get? fd).isSome :=
  fun fd hfd => ⟨hstd.lt_of_free (h.free fd hfd), h.isOpen fd hfd⟩

theorem stream {t t' : FdTable} {fds : List Fd} (h : Adds t fds t') (hstd : t.Standard) {fd : Fd}
    (hfd : fd ≤ Fd.stderr) : t'.get? fd = t.get? fd :=
  h.same fd fun hmem => Nat.not_le_of_lt (h.beyond hstd fd hmem).1 hfd

theorem standard {t t' : FdTable} {fds : List Fd} (h : Adds t fds t') (hstd : t.Standard) :
    t'.Standard := by
  intro fd hfd
  rw [h.stream hstd hfd]
  exact hstd fd hfd

/-- One more descriptor, of a number that is free. -/
theorem set {t t' : FdTable} {fds fds' : List Fd} (h : Adds t fds t') {fd : Fd}
    (hfree : t'.get? fd = none) (x : Handle) (hfds : ∀ other, other ∈ fds' ↔ other ∈ fds ∨ other = fd) :
    Adds t fds' (t'.set fd x) where
  free other ho := by
    rcases (hfds other).mp ho with hmem | rfl
    · exact h.free other hmem
    · have hnot : other ∉ fds := fun hmem => by
        have := h.isOpen other hmem
        rw [hfree] at this
        cases this
      rw [← h.same other hnot, hfree]
  isOpen other ho := by
    rw [FdTable.get?_set]
    split
    · rfl
    · next hne => exact h.isOpen other (((hfds other).mp ho).resolve_right hne)
  same other ho := by
    have hne : other ≠ fd := fun he => ho ((hfds other).mpr (.inr he))
    rw [FdTable.get?_set, if_neg hne]
    exact h.same other fun hmem => ho ((hfds other).mpr (.inl hmem))

end Adds

/-- One more file is opened, or all that were opened are closed. -/
theorem openNext_adds {t : FdTable} (o : Opened) (target : Option (String × Call.Mode))
    (record : Opened → Fd → Opened) {v : View} (h : Adds t (held o) v.process.fds)
    (hrec : ∀ fd other, other ∈ held (record o fd) ↔ other ∈ held o ∨ other = fd) :
    (∃ e v', openNext o target record v = (.error e, v') ∧ v'.process.fds.Same t) ∨
    ∃ o' v', openNext o target record v = (.ok o', v') ∧ Adds t (held o') v'.process.fds ∧
      (o' = o ∨ ∃ fd, o' = record o fd) := by
  cases target with
  | none => exact .inr ⟨o, v, rfl, h, .inl rfl⟩
  | some target =>
      obtain ⟨path, mode⟩ := target
      simp only [openNext, openPath]
      by_cases hnul : hasNul path
      · rw [if_pos hnul]
        exact .inl ⟨_, _, rfl, (closeAll_without _ v).trans h.without_same⟩
      rw [if_neg hnul]
      rcases Call.openFile_cases (Bytes.ofString path) mode v with
        ⟨e, hopen⟩ | ⟨fd, v', hopen, hopening⟩
      · rw [hopen]
        exact .inl ⟨_, _, rfl, (closeAll_without _ v).trans h.without_same⟩
      · rw [hopen]
        refine .inr ⟨_, _, rfl, ?_, .inr ⟨fd, rfl⟩⟩
        rw [hopening.process]
        exact h.set hopening.free _ (hrec fd)

/-- All files of a command are opened, at free numbers, or none is. -/
theorem openAll_adds (c : Command) (v : View) :
    (∃ e v', openAll c v = (.error e, v') ∧ v'.process.fds.Same v.process.fds) ∨
    ∃ o v', openAll c v = (.ok o, v') ∧ Adds v.process.fds (held o) v'.process.fds := by
  unfold openAll
  rcases openNext_adds {} (c.input.map (·, .forReading))
      ({ · with input := some · }) (.nil v.process.fds) (by simp [held]) with
    ⟨e, v₁, h₁, hfds⟩ | ⟨o₁, v₁, h₁, hadds₁, ho₁⟩
  · rw [h₁]
    exact .inl ⟨e, v₁, rfl, hfds⟩
  rw [h₁]
  have hout : o₁.output = none ∧ o₁.error = none := by
    rcases ho₁ with rfl | ⟨fd, rfl⟩ <;> exact ⟨rfl, rfl⟩
  simp only
  rcases openNext_adds o₁ (c.output.map outputTarget) ({ · with output := some · }) hadds₁
      (by simp only [held, hout]; grind) with
    ⟨e, v₂, h₂, hfds⟩ | ⟨o₂, v₂, h₂, hadds₂, ho₂⟩
  · rw [h₂]
    exact .inl ⟨e, v₂, rfl, hfds⟩
  rw [h₂]
  have herr : o₂.error = none := by
    rcases ho₂ with rfl | ⟨fd, rfl⟩ <;> exact hout.2
  simp only
  split
  · exact .inr ⟨_, v₂, rfl, hadds₂⟩
  · rcases openNext_adds o₂ (c.error.map outputTarget) ({ · with error := some · }) hadds₂
        (by simp only [held, herr]; grind) with
      ⟨e, v₃, h₃, hfds⟩ | ⟨o₃, v₃, h₃, hadds₃, -⟩
    · exact .inl ⟨e, v₃, h₃, hfds⟩
    · exact .inr ⟨o₃, v₃, h₃, hadds₃⟩

-- ============================================================ giving back

/-- Undoing the replacements in turn leads from one table to the other.
Each gives the stream the file of its copy, and closes the copy. -/
def GivesBack : List (Fd × Fd) → FdTable → FdTable → Prop
  | [], t', t => t'.Alike t
  | (stream, copy) :: back, t', t => copy ≠ stream ∧ ∃ x, t'.get? copy = some x ∧
      GivesBack back ((t'.set stream { x with closeOnExec := false }).erase copy) t

namespace GivesBack

theorem congr {back : List (Fd × Fd)} {t₁ t₂ t : FdTable} (h : GivesBack back t₁ t)
    (ha : t₁.Alike t₂) : GivesBack back t₂ t := by
  induction back generalizing t₁ t₂ with
  | nil => exact ha.symm.trans h
  | cons b back ih =>
      obtain ⟨stream, copy⟩ := b
      obtain ⟨hne, x, hx, hback⟩ := h
      have hfile := ha.files copy
      simp only [FdTable.file?, hx, Option.map_some] at hfile
      obtain ⟨y, hy, hxy⟩ := Option.map_eq_some_iff.mp hfile.symm
      refine ⟨hne, y, hy, ih hback ?_⟩
      rw [hxy]
      exact (ha.set _ _).erase _

theorem trans {back : List (Fd × Fd)} {t' t₁ t₂ : FdTable} (h : GivesBack back t' t₁)
    (ha : t₁.Alike t₂) : GivesBack back t' t₂ := by
  induction back generalizing t' with
  | nil => exact FdTable.Alike.trans h ha
  | cons b back ih =>
      obtain ⟨hne, x, hx, hback⟩ := h
      exact ⟨hne, x, hx, ih hback⟩

/-- A descriptor that has no part in the replacements may be closed
before. -/
theorem erase {back : List (Fd × Fd)} {t' t : FdTable} (h : GivesBack back t' t) {fd : Fd}
    (hfd : ∀ b ∈ back, b.1 ≠ fd ∧ b.2 ≠ fd) : GivesBack back (t'.erase fd) (t.erase fd) := by
  induction back generalizing t' with
  | nil => exact FdTable.Alike.erase h fd
  | cons b back ih =>
      obtain ⟨stream, copy⟩ := b
      obtain ⟨hne, x, hx, hback⟩ := h
      obtain ⟨hs, hc⟩ := hfd _ List.mem_cons_self
      refine ⟨hne, x, by rw [FdTable.get?_erase, if_neg hc, hx], ?_⟩
      refine (ih hback fun b hb => hfd b (List.mem_cons_of_mem _ hb)).congr ?_
      exact .of_get? fun other => by grind [FdTable.get?_erase, FdTable.get?_set]

theorem without {back : List (Fd × Fd)} {t' t : FdTable} (h : GivesBack back t' t) {fds : List Fd}
    (hfds : ∀ b ∈ back, b.1 ∉ fds ∧ b.2 ∉ fds) :
    GivesBack back (without t' fds) (without t fds) := by
  induction fds generalizing t' t with
  | nil => exact h
  | cons fd rest ih =>
      refine ih (h.erase fun b hb => ?_) fun b hb => ?_
      · have := hfds b hb
        grind
      · have := hfds b hb
        grind

/-- One more stream is replaced: its copy is of a free number. -/
theorem push {back : List (Fd × Fd)} {t' t : FdTable} (h : GivesBack back t' t)
    {stream copy : Fd} {x y : Handle} (hs : stream ≤ Fd.stderr) (hx : t'.get? stream = some x)
    (hc : t'.get? copy = none) : GivesBack ((stream, copy) :: back)
      ((t'.set copy { x with closeOnExec := false }).set stream y) t := by
  have hne : copy ≠ stream := fun he => by rw [he, hx] at hc; cases hc
  refine ⟨hne, { x with closeOnExec := false }, by grind [FdTable.get?_set], h.congr ?_⟩
  refine (FdTable.Alike.set_self hx hs false).symm.trans (.of_get? fun other => ?_)
  grind [FdTable.get?_set, FdTable.get?_erase]

end GivesBack

/-- Restoring undoes the replacements. -/
theorem restore_alike {g : Guard} {v : View} {t : FdTable}
    (h : GivesBack g.saved.reverse v.process.fds t) : (restore g v).process.fds.Alike t := by
  have back : ∀ (saved : List (Fd × Fd)) (v : View), GivesBack saved v.process.fds t →
      (saved.foldl (fun v x => (Call.close x.2).after ((Call.dup2 x.2 x.1).after v))
        v).process.fds.Alike t := by
    intro saved
    induction saved with
    | nil => exact fun v h => h
    | cons b rest ih =>
        intro v h
        obtain ⟨stream, copy⟩ := b
        obtain ⟨hne, x, hx, hback⟩ := h
        refine ih _ (hback.congr ?_)
        have put : ((Call.dup2 copy stream).after v).process.fds
            = v.process.fds.set stream { x with closeOnExec := false } := by
          rw [Call.after, Call.dup2_of_open hx hne]
          rfl
        rw [← put]
        exact (Call.close_alike copy _).symm
  exact back _ v h

theorem saveAndReplace_of_full {fd stream : Fd} {rest : List (Fd × Fd)} {g : Guard}
    {v v₁ : View} {e : Errno} (hdup : (Call.dup stream).attempt v = (.error e, v₁)) :
    saveAndReplace ((fd, stream) :: rest) g v = ((g, some e), v₁) := by
  simp only [saveAndReplace, hdup]

theorem saveAndReplace_of_saved {fd stream copy : Fd} {rest : List (Fd × Fd)} {g : Guard}
    {v v₁ v₂ : View} (hdup : (Call.dup stream).attempt v = (.ok copy, v₁))
    (hdup2 : (Call.dup2 fd stream).attempt v₁ = (.ok (), v₂)) :
    saveAndReplace ((fd, stream) :: rest) g v
      = saveAndReplace rest { saved := g.saved ++ [(stream, copy)] } v₂ := by
  simp only [saveAndReplace, hdup, hdup2]

/-- Whatever happens on the way, the guard leads back, and its copies are
none of the descriptors that were open before. -/
theorem saveAndReplace_givesBack {fds : List Fd} {t : FdTable} (ts : List (Fd × Fd)) (g : Guard)
    (v : View) (hts : ∀ x ∈ ts, x.1 ∈ fds ∧ x.2 ≤ Fd.stderr)
    (hfds : ∀ fd ∈ fds, Fd.stderr < fd ∧ (v.process.fds.get? fd).isSome)
    (hstd : v.process.fds.Standard) (hg : ∀ b ∈ g.saved, b.1 ∉ fds ∧ b.2 ∉ fds)
    (hback : GivesBack g.saved.reverse v.process.fds t) :
    GivesBack (saveAndReplace ts g v).1.1.saved.reverse (saveAndReplace ts g v).2.process.fds t ∧
      ∀ b ∈ (saveAndReplace ts g v).1.1.saved, b.1 ∉ fds ∧ b.2 ∉ fds := by
  induction ts generalizing g v with
  | nil => exact ⟨hback, hg⟩
  | cons target rest ih =>
      obtain ⟨fd, stream⟩ := target
      obtain ⟨hmem, hstream⟩ := hts _ List.mem_cons_self
      rcases Call.dup_spec stream v with ⟨e, hdup⟩ | ⟨x, copy, hx, hfree, hdup⟩
      · rw [saveAndReplace_of_full hdup]
        exact ⟨hback, hg⟩
      obtain ⟨hlt, hopen⟩ := hfds fd hmem
      obtain ⟨y, hy⟩ := Option.isSome_iff_exists.mp hopen
      have hcopy : copy ∉ fds := fun hc => by
        have := (hfds copy hc).2
        rw [hfree] at this
        cases this
      have hstreamNot : stream ∉ fds := fun hc => Nat.not_le_of_lt (hfds stream hc).1 hstream
      have hne : fd ≠ copy := fun he => hcopy (he ▸ hmem)
      have hne' : fd ≠ stream := fun he => hstreamNot (he ▸ hmem)
      have hput : (v.process.fds.set copy { x with closeOnExec := false }).get? fd = some y := by
        rw [FdTable.get?_set, if_neg hne, hy]
      let v₁ := v.modifyFds (·.set copy { x with closeOnExec := false })
      let v₂ := v₁.modifyFds (·.set stream { y with closeOnExec := false })
      have table : v₂.process.fds = (v.process.fds.set copy { x with closeOnExec := false }).set
        stream { y with closeOnExec := false } := rfl
      have hdup2 : (Call.dup2 fd stream).attempt v₁ = (.ok ⟨⟩, v₂) := Call.dup2_of_open hput hne'
      rw [saveAndReplace_of_saved hdup hdup2]
      refine ih { saved := g.saved ++ [(stream, copy)] } v₂
        (fun t ht => hts t (List.mem_cons_of_mem _ ht)) (fun other ho => ⟨(hfds other ho).1, ?_⟩)
        ?_ (fun b hb => ?_) ?_
      · have := (hfds other ho).2
        rw [table, FdTable.get?_set, FdTable.get?_set]
        split
        · rfl
        · split
          · rfl
          · exact this
      · rw [table]
        exact (hstd.set _ _).set _ _
      · rcases List.mem_append.mp hb with hb | hb
        · exact hg b hb
        · obtain rfl := List.mem_singleton.mp hb
          exact ⟨hstreamNot, hcopy⟩
      · rw [table, List.reverse_append]
        exact hback.push hstream hx hfree

/-- What is put in place was opened for it, and goes to a standard
stream. -/
theorem mem_targets {o : Opened} {x : Fd × Fd} (h : x ∈ targets o) :
    x.1 ∈ held o ∧ x.2 ≤ Fd.stderr := by
  obtain ⟨input, output, error, shared⟩ := o
  cases input <;> cases output <;> cases error <;> cases shared <;>
    simp [targets, held, Fd.stdin, Fd.stdout, Fd.stderr] at h ⊢ <;> grind

/-- Files attached under a guard: restoring leads back to the table from
before the opening. Where attaching fails, it is that table already. -/
theorem attachScoped_givesBack {o : Opened} {v : View} {t : FdTable} (hstd : t.Standard)
    (hadds : Adds t (held o) v.process.fds) :
    (∃ e v', attachScoped o v = (.error e, v') ∧ v'.process.fds.Alike t) ∨
    ∃ g v', attachScoped o v = (.ok g, v') ∧ GivesBack g.saved.reverse v'.process.fds t := by
  obtain ⟨hback, hcopies⟩ := saveAndReplace_givesBack (targets o) {} v (fun _ => mem_targets)
    (hadds.beyond hstd) (hadds.standard hstd) nofun (FdTable.Alike.refl v.process.fds)
  unfold attachScoped
  split
  · next g v' h =>
    rw [h] at hback hcopies
    refine .inr ⟨g, _, rfl, ?_⟩
    have closed := hback.without fun b hb => hcopies b (List.mem_reverse.mp hb)
    exact (closed.trans hadds.without_alike).congr (closeAll_alike _ v').symm
  · next g e v' h =>
    rw [h] at hback
    refine .inl ⟨e, _, rfl, (closeAll_alike _ _).trans ?_⟩
    exact (without_alike (restore_alike hback) _).trans hadds.without_alike

end LineShell.Redirection
