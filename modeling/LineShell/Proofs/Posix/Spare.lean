/-
How many more descriptors a process can open.

# Spare numbers

A number is spare if it is below the process's limit and no descriptor has
it. `FdTable.spare` counts these. A table is full where there are none
(`freeFrom_eq_none`); each new descriptor takes one (`spare_set_of_free`);
tables with the same descriptors open have the same number left
(`spare_congr`).

# The calls

A copy needs one spare number and a pipe two, and with fewer they fail
without effect. Opening a file needs one. What else an opening may fail on
is the same under every limit (`View.limited`), for resolving a path and
creating a file never ask for it. So what can be opened under some limit is
opened alike under every other, up to the point where no number is left
(`openFile_limited`).
-/
import LineShell.Proofs.Posix.Table

namespace LineShell.Posix

-- ========================================================= spare numbers

namespace FdTable

/-- The numbers below a limit that are free. -/
def spare (t : FdTable) (limit : Nat) : Nat := (List.range limit).countP fun fd => !t.isOpen fd

theorem spare_succ (t : FdTable) (limit : Nat) :
    t.spare (limit + 1) = t.spare limit + if t.isOpen limit then 0 else 1 := by
  rw [spare, spare, List.range_succ, List.countP_append]
  cases h : t.isOpen limit <;> simp [h]

/-- Which descriptors are open below the limit is all that counts. -/
theorem spare_congr {t t' : FdTable} {limit : Nat}
    (h : ∀ fd < limit, t.isOpen fd = t'.isOpen fd) : t.spare limit = t'.spare limit := by
  induction limit with
  | zero => rfl
  | succ limit ih =>
      rw [spare_succ, spare_succ, h limit (Nat.lt_succ_self limit),
        ih fun fd hfd => h fd (Nat.lt_succ_of_lt hfd)]

theorem Alike.spare {t t' : FdTable} (h : t.Alike t') (limit : Nat) :
    t.spare limit = t'.spare limit := spare_congr fun fd _ => h.isSome fd

theorem isOpen_set (t : FdTable) (fd other : Fd) (x : Handle) :
    (t.set fd x).isOpen other = (decide (other = fd) || t.isOpen other) := by
  rw [isOpen, get?_set]
  split
  · next h => simp [h]
  · next h => simp [h, isOpen]

/-- A new descriptor takes a spare number. -/
theorem spare_set_of_free {t : FdTable} {fd : Fd} (hfree : t.get? fd = none) {limit : Nat}
    (hlt : fd < limit) (x : Handle) : (t.set fd x).spare limit + 1 = t.spare limit := by
  induction limit with
  | zero => cases hlt
  | succ limit ih =>
      rw [spare_succ, spare_succ, isOpen_set]
      rcases Nat.lt_succ_iff_lt_or_eq.mp hlt with hlt' | rfl
      · have hne : limit ≠ fd := (Nat.ne_of_lt hlt').symm
        rw [decide_eq_false hne, Bool.false_or, ← ih hlt']
        omega
      · have same : (t.set fd x).spare fd = t.spare fd := spare_congr fun other ho => by
          rw [isOpen_set, decide_eq_false (Nat.ne_of_lt ho), Bool.false_or]
        have hclosed : t.isOpen fd = false := by rw [isOpen, hfree]; rfl
        rw [same, hclosed]
        simp

/-- A descriptor that is open already takes none. -/
theorem spare_set_of_open {t : FdTable} {fd : Fd} (hopen : t.isOpen fd) (x : Handle)
    (limit : Nat) : (t.set fd x).spare limit = t.spare limit := by
  refine spare_congr fun other _ => ?_
  rw [isOpen_set]
  by_cases he : other = fd
  · subst he
    simp [hopen]
  · simp [he]

theorem freeFrom_eq_none {t : FdTable} {low limit : Nat} :
    t.freeFrom low limit = none ↔ ∀ fd, low ≤ fd → fd < limit → t.isOpen fd := by
  rw [freeFrom, List.find?_eq_none]
  simp only [List.mem_range'_1, Bool.not_eq_true, Bool.not_eq_false']
  refine ⟨fun h fd hlow hlt => h fd ⟨hlow, by omega⟩, fun h fd hfd => h fd hfd.1 (by omega)⟩

theorem spare_eq_zero {t : FdTable} {limit : Nat} :
    t.spare limit = 0 ↔ t.freeFrom 0 limit = none := by
  rw [freeFrom_eq_none, spare, List.countP_eq_zero]
  simp

/-- The lowest free number, as a search finds it. -/
theorem freeFrom_eq_some {t : FdTable} {low limit fd : Nat} (h : t.freeFrom low limit = some fd) :
    t.get? fd = none ∧ low ≤ fd ∧ fd < limit ∧ ∀ other, low ≤ other → other < fd → t.isOpen other := by
  obtain ⟨hfree, hlow⟩ := freeFrom_spec h
  have hmem := List.mem_range'_1.mp (List.mem_of_find?_eq_some h)
  refine ⟨hfree, hlow, by omega, fun other ho hlt => ?_⟩
  have hbelow := (List.find?_range'_eq_some.mp h).2.2 other ho hlt
  simpa using hbelow

/-- Under limits that both leave a number, the lowest is the same. -/
theorem freeFrom_agree {t : FdTable} {low limit limit' fd fd' : Nat}
    (h : t.freeFrom low limit = some fd) (h' : t.freeFrom low limit' = some fd') : fd = fd' := by
  obtain ⟨hfree, hlow, -, hbelow⟩ := freeFrom_eq_some h
  obtain ⟨hfree', hlow', -, hbelow'⟩ := freeFrom_eq_some h'
  rcases Nat.lt_trichotomy fd fd' with hlt | heq | hgt
  · have := hbelow' fd hlow hlt
    rw [isOpen, hfree] at this
    cases this
  · exact heq
  · have := hbelow fd' hlow' hgt
    rw [isOpen, hfree'] at this
    cases this

end FdTable

namespace View

/-- The view under another limit. -/
def limited (n : Nat) (v : View) : View := v.modifyProcess ({ · with fdLimit := n })

/-- How many more descriptors the process can open. -/
def spare (v : View) : Nat := v.process.fds.spare v.process.fdLimit

end View

-- ================================================================ copies

namespace Call

variable {α β : Type} {v v' : View}

theorem freeFdFrom_none {low : Nat} (h : v.process.fds.freeFrom low v.process.fdLimit = none) :
    freeFdFrom low v = .error .EMFILE v := by
  simp only [freeFdFrom, h]

theorem freeFdFrom_some {low : Nat} {fd : Fd}
    (h : v.process.fds.freeFrom low v.process.fdLimit = some fd) :
    freeFdFrom low v = .ok fd v := by
  simp only [freeFdFrom, h]

/-- The lowest free number, where one is spare. -/
theorem freeFd_of_spare (h : v.spare ≠ 0) : ∃ fd, v.process.fds.get? fd = none ∧
    fd < v.process.fdLimit ∧ v.process.fds.freeFrom 0 v.process.fdLimit = some fd := by
  cases hf : v.process.fds.freeFrom 0 v.process.fdLimit with
  | none => exact absurd (FdTable.spare_eq_zero.mpr hf) h
  | some fd =>
      obtain ⟨hfree, -, hlt, -⟩ := FdTable.freeFrom_eq_some hf
      exact ⟨fd, hfree, hlt, rfl⟩

theorem dup_of_full {fd : Fd} {x : Handle} (hx : v.process.fds.get? fd = some x)
    (h : v.spare = 0) : (dup fd).attempt v = (.error .EMFILE, v) := by
  unfold dup dupFrom
  rw [attempt_bind]
  simp only [handle, hx, attempt_bind, freeFdFrom_none (FdTable.spare_eq_zero.mp h)]

/-- A copy takes one spare number. -/
theorem dup_of_spare {fd : Fd} {x : Handle} (hx : v.process.fds.get? fd = some x)
    (h : v.spare ≠ 0) : ∃ copy, v.process.fds.get? copy = none ∧ copy < v.process.fdLimit ∧
      (dup fd).attempt v
        = (.ok copy, v.modifyFds (·.set copy { x with closeOnExec := false })) := by
  obtain ⟨copy, hfree, hlt, hfd⟩ := freeFd_of_spare h
  refine ⟨copy, hfree, hlt, ?_⟩
  unfold dup dupFrom
  rw [attempt_bind]
  simp only [handle, hx, attempt_bind, freeFdFrom_some hfd]
  rfl

/-- The call is the same under every limit. -/
def Unlimited (c : Call α) : Prop :=
  ∀ v n, c.attempt (v.limited n) = ((c.attempt v).1, (c.attempt v).2.limited n)

theorem unlimited_pure (a : α) : (pure a : Call α).Unlimited := fun _ _ => rfl

theorem unlimited_throw (e : Errno) : (throw e : Call α).Unlimited := fun _ _ => rfl

theorem Unlimited.bind {c : Call α} {f : α → Call β} (hc : c.Unlimited)
    (hf : ∀ a, (f a).Unlimited) : (c >>= f).Unlimited := by
  intro v n
  have first := hc v n
  cases hcv : c.attempt v with
  | mk r v₁ =>
      rw [hcv] at first
      cases r with
      | ok a =>
          rw [attempt_bind_ok hcv, attempt_bind_ok first]
          exact hf a v₁ n
      | error e => rw [attempt_bind_error hcv, attempt_bind_error first]

/-- A call made up from the view, by what of it is no limit. -/
theorem unlimited_get_bind {f : View → Call α} (hlimit : ∀ v n, f (v.limited n) = f v)
    (hf : ∀ v, (f v).Unlimited) : (get >>= f).Unlimited := by
  intro v n
  rw [attempt_get_bind, attempt_get_bind, hlimit]
  exact hf v v n

theorem unlimited_place (path : Bytes) (last : FileTree.Last) : (place path last).Unlimited := by
  intro v n
  have same : (v.limited n).world.tree.resolve (v.limited n).held (v.limited n).process.cwd path
      last = v.world.tree.resolve v.held v.process.cwd path last := rfl
  simp only [attempt, place, ofExcept, same]
  cases v.world.tree.resolve v.held v.process.cwd path last <;> rfl

theorem unlimited_create (spot : FileTree.Place) (bits : Nat) (c : Content) :
    (create spot bits c).Unlimited := by
  intro v n
  unfold create
  rw [attempt_get_bind, attempt_get_bind]
  have same : (v.limited n).world.tree.nodes[spot.dir]? = v.world.tree.nodes[spot.dir]? := rfl
  simp only [same]
  cases (v.world.tree.nodes[spot.dir]?.map Node.linked).getD false <;> rfl

theorem unlimited_guard {p : Prop} [Decidable p] {e : Errno} {k : PUnit → Call α}
    (hk : ∀ u, (k u).Unlimited) : (if p then throw e >>= k else k ⟨⟩).Unlimited := by
  split
  · exact (unlimited_throw e).bind hk
  · exact hk _

theorem unlimited_openNode (path : Bytes) (m : Mode) : (openNode path m).Unlimited := by
  refine (unlimited_place path _).bind fun found => ?_
  cases found.node with
  | none =>
      simp only
      split
      · exact unlimited_create _ _ _
      · exact unlimited_throw _
  | some id =>
      refine unlimited_get_bind (fun _ _ => rfl) fun v => unlimited_guard fun _ => ?_
      split
      · split
        · exact Unlimited.bind (fun _ _ => rfl) fun _ => unlimited_pure id
        · exact unlimited_pure id
      · exact (unlimited_throw _).bind fun _ => unlimited_pure id
      · exact unlimited_pure id

/-- What can be opened under another limit can be opened where a number is
spare, with the same descriptor and the same effect, and else not at all. -/
theorem openFile_limited {path : Bytes} {m : Mode} {n : Nat} {fd : Fd}
    (h : (openFile path m).attempt (v.limited n) = (.ok fd, v')) :
    (v.spare = 0 → (openFile path m).attempt v = (.error .EMFILE, v)) ∧
      (v.spare ≠ 0 → ∃ v₁, (openFile path m).attempt v = (.ok fd, v₁) ∧ v₁.limited n = v' ∧
        v₁.process.fdLimit = v.process.fdLimit ∧ v₁.spare + 1 = v.spare) := by
  unfold openFile at h ⊢
  by_cases hempty : path.isEmpty = true
  · rw [if_pos hempty] at h
    cases h
  by_cases hlong : path.length ≥ FileTree.pathMax
  · rw [if_neg hempty, if_pos hlong] at h
    cases h
  rw [if_neg hempty, if_neg hlong] at h ⊢
  refine ⟨fun hfull => ?_, fun hspare => ?_⟩
  · rw [attempt_bind]
    simp only [freeFd, freeFdFrom_none (FdTable.spare_eq_zero.mp hfull)]
  obtain ⟨fd₁, hfree, hlt, hfd₁⟩ := freeFd_of_spare hspare
  cases hfd : (v.limited n).process.fds.freeFrom 0 (v.limited n).process.fdLimit with
  | none =>
      rw [attempt_bind] at h
      simp only [freeFd, freeFdFrom_none hfd] at h
      cases h
  | some fd₂ =>
      obtain rfl : fd₂ = fd₁ := FdTable.freeFrom_agree hfd hfd₁
      have node := unlimited_openNode path m v n
      have kept := openNode_outward path m v
      rw [attempt_bind] at h ⊢
      simp only [freeFd, freeFdFrom_some hfd, freeFdFrom_some hfd₁] at h ⊢
      cases hn : (openNode path m).attempt v with
      | mk r v₁ =>
          rw [hn] at node
          rw [after, hn] at kept
          cases r with
          | error e =>
              rw [attempt_bind_error node] at h
              cases h
          | ok id =>
              rw [attempt_bind_ok node] at h
              rw [attempt_bind_ok hn]
              have hp : v₁.process = v.process := kept.process
              have taken := FdTable.spare_set_of_free hfree hlt ⟨v₁.world.files.size, m.closeOnExec⟩
              cases h
              refine ⟨_, rfl, rfl, ?_, ?_⟩
              · change v₁.process.fdLimit = _
                rw [hp]
              · change (v₁.process.fds.set _ _).spare v₁.process.fdLimit + 1 = _
                rw [hp]
                exact taken

end Call

end LineShell.Posix
