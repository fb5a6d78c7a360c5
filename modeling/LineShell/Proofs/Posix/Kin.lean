/-
Parents and children.

A child of a living process has its number and its parent as long as it is
not waited for, and from its end on nothing about it changes
(`Sound.move_kin`). So a process that waits for a child of its own is never
told that there is none: the answer is the child's ending, once it has
ended (`HasChild.answer`).
-/
import LineShell.Proofs.Posix.Run

namespace LineShell.Posix.Machine

variable {ρ : Type} {m m' : Machine ρ} {s t : Slot ρ} {p c : Pid} {programs : Installed ρ}

-- ================================================================ children

/-- The second process is there, as a child of the first. -/
def HasChild (m : Machine ρ) (p c : Pid) : Prop :=
  ∃ t ∈ m.slots, t.process.pid = c ∧ t.process.parent = p

/-- The child of a process has ended, and was not waited for yet. -/
def HasEnded (m : Machine ρ) (p c : Pid) (how : Ending) : Prop :=
  ∃ t ∈ m.slots, t.process.pid = c ∧ t.process.parent = p ∧ t.life = .ended how

theorem HasEnded.child {how : Ending} (h : m.HasEnded p c how) : m.HasChild p c := by
  obtain ⟨t, ht, hpid, hparent, -⟩ := h
  exact ⟨t, ht, hpid, hparent⟩

/-- A child lives, or has ended. -/
theorem HasChild.lives_or_ended (h : m.HasChild p c) : m.Lives c ∨ ∃ how, m.HasEnded p c how := by
  obtain ⟨t, ht, hpid, hparent⟩ := h
  cases hl : t.life with
  | ended how => exact .inr ⟨how, t, ht, hpid, hparent, hl⟩
  | running todo => exact .inl ⟨t, ht, hpid, by simp only [Slot.alive, hl]⟩
  | sleeping wake next => exact .inl ⟨t, ht, hpid, by simp only [Slot.alive, hl]⟩

-- ================================================================= waiting

/-- What is waited for is a child of the one that waits, and has ended. -/
theorem ended_of_waitResult {child : Int} {how : Ending}
    (h : m.waitResult s child = some (.ok (c, how))) :
    m.HasEnded s.process.pid c how ∧ (child = -1 ∨ child = c) := by
  unfold waitResult at h
  split at h
  · cases h
  · simp only at h
    split at h
    · cases h
    · obtain ⟨t, ht, hf⟩ := List.exists_of_findSome?_eq_some h
      simp only [List.mem_filter, Bool.and_eq_true, decide_eq_true_eq, Bool.or_eq_true] at ht
      obtain ⟨ht, hparent, hchild⟩ := ht
      split at hf
      · next hl =>
        cases hf
        exact ⟨⟨t, ht, rfl, hparent, hl⟩, hchild⟩
      · cases hf

theorem Reaps.child (h : m.Reaps s c) : m.HasChild s.process.pid c := by
  obtain ⟨child, next, how, -, hwait⟩ := h
  exact (ended_of_waitResult hwait).1.child

/-- The child is among those that are looked at. -/
theorem HasChild.waited (h : m.HasChild s.process.pid c) : ∃ t ∈ m.slots.filter fun t =>
    t.process.parent = s.process.pid && ((c : Int) = -1 || (c : Int) = t.process.pid),
    t.process.pid = c := by
  obtain ⟨t, ht, rfl, hparent⟩ := h
  exact ⟨t, List.mem_filter.mpr ⟨ht, by simp [hparent]⟩, rfl⟩

/-- Whoever waits for a child of its own is told how it ended. -/
theorem HasChild.answer (h : m.HasChild s.process.pid c) {raw : Except Errno (Pid × Ending)}
    (hraw : m.waitResult s c = some raw) :
    ∃ how, raw = .ok (c, how) ∧ m.HasEnded s.process.pid c how := by
  cases raw with
  | ok r =>
      obtain ⟨c', how⟩ := r
      obtain ⟨hended, hchild | hchild⟩ := ended_of_waitResult hraw
      · exact absurd (hchild ▸ Int.natCast_nonneg c) (by decide)
      · obtain rfl := Int.ofNat_inj.mp hchild
        exact ⟨how, rfl, hended⟩
  | error e =>
      obtain ⟨t, ht, -⟩ := h.waited
      unfold waitResult at hraw
      rw [if_neg (by omega)] at hraw
      simp only [List.isEmpty_iff, List.ne_nil_of_mem ht, if_false] at hraw
      obtain ⟨t, -, hf⟩ := List.exists_of_findSome?_eq_some hraw
      split at hf <;> cases hf

namespace Sound

/-- There is only one ending of a child. -/
theorem ended_unique (h : m.Sound) {how how' : Ending} (hc : m.HasEnded p c how)
    (hc' : m.HasEnded p c how') : how = how' := by
  obtain ⟨t, ht, hpid, -, hl⟩ := hc
  obtain ⟨t', ht', hpid', -, hl'⟩ := hc'
  obtain rfl := h.eq_of_pid ht ht' (hpid.trans hpid'.symm)
  rw [hl] at hl'
  cases hl'
  rfl

/-- Waiting comes to the ending of the child, once it has ended. -/
theorem waitResult_of_ended (h : m.Sound) {how : Ending}
    (hc : m.HasEnded s.process.pid c how) : m.waitResult s c = some (.ok (c, how)) := by
  have answered : (m.waitResult s c).isSome := by
    obtain ⟨t, ht, hpid⟩ := hc.child.waited
    obtain ⟨u, hu, hupid, -, hl⟩ := hc
    obtain rfl := h.eq_of_pid hu (List.mem_filter.mp ht).1 (hupid.trans hpid.symm)
    unfold waitResult
    rw [if_neg (by omega)]
    simp only [List.isEmpty_iff, List.ne_nil_of_mem ht, if_false]
    exact List.findSome?_isSome_iff.mpr ⟨u, ht, by simp only [hl, Option.isSome_some]⟩
  obtain ⟨raw, hraw⟩ := Option.isSome_iff_exists.mp answered
  obtain ⟨how', rfl, hc'⟩ := hc.child.answer hraw
  rw [hraw, h.ended_unique hc hc']

-- ================================================================== moves

section

variable (hprograms : ∀ name args, (programs name args).Respects .onward)
include hprograms

/-- A child of a living process has its number and its parent after a move
as well, and its ending if it has ended, unless its parent waits for it. -/
theorem move_kin (h : m.Sound) (hs : s ∈ m.slots) (hm : m.move programs s = some m')
    (ht : t ∈ m.slots) (hlives : m'.Lives t.process.parent) :
    (∃ t' ∈ m'.slots, t'.process.pid = t.process.pid ∧ t'.process.parent = t.process.parent ∧
      (t.alive = false → t'.life = t.life)) ∨
    (t.process.parent = s.process.pid ∧ m.Reaps s t.process.pid) := by
  have hparent : t.process.parent ≠ 0 := by
    obtain ⟨u, hu, hpid, -⟩ := hlives
    rw [← hpid]
    exact Nat.ne_of_gt ((h.move hs hprograms hm).bounds u hu).1
  have kin : Stays s m' t ∨ m.Reaps s t.process.pid := by
    rcases move_carries Frame.onward_fits hprograms (h.content s hs) hm with
      hc | ⟨child, next, hl, rfl⟩
    · exact hc.kin h.distinct hs t ht hparent hlives
    · obtain ⟨t', ht', hstays⟩ :=
        stays_put (x := { s with life := .running (next m.nextPid) }) h.distinct hs rfl rfl ht
      exact .inl ⟨t', List.mem_append_left _ ht', hstays⟩
  rcases kin with ⟨t', ht', hpid, hpar, hlife⟩ | hreaps
  · refine .inl ⟨t', ht', hpid, hpar, fun hdead => hlife (fun hp => ?_) hdead⟩
    rw [h.eq_of_pid ht hs hp, alive_of_move hm] at hdead
    cases hdead
  · obtain ⟨u, hu, hpid, hpar⟩ := hreaps.child
    obtain rfl := h.eq_of_pid hu ht hpid
    exact .inr ⟨hpar, hreaps⟩

theorem move_child (h : m.Sound) (hs : s ∈ m.slots) (hm : m.move programs s = some m')
    (hlives : m'.Lives p) (hc : m.HasChild p c) :
    m'.HasChild p c ∨ (p = s.process.pid ∧ m.Reaps s c) := by
  obtain ⟨t, ht, rfl, rfl⟩ := hc
  refine (h.move_kin hprograms hs hm ht hlives).imp_left ?_
  rintro ⟨t', ht', hpid, hparent, -⟩
  exact ⟨t', ht', hpid, hparent⟩

/-- Who lives after a move lived before, or is new. -/
theorem lives_before (h : m.Sound) (hs : s ∈ m.slots) (hm : m.move programs s = some m')
    (hlives : m'.Lives p) : m.Lives p ∨ p = m.nextPid := by
  obtain ⟨t', ht', rfl, ha⟩ := hlives
  by_cases hp : t'.process.pid = s.process.pid
  · exact .inl ⟨s, hs, hp.symm, alive_of_move hm⟩
  · by_cases hnew : t'.process.pid = m.nextPid
    · exact .inr hnew
    · obtain ⟨t, ht, hut⟩ := h.move_others hprograms hs hm ht' hp hnew ha
      exact .inl ⟨t, ht, hut.pid.symm, hut.alive ▸ ha⟩

end

end Sound

/-- A new process is a child of the one that moved. -/
theorem born_child (m : Machine ρ) (s : Slot ρ) (child : Prog ρ) (next : Pid → Prog ρ) :
    (m.answerFork s child next).HasChild s.process.pid m.nextPid :=
  ⟨m.born s child, List.mem_append_right _ (List.mem_singleton_self _), rfl, rfl⟩

end LineShell.Posix.Machine
