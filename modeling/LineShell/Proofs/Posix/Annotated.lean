/-
Machines whose processes log more or less.

# Programs

A program annotates another if it does the same, but for lines that it logs
and the other does not (`Prog.Annotates`). Both are taken up to the logs of
their processes: what they do in views that differ in the log alone comes
to such views again. A program that annotates itself does not look at its
log (`Prog.IsBlind`).

# Machines

Of two machines, one annotates the other if its processes do, one by one,
and all else is the same. Each change that the machine makes to its slots
preserves that, so each request is answered in the same way in both
(`Annotates.request`). Only a line that is logged is a move of the first
machine and none of the second (`Annotates.note`).
-/
import Mathlib.Data.List.Forall2
import LineShell.Proofs.Posix.Blind
import LineShell.Proofs.Posix.Run

namespace LineShell.Posix

variable {ρ α β : Type}

-- ============================================================== programs

namespace Prog

/-- The first program is the second after some log lines. -/
inductive Notes : Prog ρ → Prog ρ → Prop where
  | refl (p : Prog ρ) : Notes p p
  | note {p q : Prog ρ} (level : Level) (text : String) :
      Notes p q → Notes (.step (View.note level text) fun _ => p) q

/-- Both programs make the same request, and whatever the answer is, the
first goes on as the second after some log lines. -/
def Abreast : Prog ρ → Prog ρ → Prop
  | p, .ret r => p = .ret r
  | p, .exit how => p = .exit how
  | p, .step act' next' => ∃ act next, p = .step act next ∧ ∀ v v' : View, v.Same v' →
      (act v).Same (act' v') ∧ ∃ q, (next v).Notes q ∧ q.Abreast (next' v')
  | p, .read fd count next' => ∃ next, p = .read fd count next ∧
      ∀ r, ∃ q, (next r).Notes q ∧ q.Abreast (next' r)
  | p, .write fd data next' => ∃ next, p = .write fd data next ∧
      ∀ r, ∃ q, (next r).Notes q ∧ q.Abreast (next' r)
  | p, .fork child' next' => ∃ child next, p = .fork child next ∧
      (∃ q, child.Notes q ∧ q.Abreast child') ∧
      ∀ pid, ∃ q, (next pid).Notes q ∧ q.Abreast (next' pid)
  | p, .wait child next' => ∃ next, p = .wait child next ∧
      ∀ r, ∃ q, (next r).Notes q ∧ q.Abreast (next' r)
  | p, .kill process signal next' => ∃ next, p = .kill process signal next ∧
      ∀ r, ∃ q, (next r).Notes q ∧ q.Abreast (next' r)
  | p, .sleep duration next' => ∃ next, p = .sleep duration next ∧
      ∃ q, next.Notes q ∧ q.Abreast next'
  | p, .exec path argv next' => ∃ next, p = .exec path argv next ∧
      ∀ e, ∃ q, (next e).Notes q ∧ q.Abreast (next' e)

/-- The first program does what the second does, and may log more. -/
def Annotates (p q : Prog ρ) : Prop := ∃ p', p.Notes p' ∧ p'.Abreast q

/-- The program does not look at the log of its process. -/
def IsBlind (p : Prog ρ) : Prop := p.Annotates p

variable {p q : Prog ρ}

theorem Abreast.annotates (h : p.Abreast q) : p.Annotates q := ⟨p, .refl p, h⟩

theorem Annotates.note (h : p.Annotates q) (level : Level) (text : String) :
    Annotates (.step (View.note level text) fun _ => p) q := by
  obtain ⟨p', hn, hp⟩ := h
  exact ⟨p', .note level text hn, hp⟩

theorem blind_ret (r : ρ) : (ret r).IsBlind := Abreast.annotates rfl

theorem blind_exit (how : Ending) : (exit how : Prog ρ).IsBlind := Abreast.annotates rfl

theorem annotates_step {act act' : View → View} {next next' : View → Prog ρ}
    (hact : ∀ {v v' : View}, v.Same v' → (act v).Same (act' v'))
    (hnext : ∀ {v v' : View}, v.Same v' → (next v).Annotates (next' v')) :
    (step act next).Annotates (step act' next') :=
  Abreast.annotates ⟨act, next, rfl, fun _ _ hv => ⟨hact hv, hnext hv⟩⟩

theorem annotates_fork {child child' : Prog ρ} {next next' : Pid → Prog ρ}
    (hchild : child.Annotates child') (hnext : ∀ pid, (next pid).Annotates (next' pid)) :
    (fork child next).Annotates (fork child' next') :=
  Abreast.annotates ⟨child, next, rfl, hchild, hnext⟩

theorem annotates_wait {child : Int} {next next' : Except Errno (Pid × Ending) → Prog ρ}
    (hnext : ∀ r, (next r).Annotates (next' r)) : (wait child next).Annotates (wait child next') :=
  Abreast.annotates ⟨next, rfl, hnext⟩

theorem annotates_write {fd : Fd} {data : Bytes} {next next' : Except Errno Nat → Prog ρ}
    (hnext : ∀ r, (next r).Annotates (next' r)) :
    (write fd data next).Annotates (write fd data next') :=
  Abreast.annotates ⟨next, rfl, hnext⟩

theorem annotates_exec {path : Bytes} {argv : List Bytes} {next next' : Errno → Prog ρ}
    (hnext : ∀ e, (next e).Annotates (next' e)) :
    (exec path argv next).Annotates (exec path argv next') :=
  Abreast.annotates ⟨next, rfl, hnext⟩

/-- A result is not preceded by anything but log lines. -/
theorem Annotates.of_ret {r : ρ} (h : (ret r).Annotates q) : q = ret r := by
  obtain ⟨p, hn, hp⟩ := h
  cases hn
  cases q with
  | ret r' => exact hp.symm
  | exit how => cases hp
  | step | fork =>
      obtain ⟨_, _, h, -⟩ := hp
      cases h
  | read | write | wait | kill | sleep | exec =>
      obtain ⟨_, h, -⟩ := hp
      cases h

end Prog

-- ================================================================= slots

/-- What is left to do differs in log lines alone. -/
inductive Life.Annotates : Life ρ → Life ρ → Prop where
  | running {p q : Prog ρ} : p.Annotates q → Annotates (.running p) (.running q)
  | sleeping {p q : Prog ρ} (wake : Nat) :
      p.Annotates q → Annotates (.sleeping wake p) (.sleeping wake q)
  | ended (how : Ending) : Annotates (.ended how) (.ended how)

/-- The same is done next, without a log line before it. -/
inductive Life.Abreast : Life ρ → Life ρ → Prop where
  | running {p q : Prog ρ} : p.Abreast q → Abreast (.running p) (.running q)
  | sleeping {p q : Prog ρ} (wake : Nat) :
      p.Annotates q → Abreast (.sleeping wake p) (.sleeping wake q)
  | ended (how : Ending) : Abreast (.ended how) (.ended how)

/-- The process has another log, and logs more from now on. -/
structure Slot.Annotates (s s' : Slot ρ) : Prop where
  process : ∃ log, s'.process = { s.process with log }
  life : s.life.Annotates s'.life

namespace Slot.Annotates

variable {s s' : Slot ρ}

/-- Nothing of the process is different but its log. -/
theorem field (h : s.Annotates s') (f : Process → α) (hf : ∀ p log, f { p with log } = f p) :
    f s'.process = f s.process := by
  obtain ⟨log, hlog⟩ := h.process
  rw [hlog, hf]

theorem pid (h : s.Annotates s') : s'.process.pid = s.process.pid :=
  h.field Process.pid fun _ _ => rfl

theorem parent (h : s.Annotates s') : s'.process.parent = s.process.parent :=
  h.field Process.parent fun _ _ => rfl

theorem fds (h : s.Annotates s') : s'.process.fds = s.process.fds :=
  h.field Process.fds fun _ _ => rfl

theorem cwd (h : s.Annotates s') : s'.process.cwd = s.process.cwd :=
  h.field Process.cwd fun _ _ => rfl

theorem ignored (h : s.Annotates s') : s'.process.ignored = s.process.ignored :=
  h.field Process.ignored fun _ _ => rfl

theorem caught (h : s.Annotates s') : s'.process.caught = s.process.caught :=
  h.field Process.caught fun _ _ => rfl

theorem alive (h : s.Annotates s') : s'.alive = s.alive := by
  obtain ⟨process, life⟩ := s
  obtain ⟨process', life'⟩ := s'
  cases h.life <;> rfl

theorem same (h : s.Annotates s') (w : World) : View.Same ⟨s.process, w⟩ ⟨s'.process, w⟩ := by
  obtain ⟨log, hlog⟩ := h.process
  rw [hlog]
  exact .relog _ log

/-- Slots with processes that differ in the log. -/
theorem of_same {v v' : View} (h : v.Same v') {l l' : Life ρ} (hl : l.Annotates l') :
    Slot.Annotates ⟨v.process, l⟩ ⟨v'.process, l'⟩ :=
  ⟨⟨v'.process.log, congrArg View.process h.eq_relog⟩, hl⟩

/-- Both processes go on. -/
theorem goOn (h : s.Annotates s') {l l' : Life ρ} (hl : l.Annotates l') :
    Slot.Annotates { s with life := l } { s' with life := l' } := ⟨h.process, hl⟩

end Slot.Annotates

-- =============================================================== machines

namespace Machine

/-- The machines are the same but for logs and for what is logged. -/
structure Annotates (m m' : Machine ρ) : Prop where
  world : m'.world = m.world
  nextPid : m'.nextPid = m.nextPid
  clock : m'.clock = m.clock
  slots : List.Forall₂ Slot.Annotates m.slots m'.slots

variable {m m' n n' : Machine ρ} {s s' x x' t t' : Slot ρ} {programs : Installed ρ}

theorem exists_of_forall₂ {R : α → β → Prop} {as : List α} {bs : List β}
    (h : List.Forall₂ R as bs) {a : α} (ha : a ∈ as) : ∃ b ∈ bs, R a b := by
  induction h with
  | nil => cases ha
  | cons hab _ ih =>
      rcases List.mem_cons.mp ha with rfl | ha
      · exact ⟨_, List.mem_cons_self, hab⟩
      · obtain ⟨b, hb, hab⟩ := ih ha
        exact ⟨b, List.mem_cons_of_mem _ hb, hab⟩

theorem findSome?_of_forall₂ {R : α → α → Prop} {as bs : List α} {f : α → Option β}
    (h : List.Forall₂ R as bs) (hf : ∀ a b, R a b → f b = f a) :
    bs.findSome? f = as.findSome? f := by
  induction h with
  | nil => rfl
  | cons hab _ ih => rw [List.findSome?_cons, List.findSome?_cons, hf _ _ hab, ih]

theorem find?_of_forall₂ {R : α → α → Prop} {as bs : List α} {p : α → Bool}
    (h : List.Forall₂ R as bs) (hp : ∀ a b, R a b → p b = p a) :
    Option.Rel R (as.find? p) (bs.find? p) := by
  induction h with
  | nil => exact .none
  | @cons a b _ _ hab _ ih =>
      rw [List.find?_cons, List.find?_cons, hp a b hab]
      cases p a with
      | true => exact .some hab
      | false => exact ih

/-- One condition decides on both sides. -/
theorem rel_ite {R : α → β → Prop} {c : Prop} [Decidable c] {a a' : α} {b b' : β} (h : R a b)
    (h' : R a' b') : R (if c then a else a') (if c then b else b') := by
  split
  · exact h
  · exact h'

namespace Annotates

theorem partner (h : m.Annotates m') (hs : s ∈ m.slots) : ∃ s' ∈ m'.slots, s.Annotates s' :=
  exists_of_forall₂ h.slots hs

theorem partner_back (h : m.Annotates m') (hs : s' ∈ m'.slots) : ∃ s ∈ m.slots, s.Annotates s' :=
  exists_of_forall₂ h.slots.flip hs

theorem pids (h : m.Annotates m') : m'.pids = m.pids := by
  unfold Machine.pids
  have hslots := h.slots
  generalize m.slots = ts, m'.slots = ts' at hslots
  induction hslots with
  | nil => rfl
  | cons hab _ ih => rw [List.map_cons, List.map_cons, hab.pid, ih]

/-- The view of a process, but for its log. -/
theorem same (h : m.Annotates m') (hs : s.Annotates s') :
    View.Same ⟨s.process, m.world⟩ ⟨s'.process, m'.world⟩ := by
  rw [h.world]
  exact hs.same m.world

theorem held (h : m.Annotates m') (pipe : Nat) : m'.held pipe = m.held pipe := by
  rw [Machine.held, Machine.held, h.world]

theorem holds (h : m.Annotates m') (target : Target) : m'.holds target = m.holds target := by
  unfold Machine.holds
  rw [h.world]
  have hslots := h.slots
  generalize m.slots = ts, m'.slots = ts' at hslots
  induction hslots with
  | nil => rfl
  | cons hab _ ih => rw [List.any_cons, List.any_cons, hab.alive, hab.fds, ih]

/-- All slots are changed in the same way. -/
theorem map (h : m.Annotates m') {f f' : Slot ρ → Slot ρ}
    (hf : ∀ {t t'}, t.Annotates t' → (f t).Annotates (f' t')) :
    Annotates { m with slots := m.slots.map f } { m' with slots := m'.slots.map f' } where
  world := h.world
  nextPid := h.nextPid
  clock := h.clock
  slots := List.rel_map (fun _ _ ht => hf ht) h.slots

theorem put (h : m.Annotates m') (hx : x.Annotates x') : (m.put x).Annotates (m'.put x') := by
  refine h.map fun ht => ?_
  rw [ht.pid, hx.pid]
  split
  · exact hx
  · exact ht

theorem setWorld (h : m.Annotates m') (w : World) :
    Annotates { m with world := w } { m' with world := w } :=
  ⟨rfl, h.nextPid, h.clock, h.slots⟩

/-- A process of the first machine alone is changed. -/
theorem put_left (h : m.Annotates m') (hnodup : m.pids.Nodup) (hs' : s' ∈ m'.slots)
    (hx : x.Annotates s') : (m.put x).Annotates m' where
  world := h.world
  nextPid := h.nextPid
  clock := h.clock
  slots := by
    have hnodup' : m'.pids.Nodup := h.pids ▸ hnodup
    obtain ⟨hlength, hall⟩ := List.forall₂_iff_zip.mp h.slots
    refine List.forall₂_map_left_iff.mpr (List.forall₂_iff_zip.mpr ⟨hlength, fun {t t'} ht => ?_⟩)
    have hann : t.Annotates t' := hall ht
    split
    · next hpid =>
      obtain rfl := eq_of_pid hnodup' (List.of_mem_zip ht).2 hs' (by rw [hann.pid, hpid, hx.pid])
      exact hx
    · exact hann

theorem proceed (h : m.Annotates m') (hs : s.Annotates s') {p q : Prog ρ} (hp : p.Annotates q) :
    (m.proceed s p).Annotates (m'.proceed s' q) :=
  h.put (hs.goOn (.running hp))

theorem resume (h : m.Annotates m') {v v' : View} (hv : v.Same v') {p q : Prog ρ}
    (hp : p.Annotates q) : (m.resume s v p).Annotates (m'.resume s' v' q) := by
  unfold Machine.resume
  rw [hv.world]
  exact (h.setWorld v.world).put (.of_same hv (.running hp))

theorem terminate (h : m.Annotates m') (hs : s.Annotates s') (how : Ending) :
    (m.terminate s how).Annotates (m'.terminate s' how) where
  world := h.world
  nextPid := h.nextPid
  clock := h.clock
  slots := by
    refine List.rel_filterMap (fun t t' ht => ?_) h.slots
    simp only [hs.pid, hs.parent, ht.pid, ht.parent, ht.alive]
    obtain ⟨log, hlog⟩ := hs.process
    obtain ⟨log', hlog'⟩ := ht.process
    split
    · split
      · exact .none
      · exact .some ⟨⟨log, by rw [hlog]⟩, .ended how⟩
    · split
      · split
        · exact .some ⟨⟨log', by rw [hlog']⟩, ht.life⟩
        · exact .none
      · exact .some ht

theorem notice (h : m.Annotates m') (pid : Pid) (signal : Nat) :
    (m.notice pid signal).Annotates (m'.notice pid signal) := by
  refine h.map fun ht => ?_
  rw [ht.pid]
  obtain ⟨log, hlog⟩ := ht.process
  split
  · exact ⟨⟨log, by rw [hlog]⟩, ht.life⟩
  · exact ht

theorem reap (h : m.Annotates m') (pid : Pid) : (m.reap pid).Annotates (m'.reap pid) where
  world := h.world
  nextPid := h.nextPid
  clock := h.clock
  slots := List.rel_filter (fun t t' ht => by simp only [ht.pid]) h.slots

-- ================================================================= moves

theorem waitResult (h : m.Annotates m') (hs : s.Annotates s') (child : Int) :
    m'.waitResult s' child = m.waitResult s child := by
  have children : List.Forall₂ Slot.Annotates
      (m.slots.filter fun t =>
        t.process.parent = s.process.pid && (child = -1 || child = t.process.pid))
      (m'.slots.filter fun t =>
        t.process.parent = s'.process.pid && (child = -1 || child = t.process.pid)) :=
    List.rel_filter (fun t t' ht => by simp only [ht.parent, ht.pid, hs.pid]) h.slots
  unfold Machine.waitResult
  simp only
  generalize m.slots.filter _ = ts, m'.slots.filter _ = ts' at children
  have none : ts'.isEmpty = ts.isEmpty := by cases children <;> rfl
  rw [none]
  split
  · rfl
  split
  · rfl
  · refine findSome?_of_forall₂ children fun t t' ht => ?_
    have hpid := ht.pid
    obtain ⟨process, life⟩ := t
    obtain ⟨process', life'⟩ := t'
    cases ht.life with
    | running | sleeping => rfl
    | ended how => exact congrArg (fun p => some (Except.ok (p, how))) hpid

/-- The same file is behind a descriptor. -/
theorem file (h : m.Annotates m') (hs : s.Annotates s') (fd : Fd) :
    View.file? ⟨s'.process, m'.world⟩ fd = View.file? ⟨s.process, m.world⟩ fd := by
  unfold View.file?
  rw [hs.fds, h.world]

theorem answerRead (h : m.Annotates m') (hs : s.Annotates s') (fd : Fd) (count : Nat)
    {next next' : Except Errno Bytes → Prog ρ} (hnext : ∀ r, (next r).Annotates (next' r)) :
    Option.Rel Annotates (m.answerRead s fd count next) (m'.answerRead s' fd count next') := by
  have same := h.same hs
  have told (r) :
      Option.Rel Annotates (some (m.proceed s (next r))) (some (m'.proceed s' (next' r))) :=
    .some (h.proceed hs (hnext r))
  simp only [Machine.answerRead, h.file hs, h.held, h.holds]
  cases View.file? ⟨s.process, m.world⟩ fd with
  | none => exact told _
  | some f =>
      obtain ⟨n, f⟩ := f
      refine rel_ite (told _) ?_
      cases f.target with
      | node id =>
          obtain ⟨hr, hafter⟩ := (Call.blind_readNode n f id count).same same
          simp only [hr]
          exact .some (h.resume hafter (hnext _))
      | reader p | writer p =>
          simp only
          cases m.held p with
          | nil => exact rel_ite .none (told _)
          | cons b rest => exact .some (h.resume (same.modifyWorld _) (hnext _))

theorem answerWrite (h : m.Annotates m') (hs : s.Annotates s') (fd : Fd) (data : Bytes)
    {next next' : Except Errno Nat → Prog ρ} (hnext : ∀ r, (next r).Annotates (next' r)) :
    Option.Rel Annotates (m.answerWrite s fd data next) (m'.answerWrite s' fd data next') := by
  have same := h.same hs
  have told (r) :
      Option.Rel Annotates (some (m.proceed s (next r))) (some (m'.proceed s' (next' r))) :=
    .some (h.proceed hs (hnext r))
  simp only [Machine.answerWrite, h.file hs, h.held, h.holds, hs.ignored, hs.caught, hs.pid]
  cases View.file? ⟨s.process, m.world⟩ fd with
  | none => exact told _
  | some f =>
      obtain ⟨n, f⟩ := f
      refine rel_ite (told _) ?_
      cases f.target with
      | node id =>
          obtain ⟨hr, hafter⟩ := (Call.blind_writeNode n f id data).same same
          simp only [hr]
          exact .some (h.resume hafter (hnext _))
      | reader p | writer p =>
          simp only
          refine rel_ite (rel_ite (told _) (rel_ite ?_ ?_)) (rel_ite ?_ .none)
          · exact .some ((h.proceed hs (hnext _)).notice _ _)
          · exact .some (h.terminate hs _)
          · exact .some (h.resume (same.modifyWorld _) (hnext _))

theorem answerFork (h : m.Annotates m') (hs : s.Annotates s') {child child' : Prog ρ}
    {next next' : Pid → Prog ρ} (hchild : child.Annotates child')
    (hnext : ∀ pid, (next pid).Annotates (next' pid)) :
    (m.answerFork s child next).Annotates (m'.answerFork s' child' next') where
  world := h.world
  nextPid := congrArg (· + 1) h.nextPid
  clock := h.clock
  slots := by
    have gone := (h.proceed hs (hnext m.nextPid)).slots
    have new : (m.born s child).Annotates (m'.born s' child') := by
      obtain ⟨log, hlog⟩ := hs.process
      refine ⟨⟨[], ?_⟩, .running hchild⟩
      rw [born, born, hlog, h.nextPid]
    rw [slots_answerFork, slots_answerFork, h.nextPid]
    exact List.rel_append gone (.cons new .nil)

theorem answerWait (h : m.Annotates m') (hs : s.Annotates s') (child : Int)
    {next next' : Except Errno (Pid × Ending) → Prog ρ}
    (hnext : ∀ r, (next r).Annotates (next' r)) :
    Option.Rel Annotates (m.answerWait s child next) (m'.answerWait s' child next') := by
  rw [Machine.answerWait, Machine.answerWait, h.waitResult hs]
  cases m.waitResult s child with
  | none => exact .none
  | some r =>
      refine .some ?_
      cases r with
      | error e => exact h.proceed hs (hnext _)
      | ok r => exact (h.proceed hs (hnext _)).reap r.1

theorem answerKill (h : m.Annotates m') (hs : s.Annotates s') (process : Int) (signal : Nat)
    {next next' : Except Errno Unit → Prog ρ} (hnext : ∀ r, (next r).Annotates (next' r)) :
    (m.answerKill s process signal next).Annotates (m'.answerKill s' process signal next') := by
  have told (r) : (m.proceed s (next r)).Annotates (m'.proceed s' (next' r)) :=
    h.proceed hs (hnext r)
  simp only [Machine.answerKill, hs.pid]
  generalize (if process = 0 then (s.process.pid : Int) else process) = target
  have hit := find?_of_forall₂ (p := fun t => (t.process.pid : Int) = target) h.slots
    fun t t' ht => by rw [ht.pid]
  generalize m.slots.find? _ = found, m'.slots.find? _ = found' at hit
  cases hit with
  | none => exact told _
  | some ht =>
      simp only [ht.alive, ht.ignored, ht.caught, ht.pid]
      exact rel_ite (told _) (rel_ite (told _) (rel_ite ((told _).terminate ht _)
        (rel_ite (told _) (rel_ite ((told _).notice _ _)
          (rel_ite (told _) ((told _).terminate ht _))))))

theorem answerExec (h : m.Annotates m') (hs : s.Annotates s')
    (hprograms : ∀ name args, (programs name args).IsBlind) (path : Bytes) (argv : List Bytes)
    {next next' : Errno → Prog ρ} (hnext : ∀ e, (next e).Annotates (next' e)) :
    (m.answerExec programs s path argv next).Annotates
      (m'.answerExec programs s' path argv next') := by
  have held : View.held ⟨s'.process, m.world⟩ = View.held ⟨s.process, m.world⟩ := by
    funext fd
    have file := h.file hs fd
    rw [h.world] at file
    rw [View.held, View.held, file]
  simp only [Machine.answerExec, h.world, held, hs.cwd, h.clock]
  cases image m.world.tree (View.held ⟨s.process, m.world⟩) s.process.cwd scriptDepth path
      (if argv.isEmpty then [[]] else argv) with
  | error e => exact h.proceed hs (hnext e)
  | ok i =>
      obtain ⟨log, hlog⟩ := hs.process
      apply h.put
      exact ⟨⟨log, by rw [hlog]⟩, .sleeping _ (hprograms i.program i.argv)⟩

/-- A request is answered in the same way. -/
theorem request (h : m.Annotates m') (hs : s.Annotates s')
    (hblind : ∀ name args, (programs name args).IsBlind) {p q : Prog ρ} (hp : p.Abreast q)
    (hl : s.life = .running p) (hl' : s'.life = .running q) :
    Option.Rel Annotates (m.move programs s) (m'.move programs s') := by
  simp only [Machine.move, hl, hl']
  cases q with
  | ret r =>
      obtain rfl := hp
      exact .none
  | exit how =>
      obtain rfl := hp
      exact .some (h.terminate hs _)
  | step act' next' =>
      obtain ⟨act, next, rfl, hnext⟩ := hp
      obtain ⟨hact, hnext⟩ := hnext _ _ (h.same hs)
      exact .some (h.resume hact hnext)
  | read fd count next' =>
      obtain ⟨next, rfl, hnext⟩ := hp
      exact h.answerRead hs fd count hnext
  | write fd data next' =>
      obtain ⟨next, rfl, hnext⟩ := hp
      exact h.answerWrite hs fd data hnext
  | fork child' next' =>
      obtain ⟨child, next, rfl, hchild, hnext⟩ := hp
      exact .some (h.answerFork hs hchild hnext)
  | wait child next' =>
      obtain ⟨next, rfl, hnext⟩ := hp
      exact h.answerWait hs child hnext
  | kill process signal next' =>
      obtain ⟨next, rfl, hnext⟩ := hp
      exact .some (h.answerKill hs process signal hnext)
  | sleep duration next' =>
      obtain ⟨next, rfl, hnext⟩ := hp
      rw [h.clock]
      exact .some (h.put (hs.goOn (.sleeping _ hnext)))
  | exec path argv next' =>
      obtain ⟨next, rfl, hnext⟩ := hp
      exact .some (h.answerExec hs hblind path argv hnext)

/-- Processes that do the same next both move or both wait. -/
theorem move (h : m.Annotates m') (hs : s.Annotates s')
    (hblind : ∀ name args, (programs name args).IsBlind) (hl : s.life.Abreast s'.life) :
    Option.Rel Annotates (m.move programs s) (m'.move programs s') := by
  generalize he : s.life = l, he' : s'.life = l' at hl
  cases hl with
  | running hp => exact h.request hs hblind hp he he'
  | sleeping wake hp =>
      simp only [Machine.move, he, he', h.clock]
      exact rel_ite (.some (h.proceed hs hp)) .none
  | ended how =>
      simp only [Machine.move, he, he']
      exact .none

/-- The first machine logs a line, and annotates the second as before. -/
theorem note (h : m.Annotates m') (hnodup : m.pids.Nodup) (hs : s ∈ m.slots)
    (hs' : s' ∈ m'.slots) (hann : s.Annotates s') {level : Level} {text : String} {p : Prog ρ}
    (hl : s.life = .running (.step (View.note level text) fun _ => p))
    (hp : (Life.running p).Annotates s'.life) :
    ∃ n, m.move programs s = some n ∧ n.Annotates m' ∧
      ∃ t ∈ n.slots, t.life = .running p ∧ t.Annotates s' := by
  let noted : Slot ρ := ⟨(View.note level text ⟨s.process, m.world⟩).process, .running p⟩
  have hmove : m.move programs s = some (m.put noted) := by
    simp only [Machine.move, hl]
    rfl
  have same : View.Same (View.note level text ⟨s.process, m.world⟩) ⟨s'.process, m'.world⟩ :=
    (View.Same.note _ level text).symm.trans (h.same hann)
  have hnoted : noted.Annotates s' := .of_same same hp
  exact ⟨_, hmove, h.put_left hnodup hs' hnoted, noted,
    List.mem_map.mpr ⟨s, hs, if_pos rfl⟩, rfl, hnoted⟩

end Annotates

end Machine

end LineShell.Posix
