/-
What a process has done, request by request.

# Events

An event is a request that a process has made, with what it saw and the
answer. `Prog.Asks` says which program makes the request, and with what it
goes on; `Prog.Event.Sound` is what the machine vouches for in the answer. Only
the requests are told that a process makes which acts for itself, writes,
looks for another program, and exits (`Prog.Exits`). What one move of such
a process comes to is its `Fate`: one more event, another program, or its
end.

# Traces

`Prog.Makes` puts events in a row: the program can have done all that, and
be left with that program. A task comes by events to a value, or to some
request, if that is so whatever is done with the value (`Task.Leads`,
`Task.Gives`). Of a task that only looks, its events can be told from those
after it (`Task.Looks`): either it is over, and what was done splits into
what the task did, which gave its value, and the rest; or it is under way,
about to look further. That is had for single looks and for what is put
together of them, so it can be read off the text of a task.
-/
import LineShell.Proofs.Posix.Ended

namespace LineShell.Posix

variable {ρ α β : Type} {S : Int → Prop}

-- ================================================================== events

/-- A request of a process that was answered. -/
inductive Prog.Event where
  /-- The process acted, by which its view came to be another. -/
  | acted (v v' : View)
  /-- So many bytes of some data were taken. -/
  | wrote (v : View) (fd : Fd) (data : Bytes) (taken : Nat) (v' : View)
  /-- Nothing of it was taken. -/
  | unwritten (v : View) (fd : Fd) (data : Bytes) (cause : Errno)
  /-- The file at a path was not run. -/
  | refused (v : View) (path : Bytes) (argv : List Bytes) (cause : Errno)

/-- What a file comes to that is to be run by a process. -/
def View.image (v : View) (path : Bytes) (argv : List Bytes) : Except Errno Machine.Image :=
  Machine.image v.world.tree v.held v.process.cwd Machine.scriptDepth path
    (if argv.isEmpty then [[]] else argv)

namespace Prog.Event

/-- What the process saw when it made the request. -/
def before : Event → View
  | acted v _ | wrote v _ _ _ _ | unwritten v _ _ _ | refused v _ _ _ => v

/-- What it saw when it was answered. -/
def after : Event → View
  | acted _ v' | wrote _ _ _ _ v' => v'
  | unwritten v _ _ _ | refused v _ _ _ => v

/-- The answer is one that the machine gives. -/
def Sound : Event → Prop
  | acted _ _ => True
  | wrote v fd data taken v' =>
      (data ≠ [] → 0 < taken) ∧ (Call.writeNow fd (data.take taken)).attempt v = (.ok (), v')
  | unwritten v fd data cause =>
      cause = .EPIPE ∨ (Call.writeNow fd data).attempt v = (.error cause, v)
  | refused v path argv cause => v.image path argv = .error cause

end Prog.Event

/-- The program makes the request, and with the answer goes on as another. -/
inductive Prog.Asks : Prog ρ → Event → Prog ρ → Prop where
  | acted {act : View → View} {next : View → Prog ρ} (v : View) :
      Asks (.step act next) (.acted v (act v)) (next v)
  | wrote {fd : Fd} {data : Bytes} {next : Except Errno Nat → Prog ρ} (v v' : View) (taken : Nat) :
      Asks (.write fd data next) (.wrote v fd data taken v') (next (.ok taken))
  | unwritten {fd : Fd} {data : Bytes} {next : Except Errno Nat → Prog ρ} (v : View)
      (cause : Errno) : Asks (.write fd data next) (.unwritten v fd data cause) (next (.error cause))
  | refused {path : Bytes} {argv : List Bytes} {next : Errno → Prog ρ} (v : View) (cause : Errno) :
      Asks (.exec path argv next) (.refused v path argv cause) (next cause)

/-- With each answer there is less to do. -/
theorem Prog.acc_asks (todo : Prog ρ) : Acc (fun todo' todo => ∃ y, todo.Asks y todo') todo := by
  induction todo with
  | ret | exit | read | fork | wait | kill | sleep => exact ⟨_, fun _ ⟨_, h⟩ => by cases h⟩
  | step act next ih | write fd data next ih | exec path argv next ih =>
      refine ⟨_, fun _ ⟨_, h⟩ => ?_⟩
      cases h <;> exact ih _

-- ================================================================= exiting

/-- The program acts for itself, writes, looks for another program, and exits
with one of these codes. -/
def Prog.Exits (S : Int → Prop) : Prog ρ → Prop
  | .exit how => ∃ c, how = .exited c ∧ S c
  | .step _ next => ∀ v, (next v).Exits S
  | .write _ _ next => ∀ r, (next r).Exits S
  | .exec _ _ next => ∀ e, (next e).Exits S
  | _ => False

/-- It remains one with every answer. -/
theorem Prog.Exits.asks {p q : Prog ρ} {y : Prog.Event} (h : p.Exits S) (ha : p.Asks y q) :
    q.Exits S := by
  cases ha with
  | acted v => exact h _
  | wrote v v' taken => exact h _
  | unwritten v cause => exact h _
  | refused v cause => exact h _

namespace Machine

variable {m m' : Machine ρ} {s t' : Slot ρ} {programs : Installed ρ}

/-- The process is answered, and goes on with that. -/
structure Goes (m : Machine ρ) (s : Slot ρ) (todo : Prog ρ) (y : Prog.Event) (next : Prog ρ)
    (m' : Machine ρ) : Prop where
  asks : todo.Asks y next
  sound : y.Sound
  before : y.before = ⟨s.process, m.world⟩
  after : ∃ t' ∈ m'.slots, t'.process.pid = s.process.pid ∧ t'.life = .running next ∧
    y.after.Meanwhile ⟨t'.process, m'.world⟩

/-- A process whose program has been replaced, and which has not begun with
the other one. -/
def loaded (programs : Installed ρ) (m : Machine ρ) (s : Slot ρ) (i : Image) : Slot ρ where
  process := { s.process with fds := s.process.fds.afterExec, caught := [], pending := [] }
  life := .sleeping (m.clock + loadTime) (programs i.program i.argv)

theorem move_exec {path : Bytes} {argv : List Bytes} {next : Errno → Prog ρ} {i : Image}
    (hl : s.life = .running (.exec path argv next))
    (hi : View.image ⟨s.process, m.world⟩ path argv = .ok i) :
    m.move programs s = some (m.put (m.loaded programs s i)) := by
  simp only [move, hl, answerExec]
  rw [show image _ _ _ _ _ _ = _ from hi]
  rfl

/-- What a move of a process comes to, by what it was about to do. -/
inductive Fate (programs : Installed ρ) (m : Machine ρ) (s : Slot ρ) : Prog ρ → Machine ρ → Prop where
  | goes {todo next : Prog ρ} {y : Prog.Event} {m' : Machine ρ} :
      m.Goes s todo y next m' → Fate programs m s todo m'
  | loads {path : Bytes} {argv : List Bytes} {next : Errno → Prog ρ} {i : Image} :
      View.image ⟨s.process, m.world⟩ path argv = .ok i →
      Fate programs m s (.exec path argv next) (m.put (m.loaded programs s i))
  | exits {code : Int} :
      Fate programs m s (.exit (.exited code)) (m.terminate s (.exited (code % 256)))
  | broken {fd : Fd} {data : Bytes} {next : Except Errno Nat → Prog ρ} : m.Unread s fd →
      s.process.ignored.contains Signal.pipe = false →
      Fate programs m s (.write fd data next) (m.terminate s (.signaled Signal.pipe))

theorem fate_of_move {todo : Prog ρ} (hs : s ∈ m.slots) (hl : s.life = .running todo)
    (h : todo.Exits S) (hkeeps : todo.Respects .onward) (hm : m.move programs s = some m') :
    Fate programs m s todo m' := by
  -- the process goes on with another view
  have resumed {v : View} {next : Prog ρ} {y : Prog.Event} (hv : v.process.pid = s.process.pid)
      (ha : todo.Asks y next) (hy : y.Sound) (hb : y.before = ⟨s.process, m.world⟩)
      (he : y.after = v) : Fate programs m s todo (m.resume s v next) :=
    .goes ⟨ha, hy, hb, _, mem_put_self (m := { m with world := v.world }) hs hv, hv, rfl,
      by rw [he]; exact .refl v⟩
  cases moved_of_move hm with
  | woken hl' _ => cases hl.symm.trans hl'
  | exited hl' =>
      cases hl.symm.trans hl'
      obtain ⟨code, rfl, -⟩ := h
      exact .exits
  | acted hl' =>
      cases hl.symm.trans hl'
      exact resumed (hkeeps.1 _).pid (.acted ⟨s.process, m.world⟩) trivial rfl rfl
  | @wrote fd data next _ hl' hwrote =>
      cases hl.symm.trans hl'
      cases hwrote with
      | taken n v hn hv =>
          have kept := (Call.writeNow_outward fd (data.take n)).of_attempt hv
          exact resumed (congrArg Process.pid kept.process) (.wrote _ v n) ⟨hn, hv⟩ rfl rfl
      | refused e he => exact resumed rfl (.unwritten _ e) (.inr he) rfl rfl
      | ignored _ _ => exact resumed rfl (.unwritten _ _) (.inl rfl) rfl rfl
      | caught _ _ =>
          refine .goes ⟨.unwritten ⟨s.process, m.world⟩ _, .inl rfl, rfl, _,
            List.mem_map_of_mem (mem_put_self hs rfl), ?_⟩
          simp only [if_true]
          exact ⟨trivial, trivial, ⟨rfl, .refl _⟩⟩
      | killed hunread hignored => exact .broken hunread hignored
  | @refused _ _ _ e hl' he =>
      cases hl.symm.trans hl'
      exact resumed rfl (.refused ⟨s.process, m.world⟩ e) he rfl rfl
  | loaded hl' hi =>
      cases hl.symm.trans hl'
      exact .loads hi
  | read _ _ hl' _ | forked hl' | unwaited _ hl' _ | waited _ _ hl' _ | sent hl' _ | slept hl' =>
      cases hl.symm.trans hl'
      exact h.elim

/-- Such a program is still one after a move, as long as no other is found. -/
theorem exits_of_move {todo : Prog ρ} (hsound : m.Sound) (hs : s ∈ m.slots)
    (hl : s.life = .running todo) (h : todo.Exits S) (hprograms : ∀ name args, (programs name args).Respects .onward)
    (hm : m.move programs s = some m') (hload : m.loads s = false) (ht' : t' ∈ m'.slots)
    (hp : t'.process.pid = s.process.pid) :
    (∃ todo', t'.life = .running todo' ∧ todo'.Exits S) ∨ ∃ how, t'.life = .ended how := by
  have hkeeps := hsound.content s hs
  rw [hl] at hkeeps
  cases fate_of_move hs hl h hkeeps hm with
  | goes hgoes =>
      obtain ⟨u, hu, hup, hlife, -⟩ := hgoes.after
      obtain rfl := (hsound.move hs hprograms hm).eq_of_pid ht' hu (hp.trans hup.symm)
      exact .inl ⟨_, hlife, h.asks hgoes.asks⟩
  | loads hi =>
      simp only [loads, hl] at hload
      rw [show image _ _ _ _ _ _ = _ from hi] at hload
      cases hload
  | exits => exact .inr ⟨_, mem_terminate_self ht' hp⟩
  | broken _ _ => exact .inr ⟨_, mem_terminate_self ht' hp⟩

end Machine

-- ================================================================== traces

/-- Of each request the process saw what it had come to see by the one before,
but for what others did meanwhile. -/
inductive Prog.Event.Linked : View → List Event → View → Prop where
  | nil {v v' : View} : v.Meanwhile v' → Linked v [] v'
  | cons {v v' : View} {y : Event} {ys : List Event} : v.Meanwhile y.before →
      Linked y.after ys v' → Linked v (y :: ys) v'

namespace Prog.Event.Linked

variable {v v' v'' : View} {y : Event} {ys : List Event}

theorem meanwhile (h : Linked v ys v') (h' : v'.Meanwhile v'') : Linked v ys v'' := by
  induction h with
  | nil hv => exact .nil (hv.trans h')
  | cons hv _ ih => exact .cons hv (ih h')

theorem snoc (h : Linked v ys y.before) (h' : y.after.Meanwhile v') : Linked v (ys ++ [y]) v' := by
  generalize hu : y.before = u at h
  induction h with
  | nil hv => exact .cons (hu ▸ hv) (.nil h')
  | cons hv _ ih => exact .cons hv (ih hu)

end Prog.Event.Linked

/-- The program can have been answered like that, in turn, and be left with
that program. -/
inductive Prog.Makes : Prog ρ → List Event → Prog ρ → Prop where
  | nil (p : Prog ρ) : Makes p [] p
  | cons {p q r : Prog ρ} {y : Event} {ys : List Event} :
      p.Asks y q → Makes q ys r → Makes p (y :: ys) r

namespace Prog.Makes

variable {p q r : Prog ρ} {y : Event} {xs ys : List Event}

theorem append (h : p.Makes xs q) (h' : q.Makes ys r) : p.Makes (xs ++ ys) r := by
  induction h with
  | nil => exact h'
  | cons ha _ ih => exact .cons ha (ih h')

theorem snoc (h : p.Makes xs q) (ha : q.Asks y r) : p.Makes (xs ++ [y]) r :=
  h.append (.cons ha (.nil r))

end Prog.Makes

theorem Prog.Makes.of_step {act : View → View} {next : View → Prog ρ} {ys : List Event} {q : Prog ρ}
    (h : (Prog.step act next).Makes ys q) : (ys = [] ∧ q = .step act next) ∨
      ∃ v zs, ys = .acted v (act v) :: zs ∧ (next v).Makes zs q := by
  cases h with
  | nil => exact .inl ⟨rfl, rfl⟩
  | cons ha hrest =>
      cases ha with
      | acted v => exact .inr ⟨v, _, rfl, hrest⟩

theorem Prog.Makes.of_exit {how : Ending} {ys : List Event} {q : Prog ρ}
    (h : (Prog.exit how : Prog ρ).Makes ys q) : ys = [] ∧ q = .exit how := by
  cases h with
  | nil => exact ⟨rfl, rfl⟩
  | cons ha _ => cases ha

theorem Prog.Exits.makes {p q : Prog ρ} {ys : List Prog.Event} (h : p.Exits S)
    (hm : p.Makes ys q) : q.Exits S := by
  induction hm with
  | nil => exact h
  | cons ha _ ih => exact ih (h.asks ha)

/-- The event left the process with what it saw. -/
def Prog.Event.Idle (y : Event) : Prop := y.after = y.before

/-- Idle events leave the process as it is, and so does what others do. -/
theorem Prog.Event.Linked.idle {v v' : View} {ys : List Event} (h : Linked v ys v')
    (hidle : ∀ y ∈ ys, y.Idle) : v.Meanwhile v' := by
  induction h with
  | nil hv => exact hv
  | @cons v v' y ys hv _ ih =>
      obtain ⟨hy, hys⟩ := List.forall_mem_cons.mp hidle
      exact hv.trans (hy ▸ ih hys)

theorem Prog.Event.Linked.append {v v' : View} {xs ys : List Event} (h : Linked v (xs ++ ys) v') :
    ∃ u, Linked v xs u ∧ Linked u ys v' := by
  induction xs generalizing v with
  | nil => exact ⟨v, .nil (.refl v), h⟩
  | cons x xs ih =>
      cases h with
      | cons hv hrest =>
          obtain ⟨u, hxs, hys⟩ := ih hrest
          exact ⟨u, .cons hv hxs, hys⟩

namespace Task

/-- By these events the task comes to be left with that, whatever is done
with its value. -/
def Leads (t : Task ρ α) (ys : List Prog.Event) (q : Task ρ α) : Prop :=
  ∀ k : α → Prog ρ, (t k).Makes ys (q k)

/-- By these events the task comes to the value. -/
def Gives (t : Task ρ α) (ys : List Prog.Event) (a : α) : Prop := t.Leads ys (pure a)

/-- A task that is at a request to act or to look for another program. -/
inductive AtLook : Task ρ α → Prop
  | act (act : View → View) (next : (α → Prog ρ) → View → Prog ρ) :
      AtLook fun k => .step act (next k)
  | exec (path : Bytes) (argv : List Bytes) (next : (α → Prog ρ) → Errno → Prog ρ) :
      AtLook fun k => .exec path argv (next k)

/-- The task only looks at things and for another program: after any events
it is over, or about to look further. -/
def Looks (t : Task ρ α) : Prop :=
  ∀ (k : α → Prog ρ) ys q, (t k).Makes ys q →
    (∃ xs zs a, ys = xs ++ zs ∧ t.Gives xs a ∧ (∀ y ∈ xs, y.Idle) ∧ (k a).Makes zs q) ∨
      ∃ q' : Task ρ α, q = q' k ∧ q'.AtLook ∧ t.Leads ys q' ∧ ∀ y ∈ ys, y.Idle

theorem gives_pure (a : α) : Gives (pure a : Task ρ α) [] a := fun k => .nil (k a)

theorem Gives.bind {t : Task ρ α} {f : α → Task ρ β} {xs ys : List Prog.Event} {a : α} {q : Task ρ β}
    (ht : t.Gives xs a) (hf : (f a).Leads ys q) : (t >>= f).Leads (xs ++ ys) q :=
  fun k => (ht fun a => f a k).append (hf k)

theorem looks_pure (a : α) : Looks (pure a : Task ρ α) :=
  fun _ ys _ h => .inl ⟨[], ys, a, rfl, gives_pure a, nofun, h⟩

theorem AtLook.bind {q : Task ρ α} (h : q.AtLook) (f : α → Task ρ β) : (q >>= f).AtLook := by
  cases h with
  | act act next => exact .act act fun k => next fun a => f a k
  | exec path argv next => exact .exec path argv fun k => next fun a => f a k

theorem Looks.bind {t : Task ρ α} {f : α → Task ρ β} (ht : t.Looks) (hf : ∀ a, (f a).Looks) :
    (t >>= f).Looks := by
  intro k ys q h
  rcases ht (fun a => f a k) ys q h with
    ⟨xs, zs, a, rfl, hgives, hidle, hrest⟩ | ⟨q', rfl, hq', hleads, hidle⟩
  · rcases hf a k zs q hrest with
      ⟨xs', zs', b, rfl, hgives', hidle', hrest'⟩ | ⟨q', rfl, hq', hleads, hidle'⟩
    · exact .inl ⟨xs ++ xs', zs', b, (List.append_assoc ..).symm, hgives.bind hgives',
        List.forall_mem_append.mpr ⟨hidle, hidle'⟩, hrest'⟩
    · exact .inr ⟨q', rfl, hq', hgives.bind hleads, List.forall_mem_append.mpr ⟨hidle, hidle'⟩⟩
  · exact .inr ⟨q' >>= f, rfl, hq'.bind f, fun k' => hleads _, hidle⟩

/-- One look, and its answer. -/
theorem AtLook.looks {t : Task ρ α} (ht : t.AtLook)
    (hasks : ∀ (k : α → Prog ρ) y q, (t k).Asks y q →
      ∃ a, q = k a ∧ y.Idle ∧ ∀ k' : α → Prog ρ, (t k').Asks y (k' a)) : t.Looks := by
  intro k ys q h
  generalize hp : t k = p at h
  cases h with
  | nil => exact .inr ⟨t, hp.symm, ht, fun k' => .nil _, nofun⟩
  | cons ha hrest =>
      subst hp
      obtain ⟨a, rfl, hidle, hall⟩ := hasks k _ _ ha
      exact .inl ⟨[_], _, a, rfl, fun k' => .cons (hall k') (.nil _),
        List.forall_mem_singleton.mpr hidle, hrest⟩

theorem looks_view (f : View → α) : Looks (view f : Task ρ α) :=
  AtLook.looks (.act id fun k v => k (f v)) fun k y q h => by
    cases h with
    | acted v => exact ⟨f v, rfl, rfl, fun k' => .acted v⟩

theorem looks_exec (path : Bytes) (argv : List Bytes) : Looks (exec path argv : Task ρ Errno) :=
  AtLook.looks (.exec path argv fun k => k) fun k y q h => by
    cases h with
    | refused v cause => exact ⟨cause, rfl, rfl, fun k' => .refused v cause⟩

end Task

end LineShell.Posix
