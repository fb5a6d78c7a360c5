/-
Every run takes the course of the tree.

# Builtins that end processes

A builtin is about to end a process (`Watch.Leaving`) for one moment only,
the move before its last. So which builtins did so is a matter of the run
and not of the watch it leads to: `LeavingRun` is a run in which they do so
only at given positions. What was done in it bears a course out
(`Borne`), if the course has the same positions, and the answers are those
that were given.

# One induction

Three things have to be shown together: that what was done concurs with the
course (`Concurred`), that the branches exit with what it foretells
(`Foretold`), and that it has no result where a builtin is about to end a
process (`Cut`). What a wait is told is how a branch ended before; the code
of a branch is the result of the walk that was told so; and a branch that a
builtin ends exits with the zero that counts for no result.

Along with it goes what was started: whoever is done has taken up, together
with its branches, all the external commands that the course reaches. Nobody
ever takes up another (`Starts.within_of_concurred`).
-/
import LineShell.Proofs.Launch.Answered
import LineShell.Proofs.Walk.Course

namespace LineShell

open Posix

variable {ρ : Type} {result : Except ExecError Int → ρ}

/-- What a wait is told of a child that ended. -/
theorem Walk.waitAnswer_ok (p : Pid) (how : Ending) : waitAnswer (.ok (p, how)) = told how := by
  cases how <;> rfl

namespace Account

variable {a : Account} {m : Machine ρ} {s : Slot ρ} {q : Position}

/-- Only a builtin that was asked for on the walk ends the process. -/
theorem of_after_leaving (h : (a.after m s).stage = .leaving q) :
    ∃ b c next, a.stage = .walking (.builtin q b c next) ∧
      (b.run c ⟨s.process, m.world⟩).1 = .leave := by
  cases hstage : a.stage with
  | wiring p w =>
      simp only [after, hstage] at h
      split at h
      · cases h
      · simp only [onceWired] at h
        split at h <;> cases h
  | program c | loaded c | leaving q | quitting | away =>
      simp only [after, hstage] at h
      cases h
  | preparing c =>
      simp only [after, hstage] at h
      split at h
      · cases h
      · rw [hstage] at h
        cases h
  | walking rest =>
      simp only [after, hstage] at h
      cases rest with
      | done n | failed e | log level text next => cases h
      | launch q c next | fork q t d p w branch next | channel q next | release ch next => cases h
      | wait child next =>
          simp only [walked] at h
          split at h
          · rw [hstage] at h
            cases h
          · cases h
      | builtin q' b c next =>
          simp only [walked] at h
          split at h
          · cases h
          · next hleave =>
            cases h
            exact ⟨b, c, next, rfl, hleave⟩

/-- A walk after which there is nothing to do is over. -/
theorem result?_of_after_quitting {rest : Walk} (hstage : a.stage = .walking rest)
    (h : (a.after m s).stage = .quitting) : ∃ r, rest.result? = some r := by
  simp only [after, hstage] at h
  cases rest with
  | done n => exact ⟨_, rfl⟩
  | failed e => exact ⟨_, rfl⟩
  | log | launch | fork | channel | release => cases h
  | builtin q b c next =>
      simp only [walked] at h
      split at h <;> cases h
  | wait child next =>
      simp only [walked] at h
      split at h
      · rw [hstage] at h
        cases h
      · cases h

/-- Nobody is started at such a stage. -/
theorem child_not_leaving {b : Account} (hc : a.child? = some b) : b.stage ≠ .leaving q := by
  unfold child? at hc
  split at hc
  · cases hc
    nofun
  · cases hc
    nofun
  · cases hc

variable {o : Course} {who : Child → Option Part} {taken within : Position → Prop} {claim : Prop}
  {Q : Prop → Except ExecError Int → Prop} {st : Prop}

/-- If all that was done concurs, so does the state. -/
theorem Stands.concurs (h : a.Stands (coursing o who taken claim within) True Q st)
    (hconcurs : ∀ d ∈ a.own, d.exchange.Concurs o who taken) : st := by
  refine coursing_leads h.led trivial fun x hx => ?_
  obtain ⟨d, hd, rfl⟩ := List.mem_map.mp hx
  exact hconcurs d hd

/-- If all that was done concurs, what was started is within bounds. -/
theorem Stands.bounds (h : a.Stands (coursing o who taken claim within) True Q st)
    (hconcurs : ∀ d ∈ a.own, d.exchange.Concurs o who taken) {d : Deed} (hd : d ∈ a.own)
    {u : Position} (hu : u ∈ d.exchange.reaches o) : within u := by
  refine coursing_within h.led trivial (fun x hx => ?_) _ (List.mem_map_of_mem hd) u hu
  obtain ⟨d, hd, rfl⟩ := List.mem_map.mp hx
  exact hconcurs d hd

/-- The external command that the process was started for. The shell, of which
the tree may be one, was not. -/
def program? (a : Account) : Option Position :=
  if a.isShell then none
  else
    match a.part with
    | .program q => some q
    | .branch _ _ => none

theorem Continues.program? {b : Account} (h : a.Continues b) : b.program? = a.program? := by
  unfold Account.program?
  rw [h.part, h.same]

theorem program?_eq_some : a.program? = some q ↔ a.isShell = false ∧ a.part = .program q := by
  unfold program?
  cases a.isShell with
  | true => exact ⟨nofun, fun h => Bool.noConfusion h.1⟩
  | false =>
      cases a.part with
      | program q' => simp
      | branch q' t => simp

end Account

namespace Watch

variable {root : Tree} {programs : Installed ρ} {w₀ w w' : Watch ρ} {s : Slot ρ} {m : Machine ρ}
  {p : Pid} {a : Account} {o : Course} {who : Child → Option Part} {taken : Position → Prop}
  {there : Position → Prop}

-- ================================================================= leaving

/-- A builtin at the position is about to end a process. -/
def Leaving (w : Watch ρ) (p : Pid) (q : Position) : Prop :=
  w.machine.Lives p ∧ ∃ a, w.accounts p = some a ∧ a.stage = .leaving q

/-- A run in which builtins end processes only at such positions. -/
def LeavingRun (programs : Installed ρ) (there : Position → Prop) : Watch ρ → Watch ρ → Prop :=
  Relation.ReflTransGen fun w w' => Step programs w w' ∧ ∀ p q, w'.Leaving p q → there q

theorem LeavingRun.run (h : LeavingRun programs there w₀ w) : Run programs w₀ w := by
  induction h with
  | refl => exact .refl
  | tail _ hstep ih => exact ih.tail hstep.1

theorem Starts.not_leaving (h : w₀.Starts result root) {q : Position} : ¬w₀.Leaving p q := by
  rintro ⟨-, a, ha, hstage⟩
  obtain ⟨hfresh, -⟩ := h.running ha
  rcases hfresh.stage with ⟨op, hfirst⟩ | hfirst <;>
  · rw [hfirst] at hstage
    cases hstage

theorem LeavingRun.leaving (h : LeavingRun programs there w₀ w) (hstart : w₀.Starts result root)
    {q : Position} (hleaving : w.Leaving p q) : there q := by
  cases h with
  | refl => exact absurd hleaving hstart.not_leaving
  | tail _ hstep => exact hstep.2 p q hleaving

-- ============================================================ looking back

/-- A process was started for the external command. -/
def Taken (w : Watch ρ) (q : Position) : Prop :=
  ∃ p a, w.accounts p = some a ∧ a.program? = some q

/-- It is known for what each process was started, and which external commands
are taken up. -/
structure Known (who : Child → Option Part) (taken : Position → Prop) (w : Watch ρ) : Prop where
  part : ∀ p a, w.accounts p = some a → who p = some a.part
  taken : ∀ q, w.Taken q → taken q

theorem known_part (w : Watch ρ) : w.Known w.part w.Taken where
  part p a ha := by rw [part, ha, Option.map_some]
  taken _ h := h

/-- Accounts go on. -/
theorem Step.continues (h : Step programs w w') (hnew : w.accounts w.machine.nextPid = none)
    (ha : w.accounts p = some a) : ∃ b, w'.accounts p = some b ∧ a.Continues b := by
  cases h with
  | pass clock => exact ⟨a, ha, .refl a⟩
  | move hs hm =>
      obtain ⟨b, hb, hcont, -⟩ := account_after hnew ha
      exact ⟨b, hb, hcont⟩

/-- What is known later was so before. -/
theorem Known.before (h : w'.Known who taken) (hstep : Step programs w w')
    (hnew : w.accounts w.machine.nextPid = none) : w.Known who taken where
  part p a ha := by
    obtain ⟨b, hb, hcont⟩ := hstep.continues hnew ha
    rw [h.part p b hb, hcont.part]
  taken q := by
    rintro ⟨p, a, ha, hprogram⟩
    obtain ⟨b, hb, hcont⟩ := hstep.continues hnew ha
    exact h.taken q ⟨p, b, hb, hcont.program?.trans hprogram⟩

/-- What was done bears the course out, where it is known for what each
child was started. -/
structure Borne (o : Course) (who : Child → Option Part) (w : Watch ρ) : Prop where
  shows : w.Shows o.toAnswers who
  stays : ∀ p a, w.accounts p = some a → ∀ d ∈ a.own, ∀ q b c n,
    d.exchange = .builtin q b c n → o.leaves q = false

theorem Borne.before (h : w'.Borne o who) (hstep : Step programs w w')
    (hnew : w.accounts w.machine.nextPid = none) : w.Borne o who where
  shows p a ha d hd := by
    obtain ⟨b, hb, hcont⟩ := hstep.continues hnew ha
    exact h.shows p b hb d (hcont.own.subset hd)
  stays p a ha d hd := by
    obtain ⟨b, hb, hcont⟩ := hstep.continues hnew ha
    exact h.stays p b hb d (hcont.own.subset hd)

-- ================================================================= courses

/-- All that was done concurs with the course. -/
def Concurred (o : Course) (who : Child → Option Part) (taken : Position → Prop) (w : Watch ρ) :
    Prop :=
  ∀ p a, w.accounts p = some a → ∀ d ∈ a.own, d.exchange.Concurs o who taken

/-- The course of a tree has no result where a builtin is about to end the
process, and what it reaches is taken up. -/
def Cut (o : Course) (taken : Position → Prop) (w : Watch ρ) : Prop :=
  ∀ p a q, w.machine.Lives p → w.accounts p = some a → a.stage = .leaving q →
    a.tree.course o a.site = none ∧ o.Full taken (a.tree.reaches o a.site)

/-- A branch exits with what the course of its tree has for it, and everybody
with a status. What the course reaches is taken up then. -/
def Foretold (o : Course) (who : Child → Option Part) (taken : Position → Prop) (p : Pid)
    (code : Int) : Prop :=
  IsStatus code ∧ ∀ q t, who p = some (.branch q t) →
    code = exitCode ((t.course o q).getD (.ok 0)) ∧ o.Full taken (t.reaches o q)

/-- A child that was waited for ended as foretold. -/
theorem ending_of_shows {child : Child} {how : Ending} {d : Deed} {r : Except ExecError Ending}
    (hx : d.exchange = .wait child r) (hending : d.ending = some how)
    (hshows : d.shows o.toAnswers who = true)
    (hcode : ∀ code, how = .exited code → Foretold o who taken child code) (x : Part)
    (hwho : who child = some x) (htaken : ∀ q, x = .program q → taken q) :
    how = x.comesTo o ∧ o.Full taken (x.reaches o) := by
  simp only [Deed.shows, hx, hwho, hending] at hshows
  cases x with
  | program q =>
      refine ⟨(beq_iff_eq.mp hshows).symm, fun _ u hu => ?_⟩
      rw [List.mem_singleton.mp hu]
      exact htaken q rfl
  | branch q t =>
      have hkilled : o.killed q = how.signal? := beq_iff_eq.mp hshows
      cases how with
      | exited code =>
          obtain ⟨-, hcourse⟩ := hcode code rfl
          obtain ⟨hcode, hfull⟩ := hcourse q t hwho
          refine ⟨?_, hfull⟩
          simp only [Part.comesTo, hkilled, Ending.signal?, hcode]
      | signaled n =>
          refine ⟨by simp only [Part.comesTo, hkilled, Ending.signal?], fun hspared => ?_⟩
          rw [hspared q] at hkilled
          cases hkilled

/-- What is done more concurs as well. -/
theorem Concurred.moved (h : w.Concurred o who taken)
    (hdeparting : w.Departing (Foretold o who taken)) (hattended : w.Attended)
    (hs : s ∈ w.machine.slots) (halive : s.alive) (hne : w.machine.nextPid ≠ s.process.pid)
    (hbefore : w.Known who taken) (hknown : (w.moved s m).Known who taken)
    (hborne : (w.moved s m).Borne o who) : (w.moved s m).Concurred o who taken := by
  intro p a ha d hd
  have shown := hborne.shows p a ha d hd
  rcases accounts_moved ha with ⟨rfl, b, hb, rfl⟩ | ⟨-, -, b, -, hc⟩ | ⟨-, -, hb⟩
  · rcases b.own_after w.machine s with hown | ⟨rest, d', hstage, hanswers, hown⟩
    · exact h _ b hb d (hown ▸ hd)
    have hmem := hd
    rw [hown] at hmem
    rcases List.mem_append.mp hmem with hmem | hmem
    · exact h _ b hb d hmem
    obtain rfl := List.mem_singleton.mp hmem
    have started : ∀ c, b.child? = some c → who w.machine.nextPid = some c.part := fun c hc => by
      refine hknown.part w.machine.nextPid c ?_
      show (if _ then _ else _) = _
      rw [if_neg hne, if_pos rfl, hb, Option.bind_some, hc]
    cases hanswers with
    | builtin => exact ⟨hborne.stays _ _ ha _ hd _ _ _ _ rfl, beq_iff_eq.mp shown⟩
    | launch =>
        have hchild := started _ (by rw [Account.child?, hstage])
        exact ⟨_, rfl, hchild⟩
    | fork =>
        have hchild := started _ (by rw [Account.child?, hstage])
        exact ⟨_, rfl, hchild⟩
    | channel => exact beq_iff_eq.mp shown
    | release => trivial
    | @wait child next raw hraw =>
        obtain ⟨how, b', rfl, hdead, hb', hserves⟩ := hattended.waited hs halive hb hstage hraw
        intro x hwho
        obtain ⟨hending, hfull⟩ := ending_of_shows rfl rfl shown
          (fun code hcode => hdeparting.dead child b' code hb' (hcode ▸ hdead)) x hwho
          fun q hx => by
            rw [hbefore.part child b' hb', Option.some.injEq] at hwho
            exact hbefore.taken q
              ⟨child, b', hb', Account.program?_eq_some.mpr ⟨hserves.shell, hwho.trans hx⟩⟩
        refine ⟨?_, hfull⟩
        rw [Walk.waitAnswer_ok, ← hending]
  · rw [(Account.child_deeds hc).2] at hd
    cases hd
  · exact h p a hb d hd

/-- The start of a process is that of what the process takes up. -/
theorem Concurred.reaches_of_begets (h : w.Concurred o w.part taken) (ha : w.accounts p = some a)
    {p' : Pid} {b : Account} (hb : w.accounts p' = some b) {d : Deed} (hd : d ∈ b.own)
    (hbegets : a.Begets d.exchange p) : d.exchange.reaches o = a.part.reaches o := by
  have hconcurs := h p' b hb d hd
  have hpart : w.part p = some a.part := w.known_part.part p a ha
  unfold Account.Begets at hbegets
  split at hbegets
  · obtain ⟨t, depth, op, wiring, hx⟩ := hbegets
    rw [hx] at hconcurs ⊢
    obtain ⟨child, hchild, hwho⟩ := hconcurs
    cases hchild
    rw [hpart, Option.some.injEq] at hwho
    rw [hwho, Part.reaches_part]
    rfl
  · next hw =>
    obtain ⟨c, hx⟩ := hbegets
    rw [hx, Account.part, if_neg hw]
    rfl

section

variable (hprograms : ∀ name args, (programs name args).Respects .onward)
  (hstart : w₀.Starts result root)
include hprograms hstart

/-- The account that there was first goes on. -/
theorem Starts.continues (hrun : Run programs w₀ w) (ha : w₀.accounts p = some a) :
    ∃ b, w.accounts p = some b ∧ a.Continues b := by
  induction hrun with
  | refl => exact ⟨a, ha, .refl a⟩
  | tail hrun hstep ih =>
      obtain ⟨b, hb, hcont⟩ := ih
      have holds := hstart.equipped hprograms hrun
      obtain ⟨c, hc, hcont'⟩ := hstep.continues holds.nextPid_new hb
      exact ⟨c, hc, hcont.trans hcont'⟩

/-- Everybody keeps to the course of its own tree. -/
theorem Starts.coursed (o : Course) (who : Child → Option Part) (taken : Position → Prop)
    (hrun : Run programs w₀ w) (ha : w.accounts p = some a) :
    ∃ st, a.Stands (coursing o who taken
        (a.tree.course o a.site = none ∧ o.Full taken (a.tree.reaches o a.site))
        (· ∈ a.tree.reaches o a.site)) True (Walk.Runs o taken True a.tree a.site) st :=
  hstart.stands hprograms hrun
    (C := fun a => coursing o who taken
      (a.tree.course o a.site = none ∧ o.Full taken (a.tree.reaches o a.site))
      (· ∈ a.tree.reaches o a.site))
    (Q := fun a => Walk.Runs o taken True a.tree a.site)
    (fun a => Walk.course_execute o who taken _ a.tree a.depth a.parent a.site True _
      (fun _ _ hu => hu) fun _ => And.intro)
    (fun _ _ _ => rfl) (fun _ _ _ => rfl) ha

/-- Where all concurs, walks come to the results of courses. -/
theorem Starts.result_of_concurred (hrun : Run programs w₀ w) (h : w.Concurred o who taken)
    (ha : w.accounts p = some a) {rest : Walk} (hstage : a.stage = .walking rest)
    {r : Except ExecError Int} (hr : rest.result? = some r) :
    a.tree.course o a.site = some r ∧ o.Full taken (a.tree.reaches o a.site) := by
  obtain ⟨st, hstands⟩ := hstart.coursed hprograms o who taken hrun ha
  exact (hstands.result hstage hr).2 (hstands.concurs (h p a ha))

/-- Where all concurs, everybody starts only what the course reaches. -/
theorem Starts.within_of_concurred (hrun : Run programs w₀ w) (h : w.Concurred o who taken)
    (ha : w.accounts p = some a) {d : Deed} (hd : d ∈ a.own) {u : Position}
    (hu : u ∈ d.exchange.reaches o) : u ∈ a.tree.reaches o a.site := by
  obtain ⟨st, hstands⟩ := hstart.coursed hprograms o who taken hrun ha
  exact hstands.bounds (h p a ha) hd hu

/-- Where all concurs, whoever takes a walk starts, together with its branches,
only what the course of the whole tree reaches. The induction is on the site:
somebody above started the branch. -/
theorem Starts.reaches_within (hrun : Run programs w₀ w) (h : w.Concurred o w.part taken)
    (ha : w.accounts p = some a) (hw : a.walks = true) :
    a.tree.reaches o a.site ⊆ root.reaches o [] := by
  have holds := hstart.equipped hprograms hrun
  induction hlength : a.site.length using Nat.strongRecOn generalizing p a with
  | ind length ih =>
      obtain ⟨st, hlanded⟩ := hstart.landed hprograms hrun ha
      by_cases hsite : a.site = []
      · have htree := hlanded.sited.part
        rw [hsite, Tree.sub?_nil] at htree
        rw [hsite, Option.some.inj htree]
        exact List.Subset.refl _
      obtain ⟨p', b, hb, d, hd, hbegets⟩ :=
        (hstart.single hprograms hrun).begotten ha fun _ => hsite
      have hstarts := h.reaches_of_begets ha hb hd hbegets
      rw [Account.part, if_pos hw, Part.reaches_part] at hstarts
      rw [Account.Begets, if_pos hw] at hbegets
      obtain ⟨_, _, _, _, hx⟩ := hbegets
      obtain ⟨st', hlanded'⟩ := hstart.landed hprograms hrun hb
      have habove := hlanded'.sited.acts hd (q := a.site.dropLast) (by rw [hx]; rfl)
      have hlt : a.site.dropLast.length < a.site.length := by
        rw [List.length_dropLast]
        exact Nat.sub_one_lt fun hzero => hsite (List.length_eq_zero_iff.mp hzero)
      refine List.Subset.trans (fun u hu => ?_) (ih b.site.length
        (hlength ▸ Nat.lt_of_le_of_lt habove.below.length_le hlt) hb
        ((holds.proper p' b hb).walks_of_own hd) rfl)
      exact hstart.within_of_concurred hprograms hrun h hb hd (hstarts ▸ hu)

/-- Where all concurs, only what the course reaches is taken up. -/
theorem Starts.taken_within (hrun : Run programs w₀ w) (h : w.Concurred o w.part taken)
    (ha : w.accounts p = some a) (hbegotten : a.Begotten) {q : Position}
    (hpart : a.part = .program q) : q ∈ root.reaches o [] := by
  have holds := hstart.equipped hprograms hrun
  obtain ⟨p', b, hb, d, hd, hbegets⟩ := (hstart.single hprograms hrun).begotten ha hbegotten
  refine hstart.reaches_within hprograms hrun h hb ((holds.proper p' b hb).walks_of_own hd) ?_
  refine hstart.within_of_concurred hprograms hrun h hb hd ?_
  rw [h.reaches_of_begets ha hb hd hbegets, hpart]
  exact List.mem_singleton_self q

/-- Where all concurs, a builtin is asked for that ends the process only where
the course has no result. -/
theorem Starts.cut_of_concurred (hrun : Run programs w₀ w) (h : w.Concurred o who taken)
    (ha : w.accounts p = some a) {q : Position} {b : Builtin} {c : Command} {next : Int → Walk}
    (hstage : a.stage = .walking (.builtin q b c next)) (hq : o.leaves q = true) :
    a.tree.course o a.site = none ∧ o.Full taken (a.tree.reaches o a.site) := by
  obtain ⟨st, hstands⟩ := hstart.coursed hprograms o who taken hrun ha
  obtain ⟨_, ⟨-, hclaim, -⟩, -⟩ := hstands.rest hstage 0
  exact hclaim hq (hstands.concurs (h p a ha))

/-- Where all concurs, everybody exits as foretold. -/
theorem Starts.yields_foretold (hrun : Run programs w₀ w) (hknown : w.Known who taken)
    (h : w.Concurred o who taken) (hcut : w.Cut o taken) (hs : s ∈ w.machine.slots)
    (halive : s.alive) (ha : w.accounts s.process.pid = some a) :
    a.Yields (Foretold o who taken s.process.pid) ⟨s.process, w.machine.world⟩ := by
  have holds := hstart.equipped hprograms hrun
  obtain ⟨-, hranged⟩ := hstart.ranged hprograms hrun
  have own : ∀ {q t}, who s.process.pid = some (.branch q t) → a.site = q ∧ a.tree = t := by
    intro q t hwho
    rw [hknown.part _ a ha] at hwho
    obtain ⟨hsite, htree, -⟩ := Account.of_part_eq_branch (Option.some.inj hwho)
    exact ⟨hsite, htree⟩
  refine ⟨fun rest r hstage hshell hr => ⟨?_, fun q t hwho => ?_⟩, fun o w e hstage herror => ?_,
    fun q hstage => ⟨by constructor <;> decide, fun q' t hwho => ?_⟩,
    fun hprogram code hcode => ⟨hcode, fun q t hwho => ?_⟩⟩
  · exact (hstart.yields_status hprograms hrun hranged ha ⟨s.process, w.machine.world⟩).result
      rest r hstage hshell hr
  · obtain ⟨rfl, rfl⟩ := own hwho
    obtain ⟨hcourse, hfull⟩ := hstart.result_of_concurred hprograms hrun h ha hstage hr
    rw [hcourse]
    exact ⟨rfl, hfull⟩
  · -- no branch fails to wire its streams
    obtain ⟨st, -, hequipped⟩ := holds.living s hs halive a ha
    rw [hequipped.wired (v := ⟨s.process, _⟩) hstage] at herror
    cases herror
  · obtain ⟨rfl, rfl⟩ := own hwho
    obtain ⟨hcourse, hfull⟩ := hcut _ a q ⟨s, hs, rfl, halive⟩ ha hstage
    rw [hcourse]
    exact ⟨rfl, hfull⟩
  · rw [hknown.part _ a ha, hstart.part hprograms hrun ha hprogram] at hwho
    cases hwho

variable (hleaves : ∀ q, there q → o.leaves q = true)
include hleaves

/-- A builtin that was asked for where the course has no result ends the
process. -/
theorem Starts.cut_moved (hrun : Run programs w₀ w) (h : w.Concurred o who taken)
    (hcut : w.Cut o taken) (hs : s ∈ w.machine.slots) (hm : w.machine.move programs s = some m)
    (hthere : ∀ p q, (w.moved s m).Leaving p q → there q) : (w.moved s m).Cut o taken := by
  intro p a q hlives ha hstage
  have holds := hstart.equipped hprograms hrun
  rcases accounts_moved ha with ⟨rfl, b, hb, rfl⟩ | ⟨-, -, b, -, hc⟩ | ⟨hp, hn, hb⟩
  · obtain ⟨b', c, next, hwalking, -⟩ := Account.of_after_leaving hstage
    have hq := hleaves q (hthere _ q ⟨hlives, _, ha, hstage⟩)
    have cut := hstart.cut_of_concurred hprograms hrun h hb hwalking hq
    rw [b.after_same]
    exact cut
  · exact absurd hstage (Account.child_not_leaving hc)
  · obtain ⟨t', ht', rfl, halive⟩ := hlives
    obtain ⟨t, ht, hut⟩ := holds.sound.move_others hprograms hs hm ht' hp hn halive
    refine hcut _ a q ⟨t, ht, hut.pid.symm, ?_⟩ hb hstage
    exact hut.alive ▸ halive

/-- A run that bears a course out takes it: all that was done concurs with the
course, branches exit as foretold, and builtins end processes where the
course has no result. -/
theorem Starts.takes_course (hrun : LeavingRun programs there w₀ w) (hknown : w.Known who taken)
    (hborne : w.Borne o who) :
    w.Departing (Foretold o who taken) ∧ w.Concurred o who taken ∧ w.Cut o taken := by
  induction hrun with
  | refl =>
      refine ⟨hstart.departing _, fun p a ha d hd => ?_, fun p a q hlives ha hstage => ?_⟩
      · obtain ⟨hfresh, -⟩ := hstart.running ha
        rw [hfresh.own] at hd
        cases hd
      · exact absurd ⟨hlives, a, ha, hstage⟩ hstart.not_leaving
  | tail hrun hstep ih =>
      have holds := hstart.equipped hprograms (LeavingRun.run hrun)
      have hbefore := hknown.before hstep.1 holds.nextPid_new
      obtain ⟨hdeparting, hconcurred, hcut⟩ := ih hbefore (hborne.before hstep.1 holds.nextPid_new)
      obtain ⟨hstep, hthere⟩ := hstep
      cases hstep with
      | pass clock => exact ⟨⟨hdeparting.living, hdeparting.dead⟩, hconcurred, hcut⟩
      | @move s m hs hm =>
          have halive := Machine.alive_of_move hm
          refine ⟨hdeparting.moved hprograms (fun _ _ h => h.1) holds hs hm fun a ha =>
              hstart.yields_foretold hprograms (LeavingRun.run hrun) hbefore hconcurred hcut hs
                halive ha,
            hconcurred.moved hdeparting (hstart.attended hprograms (LeavingRun.run hrun)) hs halive
              (Nat.ne_of_gt (holds.sound.bounds s hs).2) hbefore hknown hborne,
            hstart.cut_moved hprograms hleaves (LeavingRun.run hrun) hconcurred hcut hs hm hthere⟩

end

end Watch

end LineShell
