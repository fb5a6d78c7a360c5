/-
Every run bears some answers out.

Nothing in a run comes to two things. A leaf is taken up once, and so is a
pipe. Of the processes that were started for one part of the tree there is
one (`Single.eq_of_part`): where a branch was started for a command, nobody
comes to that command on its walk. It is waited for once, because it is
gone then (`Watch.Reaped`). So what was done in a run can be read as a
function of positions (`Starts.answered`), and `Deed.shows` reads it off.
-/
import LineShell.Proofs.Launch.Start

namespace LineShell

open Posix

variable {ρ : Type} {result : Except ExecError Int → ρ}

-- ================================================================= answers

/-- The signal that killed a process. -/
def Ending.signal? : Ending → Option Int
  | exited _ => none
  | signaled n => some n

/-- What was done bears the answers out, where it is known for what each
child was started. -/
def Deed.shows (o : LineShell.Answers) (who : Child → Option Part) (d : Deed) : Bool :=
  match d.exchange with
  | .builtin q _ _ n => o.builtin q == n
  | .channel q r => o.channel q == (Exchange.channel q r).failure?
  | .wait child _ =>
      match who child, d.ending with
      | some (.program q), some how => o.program q == how
      | some (.branch q _), some how => o.killed q == how.signal?
      | _, _ => true
  | _ => true

/-- Where there are not two things for one position, there is a function. -/
theorem Position.exists_function {α : Type} [Nonempty α] {R : Position → α → Prop}
    (h : ∀ q x y, R q x → R q y → x = y) : ∃ f : Position → α, ∀ q x, R q x → f q = x :=
  ⟨fun q => Classical.epsilon (R q), fun q x hx => h q _ _ (Classical.epsilon_spec ⟨x, hx⟩) hx⟩

/-- Who is there after a move was there before, or is the next one. -/
theorem Posix.Machine.Sound.pid_before {m m' : Machine ρ} {s t' : Slot ρ} {programs : Installed ρ}
    (h : m.Sound) (hprograms : ∀ name args, (programs name args).Respects .onward)
    (hs : s ∈ m.slots) (hm : m.move programs s = some m') (ht' : t' ∈ m'.slots) :
    (∃ t ∈ m.slots, t.process.pid = t'.process.pid) ∨ t'.process.pid = m.nextPid := by
  rcases move_carries Frame.onward_fits hprograms (h.content s hs) hm with hc | ⟨child, next, -, rfl⟩
  · exact .inl (List.mem_map.mp (hc.pids.subset (List.mem_map_of_mem ht')))
  · rcases List.mem_append.mp ht' with ht' | ht'
    · rcases mem_put ht' with ⟨ht, -⟩ | rfl
      · exact .inl ⟨t', ht, rfl⟩
      · exact .inl ⟨s, hs, rfl⟩
    · obtain rfl := List.mem_singleton.mp ht'
      exact .inr rfl

-- =================================================================== parts

/-- Where a part stands. -/
def Part.site : Part → Position
  | .program q => q
  | .branch q _ => q

namespace Account

variable {root : Tree} {a b : Account} {s s' : Siting}

theorem part_site (a : Account) : a.part.site = a.site := by
  unfold part Tree.part
  split
  · split <;> rfl
  · rfl

/-- Who is there for a branch walks its tree. -/
theorem of_part_eq_branch {q : Position} {t : Tree} (h : a.part = .branch q t) :
    a.site = q ∧ a.tree = t ∧ a.walks = true := by
  unfold part Tree.part at h
  split at h
  · next hwalks =>
    split at h
    · cases h
    · cases h
      exact ⟨rfl, rfl, hwalks⟩
  · cases h

/-- A branch that is there for a program has one command for its tree. -/
theorem of_part_eq_program {q : Position} (h : a.part = .program q) (hwalks : a.walks = true) :
    a.tree.external?.isSome = true := by
  rw [part, if_pos hwalks, Tree.part] at h
  split at h
  · next hx => exact hx
  · cases h

theorem Fresh.landed (h : a.Fresh root) : a.Landed root {} := ⟨h.sited, fun _ => .inl h.site⟩

/-- A branch with one command for its tree takes no walk. -/
theorem unwalked_invariant : Account.Invariant
    (fun a => a.Begotten → a.tree.external?.isSome = true →
      (∀ rest, a.stage ≠ .walking rest) ∧ a.own = []) fun _ _ => True where
  meanwhile _ _ := trivial
  turn {a v a' v'} h _ hturn := by
    refine ⟨fun hbegotten hx => ?_, trivial⟩
    have kept : (∀ rest, a.stage ≠ .walking rest) ∧ a.own = [] := by
      rw [hturn.same] at hbegotten hx
      exact h hbegotten hx
    cases hturn with
    | wired hstage _ =>
        obtain ⟨c, hc⟩ := Option.isSome_iff_exists.mp hx
        have hprogram : a.onceWired = .program c := by
          rw [onceWired, show a.tree.external? = some c from hc]
        refine ⟨fun rest hrest => ?_, kept.2⟩
        rw [show a.onceWired = .walking rest from hrest] at hprogram
        cases hprogram
    | log hstage | builtin hstage | launch _ hstage | fork _ hstage | channel hstage
    | release hstage | wait _ hstage | leave hstage => exact absurd hstage (kept.1 _)
    | prepared _ _ hstage =>
        refine ⟨fun rest hrest => ?_, kept.2⟩
        rcases hstage with hstage | hstage
        · rw [hstage] at hrest
          cases hrest
        · rw [hstage] at hrest
          cases hrest
    | prepare | quit | away => exact ⟨(fun rest hrest => by cases hrest), kept.2⟩
  birth _ _ hc _ := by
    refine ⟨fun _ _ => ⟨fun rest hrest => ?_, (child_deeds hc).2⟩, trivial⟩
    unfold child? at hc
    split at hc <;> cases hc
    · cases hrest
    · cases hrest

/-- Who is started for a smaller tree is not started for the whole. -/
theorem Serves.begotten (h : a.Serves b) (ha : a.Sited root s) (hb : b.Sited root s') :
    b.Begotten := by
  intro hwalks hsite
  have hsmaller := h.smaller hwalks
  have hroot := hb.part
  rw [hsite, Tree.sub?_nil] at hroot
  cases hroot
  by_cases hnil : a.site = []
  · have hpart := ha.part
    rw [hnil, Tree.sub?_nil] at hpart
    rw [Option.some.inj hpart] at hsmaller
    exact absurd hsmaller (Nat.lt_irrefl _)
  · exact absurd (Tree.sizeOf_sub? ha.part hnil) (Nat.lt_asymm hsmaller)

end Account

namespace Watch

variable {root : Tree} {programs : Installed ρ} {w₀ w w' : Watch ρ} {s : Slot ρ} {m : Machine ρ}
  {p p' : Pid} {a a' : Account}

/-- For what each process was started. -/
def part (w : Watch ρ) (p : Pid) : Option Part := (w.accounts p).map Account.part

/-- All that was done bears the answers out. -/
def Shows (o : Answers) (who : Child → Option Part) (w : Watch ρ) : Prop :=
  ∀ p a, w.accounts p = some a → ∀ d ∈ a.own, d.shows o who = true

/-- All that was done bears the answers out, as a check. -/
def shows (o : Answers) (w : Watch ρ) : Bool :=
  (List.range w.machine.nextPid).all fun p =>
    (w.accounts p).all fun a => a.own.all fun d => d.shows o w.part

theorem of_shows {o : Answers} (hknown : ∀ p a, w.accounts p = some a → p < w.machine.nextPid)
    (h : w.shows o = true) : w.Shows o w.part := fun p a ha d hd => by
  have haccount := List.all_eq_true.mp h p (List.mem_range.mpr (hknown p a ha))
  rw [ha] at haccount
  exact List.all_eq_true.mp haccount d hd

section

variable (hproper : ∀ p a, w.accounts p = some a → a.Proper)
  (hlanded : ∀ p a, w.accounts p = some a → ∃ s, a.Landed root s)
  (hunwalked : ∀ p a, w.accounts p = some a → a.Begotten → a.tree.external?.isSome = true →
    a.own = [])
  (ha : w.accounts p = some a) (ha' : w.accounts p' = some a')
  (hbegotten : a.Begotten) (hbegotten' : a'.Begotten)
include hproper hlanded ha ha' hbegotten hbegotten'

/-- One command is not both the tree of a branch and started on a walk. -/
theorem Single.program_apart (h : w.Single) (hunwalked : a.own = []) (hw : a.walks = true)
    (hw' : a'.walks = false) : a.site ≠ a'.site := by
  intro hsite
  obtain ⟨q, b, hb, d, hd, hbegets⟩ := h.begotten ha' hbegotten'
  rw [Account.Begets, hw', if_neg Bool.false_ne_true] at hbegets
  obtain ⟨c, hx⟩ := hbegets
  obtain ⟨s, hla⟩ := hlanded p a ha
  obtain ⟨s', hlb⟩ := hlanded q b hb
  have hdirect : Direct root b.site a'.site := hlb.sited.acts hd (by rw [hx, Exchange.acts?])
  obtain ⟨r, side, op, hr, hop, hnot⟩ := (hla.walker hw).resolve_left (hbegotten hw)
  rw [← hsite, hr] at hdirect
  rcases List.prefix_concat_iff.mp hdirect.below with heq | hpre
  · -- that would be the branch itself
    obtain rfl := h.single hb ha ((hproper q b hb).walks_of_own hd) hw (heq.trans hr.symm)
    rw [ha] at hb
    cases hb
    rw [hunwalked] at hd
    cases hd
  · obtain ⟨op', hop', hseq⟩ := hdirect.sequel r side hpre List.prefix_rfl
    rw [hop] at hop'
    cases hop'
    rw [hnot] at hseq
    cases hseq

/-- A leaf is started on a walk once. -/
theorem Single.eq_of_launched (h : w.Single) (hw : a.walks = false) (hw' : a'.walks = false)
    (hsite : a.site = a'.site) : p = p' := by
  obtain ⟨q, b, hb, d, hd, hbegets⟩ := h.begotten ha hbegotten
  obtain ⟨q', b', hb', d', hd', hbegets'⟩ := h.begotten ha' hbegotten'
  rw [Account.Begets, hw, if_neg Bool.false_ne_true] at hbegets
  rw [Account.Begets, hw', if_neg Bool.false_ne_true, ← hsite] at hbegets'
  obtain ⟨c, hx⟩ := hbegets
  obtain ⟨c', hx'⟩ := hbegets'
  obtain rfl := h.once hproper hlanded hb hb' hd hd' (by rw [hx, Exchange.acts?])
    (by rw [hx', Exchange.acts?]) (by rw [hx, Exchange.asks?]) (by rw [hx', Exchange.asks?])
  rw [hx] at hx'
  cases hx'
  rfl

include hunwalked

/-- For one part of the tree there is one process. -/
theorem Single.eq_of_part (h : w.Single) (hpart : a.part = a'.part) : p = p' := by
  have hsite : a.site = a'.site := by
    rw [← a.part_site, ← a'.part_site, hpart]
  -- a branch for a program has done nothing
  have unwalked : ∀ {p : Pid} {a a' : Account}, w.accounts p = some a → a.Begotten →
      a.part = a'.part → a.walks = true → a'.walks = false → a.own = [] :=
    fun {p a a'} ha hbegotten hpart hw hw' => by
    refine hunwalked p a ha hbegotten (Account.of_part_eq_program (q := a'.site) ?_ hw)
    rw [hpart, Account.part, hw', if_neg Bool.false_ne_true]
  cases hw : a.walks with
  | true =>
      cases hw' : a'.walks with
      | true => exact h.single ha ha' hw hw' hsite
      | false =>
          exact absurd hsite (h.program_apart hproper hlanded ha ha' hbegotten hbegotten'
            (unwalked ha hbegotten hpart hw hw') hw hw')
  | false =>
      cases hw' : a'.walks with
      | true =>
          exact absurd hsite.symm (h.program_apart hproper hlanded ha' ha hbegotten' hbegotten
            (unwalked ha' hbegotten' hpart.symm hw' hw) hw' hw)
      | false =>
          exact h.eq_of_launched hproper hlanded ha ha' hbegotten hbegotten' hw hw' hsite

end

-- =================================================================== waits

/-- Children that were waited for were started for a part of the tree, and
are gone. Nobody was waited for twice. -/
structure Reaped (w : Watch ρ) : Prop where
  begotten : ∀ {p a d c r}, w.accounts p = some a → d ∈ a.own → d.exchange = .wait c r →
    ∃ b, w.accounts c = some b ∧ b.Begotten
  gone : ∀ {p a d c r}, w.accounts p = some a → d ∈ a.own → d.exchange = .wait c r →
    c < w.machine.nextPid ∧ ∀ t ∈ w.machine.slots, t.process.pid ≠ c
  once : ∀ {p p' a a' d d' c r r'}, w.accounts p = some a → w.accounts p' = some a' →
    d ∈ a.own → d' ∈ a'.own → d.exchange = .wait c r → d'.exchange = .wait c r' → d = d'

section

variable (hprograms : ∀ name args, (programs name args).Respects .onward)
include hprograms

theorem Reaped.moved {A : Account → Prop} {P : Account → View → Prop} (h : w.Reaped)
    (hw : w.Holds result A P) (hsited : ∀ p a, w.accounts p = some a → ∃ s, a.Sited root s)
    (hattended : w.Attended) (hs : s ∈ w.machine.slots)
    (hm : w.machine.move programs s = some m) : (w.moved s m).Reaped := by
  have halive := Machine.alive_of_move hm
  -- a wait was there before, or it is what was done last
  have waits : ∀ {p a d c r}, (w.moved s m).accounts p = some a → d ∈ a.own →
      d.exchange = .wait c r → (∃ b, w.accounts p = some b ∧ d ∈ b.own) ∨
      (p = s.process.pid ∧ (∃ own, a.own = own ++ [d]) ∧ (∃ how, w.machine.Dead c how) ∧
        (∃ b, w.accounts c = some b ∧ b.Begotten) ∧ ∀ t ∈ m.slots, t.process.pid ≠ c) := by
    intro p a d c r ha hd hx
    rcases accounts_moved ha with ⟨rfl, b, hb, rfl⟩ | ⟨-, -, b, -, hc⟩ | ⟨-, -, hb⟩
    · rcases b.own_after w.machine s with hown | ⟨rest, d', hstage, hanswers, hown⟩
      · exact .inl ⟨b, hb, hown ▸ hd⟩
      rw [hown] at hd
      rcases List.mem_append.mp hd with hd | hd
      · exact .inl ⟨b, hb, hd⟩
      obtain rfl := List.mem_singleton.mp hd
      cases hanswers with
      | builtin | launch | fork | channel | release => cases hx
      | @wait child next raw hraw =>
          cases hx
          obtain ⟨how, b', rfl, hdead, hb', hserves⟩ := hattended.waited hs halive hb hstage hraw
          obtain ⟨st, hsb⟩ := hsited _ b hb
          obtain ⟨st', hsb'⟩ := hsited _ b' hb'
          refine .inr ⟨rfl, ⟨b.own, hown⟩, ⟨how, hdead⟩, ⟨b', hb', hserves.begotten hsb hsb'⟩, ?_⟩
          have hl : s.life = .running ((Walk.wait c next).perform (b.finish result)) :=
            (hw.drives s hs halive b hb).todo _ (by simp only [Account.todo?, hstage])
          rw [Walk.perform_wait] at hl
          rw [Machine.move_wait hl, Machine.answerWait, hraw, Option.map_some] at hm
          cases hm
          intro t ht
          exact of_decide_eq_true (List.mem_filter.mp ht).2
    · rw [(Account.child_deeds hc).2] at hd
      cases hd
    · exact .inl ⟨a, hb, hd⟩
  have later : ∀ {c : Pid} {b : Account}, w.accounts c = some b → b.Begotten →
      ∃ b, (w.moved s m).accounts c = some b ∧ b.Begotten := fun hb hbegotten => by
    obtain ⟨b', hb', hcont, -⟩ := account_after (s := s) (m := m) hw.nextPid_new hb
    exact ⟨b', hb', hcont.begotten.mpr hbegotten⟩
  have bound : ∀ {c : Pid} {how : Ending}, w.machine.Dead c how → c < w.machine.nextPid := by
    rintro c how ⟨t, ht, rfl, -⟩
    exact (hw.sound.bounds t ht).2
  have hnext : w.machine.nextPid ≤ m.nextPid := hw.sound.move_nextPid hprograms hs hm
  -- who was waited for before is not there to be waited for now
  have apart : ∀ {p a d c r}, w.accounts p = some a → d ∈ a.own → d.exchange = .wait c r →
      ¬∃ how, w.machine.Dead c how := by
    rintro p a d c r ha hd hx ⟨how, t, ht, hpid, -⟩
    exact (h.gone ha hd hx).2 t ht hpid
  refine ⟨fun ha hd hx => ?_, fun ha hd hx => ?_, fun ha ha' hd hd' hx hx' => ?_⟩
  · rcases waits ha hd hx with ⟨b, hb, hd⟩ | ⟨-, -, -, ⟨b, hb, hbegotten⟩, -⟩
    · obtain ⟨b', hb', hbegotten⟩ := h.begotten hb hd hx
      exact later hb' hbegotten
    · exact later hb hbegotten
  · rcases waits ha hd hx with ⟨b, hb, hd⟩ | ⟨-, -, ⟨how, hdead⟩, -, hgone⟩
    · obtain ⟨hlt, hgone⟩ := h.gone hb hd hx
      refine ⟨Nat.lt_of_lt_of_le hlt hnext, fun t' ht' hpid => ?_⟩
      rcases hw.sound.pid_before hprograms hs hm ht' with ⟨t, ht, hpid'⟩ | hnew
      · exact hgone t ht (hpid'.trans hpid)
      · exact Nat.ne_of_lt hlt (hpid.symm.trans hnew)
    · exact ⟨Nat.lt_of_lt_of_le (bound hdead) hnext, hgone⟩
  · rcases waits ha hd hx with ⟨b, hb, hd⟩ | ⟨rfl, ⟨own, hlast⟩, hdead, -, -⟩ <;>
      rcases waits ha' hd' hx' with ⟨b', hb', hd'⟩ | ⟨rfl, ⟨own', hlast'⟩, hdead', -, -⟩
    · exact h.once hb hb' hd hd' hx hx'
    · exact absurd hdead' (apart hb hd hx)
    · exact absurd hdead (apart hb' hd' hx')
    · rw [ha] at ha'
      cases ha'
      rw [hlast] at hlast'
      exact List.singleton_inj.mp (List.append_inj' hlast' rfl).2

variable (hstart : w₀.Starts result root)
include hstart

-- ================================================================== starts

theorem Starts.landed (hrun : Run programs w₀ w) (ha : w.accounts p = some a) :
    ∃ s, a.Landed root s :=
  (hstart.holds hprograms hrun (Account.landed_invariant root) (fun _ h => ⟨{}, h.landed⟩)
    fun _ _ _ => trivial).all p a ha

/-- At one position stands one tree. -/
theorem Starts.tree_eq (hrun : Run programs w₀ w) {q : Position} {t t' : Tree}
    (h : w.part p = some (.branch q t)) (h' : w.part p' = some (.branch q t')) : t = t' := by
  obtain ⟨b, hb, hpart⟩ := Option.map_eq_some_iff.mp h
  obtain ⟨b', hb', hpart'⟩ := Option.map_eq_some_iff.mp h'
  obtain ⟨s, hl⟩ := hstart.landed hprograms hrun hb
  obtain ⟨s', hl'⟩ := hstart.landed hprograms hrun hb'
  obtain ⟨hsite, rfl, -⟩ := Account.of_part_eq_branch hpart
  obtain ⟨hsite', rfl, -⟩ := Account.of_part_eq_branch hpart'
  have htree := hl.sited.part
  rw [hsite, ← hsite', hl'.sited.part] at htree
  exact (Option.some.inj htree).symm

/-- A branch with one command for its tree does nothing itself. -/
theorem Starts.unwalked (hrun : Run programs w₀ w) (ha : w.accounts p = some a)
    (hbegotten : a.Begotten) (hx : a.tree.external?.isSome = true) : a.own = [] :=
  ((hstart.holds hprograms hrun Account.unwalked_invariant
    (fun _ h hbegotten => absurd h.site (hbegotten h.walks)) fun _ _ _ => trivial).all p a ha
      hbegotten hx).2

theorem Starts.single (hrun : Run programs w₀ w) : w.Single := by
  induction hrun with
  | refl =>
      refine ⟨fun ha ha' _ _ _ => ?_, fun ha hbegotten => ?_, fun ha d hd => ?_⟩
      · cases hstart
        rw [(accounts_alone ha).1, (accounts_alone ha').1]
      · obtain ⟨hfresh, -⟩ := hstart.running ha
        exact absurd hfresh.site (hbegotten hfresh.walks)
      · obtain ⟨hfresh, -⟩ := hstart.running ha
        rw [hfresh.inherited] at hd
        cases hd
  | tail hrun hstep ih =>
      have holds := hstart.equipped hprograms hrun
      exact ih.step holds.nextPid_new holds.proper (fun _ _ ha => hstart.landed hprograms hrun ha)
        hstep

theorem Starts.reaped (hrun : Run programs w₀ w) : w.Reaped := by
  have nothing : ∀ {p a} {d : Deed}, w₀.accounts p = some a → d ∉ a.own := fun ha hd => by
    obtain ⟨hfresh, -⟩ := hstart.running ha
    rw [hfresh.own] at hd
    cases hd
  induction hrun with
  | refl =>
      exact ⟨fun ha hd => absurd hd (nothing ha), fun ha hd => absurd hd (nothing ha),
        fun ha _ hd => absurd hd (nothing ha)⟩
  | tail hrun hstep ih =>
      have holds := hstart.equipped hprograms hrun
      cases hstep with
      | pass clock => exact ⟨ih.begotten, ih.gone, ih.once⟩
      | move hs hm =>
          exact ih.moved hprograms holds holds.all (hstart.attended hprograms hrun) hs hm

-- ================================================================= answers

/-- Two deeds that ask for the same from the same place are one. -/
theorem Starts.once (hrun : Run programs w₀ w) (ha : w.accounts p = some a)
    (ha' : w.accounts p' = some a') {d d' : Deed} (hd : d ∈ a.own) (hd' : d' ∈ a'.own)
    {u q : Position} (hacts : d.exchange.acts? = some u) (hacts' : d'.exchange.acts? = some u)
    (hasks : d.exchange.asks? = some q) (hasks' : d'.exchange.asks? = some q) : d = d' :=
  (hstart.single hprograms hrun).once (hstart.equipped hprograms hrun).proper
    (fun _ _ ha => hstart.landed hprograms hrun ha) ha ha' hd hd' hacts hacts' hasks hasks'

/-- Two waits for children that were started for one part are one. -/
theorem Starts.wait_once (hrun : Run programs w₀ w) (ha : w.accounts p = some a)
    (ha' : w.accounts p' = some a') {d d' : Deed} (hd : d ∈ a.own) (hd' : d' ∈ a'.own)
    {c c' : Child} {r r' : Except ExecError Ending} (hx : d.exchange = .wait c r)
    (hx' : d'.exchange = .wait c' r') (hpart : w.part c = w.part c') : d = d' := by
  have holds := hstart.equipped hprograms hrun
  have reaped := hstart.reaped hprograms hrun
  obtain ⟨b, hb, hbegotten⟩ := reaped.begotten ha hd hx
  obtain ⟨b', hb', hbegotten'⟩ := reaped.begotten ha' hd' hx'
  rw [Watch.part, Watch.part, hb, hb', Option.map_some, Option.map_some] at hpart
  obtain rfl := (hstart.single hprograms hrun).eq_of_part holds.proper
    (fun p a ha => hstart.landed hprograms hrun ha)
    (fun p a ha => hstart.unwalked hprograms hrun ha) hb hb' hbegotten hbegotten'
    (Option.some.inj hpart)
  exact reaped.once ha ha' hd hd' hx hx'

/-- Every run bears some answers out. -/
theorem Starts.answered (hrun : Run programs w₀ w) : ∃ o, w.Shows o w.part := by
  obtain ⟨builtin, hbuiltin⟩ := Position.exists_function (R := fun q n => ∃ p a d b c,
      w.accounts p = some a ∧ d ∈ a.own ∧ d.exchange = .builtin q b c n) <| by
    rintro q n n' ⟨p, a, d, b, c, ha, hd, hx⟩ ⟨p', a', d', b', c', ha', hd', hx'⟩
    obtain rfl := hstart.once hprograms hrun ha ha' hd hd' (by rw [hx, Exchange.acts?])
      (by rw [hx', Exchange.acts?]) (by rw [hx, Exchange.asks?]) (by rw [hx', Exchange.asks?])
    rw [hx] at hx'
    cases hx'
    rfl
  obtain ⟨channel, hchannel⟩ := Position.exists_function (R := fun q e => ∃ p a d r,
      w.accounts p = some a ∧ d ∈ a.own ∧ d.exchange = .channel q r ∧
        (Exchange.channel q r).failure? = e) <| by
    rintro q e e' ⟨p, a, d, r, ha, hd, hx, rfl⟩ ⟨p', a', d', r', ha', hd', hx', rfl⟩
    obtain rfl := hstart.once hprograms hrun ha ha' hd hd' (by rw [hx, Exchange.acts?])
      (by rw [hx', Exchange.acts?]) (by rw [hx, Exchange.asks?]) (by rw [hx', Exchange.asks?])
    rw [hx] at hx'
    cases hx'
    rfl
  obtain ⟨program, hprogram⟩ := Position.exists_function (R := fun q how => ∃ p a d c r,
      w.accounts p = some a ∧ d ∈ a.own ∧ d.exchange = .wait c r ∧
        w.part c = some (.program q) ∧ d.ending = some how) <| by
    rintro q how how' ⟨p, a, d, c, r, ha, hd, hx, hpart, hending⟩
      ⟨p', a', d', c', r', ha', hd', hx', hpart', hending'⟩
    obtain rfl := hstart.wait_once hprograms hrun ha ha' hd hd' hx hx' (hpart.trans hpart'.symm)
    rw [hending] at hending'
    exact Option.some.inj hending'
  obtain ⟨killed, hkilled⟩ := Position.exists_function (R := fun q n => ∃ p a d c r t how,
      w.accounts p = some a ∧ d ∈ a.own ∧ d.exchange = .wait c r ∧
        w.part c = some (.branch q t) ∧ d.ending = some how ∧ how.signal? = n) <| by
    rintro q n n' ⟨p, a, d, c, r, t, how, ha, hd, hx, hpart, hending, rfl⟩
      ⟨p', a', d', c', r', t', how', ha', hd', hx', hpart', hending', rfl⟩
    obtain rfl : t = t' := hstart.tree_eq hprograms hrun hpart hpart'
    obtain rfl := hstart.wait_once hprograms hrun ha ha' hd hd' hx hx' (hpart.trans hpart'.symm)
    rw [hending] at hending'
    cases hending'
    rfl
  refine ⟨⟨builtin, program, channel, killed⟩, fun p a ha d hd => ?_⟩
  unfold Deed.shows
  cases hx : d.exchange with
  | builtin q b c n => exact beq_iff_eq.mpr (hbuiltin q n ⟨p, a, d, b, c, ha, hd, hx⟩)
  | channel q r => exact beq_iff_eq.mpr (hchannel q _ ⟨p, a, d, r, ha, hd, hx, rfl⟩)
  | launch | fork | release => rfl
  | wait c r =>
      simp only
      split
      · next q how hpart hending =>
        exact beq_iff_eq.mpr (hprogram q how ⟨p, a, d, c, r, ha, hd, hx, hpart, hending⟩)
      · next q t how hpart hending =>
        exact beq_iff_eq.mpr
          (hkilled q _ ⟨p, a, d, c, r, t, how, ha, hd, hx, hpart, hending, rfl⟩)
      · rfl

end

end Watch

end LineShell
