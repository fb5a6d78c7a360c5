/-
No part of a tree is taken up twice in a run.

Two processes that act directly below their sites meet nowhere: if both
act at one position, one site is above the other, and then the operator
below which the lower process was started lies between, where the upper
one does not go on (`Landed.site_eq`). A process asks for nothing twice,
so by induction over the run no branch is started twice
(`Watch.Single.moved`), and nothing is done twice (`Watch.Single.once`): no
leaf is taken up again, and no pipe has more than one channel
(`Watch.channel_once`). The ends of channels are open files of their own,
since no open file is ever taken back (`Watch.ends_apart`).
-/
import Mathlib.Data.List.Pairwise
import LineShell.Proofs.Launch.Place

namespace LineShell

open Posix

variable {ρ : Type}

-- ================================================================= channels

/-- The deed made a channel for the pipe at a position. -/
def Deed.Makes (d : Deed) (p : Position) : Prop := ∃ ch, d.exchange = .channel p (.ok ch)

/-- The open file that is the end for a side of the channel that the deed
made: the right side reads, and the left side writes. -/
def Deed.endFor (d : Deed) : Side → Nat
  | .left => d.view.world.files.size + 1
  | .right => d.view.world.files.size

-- ================================================================= walkers

namespace Account

variable {root : Tree} {a a' b : Account} {s s' : Siting} {v v' : View}

/-- Whoever takes a walk stands at the root, or below a `|` or `&`. -/
structure Landed (root : Tree) (a : Account) (s : Siting) : Prop where
  sited : a.Sited root s
  walker : a.walks = true → a.site = [] ∨
    ∃ r side op, a.site = r ++ [side] ∧ root.op? r = some op ∧ op.isSequel = false

/-- Only the shell takes a walk at the root. -/
structure Placed (root : Tree) (a : Account) (s : Siting) : Prop extends Landed root a s where
  shell : a.isShell = true → a.site = []
  below : a.isShell = false → a.parent.isSome = true → a.site ≠ []

/-- A branch stands below a `|` or `&`. -/
theorem Placed.branch (h : a.Placed root s) (hshell : a.isShell = false)
    (hparent : a.parent.isSome = true) :
    ∃ r side op, a.site = r ++ [side] ∧ root.op? r = some op ∧ op.isSequel = false :=
  (h.walker (by rw [walks, hparent, Bool.or_true])).resolve_left (h.below hshell hparent)

theorem Turn.landed (h : a.Turn v a' v') (ha : a.Landed root s) : ∃ s', a'.Landed root s' := by
  obtain ⟨s', hs', -⟩ := h.sited ha.sited
  refine ⟨s', hs', ?_⟩
  rw [h.same]
  exact ha.walker

theorem Landed.child (ha : a.Landed root s) (hc : a.child? = some b) : b.Landed root {} := by
  obtain ⟨hsited, hstarts⟩ := ha.sited.starts hc
  refine ⟨hsited, fun hwalks => ?_⟩
  cases hstarts with
  | program hstage =>
      unfold child? at hc
      split at hc <;> cases hc
      · cases hwalks
      · cases hstage
  | branch _ hsite hop hnot => exact .inr ⟨_, _, _, hsite, hop, hnot⟩

theorem landed_invariant (root : Tree) :
    Account.Invariant (fun a => ∃ s, a.Landed root s) fun _ _ => True where
  meanwhile _ _ := trivial
  turn h _ hturn := by
    obtain ⟨s, h⟩ := h
    exact ⟨hturn.landed h, trivial⟩
  birth h _ hc _ := by
    obtain ⟨s, h⟩ := h
    exact ⟨⟨_, h.child hc⟩, trivial⟩

theorem Turn.placed (h : a.Turn v a' v') (hp : a.Placed root s) : ∃ s', a'.Placed root s' := by
  obtain ⟨s', hs'⟩ := h.landed hp.toLanded
  refine ⟨s', hs', ?_, ?_⟩
  · rw [h.same]
    exact hp.shell
  · rw [h.same]
    exact hp.below

theorem Placed.child (hp : a.Placed root s) (hc : a.child? = some b) : b.Placed root {} := by
  refine ⟨hp.toLanded.child hc, fun hshell => ?_, fun _ hparent => ?_⟩
  · rw [child_isShell hc] at hshell
    cases hshell
  · cases (hp.sited.starts hc).2 with
    | program hstage =>
        unfold child? at hc
        split at hc <;> cases hc
        · cases hparent
        · cases hstage
    | branch _ hsite =>
        rw [hsite]
        exact List.append_ne_nil_of_right_ne_nil _ (List.cons_ne_nil _ _)

theorem placed_invariant (root : Tree) :
    Account.Invariant (fun a => ∃ s, a.Placed root s) fun a _ => ∃ s, a.Placed root s where
  meanwhile h _ := h
  turn h _ hturn := by
    obtain ⟨s, h⟩ := h
    exact ⟨hturn.placed h, hturn.placed h⟩
  birth h _ hc _ := by
    obtain ⟨s, h⟩ := h
    exact ⟨⟨_, h.child hc⟩, ⟨_, h.child hc⟩⟩

/-- Processes that act directly below their sites at one position have one
site. -/
theorem Landed.site_eq (ha : a.Landed root s) (hb : b.Landed root s') (hwa : a.walks = true)
    (hwb : b.walks = true) {q : Position} (hqa : Direct root a.site q)
    (hqb : Direct root b.site q) : a.site = b.site := by
  -- the lower of two sites is below an operator where the upper process does not go on
  have above : ∀ {a b : Account} {s : Siting}, b.Landed root s → b.walks = true →
      Direct root a.site q → Direct root b.site q → a.site <+: b.site → a.site = b.site := by
    intro a b s hb hwb hqa hqb hpre
    rcases hb.walker hwb with hroot | ⟨r, side, op, hsite, hop, hnot⟩
    · rw [hroot] at hpre ⊢
      exact List.prefix_nil.mp hpre
    · rw [hsite] at hpre ⊢
      rcases List.prefix_concat_iff.mp hpre with heq | hpre
      · exact heq
      · obtain ⟨op', hop', hseq⟩ := hqa.sequel r side hpre (hsite ▸ hqb.below)
        rw [hop] at hop'
        cases hop'
        rw [hnot] at hseq
        cases hseq
  rcases List.prefix_or_prefix_of_prefix hqa.below hqb.below with hpre | hpre
  · exact above hb hwb hqa hqb hpre
  · exact (above ha hwa hqb hqa hpre).symm

/-- A process acts directly below its site. -/
theorem Sited.acts (h : a.Sited root s) {d : Deed} (hd : d ∈ a.own) {q : Position}
    (hq : d.exchange.acts? = some q) : Direct root a.site q := by
  obtain ⟨t, t', hx⟩ := h.allowed hd
  cases he : d.exchange with
  | builtin q' | launch q' =>
      rw [he] at hx hq
      cases hq
      exact hx.2.2.2.1
  | channel q' =>
      rw [he] at hx hq
      cases hq
      exact hx.2.2.2.1
  | fork q' =>
      rw [he] at hx hq
      cases hq
      obtain ⟨-, -, -, u, side, rfl, -, -, hdirect, -⟩ := hx
      rw [List.dropLast_concat]
      exact hdirect
  | release | wait =>
      rw [he] at hq
      cases hq

/-- A process asks for nothing twice. -/
theorem Sited.asks_nodup (h : a.Sited root s) :
    (a.own.filterMap fun d => d.exchange.asks?).Nodup := by
  obtain ⟨hused, hnodup⟩ := siting_used h.stands.led List.nodup_nil
  rw [hused, List.filterMap_map] at hnodup
  simpa using hnodup

/-- The account of the same process, later on. -/
structure Continues (a a' : Account) : Prop where
  same : a' = { a with own := a'.own, stage := a'.stage }
  own : a.own <+: a'.own

theorem Continues.refl (a : Account) : a.Continues a := ⟨rfl, List.prefix_rfl⟩

theorem Continues.trans {a a' a'' : Account} (h : a.Continues a') (h' : a'.Continues a'') :
    a.Continues a'' := by
  refine ⟨?_, h.own.trans h'.own⟩
  rw [h'.same, h.same]

theorem Continues.site (h : a.Continues a') : a'.site = a.site := by
  rw [h.same]

theorem Continues.walks (h : a.Continues a') : a'.walks = a.walks := by
  rw [h.same]
  rfl

theorem continues_after (a : Account) (m : Machine ρ) (s : Slot ρ) : a.Continues (a.after m s) where
  same := a.after_same m s
  own := by
    rcases a.own_after m s with hown | ⟨_, d, _, _, hown⟩
    · exact hown ▸ List.prefix_rfl
    · exact hown ▸ List.prefix_append a.own [d]

/-- The process is not the one that a run begins with: if it takes a walk,
then below the root. -/
def Begotten (a : Account) : Prop := a.walks = true → a.site ≠ []

theorem Continues.begotten (h : a.Continues a') : a'.Begotten ↔ a.Begotten := by
  rw [Begotten, Begotten, h.walks, h.site]

/-- The exchange was the start of the process of this account, by its
number. -/
def Begets (x : Exchange) (b : Account) (p : Pid) : Prop :=
  if b.walks then ∃ t depth o w, x = .fork b.site t depth o w (.ok p)
  else ∃ c, x = .launch b.site c (.ok p)

theorem Begets.asks {x : Exchange} {p : Pid} (h : b.Begets x p) : x.asks? = some b.site := by
  unfold Begets at h
  split at h
  · obtain ⟨t, depth, o, w, rfl⟩ := h
    rfl
  · obtain ⟨c, rfl⟩ := h
    rfl

theorem Continues.begets {x : Exchange} {p : Pid} (h : a.Continues a') (ha : a.Begets x p) :
    a'.Begets x p := by
  rwa [Begets, h.site, h.walks]

/-- The process that starts another has just done so. -/
theorem after_begets (hc : a.child? = some b) (m : Machine ρ) (s : Slot ρ) :
    ∃ d, (a.after m s).own = a.own ++ [d] ∧ b.Begets d.exchange m.nextPid := by
  unfold child? at hc
  split at hc
  · next hstage =>
    cases hc
    simp only [after, hstage, walked]
    exact ⟨_, rfl, _, rfl⟩
  · next hstage =>
    cases hc
    simp only [after, hstage, walked]
    exact ⟨_, rfl, _, _, _, _, rfl⟩
  · cases hc

/-- A channel that was just made has two new open files for its ends. -/
theorem made_after {programs : Installed ρ} {result : Except ExecError Int → ρ} {m m' : Machine ρ}
    {s : Slot ρ} (hd : a.Drives result s) (hm : m.move programs s = some m') {d : Deed}
    (hmem : d ∈ (a.after m s).own) {q : Position} (hmakes : d.Makes q) :
    d ∈ a.own ∨ ((a.after m s).own = a.own ++ [d] ∧ d.view.world = m.world ∧
      m.world.files.size + 2 ≤ m'.world.files.size) := by
  rcases a.own_after m s with hown | ⟨rest, d', hstage, hanswers, hown⟩
  · exact .inl (hown ▸ hmem)
  rw [hown] at hmem ⊢
  rcases List.mem_append.mp hmem with hmem | hmem
  · exact .inl hmem
  obtain rfl := List.mem_singleton.mp hmem
  refine .inr ⟨rfl, ?_⟩
  obtain ⟨ch, hx⟩ := hmakes
  cases hanswers with
  | builtin | launch | fork | release | wait => cases hx
  | @channel q' next =>
      refine ⟨rfl, ?_⟩
      have hl : s.life = .running ((Walk.channel q' next).perform (a.finish result)) :=
        hd.todo _ (by simp only [todo?, hstage])
      rw [Walk.perform_channel] at hl
      rw [Machine.move_step hl] at hm
      cases hm
      rcases Call.pipe_spec ⟨s.process, m.world⟩ with
        ⟨e, he⟩ | ⟨r, w, v', hv', -, -, -, -, -, hwrite⟩
      · simp only [he] at hx
        cases hx
      · refine Nat.succ_le_of_lt (Nat.lt_of_not_le fun hle => ?_)
        rw [← Array.getElem?_eq_none_iff] at hle
        rw [show (m.resume s _ _).world = v'.world from by rw [hv']; rfl] at hle
        rw [hle] at hwrite
        cases hwrite

end Account

-- ================================================================ watching

namespace Watch

variable {programs : Installed ρ} {result : Except ExecError Int → ρ} {root : Tree}
  {w w' : Watch ρ} {s : Slot ρ} {m : Machine ρ}

/-- One site, one process that takes a walk there. All processes but the
first were started by some other one, and what ancestors did is the doing of
some process of the run. -/
structure Single (w : Watch ρ) : Prop where
  single : ∀ {p p' a a'}, w.accounts p = some a → w.accounts p' = some a' → a.walks = true →
    a'.walks = true → a.site = a'.site → p = p'
  begotten : ∀ {p a}, w.accounts p = some a → a.Begotten →
    ∃ p' b, w.accounts p' = some b ∧ ∃ d ∈ b.own, a.Begets d.exchange p
  inherited : ∀ {p a}, w.accounts p = some a → ∀ d ∈ a.inherited,
    ∃ p' b, w.accounts p' = some b ∧ d ∈ b.own

/-- Whatever ancestors did, some process of the run did. -/
theorem Single.owner (h : w.Single) {p : Pid} {a : Account} (ha : w.accounts p = some a) {d : Deed}
    (hd : d ∈ a.deeds) : ∃ p b, w.accounts p = some b ∧ d ∈ b.own := by
  rcases List.mem_append.mp hd with hd | hd
  · exact h.inherited ha d hd
  · exact ⟨p, a, ha, hd⟩

/-- Accounts go on, and there is one more only where a process starts
another. -/
theorem account_before {p : Pid} {a : Account} (h : (w.moved s m).accounts p = some a) :
    (∃ b, w.accounts p = some b ∧ b.Continues a) ∨
    (p = w.machine.nextPid ∧ ∃ b, w.accounts s.process.pid = some b ∧ b.child? = some a) := by
  rcases accounts_moved h with ⟨-, b, hb, rfl⟩ | ⟨-, hn, b, hb, hc⟩ | ⟨-, -, hb⟩
  · exact .inl ⟨b, hb, b.continues_after _ _⟩
  · exact .inr ⟨hn, b, hb, hc⟩
  · exact .inl ⟨a, hb, rfl, List.prefix_rfl⟩

theorem account_after (hnew : w.accounts w.machine.nextPid = none) {p : Pid} {a : Account}
    (h : w.accounts p = some a) :
    ∃ b, (w.moved s m).accounts p = some b ∧ a.Continues b ∧
      (p = s.process.pid → b = a.after w.machine s) := by
  by_cases hp : p = s.process.pid
  · subst hp
    refine ⟨a.after w.machine s, ?_, a.continues_after _ _, fun _ => rfl⟩
    simp only [moved, if_true, h, Option.map_some]
  · have hn : p ≠ w.machine.nextPid := fun he => by rw [he, hnew] at h; cases h
    refine ⟨a, ?_, ⟨rfl, List.prefix_rfl⟩, fun he => absurd he hp⟩
    simp only [moved, hp, hn, if_false, h]

section

variable (hnew : w.accounts w.machine.nextPid = none)
  (hproper : ∀ p a, w.accounts p = some a → a.Proper)
  (hlanded : ∀ p a, w.accounts p = some a → ∃ s, a.Landed root s)
include hproper hlanded

/-- Who acts at one position is one process. -/
theorem Single.actor (h : w.Single) {p p' : Pid} {a b : Account} (ha : w.accounts p = some a)
    (hb : w.accounts p' = some b) {d d' : Deed} (hd : d ∈ a.own) (hd' : d' ∈ b.own) {u : Position}
    (hacts : d.exchange.acts? = some u) (hacts' : d'.exchange.acts? = some u) : p = p' := by
  obtain ⟨s, hla⟩ := hlanded p a ha
  obtain ⟨s', hlb⟩ := hlanded p' b hb
  have hwa := (hproper p a ha).walks_of_own hd
  have hwb := (hproper p' b hb).walks_of_own hd'
  exact h.single ha hb hwa hwb
    (hla.site_eq hlb hwa hwb (hla.sited.acts hd hacts) (hlb.sited.acts hd' hacts'))

/-- Nothing is asked for twice. -/
theorem Single.once (h : w.Single) {p p' : Pid} {a b : Account} (ha : w.accounts p = some a)
    (hb : w.accounts p' = some b) {d d' : Deed} (hd : d ∈ a.own) (hd' : d' ∈ b.own)
    {u q : Position} (hacts : d.exchange.acts? = some u) (hacts' : d'.exchange.acts? = some u)
    (hasks : d.exchange.asks? = some q) (hasks' : d'.exchange.asks? = some q) : d = d' := by
  obtain rfl := h.actor hproper hlanded ha hb hd hd' hacts hacts'
  rw [ha] at hb
  cases hb
  obtain ⟨s, hla⟩ := hlanded p a ha
  -- one process asks for nothing twice
  let Apart (d d' : Deed) : Prop :=
    ∀ q, d.exchange.asks? = some q → ∀ q', d'.exchange.asks? = some q' → q ≠ q'
  have apart : a.own.Pairwise Apart := List.pairwise_filterMap.mp hla.sited.asks_nodup
  have : Std.Symm Apart := ⟨fun _ _ h q hq q' hq' => (h q' hq' q hq).symm⟩
  refine Classical.byContradiction fun hne => ?_
  exact apart.forall hd hd' hne q hasks q hasks' rfl

/-- Nobody walks yet where a branch is about to be started. -/
theorem Single.fresh (h : w.Single) {p p' : Pid} {a b c : Account} (ha : w.accounts p = some a)
    (hc : a.child? = some c) (hwc : c.walks = true) (hb : w.accounts p' = some b)
    (hwb : b.walks = true) : b.site ≠ c.site := by
  intro hsite
  obtain ⟨s, hla⟩ := hlanded p a ha
  unfold Account.child? at hc
  split at hc
  · cases hc
    cases hwc
  · next q tree depth parent wiring branch next hstage =>
    cases hc
    obtain ⟨-, ⟨hfresh, -, -, r, side, rfl, -, -, hdirect, -⟩, -⟩ :=
      hla.sited.stands.rest hstage (.ok 0)
    have hwa : a.walks = true := (hproper p a ha).walks_of_walking hstage
    have hbelow : b.site ≠ [] := by
      rw [hsite]
      exact List.append_ne_nil_of_right_ne_nil _ (List.cons_ne_nil _ _)
    obtain ⟨p'', e, he, d, hd, hbegets⟩ := h.begotten hb fun _ => hbelow
    obtain ⟨s'', hle⟩ := hlanded p'' e he
    rw [Account.Begets, if_pos hwb, hsite] at hbegets
    obtain ⟨t, depth', o, w', hx⟩ := hbegets
    have hacts : d.exchange.acts? = some r := by
      rw [hx, Exchange.acts?, List.dropLast_concat]
    have hwe := (hproper p'' e he).walks_of_own hd
    obtain rfl := h.single ha he hwa hwe
      (hla.site_eq hle hwa hwe hdirect (hle.sited.acts hd hacts))
    rw [ha] at he
    cases he
    -- it would have been asked for twice
    obtain ⟨hused, -⟩ := siting_used hla.sited.stands.led List.nodup_nil
    refine hfresh ?_
    rw [hused, List.append_nil, List.mem_reverse, List.mem_filterMap]
    exact ⟨d.exchange, List.mem_map_of_mem hd, by rw [hx]; rfl⟩
  · cases hc

include hnew

theorem Single.moved (h : w.Single) : (w.moved s m).Single where
  single := by
    intro p p' a a' ha ha' hw hw' hsite
    rcases account_before ha with ⟨b, hb, hba⟩ | ⟨hp, b, hb, hc⟩ <;>
      rcases account_before ha' with ⟨b', hb', hba'⟩ | ⟨hp', b', hb', hc'⟩
    · rw [hba.walks] at hw
      rw [hba'.walks] at hw'
      rw [hba.site, hba'.site] at hsite
      exact h.single hb hb' hw hw' hsite
    · rw [hba.walks] at hw
      rw [hba.site] at hsite
      exact absurd hsite (h.fresh hproper hlanded hb' hc' hw' hb hw)
    · rw [hba'.walks] at hw'
      rw [hba'.site] at hsite
      exact absurd hsite.symm (h.fresh hproper hlanded hb hc hw hb' hw')
    · rw [hp, hp']
  begotten := by
    intro p a ha hbelow
    rcases account_before ha with ⟨b, hb, hba⟩ | ⟨rfl, b, hb, hc⟩
    · obtain ⟨p', c, hc, d, hd, hx⟩ := h.begotten hb (hba.begotten.mp hbelow)
      obtain ⟨c', hc', hcont, -⟩ := account_after (s := s) (m := m) hnew hc
      exact ⟨p', c', hc', d, hcont.own.subset hd, hba.begets hx⟩
    · obtain ⟨d, hown, hx⟩ := Account.after_begets hc w.machine s
      obtain ⟨b', hb', -, hafter⟩ := account_after (s := s) (m := m) hnew hb
      refine ⟨_, b', hb', d, ?_, hx⟩
      rw [hafter rfl, hown]
      exact List.mem_append_right _ (List.mem_singleton_self _)
  inherited := by
    intro p a ha d hd
    have later : ∀ {p' c}, w.accounts p' = some c → d ∈ c.own →
        ∃ p' c, (w.moved s m).accounts p' = some c ∧ d ∈ c.own := fun {p' c} hc hd => by
      obtain ⟨c', hc', hcont, -⟩ := account_after (s := s) (m := m) hnew hc
      exact ⟨p', c', hc', hcont.own.subset hd⟩
    rcases account_before ha with ⟨b, hb, hba⟩ | ⟨hp, b, hb, hc⟩
    · rw [hba.same] at hd
      obtain ⟨p', c, hc, hd⟩ := h.inherited hb d hd
      exact later hc hd
    · rw [(Account.child_deeds hc).1] at hd
      rcases List.mem_append.mp hd with hd | hd
      · obtain ⟨p', c, hc, hd⟩ := h.inherited hb d hd
        exact later hc hd
      · exact later hb hd

/-- Whatever happens, every part of the tree has one process. -/
theorem Single.step (h : w.Single) (hstep : Step programs w w') : w'.Single := by
  cases hstep with
  | pass clock => exact ⟨h.single, h.begotten, h.inherited⟩
  | move hs hm => exact h.moved hnew hproper hlanded

end

/-- The ends of channels are among the open files, and no two channels
share one. -/
structure Numbered (w : Watch ρ) : Prop where
  bound : ∀ {p a d q}, w.accounts p = some a → d ∈ a.own → d.Makes q →
    d.view.world.files.size + 2 ≤ w.machine.world.files.size
  apart : ∀ {p p' a a' d d' q q'}, w.accounts p = some a → w.accounts p' = some a' → d ∈ a.own →
    d' ∈ a'.own → d.Makes q → d'.Makes q' → d = d' ∨
      d.view.world.files.size + 2 ≤ d'.view.world.files.size ∨
      d'.view.world.files.size + 2 ≤ d.view.world.files.size

theorem Numbered.moved {A : Account → Prop} {P : Account → View → Prop} {m' : Machine ρ}
    (h : w.Numbered) (hw : w.Holds result A P) (hs : s ∈ w.machine.slots)
    (hworld : w.machine.world.files.size ≤ m'.world.files.size)
    (hm : w.machine.move programs s = some m') : (w.moved s m').Numbered := by
  -- a deed that makes a channel was there before, or is the last one of the process that moved
  have deeds : ∀ {p a d q}, (w.moved s m').accounts p = some a → d ∈ a.own → d.Makes q →
      (∃ b, w.accounts p = some b ∧ d ∈ b.own) ∨ (p = s.process.pid ∧ (∃ own, a.own = own ++ [d]) ∧
        d.view.world = w.machine.world ∧ w.machine.world.files.size + 2 ≤ m'.world.files.size) := by
    intro p a d q ha hd hmakes
    rcases accounts_moved ha with ⟨hp, b, hb, rfl⟩ | ⟨-, -, b, hb, hc⟩ | ⟨-, -, hb⟩
    · have hdrives := hw.drives s hs (Machine.alive_of_move hm) b (hp ▸ hb)
      rcases Account.made_after hdrives hm hd hmakes with hd | ⟨hlast, hnew⟩
      · exact .inl ⟨b, hb, hd⟩
      · exact .inr ⟨hp, ⟨_, hlast⟩, hnew⟩
    · rw [(Account.child_deeds hc).2] at hd
      cases hd
    · exact .inl ⟨a, hb, hd⟩
  refine ⟨fun ha hd hmakes => ?_, fun {p p' a a' d d' q q'} ha ha' hd hd' hmakes hmakes' => ?_⟩
  · rcases deeds ha hd hmakes with ⟨b, hb, hd⟩ | ⟨-, -, hnew, hsize⟩
    · exact Nat.le_trans (h.bound hb hd hmakes) hworld
    · rw [hnew]
      exact hsize
  · rcases deeds ha hd hmakes with ⟨b, hb, hd⟩ | ⟨hp, ⟨own, hlast⟩, hnew, -⟩ <;>
      rcases deeds ha' hd' hmakes' with ⟨b', hb', hd'⟩ | ⟨hp', ⟨own', hlast'⟩, hnew', -⟩
    · exact h.apart hb hb' hd hd' hmakes hmakes'
    · refine .inr (.inl ?_)
      rw [hnew']
      exact h.bound hb hd hmakes
    · refine .inr (.inr ?_)
      rw [hnew]
      exact h.bound hb' hd' hmakes'
    · rw [hp, ← hp', ha'] at ha
      cases ha
      rw [hlast] at hlast'
      exact .inl (List.singleton_inj.mp (List.append_inj' hlast' rfl).2)

-- ==================================================================== runs

section

variable (hprograms : ∀ name args, (programs name args).Respects .onward) {t : Tree} {depth : Nat}
  {parent : Option Operator} (hb : m.Begins result t depth parent)
  (hrun : Run programs (begin t depth parent m) w)

theorem begin_placed {a : Account} {p : Pid}
    (ha : (begin t depth parent m).accounts p = some a) : a.Placed t {} := by
  have hsited := begin_sited ha
  obtain ⟨-, rfl⟩ := begin_shell ha
  exact ⟨⟨hsited, fun _ => .inl rfl⟩, fun _ => rfl, nofun⟩

include hprograms hb hrun

theorem holds_placed :
    w.Holds result (fun a => ∃ s, a.Placed t s) fun a _ => ∃ s, a.Placed t s := by
  exact invariant hprograms (Account.placed_invariant t) hb
    (fun s _ _ a ha => ⟨⟨_, begin_placed ha⟩, ⟨_, begin_placed ha⟩⟩) hrun

theorem landed_of_run {p : Pid} {a : Account} (ha : w.accounts p = some a) :
    ∃ s, a.Landed t s := by
  obtain ⟨s, hplaced⟩ := (holds_placed hprograms hb hrun).all p a ha
  exact ⟨s, hplaced.toLanded⟩

/-- In no run does a part of the tree get two processes. -/
theorem single_of_run : w.Single := by
  induction hrun with
  | refl =>
      refine ⟨fun ha ha' _ _ _ => ?_, fun ha hbelow => ?_, fun ha d hd => ?_⟩
      · rw [(begin_shell ha).1, (begin_shell ha').1]
      · obtain ⟨-, rfl⟩ := begin_shell ha
        exact absurd rfl (hbelow rfl)
      · obtain ⟨-, rfl⟩ := begin_shell ha
        cases hd
  | tail hrun hstep ih =>
      have holds := holds_placed hprograms hb hrun
      exact ih.step holds.nextPid_new holds.proper
        (fun _ _ ha => landed_of_run hprograms hb hrun ha) hstep

omit hprograms hb hrun in
theorem begin_main : ∃ a, (begin t depth parent m).accounts Machine.mainPid = some a := by
  simp only [begin, if_true]
  exact ⟨_, rfl⟩

/-- The account of the main process is the shell's, which has no ancestors,
and there is no other. -/
theorem shell_of_run : (∃ a, w.accounts Machine.mainPid = some a) ∧
    ∀ p a, w.accounts p = some a →
      (a.isShell = true ↔ p = Machine.mainPid) ∧ (a.isShell = true → a.inherited = []) := by
  induction hrun with
  | refl =>
      refine ⟨begin_main, fun p a ha => ?_⟩
      obtain ⟨rfl, rfl⟩ := begin_shell ha
      exact ⟨⟨fun _ => rfl, fun _ => rfl⟩, fun _ => rfl⟩
  | tail hrun hstep ih =>
      have holds := holds_placed hprograms hb hrun
      obtain ⟨⟨a₀, ha₀⟩, hshell⟩ := ih
      have hnew := holds.nextPid_new
      cases hstep with
      | pass clock => exact ⟨⟨a₀, ha₀⟩, hshell⟩
      | @move s m' hs hm =>
          refine ⟨?_, fun p a ha => ?_⟩
          · obtain ⟨b, hb, -⟩ := account_after (s := s) (m := m') hnew ha₀
            exact ⟨b, hb⟩
          · rcases account_before ha with ⟨b, hb, hcont⟩ | ⟨rfl, b, -, hc⟩
            · rw [hcont.same]
              exact hshell p b hb
            · have hnot : a.isShell ≠ true := by
                rw [Account.child_isShell hc]
                nofun
              refine ⟨⟨fun h => absurd h hnot, fun h => ?_⟩, fun h => absurd h hnot⟩
              exact absurd (holds.known _ _ ha₀) (h ▸ Nat.lt_irrefl _)

/-- In no run does a pipe get two channels: what was done for the channel of
one pipe is the same deed, whoever has it among those of its ancestors. -/
theorem channel_once {p p' : Pid} {a a' : Account} (ha : w.accounts p = some a)
    (ha' : w.accounts p' = some a') {d d' : Deed} (hd : d ∈ a.deeds) (hd' : d' ∈ a'.deeds)
    {q : Position} {r r' : Except ExecError Channel} (hx : d.exchange = .channel q r)
    (hx' : d'.exchange = .channel q r') : d = d' := by
  have single := single_of_run hprograms hb hrun
  obtain ⟨p, b, hb', hd⟩ := single.owner ha hd
  obtain ⟨p', b', hb'', hd'⟩ := single.owner ha' hd'
  exact single.once (holds_placed hprograms hb hrun).proper
    (fun p a ha => landed_of_run hprograms hb hrun ha) hb' hb'' hd hd'
    (by rw [hx, Exchange.acts?]) (by rw [hx', Exchange.acts?]) (by rw [hx, Exchange.asks?])
    (by rw [hx', Exchange.asks?])

theorem numbered_of_run : w.Numbered := by
  induction hrun with
  | refl =>
      refine ⟨fun ha hd => ?_, fun ha _ hd => ?_⟩ <;>
      · obtain ⟨-, rfl⟩ := begin_shell ha
        cases hd
  | tail hrun hstep ih =>
      have holds := holds_placed hprograms hb hrun
      cases hstep with
      | pass clock => exact ⟨ih.bound, ih.apart⟩
      | @move s m' hs hm =>
          exact ih.moved holds hs (holds.sound.move_world hprograms hs hm).size_le hm

/-- No open file is an end of two channels, nor both ends of one. -/
theorem ends_apart {p p' : Pid} {a a' : Account} (ha : w.accounts p = some a)
    (ha' : w.accounts p' = some a') {d d' : Deed} (hd : d ∈ a.deeds) (hd' : d' ∈ a'.deeds)
    {q q' : Position} (hmakes : d.Makes q) (hmakes' : d'.Makes q') {side side' : Side}
    (hend : d.endFor side = d'.endFor side') : d = d' ∧ side = side' := by
  have single := single_of_run hprograms hb hrun
  have numbered := numbered_of_run hprograms hb hrun
  obtain ⟨p, b, hb, hd⟩ := single.owner ha hd
  obtain ⟨p', b', hb', hd'⟩ := single.owner ha' hd'
  have bounds : ∀ (d : Deed) (side : Side), d.view.world.files.size ≤ d.endFor side ∧
      d.endFor side < d.view.world.files.size + 2 := fun d side => by
    cases side <;> simp only [Deed.endFor] <;> omega
  have := bounds d side
  have := bounds d' side'
  rcases numbered.apart hb hb' hd hd' hmakes hmakes' with rfl | hlt | hlt
  · refine ⟨rfl, ?_⟩
    cases side <;> cases side' <;> simp [Deed.endFor] at hend ⊢
  · omega
  · omega

end

end Watch

end LineShell
