/-
What the acts of a process leave alone.

# Frames

A `Frame` is a relation between the views before and after an act which
holds of doing nothing and of one act after the other. Each of these is
within the next:

- `Frame.through`: what was done was done through one open file, and all but
  that and what it leads to stays.
- `Frame.outward`: the process itself stays as it is; only the world
  changes, and there open files keep what they lead to, and new ones get
  new numbers (`World.Extends`). A descriptor that nobody touched still
  leads where it led.
- `Frame.quiet`: of the process, its number, its parent, its working
  directory and its environment stay. Of all that the shell does, only
  the bodies of `cd` and of assignments are not quiet.
- `Frame.onward`: its number and its parent stay. The machine grants no
  program more than that.

# Calls

A call keeps a frame if it does so from every view, whether it succeeds
or not. What is done in sequence keeps what each part keeps, so each
call's lemma follows the text of the call.
-/
import LineShell.Builtin

namespace LineShell.Posix

-- ================================================================ worlds

/-- Every open file of the first world is there in the second, and leads
to the same. -/
def World.Extends (w w' : World) : Prop :=
  ∀ (i : Nat) (f : OpenFile), w.files[i]? = some f →
    ∃ f', w'.files[i]? = some f' ∧ f'.target = f.target

namespace World.Extends

theorem refl (w : World) : w.Extends w := fun _ f h => ⟨f, h, rfl⟩

theorem trans {w₁ w₂ w₃ : World} (h : w₁.Extends w₂) (h' : w₂.Extends w₃) : w₁.Extends w₃ := by
  intro i f hf
  obtain ⟨f', hf', ht⟩ := h i f hf
  obtain ⟨f'', hf'', ht'⟩ := h' i f' hf'
  exact ⟨f'', hf'', ht'.trans ht⟩

/-- Worlds with the same open files extend each other. -/
theorem of_eq {w w' : World} (h : w'.files = w.files) : w.Extends w' :=
  fun _ f hf => ⟨f, by rw [h]; exact hf, rfl⟩

/-- No open file is ever taken back. -/
theorem size_le {w w' : World} (h : w.Extends w') : w.files.size ≤ w'.files.size := by
  refine Nat.le_of_not_lt fun hlt => ?_
  obtain ⟨f', hf', -⟩ := h w'.files.size _ (Array.getElem?_eq_getElem hlt)
  simp at hf'

/-- What an open file leads to, later on. -/
theorem target {w w' : World} (h : w.Extends w') {i : Nat} {t : Target}
    (ht : w.files[i]?.map OpenFile.target = some t) :
    w'.files[i]?.map OpenFile.target = some t := by
  obtain ⟨f, hf, rfl⟩ := Option.map_eq_some_iff.mp ht
  obtain ⟨f', hf', ht'⟩ := h i f hf
  rw [hf', Option.map_some, ht']

/-- A new open file. -/
theorem push (w : World) (f : OpenFile) : w.Extends { w with files := w.files.push f } := by
  intro i g hg
  refine ⟨g, ?_, rfl⟩
  obtain ⟨hi, rfl⟩ := Array.getElem?_eq_some_iff.mp hg
  rw [Array.getElem?_push_lt hi]

/-- A change of one open file that leaves what it leads to. -/
theorem modify (w : World) (i : Nat) (g : OpenFile → OpenFile)
    (hg : ∀ f, (g f).target = f.target) : w.Extends { w with files := w.files.modify i g } := by
  intro j f hf
  simp only [Array.getElem?_modify]
  split
  · exact ⟨g f, by rw [hf]; rfl, hg f⟩
  · exact ⟨f, hf, rfl⟩

end World.Extends

-- ================================================================ frames

/-- A relation of views that acts in sequence keep if each of them does. -/
structure Frame where
  holds : View → View → Prop
  refl : ∀ v, holds v v
  trans : ∀ {v₁ v₂ v₃}, holds v₁ v₂ → holds v₂ v₃ → holds v₁ v₃

/-- What every act of a process keeps. -/
structure View.Onward (v v' : View) : Prop where
  pid : v'.process.pid = v.process.pid
  parent : v'.process.parent = v.process.parent
  world : v.world.Extends v'.world

/-- What all acts keep but those that change the place or the variables of
later commands. -/
structure View.Quiet (v v' : View) : Prop extends View.Onward v v' where
  cwd : v'.process.cwd = v.process.cwd
  env : v'.process.env = v.process.env

/-- What acts keep that have their effect elsewhere. -/
structure View.Outward (v v' : View) : Prop where
  process : v'.process = v.process
  world : v.world.Extends v'.world

/-- What acts keep that go through one open file, to what that leads to. -/
structure View.Through (n : Nat) (target : Target) (v v' : View) : Prop extends
    View.Outward v v' where
  files : ∀ i, i ≠ n → v'.world.files[i]? = v.world.files[i]?
  nodes : ∀ id, target ≠ .node id → v'.world.tree.nodes[id]? = v.world.tree.nodes[id]?
  pipes : ∀ p, target ≠ .writer p → target ≠ .reader p → v'.world.pipes[p]? = v.world.pipes[p]?

namespace View

theorem Onward.refl (v : View) : v.Onward v := ⟨rfl, rfl, .refl _⟩

theorem Onward.trans {v₁ v₂ v₃ : View} (h : v₁.Onward v₂) (h' : v₂.Onward v₃) : v₁.Onward v₃ :=
  ⟨h'.pid.trans h.pid, h'.parent.trans h.parent, h.world.trans h'.world⟩

theorem Quiet.refl (v : View) : v.Quiet v := ⟨.refl v, rfl, rfl⟩

theorem Quiet.trans {v₁ v₂ v₃ : View} (h : v₁.Quiet v₂) (h' : v₂.Quiet v₃) : v₁.Quiet v₃ :=
  ⟨h.toOnward.trans h'.toOnward, h'.cwd.trans h.cwd, h'.env.trans h.env⟩

theorem Outward.refl (v : View) : v.Outward v := ⟨rfl, .refl _⟩

theorem Outward.trans {v₁ v₂ v₃ : View} (h : v₁.Outward v₂) (h' : v₂.Outward v₃) :
    v₁.Outward v₃ := ⟨h'.process.trans h.process, h.world.trans h'.world⟩

theorem Outward.quiet {v v' : View} (h : v.Outward v') : v.Quiet v' where
  pid := by rw [h.process]
  parent := by rw [h.process]
  world := h.world
  cwd := by rw [h.process]
  env := by rw [h.process]

section

variable {n : Nat} {target : Target} {v v' v'' : View}

theorem Through.refl (n : Nat) (target : Target) (v : View) : v.Through n target v :=
  ⟨.refl v, fun _ _ => rfl, fun _ _ => rfl, fun _ _ _ => rfl⟩

theorem Through.trans (h : v.Through n target v') (h' : v'.Through n target v'') :
    v.Through n target v'' where
  toOutward := h.toOutward.trans h'.toOutward
  files i hi := (h'.files i hi).trans (h.files i hi)
  nodes id hid := (h'.nodes id hid).trans (h.nodes id hid)
  pipes p hw hr := (h'.pipes p hw hr).trans (h.pipes p hw hr)

end

/-- A change of the world alone. -/
theorem Outward.ofWorld {v : View} {f : World → World} (h : v.world.Extends (f v.world)) :
    v.Outward (v.modifyWorld f) := ⟨rfl, h⟩

/-- A change of the file tree alone. -/
theorem Outward.ofTree (v : View) (f : FileTree → FileTree) : v.Outward (v.modifyTree f) :=
  .ofWorld (.of_eq rfl)

/-- A change of the descriptor table alone. -/
theorem Quiet.ofFds (v : View) (f : FdTable → FdTable) : v.Quiet (v.modifyFds f) :=
  ⟨⟨rfl, rfl, .refl _⟩, rfl, rfl⟩

theorem Quiet.note (v : View) (level : Level) (text : String) : v.Quiet (v.note level text) :=
  ⟨⟨rfl, rfl, .refl _⟩, rfl, rfl⟩

end View

namespace Frame

def onward : Frame := ⟨View.Onward, View.Onward.refl, View.Onward.trans⟩
def quiet : Frame := ⟨View.Quiet, View.Quiet.refl, View.Quiet.trans⟩
def outward : Frame := ⟨View.Outward, View.Outward.refl, View.Outward.trans⟩
def through (n : Nat) (target : Target) : Frame :=
  ⟨View.Through n target, View.Through.refl n target, View.Through.trans⟩

/-- What a process keeps of itself whatever it does to its descriptors, its log
and the world. -/
structure Tolerant (F : Frame) : Prop where
  outward : ∀ {v v'}, v.Outward v' → F.holds v v'
  fds : ∀ v f, F.holds v (v.modifyFds f)
  note : ∀ v level text, F.holds v (v.note level text)

theorem Tolerant.quiet : quiet.Tolerant :=
  ⟨View.Outward.quiet, View.Quiet.ofFds, View.Quiet.note⟩

/-- Descriptor numbers stay below the same limit. -/
def limit : Frame where
  holds v v' := v'.process.fdLimit = v.process.fdLimit
  refl _ := rfl
  trans h h' := h'.trans h

theorem Tolerant.limit : limit.Tolerant where
  outward h := by
    change _ = _
    rw [h.process]
  fds _ _ := rfl
  note _ _ _ := rfl

end Frame

-- ================================================================= calls

namespace Call

variable {α β : Type} {F : Frame}

/-- From every view the call keeps the frame. -/
def Keeps (F : Frame) (c : Call α) : Prop := ∀ v, F.holds v (c.after v)

theorem after_bind (c : Call α) (f : α → Call β) (v : View) :
    (c >>= f).after v = match c v with
      | .ok a v' => (f a).after v'
      | .error _ v' => v' := by
  simp only [after, attempt, bind, EStateM.bind]
  cases c v <;> rfl

theorem after_get_bind (f : View → Call β) (v : View) : (get >>= f).after v = (f v).after v := rfl

theorem after_of_ok {c : Call α} {v v' : View} {a : α} (h : c v = .ok a v') : c.after v = v' := by
  simp only [after, attempt, h]

theorem after_of_error {c : Call α} {v v' : View} {e : Errno} (h : c v = .error e v') :
    c.after v = v' := by
  simp only [after, attempt, h]

/-- What was kept by a call that came to this. -/
theorem Keeps.of_attempt {c : Call α} (hc : c.Keeps F) {v v' : View} {r : Except Errno α}
    (h : c.attempt v = (r, v')) : F.holds v v' := by
  have kept := hc v
  rw [after, h] at kept
  exact kept

theorem Keeps.mono {G : Frame} (hFG : ∀ {v v'}, F.holds v v' → G.holds v v') {c : Call α}
    (hc : c.Keeps F) : c.Keeps G := fun v => hFG (hc v)

theorem keeps_pure (a : α) : Keeps F (pure a) := fun v => F.refl v

theorem keeps_throw (e : Errno) : Keeps F (throw e : Call α) := fun v => F.refl v

theorem keeps_get : Keeps F get := fun v => F.refl v

theorem keeps_modify {f : View → View} (h : ∀ v, F.holds v (f v)) :
    Keeps F (modify f : Call PUnit) := h

theorem Keeps.bind {c : Call α} {f : α → Call β} (hc : c.Keeps F) (hf : ∀ a, (f a).Keeps F) :
    (c >>= f).Keeps F := by
  intro v
  have first := hc v
  rw [after_bind]
  cases h : c v with
  | ok a v' =>
      rw [after_of_ok h] at first
      exact F.trans first (hf a v')
  | error e v' =>
      rw [after_of_error h] at first
      exact first

theorem keeps_ite {p : Prop} [Decidable p] {c d : Call α} (hc : c.Keeps F) (hd : d.Keeps F) :
    (if p then c else d).Keeps F := by
  split
  · exact hc
  · exact hd

/-- A check that refuses, and what comes after it. -/
theorem keeps_guard {p : Prop} [Decidable p] {e : Errno} {k : PUnit → Call α}
    (hk : ∀ u, (k u).Keeps F) : (if p then throw e >>= k else k ⟨⟩).Keeps F :=
  keeps_ite ((keeps_throw e).bind hk) (hk _)

theorem keeps_unless {p : Prop} [Decidable p] {e : Errno} {k : PUnit → Call α}
    (hk : ∀ u, (k u).Keeps F) : (if p then k ⟨⟩ else throw e >>= k).Keeps F :=
  keeps_ite (hk _) ((keeps_throw e).bind hk)

/-- A loop over a list. -/
theorem keeps_forIn {f : α → β → Call (ForInStep β)} (hf : ∀ a b, (f a b).Keeps F) (as : List α)
    (b : β) : (forIn as b f).Keeps F := by
  induction as generalizing b with
  | nil => exact keeps_pure b
  | cons a as ih =>
      rw [List.forIn_cons]
      refine (hf a b).bind fun r => ?_
      cases r with
      | done b => exact keeps_pure b
      | yield b => exact ih b

-- ==================================================== calls on the world

theorem freeFdFrom_outward (low : Nat) : (freeFdFrom low).Keeps .outward := by
  intro v
  simp only [after, attempt, freeFdFrom]
  cases v.process.fds.freeFrom low v.process.fdLimit with
  | some fd => exact .refl v
  | none => exact .refl v

theorem handle_outward (fd : Fd) : (handle fd).Keeps .outward := by
  intro v
  simp only [after, attempt, handle]
  cases v.process.fds.get? fd with
  | some h => exact .refl v
  | none => exact .refl v

theorem place_outward (path : Bytes) (last : FileTree.Last) : (place path last).Keeps .outward := by
  intro v
  simp only [after, attempt, place, ofExcept]
  cases v.world.tree.resolve v.held v.process.cwd path last with
  | ok p => exact .refl v
  | error e => exact .refl v

theorem create_outward (spot : FileTree.Place) (bits : Nat) (c : Content) :
    (create spot bits c).Keeps .outward := by
  intro v
  have made : ∀ tree, v.Outward (v.modifyTree fun _ => tree) := fun tree => .ofTree v _
  unfold create
  rw [after_get_bind]
  cases (v.world.tree.nodes[spot.dir]?.map Node.linked).getD false with
  | true => exact made _
  | false => exact .refl v

theorem openNode_outward (path : Bytes) (m : Mode) : (openNode path m).Keeps .outward := by
  refine (place_outward path _).bind fun found => ?_
  cases found.node with
  | none => exact keeps_ite (create_outward _ _ _) (keeps_throw _)
  | some id =>
      refine keeps_get.bind fun v => keeps_guard fun _ => ?_
      split
      · split
        · exact Keeps.bind (keeps_modify fun v => .ofTree v _) fun _ => keeps_pure id
        · exact keeps_pure id
      · exact (keeps_throw _).bind fun _ => keeps_pure id
      · exact keeps_pure id

theorem seekTo_outward (file offset : Nat) : (seekTo file offset).Keeps .outward :=
  keeps_modify fun _ => .ofWorld (.modify _ file _ fun _ => rfl)

theorem readNode_outward (file : Nat) (f : OpenFile) (id : NodeId) (count : Nat) :
    (readNode file f id count).Keeps .outward := by
  refine keeps_get.bind fun v => ?_
  split
  · exact (seekTo_outward _ _).bind fun _ => keeps_pure _
  · exact keeps_pure _
  · exact keeps_pure _
  · exact keeps_throw _
  · exact keeps_throw _
  all_goals exact keeps_pure _

theorem writeNode_outward (file : Nat) (f : OpenFile) (id : NodeId) (chunk : Bytes) :
    (writeNode file f id chunk).Keeps .outward := by
  refine keeps_get.bind fun v => ?_
  split
  · exact Keeps.bind (keeps_modify fun v => .ofTree v _) fun _ => seekTo_outward _ _
  · exact keeps_throw _
  · exact keeps_pure _

theorem writeNow_outward (fd : Fd) (chunk : Bytes) : (writeNow fd chunk).Keeps .outward := by
  have opened : (openFileOf fd).Keeps .outward := by
    intro v
    simp only [after, attempt, openFileOf]
    cases v.file? fd with
    | some f => exact .refl v
    | none => exact .refl v
  refine opened.bind fun f => keeps_unless fun _ => ?_
  split
  · exact writeNode_outward _ _ _ _
  all_goals exact keeps_modify fun _ => .ofWorld (.of_eq rfl)

/-- What is written to a node goes through the open file. -/
theorem writeNode_through (file : Nat) (f : OpenFile) (id : NodeId) (chunk : Bytes) :
    (writeNode file f id chunk).Keeps (.through file (.node id)) := by
  have seeks (offset : Nat) : (seekTo file offset).Keeps (.through file (.node id)) := by
    refine keeps_modify fun v => ⟨.ofWorld (.modify _ file _ fun _ => rfl), fun i hi => ?_,
      fun _ _ => rfl, fun _ _ _ => rfl⟩
    exact Array.getElem?_modify.trans (if_neg (Ne.symm hi))
  refine keeps_get.bind fun v => ?_
  split
  · refine Keeps.bind (keeps_modify fun v => ⟨.ofTree v _, fun _ _ => rfl, fun i hi => ?_,
      fun _ _ _ => rfl⟩) fun _ => seeks _
    exact Array.getElem?_modify.trans (if_neg fun heq => hi (congrArg Target.node heq))
  · exact keeps_throw _
  · exact keeps_pure _

/-- What is written to a descriptor goes through its open file, if there is
one. -/
theorem writeNow_through (fd : Fd) (chunk : Bytes) (v : View) :
    (writeNow fd chunk).after v = v ∨
      ∃ n f, v.file? fd = some (n, f) ∧ v.Through n f.target ((writeNow fd chunk).after v) := by
  unfold writeNow
  rw [after_bind]
  cases hfile : v.file? fd with
  | none =>
      exact .inl (by simp only [openFileOf, hfile])
  | some x =>
      obtain ⟨n, f⟩ := x
      simp only [openFileOf, hfile]
      refine .inr ⟨n, f, rfl, ?_⟩
      cases htarget : f.target with
      | node id =>
          have writes : Keeps (.through n (.node id)) (do
              unless f.writable do throw .EBADF
              writeNode n f id chunk) := keeps_unless fun _ => htarget ▸ writeNode_through n f id chunk
          exact writes v
      | writer p | reader p =>
          have writes : Keeps (.through n f.target) (do
              unless f.writable do throw .EBADF
              modify (·.modifyWorld fun w => { w with pipes := w.pipes.modify p (· ++ chunk) })) := by
            refine keeps_unless fun _ => keeps_modify fun v =>
              ⟨.ofWorld (.of_eq rfl), fun _ _ => rfl, fun _ _ => rfl, fun i hw hr => ?_⟩
            refine Array.getElem?_modify.trans (if_neg fun heq => ?_)
            rw [htarget] at hw hr
            first
              | exact hw (congrArg Target.writer heq)
              | exact hr (congrArg Target.reader heq)
          rw [htarget] at writes
          exact writes v

-- ================================================================= writing

section

variable {v : View} {fd : Fd} {n : Nat} {f : OpenFile}

theorem writeNow_of_closed (h : v.file? fd = none) (chunk : Bytes) :
    (writeNow fd chunk).attempt v = (.error .EBADF, v) := by
  simp only [attempt, writeNow, bind, EStateM.bind, openFileOf, h]

theorem writeNow_of_unwritable (h : v.file? fd = some (n, f)) (hw : f.writable = false)
    (chunk : Bytes) : (writeNow fd chunk).attempt v = (.error .EBADF, v) := by
  simp only [attempt, writeNow, bind, EStateM.bind, openFileOf, h, hw]
  rfl

/-- What is written to a node is written at the open file's place in it. -/
theorem writeNow_node (h : v.file? fd = some (n, f)) (hw : f.writable = true) {id : NodeId}
    (ht : f.target = .node id) (chunk : Bytes) :
    (writeNow fd chunk).attempt v = (writeNode n f id chunk).attempt v := by
  simp only [attempt, writeNow, bind, EStateM.bind, openFileOf, h, hw, ht]
  rfl

/-- What is written to a pipe comes last in it. -/
theorem writeNow_pipe (h : v.file? fd = some (n, f)) (hw : f.writable = true) {p : Nat}
    (ht : f.target = .reader p ∨ f.target = .writer p) (chunk : Bytes) :
    (writeNow fd chunk).attempt v = (.ok (), v.modifyWorld fun w =>
      { w with pipes := w.pipes.modify p (· ++ chunk) }) := by
  rcases ht with ht | ht <;>
  · simp only [attempt, writeNow, bind, EStateM.bind, openFileOf, h, hw, ht]
    rfl

/-- Nothing has been done where a node cannot be written to. -/
theorem writeNode_cases (file : Nat) (f : OpenFile) (id : NodeId) (chunk : Bytes) (v : View) :
    (∃ v', (writeNode file f id chunk).attempt v = (.ok (), v')) ∨
      ∃ e, (writeNode file f id chunk).attempt v = (.error e, v) := by
  have reads : (get : Call View) v = .ok v v := rfl
  unfold writeNode attempt
  simp only [bind, EStateM.bind, reads]
  cases v.world.tree.content id with
  | file data => exact .inl ⟨_, rfl⟩
  | full => exact .inr ⟨_, rfl⟩
  | directory | link | null | zero | terminal | pipe | program | descriptors =>
      exact .inl ⟨_, rfl⟩

end

-- ================================================= calls on descriptors

section

variable (hF : F.Tolerant)
include hF

theorem Keeps.tolerated {c : Call α} (hc : c.Keeps .outward) : c.Keeps F := hc.mono hF.outward

theorem install_keeps (fd : Fd) (f : OpenFile) (closeOnExec : Bool) :
    (install fd f closeOnExec).Keeps F :=
  keeps_modify fun v => F.trans (hF.fds v _) (hF.outward (View.Outward.ofWorld (.push _ f)))

theorem close_keeps (fd : Fd) : (close fd).Keeps F :=
  ((handle_outward fd).tolerated hF).bind fun _ => keeps_modify fun v => hF.fds v _

theorem dup_keeps (fd : Fd) : (dup fd).Keeps F :=
  ((handle_outward fd).tolerated hF).bind fun _ => ((freeFdFrom_outward 0).tolerated hF).bind fun _ =>
    Keeps.bind (keeps_modify fun v => hF.fds v _) fun _ => keeps_pure _

theorem dup2_keeps (fd onto : Fd) : (dup2 fd onto).Keeps F :=
  ((handle_outward fd).tolerated hF).bind fun _ =>
    keeps_ite (keeps_pure _) (keeps_modify fun v => hF.fds v _)

theorem pipe_keeps : pipe.Keeps F :=
  ((freeFdFrom_outward 0).tolerated hF).bind fun _ =>
    ((freeFdFrom_outward _).tolerated hF).bind fun _ => keeps_get.bind fun _ =>
      Keeps.bind (keeps_modify fun _ => hF.outward (.ofWorld (.of_eq rfl))) fun _ =>
        (install_keeps hF _ _ _).bind fun _ => (install_keeps hF _ _ _).bind fun _ => keeps_pure _

theorem openFile_keeps (path : Bytes) (m : Mode) : (openFile path m).Keeps F := by
  unfold openFile
  refine keeps_guard fun _ => ?_
  refine keeps_guard fun _ => ?_
  refine ((freeFdFrom_outward 0).tolerated hF).bind fun fd =>
    ((openNode_outward path m).tolerated hF).bind fun id => ?_
  exact keeps_get.bind fun v => (install_keeps hF _ _ _).bind fun _ => keeps_pure fd

end

/-- What copying, moving and closing descriptors leaves alone. -/
structure Handling (F : Frame) : Prop where
  close : ∀ fd, (close fd).Keeps F
  dup : ∀ fd, (dup fd).Keeps F
  dup2 : ∀ fd onto, (dup2 fd onto).Keeps F
  note : ∀ v level text, F.holds v (v.note level text)

theorem Handling.of_tolerant (hF : F.Tolerant) : Handling F :=
  ⟨close_keeps hF, dup_keeps hF, dup2_keeps hF, hF.note⟩

theorem pipe_quiet : pipe.Keeps .quiet := pipe_keeps .quiet

end Call

end LineShell.Posix
