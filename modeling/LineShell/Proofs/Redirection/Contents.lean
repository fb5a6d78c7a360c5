/-
What is in a file that commands write to.

# At the end of the data

A command whose output goes to a file has one open file for it, and its error
shares it if it names the same path. That open file adds to the data, or it
has begun with none and stands where the data ends (`View.WritesTo`). Either
way what is written comes last, to whichever of the two streams it is
written: nothing is written over, and nothing is lost (`Writes.writesTo`).

# One command

A command opens its files, puts them in place, and writes its chunks, while
what else it does leaves the file alone (`View.Writes`). It does so in a
process of its own, or in the shell's, under a guard (`Leaf.Runs`). What it
leaves in the file are its chunks, after the data that there was if its output
is to add (`Leaf.Runs.ready`).

# One after the other

So the data is what was written since the last command whose output empties
the file, or all that was written, after the data that there was
(`contents_of_runs`).
-/
import LineShell.Proofs.Launch.Perform
import LineShell.Proofs.Launch.Refusal
import LineShell.Proofs.Posix.Growth
import LineShell.Proofs.Redirection.Scoped

namespace LineShell

open Posix

-- ================================================================= writing

namespace Posix

/-- The descriptors lead to one open file for a node: it adds to the data of the
node, or stands where it ends. -/
structure View.WritesTo (v : View) (fds : List Fd) (id : NodeId) (data : Bytes) : Prop where
  streams : ∃ n f, (∀ fd ∈ fds, v.file? fd = some (n, f)) ∧ f.writable = true ∧
    f.target = .node id ∧ (f.append = false → f.offset = data.length)
  node : ∃ node, v.world.tree.nodes[id]? = some node ∧ node.content = .file data

/-- Writing over nothing is writing at the end. -/
theorem Call.overwrite_end (data chunk : Bytes) : overwrite data data.length chunk = data ++ chunk := by
  simp [overwrite]

/-- What is written comes last, and the descriptors stay at the end. -/
theorem View.WritesTo.write {v : View} {fds : List Fd} {id : NodeId} {data : Bytes}
    (h : v.WritesTo fds id data) {fd : Fd} (hfd : fd ∈ fds) (chunk : Bytes) :
    ∃ v', (Call.writeNow fd chunk).attempt v = (.ok (), v') ∧ v'.WritesTo fds id (data ++ chunk) ∧
      v'.process = v.process ∧ v.Grows v' := by
  obtain ⟨n, f, hstreams, hwritable, htarget, hoffset⟩ := h.streams
  obtain ⟨node, hnode, hcontent⟩ := h.node
  have hfile : v.world.tree.content id = .file data := by
    rw [FileTree.content, hnode]
    exact hcontent
  have hopen : v.world.files[n]? = some f := by
    have hsome := hstreams fd hfd
    unfold View.file? at hsome
    obtain ⟨x, hx, hrest⟩ := Option.bind_eq_some_iff.mp hsome
    obtain ⟨g, hg, heq⟩ := Option.bind_eq_some_iff.mp hrest
    cases heq
    exact hg
  let data' := if f.append then data ++ chunk else Call.overwrite data f.offset chunk
  have hdata' : data' = data ++ chunk := by
    simp only [data']
    cases happend : f.append with
    | true => rfl
    | false =>
        rw [if_neg Bool.false_ne_true, hoffset happend]
        exact Call.overwrite_end data chunk
  let start := (if f.append then data.length else f.offset) + chunk.length
  have hstart : start = data'.length := by
    rw [hdata', List.length_append]
    simp only [start]
    cases happend : f.append with
    | true => rfl
    | false => rw [if_neg Bool.false_ne_true, hoffset happend]
  let v' := (v.modifyTree (·.setContent id (.file data'))).modifyWorld fun w =>
    { w with files := w.files.modify n ({ · with offset := start }) }
  have hwrite : (Call.writeNow fd chunk).attempt v = (.ok (), v') := by
    rw [Call.writeNow_node (hstreams fd hfd) hwritable htarget]
    have reads : (get : Call View) v = .ok v v := rfl
    simp only [Call.writeNode, Call.attempt, bind, EStateM.bind, reads, hfile]
    rfl
  have hfiles : v'.world.files[n]? = some { f with offset := start } := by
    change (v.world.files.modify n _)[n]? = _
    rw [Array.getElem?_modify, if_pos rfl, hopen]
    rfl
  refine ⟨v', hwrite, ⟨⟨n, { f with offset := start }, fun fd hfd => ?_, hwritable, htarget, ?_⟩, ?_⟩,
    rfl, ⟨?_, ?_, fun _ _ h => h⟩⟩
  · have hsome := hstreams fd hfd
    unfold View.file? at hsome ⊢
    obtain ⟨x, hx, hrest⟩ := Option.bind_eq_some_iff.mp hsome
    obtain ⟨g, hg, heq⟩ := Option.bind_eq_some_iff.mp hrest
    cases heq
    have hx' : v'.process.fds.get? fd = some x := hx
    simp [hx', hfiles]
  · exact fun _ => hstart.trans (by rw [hdata'])
  · refine ⟨{ node with content := .file data' }, ?_, by rw [hdata']⟩
    change (v.world.tree.nodes.modify id _)[id]? = _
    rw [Array.getElem?_modify, if_pos rfl, hnode]
    rfl
  · exact FileTree.grows_setContent hfile data'
  · exact (World.Extends.modify v.world n ({ · with offset := start }) fun _ => rfl)

/-- Chunks, each to its descriptor. -/
abbrev Chunks := List (Fd × Bytes)

/-- The bytes of the chunks. -/
def Chunks.bytes (ws : Chunks) : Bytes := ws.flatMap Prod.snd

/-- Something is done that leaves alone what the descriptors lead to. -/
structure View.Aside (fds : List Fd) (v v' : View) : Prop where
  streams : ∀ fd ∈ fds, v'.file? fd = v.file? fd
  contents : ∀ fd ∈ fds, ∀ id, v.held fd = some id →
    v'.world.tree.nodes[id]?.map Node.content = v.world.tree.nodes[id]?.map Node.content
  tree : v.world.tree.Grows v'.world.tree
  files : v.world.Extends v'.world

/-- A process may do anything to itself that leaves it these descriptors. -/
theorem View.Aside.of_world {fds : List Fd} {v v' : View}
    (hfds : ∀ fd ∈ fds, v'.process.fds.file? fd = v.process.fds.file? fd) (hworld : v'.world = v.world) :
    v.Aside fds v' where
  streams fd hfd := by
    have hfile := hfds fd hfd
    unfold FdTable.file? at hfile
    unfold View.file?
    rw [hworld]
    cases hx : v.process.fds.get? fd with
    | none =>
        rw [hx] at hfile
        rw [Option.map_eq_none_iff.mp hfile]
    | some x =>
        rw [hx] at hfile
        obtain ⟨y, hy, hsame⟩ := Option.map_eq_some_iff.mp hfile
        simp [hy, hsame]
  contents fd hfd id hid := by rw [hworld]
  tree := by rw [hworld]; exact .refl _
  files := by rw [hworld]; exact .refl _

/-- What a process does that writes chunks to the descriptors, besides what it
does aside. -/
inductive View.Writes (fds : List Fd) : View → Chunks → View → Prop where
  | nil (v : View) : Writes fds v [] v
  | chunk {v u v' : View} {fd : Fd} {data : Bytes} {ws : Chunks} : fd ∈ fds →
      (Call.writeNow fd data).attempt v = (.ok (), u) → Writes fds u ws v' →
      Writes fds v ((fd, data) :: ws) v'
  | aside {v u v' : View} {ws : Chunks} : v.Aside fds u → Writes fds u ws v' → Writes fds v ws v'

/-- What is done aside does not change where the descriptors stand. -/
theorem View.WritesTo.aside {v v' : View} {fds : List Fd} {id : NodeId} {data : Bytes}
    (h : v.WritesTo fds id data) (hne : fds ≠ []) (haside : v.Aside fds v') :
    v'.WritesTo fds id data := by
  obtain ⟨n, f, hstreams, hwritable, htarget, hoffset⟩ := h.streams
  obtain ⟨node, hnode, hcontent⟩ := h.node
  obtain ⟨fd, hfd⟩ := List.exists_mem_of_ne_nil fds hne
  have hheld : v.held fd = some id := by
    unfold View.held
    rw [hstreams fd hfd]
    simp only [htarget]
  have hsame := haside.contents fd hfd id hheld
  rw [hnode] at hsame
  obtain ⟨node', hnode', hcontent'⟩ := Option.map_eq_some_iff.mp hsame
  exact ⟨⟨n, f, fun fd hfd => (haside.streams fd hfd).trans (hstreams fd hfd), hwritable, htarget,
    hoffset⟩, node', hnode', hcontent'.trans hcontent⟩

/-- All that was written comes last, in its order. -/
theorem View.Writes.writesTo {v v' : View} {fds : List Fd} {ws : Chunks} {id : NodeId} {data : Bytes}
    (h : Writes fds v ws v') (hne : fds ≠ []) (hv : v.WritesTo fds id data) :
    v'.WritesTo fds id (data ++ ws.bytes) ∧ v.world.tree.Grows v'.world.tree ∧
      v.world.Extends v'.world := by
  induction h generalizing data with
  | nil v => exact ⟨by simpa [Chunks.bytes] using hv, .refl _, .refl _⟩
  | @chunk v u v' fd chunk ws hfd hwrite _ ih =>
      obtain ⟨u', hwrite', hu, -, hgrows⟩ := hv.write hfd chunk
      obtain rfl : u = u' := congrArg Prod.snd (hwrite.symm.trans hwrite')
      obtain ⟨hv', htree, hfiles⟩ := ih hu
      rw [List.append_assoc] at hv'
      exact ⟨hv', hgrows.tree.trans htree, hgrows.files.trans hfiles⟩
  | aside haside _ ih =>
      obtain ⟨hv', htree, hfiles⟩ := ih (hv.aside hne haside)
      exact ⟨hv', haside.tree.trans htree, haside.files.trans hfiles⟩

/-- Any chunks can be written. -/
theorem View.WritesTo.exists_writes {v : View} {fds : List Fd} {id : NodeId} {data : Bytes}
    (h : v.WritesTo fds id data) {ws : Chunks} (hws : ∀ w ∈ ws, w.1 ∈ fds) :
    ∃ v', v.Writes fds ws v' := by
  induction ws generalizing v data with
  | nil => exact ⟨v, .nil v⟩
  | cons w rest ih =>
      obtain ⟨hfd, hrest⟩ := List.forall_mem_cons.mp hws
      obtain ⟨u, hwrite, hu, -, -⟩ := h.write hfd w.2
      obtain ⟨v', hwrites⟩ := ih hu hrest
      exact ⟨v', .chunk hfd hwrite hwrites⟩

end Posix

-- ================================================================ openings

namespace Command

/-- Output goes to the path, and so does error where it is redirected. -/
structure Outputs (c : Command) (path : String) (append : Bool) : Prop where
  output : c.output = some ⟨path, append⟩
  error : ∀ r, c.error = some r → r.path = path

/-- The streams that go to the path. -/
def outlets (c : Command) : List Fd :=
  Fd.stdout :: if c.error.isSome then [Fd.stderr] else []

variable {c : Command} {path : String} {append : Bool}

theorem Outputs.shares (h : c.Outputs path append) :
    c.sharesOutputAndError = c.error.isSome := by
  unfold sharesOutputAndError
  rw [h.output]
  cases herr : c.error with
  | none => rfl
  | some r =>
      have := h.error r herr
      simp [this]

/-- All of them get the one opening. -/
theorem Outputs.opening? (h : c.Outputs path append) {fd : Fd} (hfd : fd ∈ c.outlets) :
    c.opening? fd = some c.input.toList.length := by
  have hout : c.opening? Fd.stdout = some c.input.toList.length := by
    simp [Command.opening?, h.output, Fd.stdin, Fd.stdout]
  rcases List.mem_cons.mp hfd with rfl | hfd
  · exact hout
  · split at hfd
    · next herr =>
      obtain rfl := List.mem_singleton.mp hfd
      rw [opening?_shared (h.shares.trans herr), hout]
    · cases hfd

theorem outlets_le {fd : Fd} (hfd : fd ∈ c.outlets) : fd ≤ Fd.stderr := by
  rcases List.mem_cons.mp hfd with rfl | hfd
  · decide
  · split at hfd
    · obtain rfl := List.mem_singleton.mp hfd
      exact Nat.le_refl _
    · cases hfd

end Command

namespace Redirection

variable {c : Command} {path : String} {append : Bool} {v v' : View} {o : Opened} {fd : Fd}
  {mode : Call.Mode}

theorem openPath_ok (h : openPath path mode v = (.ok fd, v')) :
    Call.openFile (Bytes.ofString path) mode v = .ok fd v' ∧
      Call.Opening (Bytes.ofString path) mode v fd v' := by
  unfold openPath at h
  split at h
  · cases h
  rcases Call.openFile_cases (Bytes.ofString path) mode v with ⟨e, hopen⟩ | ⟨fd', u, hopen, hopening⟩
  · rw [hopen] at h
    cases h
  · rw [hopen] at h
    cases h
    exact ⟨hopen, hopening⟩

/-- The input is opened, if there is one, and then the one file. -/
theorem openAll_outputs (hc : c.Outputs path append) (h : openAll c v = (.ok o, v')) :
    ∃ u, (u = v ∧ c.input = none ∨
        ∃ q fd, c.input = some q ∧ openPath q .forReading v = (.ok fd, u)) ∧
      ∃ fd, openPath path (.forOutput append) u = (.ok fd, v') := by
  unfold openAll at h
  have hin : ∃ o₁ u, openNext {} (c.input.map (·, .forReading)) ({ · with input := some · }) v
      = (.ok o₁, u) ∧ (u = v ∧ c.input = none ∨
        ∃ q fd, c.input = some q ∧ openPath q .forReading v = (.ok fd, u)) := by
    cases hinput : c.input with
    | none => exact ⟨{}, v, rfl, .inl ⟨rfl, rfl⟩⟩
    | some q =>
        rw [hinput] at h
        simp only [Option.map_some, openNext] at h ⊢
        cases hopen : openPath q .forReading v with
        | mk r u =>
        rw [hopen] at h
        cases r with
        | error e => cases h
        | ok fd => exact ⟨_, u, rfl, .inr ⟨q, fd, rfl, hopen⟩⟩
  obtain ⟨o₁, u, hnext, hu⟩ := hin
  refine ⟨u, hu, ?_⟩
  rw [hnext] at h
  simp only [hc.output, Option.map_some, outputTarget, openNext] at h
  cases hopen : openPath path (.forOutput append) u with
  | mk r w =>
  rw [hopen] at h
  cases r with
  | error e => cases h
  | ok fd =>
      simp only at h
      split at h
      · cases h
        exact ⟨fd, rfl⟩
      · next hshared =>
        have hnone : c.error = none := by
          rw [hc.shares] at hshared
          simpa using hshared
        rw [hnone] at h
        cases h
        exact ⟨fd, rfl⟩

/-- The file that output goes to, once it was opened for that: its data, its open
file, and where it is found later on. -/
structure OpenedFor (append : Bool) (path : Bytes) (data : Bytes) (v u v' : View) (n : Nat) (id : NodeId) :
    Prop where
  node : ∃ node, v'.world.tree.nodes[id]? = some node ∧
    node.content = .file (if append then data else [])
  file : v'.world.files[n]? = some
    { target := .node id, readable := false, writable := true, append := append }
  tree : u.world.tree.Grows v'.world.tree
  files : u.world.Extends v'.world
  later : ∀ {w : View} {d : Bytes}, v.Grows w → v'.world.tree.Grows w.world.tree →
    FileTree.origin w.process.cwd path = FileTree.origin v.process.cwd path →
    (∃ node, w.world.tree.nodes[id]? = some node ∧ node.content = .file d) → w.Leads path id d

theorem openedFor_of_openAll {u : View} {data : Bytes} (hc : c.Outputs path append)
    (hdata : v.HasData (Bytes.ofString path) data) (hu : v.Grows u)
    (htree : u.world.tree = v.world.tree) (hcwd : u.process.cwd = v.process.cwd)
    (h : openAll c u = (.ok o, v')) :
    ∃ id, OpenedFor append (Bytes.ofString path) data v u v'
      (u.world.files.size + c.input.toList.length) id := by
  obtain ⟨w, hin, fd, hout⟩ := openAll_outputs hc h
  have hw : u.Grows w ∧ w.world.tree = u.world.tree ∧ w.process.cwd = u.process.cwd ∧
      w.world.files.size = u.world.files.size + c.input.toList.length := by
    rcases hin with ⟨rfl, hnone⟩ | ⟨q, fd', hsome, hopen⟩
    · rw [hnone]
      exact ⟨.refl _, rfl, rfl, rfl⟩
    · obtain ⟨-, hopening⟩ := openPath_ok hopen
      have htree := hopening.tree_of_reading
      obtain ⟨id, -, hfiles⟩ := hopening.node
      refine ⟨hopening.grows (by rw [htree]; exact .refl _), htree, by rw [hopening.process], ?_⟩
      rw [hfiles, Array.size_push, hsome]
      rfl
  obtain ⟨hgrows, htree', hcwd', hsize⟩ := hw
  obtain ⟨hopen, hopening⟩ := openPath_ok hout
  have hopened := Call.openFile_grows hopen
  obtain ⟨id, hnode, hfiles, hlater⟩ := hopening.leads hdata (hu.trans hgrows) (htree'.trans htree)
    (by rw [hcwd', hcwd])
  refine ⟨id, hnode, ?_, htree' ▸ hopened, ?_, hlater⟩
  · rw [hfiles, ← hsize, Array.getElem?_push, if_pos rfl]
  · exact hgrows.files.trans (hopening.grows hopened).files

/-- Files that were opened are put in place, for good or under a guard. -/
def Attaches (o : Opened) (v p : View) : Prop :=
  attach o v = (.ok ⟨⟩, p) ∨ ∃ g, attachScoped o v = (.ok g, p)

/-- Either way the streams get their openings, and the world is the same. -/
theorem streams_of_attaches {u w p : View} (hopen : openAll c u = (.ok o, w))
    (hstd : u.process.fds.Standard) (h : Attaches o w p) : p.world = w.world ∧
      ∀ fd ≤ Fd.stderr, ∀ i, c.opening? fd = some i →
        p.process.fds.get? fd = some ⟨u.world.files.size + i, false⟩ := by
  obtain ⟨x, hattach, hattached⟩ := attached_of_openAll hopen hstd rfl
  rcases h with h | ⟨g, h⟩
  · obtain rfl : x = p := congrArg Prod.snd (hattach.symm.trans h)
    exact ⟨hattached.world, fun fd _ i hi => by rw [hattached.streams, hi]⟩
  · have inward := attachScoped_keeps Call.handling_inward o w
    rw [h] at inward
    have hadds := (opens_of_openAll hopen).1.adds
    have halong := attachScoped_alongside hstd hadds hattach h
    have standard : x.process.fds.Standard := fun fd hfd => by
      rw [hattached.streams]
      split
      · rfl
      · exact hstd fd hfd
    refine ⟨inward, fun fd hfd i hi => ?_⟩
    -- the copies of the guard are above the streams
    rw [halong.same fd fun hmem => ?_, hattached.streams, hi]
    exact Nat.not_lt_of_le hfd (standard.lt_of_free (halong.copies fd hmem).1)

/-- Once all is in place, what is written to the outlets goes to the end of the file. -/
theorem OpenedFor.writesTo {u w p : View} {data : Bytes} {id : NodeId}
    (h : OpenedFor append (Bytes.ofString path) data v u w (u.world.files.size + c.input.toList.length) id)
    (hc : c.Outputs path append) (hopen : openAll c u = (.ok o, w))
    (hstd : u.process.fds.Standard) (hattach : Attaches o w p) :
    p.WritesTo c.outlets id (if append then data else []) := by
  obtain ⟨hworld, hstreams⟩ := streams_of_attaches hopen hstd hattach
  refine ⟨⟨u.world.files.size + c.input.toList.length,
    { target := .node id, readable := false, writable := true, append := append },
    fun fd hfd => ?_, rfl, rfl, fun happend => ?_⟩, hworld ▸ h.node⟩
  · have hrow := hstreams fd (Command.outlets_le hfd) _ (hc.opening? hfd)
    unfold View.file?
    simp only [hrow, hworld, h.file, bind, Option.bind, pure]
  · have happend : append = false := happend
    rw [happend]
    rfl

/-- A command without input opens its files where the path has data. -/
theorem openAll_of_data {data : Bytes} (hc : c.Outputs path append) (hinput : c.input = none)
    (hdata : v.HasData (Bytes.ofString path) data) (hnul : hasNul path = false)
    (hspare : v.spare ≠ 0) : ∃ o v', openAll c v = (.ok o, v') := by
  obtain ⟨fd, v', hopen⟩ : ∃ fd v',
      Call.openFile (Bytes.ofString path) (.forOutput append) v = .ok fd v' :=
    Call.openFile_of_data hdata hspare
  have hpath : openPath path (.forOutput append) v = (.ok fd, v') := by
    simp only [openPath, hnul, hopen]
    rfl
  unfold openAll
  simp only [hinput, hc.output, Option.map_none, Option.map_some, outputTarget, openNext, hpath]
  split
  · exact ⟨_, _, rfl⟩
  · next hshared =>
    have hnone : c.error = none := by
      rw [hc.shares] at hshared
      simpa using hshared
    exact ⟨_, _, by rw [hnone]; rfl⟩

end Redirection

-- =================================================================== leaves

/-- A command whose output goes to a path, and the chunks that it writes to the
streams that go there. -/
structure Leaf (path : String) where
  command : Command
  append : Bool
  outputs : command.Outputs path append
  writes : Chunks
  reaches : ∀ w ∈ writes, w.1 ∈ command.outlets

namespace Leaf

open Redirection

variable {path : String} {x : Leaf path} {v v' : View} {data : Bytes}

/-- What it leaves of data. -/
def leaves (x : Leaf path) (data : Bytes) : Bytes :=
  (if x.append then data else []) ++ x.writes.bytes

/-- A command runs: it opens its files, puts them in place, and writes. -/
inductive Runs (x : Leaf path) (v : View) : View → Prop where
  /-- It does so in another process, which began with what this one has. -/
  | apart {u w p q : View} {o : Opened} : u.world = v.world → u.process.fds = v.process.fds →
      u.process.cwd = v.process.cwd → openAll x.command u = (.ok o, w) → Attaches o w p →
      p.Writes x.command.outlets x.writes q → Runs x v { v with world := q.world }
  /-- It does so in this process, which then puts back what it had. -/
  | within {w s q : View} {o : Opened} {g : Guard} : openAll x.command v = (.ok o, w) →
      attachScoped o w = (.ok g, s) → s.Writes x.command.outlets x.writes q →
      q.process.fds = s.process.fds → q.process.fdLimit = v.process.fdLimit →
      FileTree.origin q.process.cwd (Bytes.ofString path)
        = FileTree.origin v.process.cwd (Bytes.ofString path) →
      Runs x v (restore g q)

theorem outlets_ne_nil (c : Command) : c.outlets ≠ [] := List.cons_ne_nil _ _

/-- Whoever runs the command, the file is where the path leads, with what is left. -/
theorem leads {u w p q : View} {o : Opened} (hdata : v.HasData (Bytes.ofString path) data)
    (hstd : v.process.fds.Standard) (hworld : u.world = v.world)
    (hfds : u.process.fds = v.process.fds) (hcwd : u.process.cwd = v.process.cwd)
    (hopen : openAll x.command u = (.ok o, w)) (hattach : Attaches o w p)
    (hwrites : p.Writes x.command.outlets x.writes q) (hback : v'.process.fds.Alike v.process.fds)
    (hworld' : v'.world = q.world)
    (horigin : FileTree.origin v'.process.cwd (Bytes.ofString path)
      = FileTree.origin v.process.cwd (Bytes.ofString path)) :
    ∃ id, v'.Leads (Bytes.ofString path) id (x.leaves data) := by
  have hu : v.Grows u := ⟨by rw [hworld]; exact .refl _, by rw [hworld]; exact .refl _,
    fun fd n hn => by rw [hfds]; exact hn⟩
  obtain ⟨id, hopened⟩ := openedFor_of_openAll x.outputs hdata hu (by rw [hworld]) hcwd hopen
  have hstd' : u.process.fds.Standard := hfds ▸ hstd
  obtain ⟨hq, htree, hfiles⟩ := hwrites.writesTo (outlets_ne_nil _)
    (hopened.writesTo x.outputs hopen hstd' hattach)
  have hp := (streams_of_attaches hopen hstd' hattach).1
  rw [hp] at htree hfiles
  refine ⟨id, hopened.later ⟨?_, ?_, fun fd n hn => ?_⟩ ?_ horigin ?_⟩
  · rw [hworld', ← hworld]
    exact hopened.tree.trans htree
  · rw [hworld', ← hworld]
    exact hopened.files.trans hfiles
  · rw [hback.files fd]
    exact hn
  · rw [hworld']
    exact htree
  · rw [hworld']
    exact hq.node

/-- Afterwards the path leads to the file with what is left, and the shell has
the descriptors that it had. -/
theorem Runs.ready (h : x.Runs v v') (hdata : v.HasData (Bytes.ofString path) data)
    (hstd : v.process.fds.Standard) :
    (∃ id, v'.Leads (Bytes.ofString path) id (x.leaves data)) ∧
      v'.process.fds.Alike v.process.fds ∧ v'.process.fdLimit = v.process.fdLimit := by
  cases h with
  | apart hworld hfds hcwd hopen hattach hwrites =>
      exact ⟨leads hdata hstd hworld hfds hcwd hopen hattach hwrites (.refl _) rfl rfl, .refl _, rfl⟩
  | @within w s q o g hopen hattach hwrites hsame hlimit horigin =>
      have halike : (restore g q).process.fds.Alike v.process.fds := by
        have hadds := (opens_of_openAll hopen).1.adds
        rcases attachScoped_givesBack hstd hadds with ⟨e, u, herr, -⟩ | ⟨g', u, hok, hback⟩
        · rw [hattach] at herr
          cases herr
        · rw [hattach] at hok
          cases hok
          exact restore_alike (hsame ▸ hback)
      have hworld : (restore g q).world = q.world := restore_keeps Call.handling_inward g q
      have hcwd : (restore g q).process.cwd = q.process.cwd := (restore_quiet g q).cwd
      have hlimit' : (restore g q).process.fdLimit = q.process.fdLimit :=
        restore_keeps (.of_tolerant .limit) g q
      exact ⟨leads hdata hstd rfl rfl rfl hopen (.inr ⟨g, hattach⟩) hwrites halike hworld
        (by rw [hcwd, horigin]), halike, hlimit'.trans hlimit⟩

/-- A command without input can be run, whatever chunks it writes. -/
theorem exists_runs (x : Leaf path) (hinput : x.command.input = none)
    (hdata : v.HasData (Bytes.ofString path) data) (hnul : hasNul path = false)
    (hstd : v.process.fds.Standard) (hspare : v.spare ≠ 0) : ∃ v', x.Runs v v' := by
  obtain ⟨o, w, hopen⟩ := openAll_of_data x.outputs hinput hdata hnul hspare
  obtain ⟨p, hattach, -⟩ := attached_of_openAll hopen hstd rfl
  obtain ⟨id, hopened⟩ := openedFor_of_openAll x.outputs hdata (.refl v) rfl rfl hopen
  have hwrites := hopened.writesTo x.outputs hopen hstd (.inl hattach)
  obtain ⟨q, hq⟩ := hwrites.exists_writes x.reaches
  exact ⟨_, .apart rfl rfl rfl hopen (.inl hattach) hq⟩

-- ================================================================ sequences

/-- Between two commands nobody writes, and the path names what it named. -/
structure Rests (path : String) (v v' : View) : Prop where
  tree : v'.world.tree = v.world.tree
  files : v.world.Extends v'.world
  fds : v'.process.fds.Alike v.process.fds
  limit : v'.process.fdLimit = v.process.fdLimit
  origin : FileTree.origin v'.process.cwd (Bytes.ofString path)
    = FileTree.origin v.process.cwd (Bytes.ofString path)

theorem Rests.refl (path : String) (v : View) : Rests path v v :=
  ⟨rfl, .refl _, .refl _, rfl, rfl⟩

theorem Rests.hasData (h : Rests path v v') (hdata : v.HasData (Bytes.ofString path) data) :
    v'.HasData (Bytes.ofString path) data :=
  hdata.same_tree ⟨by rw [h.tree]; exact .refl _, h.files, fun fd n hn => (h.fds.files fd).trans hn⟩
    h.origin h.tree

/-- Commands run one after the other. -/
inductive InTurn : View → List (Leaf path) → View → Prop where
  | nil {v v' : View} : Rests path v v' → InTurn v [] v'
  | cons {v u w v' : View} {x : Leaf path} {xs : List (Leaf path)} : Rests path v u → x.Runs u w →
      InTurn w xs v' → InTurn v (x :: xs) v'

variable {xs before after : List (Leaf path)}

/-- All chunks of the commands, in their order. -/
def chunks (xs : List (Leaf path)) : Bytes := xs.flatMap fun x => x.writes.bytes

/-- What one after the other leaves of data. -/
def leftBy (xs : List (Leaf path)) (data : Bytes) : Bytes :=
  xs.foldl (fun data x => x.leaves data) data

/-- One after the other leaves what it leaves, and each finds what it needs. -/
theorem InTurn.ready (h : InTurn v xs v') (hdata : v.HasData (Bytes.ofString path) data)
    (hstd : v.process.fds.Standard) : v'.HasData (Bytes.ofString path) (leftBy xs data) ∧
      v'.process.fds.Alike v.process.fds ∧ v'.process.fdLimit = v.process.fdLimit := by
  induction h generalizing data with
  | nil hrests => exact ⟨hrests.hasData hdata, hrests.fds, hrests.limit⟩
  | cons hrests hruns _ ih =>
      have hstd' := hrests.fds.symm.standard hstd
      obtain ⟨⟨id, hleads⟩, hfds, hlimit⟩ := hruns.ready (hrests.hasData hdata) hstd'
      obtain ⟨hleft, hfds', hlimit'⟩ := ih (.leads hleads) (hfds.symm.standard hstd')
      exact ⟨hleft, hfds'.trans (hfds.trans hrests.fds), hlimit'.trans (hlimit.trans hrests.limit)⟩

/-- Data that a path has when a command has run is that of a file. -/
theorem InTurn.leads (h : InTurn v xs v') (hne : xs ≠ [])
    (hdata : v.HasData (Bytes.ofString path) data) (hstd : v.process.fds.Standard) :
    ∃ id, v'.Leads (Bytes.ofString path) id (leftBy xs data) := by
  induction h generalizing data with
  | nil => exact absurd rfl hne
  | @cons v u w v' x xs hrests hruns hrest ih =>
      have hstd' := hrests.fds.symm.standard hstd
      obtain ⟨⟨id, hleads⟩, hfds, -⟩ := hruns.ready (hrests.hasData hdata) hstd'
      cases hrest with
      | nil hrests' =>
          exact ⟨id, hleads.grows ⟨by rw [hrests'.tree]; exact .refl _, hrests'.files,
            fun fd n hn => (hrests'.fds.files fd).trans hn⟩ hrests'.origin
            (by rw [hrests'.tree]; exact hleads.node)⟩
      | cons => exact ih (List.cons_ne_nil _ _) (.leads hleads) (hfds.symm.standard hstd')

/-- Where all add, nothing is lost. -/
theorem leftBy_of_append (h : ∀ x ∈ xs, x.append = true) (data : Bytes) :
    leftBy xs data = data ++ chunks xs := by
  induction xs generalizing data with
  | nil => exact (List.append_nil data).symm
  | cons x xs ih =>
      obtain ⟨hx, hxs⟩ := List.forall_mem_cons.mp h
      change leftBy xs (x.leaves data) = data ++ (x.writes.bytes ++ chunks xs)
      rw [ih hxs, leaves, hx, if_pos rfl, List.append_assoc]

/-- The last that empties the file decides what is left of all before it. -/
theorem leftBy_of_truncate (hx : x.append = false) (hafter : ∀ y ∈ after, y.append = true)
    (data : Bytes) : leftBy (before ++ x :: after) data = chunks (x :: after) := by
  change List.foldl _ _ (before ++ x :: after) = x.writes.bytes ++ chunks after
  rw [List.foldl_append, List.foldl_cons, ← leftBy_of_append hafter, leaves, hx,
    if_neg Bool.false_ne_true, List.nil_append]
  rfl

/-- The path leads to a file, whose contents are the data. -/
def Holds (path : String) (v : View) (data : Bytes) : Prop :=
  ∃ id, v.world.tree.find v.held v.process.cwd (Bytes.ofString path) = .ok id ∧
    v.world.tree.content id = .file data

/-- Commands run one after the other, the output of each and perhaps its error
going to one path. What is there then are the chunks of all from the last one
on whose output empties the file, in the order in which they were written, or,
where there is none, of all, after the data from before. Whether a command
empties the file its output alone decides. Another command without input can
be run then, and can write any chunks. -/
theorem contents_of_runs (h : InTurn v xs v') (hdata : v.HasData (Bytes.ofString path) data)
    (hstd : v.process.fds.Standard) :
    (∀ before x after, xs = before ++ x :: after → x.append = false →
      (∀ y ∈ after, y.append = true) → Holds path v' (chunks (x :: after))) ∧
    ((∀ x ∈ xs, x.append = true) → v'.HasData (Bytes.ofString path) (data ++ chunks xs) ∧
      (xs ≠ [] → Holds path v' (data ++ chunks xs))) ∧
    (hasNul path = false → v.spare ≠ 0 →
      ∀ x : Leaf path, x.command.input = none → ∃ v'', x.Runs v' v'') := by
  obtain ⟨hleft, hfds, hlimit⟩ := h.ready hdata hstd
  have holds (hne : xs ≠ []) : Holds path v' (leftBy xs data) := by
    obtain ⟨id, hleads⟩ := h.leads hne hdata hstd
    exact ⟨id, hleads.find⟩
  refine ⟨fun before x after hsplit hx hafter => ?_, fun happend => ?_, fun hnul hspare x hinput => ?_⟩
  · have hlast : leftBy xs data = chunks (x :: after) := by
      rw [hsplit]
      exact leftBy_of_truncate hx hafter data
    rw [← hlast]
    exact holds (by simp [hsplit])
  · rw [← leftBy_of_append happend]
    exact ⟨hleft, holds⟩
  · refine x.exists_runs hinput hleft hnul (hfds.symm.standard hstd) ?_
    rw [View.spare, hfds.spare, hlimit]
    exact hspare

/-- Output to a file that is not there yet, output that empties it, which error
shares although it is to add, and error with output that adds. -/
theorem contents_of_runs_mixed :
    let first : Leaf "f" :=
      { command := { verb := "a", argv := ["a"], output := some ⟨"f", true⟩ }
        append := true
        outputs := ⟨rfl, nofun⟩
        writes := [(1, [1])]
        reaches := by decide }
    let second : Leaf "f" :=
      { command := { verb := "b", argv := ["b"], output := some ⟨"f", false⟩, error := some ⟨"f", true⟩ }
        append := false
        outputs := ⟨rfl, fun _ h => by cases h; rfl⟩
        writes := [(2, [2]), (1, [3]), (2, [4])]
        reaches := by decide }
    let third : Leaf "f" :=
      { command := { verb := "c", argv := ["c"], output := some ⟨"f", true⟩, error := some ⟨"f", false⟩ }
        append := true
        outputs := ⟨rfl, fun _ h => by cases h; rfl⟩
        writes := [(1, [5]), (2, [6])]
        reaches := by decide }
    ∃ v', InTurn View.atTerminal [first, second, third] v' ∧ Holds "f" v' [2, 3, 4, 5, 6] := by
  intro first second third
  have hdata : View.atTerminal.HasData (Bytes.ofString "f") [] :=
    @View.HasData.missing _ _ _ ⟨FileTree.root, [102], none, false⟩ (by decide +kernel) rfl
      (by decide +kernel) rfl
  have hstd := View.atTerminal_standard
  have hspare : View.atTerminal.spare ≠ 0 := by decide +kernel
  obtain ⟨v₁, h₁⟩ := first.exists_runs rfl hdata (by decide +kernel) hstd hspare
  have one : InTurn View.atTerminal [first] v₁ := .cons (.refl _ _) h₁ (.nil (.refl _ _))
  obtain ⟨v₂, h₂⟩ := (contents_of_runs one hdata hstd).2.2 (by decide +kernel) hspare second rfl
  have two : InTurn View.atTerminal [first, second] v₂ :=
    .cons (.refl _ _) h₁ (.cons (.refl _ _) h₂ (.nil (.refl _ _)))
  obtain ⟨v₃, h₃⟩ := (contents_of_runs two hdata hstd).2.2 (by decide +kernel) hspare third rfl
  have three : InTurn View.atTerminal [first, second, third] v₃ :=
    .cons (.refl _ _) h₁ (.cons (.refl _ _) h₂ (.cons (.refl _ _) h₃ (.nil (.refl _ _))))
  exact ⟨v₃, three, (contents_of_runs three hdata hstd).1 [first] second [third] rfl rfl
    fun y hy => by rw [List.mem_singleton.mp hy]⟩

end Leaf

end LineShell
