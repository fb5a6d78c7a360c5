/-
What paths lead to while files are made and written.

# Growth

A tree grows when names are added to its directories and data is written to
its files: what a directory names it goes on naming, and of a node that is no
file and no directory nothing is different (`FileTree.Grows`). A process whose
descriptors lead where they led sees the tree grow (`View.Grows`), whatever
other descriptors it has.

# Paths

A path that led to a node leads there in the grown tree, and one that led to
no node leads to what has been named so since (`resolve_grows`): the walk
passes directories and links alone, and each of them is as it was, but for
names that were not asked for. So it arrives by the same rules
(`Arrives.grows`), but that a last name may be there now that was not.

# Files

A path has data if it leads to a file with that data, or if the file can be
made and there is no data yet (`View.HasData`). It keeps its data while the
tree grows, as long as nothing is written to the file.
-/
import LineShell.Proofs.Posix.Opening
import LineShell.Proofs.Posix.Spare

namespace LineShell.Posix

-- ================================================================== growth

/-- What a node may hold after a tree has grown. -/
def Content.Grows : Content → Content → Prop
  | .file _, c => ∃ data, c = .file data
  | .directory up entries, c => ∃ entries', c = .directory up entries' ∧
      ∀ name id, entries.lookup name = some id → entries'.lookup name = some id
  | c, c' => c' = c

theorem Content.Grows.refl (c : Content) : c.Grows c := by
  cases c with
  | file data => exact ⟨data, rfl⟩
  | directory up entries => exact ⟨entries, rfl, fun _ _ => id⟩
  | link | null | zero | full | terminal | pipe | program | descriptors => rfl

theorem Content.Grows.trans {c c' c'' : Content} (h : c.Grows c') (h' : c'.Grows c'') :
    c.Grows c'' := by
  cases c with
  | file data =>
      obtain ⟨data', rfl⟩ := h
      exact h'
  | directory up entries =>
      obtain ⟨entries', rfl, hentries⟩ := h
      obtain ⟨entries'', rfl, hentries'⟩ := h'
      exact ⟨entries'', rfl, fun name id hid => hentries' name id (hentries name id hid)⟩
  | link | null | zero | full | terminal | pipe | program | descriptors =>
      obtain rfl : c' = _ := h
      exact h'

namespace FileTree

/-- All that the first tree has the second has as well. -/
def Grows (t t' : FileTree) : Prop := ∀ id, (t.content id).Grows (t'.content id)

/-- Where no node was found, what there is now. -/
def Place.again (t : FileTree) (spot : Place) : Place :=
  { spot with node := spot.node.or ( entry? t spot.dir spot.name) }

/-- Where no node was found in the first tree, there is a file in the second, or
one can be made as before. -/
def Welcomes (t t' : FileTree) (spot : Place) : Prop :=
  spot.node = none →
    (∀ id, entry? t' spot.dir spot.name = some id → ∃ data, t'.content id = .file data) ∧
      ( entry? t' spot.dir spot.name = none → t'.isFixed spot.dir = t.isFixed spot.dir)

theorem entry?_of_lacks {t : FileTree} {dir : NodeId} {name : Bytes} (h : t.Lacks dir name) :
    t.entry? dir name = none := by
  obtain ⟨up, entries, hdir, hlookup⟩ := h
  rw [ entry?, hdir]
  exact hlookup

/-- Where there is still no such name, nothing has changed. -/
theorem again_of_lacks {t : FileTree} {spot : Place} (h : t.Lacks spot.dir spot.name) :
    spot.again t = spot := by
  rw [Place.again, entry?_of_lacks h, Option.or_none]

namespace Grows

variable {t t' : FileTree} {held held' : Held} {dir id : NodeId} {name : Bytes}

theorem refl (t : FileTree) : t.Grows t := fun _ => .refl _

theorem trans {t'' : FileTree} (h : t.Grows t') (h' : t'.Grows t'') : t.Grows t'' :=
  fun id => (h id).trans (h' id)

theorem isDirectory (h : t.Grows t') (id : NodeId) : t'.isDirectory id = t.isDirectory id := by
  have hid := h id
  unfold FileTree.isDirectory
  cases hc : t.content id with
  | file data =>
      rw [hc] at hid
      obtain ⟨data', hc'⟩ := hid
      rw [hc']
  | directory up entries =>
      rw [hc] at hid
      obtain ⟨entries', hc', -⟩ := hid
      rw [hc']
  | link | null | zero | full | terminal | pipe | program | descriptors =>
      rw [hc] at hid
      rw [show t'.content id = _ from hid]

theorem parent (h : t.Grows t') (dir : NodeId) : t'.parent dir = t.parent dir := by
  have hdir := h dir
  unfold FileTree.parent
  cases hc : t.content dir with
  | file data =>
      rw [hc] at hdir
      obtain ⟨data', hc'⟩ := hdir
      rw [hc']
  | directory up entries =>
      rw [hc] at hdir
      obtain ⟨entries', hc', -⟩ := hdir
      rw [hc']
  | link | null | zero | full | terminal | pipe | program | descriptors =>
      rw [hc] at hdir
      rw [show t'.content dir = _ from hdir]

/-- What was found under a name is found there still. -/
theorem lookUp (h : t.Grows t') (hheld : ∀ fd id, held fd = some id → held' fd = some id)
    (hfound : t.lookUp held dir name = some id) : t'.lookUp held' dir name = some id := by
  have hdir := h dir
  unfold FileTree.lookUp entry? at hfound ⊢
  cases hc : t.content dir with
  | directory up entries =>
      rw [hc] at hdir hfound
      obtain ⟨entries', hc', hentries⟩ := hdir
      rw [hc']
      exact hentries name id hfound
  | descriptors =>
      rw [hc] at hdir hfound
      rw [show t'.content dir = _ from hdir]
      obtain ⟨fd, hfd, hid⟩ := Option.bind_eq_some_iff.mp hfound
      exact Option.bind_eq_some_iff.mpr ⟨fd, hfd, hheld fd id hid⟩
  | file | link | null | zero | full | terminal | pipe | program =>
      rw [hc] at hfound
      cases hfound

theorem entry? (h : t.Grows t') (hfound : t.entry? dir name = some id) :
    FileTree.entry? t' dir name = some id := by
  have hdir := h dir
  unfold FileTree.entry? at hfound ⊢
  cases hc : t.content dir with
  | directory up entries =>
      rw [hc] at hdir hfound
      obtain ⟨entries', hc', hentries⟩ := hdir
      rw [hc']
      exact hentries name id hfound
  | file | link | null | zero | full | terminal | pipe | program | descriptors =>
      rw [hc] at hfound
      cases hfound

/-- Under a name that there was not, there is what has been named so. -/
theorem lookUp_missing (h : t.Grows t') (hfixed : t.isFixed dir = false) :
    t'.lookUp held' dir name = FileTree.entry? t' dir name := by
  have hdir := h dir
  unfold FileTree.lookUp
  split
  · next hc' =>
    unfold isFixed at hfixed
    cases hc : t.content dir with
    | descriptors =>
        rw [hc] at hfixed
        cases hfixed
    | file data =>
        rw [hc, hc'] at hdir
        obtain ⟨data', hdata⟩ := hdir
        cases hdata
    | directory up entries =>
        rw [hc, hc'] at hdir
        obtain ⟨entries', hentries, -⟩ := hdir
        cases hentries
    | link | null | zero | full | terminal | pipe | program =>
        rw [hc, hc'] at hdir
        cases hdir
  · rfl

/-- Links stay, and nothing else becomes one. -/
theorem content_link (h : t.Grows t') (id : NodeId) (target : Bytes) :
    t'.content id = .link target ↔ t.content id = .link target := by
  have hid := h id
  cases hc : t.content id with
  | file data =>
      rw [hc] at hid
      obtain ⟨data', hc'⟩ := hid
      simp [hc']
  | directory up entries =>
      rw [hc] at hid
      obtain ⟨entries', hc', -⟩ := hid
      simp [hc']
  | link | null | zero | full | terminal | pipe | program | descriptors =>
      rw [hc] at hid
      rw [show t'.content id = _ from hid]

end Grows

-- =================================================================== paths

section

variable {t t' : FileTree} {held held' : Held} {last' : Last} {spot : Place}

theorem Plain.grows {dir : NodeId} {name : Bytes} {rest : List Bytes} {slashed : Bool}
    (h : t.Plain .file dir name rest slashed) (hgrows : t.Grows t')
    (hlast : last' = .file ∨ last' = .target) : t'.Plain last' dir name rest slashed where
  isDirectory := (hgrows.isDirectory dir).trans h.isDirectory
  notDots := h.notDots
  unslashed := by
    rcases hlast with rfl | rfl
    · exact h.unslashed
    · simp
  short := h.short

theorem Grows.behindDots (h : t.Grows t') (dir : NodeId) (name : Bytes) :
    t'.behindDots dir name = t.behindDots dir name := by
  unfold FileTree.behindDots
  rw [h.parent]

/-- The only name under which nothing was found is the last one. What has
been named so since is a file, or else the name is still free. -/
theorem missing_grows {follow' : Bytes → NodeId → List Bytes → Bool → Except Errno Place}
    {dir : NodeId} {name : Bytes} {slashed : Bool} (hgrows : t.Grows t')
    (hlast : last' = .file ∨ last' = .target) (hplain : t.Plain .file dir name [] slashed)
    (hfixed : t.isFixed dir = false) (hw : t.Welcomes t' ⟨dir, name, none, slashed⟩) :
    t'.Arrives held' last' follow' dir [name] slashed
      (Place.again t' ⟨dir, name, none, slashed⟩) := by
  have hplain' := hplain.grows hgrows hlast
  have hlookup : t'.lookUp held' dir name = FileTree.entry? t' dir name :=
    hgrows.lookUp_missing hfixed
  obtain ⟨hfile, hfree⟩ := hw rfl
  rw [Place.again, Option.none_or]
  cases hentry : FileTree.entry? t' dir name with
  | none => exact .missing hplain' (hlookup.trans hentry) ((hfree hentry).trans hfixed)
  | some id =>
      obtain ⟨data, hdata⟩ := hfile id hentry
      have hslashed : slashed = false := by simpa using hplain.unslashed
      refine .atNode hplain' (hlookup.trans hentry) (fun target hlink => ?_) (by simp [hslashed])
      cases hdata.symm.trans hlink

/-- A walk goes the same way in the grown tree. -/
theorem Arrives.grows {follow follow' : Bytes → NodeId → List Bytes → Bool → Except Errno Place}
    (hgrows : t.Grows t') (hheld : ∀ fd id, held fd = some id → held' fd = some id)
    (hlast : last' = .file ∨ last' = .target)
    (hfollow : ∀ target dir rest slashed spot, follow target dir rest slashed = .ok spot →
      t.Welcomes t' spot → follow' target dir rest slashed = .ok (spot.again t'))
    {names : List Bytes} {dir : NodeId} {slashed : Bool}
    (h : t.Arrives held .file follow dir names slashed spot) (hw : t.Welcomes t' spot) :
    t'.Arrives held' last' follow' dir names slashed (spot.again t') := by
  have stays : ∀ {dir id : NodeId} {name : Bytes}, t.lookUp held dir name = some id →
      t'.lookUp held' dir name = some id := fun hfound => hgrows.lookUp hheld hfound
  have unlinked : ∀ {id : NodeId}, (∀ target, t.content id ≠ .link target) →
      ∀ target, t'.content id ≠ .link target :=
    fun hnot target hlink => hnot target ((hgrows.content_link _ target).mp hlink)
  induction h with
  | here => exact .here
  | atDots hdir hdots =>
      rw [← hgrows.behindDots]
      exact .atDots ((hgrows.isDirectory _).trans hdir) hdots
  | pastDots hdir hdots hends _ ih =>
      refine .pastDots ((hgrows.isDirectory _).trans hdir) hdots hends ?_
      rw [hgrows.behindDots]
      exact ih hw
  | missing hplain _ hfixed => exact missing_grows hgrows hlast hplain hfixed hw
  | atLink _ _ _ hend => simp at hend
  | followed hplain hlookup hlink _ hspot =>
      refine .followed (hplain.grows hgrows hlast) (stays hlookup)
        ((hgrows.content_link _ _).mpr hlink) ?_ (hfollow _ _ _ _ _ hspot hw)
      rcases hlast with rfl | rfl <;> simp
  | atNode hplain hlookup hlink hnode =>
      refine .atNode (hplain.grows hgrows hlast) (stays hlookup) (unlinked hlink) ?_
      rw [hgrows.isDirectory]
      rcases hlast with rfl | rfl <;> exact hnode
  | pastNode hplain hlookup hlink hends _ ih =>
      exact .pastNode (hplain.grows hgrows hlast) (stays hlookup) (unlinked hlink) hends (ih hw)

/-- Where a walk along a path begins. -/
def origin (cwd : NodeId) (path : Bytes) : NodeId := if path.head? = some slash then root else cwd

theorem resolve_grows {cwd cwd' : NodeId} {path : Bytes} (hgrows : t.Grows t')
    (hheld : ∀ fd id, held fd = some id → held' fd = some id)
    (hcwd : origin cwd' path = origin cwd path) (hlast : last' = .file ∨ last' = .target)
    (h : t.resolve held cwd path .file = .ok spot) (hw : t.Welcomes t' spot) :
    t'.resolve held' cwd' path last' = .ok (spot.again t') := by
  have walked : ∀ links dir names slashed spot, t.walk held .file links dir names slashed = .ok spot →
      t.Welcomes t' spot → t'.walk held' last' links dir names slashed = .ok (spot.again t') := by
    intro links
    induction links with
    | zero =>
        exact fun dir names slashed spot h hw => ((arrives_of_walkAlong h).grows hgrows hheld hlast
          (fun _ _ _ _ _ h => by cases h) hw).walkAlong
    | succ links ih =>
        refine fun dir names slashed spot h hw => ((arrives_of_walkAlong h).grows hgrows hheld hlast
          (fun target dir rest slashed spot h hw => ?_) hw).walkAlong
        split at h
        · cases h
        · next hempty =>
          rw [if_neg hempty]
          exact ih _ _ _ _ h hw
  unfold resolve at h ⊢
  split at h
  · cases h
  next hempty =>
  split at h
  · cases h
  next hlong =>
  rw [if_neg hempty, if_neg hlong]
  unfold origin at hcwd
  rw [hcwd]
  exact walked _ _ _ _ _ h hw

end

-- ================================================================= changes

section

variable {t : FileTree} {dir id : NodeId} {name : Bytes} {data : Bytes}

theorem content_setContent (t : FileTree) (id other : NodeId) (c : Content) :
    (t.setContent id c).content other =
      if other = id ∧ id < t.nodes.size then c else t.content other := by
  unfold content setContent
  simp only [Array.getElem?_modify]
  by_cases hid : id = other
  · subst hid
    by_cases hlt : id < t.nodes.size
    · simp [hlt]
    · simp [hlt]
  · rw [if_neg hid, if_neg fun h => hid h.1.symm]

/-- Data is written. -/
theorem grows_setContent (h : t.content id = .file data) (data' : Bytes) :
    t.Grows (t.setContent id (.file data')) := by
  intro other
  rw [content_setContent]
  split
  · next hother =>
    rw [hother.1, h]
    exact ⟨data', rfl⟩
  · exact .refl _

/-- A file is made under a new name, or an old one. -/
theorem grows_add (t : FileTree) (dir : NodeId) (name : Bytes) (mode : Nat) (data : Bytes) :
    t.Grows (t.add dir name mode (.file data)).1 := by
  have pushed (other : NodeId) : (t.content other).Grows
      ((FileTree.mk (t.nodes.push { mode, content := .file data })).content other) := by
    by_cases hlt : other < t.nodes.size
    · rw [content, content, Array.getElem?_push_lt hlt, Array.getElem?_eq_getElem hlt]
      exact .refl _
    · rw [content, Array.getElem?_eq_none (Nat.le_of_not_lt hlt)]
      refine ⟨(if other = t.nodes.size then data else []), ?_⟩
      rw [content, Array.getElem?_push]
      split
      · rfl
      · rw [Array.getElem?_eq_none (Nat.le_of_not_lt hlt)]
        rfl
  have linked (t : FileTree) (id other : NodeId) (b : Bool) :
      (t.setLinked id b).content other = t.content other := by
    unfold content setLinked
    simp only [Array.getElem?_modify]
    split <;> simp [Function.comp_def]
  intro other
  simp only [add, link]
  split
  · next up entries hdir =>
    rw [linked, content_setContent]
    split
    · next hother =>
      have hgrows := pushed other
      rw [hother.1, hdir] at hgrows
      rw [hother.1]
      cases hc : t.content dir with
      | directory up' entries' =>
          rw [hc] at hgrows
          obtain ⟨entries'', heq, hentries⟩ := hgrows
          cases heq
          refine ⟨_, rfl, fun name' id' hid' => ?_⟩
          rw [List.lookup_append, hentries name' id' hid']
          rfl
      | file data' =>
          rw [hc] at hgrows
          obtain ⟨data'', heq⟩ := hgrows
          cases heq
      | link | null | zero | full | terminal | pipe | program | descriptors =>
          rw [hc] at hgrows
          cases hgrows
    · exact pushed other
  · exact pushed other

end

end FileTree

namespace Call

variable {path : Bytes} {m : Mode} {v v' : View} {id : NodeId} {fd : Fd}

theorem openNode_grows (h : openNode path m v = .ok id v') : v.world.tree.Grows v'.world.tree := by
  cases hplace : place path (if m.create then .file else .target) v with
  | error e v₁ =>
      simp only [openNode, bind, EStateM.bind, hplace] at h
      cases h
  | ok spot v₁ =>
  obtain ⟨rfl, -⟩ := place_ok hplace
  cases hnode : spot.node with
  | none =>
      rw [openNode_missing hplace hnode] at h
      split at h
      · rw [create_eq] at h
        simp only at h
        split at h
        · cases h
          exact FileTree.grows_add _ _ _ _ _
        · cases h
      · cases h
  | some id' =>
      rw [openNode_found hplace hnode] at h
      split at h
      · cases h
      split at h
      · next data hdata =>
        split at h
        · cases h
          exact FileTree.grows_setContent hdata []
        · cases h
          exact .refl _
      · cases h
      · cases h
        exact .refl _

/-- Whatever is opened, the tree grows. -/
theorem openFile_grows (h : openFile path m v = .ok fd v') : v.world.tree.Grows v'.world.tree := by
  unfold openFile at h
  split at h
  · cases h
  split at h
  · cases h
  simp only [bind, EStateM.bind] at h
  cases hf : freeFd v with
  | error e v₁ =>
      rw [hf] at h
      cases h
  | ok fd' v₁ =>
      obtain ⟨rfl, -, -⟩ := freeFdFrom_ok hf
      rw [hf] at h
      simp only at h
      cases hid : openNode path m v₁ with
      | error e v₂ =>
          rw [hid] at h
          cases h
      | ok id v₂ =>
          rw [hid] at h
          have hgrows := openNode_grows hid
          cases h
          exact hgrows

end Call

-- =================================================================== views

/-- All that led somewhere in the first view leads there in the second. -/
structure View.Grows (v v' : View) : Prop where
  tree : v.world.tree.Grows v'.world.tree
  files : v.world.Extends v'.world
  fds : ∀ fd n, v.process.fds.file? fd = some n → v'.process.fds.file? fd = some n

/-- A path leads to a file with the data. -/
structure View.Leads (v : View) (path : Bytes) (id : NodeId) (data : Bytes) : Prop where
  place : ∃ spot, v.world.tree.resolve v.held v.process.cwd path .file = .ok spot ∧
    spot.node = some id
  node : ∃ node, v.world.tree.nodes[id]? = some node ∧ node.content = .file data

/-- A path leads to a file with the data, or to where one can be made, and there is
no data. -/
inductive View.HasData (v : View) (path : Bytes) (data : Bytes) : Prop where
  | leads {id : NodeId} : v.Leads path id data → HasData v path data
  | missing {spot : FileTree.Place} :
      v.world.tree.resolve v.held v.process.cwd path .file = .ok spot → spot.node = none →
      (v.world.tree.nodes[spot.dir]?.map Node.linked).getD false = true → data = [] →
      HasData v path data

namespace View

variable {v v' v'' : View} {path : Bytes} {id : NodeId} {data data' : Bytes}

/-- A node with a pipe is found where it was. -/
theorem findIdx?_pipe {t t' : FileTree} (h : t.Grows t') {p : Nat} {id : NodeId}
    (hid : t.nodes.findIdx? (·.content == .pipe p) = some id) :
    t'.nodes.findIdx? (·.content == .pipe p) = some id := by
  have content {t : FileTree} {i : NodeId} (hi : i < t.nodes.size) :
      t.content i = t.nodes[i].content := by
    rw [FileTree.content, Array.getElem?_eq_getElem hi]
    rfl
  obtain ⟨hlt, hpipe, hbefore⟩ := Array.findIdx?_eq_some_iff_getElem.mp hid
  have hid' := h id
  rw [content hlt, beq_iff_eq.mp hpipe] at hid'
  have hlt' : id < t'.nodes.size := Nat.lt_of_not_le fun hge => by
    rw [FileTree.content, Array.getElem?_eq_none hge] at hid'
    cases hid'
  refine Array.findIdx?_eq_some_iff_getElem.mpr ⟨hlt', ?_, fun i hi hpipe' => ?_⟩
  · rw [← content hlt']
    exact beq_iff_eq.mpr hid'
  · have hi' := h i
    rw [content (Nat.lt_trans hi hlt'), beq_iff_eq.mp hpipe'] at hi'
    refine hbefore i hi ?_
    rw [← content (Nat.lt_trans hi hlt)]
    cases hc : t.content i with
    | pipe q =>
        rw [hc] at hi'
        rw [show Content.pipe p = .pipe q from hi']
        exact beq_self_eq_true _
    | file data =>
        rw [hc] at hi'
        obtain ⟨data', heq⟩ := hi'
        cases heq
    | directory up entries =>
        rw [hc] at hi'
        obtain ⟨entries', heq, -⟩ := hi'
        cases heq
    | link | null | zero | full | terminal | program | descriptors =>
        rw [hc] at hi'
        cases hi'

namespace Grows

theorem refl (v : View) : v.Grows v := ⟨.refl _, .refl _, fun _ _ h => h⟩

theorem trans (h : v.Grows v') (h' : v'.Grows v'') : v.Grows v'' :=
  ⟨h.tree.trans h'.tree, h.files.trans h'.files, fun fd n hn => h'.fds fd n (h.fds fd n hn)⟩

theorem file? (h : v.Grows v') {fd : Fd} {n : Nat} {f : OpenFile} (hf : v.file? fd = some (n, f)) :
    ∃ f', v'.file? fd = some (n, f') ∧ f'.target = f.target := by
  unfold View.file? at hf ⊢
  obtain ⟨x, hx, hrest⟩ := Option.bind_eq_some_iff.mp hf
  obtain ⟨g, hg, heq⟩ := Option.bind_eq_some_iff.mp hrest
  cases heq
  obtain ⟨f', hf', htarget⟩ := h.files _ _ hg
  obtain ⟨x', hx', hsame⟩ := Option.map_eq_some_iff.mp
    (h.fds fd x.file (Option.map_eq_some_iff.mpr ⟨x, hx, rfl⟩))
  exact ⟨f', by simp [hx', hsame, hf'], htarget⟩

/-- What a descriptor leads to is where it was. -/
theorem held (h : v.Grows v') {fd : Fd} {id : NodeId} (hid : v.held fd = some id) :
    v'.held fd = some id := by
  unfold View.held at hid ⊢
  cases hf : v.file? fd with
  | none =>
      rw [hf] at hid
      cases hid
  | some x =>
      obtain ⟨n, f⟩ := x
      obtain ⟨f', hf', htarget⟩ := h.file? hf
      rw [hf] at hid
      rw [hf']
      simp only [htarget]
      cases ht : f.target with
      | node id' =>
          simp only [ht] at hid ⊢
          exact hid
      | reader p | writer p =>
          simp only [ht] at hid ⊢
          exact findIdx?_pipe h.tree hid

theorem resolve (h : v.Grows v')
    (hcwd : FileTree.origin v'.process.cwd path = FileTree.origin v.process.cwd path)
    {spot : FileTree.Place} (hspot : v.world.tree.resolve v.held v.process.cwd path .file = .ok spot)
    (hw : v.world.tree.Welcomes v'.world.tree spot) :
    v'.world.tree.resolve v'.held v'.process.cwd path .file = .ok (spot.again v'.world.tree) :=
  FileTree.resolve_grows h.tree (fun _ _ => h.held) hcwd (.inl rfl) hspot hw

/-- While the tree is the same, no file is found where there was none. -/
theorem resolve_missing (h : v.Grows v')
    (hcwd : FileTree.origin v'.process.cwd path = FileTree.origin v.process.cwd path)
    (htree : v'.world.tree = v.world.tree) {spot : FileTree.Place}
    (hspot : v.world.tree.resolve v.held v.process.cwd path .file = .ok spot)
    (hnone : spot.node = none) :
    v'.world.tree.resolve v'.held v'.process.cwd path .file = .ok spot := by
  have hlacks : v'.world.tree.Lacks spot.dir spot.name :=
    htree ▸ FileTree.resolve_missing hspot hnone
  rw [← FileTree.again_of_lacks hlacks]
  refine h.resolve hcwd hspot fun _ => ⟨fun id hid => ?_, fun _ => by rw [htree]⟩
  rw [FileTree.entry?_of_lacks hlacks] at hid
  cases hid

end Grows

/-- A path leads to the file that it led to, whatever data it has now. -/
theorem Leads.grows (h : v.Leads path id data) (hgrows : v.Grows v')
    (hcwd : FileTree.origin v'.process.cwd path = FileTree.origin v.process.cwd path)
    (hnode : ∃ node, v'.world.tree.nodes[id]? = some node ∧ node.content = .file data') :
    v'.Leads path id data' := by
  obtain ⟨spot, hspot, hid⟩ := h.place
  refine ⟨⟨spot.again v'.world.tree, hgrows.resolve hcwd hspot fun hnone => ?_, ?_⟩, hnode⟩
  · rw [hid] at hnone
    cases hnone
  · rw [FileTree.Place.again, hid]
    rfl

/-- What leads to a file can be read from there. -/
theorem Leads.find (h : v.Leads path id data) :
    v.world.tree.find v.held v.process.cwd path = .ok id ∧ v.world.tree.content id = .file data := by
  obtain ⟨spot, hspot, hid⟩ := h.place
  obtain ⟨node, hnode, hdata⟩ := h.node
  have htarget : v.world.tree.resolve v.held v.process.cwd path .target
      = .ok (spot.again v.world.tree) :=
    FileTree.resolve_grows (.refl _) (fun _ _ h => h) rfl (.inr rfl) hspot fun hnone => by
      rw [hid] at hnone
      cases hnone
  constructor
  · simp only [FileTree.find, htarget, bind, Except.bind, FileTree.Place.again, hid, Option.some_or]
    rfl
  · rw [FileTree.content, hnode]
    exact hdata

/-- A path keeps its data where the tree stays. -/
theorem HasData.same_tree (h : v.HasData path data) (hgrows : v.Grows v')
    (hcwd : FileTree.origin v'.process.cwd path = FileTree.origin v.process.cwd path)
    (htree : v'.world.tree = v.world.tree) : v'.HasData path data := by
  cases h with
  | leads h => exact .leads (h.grows hgrows hcwd (by rw [htree]; exact h.node))
  | @missing spot hspot hnone hlinked hdata =>
      exact .missing (hgrows.resolve_missing hcwd htree hspot hnone) hnone (htree ▸ hlinked) hdata

end View

-- ================================================================ openings

namespace Call

variable {path : Bytes} {v v' : View} {fd : Fd} {data : Bytes} {m : Mode}

/-- What is opened is had besides. -/
theorem Opening.grows (h : Opening path m v fd v') (htree : v.world.tree.Grows v'.world.tree) :
    v.Grows v' := by
  refine ⟨htree, fun i f hf => ?_, fun other n hn => ?_⟩
  · obtain ⟨id, -, hfiles⟩ := h.node
    refine ⟨f, ?_, rfl⟩
    obtain ⟨hlt, -⟩ := Array.getElem?_eq_some_iff.mp hf
    rw [hfiles, Array.getElem?_push_lt hlt, ← hf, Array.getElem?_eq_getElem hlt]
  · have hne : other ≠ fd := by
      rintro rfl
      rw [FdTable.file?, h.free] at hn
      cases hn
    rw [FdTable.file?, h.process, FdTable.get?_set, if_neg hne]
    exact hn

/-- A file that is read from is as it was. -/
theorem Opening.tree_of_reading (h : Opening path .forReading v fd v') :
    v'.world.tree = v.world.tree := by
  obtain ⟨id, hreaches, -⟩ := h.node
  cases hreaches with
  | made hcreate => cases hcreate
  | found hspot hid hnode hothers =>
      have nodes : v'.world.tree.nodes = v.world.tree.nodes := by
        refine Array.ext_getElem? fun other => ?_
        by_cases ho : other = id
        · rw [ho, hnode, ← opened_nodes (m := .forReading) fun _ _ => rfl]
        · exact hothers other ho
      cases hv : v'.world.tree
      cases hv' : v.world.tree
      simp_all

/-- A file for output has its data, or none, when it is opened by a process that
has seen the tree grow. That file is where the path leads later on. -/
theorem Opening.leads {u : View} {append : Bool} (h : Opening path (.forOutput append) u fd v')
    (hdata : v.HasData path data) (hu : v.Grows u) (htree : u.world.tree = v.world.tree)
    (hcwd : FileTree.origin u.process.cwd path = FileTree.origin v.process.cwd path) :
    ∃ id, (∃ node, v'.world.tree.nodes[id]? = some node ∧
        node.content = .file (if append then data else [])) ∧
      v'.world.files = u.world.files.push
        { target := .node id, readable := false, writable := true, append := append } ∧
      ∀ {w : View} {d : Bytes}, v.Grows w → v'.world.tree.Grows w.world.tree →
        FileTree.origin w.process.cwd path = FileTree.origin v.process.cwd path →
        (∃ node, w.world.tree.nodes[id]? = some node ∧ node.content = .file d) →
        w.Leads path id d := by
  obtain ⟨id, hreaches, hfiles⟩ := h.node
  obtain ⟨⟨node, hnode, hcontent⟩, hlater⟩ : (∃ node, v'.world.tree.nodes[id]? = some node ∧
        node.content = .file (if append then data else [])) ∧
      ∀ {w : View} {d : Bytes}, v.Grows w → v'.world.tree.Grows w.world.tree →
        FileTree.origin w.process.cwd path = FileTree.origin v.process.cwd path →
        (∃ node, w.world.tree.nodes[id]? = some node ∧ node.content = .file d) →
        w.Leads path id d := by
    cases hdata with
    | leads hleads =>
        obtain ⟨spot, hspot, hid⟩ := (hleads.grows hu hcwd (by rw [htree]; exact hleads.node)).place
        obtain ⟨node, hnode, hcontent⟩ := hleads.node
        cases hreaches with
        | @found spot' hspot' hid' hopened _ =>
            cases hspot.symm.trans hspot'
            cases hid.symm.trans hid'
            refine ⟨⟨_, by rw [hopened, htree, hnode, Option.map_some], ?_⟩,
              fun hw _ hcwd' hnode' => hleads.grows hw hcwd' hnode'⟩
            cases append with
            | true => simp [Node.opened, hcontent, Mode.forOutput]
            | false => simp [Node.opened, hcontent, Mode.forOutput]
        | made _ hspot' hnone =>
            cases hspot.symm.trans hspot'
            rw [hid] at hnone
            cases hnone
    | @missing spot hspot hnone hlinked hempty =>
        have hspot' := hu.resolve_missing hcwd htree hspot hnone
        cases hreaches with
        | found hspot'' hid =>
            cases hspot'.symm.trans hspot''
            rw [hid] at hnone
            cases hnone
        | made hcreate hspot'' _ hid hmakes =>
            cases hspot'.symm.trans hspot''
            have hnode := hmakes.new
            rw [← hid] at hnode
            have hnamed := hmakes.named
            rw [← hid] at hnamed
            refine ⟨⟨_, hnode, ?_⟩, fun {w d} hw htree' hcwd' hnode' => ?_⟩
            · rw [hempty, ite_self]
            · have hentry := FileTree.Grows.entry? htree' hnamed
              have hfile : w.world.tree.content id = .file d := by
                obtain ⟨node, hat, hcontent⟩ := hnode'
                rw [FileTree.content, hat]
                exact hcontent
              refine ⟨⟨spot.again w.world.tree, hw.resolve hcwd' hspot fun _ =>
                ⟨fun other hother => ?_, fun hnone' => ?_⟩, ?_⟩, hnode'⟩
              · cases hentry.symm.trans hother
                exact ⟨d, hfile⟩
              · rw [hentry] at hnone'
                cases hnone'
              · rw [FileTree.Place.again, hnone, hentry]
                rfl
  refine ⟨id, ⟨node, hnode, hcontent⟩, ?_, hlater⟩
  have hfile : v'.world.tree.content id = .file (if append then data else []) := by
    rw [FileTree.content, hnode]
    exact hcontent
  rw [hfiles, targetOf, hfile]
  rfl

/-- A file that has data can be opened for output. -/
theorem openFile_of_data {append : Bool} (hdata : v.HasData path data) (hspare : v.spare ≠ 0) :
    ∃ fd v', openFile path (.forOutput append) v = .ok fd v' := by
  obtain ⟨spot, hspot⟩ : ∃ spot,
      v.world.tree.resolve v.held v.process.cwd path .file = .ok spot := by
    cases hdata with
    | leads hleads => exact ⟨_, hleads.place.choose_spec.1⟩
    | missing hspot => exact ⟨_, hspot⟩
  have hplace : place path .file v = .ok spot v := by
    simp only [place, ofExcept, hspot]
  have hnode : ∃ id v', openNode path (.forOutput append) v = .ok id v' := by
    cases hdata with
    | @leads id hleads =>
        obtain ⟨spot', hspot', hid⟩ := hleads.place
        cases hspot.symm.trans hspot'
        obtain ⟨-, hcontent⟩ := hleads.find
        rw [openNode_found hplace hid, FileTree.isDirectory, hcontent]
        cases append with
        | true => exact ⟨_, _, rfl⟩
        | false => exact ⟨_, _, rfl⟩
    | missing hspot' hnone hlinked =>
        cases hspot.symm.trans hspot'
        have hcreate : openNode path (.forOutput append) v
            = create spot (Mode.forOutput append).bits (.file []) v := by
          simp only [openNode, bind, EStateM.bind, Mode.forOutput, if_true, hplace, hnone]
          rfl
        rw [hcreate, create_eq]
        simp only [hlinked, if_true]
        exact ⟨_, _, rfl⟩
  obtain ⟨fd, -, -, hfd⟩ := freeFd_of_spare hspare
  obtain ⟨id, v', hid⟩ := hnode
  unfold FileTree.resolve at hspot
  split at hspot
  · cases hspot
  next hempty =>
  split at hspot
  · cases hspot
  next hlong =>
  unfold openFile
  rw [if_neg hempty, if_neg hlong]
  simp only [bind, EStateM.bind, freeFd, freeFdFrom_some hfd, hid]
  exact ⟨_, _, rfl⟩

end Call

end LineShell.Posix
