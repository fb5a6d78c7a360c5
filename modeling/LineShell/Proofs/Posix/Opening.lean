/-
What an opening makes of files and descriptors.

# Ways

`Arrives` says where a walk along names ends, with one rule for each thing
that a name can stand for. It holds of exactly the walks that end well
(`arrives_of_walkAlong`, `Arrives.walkAlong`), so that a walk is taken apart,
and laid again in another tree, rule by rule.

# Missing names

A path that leads to no node ends in a directory that has no such name
(`resolve_missing`): whatever is not found on the way is an error. So the
name can be made there, and is found there afterwards (`makes_add`).

# Openings

`Reaches` says which node an opening gets to, and what it makes of the
tree: the node was there, and is emptied if it is a file and the mode asks
for that, or it is made, and then is an empty file. All other nodes stay,
but for the directory with the new name. A descriptor of a free number
leads to the node through a new open file (`Call.Opening`); where there is
none, nothing at all has been done (`openFile_cases`).
-/
import LineShell.Proofs.Posix.Table

namespace LineShell.Posix

namespace FileTree

variable {t : FileTree} {held : Held} {last : Last} {spot : Place} {dir id : NodeId} {name : Bytes}

-- ================================================================== ways

/-- A name that is looked up in a directory: the walk has something to look
it up in, and no fault to find with it. -/
structure Plain (t : FileTree) (last : Last) (dir : NodeId) (name : Bytes) (rest : List Bytes)
    (slashed : Bool) : Prop where
  isDirectory : t.isDirectory dir = true
  notDots : ¬(name = dot || name = dotDot) = true
  unslashed : ¬(rest.isEmpty && slashed && last = .file) = true
  short : ¬name.length > nameMax

/-- The directory that the dots lead to. -/
def behindDots (t : FileTree) (dir : NodeId) (name : Bytes) : NodeId :=
  if name = dot then dir else t.parent dir

/-- Where a walk along names arrives, with one rule for each thing that a
name may stand for, be it the last one or not. -/
inductive Arrives (t : FileTree) (held : Held) (last : Last)
    (follow : Bytes → NodeId → List Bytes → Bool → Except Errno Place) :
    NodeId → List Bytes → Bool → Place → Prop where
  | here {dir : NodeId} {slashed : Bool} :
      Arrives t held last follow dir [] slashed ⟨dir, [], some dir, slashed⟩
  | atDots {dir : NodeId} {name : Bytes} {slashed : Bool} : t.isDirectory dir = true →
      (name = dot || name = dotDot) = true → Arrives t held last follow dir [name] slashed
        ⟨dir, name, some (t.behindDots dir name), slashed⟩
  | pastDots {dir : NodeId} {name : Bytes} {rest : List Bytes} {slashed : Bool} {spot : Place} :
      t.isDirectory dir = true → (name = dot || name = dotDot) = true → rest.isEmpty = false →
      Arrives t held last follow (t.behindDots dir name) rest slashed spot →
      Arrives t held last follow dir (name :: rest) slashed spot
  | missing {dir : NodeId} {name : Bytes} {slashed : Bool} : t.Plain last dir name [] slashed →
      t.lookUp held dir name = none → t.isFixed dir = false →
      Arrives t held last follow dir [name] slashed ⟨dir, name, none, slashed⟩
  /-- A link that is not to be followed. -/
  | atLink {dir id : NodeId} {name target : Bytes} {slashed : Bool} :
      t.Plain last dir name [] slashed → t.lookUp held dir name = some id →
      t.content id = .link target → (last = .name || (last = .self && !slashed)) = true →
      Arrives t held last follow dir [name] slashed ⟨dir, name, some id, slashed⟩
  | followed {dir id : NodeId} {name target : Bytes} {rest : List Bytes} {slashed : Bool}
      {spot : Place} : t.Plain last dir name rest slashed → t.lookUp held dir name = some id →
      t.content id = .link target →
      ¬(rest.isEmpty && (last = .name || (last = .self && !slashed))) = true →
      follow target dir rest slashed = .ok spot →
      Arrives t held last follow dir (name :: rest) slashed spot
  | atNode {dir id : NodeId} {name : Bytes} {slashed : Bool} : t.Plain last dir name [] slashed →
      t.lookUp held dir name = some id → (∀ target, t.content id ≠ .link target) →
      ¬(slashed && last ≠ .name && !t.isDirectory id) = true →
      Arrives t held last follow dir [name] slashed ⟨dir, name, some id, slashed⟩
  | pastNode {dir id : NodeId} {name : Bytes} {rest : List Bytes} {slashed : Bool} {spot : Place} :
      t.Plain last dir name rest slashed → t.lookUp held dir name = some id →
      (∀ target, t.content id ≠ .link target) → rest.isEmpty = false →
      Arrives t held last follow id rest slashed spot →
      Arrives t held last follow dir (name :: rest) slashed spot

variable {follow : Bytes → NodeId → List Bytes → Bool → Except Errno Place} {slashed : Bool}

theorem arrives_of_walkAlong {names : List Bytes}
    (h : t.walkAlong held last follow dir names slashed = .ok spot) :
    t.Arrives held last follow dir names slashed spot := by
  induction names generalizing dir with
  | nil =>
      cases h
      exact .here
  | cons name rest ih =>
      rw [walkAlong] at h
      split at h
      · cases h
      next hdir =>
      have hdir : t.isDirectory dir = true := by simpa using hdir
      split at h
      · next hdots =>
        simp only at h
        split at h
        · next hends =>
          obtain rfl := List.isEmpty_iff.mp hends
          cases h
          exact .atDots hdir hdots
        · next hends => exact .pastDots hdir hdots (by simpa using hends) (ih h)
      next hdots =>
      split at h
      · cases h
      next hslash =>
      split at h
      · cases h
      next hshort =>
      have hplain : t.Plain last dir name rest slashed := ⟨hdir, hdots, hslash, hshort⟩
      split at h
      · next hlookup =>
        split at h
        · next hends =>
          simp only [Bool.and_eq_true, Bool.not_eq_true', List.isEmpty_iff] at hends
          obtain ⟨rfl, hfree⟩ := hends
          cases h
          exact .missing hplain hlookup hfree
        · cases h
      next id hlookup =>
      split at h
      · next target hlink =>
        split at h
        · next hends =>
          simp only [Bool.and_eq_true, List.isEmpty_iff] at hends
          obtain ⟨rfl, hlast⟩ := hends
          cases h
          exact .atLink hplain hlookup hlink hlast
        · next hends => exact .followed hplain hlookup hlink hends h
      · next hlink =>
        split at h
        · next hends =>
          obtain rfl := List.isEmpty_iff.mp hends
          split at h
          · cases h
          next hnode =>
          cases h
          exact .atNode hplain hlookup hlink hnode
        · next hends => exact .pastNode hplain hlookup hlink (by simpa using hends) (ih h)

/-- What is left of a step once the name is looked up. -/
theorem Plain.walkAlong {rest : List Bytes} (h : t.Plain last dir name rest slashed) :
    t.walkAlong held last follow dir (name :: rest) slashed =
      match t.lookUp held dir name with
      | none => if rest.isEmpty && !t.isFixed dir then .ok ⟨dir, name, none, slashed⟩
          else .error .ENOENT
      | some id =>
          match t.content id with
          | .link target =>
              if rest.isEmpty && (last = .name || (last = .self && !slashed)) then
                .ok ⟨dir, name, some id, slashed⟩
              else follow target dir rest slashed
          | _ =>
              if rest.isEmpty then
                if slashed && last ≠ .name && !t.isDirectory id then .error .ENOTDIR
                else .ok ⟨dir, name, some id, slashed⟩
              else t.walkAlong held last follow id rest slashed := by
  rw [FileTree.walkAlong, h.isDirectory, if_neg (by decide), if_neg h.notDots, if_neg h.unslashed]
  exact if_neg h.short

theorem Arrives.walkAlong {names : List Bytes}
    (h : t.Arrives held last follow dir names slashed spot) :
    t.walkAlong held last follow dir names slashed = .ok spot := by
  induction h with
  | here => rfl
  | atDots hdir hdots => rw [FileTree.walkAlong, hdir, if_neg (by decide), if_pos hdots]; rfl
  | pastDots hdir hdots hends _ ih =>
      rw [FileTree.walkAlong, hdir, if_neg (by decide), if_pos hdots]
      simp only [hends, Bool.false_eq_true, if_false]
      exact ih
  | missing hplain hlookup hfree =>
      rw [hplain.walkAlong, hlookup]
      simp only [hfree]
      rfl
  | atLink hplain hlookup hlink hlast =>
      rw [hplain.walkAlong, hlookup]
      simp only [hlink, hlast]
      rfl
  | followed hplain hlookup hlink hends hspot =>
      rw [hplain.walkAlong, hlookup]
      simp only [hlink, hspot]
      rw [if_neg hends]
  | atNode hplain hlookup hlink hnode =>
      rw [hplain.walkAlong, hlookup]
      simp only
      rw [if_neg hnode]
      rfl
  | pastNode hplain hlookup hlink hends _ ih =>
      rw [hplain.walkAlong, hlookup]
      simp only [hends, ih]
      rfl

-- ========================================================= missing names

/-- A directory without such a name. -/
def Lacks (t : FileTree) (dir : NodeId) (name : Bytes) : Prop :=
  ∃ up entries, t.content dir = .directory up entries ∧ entries.lookup name = none

/-- Where no node is found that is no error, the directory is one of the
tree and takes new names. -/
theorem lacks_of_lookUp (hdir : t.isDirectory dir = true) (hfixed : t.isFixed dir = false)
    (h : t.lookUp held dir name = none) : t.Lacks dir name := by
  unfold isDirectory at hdir
  unfold isFixed at hfixed
  unfold lookUp entry? at h
  cases hc : t.content dir with
  | directory up entries =>
      rw [hc] at h
      exact ⟨up, entries, hc, h⟩
  | descriptors =>
      rw [hc] at hfixed
      cases hfixed
  | file | link | null | zero | full | terminal | pipe | program =>
      rw [hc] at hdir
      cases hdir

/-- Where a walk leads to no node, the directory lacks the name. -/
theorem Arrives.lacks (hfollow : ∀ target dir rest slashed spot,
      follow target dir rest slashed = .ok spot → spot.node = none → t.Lacks spot.dir spot.name)
    {names : List Bytes} (h : t.Arrives held last follow dir names slashed spot)
    (hnone : spot.node = none) : t.Lacks spot.dir spot.name := by
  induction h with
  | here | atDots | atLink | atNode => cases hnone
  | missing hplain hlookup hfree => exact lacks_of_lookUp hplain.isDirectory hfree hlookup
  | followed _ _ _ _ hspot => exact hfollow _ _ _ _ _ hspot hnone
  | pastDots _ _ _ _ ih | pastNode _ _ _ _ _ ih => exact ih hnone

theorem resolve_missing {cwd : NodeId} {path : Bytes}
    (h : t.resolve held cwd path last = .ok spot) (hnone : spot.node = none) :
    t.Lacks spot.dir spot.name := by
  have walked : ∀ links dir names slashed spot, t.walk held last links dir names slashed = .ok spot →
      spot.node = none → t.Lacks spot.dir spot.name := by
    intro links
    induction links with
    | zero =>
        exact fun dir names slashed _ h =>
          (arrives_of_walkAlong h).lacks fun _ _ _ _ _ h => by cases h
    | succ links ih =>
        refine fun dir names slashed _ h =>
          (arrives_of_walkAlong h).lacks fun target dir rest slashed spot h => ?_
        split at h
        · cases h
        · exact ih _ _ _ _ h
  unfold resolve at h
  split at h
  · cases h
  split at h
  · cases h
  · exact walked _ _ _ _ _ h hnone

-- ============================================================== new names

theorem Lacks.lt (h : t.Lacks dir name) : dir < t.nodes.size := by
  obtain ⟨up, entries, hc, -⟩ := h
  refine Nat.lt_of_not_le fun hge => ?_
  rw [content, Array.getElem?_eq_none hge] at hc
  cases hc

/-- What a new name makes of a tree: the node, last of all, its name in the
directory, and nothing else. -/
structure Makes (t : FileTree) (dir : NodeId) (name : Bytes) (node : Node) (t' : FileTree) :
    Prop where
  new : t'.nodes[t.nodes.size]? = some node
  others : ∀ id, id ≠ t.nodes.size → id ≠ dir → t'.nodes[id]? = t.nodes[id]?
  named : entry? t' dir name = some t.nodes.size
  names : ∀ other, other ≠ name → entry? t' dir other = t.entry? dir other

theorem makes_add (h : t.Lacks dir name) (mode : Nat) (c : Content) :
    (t.add dir name mode c).2 = t.nodes.size ∧
      t.Makes dir name { mode, content := c } (t.add dir name mode c).1 := by
  have hlt := h.lt
  obtain ⟨up, entries, hc, hlookup⟩ := h
  have hne : t.nodes.size ≠ dir := Nat.ne_of_gt hlt
  have pushed : (FileTree.mk (t.nodes.push { mode, content := c })).content dir
      = .directory up entries := by
    rw [← hc, content, content, Array.getElem?_push_lt hlt, Array.getElem?_eq_getElem hlt]
  have nodes : ∀ id, (t.add dir name mode c).1.nodes[id]?
      = if id = t.nodes.size then some { mode, content := c }
        else if id = dir then t.nodes[dir]?.map fun n =>
          { n with content := .directory up (entries ++ [(name, t.nodes.size)]) }
        else t.nodes[id]? := fun id => by
    simp only [add, link, pushed, setLinked, setContent, Array.getElem?_modify]
    by_cases hid : id = t.nodes.size
    · subst hid
      simp [hne.symm]
    · rw [if_neg (Ne.symm hid), if_neg hid]
      by_cases hdir : id = dir
      · subst hdir
        simp [Array.getElem?_push_lt hlt, Array.getElem?_eq_getElem hlt]
      · rw [if_neg (Ne.symm hdir), if_neg hdir, Array.getElem?_push, if_neg hid]
  have held : (t.add dir name mode c).1.content dir
      = .directory up (entries ++ [(name, t.nodes.size)]) := by
    rw [content, nodes, if_neg hne.symm, if_pos rfl, Array.getElem?_eq_getElem hlt]
    rfl
  refine ⟨rfl, by rw [nodes, if_pos rfl], fun id hid hdir => by rw [nodes, if_neg hid, if_neg hdir],
    ?_, fun other ho => ?_⟩
  · simp [ entry?, held, List.lookup_append, hlookup]
  · simp [ entry?, held, hc, List.lookup_append, List.lookup_cons, beq_false_of_ne ho]

end FileTree

-- ================================================================ openings

/-- A node once it was opened in a mode. -/
def Node.opened (m : Call.Mode) (n : Node) : Node :=
  match n.content with
  | .file _ => if m.truncate then { n with content := .file [] } else n
  | _ => n

/-- Which node an opening gets to, and what becomes of the tree. -/
inductive Call.Reaches (path : Bytes) (m : Mode) (v : View) (id : NodeId) (t : FileTree) : Prop where
  | found {spot : FileTree.Place} :
      v.world.tree.resolve v.held v.process.cwd path (if m.create then .file else .target) = .ok spot →
      spot.node = some id → t.nodes[id]? = v.world.tree.nodes[id]?.map (Node.opened m) →
      (∀ other, other ≠ id → t.nodes[other]? = v.world.tree.nodes[other]?) → Reaches path m v id t
  | made {spot : FileTree.Place} : m.create = true →
      v.world.tree.resolve v.held v.process.cwd path .file = .ok spot → spot.node = none →
      id = v.world.tree.nodes.size →
      v.world.tree.Makes spot.dir spot.name
        { mode := m.bits &&& (0o7777 ^^^ v.process.umask), content := .file [] } t →
      Reaches path m v id t

/-- What an opening makes of a view. -/
structure Call.Opening (path : Bytes) (m : Mode) (v : View) (fd : Fd) (v' : View) : Prop where
  node : ∃ id, Reaches path m v id v'.world.tree ∧
    v'.world.files = v.world.files.push
      { target := targetOf v'.world.tree id m, readable := m.read, writable := m.write,
        append := m.append }
  pipes : v'.world.pipes = v.world.pipes
  free : v.process.fds.get? fd = none
  process : v'.process =
    { v.process with fds := v.process.fds.set fd ⟨v.world.files.size, m.closeOnExec⟩ }

namespace Call

variable {path : Bytes} {m : Mode} {v v' : View} {id : NodeId} {e : Errno}

theorem place_ok {last : FileTree.Last} {spot : FileTree.Place} (h : place path last v = .ok spot v') :
    v' = v ∧ v.world.tree.resolve v.held v.process.cwd path last = .ok spot := by
  unfold place ofExcept at h
  split at h
  · next hspot =>
    cases h
    exact ⟨rfl, hspot⟩
  · cases h

theorem place_error {last : FileTree.Last} (h : place path last v = .error e v') : v' = v := by
  unfold place ofExcept at h
  split at h <;> cases h
  rfl

/-- A new file is made, or there is an error. -/
theorem create_eq (spot : FileTree.Place) (bits : Nat) (c : Content) (v : View) :
    create spot bits c v =
      let made := v.world.tree.add spot.dir spot.name (bits &&& (0o7777 ^^^ v.process.umask)) c
      if (v.world.tree.nodes[spot.dir]?.map Node.linked).getD false then
        .ok made.2 (v.modifyTree fun _ => made.1)
      else .error .ENOENT v := by
  have reads : (get : Call View) v = .ok v v := rfl
  simp only [create, bind, EStateM.bind, reads]
  split <;> rfl

/-- A node that is not there is made, if the mode asks for that. -/
theorem openNode_missing {spot : FileTree.Place}
    (h : place path (if m.create then .file else .target) v = .ok spot v) (hn : spot.node = none) :
    openNode path m v =
      if m.create then create spot m.bits (.file []) v else .error .ENOENT v := by
  simp only [openNode, bind, EStateM.bind, h, hn]
  split <;> rfl

/-- A node that is there is opened, or it is not for opening. -/
theorem openNode_found {spot : FileTree.Place}
    (h : place path (if m.create then .file else .target) v = .ok spot v) (hn : spot.node = some id) :
    openNode path m v =
      if v.world.tree.isDirectory id && (m.write || m.create) then .error .EISDIR v
      else match v.world.tree.content id with
        | .file _ =>
            if m.truncate then .ok id (v.modifyTree (·.setContent id (.file []))) else .ok id v
        | .terminal => .error .ENXIO v
        | _ => .ok id v := by
  unfold openNode
  simp only [bind, EStateM.bind, h, hn]
  change (if _ then _ else _ : Call NodeId) v = _
  by_cases hdir : (v.world.tree.isDirectory id && (m.write || m.create)) = true
  · rw [if_pos hdir, if_pos hdir]
    rfl
  rw [if_neg hdir, if_neg hdir]
  cases v.world.tree.content id with
  | file data =>
      by_cases ht : m.truncate = true
      · simp only [if_pos ht]
        rfl
      · simp only [if_neg ht]
        rfl
  | terminal | directory | link | null | zero | full | pipe | program | descriptors => rfl

/-- What is no file, or is not to be emptied, stays as it is when opened. -/
theorem opened_nodes {t : FileTree} (h : ∀ data, t.content id = .file data → m.truncate = false) :
    t.nodes[id]? = t.nodes[id]?.map (Node.opened m) := by
  cases hn : t.nodes[id]? with
  | none => rfl
  | some n =>
      have hc : t.content id = n.content := by rw [FileTree.content, hn]; rfl
      rw [Option.map_some, Node.opened]
      split
      · next data hdata => rw [h data (hc.trans hdata), if_neg Bool.false_ne_true]
      · rfl

/-- A node is got to, or nothing has been done. -/
theorem openNode_cases (path : Bytes) (m : Mode) (v : View) :
    (∃ e, openNode path m v = .error e v) ∨
    ∃ id v', openNode path m v = .ok id v' ∧ Reaches path m v id v'.world.tree ∧
      v'.process = v.process ∧ v'.world.files = v.world.files ∧
      v'.world.pipes = v.world.pipes := by
  cases hplace : place path (if m.create then .file else .target) v with
  | error e v₁ =>
      obtain rfl := place_error hplace
      exact .inl ⟨e, by simp only [openNode, bind, EStateM.bind, hplace]⟩
  | ok spot v₁ =>
  obtain ⟨rfl, hspot⟩ := place_ok hplace
  cases hnode : spot.node with
  | none =>
      have missing := openNode_missing hplace hnode
      by_cases hcreate : m.create = true
      · rw [missing, if_pos hcreate, create_eq]
        rw [if_pos hcreate] at hspot
        obtain ⟨hid, hmakes⟩ := FileTree.makes_add (FileTree.resolve_missing hspot hnode)
          (m.bits &&& (0o7777 ^^^ v₁.process.umask)) (.file [])
        split
        · exact .inr ⟨_, _, rfl, .made hcreate hspot hnode hid hmakes, rfl, rfl, rfl⟩
        · exact .inl ⟨_, rfl⟩
      · rw [missing, if_neg hcreate]
        exact .inl ⟨_, rfl⟩
  | some id =>
      have stays (h : ∀ data, v₁.world.tree.content id = .file data → m.truncate = false) :
          Reaches path m v₁ id v₁.world.tree :=
        .found hspot hnode (opened_nodes h) fun _ _ => rfl
      rw [openNode_found hplace hnode]
      split
      · exact .inl ⟨_, rfl⟩
      split
      · next data hdata =>
        split
        · next ht =>
          refine .inr ⟨_, _, rfl, .found hspot hnode ?_ fun other ho => ?_, rfl, rfl, rfl⟩
          · change (v₁.world.tree.nodes.modify id _)[id]? = _
            rw [Array.getElem?_modify, if_pos rfl]
            cases hn : v₁.world.tree.nodes[id]? with
            | none => rfl
            | some n =>
                have hc : n.content = .file data := by rw [← hdata, FileTree.content, hn]; rfl
                rw [Option.map_some, Option.map_some, Node.opened, hc]
                simp only [if_pos ht]
          · exact Array.getElem?_modify.trans (if_neg (Ne.symm ho))
        · next ht =>
          exact .inr ⟨_, _, rfl, stays fun _ _ => by simpa using ht, rfl, rfl, rfl⟩
      · exact .inl ⟨_, rfl⟩
      · next hfile _ =>
        exact .inr ⟨_, _, rfl, stays fun data hdata => absurd hdata (hfile data), rfl, rfl, rfl⟩

/-- A file is opened, or nothing has been done. -/
theorem openFile_cases (path : Bytes) (m : Mode) (v : View) :
    (∃ e, openFile path m v = .error e v) ∨
    ∃ fd v', openFile path m v = .ok fd v' ∧ Opening path m v fd v' := by
  unfold openFile
  by_cases hempty : path.isEmpty = true
  · rw [if_pos hempty]
    exact .inl ⟨.ENOENT, rfl⟩
  by_cases hlong : path.length ≥ FileTree.pathMax
  · rw [if_neg hempty, if_pos hlong]
    exact .inl ⟨.ENAMETOOLONG, rfl⟩
  rw [if_neg hempty, if_neg hlong]
  simp only [bind, EStateM.bind]
  cases hf : freeFd v with
  | error e v₁ =>
      cases freeFdFrom_error hf
      exact .inl ⟨e, rfl⟩
  | ok fd v₁ =>
      obtain ⟨rfl, hfree, -⟩ := freeFdFrom_ok hf
      simp only
      rcases openNode_cases path m v₁ with ⟨e, he⟩ | ⟨id, v₂, hid, hreaches, hprocess, hfiles, hpipes⟩
      · rw [he]
        exact .inl ⟨e, rfl⟩
      · rw [hid]
        refine .inr ⟨fd, _, rfl, ⟨id, hreaches, ?_⟩, hpipes, hfree, ?_⟩
        · rw [← hfiles]
          rfl
        · rw [← hfiles, ← hprocess]
          rfl

end Call

end LineShell.Posix
