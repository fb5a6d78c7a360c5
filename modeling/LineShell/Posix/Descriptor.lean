/-
Descriptors: the numbers by which a process knows its open files.

A table row ties a number to an open file and says whether the row goes
away when the process replaces its program. Rows are kept in ascending
order with one row a number, so that two tables with the same look-ups
are equal.
-/

namespace LineShell.Posix

/-- A descriptor number. -/
abbrev Fd := Nat

namespace Fd

def stdin : Fd := 0
def stdout : Fd := 1
def stderr : Fd := 2

end Fd

/-- What a descriptor stands for. -/
structure Handle where
  /-- The number of the open file. -/
  file : Nat
  closeOnExec : Bool
  deriving DecidableEq, Repr, Inhabited

structure FdTable where
  rows : List (Fd × Handle) := []
  deriving DecidableEq, Repr, Inhabited

namespace FdTable

/-- The handle of a descriptor. -/
def get? (t : FdTable) (fd : Fd) : Option Handle := t.rows.lookup fd

/-- Is the descriptor open? -/
def isOpen (t : FdTable) (fd : Fd) : Bool := (t.get? fd).isSome

/-- Gives a descriptor a handle, in place of any it had. -/
def set (t : FdTable) (fd : Fd) (h : Handle) : FdTable :=
  ⟨t.rows.filter (·.1 < fd) ++ (fd, h) :: t.rows.filter (fd < ·.1)⟩

/-- Closes a descriptor. -/
def erase (t : FdTable) (fd : Fd) : FdTable := ⟨t.rows.filter (·.1 ≠ fd)⟩

/-- The lowest number from `low` on that is free and below the limit. -/
def freeFrom (t : FdTable) (low limit : Nat) : Option Fd :=
  (List.range' low (limit - low)).find? fun fd => !t.isOpen fd

/-- What is left of a table when the process replaces its program. -/
def afterExec (t : FdTable) : FdTable := ⟨t.rows.filter (!·.2.closeOnExec)⟩

theorem lookup_filter_of (p : Fd → Bool) (rows : List (Fd × Handle)) {fd : Fd} (h : p fd) :
    (rows.filter (p ·.1)).lookup fd = rows.lookup fd := by
  induction rows with
  | nil => rfl
  | cons r rest ih => grind

theorem lookup_filter_not (p : Fd → Bool) (rows : List (Fd × Handle)) {fd : Fd} (h : ¬p fd) :
    (rows.filter (p ·.1)).lookup fd = none := by
  induction rows with
  | nil => rfl
  | cons r rest ih => grind

/-- Setting a descriptor changes that descriptor alone. -/
@[simp] theorem get?_set (t : FdTable) (fd other : Fd) (h : Handle) :
    (t.set fd h).get? other = if other = fd then some h else t.get? other := by
  simp only [get?, set, List.lookup_append]
  rcases Nat.lt_trichotomy other fd with hlt | rfl | hgt
  · have h1 := lookup_filter_of (· < fd) t.rows (by simpa using hlt)
    have h2 : (t.rows.filter (fd < ·.1)).lookup other = none :=
      lookup_filter_not (fd < ·) t.rows fun h =>
        Nat.lt_asymm hlt (of_decide_eq_true h)
    grind
  · have h1 : (t.rows.filter (·.1 < other)).lookup other = none :=
      lookup_filter_not (· < other) t.rows (by simp)
    grind
  · have h1 : (t.rows.filter (·.1 < fd)).lookup other = none :=
      lookup_filter_not (· < fd) t.rows fun h =>
        Nat.lt_asymm hgt (of_decide_eq_true h)
    have h2 := lookup_filter_of (fd < ·) t.rows (by simpa using hgt)
    grind

/-- Closing a descriptor closes that descriptor alone. -/
@[simp] theorem get?_erase (t : FdTable) (fd other : Fd) :
    (t.erase fd).get? other = if other = fd then none else t.get? other := by
  simp only [get?, erase]
  split
  · exact lookup_filter_not (fun n => decide (n ≠ fd)) t.rows (by simp_all)
  · exact lookup_filter_of (fun n => decide (n ≠ fd)) t.rows (by simp_all)

end FdTable

end LineShell.Posix
