/-
The environment of a process: variables with their values, in the order
in which they were first set. Setting a variable that exists keeps its
place.
-/

namespace LineShell

/-- Variables and values, each name once. -/
structure Environment where
  bindings : List (String × String) := []
  deriving DecidableEq, Repr, Inhabited

namespace Environment

/-- The value of a variable. -/
def get? (env : Environment) (name : String) : Option String :=
  env.bindings.lookup name

/-- What follows a text and an equals sign in the first binding that is
spelled so. For a name without an equals sign that is its value; with one
in it, the text reaches into a value. -/
def spelled? (env : Environment) (text : String) : Option String :=
  let start := text.toList ++ ['=']
  env.bindings.findSome? fun (name, value) =>
    let binding := name.toList ++ '=' :: value.toList
    if start.isPrefixOf binding then some (String.ofList (binding.drop start.length)) else none

/-- Replaces the value in the first binding of the name, or adds one. -/
def setIn (name value : String) : List (String × String) → List (String × String)
  | [] => [(name, value)]
  | (n, v) :: rest => if n = name then (name, value) :: rest else (n, v) :: setIn name value rest

/-- Gives a variable a value. -/
def set (env : Environment) (name value : String) : Environment :=
  ⟨setIn name value env.bindings⟩

/-- Removes a variable. -/
def unset (env : Environment) (name : String) : Environment :=
  ⟨env.bindings.filter (·.1 ≠ name)⟩

/-- The environment that a list of assignments makes, later ones winning. -/
def ofList (bindings : List (String × String)) : Environment :=
  bindings.foldl (fun env (name, value) => env.set name value) {}

private theorem lookup_setIn (name value other : String) (bs : List (String × String)) :
    (setIn name value bs).lookup other = if other = name then some value else bs.lookup other := by
  induction bs with
  | nil => simp only [setIn, List.lookup_cons, List.lookup_nil]; grind
  | cons b rest ih =>
    obtain ⟨n, v⟩ := b
    simp only [setIn]
    split <;> simp only [List.lookup_cons] <;> grind

/-- Setting a variable changes that variable alone. -/
@[simp] theorem get?_set (env : Environment) (name value other : String) :
    (env.set name value).get? other = if other = name then some value else env.get? other :=
  lookup_setIn name value other env.bindings

end Environment

end LineShell
