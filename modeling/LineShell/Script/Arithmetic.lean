/-
Expressions between `$((` and `))`: whole numbers of 64 bits, variables,
and the operators of C without `++`, `--` and the comma.

An expression is read as a whole before any of it is evaluated. Only the
operand of `&&`, `||` and `?` that decides is evaluated.
-/
import LineShell.Script.Frame

namespace LineShell.Script.Arithmetic

variable {ρ : Type}

-- ================================================================= syntax

inductive Operator where
  | times | divide | remainder
  | plus | minus
  | shiftLeft | shiftRight
  | less | atMost | greater | atLeast
  | equal | different
  | bitAnd | bitXor | bitOr
  deriving DecidableEq, Repr

inductive Expr where
  | number (value : Int)
  | named (name : Bytes)
  | negative (e : Expr)
  | not (e : Expr)
  | complement (e : Expr)
  | binary (op : Operator) (a b : Expr)
  | and (a b : Expr)
  | or (a b : Expr)
  | choice (test yes no : Expr)
  /-- Assigns, after combining with the old value if there is an operator. -/
  | assign (name : Bytes) (op : Option Operator) (e : Expr)
  deriving Repr

/-- Why an expression has no value. -/
inductive Fault where
  | noPrimary
  | noClosing
  | noColon
  | noEnd
  | divisionByZero
  deriving DecidableEq, Repr

def Fault.text : Fault → String
  | noPrimary => "expecting primary"
  | noClosing => "expecting ')'"
  | noColon => "expecting ':'"
  | noEnd => "expecting EOF"
  | divisionByZero => "division by zero"

inductive Token where
  | number (value : Int)
  | name (text : Bytes)
  | sign (text : String)
  /-- A byte that no expression has. -/
  | stray
  deriving DecidableEq, Repr

-- ================================================================= tokens

/-- The greatest number. -/
def maxValue : Int := 9223372036854775807

/-- The value of a digit of any base. -/
def digitValue (b : UInt8) : Nat :=
  if isDigit b then b.toNat - 48
  else if 97 ≤ b && b ≤ 102 then b.toNat - 87
  else if 65 ≤ b && b ≤ 70 then b.toNat - 55
  else 99

/-- The number that digits of a base spell; too large a number is the
greatest there is. -/
def valueOf (base : Nat) (digits : Bytes) : Int :=
  min maxValue (digits.foldl (fun n d => n * base + digitValue d) 0 : Nat)

/-- The number at the start of a text that starts with a digit, and what
follows it. -/
def takeNumber (text : Bytes) : Int × Bytes :=
  let inBase (base skip : Nat) : Int × Bytes :=
    let digits := (text.drop skip).takeWhile (digitValue · < base)
    (valueOf base digits, text.drop (skip + digits.length))
  match text with
  | 48 :: x :: d :: _ =>
      if (x = 120 || x = 88) && digitValue d < 16 then inBase 16 2 else inBase 8 0
  | 48 :: _ => inBase 8 0
  | _ => inBase 10 0

/-- The signs, longer ones before their beginnings. -/
def signs : List String :=
  ["<<=", ">>=", "<<", ">>", "<=", ">=", "==", "!=", "&&", "||", "+=", "-=", "*=", "/=", "%=", "&=",
   "|=", "^=", "=", "<", ">", "+", "-", "*", "/", "%", "&", "|", "^", "~", "!", "(", ")", "?", ":"]

/-- The tokens of an expression, in so many steps. -/
def tokens : Nat → Bytes → List Token
  | 0, _ | _, [] => []
  | n + 1, b :: rest =>
      if b = 32 || b = 9 || b = 10 then tokens n rest
      else if isDigit b then
        let (value, rest) := takeNumber (b :: rest)
        .number value :: tokens n rest
      else if startsName b then
        let name := b :: rest.takeWhile continuesName
        .name name :: tokens n (rest.drop (name.length - 1))
      else
        match signs.find? fun s => (Bytes.ofString s).isPrefixOf (b :: rest) with
        | some s => .sign s :: tokens n ((b :: rest).drop s.length)
        | none => .stray :: tokens n rest

-- ================================================================ reading

/-- Operators of one strength each, the loosest first. -/
def levels : List (List (String × Operator)) :=
  [[("|", .bitOr)], [("^", .bitXor)], [("&", .bitAnd)], [("==", .equal), ("!=", .different)],
   [("<", .less), ("<=", .atMost), (">", .greater), (">=", .atLeast)],
   [("<<", .shiftLeft), (">>", .shiftRight)], [("+", .plus), ("-", .minus)],
   [("*", .times), ("/", .divide), ("%", .remainder)]]

/-- The operator that an assignment combines with; none for a plain one. -/
def assignments : List (String × Option Operator) :=
  ("=", none) ::
      (levels.flatten.map fun (sign, op) => (sign ++ "=", some op)).filter fun (sign, _) =>
    signs.contains sign && !(["<=", ">=", "==", "!="].contains sign)

/-- A reader of tokens. -/
abbrev Reader := StateT (List Token) (Except Fault)

/-- Takes the next token if it is one of these signs. -/
def sign? {α : Type} (table : List (String × α)) : Reader (Option α) := do
  match ← get with
  | .sign s :: rest =>
      match table.lookup s with
      | some a =>
          set rest
          pure (some a)
      | none => pure none
  | _ => pure none

mutual

/-- An expression that may be an assignment. -/
def assignment : Nat → Reader Expr
  | 0 => throw .noPrimary
  | n + 1 => do
      match ← get with
      | .name name :: .sign s :: rest =>
          match assignments.lookup s with
          | some op =>
              set rest
              pure (.assign name op (← assignment n))
          | none => conditional n
      | _ => conditional n

/-- An expression that may be a choice. -/
def conditional : Nat → Reader Expr
  | 0 => throw .noPrimary
  | n + 1 => do
      let test ← disjunction n
      match ← sign? [("?", ())] with
      | none => pure test
      | some () =>
          let yes ← assignment n
          match ← sign? [(":", ())] with
          | none => throw .noColon
          | some () => pure (.choice test yes (← conditional n))

def disjunction : Nat → Reader Expr
  | 0 => throw .noPrimary
  | n + 1 => do
      let a ← conjunction n
      match ← sign? [("||", ())] with
      | none => pure a
      | some () => pure (.or a (← disjunction n))

def conjunction : Nat → Reader Expr
  | 0 => throw .noPrimary
  | n + 1 => do
      let a ← operation n levels
      match ← sign? [("&&", ())] with
      | none => pure a
      | some () => pure (.and a (← conjunction n))

/-- An operation of one of the levels left. -/
def operation : Nat → List (List (String × Operator)) → Reader Expr
  | 0, _ => throw .noPrimary
  | n + 1, [] => primary n
  | n + 1, level :: tighter => do
      let a ← operation n tighter
      operationRest n level tighter a

/-- What may follow the first operand. -/
def operationRest : Nat → List (String × Operator) → List (List (String × Operator)) → Expr →
    Reader Expr
  | 0, _, _, a => pure a
  | n + 1, level, tighter, a => do
      match ← sign? level with
      | none => pure a
      | some op =>
          let b ← operation n tighter
          operationRest n level tighter (.binary op a b)

/-- An operand. -/
def primary : Nat → Reader Expr
  | 0 => throw .noPrimary
  | n + 1 => do
      match ← get with
      | .number value :: rest =>
          set rest
          pure (.number value)
      | .name name :: rest =>
          set rest
          pure (.named name)
      | .sign "(" :: rest => do
          set rest
          let e ← assignment n
          match ← sign? [(")", ())] with
          | none => throw .noClosing
          | some () => pure e
      | .sign "+" :: rest => do
          set rest
          primary n
      | .sign "-" :: rest => do
          set rest
          pure (.negative (← primary n))
      | .sign "!" :: rest => do
          set rest
          pure (.not (← primary n))
      | .sign "~" :: rest => do
          set rest
          pure (.complement (← primary n))
      | _ => throw .noPrimary

end

/-- The expression that a text is. -/
def parse (text : Bytes) : Except Fault Expr := do
  let ts := tokens (text.length + 1) text
  let (e, rest) ← (assignment (16 * ts.length + 32)).run ts
  if rest.isEmpty then pure e else throw .noEnd

-- ============================================================= evaluation

/-- The number of 64 bits that a result comes to. -/
def wrap (n : Int) : Int := Int.bmod n 0x10000000000000000

/-- A truth value as a number. -/
def truth (b : Bool) : Int := if b then 1 else 0

/-- Combines two numbers bit by bit. -/
def bitwise (op : Nat → Nat → Nat) (a b : Int) : Int :=
  wrap (op (a % 0x10000000000000000).toNat (b % 0x10000000000000000).toNat)

/-- The result of an operation. -/
def Operator.apply (op : Operator) (a b : Int) : Except Fault Int :=
  match op with
  | times => pure (wrap (a * b))
  | divide => if b = 0 then throw .divisionByZero else pure (wrap (a.tdiv b))
  | remainder => if b = 0 then throw .divisionByZero else pure (wrap (a.tmod b))
  | plus => pure (wrap (a + b))
  | minus => pure (wrap (a - b))
  | shiftLeft => pure (wrap (a * Nat.pow 2 (b % 64).toNat))
  | shiftRight => pure (a.fdiv (Nat.pow 2 (b % 64).toNat))
  | less => pure (truth (a < b))
  | atMost => pure (truth (a ≤ b))
  | greater => pure (truth (b < a))
  | atLeast => pure (truth (b ≤ a))
  | equal => pure (truth (a = b))
  | different => pure (truth (a ≠ b))
  | bitAnd => pure (bitwise (· &&& ·) a b)
  | bitXor => pure (bitwise (· ^^^ ·) a b)
  | bitOr => pure (bitwise (· ||| ·) a b)

/-- The number that the whole of a text spells, with blanks around it and
a sign; none if it is no number. -/
def integer? (text : Bytes) : Option Int :=
  let isBlank (b : UInt8) : Bool := b = 32 || (9 ≤ b && b ≤ 13)
  let bare := ((text.dropWhile isBlank).reverse.dropWhile isBlank).reverse
  let unsigned? (digits : Bytes) : Option Int :=
    if digits.head?.any isDigit then
      let (value, rest) := takeNumber digits
      if rest.isEmpty then some value else none
    else none
  match bare with
  | [] => if text.isEmpty then some 0 else none
  | 45 :: digits => (unsigned? digits).map (- ·)
  | 43 :: digits => unsigned? digits
  | digits => unsigned? digits

/-- The value of a variable as a number. -/
def valueOfVariable (name : Bytes) : Act ρ Int := do
  let text := ((← get).var? name).getD []
  match integer? text with
  | some n => pure n
  | none => failNumber text

/-- Goes on with a result, or fails for an expression of this text. -/
def succeed {α : Type} (text : Bytes) (r : Except Fault α) : Act ρ α :=
  match r with
  | .ok a => pure a
  | .error e =>
      fail (Bytes.ofString ("arithmetic expression: " ++ e.text ++ ": \"") ++ text ++ [34])

/-- The value of an expression; `text` is what it was read from. -/
def Expr.eval (text : Bytes) : Expr → Act ρ Int
  | number value => pure value
  | named name => valueOfVariable name
  | negative e => do pure (wrap (-(← e.eval text)))
  | not e => do pure (truth ((← e.eval text) = 0))
  | complement e => do pure (-(← e.eval text) - 1)
  | binary op a b => do
      let x ← a.eval text
      let y ← b.eval text
      succeed text (op.apply x y)
  | and a b => do
      if (← a.eval text) = 0 then pure 0 else pure (truth ((← b.eval text) ≠ 0))
  | or a b => do
      if (← a.eval text) ≠ 0 then pure 1 else pure (truth ((← b.eval text) ≠ 0))
  | choice test yes no => do if (← test.eval text) ≠ 0 then yes.eval text else no.eval text
  | assign name op e => do
      let given ← e.eval text
      let value ← match op with
        | none => pure given
        | some op => do
            let old ← valueOfVariable name
            succeed text (op.apply old given)
      setVariable name (Bytes.ofString (toString value))
      pure value

/-- The value of the expression that a text is. -/
def evaluate (text : Bytes) : Act ρ Int := do
  let e ← succeed text (parse text)
  e.eval text

end LineShell.Script.Arithmetic
