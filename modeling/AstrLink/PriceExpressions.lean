import Mathlib.Data.Rat.Defs
import Mathlib.Data.List.Basic

/-!
Price expressions. An expression is parsed elsewhere and never run as a program: a
small syntax is accepted (`parseExpression`), and the variables that are noted are
those of its tree (`check_vars`).
-/
namespace AstrLink.PriceExpressions

/-- The syntax trees of the parser. Literals of numbers keep only where they stand in the source. -/
inductive Node where
  | integer (start stop : Nat)
  | float (start stop : Nat)
  | string (value : String)
  | bool (value : Bool)
  | identifier (value : String)
  | binary (operator : String) (left right : Node)
  | conditional (cond exp1 exp2 : Node)
  | call (callee : Node) (arguments : List Node)
  | other

def billingVariables : String := "|p|c|cr|cc|cc1h|cc12h|ai|ao|len|image_count|"
def billingOperators : String := "|+|-|*|/|==|!=|<|<=|>|>=|&&||||"

/-- `strings.Contains` of a name between bars -/
def listed (table name : String) : Bool :=
  table.toList.tails.any (("|" ++ name ++ "|").toList.isPrefixOf ·)

/-- The number of arguments of a billing function, and 0 for any other name. -/
def arity (name : String) : Nat :=
  match name with
  | "tier" => 2
  | "fixed" | "param" | "weekday" | "hour" | "minute" => 1
  | _ => 0

structure Checked where
  nodes : Nat
  vars : List String
  deriving DecidableEq

/-- One more node of the tree. -/
def enter (depth : Nat) (before : Checked) : Except String Checked :=
  if 2048 < before.nodes + 1 ∨ 64 < depth then .error "price expression too complex"
  else .ok ⟨before.nodes + 1, before.vars⟩

mutual

def check (depth : Nat) (node : Node) (before : Checked) : Except String Checked :=
  match node with
  | .integer _ _ | .float _ _ | .string _ | .bool _ => enter depth before
  | .identifier value => do
    let seen ← enter depth before
    if listed billingVariables value then .ok ⟨seen.nodes, value :: seen.vars⟩
    else .error "unsupported billing variable"
  | .binary operator left right => do
    let seen ← enter depth before
    if listed billingOperators operator then
      let seen ← check (depth + 1) left seen
      check (depth + 1) right seen
    else .error "unsupported billing operator"
  | .conditional cond exp1 exp2 => do
    let seen ← enter depth before
    let seen ← check (depth + 1) cond seen
    let seen ← check (depth + 1) exp1 seen
    check (depth + 1) exp2 seen
  | .call callee arguments => do
    let seen ← enter depth before
    match callee with
    | .identifier name =>
      if arity name = 0 ∨ arguments.length ≠ arity name then .error "unsupported billing function"
      else checkAll (depth + 1) arguments seen
    | _ => .error "unsupported billing call"
  | .other => do
    let _ ← enter depth before
    .error "unsupported billing syntax"

def checkAll (depth : Nat) (arguments : List Node) (before : Checked) : Except String Checked :=
  match arguments with
  | [] => .ok before
  | argument :: rest => do
    let seen ← check depth argument before
    checkAll depth rest seen

end

structure Expression where
  source : List Char
  root : Node
  vars : List String

def Expression.names (expression : Expression) (name : String) : Bool := expression.vars.contains name

/-- `parse` is the third-party parser. -/
def parseExpression (parse : String → Option Node) (source : String) : Except String Expression :=
  if source.utf8ByteSize = 0 ∨ 16384 < source.utf8ByteSize then .error "invalid price expression length"
  else
    match parse source with
    | none => .error "invalid price expression"
    | some root =>
      match check 0 root ⟨0, []⟩ with
      | .error failure => .error failure
      | .ok checked => .ok ⟨source.toList, root, checked.vars⟩

mutual

/-- The variables of a tree. The name of a function is not one. -/
def Node.variables : Node → List String
  | .identifier value => [value]
  | .binary _ left right => left.variables ++ right.variables
  | .conditional cond exp1 exp2 => cond.variables ++ (exp1.variables ++ exp2.variables)
  | .call _ arguments => variablesAll arguments
  | _ => []

def variablesAll : List Node → List String
  | [] => []
  | argument :: rest => argument.variables ++ variablesAll rest

end

theorem bind_ok {α β : Type} {first : Except String α} {next : α → Except String β} {result : β}
    (done : first >>= next = .ok result) : ∃ value, first = .ok value ∧ next value = .ok result := by
  cases first with
  | error failure => cases done
  | ok value => exact ⟨value, rfl, done⟩

theorem enter_vars {depth : Nat} {before seen : Checked} (entered : enter depth before = .ok seen) :
    seen.vars = before.vars := by
  unfold enter at entered
  split at entered
  · cases entered
  · cases entered
    rfl

mutual

theorem check_vars {depth : Nat} {before after : Checked} (node : Node) (checked : check depth node before = .ok after)
    (name : String) : name ∈ after.vars ↔ name ∈ before.vars ∨ name ∈ node.variables := by
  cases node with
  | integer start stop | float start stop | string value | bool value =>
    rw [check] at checked
    rw [enter_vars checked]
    simp [Node.variables]
  | identifier value =>
    rw [check] at checked
    obtain ⟨seen, entered, noted⟩ := bind_ok checked
    split at noted
    · cases noted
      rw [enter_vars entered]
      simp [Node.variables, or_comm]
    · cases noted
  | binary operator left right =>
    rw [check] at checked
    obtain ⟨seen, entered, sides⟩ := bind_ok checked
    split at sides
    · obtain ⟨afterLeft, checkedLeft, checkedRight⟩ := bind_ok sides
      rw [check_vars right checkedRight, check_vars left checkedLeft, enter_vars entered]
      simp [Node.variables, or_assoc]
    · cases sides
  | conditional cond exp1 exp2 =>
    rw [check] at checked
    obtain ⟨seen, entered, parts⟩ := bind_ok checked
    obtain ⟨afterCond, checkedCond, branches⟩ := bind_ok parts
    obtain ⟨afterExp1, checkedExp1, checkedExp2⟩ := bind_ok branches
    rw [check_vars exp2 checkedExp2, check_vars exp1 checkedExp1, check_vars cond checkedCond, enter_vars entered]
    simp [Node.variables, or_assoc]
  | call callee arguments =>
    rw [check] at checked
    obtain ⟨seen, entered, called⟩ := bind_ok checked
    split at called
    · split at called
      · cases called
      · rw [checkAll_vars arguments called, enter_vars entered, Node.variables]
    · cases called
  | other =>
    rw [check] at checked
    obtain ⟨_, _, contra⟩ := bind_ok checked
    cases contra

theorem checkAll_vars {depth : Nat} {before after : Checked} (arguments : List Node)
    (checked : checkAll depth arguments before = .ok after) (name : String) :
    name ∈ after.vars ↔ name ∈ before.vars ∨ name ∈ variablesAll arguments := by
  cases arguments with
  | nil =>
    rw [checkAll] at checked
    cases checked
    simp [variablesAll]
  | cons argument rest =>
    rw [checkAll] at checked
    obtain ⟨seen, checkedFirst, checkedRest⟩ := bind_ok checked
    rw [checkAll_vars rest checkedRest, check_vars argument checkedFirst]
    simp [variablesAll, or_assoc]

end

end AstrLink.PriceExpressions
