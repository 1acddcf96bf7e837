import DocNavigation.Path.Basic
import DocNavigation.Json.Basic
import DocNavigation.Text.Letter

/-!
Paths as people write them: a leading tilde stands for a home folder, and variables stand for their
values. The values are not looked into again. An account whose name has a null character cannot be
looked up.
-/

namespace DocNavigation

/-- What a path is read against. -/
structure Environment where
  workdir : String
  vars : List (String × String)
  /-- The home folders of accounts. -/
  homes : List (String × String) := []
deriving DecidableEq, Repr

inductive PathError where
  | nullInAccount
deriving DecidableEq, Repr

namespace Environment

def get? (env : Environment) (name : String) : Option String :=
  Json.getKey? env.vars name

end Environment

namespace Path

/-- An account without a known home leaves the path as it is. -/
def expandHome (env : Environment) (p : String) : String :=
  match p.toList with
  | '~' :: rest =>
    let account := String.ofList (rest.takeWhile (· ≠ '/'))
    let home := if account = "" then env.get? "HOME" else Json.getKey? env.homes account
    match home with
    | none => p
    | some home =>
      let text := dropSlashes home.toList ++ rest.dropWhile (· ≠ '/')
      if text.isEmpty then "/" else String.ofList text
  | _ => p

/-- The variable named after a dollar sign, in braces or as a run of letters, digits and
underscores, with the number of characters that name it. -/
def variableAt? (rest : List Char) : Option (String × Nat) :=
  match rest with
  | '\x7b' :: inner =>
    let name := inner.takeWhile (· ≠ '\x7d')
    if name.length < inner.length then some (String.ofList name, name.length + 2) else none
  | _ =>
    let name := rest.takeWhile Text.isAsciiWordChar
    if name.isEmpty then none else some (String.ofList name, name.length)

/-- Unknown variables stay as they are. The number says how many characters belong to a variable
already replaced. -/
def expandVariables (env : Environment) : (skip : Nat) → List Char → List Char
  | _, [] => []
  | skip + 1, _ :: rest => expandVariables env skip rest
  | 0, c :: rest =>
    if c = '$' then
      match variableAt? rest with
      | none => c :: expandVariables env 0 rest
      | some (name, size) =>
        ((env.get? name).map String.toList).getD (c :: rest.take size)
          ++ expandVariables env size rest
    else c :: expandVariables env 0 rest

/-- The path begins with the home of an account that cannot be looked up. -/
def hasNullAccount (p : String) : Bool :=
  match p.toList with
  | '~' :: rest => (rest.takeWhile (· ≠ '/')).contains '\x00'
  | _ => false

def expand (env : Environment) (p : String) : String :=
  String.ofList (expandVariables env 0 (expandHome env p).toList)

/-- A text without white space around it; a blank one stands for the fallback. -/
def given (text fallback : String) : String :=
  if Text.trim text = "" then fallback else Text.trim text

/-- The absolute path that a text stands for. -/
def resolve (env : Environment) (text fallback : String) : Except PathError String :=
  let p := given text fallback
  if hasNullAccount p then .error .nullInAccount else .ok (absolute env.workdir (expand env p))

theorem resolve_eq_ok_iff (env : Environment) (text fallback path : String) :
    resolve env text fallback = .ok path ↔ hasNullAccount (given text fallback) = false ∧
      absolute env.workdir (expand env (given text fallback)) = path := by
  rw [resolve]
  cases hasNullAccount (given text fallback) <;> simp

end Path

def PathError.message : PathError → String
  | .nullInAccount => "embedded null byte"

end DocNavigation
