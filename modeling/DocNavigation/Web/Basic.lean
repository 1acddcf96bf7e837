import DocNavigation.Json.Basic
import DocNavigation.Text.Utf8

/-!
What the network answers to requests, and the requests made.
-/

namespace DocNavigation

inductive Reply where
  | answer (status : Nat) (reason : String) (body : ByteArray)
  | timeout
  | failure (message : String)
deriving DecidableEq

structure Request where
  url : String
  headers : List (String × String)
  timeout : Int
deriving DecidableEq, Repr

/-- The replies by address. -/
structure Web where
  replies : List (String × Reply) := []
deriving DecidableEq

namespace Web

/-- An address without a reply is out of reach. -/
def reply (w : Web) (url : String) : Reply :=
  (Json.getKey? w.replies url).getD (.failure "unreachable")

end Web

/-- Why a reply counts as a failure, going by its status. -/
def Reply.refusal? (url : String) : Reply → Option String
  | .answer status reason _ =>
    if 400 ≤ status ∧ status < 500 then some s!"{status} Client Error: {reason} for url: {url}"
    else if 500 ≤ status ∧ status < 600 then some s!"{status} Server Error: {reason} for url: {url}"
    else none
  | .timeout => none
  | .failure message => some message

end DocNavigation
