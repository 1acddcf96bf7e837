/-!
Notes on what was done, in the order of the doing.
-/

namespace DocNavigation

structure Note where
  level : Nat
  message : String
deriving DecidableEq, Repr

namespace Note

def debug (message : String) : Note := ⟨10, message⟩
def info (message : String) : Note := ⟨20, message⟩
def warning (message : String) : Note := ⟨30, message⟩
def error (message : String) : Note := ⟨40, message⟩
def critical (message : String) : Note := ⟨50, message⟩

def levelName (level : Nat) : String :=
  match level with
  | 0 => "NOTSET"
  | 10 => "DEBUG"
  | 20 => "INFO"
  | 30 => "WARNING"
  | 40 => "ERROR"
  | 50 => "CRITICAL"
  | n => s!"Level {n}"

end Note

end DocNavigation
