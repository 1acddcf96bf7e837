import DocNavigation.Json.Basic
import DocNavigation.Log.Layout
import DocNavigation.Text.Blank

/-!
What keeps logs: handlers attached to the program, and behind the handler of our own a listener that
writes records to its sinks. Handlers of others are never touched.
-/

namespace DocNavigation

/-- How logs are to be kept. -/
structure LogSettings where
  level : String := "INFO"
  onConsole : Bool := true
  /-- The path of a log file; what is empty asks for none. -/
  file : Json := .null
  maxBytes : Int := 1024 * 1024
  backups : Int := 3
  consoleLine : String := "%(levelname)s | %(message)s"
  fileLine : String := "%(asctime)s | %(levelname)s | %(threadName)s | %(name)s | %(message)s"
  moment : String := Moment.usualLayout
deriving DecidableEq

/-- Files are turned over at a size, and a number of old ones is kept. -/
inductive SinkTarget where
  | console
  | file (path : String) (maxBytes backups : Int)
deriving DecidableEq, Repr

structure LogSink where
  target : SinkTarget
  level : Nat
  layout : LogLayout
deriving DecidableEq, Repr

inductive LogHandler where
  /-- Our own, which passes records on to the listener. -/
  | queue
  | foreign
deriving DecidableEq, Repr

structure Logs where
  threshold : Nat := 30
  handlers : List LogHandler := []
  listener : Option (List LogSink) := none
  isConfigured : Bool := false
deriving DecidableEq, Repr

namespace Logs

def levelNames : List (String × Nat) :=
  [("DEBUG", 10), ("INFO", 20), ("WARNING", 30), ("WARN", 30), ("ERROR", 40), ("CRITICAL", 50)]

def usualLevel : Nat := 20

/-- The capital of a letter, as far as names of levels need it. -/
def capital (c : Char) : Char :=
  if c = 'ı' then 'I' else c.toUpper

/-- An unknown name gives the usual level. -/
def levelOfName (name : String) : Nat :=
  let word := String.ofList ((Text.trim name).toList.map capital)
  (Json.getKey? levelNames word).getD usualLevel

def foreign (l : Logs) : List LogHandler :=
  l.handlers.filter (· ≠ .queue)

def ours (l : Logs) : List LogHandler :=
  l.handlers.filter (· = .queue)

/-- Takes away what is ours; whether logs were configured is remembered. -/
def detach (l : Logs) : Logs :=
  { l with handlers := l.foreign, listener := none }

def attach (l : Logs) (sinks : List LogSink) : Logs :=
  if sinks.isEmpty then l
  else { l with handlers := l.handlers ++ [.queue], listener := some sinks, isConfigured := true }

def shutdown (l : Logs) : Logs :=
  { l.detach with isConfigured := false }

def addForeign (l : Logs) : Logs :=
  { l with handlers := l.handlers ++ [.foreign] }

/-- Without force, logs that are configured stay as they are. -/
def keeps (l : Logs) (force : Bool) : Bool :=
  l.isConfigured && !force

/-- Makes way for new sinks. -/
def restart (l : Logs) (level : Nat) : Logs :=
  { l.detach with threshold := level }

end Logs

end DocNavigation
