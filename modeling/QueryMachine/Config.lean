/-! Options of one compilation. -/
namespace QueryMachine

structure Config where
  /-- Timeout of entry points invoked without one, in milliseconds; zero is none at all. -/
  statementTimeout : Nat
  verify : Bool
  dumpDirectory : Option String
  maxUnits : Nat
  deriving DecidableEq, Repr

namespace Config

def default : Config := ⟨30000, true, none, 4096⟩

def timeout? (c : Config) : Option Nat :=
  if c.statementTimeout = 0 then none else some c.statementTimeout

def resolvedDump (c : Config) (environment : Option String) : Option String :=
  match environment with
  | some dir => if dir.isEmpty then c.dumpDirectory else some dir
  | none => c.dumpDirectory

end Config

inductive Setting where
  | nothing
  | flag (b : Bool)
  | count (n : Nat)
  | text (s : String)
  /-- Anything else: negative or fractional numbers, lists, objects. -/
  | other
  deriving DecidableEq, Repr

namespace Setting

def flag? : Setting → Option Bool
  | flag b => some b
  | _ => none

def count? : Setting → Option Nat
  | count n => if n < UInt64.size then some n else none
  | _ => none

def text? : Setting → Option (Option String)
  | nothing => some none
  | text s => some (some s)
  | _ => none

def orDefault {α : Type} (read : Setting → Option α) (default : α) : Option Setting → Option α
  | some s => read s
  | none => some default

end Setting

namespace Config

/-- Options that are left out take their defaults; one of the wrong sort spoils the whole. -/
def ofSettings? (timeout verify dump units : Option Setting) : Option Config := do
  return {
    statementTimeout := ← Setting.orDefault Setting.count? default.statementTimeout timeout
    verify := ← Setting.orDefault Setting.flag? default.verify verify
    dumpDirectory := ← Setting.orDefault Setting.text? default.dumpDirectory dump
    maxUnits := ← Setting.orDefault Setting.count? default.maxUnits units }

def ofNamed? (setting? : String → Option Setting) : Option Config :=
  ofSettings? (setting? "statement_timeout_ms") (setting? "verify") (setting? "dump_directory")
    (setting? "max_units")

def ofRow? (row : List Setting) : Option Config :=
  if row.length ≤ 4 then ofSettings? row[0]? row[1]? row[2]? row[3]? else none

end Config

end QueryMachine
