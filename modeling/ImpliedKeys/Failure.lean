import ImpliedKeys.Analysis.Config
import ImpliedKeys.Analysis.Defect

/-!
# Failures

A failure has a cause and says, from the outside in, what was being done when the cause arose.
-/
namespace ImpliedKeys

/-- Why something could not be done. -/
inductive Cause where
  | fileNotFound (path : String)
  | fileRead (path reason : String)
  /-- A text that is no document of the expected form. -/
  | malformed (detail : String)
  | notADirectory (path : String)
  | limitTooGreat (limit : Nat)
  | defect (d : Defect)
  deriving DecidableEq, Inhabited

namespace Cause

def message : Cause → String
  | fileNotFound path => "File not found: " ++ path
  | fileRead path reason => "Failed to read file: " ++ path ++ " (cause: " ++ reason ++ ")"
  | malformed detail => detail
  | notADirectory path => "Not a directory: " ++ path
  | limitTooGreat limit =>
    "max_table_prefixes must be at most " ++ toString Config.greatestLimit ++ " (got " ++
      toString limit ++ ")"
  | defect d => d.message

end Cause

/-- A cause, and what was being done, the outermost activity first. -/
structure Failure where
  activities : List String := []
  cause : Cause
  deriving DecidableEq, Inhabited

namespace Failure

def message (f : Failure) : String :=
  String.intercalate ": " (f.activities ++ [f.cause.message])

/-- The failure as it appears from one activity further out. -/
def during (activity : String) (f : Failure) : Failure :=
  { f with activities := activity :: f.activities }

end Failure

/-- A result, or the failure as it appears from the activity that wanted it. -/
def whileDoing {α : Type} (activity : String) : Except Failure α → Except Failure α
  | .ok a => .ok a
  | .error f => .error (f.during activity)

section WhileDoing

variable {α : Type} {activity : String} {result : Except Failure α}

theorem whileDoing_eq_ok_iff {a : α} : whileDoing activity result = .ok a ↔ result = .ok a := by
  cases result <;> simp [whileDoing]

theorem whileDoing_eq_error_iff {f : Failure} : whileDoing activity result = .error f ↔
    ∃ g, result = .error g ∧ f = g.during activity := by
  cases result <;> simp [whileDoing, eq_comm]

end WhileDoing

namespace Config

/-- Why settings may not stand in a file. -/
def refusal? (c : Config) : Option Cause :=
  if c.isValid then none else some (.limitTooGreat c.maxTablePrefixes)

end Config

end ImpliedKeys
