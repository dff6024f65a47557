/-
# Failures

There are two ways in which a program is not compiled. A diagnostic says what is wrong with its
text. A fault is the compiler's own: one of its parts does not find what it relies on the others
for. Whatever handles diagnostics leaves a fault alone, so that it ends the compilation at once.
-/

import EventRules.Config
import EventRules.Diagnostic.Basic

namespace EventRules

/-- What a part of the compiler relies on and does not find: a matcher to start a conjunction with,
a conversion for the type of a parameter, a family or a shape under a keyword that was read, and a
declaration or a rule where a statement was read. -/
inductive Fault
  | conjunction (e : ConjunctionError)
  | unsupportedType (p : ParameterType)
  | unknownFamily (word : Text)
  | unknownShape (word : Text)
  | notAStatement
  deriving DecidableEq, Repr

/-- The description of a fault. -/
def Fault.message : Fault → Text
  | conjunction e => e.message
  | unsupportedType p =>
    "unsupported parameter type: ParameterType." ++
      p.name.map fun c => if c = ' ' then '_' else c.toUpper
  | unknownFamily word | unknownShape word => word.quoted
  | notAStatement => "unexpected statement result"

/-- Why a program is not compiled. -/
inductive Failure
  | diagnostic (d : Diagnostic)
  | fault (f : Fault)
  deriving Repr

instance : Coe Diagnostic Failure := ⟨.diagnostic⟩

instance : Coe Fault Failure := ⟨.fault⟩

namespace Failure

/-- The failure rules out every other alternative. -/
def isFatal : Failure → Bool
  | diagnostic d => d.isFatal
  | fault _ => true

/-- The failure with its diagnostic changed. A fault stays as it is. -/
def map (g : Diagnostic → Diagnostic) : Failure → Failure
  | diagnostic d => g d
  | fault f => f

@[simp]
theorem isFatal_diagnostic (d : Diagnostic) : (diagnostic d).isFatal = d.isFatal := rfl

@[simp]
theorem isFatal_fault (f : Fault) : (fault f).isFatal = true := rfl

/-- A failure that is not fatal is a diagnostic. -/
theorem exists_diagnostic {e : Failure} (h : e.isFatal = false) :
    ∃ d : Diagnostic, e = d ∧ d.isFatal = false := by
  cases e with
  | diagnostic d => exact ⟨d, rfl, h⟩
  | fault f => cases h

@[simp]
theorem map_diagnostic (g : Diagnostic → Diagnostic) (d : Diagnostic) :
    (diagnostic d).map g = g d := rfl

@[simp]
theorem map_fault (g : Diagnostic → Diagnostic) (f : Fault) : (fault f).map g = f := rfl

end Failure

end EventRules
