import TeachingCpu.Assembly.Statement
/-!
# TeachingCpu.Assembly.Fields

The **fields** of a line in normal form: an optional label, a command, optional parameters.

A line has up to three fields. The first of several is a label if it begins with `_`; a line of
two other fields is a command with parameters, and in a line of three fields the first is taken
for a label in any case, to be refused later if it is none. Indentation makes an empty first
field and no other field may be empty.
-/

set_option autoImplicit false

namespace TeachingCpu

/-- A line taken apart. -/
structure Fields where
  label : Option Text := none
  command : Text
  params : List Text := []
deriving DecidableEq, Repr

namespace Fields

/-- The parameters in a field. -/
def paramsOf (field : Text) : List Text := field.splitOn ','

/-- Takes a line in normal form apart. -/
def ofText? (text : Text) : Option Fields :=
  let parts := text.splitOn '@'
  if parts.tail.any List.isEmpty then none
  else match parts with
    | [command] => some { command }
    | [first, second] =>
      if first.isEmpty then some { command := second }
      else if isLabel first then some { label := some first, command := second }
      else some { command := first, params := paramsOf second }
    | [first, command, field] =>
      let label := if first.isEmpty then none else some first
      some { label, command, params := paramsOf field }
    | _ => none

end Fields

end TeachingCpu
