import Mathlib.Data.ENat.Basic
import PermanuAgent.ByteText

/-!
# Diagnostics of a file

A file is read up to a limit of bytes and rows. The limits are applied before the
lines or the listening sockets are selected.
-/

set_option autoImplicit false

namespace Permanu.DiagnosticLimits

open ByteText List

/-- `str::lines`: a line ends with a newline, or a return and a newline. -/
def lines (text : Str) : List Str :=
  let pieces := text.splitOn 10
  pieces.dropLast.map (fun line => (stripSuffix line "\x0d").getD line) ++
    pieces.getLast?.toList.filter (· ≠ [])

end Permanu.DiagnosticLimits
