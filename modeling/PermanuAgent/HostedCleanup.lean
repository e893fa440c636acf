import PermanuAgent.ComposeFiles

/-!
# The directories of a hosted build

A CI job names its checkout, and an `Exec` request a build directory; both are
removed as a whole. The checks compare the beginning of the path as it is
written, so what `..` components behind it do decides which directory goes.
-/

set_option autoImplicit false

namespace Permanu.HostedCleanup

open ByteText ResultSteps List Option
open ComposeFiles (components)

/-- `PathBuf::join` with a relative name. -/
def join (base name : Str) : Str :=
  if base.getLast? = some (byte '/') then base ++ name else base ++ byte '/' :: name

section
variable (ciWorkspaceRoot : Str)

end

def climbStep (c : ℕ × List Str) (name : Str) : ℕ × List Str :=
  if name = str ".." then (if c.2 = [] then c.1 + 1 else c.1,c.2.dropLast)
  else (c.1,c.2 ++ [name])

def climb (names : List Str) : ℕ × List Str := names.foldl climbStep (0,[])

/-- The directory under `/` that the components lead to. -/
def resolve (names : List Str) : List Str := (climb names).2

end Permanu.HostedCleanup
