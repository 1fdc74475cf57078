import Frust.Kernel.Recovery
import Frust.Lib.Occurs

/-!
# `Frust.Kernel.SurrealTool`: the database tool that recovery runs

`SystemOps::surreal` runs the `surreal` binary for an export or an import. The binary is `output`: a
process that was started has ended, with a status, and has printed bytes. A result of `none` is a
panic, which ends the command without a message of its own.
-/

set_option autoImplicit false

namespace Frust.Kernel

open Frust.Rust

namespace Recovery

/-- `ConnConfig`, as the tool needs it. -/
structure ConnConfig where
  endpoint : String
  rootUser : String
  rootPass : String
  deriving DecidableEq

/-- `std::process::Command`. -/
structure ProcessCommand where
  program : Path
  args : List String
  env : List (String × String)
  envRemove : List String
  deriving DecidableEq

/-- `std::process::Output`. The status is as it is displayed. -/
structure Output where
  success : Bool
  status : String
  stdout : List UInt8
  stderr : List UInt8
  deriving DecidableEq

/-- `SystemOps`, and what a started process does. A process that does not start has an error. -/
structure SystemOps where
  surrealBin : Path
  output : ProcessCommand → Except String Output

/-- What is put in the place of the password. -/
def redactedMark : String := "<redacted>"

/-- What ends a text that was cut. -/
def truncatedMark : String := "...<truncated>"

/-- The number of bytes of a detail. -/
def maxDetail : Nat := 4096

/-- `trim`. -/
def trimmedText (bytes : List UInt8) : List Char :=
  Str.trimMatches Str.isWhitespace (fromUtf8Lossy bytes)

/-- The detail of a failure, before the password is taken out: `stderr`, or else `stdout`. -/
def said (output : Output) : List Char :=
  if (trimmedText output.stderr).isEmpty then trimmedText output.stdout
  else trimmedText output.stderr

/-- The detail without the password. -/
def redact (pass : String) (detail : List Char) : List Char :=
  if !pass.toList.isEmpty then Lib.Occurs.replaceAll pass.toList redactedMark.toList detail
  else detail

/-- The detail that is shown. -/
def shorten (detail : List Char) : Option (List Char) :=
  if len detail > maxDetail then (truncate maxDetail detail).map (· ++ truncatedMark.toList)
  else some detail

namespace SystemOps

/-- The process of a `surreal`. Credentials are not among the arguments. -/
def command (ops : SystemOps) (conn : ConnConfig) (plan : TargetPlan) (verb : String) (file : Path) :
    ProcessCommand where
  program := ops.surrealBin
  args := [verb, "--endpoint", conn.endpoint, "--namespace", plan.ns, "--database", plan.database,
    "--log", "error", display file]
  env := [("SURREAL_USER", conn.rootUser), ("SURREAL_PASS", conn.rootPass),
    ("SURREAL_AUTH_LEVEL", "root")]
  envRemove := ["SURREAL_TOKEN"]

/-- The error of a process that failed, before its detail. -/
def failedText (verb status : String) : String := "surreal " ++ verb ++ " failed with " ++ status ++ ": "

/-- `SystemOps::surreal`. -/
def surreal (ops : SystemOps) (conn : ConnConfig) (verb : String) (target : ResolvedTenant)
    (file : Path) : Option (Except RecoveryError Unit) :=
  match TargetPlan.fromTarget target with
  | .error e => some (.error e)
  | .ok plan =>
      match ops.output (ops.command conn plan verb file) with
      | .error e =>
          some (.error ("could not start " ++ display ops.surrealBin ++ " " ++ verb ++ ": " ++ e))
      | .ok output =>
          if output.success then some (.ok ())
          else (shorten (redact conn.rootPass (said output))).map fun detail =>
            .error (failedText verb output.status ++ String.ofList detail)

end SystemOps

end Recovery

end Frust.Kernel
