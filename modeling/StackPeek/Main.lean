import StackPeek.Cli
import StackPeek.Process.Path

/-!
# The program

Reads what the process file system shows of the requested process, runs `Cli.run` and prints
what it has to say. Foreign memory can be read only with a system call that is not available
here, so every such read is answered as one that is not permitted.
-/

open StackPeek

def contents? (path : String) : IO (Option (List UInt8)) :=
  try
    return some (← IO.FS.readBinFile path).toList
  catch _ => return none

def workerCount : IO UInt64 := do
  let text := ((← contents? "/proc/cpuinfo").getD []).splitOn 10
  let mark := "processor".toUTF8.toList
  return max 1 (UInt64.ofNat (text.countP mark.isPrefixOf / 2))

def main (args : List String) : IO UInt32 := do
  let program := (← IO.appPath).toString
  let pid := ((Cli.Request.ofArgs? args).elim 0 (·.pid)).toInt
  let status ← contents? (Path.ofProcess "" pid "status")
  let maps ← contents? (Path.ofProcess "" pid "maps")
  let host : Cli.Host Unit := {
    walkThreads := ← workerCount
    entry := fun _ => ⟨pid, status.isSome, maps⟩
    read := fun _ _ _ s => (.failed 1, s) }
  let (exit, _, console) := Cli.run host program args ()
  IO.print console.out
  IO.eprint console.err
  return exit
