import Compliance.CommandLine.Run
import Std.Time.Zoned

/-! # The command

Reads what a run can look at into a `Disk`, runs, prints, and writes the output back.

What is read: the project file, the places that the arguments name with every directory on the way
to them, and the data directories below those places. Links to directories below a data directory
are not followed.
-/

namespace Compliance.Main

open CommandLine

/-- The files and directories of a list of names on the machine, and what is below them. -/
partial def entriesOf (found : Array IO.FS.DirEntry) : IO Directory := do
  let mut entries : Directory := []
  for e in found do
    let link := (← e.path.symlinkMetadata).type == .symlink
    match (← e.path.metadata).type with
    | .dir =>
      if !link then
        entries := entries.insert e.fileName (.dir (← entriesOf (← e.path.readDir)))
    | .file => entries := entries.insert e.fileName (.file (← IO.FS.readBinFile e.path))
    | _ => pure ()
  return entries

/-- What is at a path on the machine: the bytes of a file, or a directory, left empty unless
everything below it is wanted. -/
def entryAt? (path : Path) (deep : Bool) : IO (Option Entry) := do
  try
    let real ← IO.FS.realPath path.text
    match (← real.metadata).type with
    | .dir =>
      if deep then return some (.dir (← entriesOf (← real.readDir)))
      return some (.dir [])
    | .file => return some (.file (← IO.FS.readBinFile real))
    | _ => return none
  catch _ => return none

/-- Adds what is at a path, and the directories on the way to it, to a disk. -/
def look (d : Disk) (path : Path) (deep : Bool) : IO Disk := do
  let mut d := d
  for n in List.range path.names.length do
    let way : Path := { path with names := path.names.take (n + 1) }
    let deep := deep && n + 1 == path.names.length
    if deep || !d.contains way then
      if let some e ← entryAt? way deep then d := d.putAt way e
  return d

/-- The places that a run may look at whatever it finds there. -/
def placesOf (args : List String) : List Path :=
  (Config.fileName :: Run.junitFile :: namesOf args).map Path.ofText

/-- The disk that a run sees. -/
def diskOf (args : List String) : IO Disk := do
  let place := (Path.ofText (← IO.FS.realPath ".").toString).names
  let mut d : Disk := ⟨Directory.put (.dir []) [] place, place⟩
  for path in placesOf args do
    d ← look d path false
  for path in Run.searched d args do
    d ← look d path true
  return d

/-- Writes a file to the machine if a run has changed it. -/
def store (before after : Disk) (path : Path) : IO Unit := do
  match after.readBytes path with
  | .error _ => return
  | .ok bytes =>
    if (before.readBytes path).toOption.map (·.data) != some bytes.data then
      IO.FS.createDirAll path.parent.text
      IO.FS.writeBinFile path.text bytes

/-- The time of day, by the clock of the machine. -/
def now : IO String := do
  let t ← Std.Time.PlainDateTime.now
  let date : Date := ⟨t.date.year.toInt.toNat, t.date.month.val.toNat, t.date.day.val.toNat⟩
  let time : DateTime :=
    ⟨date, t.time.hour.val.toNat, t.time.minute.val.toNat, t.time.second.val.toNat, 0, none⟩
  return time.textWith "T"

/-- The seconds in a number of nanoseconds. -/
def secondsOf (nanoseconds : Nat) : Scalar :=
  .float (Binary64.nearest false nanoseconds (Nat.pow 10 9))

def run (args : List String) : IO UInt32 := do
  let start ← IO.monoNanosNow
  let d ← diskOf args
  let duration := secondsOf ((← IO.monoNanosNow) - start)
  let outcome := Run.ofArgs d duration (some (← now)) args
  IO.print outcome.printed
  for path in placesOf args do
    store d outcome.disk path
  match outcome.ending with
  | .code code =>
    let (status, more) := exitStatus code
    IO.eprint more
    return UInt32.ofNat (status.emod 256).toNat
  | .status n =>
    if n == Run.usageStatus then
      if let .error e := readRequest (Run.isThere d) args then
        IO.eprintln ("Usage: scelint [OPTIONS] [PATHS]...\nError: " ++ e.message)
    return UInt32.ofNat (n.emod 256).toNat
  | .crash e =>
    IO.eprintln ("Error: " ++ e.message)
    return 1

end Compliance.Main

def main (args : List String) : IO UInt32 := Compliance.Main.run args
