/-!
The files that a command can count on: the directories that every system has, the programs that are
known here, and what is written while a script runs.
-/

namespace TaskGraph.Shell

/-- Why a path leads nowhere, or cannot be used. -/
inductive PathFault where
  | absent
  | notDirectory
  | isDirectory
  | tooLong
  | denied
  | taken
  | noDevice
  deriving DecidableEq, Repr

namespace PathFault

/-- The system's words for a fault. -/
def text : PathFault → String
  | .absent => "No such file or directory"
  | .notDirectory => "Not a directory"
  | .isDirectory => "Is a directory"
  | .tooLong => "File name too long"
  | .denied => "Permission denied"
  | .taken => "File exists"
  | .noDevice => "No such device or address"

/-- The system's number of a fault. -/
def number : PathFault → Nat
  | .absent => 2
  | .notDirectory => 20
  | .isDirectory => 21
  | .tooLong => 36
  | .denied => 13
  | .taken => 17
  | .noDevice => 6

end PathFault

inductive Device where
  /-- Reads nothing and keeps nothing. -/
  | null
  /-- Reads nothing that would end, and keeps nothing. -/
  | zero
  /-- Refuses what is written. -/
  | full
  | terminal
  /-- One of the streams of the process itself. -/
  | stream (n : Nat)
  deriving DecidableEq, Repr

inductive Kind where
  | directory
  | file (content : String)
  | program (name : String)
  | device (d : Device)
  deriving DecidableEq, Repr

abbrev Files := List (String × String)

namespace Place

def directories : List String :=
  ["/","/boot","/dev","/dev/fd","/dev/pts","/dev/shm","/etc","/home","/media","/mnt","/opt","/proc",
    "/root","/run","/srv","/sys","/tmp","/usr","/usr/bin","/usr/games","/usr/include","/usr/lib",
    "/usr/lib64","/usr/libexec","/usr/local","/usr/local/bin","/usr/local/etc","/usr/local/games",
    "/usr/local/include","/usr/local/lib","/usr/local/sbin","/usr/local/share","/usr/local/src",
    "/usr/sbin","/usr/share","/usr/src","/var","/var/cache","/var/lib","/var/local","/var/log",
    "/var/mail","/var/opt","/var/spool","/var/tmp"]

/-- Names in the root that lead to directories under another. -/
def aliases : List (String × String) :=
  [("bin","bin"),("sbin","sbin"),("lib","lib"),("lib64","lib64")]

def binaries : String := "/usr/bin"

/-- Programs that are known, apart from those that can be run here. -/
def programs : List String :=
  ["sh","dash","bash","cat","echo","printf","true","false","test","[","pwd","sleep","env",
    "ls","cp","mv","rm","mkdir","rmdir","touch","chmod","chown","ln","date","sed","grep","awk","head",
    "tail","sort","uniq","wc","tr","cut","tee","find","xargs","expr","seq","basename","dirname","id",
    "whoami","uname","hostname","mktemp","od","yes","nl","paste","stat","kill","ps","tar","gzip","perl"]

def files : Files :=
  [("/etc/passwd","root:x:0:0:root:/root:/bin/bash\n"),("/etc/group","root:x:0:\n"),
    ("/etc/hosts","127.0.0.1\tlocalhost\n"),("/etc/hostname","localhost\n"),("/etc/fstab",""),
    ("/etc/shadow",""),("/etc/profile",""),("/etc/os-release",""),("/etc/resolv.conf",""),
    ("/etc/shells","")]

def devices : List (String × Device) :=
  [("/dev/null",.null),("/dev/zero",.zero),("/dev/full",.full),("/dev/tty",.terminal),
    ("/dev/random",.zero),("/dev/urandom",.zero),("/dev/stdin",.stream 0),("/dev/stdout",.stream 1),
    ("/dev/stderr",.stream 2)]

/-- The names in a path. -/
def names (path : String) : List String :=
  ((path.splitOn "/").filter (fun s => !s.isEmpty))

def join : List String → String
  | [] => "/"
  | ns => String.join (ns.map ("/" ++ ·))

/-- What a path without detours leads to. -/
def kind? (written : Files) (path : String) : Option Kind :=
  if directories.contains path then some .directory
  else match written.lookup path, devices.lookup path, files.lookup path with
    | some content, _, _ => some (.file content)
    | none, some d, _ => some (.device d)
    | none, none, some content => some (.file content)
    | none, none, none =>
      match names path with
      | ["usr","bin",name] => if programs.contains name then some (.program name) else none
      | ["dev","fd",n] => n.toNat?.map fun n => .device (.stream n)
      | _ => none

/-- Follows names from a directory, as the system does. -/
def follow (written : Files) : List String → List String → Except PathFault (List String)
  | done, [] => .ok done
  | done, name::rest =>
    if name.length > 255 then .error .tooLong
    else
      let next := if name = "." then done
        else if name = ".." then done.dropLast
        else match done, aliases.lookup name with
          | [], some target => ["usr",target]
          | _, _ => done ++ [name]
      match kind? written (join next) with
      | some .directory => follow written next rest
      | some _ => if rest.isEmpty then .ok next else .error .notDirectory
      | none => if rest.isEmpty then .ok next else .error .absent

/-- The path without detours that a path means in a directory. -/
def resolve (written : Files) (directory path : String) : Except PathFault String := do
  if path.isEmpty then throw .absent
  if path.length ≥ 4096 then throw .tooLong
  let start ← if path.startsWith "/" then pure [] else follow written [] (names directory)
  let found := join (← follow written start (names path))
  if path.endsWith "/" then
    match kind? written found with
    | some .directory => return found
    | some _ => throw .notDirectory
    | none => throw .absent
  else return found

/-- What a path leads to in a directory. -/
def find (written : Files) (directory path : String) : Except PathFault (String × Kind) := do
  let found ← resolve written directory path
  match kind? written found with
  | some k => return (found,k)
  | none => throw .absent

/-- The directory that a path leads to. -/
def findDirectory (written : Files) (directory path : String) : Except PathFault String := do
  match ← find written directory path with
  | (found,.directory) => return found
  | _ => throw .notDirectory

/-- A path in a directory by its names alone: two dots drop the name before them. -/
def logical (directory path : String) : String :=
  let start := if path.startsWith "/" then [] else names directory
  join ((names path).foldl (fun (done : List String) name =>
    if name = "." then done else if name = ".." then done.dropLast else done ++ [name]) start)

/-- The program that a name means along a search path, with the path that leads to it. A directory of
that name counts as a program that may not be run. -/
def search (written : Files) (directory path name : String) : Except PathFault String :=
  let paths := (path.splitOn ":").map fun dir => if dir.isEmpty then name else dir ++ "/" ++ name
  let kinds := paths.map fun full => (full,(find written directory full).toOption.map (·.2))
  let isProgram : String × Option Kind → Bool
    | (_,some (.program _)) => true
    | _ => false
  match kinds.find? isProgram with
  | some (full,_) => .ok full
  | none => .error (if kinds.any fun k => k.2 == some .directory then .denied else .absent)

end Place

end TaskGraph.Shell
