import TaskGraph.Shell.Program
import TaskGraph.Shell.Reader

/-!
Running scripts: a command expands its words, ties its streams, assigns, and calls a function, a
builtin command or a program. Scripts that run apart work on a copy of the state and share the world.
-/

namespace TaskGraph.Shell

namespace Run

/-- How something ended, if it did not go on. -/
def attempt (body : Run Unit) : Run (Option Flow) :=
  tryCatch (do body; return none) fun flow => return some flow

def status : Run Nat := return (← get).status

def setStatus (n : Nat) : Run Unit := modify fun s => {s with status := n}

/-- Ends the script after a failure that was not tested, if that is asked for. -/
def check (tested : Bool) : Run Unit := do
  if !tested && (← status) != 0 && (← isOn 'e') then throw .exited

/-- Ties streams; tells whether that was possible. -/
def tied (ties : List Tie) : Run Bool := do
  match ← attempt (ties.forM Tie.apply) with
  | none => return true
  | some .failed => return false
  | some flow => throw flow

/-- Keeps what is done to the streams to something. -/
def withStreams (body : Run Unit) : Run Unit := do
  let streams := (← get).streams
  ensuring body (modify fun s => {s with streams})

/-- How a loop goes on after one of its parts. -/
inductive Pace where
  | on
  | again
  | over
  deriving DecidableEq, Repr

/-- Runs a part of a loop. -/
def turn (body : Run Unit) : Run Pace := do
  match ← attempt body with
  | none => return .on
  | some (.left n) => if n ≤ 1 then return .over else throw (.left (n-1))
  | some (.next n) => if n ≤ 1 then return .again else throw (.next (n-1))
  | some flow => throw flow

/-- Counts a loop around what is run. -/
def inLoop (body : Run Unit) : Run Unit := do
  let loops := (← get).loops
  modify fun s => {s with loops := loops+1}
  ensuring body (modify fun s => {s with loops})

/-- How many calls of functions may be under way at once. -/
def deepest : Nat := 12000

/-- The process that a copy of the state will be. -/
def nextPid : Run Nat := return (← get).root+(← get).world.processes+1

/-- Writes what a command that is traced consists of. -/
def trace (streams : List (Nat × Stream)) (assigned : List (String × String))
    (words : List String) : Run Unit := do
  if ← isOn 'x' then
    let start := (← value? "PS4").getD ""
    let words := assigned.map (fun a => a.1 ++ "=" ++ a.2) ++ words
    withStreams do
      modify fun s => {s with streams}
      write 2 (start ++ " ".intercalate words ++ "\n")

end Run

/-- What the first word of a command calls. -/
inductive Callee where
  | nobody
  | function (body : Script)
  | builtin (name : String)
  | program

namespace Callee

def isBuiltin : Callee → String → Bool
  | .builtin name, other => name == other
  | _, _ => false

/-- The words behind `command` and its options; nothing when it does not call another command. -/
def called? : List String → Option (List String)
  | [] => none
  | w::rest =>
    match w.toList with
    | ['-','-'] => if rest.isEmpty then none else some rest
    | '-'::c::cs => if (c::cs).all (· == 'p') then called? rest else none
    | _ => some (w::rest)

def named (functions : Bool) (name : String) : Run Callee := do
  match (← get).functions.lookup name with
  | some body => if functions then return .function body
  | none => pure ()
  if Builtin.isBuiltin name then return .builtin name else return .program

/-- What words call, with the words it gets, and whether a complaint ends the script. -/
def ofWords : Nat → Bool → List String → Run (Callee × List String × Bool)
  | 0, _, words => return (.nobody,words,false)
  | _+1, _, [] => return (.nobody,[],false)
  | n+1, functions, name::rest => do
    let found ← named functions name
    let special := functions && found.isBuiltin name && Builtin.specials.contains name
    match if found.isBuiltin "command" then called? rest else none with
    | some words =>
      let (callee,words,_) ← ofWords n false words
      return (callee,words,false)
    | none => return (found,name::rest,special)

/-- Whether the words of a command so far call one whose arguments may assign. -/
def assigns : List String → Bool
  | "command"::rest => assigns rest
  | name::_ => Builtin.assigning.contains name
  | [] => false

/-- What a name means to the script. -/
def meaning (name : String) : Run Builtin.Meaning := do
  let s ← get
  let search := (← Run.value? "PATH").getD ""
  if Token.keywords.contains name then return .keyword
  else if let some text := s.aliases.lookup name then return .nickname text
  else if (s.functions.lookup name).isSome then return .function
  else if Builtin.isBuiltin name then return .builtin (Builtin.specials.contains name)
  else if name.contains '/' then
    return match Place.find s.world.files s.directory name with
      | .ok _ => .program name
      | .error _ => .unknown
  else return match Place.search s.world.files s.directory search name with
    | .ok path => .program path
    | .error _ => .unknown

end Callee

/-- The options a shell is started with, and the words behind them. The flag tells whether the first of
those is a script. -/
def startOptions : Nat → Bool → List String → Run (Bool × List String)
  | 0, script, words => return (script,words)
  | n+1, script, words => do
    match words with
    | [] => return (script,[])
    | w::rest =>
      match w.toList with
      | ['-'] | ['-','-'] => return (script,rest)
      | sign::letters =>
        if sign != '-' && sign != '+' then return (script,words)
        let on := sign == '-'
        let known := letters.filter fun c => c != 'c' && c != 'l' && c != 'o'
        for c in known do Builtin.turn c on
        let rest ← if letters.contains 'o' then
            match rest with
            | [] => do Builtin.listOptions on; pure []
            | name::more =>
              match State.optionNames.lookup name with
              | some letter => do
                if State.letters.contains letter then Builtin.turn letter on
                pure more
              | none => Run.fail s!"Illegal option -o {name}"
          else pure rest
        startOptions n (script || letters.contains 'c') rest
      | [] => return (script,words)

/-- The state of a script that has just been started. -/
def State.fresh (world : World) (environment : List (String × String)) (directory : String)
    (streams : List (Nat × Stream)) (pid : Nat) (title : String) : State :=
  let kept := environment.filterMap fun (name,value) =>
    -- a name may hold an equals sign, behind which its value starts
    match (name ++ "=" ++ value).toList.span (· != '=') with
    | (name,_::value) =>
      if isName (String.ofList name) then some (String.ofList name,String.ofList value) else none
    | _ => none
  let imported := kept.foldl (fun (vs : List (String × Variable)) (name,value) =>
    (name,{value := some value, exported := true})::vs.filter (·.1 != name)) []
  let own : List (String × Variable) :=
    [("IFS",{value := some " \t\n"}),("OPTIND",{value := some "1"}),
      ("PPID",{value := some (toString (pid-1))}),
      ("PWD",{value := some directory, exported := true})]
  let bindings := own ++ imported.filter fun v => (own.lookup v.1).isNone
  let bindings := if (bindings.lookup "PS4").isSome then bindings
    else ("PS4",{value := some "+ "})::bindings
  { world, title, bindings, directory, streams, pid, root := pid }

mutual

/-- Runs a script; `tested` tells whether somebody looks at its failure. -/
def evaluate : Nat → Bool → Script → Run Unit
  | 0, _, _ => throw .exited
  | n+1, tested, script => do
    if ← Run.isOn 'n' then return
    match script with
    | .nothing => return
    | .simple line assignments words redirects =>
      simple n tested line assignments words redirects
      Run.check tested
    | .sequence first second =>
      evaluate n tested first
      evaluate n tested second
    | .both first second =>
      evaluate n true first
      if (← Run.status) == 0 then evaluate n tested second
    | .either first second =>
      evaluate n true first
      if (← Run.status) != 0 then evaluate n tested second
    | .negate body =>
      evaluate n true body
      Run.setStatus (if (← Run.status) == 0 then 1 else 0)
    | .pipe scripts =>
      Run.setStatus (← pipe n tested .nothing true scripts)
      Run.check tested
    | .background body =>
      let pid ← Run.nextPid
      let before := (← get).world.clock
      let status ← copied n do
        Run.setStream 0 (some .nothing)
        evaluate n false body
      modify fun s => {s with
        status := 0
        lastJob := some pid
        jobs := ⟨pid,status,s.world.clock⟩::s.jobs
        world := {s.world with clock := before}}
    | .isolated line body redirects =>
      modify fun s => {s with line}
      let ties ← redirects.mapM (Tie.ofRedirect (output n))
      Run.setStatus (← copied n do
        ties.forM Tie.apply
        evaluate n tested body)
      Run.check tested
    | .redirected line body redirects =>
      modify fun s => {s with line}
      let ties ← redirects.mapM (Tie.ofRedirect (output n))
      Run.withStreams do
        if ← Run.tied ties then evaluate n tested body
    | .choose condition body alternative =>
      evaluate n true condition
      if (← Run.status) == 0 then evaluate n tested body
      else match alternative with
        | .nothing => Run.setStatus 0
        | alternative => evaluate n tested alternative
    | .loop whileSuccess condition body =>
      Run.inLoop (loop n tested whileSuccess condition body 0)
    | .forEach line name words body =>
      modify fun s => {s with line}
      let values ← words.mapM (Expand.fields (output n))
      Run.setStatus 0
      Run.inLoop (each n tested name body values.flatten)
    | .select line w arms =>
      modify fun s => {s with line}
      let text ← Expand.text (output n) w
      select n tested text.toList arms
    | .define name body => modify fun s =>
      {s with functions := (name,body)::s.functions.filter (·.1 != name), status := 0}
    signals n

/-- Runs a body as long as its condition says; `last` is the exit code of the turn before. -/
def loop : Nat → Bool → Bool → Script → Script → Nat → Run Unit
  | 0, _, _, _, _, _ => throw .exited
  | n+1, tested, whileSuccess, condition, body, last => do
    match ← Run.turn (evaluate n true condition) with
    | .over => Run.setStatus last
    | .again => loop n tested whileSuccess condition body last
    | .on =>
      if ((← Run.status) == 0) != whileSuccess then Run.setStatus last
      else match ← Run.turn (evaluate n tested body) with
        | .over => return
        | _ => loop n tested whileSuccess condition body (← Run.status)

/-- Runs a body once for each value of a name. -/
def each : Nat → Bool → String → Script → List String → Run Unit
  | 0, _, _, _, _ => throw .exited
  | _+1, _, _, _, [] => return
  | n+1, tested, name, body, value::values => do
    Run.assign name value false
    match ← Run.turn (evaluate n tested body) with
    | .over => return
    | _ => each n tested name body values

/-- Runs the first script with a pattern that a text matches. -/
def select : Nat → Bool → List Char → List (List Word × Script) → Run Unit
  | 0, _, _, _ => throw .exited
  | _+1, _, _, [] => Run.setStatus 0
  | n+1, tested, text, (patterns,body)::arms => do
    match patterns with
    | [] => select n tested text arms
    | p::ps =>
      if (← Expand.pattern (output n) p).Matches text then
        match body with
        | .nothing => Run.setStatus 0
        | body => evaluate n tested body
      else select n tested text ((ps,body)::arms)

/-- Runs scripts each of which reads what the one before it writes; gives the exit code of the last.
The first reads what the script around does. -/
def pipe : Nat → Bool → Stream → Bool → List Script → Run Nat
  | 0, _, _, _, _ => throw .exited
  | _+1, _, _, _, [] => return 0
  | n+1, tested, source, first, script::rest => do
    let target ← if rest.isEmpty then pure none else some <$> Run.buffer []
    let status ← copied n do
      if !first then Run.setStream 0 (some source)
      if let some stream := target then Run.setStream 1 (some stream)
      evaluate n tested script
    match target with
    | some stream => pipe n tested stream false rest
    | none => return status

/-- Runs something in a copy of the state; gives its exit code. -/
def copied : Nat → Run Unit → Run Nat
  | 0, _ => throw .exited
  | n+1, body => do
    let pid ← Run.nextPid
    let before ← get
    set {before with
      pid
      world := {before.world with processes := before.world.processes+1}
      traps := before.traps.filter (·.2.isEmpty)
      jobs := []}
    let flow ← finished n (← Run.attempt body)
    let after ← get
    set {before with world := after.world}
    match flow with
    | some (.killed signal) =>
      if let some text := Signal.epitaph? signal then Run.write 2 (text ++ "\n")
      return Signal.status signal
    | _ => return after.status%256

/-- Runs the script that is kept for the end, whose own end counts only if it names an exit code. -/
def finished : Nat → Option Flow → Run (Option Flow)
  | 0, flow => return flow
  | n+1, flow => do
    let s ← get
    match flow, s.traps.lookup 0 with
    | some (.killed _), _ | _, none => return flow
    | _, some script =>
      set {s with traps := s.traps.filter (·.1 != 0), resumed := some s.status, speaker := none}
      match ← Run.attempt (text n false (.ofText script.toList s.line) false) with
      | some .exited => return some .exited
      | some (.killed signal) => return some (.killed signal)
      | _ => Run.setStatus s.status; return flow

/-- Handles the signals that have come. -/
def signals : Nat → Run Unit
  | 0 => return
  | n+1 => do
    let s ← get
    match s.world.signals.find? (·.1 == s.pid) with
    | none => return
    | some sent =>
      set {s with world := {s.world with signals := s.world.signals.erase sent}}
      if sent.2 == Signal.kill then throw (.killed sent.2)
      match s.traps.lookup sent.2 with
      | some script =>
        modify fun s => {s with resumed := some s.status}
        text n false (.ofText script.toList s.line) false
        modify fun after => {after with status := s.status, resumed := s.resumed}
      | none => if !Signal.isHarmless sent.2 then throw (.killed sent.2)
      signals n

/-- What a script writes, without the line ends behind it. -/
def output : Nat → Script → Run String
  | 0, _ => throw .exited
  | n+1, script => do
    match script with
    | .nothing => return ""
    | script =>
      let stream ← Run.buffer []
      let status ← copied n do
        Run.setStream 1 (some stream)
        evaluate n false script
      modify fun s => {s with substituted := status}
      match stream with
      | .buffer i =>
        let written := (← get).world.buffers[i]?.getD []
        let kept := written.filter fun c => c.toNat != 0
        return String.ofList (kept.reverse.dropWhile (· == '\n')).reverse
      | _ => return ""

/-- Runs a text list by list; `ran` tells whether anything of it has been run. -/
def text : Nat → Bool → Input → Bool → Run Unit
  | 0, _, _, _ => throw .exited
  | n+1, tested, input, ran => do
    let s ← get
    match {input with documents := s.documents, aliases := s.aliases}.next? with
    | .error e =>
      modify fun s => {s with line := e.line, reading := e.line}
      Run.fail s!"Syntax error: {e.fault.message}"
    | .ok (none,_) => if !ran then Run.setStatus 0
    | .ok (some script,rest) =>
      modify fun s => {s with documents := rest.documents, reading := rest.line}
      evaluate n tested script
      let empty : Bool := match script with
        | .nothing => true
        | _ => false
      text n tested rest (ran || !empty)

/-- The words that a command consists of. -/
def arguments : Nat → List String → List Word → Run (List String)
  | 0, read, _ => return read
  | _+1, read, [] => return read
  | n+1, read, w::ws => do
    let found ← if Callee.assigns read && w.assignment?.isSome then
        (fun text => [text]) <$> Expand.text (output n) (← Expand.assignedTildes w)
      else Expand.fields (output n) w
    arguments n (read ++ found) ws

/-- Runs a command of words, after its redirections and assignments. -/
def simple : Nat → Bool → Nat → List (String × Word) → List Word → List Redirect → Run Unit
  | 0, _, _, _, _, _ => throw .exited
  | n+1, tested, line, assignments, words, redirects => do
    modify fun s => {s with line, substituted := 0}
    let all ← arguments n [] words
    let (callee,words,special) ← Callee.ofWords (all.length+1) true all
    let ties ← redirects.mapM (Tie.ofRedirect (output n))
    let streams := (← get).streams
    let own : Bool := !special && !words.isEmpty
    let lasting : Bool := callee.isBuiltin "exec" && words.length == 1
    if own then Run.pushFrame
    let body : Run Unit := do
      if ← Run.tied ties then
        let mut assigned : List (String × String) := []
        for (name,w) in assignments do
          let value ← Expand.assigned (output n) w
          if own then Run.hide name
          Run.assign name value (own || callee.isBuiltin "exec" && words.length > 1)
          assigned := assigned ++ [(name,value)]
        Run.trace streams assigned all
        match callee with
        | .nobody => Run.setStatus (← get).substituted
        | .function body => call n tested body words
        | .builtin name =>
          match ← Run.attempt (speak n tested name words.tail) with
          | none => return
          | some .failed => if special then throw .failed
          | some flow => throw flow
        | .program => Run.setStatus (← copied n (program n words))
      else if special then throw .failed
    let restore (streams : Option (List (Nat × Stream))) : Run Unit := do
      modify fun s => {s with streams := streams.getD s.streams}
      if own then Run.popFrame
    match ← Run.attempt body with
    | none => restore (if lasting then none else some streams)
    | some flow => restore (some streams); throw flow

/-- Calls a function with words for its arguments. -/
def call : Nat → Bool → Script → List String → Run Unit
  | 0, _, _, _ => throw .exited
  | n+1, tested, body, words => do
    let s ← get
    if s.calls ≥ Run.deepest then throw (.killed Signal.overflow)
    set {s with
      arguments := words.tail
      loops := 0
      calls := s.calls+1
      nextOption := 1
      taken := 0}
    let flow ← Run.attempt (evaluate n tested body)
    modify fun after => {after with
      arguments := s.arguments
      loops := s.loops
      calls := s.calls
      nextOption := s.nextOption
      taken := s.taken}
    match flow with
    | none | some .returned => return
    | some flow => throw flow

/-- Runs a builtin command, which speaks in its own name. -/
def speak : Nat → Bool → String → List String → Run Unit
  | 0, _, _, _ => throw .exited
  | n+1, tested, name, words => do
    let speaker := (← get).speaker
    modify fun s => {s with speaker := some name, refused := false}
    let body : Run Unit := do
      let status ← match Builtin.table.lookup name with
        | some command => command words
        | none => steer n tested name words
      if (← get).refused then
        modify fun s => {s with refused := false}
        Run.warn s!"{name}: I/O error"
        Run.setStatus 1
      else Run.setStatus status
    Run.ensuring body (modify fun s => {s with speaker})

/-- The builtin commands that run scripts, or change how the script at hand goes on. -/
def steer : Nat → Bool → String → List String → Run Nat
  | 0, _, _, _ => throw .exited
  | n+1, tested, name, words => do
    let s ← get
    match name with
    | "eval" =>
      if words.isEmpty then return 0
      text n tested (.ofText (" ".intercalate words).toList s.line) false
      Run.status
    | "." =>
      match words with
      | [] => return 0
      | path::_ =>
        let search := (← Run.value? "PATH").getD ""
        if !path.contains '/' then
          let found := (search.splitOn ":").any fun dir =>
            (Place.find s.world.files s.directory (dir ++ "/" ++ path)).toOption.isSome
          if !found then Run.fail s!"{path}: not found"
        match Place.find s.world.files s.directory path with
        | .error fault => Tie.refuse false path fault
        | .ok (_,.file content) =>
          match ← Run.attempt (text n tested (.ofText content.toList 1) false) with
          | none | some .returned => Run.status
          | some flow => throw flow
        | .ok _ => return 0
    | "command" =>
      let (found,words) ← Builtin.optionsOf "pvV" words
      match words with
      | [] => return 0
      | word::_ =>
        let verbose := found.any (·.1 == 'V')
        if verbose || found.any (·.1 == 'v') then
          Builtin.describe verbose word (← Callee.meaning word)
        else return 0
    | "type" =>
      let mut status := 0
      for word in words do
        if (← Builtin.describe true word (← Callee.meaning word)) != 0 then status := 127
      return status
    | "exec" =>
      if words.isEmpty then return 0
      modify fun s => {s with traps := []}
      program n words
      throw .exited
    | "exit" =>
      let status ← match words with
        | w::_ => Builtin.count w
        | [] => pure (s.resumed.getD s.status)
      Run.setStatus status
      throw .exited
    | "return" =>
      let status ← match words with
        | w::_ => Builtin.count w
        | [] => pure s.status
      Run.setStatus status
      throw .returned
    | name =>
      let count ← match words with
        | w::_ => do
          let count ← Builtin.count w
          if count = 0 then Run.fail s!"Illegal number: {w}"
          pure count
        | [] => pure 1
      if s.loops = 0 then return 0
      Run.setStatus 0
      throw (if name = "break" then .left (min count s.loops) else .next (min count s.loops))

/-- Runs a program in the place of what is running. -/
def program : Nat → List String → Run Unit
  | 0, _ => throw .exited
  | n+1, words => do
    let s ← get
    let name := words.headD ""
    let search := (← Run.value? "PATH").getD ""
    match Program.find? s search name with
    | .error fault =>
      let cause := match fault with
        | .absent | .notDirectory => "not found"
        | fault => fault.text
      Run.warn s!"{name}: {cause}"
      Run.setStatus (if name.contains '/' && fault == .denied then 126 else 127)
      throw .exited
    | .ok found =>
      if ["sh","dash","bash"].contains found then shell n words
      else if found = "env" then environment n words.tail
      else Run.setStatus (← ((Program.table.lookup found).getD Builtin.succeed) words.tail)

/-- Runs a program with further variables; without one, tells the variables. -/
def environment : Nat → List String → Run Unit
  | 0, _ => throw .exited
  | n+1, words => do
    match words with
    | [] =>
      for (name,value) in (← get).environment do Run.put s!"{name}={value}\n"
      Run.setStatus 0
    | w::rest =>
      if w = "-i" ∨ w = "-" then
        modify fun s => {s with bindings := s.bindings.map fun (name,v) =>
          (name,if name = "PATH" then v else {v with exported := false})}
        environment n rest
      else match Builtin.assignment w with
        | (name,some value) =>
          Run.store name {value := some value, exported := true}
          environment n rest
        | (_,none) =>
          let s ← get
          match Program.find? s ((← Run.value? "PATH").getD "") w with
          | .error fault =>
            Program.warn "env" ("'" ++ w ++ "': " ++ fault.text)
            Run.setStatus (if fault = .denied then 126 else 127)
            throw .exited
          | .ok _ => program n (w::rest)

/-- Runs a shell that has just been started, whose words begin with its name. -/
def shell : Nat → List String → Run Unit
  | 0, _ => throw .exited
  | n+1, words => do
    let s ← get
    let title := words.headD "sh"
    set {State.fresh s.world s.environment (Builtin.physical s) s.streams s.pid title with line := 0}
    let body : Run Unit := do
      let (isScript,words) ← startOptions (words.length+1) false words.tail
      if isScript then
        match words with
        | [] => Run.fail "-c requires an argument"
        | script::rest =>
          modify fun s => {s with title := rest.headD title, arguments := rest.tail}
          text n false (.ofText script.toList 1) false
      else match words with
        | [] => text n false (.ofText (← Run.allBytes) 1) false
        | path::rest =>
          let s ← get
          match Place.find s.world.files s.directory path with
          | .error fault => Tie.refuse false path fault
          | .ok (_,kind) =>
            modify fun s => {s with title := path, arguments := rest}
            let content := match kind with
              | .file content => content
              | _ => ""
            text n false (.ofText content.toList 1) false
    match ← finished n (← Run.attempt body) with
    | some (.killed signal) => throw (.killed signal)
    | _ => throw .exited

end

end TaskGraph.Shell
