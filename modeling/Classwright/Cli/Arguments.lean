import Classwright.Files.Path

/-!
# Command lines

What the arguments of the program ask for. Flags and options may stand before and after the command;
everything after a double dash is taken as it is.
-/

namespace Classwright.Cli

inductive Command
  | synth (contract : Path) (stub : Bool)
  | compile (source : Path) (classpath : List String)
  | check (contract : Path)
deriving DecidableEq, Repr

/-- The commands by their names. -/
inductive CommandName
  | synth
  | compile
  | check
deriving DecidableEq, Repr

def CommandName.all : List CommandName := [synth, compile, check]

def CommandName.word : CommandName → String
  | synth => "synth"
  | compile => "compile"
  | check => "check"

inductive HelpTopic
  | program
  | command (name : CommandName)
  | help
deriving DecidableEq, Repr

inductive Request
  | run (config : Option Path) (command : Command)
  | help (topic : HelpTopic)
  | version
deriving DecidableEq, Repr

/-- What an argument in front of the operands may be. -/
inductive Switch
  | verbose
  | stub
  | config
  | classpath
  | help
  | version
deriving DecidableEq, Repr

namespace Switch

/-- Whether the next word belongs to the switch. -/
def takesValue : Switch → Bool
  | config | classpath => true
  | _ => false

/-- Whether nothing behind the switch is read. -/
def endsReading : Switch → Bool
  | help | version => true
  | _ => false

/-- Whether the switch is known in front of the command, or behind it. -/
def known (command : Option CommandName) : Switch → Bool
  | verbose | config | help => true
  | version => command.isNone
  | stub => command == some .synth
  | classpath => command == some .compile

def ofLong? : String → Option Switch
  | "verbose" => some verbose
  | "stub" => some stub
  | "config" => some config
  | "classpath" => some classpath
  | "help" => some help
  | "version" => some version
  | _ => none

def ofShort? : Char → Option Switch
  | 'v' => some verbose
  | 'c' => some classpath
  | 'h' => some help
  | 'V' => some version
  | _ => none

end Switch

/-- An argument in its parts. -/
inductive Item
  | switch (s : Switch) (value : Option String)
  | operand (text : String)
deriving DecidableEq, Repr

/-- The text behind the sign that joins a value to its switch. -/
def joinedValue (cs : List Char) : String :=
  String.ofList (if cs.head? = some '=' then cs.drop 1 else cs)

/-- Switches of one letter behind a dash; one that takes a value takes the rest of the word, and one
that ends the reading ends it there. -/
def shortItems (command : Option CommandName) : List Char → Option (List Item × Option Switch)
  | [] => some ([], none)
  | c :: cs =>
    match (Switch.ofShort? c).filter (Switch.known command) with
    | none => none
    | some s =>
      if s.takesValue then
        if cs.isEmpty then some ([], some s) else some ([.switch s (some (joinedValue cs))], none)
      else if s.endsReading then some ([.switch s none], none)
      else (shortItems command cs).map fun (items, open_) => (.switch s none :: items, open_)

/-- The items of one word, and the switch that waits for the next word as its value. -/
def wordItems (command : Option CommandName) (w : String) : Option (List Item × Option Switch) :=
  match w.toList with
  | '-' :: '-' :: cs =>
    let name := cs.takeWhile (· != '=')
    let rest := cs.drop name.length
    match (Switch.ofLong? (String.ofList name)).filter (Switch.known command) with
    | none => none
    | some s =>
      match s.takesValue, rest.isEmpty with
      | true, true => some ([], some s)
      | true, false => some ([.switch s (some (joinedValue rest))], none)
      | false, true => some ([.switch s none], none)
      | false, false => none
  | '-' :: c :: cs => shortItems command (c :: cs)
  | _ => some ([.operand w], none)

/-- Whether a word can be the value of the switch before it. -/
def isValue (w : String) : Bool := w == "-" || !w.startsWith "-"

/-- What has been read of a command line. -/
structure Reading where
  verbose : Bool := false
  stub : Bool := false
  config : Option String := none
  classpath : List String := []
  operands : List String := []
deriving DecidableEq, Repr

/-- Notes an item. Only directories may be given more than once; paths must not be empty. -/
def Reading.note (r : Reading) : Item → Option Reading
  | .switch .verbose _ => if r.verbose then none else some { r with verbose := true }
  | .switch .stub _ => if r.stub then none else some { r with stub := true }
  | .switch .config (some v) =>
    if r.config.isSome || v.isEmpty then none else some { r with config := some v }
  | .switch .classpath (some v) => some { r with classpath := r.classpath ++ [v] }
  | .operand w =>
    if r.operands.isEmpty && !w.isEmpty then some { r with operands := [w] } else none
  | _ => none

/-- Notes items up to one that asks for help or the version. -/
def Reading.noteAll (command : Option CommandName) (r : Reading) :
    List Item → Option (Except Request Reading)
  | [] => some (.ok r)
  | .switch .help _ :: _ => some (.error (.help ((command.map .command).getD .program)))
  | .switch .version _ :: _ => some (.error .version)
  | item :: items => (r.note item).bind fun r => r.noteAll command items

/-- The arguments of a command. -/
def commandArguments (command : CommandName) (r : Reading) :
    List String → Option (Except Request Reading)
  | [] => some (.ok r)
  | "--" :: operands => (operands.foldlM (fun (r : Reading) w => r.note (.operand w)) r).map .ok
  | w :: ws =>
    match wordItems (some command) w with
    | none => none
    | some (items, waiting) =>
      match r.noteAll (some command) items with
      | none => none
      | some (.error request) => some (.error request)
      | some (.ok r) =>
        match waiting, ws with
        | none, ws => commandArguments command r ws
        | some _, [] => none
        | some s, v :: ws =>
          if isValue v then (r.note (.switch s (some v))).bind fun r => commandArguments command r ws
          else none

def commandOf (name : CommandName) (r : Reading) : Option Command :=
  r.operands.head?.map fun operand =>
    match name with
    | .synth => .synth (Path.ofText operand) r.stub
    | .compile => .compile (Path.ofText operand) r.classpath
    | .check => .check (Path.ofText operand)

/-- The command and its arguments, when `config` has been given before it. -/
def commandLine (config : Option String) (name : CommandName) (ws : List String) :
    Option Request :=
  match commandArguments name {} ws with
  | none => none
  | some (.error request) => some request
  | some (.ok r) =>
    (commandOf name r).map fun command => .run ((r.config.or config).map Path.ofText) command

/-- What comes before the command, and the command. -/
def commonArguments (r : Reading) : List String → Option Request
  | [] => none
  | "--" :: _ => none
  | w :: ws =>
    match wordItems none w with
    | none => none
    | some ([.operand w], _) =>
      match w, ws with
      | "help", [] => some (.help .program)
      | "help", ["help"] => some (.help .help)
      | "help", [name] =>
        (CommandName.all.find? (·.word == name)).map fun c => .help (.command c)
      | _, _ => (CommandName.all.find? (·.word == w)).bind fun name => commandLine r.config name ws
    | some (items, waiting) =>
      match r.noteAll none items with
      | none => none
      | some (.error request) => some request
      | some (.ok r) =>
        match waiting, ws with
        | none, ws => commonArguments r ws
        | some _, [] => none
        | some s, v :: ws =>
          if isValue v then (r.note (.switch s (some v))).bind fun r => commonArguments r ws
          else none

/-- The flag for directories may be written with one dash. -/
def spellOut (w : String) : String := if w = "-cp" then "--classpath" else w

/-- What a command line asks for; nothing if it is wrong. -/
def parse? (args : List String) : Option Request := commonArguments {} (args.map spellOut)

end Classwright.Cli
