import Sluice.Options
import Sluice.Stream.Writer
import Sluice.Text.Decimal
import Sluice.Text.Quoted

namespace Sluice.Command

inductive Endpoint
  /-- Standard input or standard output. -/
  | standard
  | file (path : String)
  deriving DecidableEq, Repr

namespace Endpoint

def ofPath (path : String) : Endpoint := if path = "-" then standard else file path

def path : Endpoint → String
  | standard => "-"
  | file path => path

def quoted (e : Endpoint) : String := Text.quoted e.path

end Endpoint

inductive Flag
  | verbose
  | help
  | version
  | level
  | checksum
  | windowLog
  | chunkSize
  | reference
  deriving DecidableEq, Repr

namespace Flag

def letter? : Flag → Option Char
  | verbose => some 'v'
  | help => some 'h'
  | version => some 'V'
  | level => some 'l'
  | reference => some 'o'
  | checksum | windowLog | chunkSize => none

def name : Flag → String
  | verbose => "verbose"
  | help => "help"
  | version => "version"
  | level => "level"
  | checksum => "checksum"
  | windowLog => "window-log"
  | chunkSize => "chunk-size"
  | reference => "original"

def takesValue : Flag → Bool
  | level | windowLog | chunkSize | reference => true
  | verbose | help | version | checksum => false

end Flag

inductive Misuse
  | noCommand
  | unknownCommand (name : String)
  | unexpected (argument : String)
  | missingValue (flag : Flag)
  | needlessValue (flag : Flag)
  | invalidValue (flag : Flag) (value : String)
  | repeated (flag : Flag)
  | emptyPath
  | missingPath
  deriving DecidableEq, Repr

def Misuse.message : Misuse → String
  | noCommand => "a command is required"
  | unknownCommand name => s!"there is no command {Text.quoted name}"
  | unexpected argument => s!"unexpected argument {Text.quoted argument}"
  | missingValue f => s!"--{f.name} needs a value"
  | needlessValue f => s!"--{f.name} takes no value"
  | invalidValue f value => s!"{Text.quoted value} is no value for --{f.name}"
  | repeated f => s!"--{f.name} is given twice"
  | emptyPath => "a path is empty"
  | missingPath => "a path is missing"

inductive Token
  | word (text : String)
  | flag (flag : Flag)
  | setting (flag : Flag) (value : String)
  | wrong (misuse : Misuse)
  deriving DecidableEq, Repr

namespace Token

def isValue (argument : String) : Bool := argument = "-" || !argument.startsWith "-"

def awaiting (f : Flag) : List String → Token × List String
  | value :: rest =>
    if isValue value then (.setting f value, rest) else (.wrong (.missingValue f), value :: rest)
  | [] => (.wrong (.missingValue f), [])

theorem length_awaiting (f : Flag) (args : List String) :
    (awaiting f args).2.length ≤ args.length := by
  cases args with
  | nil => simp [awaiting]
  | cons value rest =>
    simp only [awaiting]
    split <;> simp

/-- The letters after a dash. A flag with a value takes the other letters as its value, without
an equals sign in front, or the next argument if there are none. -/
def cluster (flags : List Flag) : List Char → List String → List Token × List String
  | [], rest => ([], rest)
  | c :: cs, rest =>
    match flags.find? (·.letter? == some c) with
    | none => ([.wrong (.unexpected s!"-{c}")], rest)
    | some f =>
      if f.takesValue then
        match cs with
        | [] => let (t, rest) := awaiting f rest; ([t], rest)
        | '=' :: value => ([.setting f (String.ofList value)], rest)
        | value => ([.setting f (String.ofList value)], rest)
      else
        let (ts, rest) := cluster flags cs rest
        (.flag f :: ts, rest)

theorem length_cluster (flags : List Flag) (letters : List Char) (args : List String) :
    (cluster flags letters args).2.length ≤ args.length := by
  induction letters with
  | nil => simp [cluster]
  | cons c cs ih =>
    unfold cluster
    split
    · simp
    · split
      · split
        · simp [length_awaiting]
        · simp
        · simp
      · simpa using ih

/-- A long name, with its value after an equals sign or as the next argument. -/
def named (flags : List Flag) (text : List Char) (rest : List String) : Token × List String :=
  let name := String.ofList (text.takeWhile (· ≠ '='))
  match flags.find? (·.name = name), text.dropWhile (· ≠ '=') with
  | none, _ => (.wrong (.unexpected s!"--{name}"), rest)
  | some f, [] => if f.takesValue then awaiting f rest else (.flag f, rest)
  | some f, _ :: value =>
    (if f.takesValue then .setting f (String.ofList value) else .wrong (.needlessValue f), rest)

theorem length_named (flags : List Flag) (text : List Char) (args : List String) :
    (named flags text args).2.length ≤ args.length := by
  unfold named
  dsimp only
  split
  · simp
  · split
    · exact length_awaiting ..
    · simp
  · simp

/-- The tokens of one argument and the arguments left after it. A lone dash is a word. -/
def ofArgument (flags : List Flag) (argument : String) (rest : List String) :
    List Token × List String :=
  match argument.toList with
  | '-' :: '-' :: text => let (t, rest) := named flags text rest; ([t], rest)
  | '-' :: c :: cs => cluster flags (c :: cs) rest
  | _ => ([.word argument], rest)

theorem length_ofArgument (flags : List Flag) (argument : String) (args : List String) :
    (ofArgument flags argument args).2.length ≤ args.length := by
  unfold ofArgument
  split
  · exact length_named ..
  · exact length_cluster ..
  · simp

/-- All tokens. After two dashes on their own everything is a word. -/
def ofArguments (flags : List Flag) : List String → List Token
  | [] => []
  | argument :: rest =>
    if argument = "--" then rest.map .word
    else
      let next := ofArgument flags argument rest
      next.1 ++ ofArguments flags next.2
termination_by args => args.length
decreasing_by
  have := length_ofArgument flags argument rest
  simp only [List.length_cons]
  omega

end Token

inductive Form
  | compress
  | decompress
  | verify
  deriving DecidableEq, Repr

namespace Form

def name : Form → String
  | compress => "compress"
  | decompress => "decompress"
  | verify => "verify"

def ofName? (name : String) : Option Form := [compress, decompress, verify].find? (·.name = name)

def flags : Form → List Flag
  | compress => [.verbose, .help, .level, .checksum, .windowLog, .chunkSize]
  | decompress => [.verbose, .help, .chunkSize]
  | verify => [.verbose, .help, .reference]

def paths : Form → Nat
  | compress | decompress => 2
  | verify => 1

end Form

end Command

inductive Command
  | compress (input output : Command.Endpoint) (options : Options) (chunk : Nat)
  | decompress (input output : Command.Endpoint) (chunk : Nat)
  | verify (file : Command.Endpoint) (reference : Option Command.Endpoint)
  deriving DecidableEq, Repr

namespace Command

structure Invocation where
  command : Command
  verbosity : Nat
  deriving DecidableEq, Repr

inductive Stop
  | help
  | version
  | misuse (misuse : Misuse)
  deriving DecidableEq, Repr

structure Draft where
  verbosity : Nat := 0
  paths : List String := []
  checksum : Bool := false
  level : Option Int32 := none
  windowLog : Option UInt32 := none
  chunkSize : Option Nat := none
  reference : Option String := none
  deriving DecidableEq, Repr

namespace Draft

def once {α : Type} (f : Flag) (text : String) (before : Option α) (value : Option α) :
    Except Stop (Option α) :=
  match value with
  | none => .error (.misuse (.invalidValue f text))
  | some a => if before.isSome then .error (.misuse (.repeated f)) else .ok (some a)

def level? (text : String) : Option Int32 :=
  (Text.integer? text).bind fun n =>
    if Int32.minValue.toInt ≤ n ∧ n ≤ Int32.maxValue.toInt then some (Int32.ofInt n) else none

def windowLog? (text : String) : Option UInt32 :=
  (Text.integer? text).bind fun n =>
    if 0 ≤ n ∧ n < UInt32.size then some (UInt32.ofNat n.toNat) else none

def chunkSize? (text : String) : Option Nat := (Text.natural? text).filter (· < UInt64.size)

def path? (text : String) : Option String := if text.isEmpty then none else some text

def take (limit : Nat) (d : Draft) : Token → Except Stop Draft
  | .word text =>
    if text.isEmpty then .error (.misuse .emptyPath)
    else if d.paths.length < limit then .ok { d with paths := d.paths ++ [text] }
    else .error (.misuse (.unexpected text))
  | .wrong misuse => .error (.misuse misuse)
  | .flag .verbose => .ok { d with verbosity := d.verbosity + 1 }
  | .flag .help => .error .help
  | .flag .version => .error .version
  | .flag .checksum =>
    if d.checksum then .error (.misuse (.repeated .checksum)) else .ok { d with checksum := true }
  | .flag f => .error (.misuse (.missingValue f))
  | .setting .level text => return { d with level := ← once .level text d.level (level? text) }
  | .setting .windowLog text =>
    return { d with windowLog := ← once .windowLog text d.windowLog (windowLog? text) }
  | .setting .chunkSize text =>
    return { d with chunkSize := ← once .chunkSize text d.chunkSize (chunkSize? text) }
  | .setting .reference text =>
    return { d with reference := ← once .reference text d.reference (path? text) }
  | .setting f _ => .error (.misuse (.needlessValue f))

def chunk (d : Draft) : Nat := d.chunkSize.getD CompressWriter.defaultOutputChunk

def options (d : Draft) : Options :=
  { level := d.level.getD defaultLevel, checksum := d.checksum, windowLog := d.windowLog }

def command? (d : Draft) (form : Form) : Option Command :=
  match form, d.paths.map Endpoint.ofPath with
  | .compress, [input, output] => some (.compress input output d.options d.chunk)
  | .decompress, [input, output] => some (.decompress input output d.chunk)
  | .verify, [file] => some (.verify file (d.reference.map Endpoint.ofPath))
  | _, _ => none

end Draft

/-- Read the arguments of a command. Detail asked for here overrides what was asked for before. -/
def Form.parse (form : Form) (verbosity : Nat) (args : List String) : Except Stop Invocation := do
  let d ← (Token.ofArguments form.flags args).foldlM (Draft.take form.paths) {}
  match d.command? form with
  | some command => return ⟨command, if d.verbosity = 0 then verbosity else d.verbosity⟩
  | none => .error (.misuse .missingPath)

def helpOn : List String → Stop
  | [] => .help
  | [name] =>
    if name = "help" || (Form.ofName? name).isSome then .help
    else .misuse (.unknownCommand name)
  | _ :: extra :: _ => .misuse (.unexpected extra)

def parseAfter (verbosity : Nat) : List String → Except Stop Invocation
  | [] => .error (.misuse .noCommand)
  | arg :: rest =>
    match Form.ofName? arg with
    | some form => form.parse verbosity rest
    | none =>
      if arg = "help" then .error (helpOn rest)
      else if arg = "--" then .error (.misuse .noCommand)
      else
        let tokens := (Token.ofArgument [.verbose, .help, .version] arg []).1
        match tokens.foldlM (Draft.take 0) { verbosity } with
        | .ok d => parseAfter d.verbosity rest
        | .error (.misuse (.unexpected name)) =>
          .error (.misuse (if name = arg then .unknownCommand name else .unexpected name))
        | .error stop => .error stop

def parse (args : List String) : Except Stop Invocation := parseAfter 0 args

end Command

end Sluice
