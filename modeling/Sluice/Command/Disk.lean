import Sluice.Command.Host

namespace Sluice.Command

structure Disk where
  /-- Files by the names on the way to them; a directory is what is above a file. -/
  files : List (List String × ByteArray)
  home : List String := ["home"]
  input : ByteArray := .empty
  output : ByteArray := .empty
  told : Array String := #[]

def notFound : Failure := ⟨.device "NotFound", "No such file or directory (os error 2)"⟩
def notADirectory : Failure := ⟨.device "NotADirectory", "Not a directory (os error 20)"⟩
def isADirectory : Failure := ⟨.device "IsADirectory", "Is a directory (os error 21)"⟩

inductive Node
  | file (content : ByteArray)
  | directory

namespace Disk

def node? (d : Disk) (way : List String) : Option Node :=
  match d.files.lookup way with
  | some content => some (.file content)
  | none =>
    if way.isPrefixOf d.home || d.files.any (way.isPrefixOf ·.1) then some .directory else none

/-- One step of a path. Nothing is below a file, and there is nothing above the top. -/
def step (d : Disk) (here : List String) (name : String) : Except Failure (List String) :=
  match d.node? here with
  | some .directory =>
    if name.isEmpty || name = "." then .ok here
    else if name = ".." then .ok here.dropLast
    else if (d.node? (here ++ [name])).isSome then .ok (here ++ [name])
    else .error notFound
  | _ => .error notADirectory

def walk (d : Disk) (path : String) (names : List String) : Except Failure (List String) :=
  names.foldlM d.step (if path.startsWith "/" then [] else d.home)

def find (d : Disk) (path : String) : Except Failure Node := do
  match d.node? (← d.walk path (path.splitOn "/")) with
  | some node => .ok node
  | none => .error notFound

def content? (d : Disk) (path : String) : Option ByteArray :=
  match d.find path with
  | .ok (.file content) => some content
  | _ => none

/-- Where a file of this path would be. A path that ends in a slash or in dots names none. -/
def place (d : Disk) (path : String) : Except Failure (List String) := do
  let names := path.splitOn "/"
  let last := (names.reverse.dropWhile (·.isEmpty)).head?.getD "."
  let above := (names.reverse.dropWhile (·.isEmpty)).tail.reverse
  let parent ← d.walk path above
  match d.node? parent with
  | some .directory =>
    if path.endsWith "/" || last = "." || last = ".." then .error isADirectory
    else match d.node? (parent ++ [last]) with
      | some .directory => .error isADirectory
      | _ => .ok (parent ++ [last])
  | _ => .error notADirectory

def store (d : Disk) (way : List String) (content : ByteArray) : Disk :=
  { d with files := (way, content) :: d.files.filter (·.1 ≠ way) }

def put (d : Disk) (path : String) (content : ByteArray) : Except Failure Disk :=
  (d.place path).map (d.store · content)

def ofFiles (files : List (String × ByteArray)) : Disk :=
  { files := files.map fun (path, content) => ("home" :: path.splitOn "/", content) }

def append (d : Disk) (path : String) (bytes : ByteArray) : Except Failure Disk :=
  (d.place path).map fun way => d.store way ((d.files.lookup way).getD .empty ++ bytes)

def attempt (change : Disk → Except Failure Disk) : StateM Disk (Except Failure Unit) := fun d =>
  match change d with
  | .ok d => (.ok (), d)
  | .error f => (.error f, d)

def host : Host (StateM Disk) where
  probe
    | .standard => pure (.ok ())
    | .file path => return ((← get).find path).map fun _ => ()
  create
    | .standard => pure (.ok ())
    | .file path => attempt (·.put path .empty)
  source
    | .standard, size =>
      modifyGet fun d => (standardSource size d.input, { d with input := .empty })
    | .file path, size => return match (← get).find path with
      | .ok (.file content) => .buffered size content
      | .ok .directory => { queue := [.gap (.fail isADirectory)] }
      | .error f => { queue := [.gap (.fail f)] }
  write
    | .standard, bytes => attempt fun d => .ok { d with output := d.output ++ bytes }
    | .file path, bytes => attempt (·.append path bytes)
  tell line := modify fun d => { d with told := d.told.push line }
  now := pure 0
  patience := 1 <<< 48

end Disk

end Sluice.Command
