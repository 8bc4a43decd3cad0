import GuestExec.Config.Json
import GuestExec.Config.Toml

/-!
# Configuration files

The name of a file says in which format it is written. A path that the host
would not look up is refused before anything is read.
-/

namespace GuestExec

/-- Bytes in the longest name of a file or directory. -/
def maxNameBytes : Nat := 255

/-- Bytes in the longest path. -/
def maxPathBytes : Nat := 4095

/-- Why a path at which nothing lies cannot be read. Its first name decides, since nothing lies
there either. -/
def missingFile (path : String) : Errno :=
  let names := (path.splitOn "/").filter fun part => part != "" && part != "." && part != ".."
  if maxPathBytes < path.utf8ByteSize ∨ names.head?.any (maxNameBytes < ·.utf8ByteSize) then
    .nameTooLong
  else .noEntry

/-- The text of the file at `path`, which holds `content` or is missing, or why there is none. A
path ends at a NUL, so none may stand in it. -/
def readFile (path : String) (content : Option String) : Except String String :=
  if path.toList.contains '\x00' then .error "file name contained an unexpected NUL byte"
  else
    match content with
    | none => .error (missingFile path).describe
    | some text => .ok text

inductive ConfigFormat where
  | toml
  | json
deriving DecidableEq, Repr

/-- The last part of a path that names a file or directory; nothing for one that ends with the
parent directory. -/
def fileName? (path : String) : Option String :=
  match ((path.splitOn "/").filter fun part => part != "" && part != ".").getLast? with
  | some ".." => none
  | last => last

/-- What follows the last dot of a file's name, if something stands before that dot. -/
def extension? (path : String) : Option String := do
  let parts := (← fileName? path).splitOn "."
  let stem := ".".intercalate parts.dropLast
  if stem.isEmpty then none else parts.getLast?

namespace ConfigFormat

def name : ConfigFormat → String
  | toml => "toml"
  | json => "json"

def ofName? (s : String) : Option ConfigFormat := [toml, json].find? (·.name == s)

/-- The format that a file's extension names. -/
def ofPath? (path : String) : Option ConfigFormat := extension? path >>= ofName?

end ConfigFormat

/-- The library for each format. -/
def libraries : ConfigFormat → Library
  | .toml => Toml.library
  | .json => Json.library

namespace CoreConfig

section

variable (libs : ConfigFormat → Library)

/-- Reads a configuration; it need not be valid. -/
def parseWith (text : String) (format : ConfigFormat) : Except ConfigError CoreConfig :=
  match (libs format).read text with
  | .error reason => .error (.parse reason)
  | .ok d =>
    match ofDocument? d with
    | some c => .ok c
    | none => .error (.parse "a field is set twice or to no value of its own")

def renderWith (c : CoreConfig) (format : ConfigFormat) : Except ConfigError String :=
  match (libs format).write c.record with
  | .error reason => .error (.serialize reason)
  | .ok text => .ok text

/-- Reads a valid configuration. -/
def loadTomlWith (text : String) : Except ConfigError CoreConfig := do
  let c ← parseWith libs text .toml
  c.validate
  return c

/-- Reads a valid configuration from the file at `path`, which holds `content` or is missing. -/
def loadFileWith (path : String) (content : Option String) : Except ConfigError CoreConfig :=
  match ConfigFormat.ofPath? path, readFile path content with
  | none, _ => .error (.unreadable path "unknown configuration file extension")
  | some _, .error reason => .error (.unreadable path reason)
  | some format, .ok text => do
    let c ← parseWith libs text format
    c.validate
    return c

end

def parse : String → ConfigFormat → Except ConfigError CoreConfig := parseWith libraries

def render : CoreConfig → ConfigFormat → Except ConfigError String := renderWith libraries

def loadToml : String → Except ConfigError CoreConfig := loadTomlWith libraries

def loadFile : String → Option String → Except ConfigError CoreConfig := loadFileWith libraries

end CoreConfig

end GuestExec
