import MarkupIds.Element
import MarkupIds.Text.Case

/-!
# Paths

A path is cut at slashes. The extension starts at the last dot of the file's name, unless only
dots stand before it.
-/

namespace MarkupIds

namespace Path

/-- Cuts after the last slash: the folder part with its slash, and the file's name. -/
def cutFolder (path : Text) : Text × Text :=
  let rev := path.reverse
  ((rev.dropWhile (· != '/')).reverse, (rev.takeWhile (· != '/')).reverse)

def fileName (path : Text) : Text :=
  (cutFolder path).2

/-- The folder without the slashes at its end; a folder of slashes only stays as it is. -/
def folder (path : Text) : Text :=
  let head := (cutFolder path).1
  if head.all (· == '/') then head else Text.dropTailWhile (· == '/') head

/-- Cuts a file's name into stem and extension. -/
def cutExtension (name : Text) : Text × Text :=
  let rev := name.reverse
  match rev.dropWhile (· != '.') with
  | [] => (name, [])
  | dot :: stem =>
    if stem.all (· == '.') then (name, [])
    else (stem.reverse, dot :: (rev.takeWhile (· != '.')).reverse)

def extension (path : Text) : Text :=
  (cutExtension (fileName path)).2

/-- The name a file gives its component. An index file is named for its folder. -/
def component? (path : Text) : Option Text :=
  let stem := (cutExtension (fileName path)).1
  let named := if stem == "index".toList then fileName (folder path) else stem
  if named.isEmpty then none else some named

end Path

namespace Framework

def extensions : Framework → List Text
  | .react => [".jsx".toList, ".tsx".toList, ".js".toList, ".ts".toList]
  | .vue => [".vue".toList]

/-- The framework of a file by its extension, in either case. -/
def ofPath? (path : Text) : Option Framework :=
  [Framework.react, .vue].find? (·.extensions.contains (Text.lower (Path.extension path)))

def handles (f : Framework) (path : Text) : Bool :=
  f.extensions.any (Text.endsWith · (Text.lower path))

/-- The framework that reads a file. -/
def forPath? (path : Text) : Option Framework :=
  (ofPath? path).filter (·.handles path)

end Framework

/-- Why there is no reader for a file. -/
inductive UnsupportedError where
  | file (path : Text)
  | framework (name : Text)
deriving DecidableEq, Repr

def UnsupportedError.message : UnsupportedError → Text
  | .file path => "Unsupported file type: ".toList ++ path
  | .framework name =>
    "Unsupported framework: ".toList ++ name ++ ". Supported: ['react', 'vue']".toList

def Framework.ofName (name : Text) : Except UnsupportedError Framework :=
  match Framework.ofName? name with
  | some f => .ok f
  | none => .error (.framework name)

end MarkupIds
