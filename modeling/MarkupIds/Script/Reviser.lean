import MarkupIds.Edit
import MarkupIds.Script.Reader
import MarkupIds.Splice
import MarkupIds.Text.Quoted

/-!
# Revising scripts with markup

Each edit becomes a splice in its opening tag. The new text must be clean again, or the script
stays as it was.
-/

namespace MarkupIds.Script

/-- Why an edit cannot be made. -/
inductive EditError where
  | unnamedTag
  | noAttribute (name : Text)
deriving DecidableEq, Repr

def EditError.message : EditError → Text
  | .unnamedTag => "opening tag has no name".toList
  | .noAttribute name => "attribute ".toList ++ name ++ " not present".toList

/-- A value in the quotes that it does not hold, or else escaped in braces. -/
def renderValue (value : Text) : Text :=
  if !value.contains '"' then '"' :: value ++ ['"']
  else if !value.contains '\'' then '\'' :: value ++ ['\'']
  else '\x7b' :: Text.escaped value ++ ['\x7d']

def renderAttribute (name value : Text) : Text :=
  name ++ '=' :: renderValue value

/-- Looks for an attribute among the parts of an opening tag: the part in front of it, or the
last part, and the attribute itself. -/
def locate (source name : Text) : Option Node → List Node → Option Node × Option Node
  | previous, [] => (previous, none)
  | previous, n :: ns =>
    if n.kind == .attribute && n.attributeName source == name then (previous, some n)
    else locate source name (some n) ns

/-- The splice that makes an edit in an opening tag. -/
def spliceFor (source : Text) (opening : Node) (e : Edit) : Except EditError Splice :=
  match locate source e.name none opening.children with
  | (none, _) => .error .unnamedTag
  | (some previous, existing) =>
    match e.kind, existing with
    | .remove, some n => .ok ⟨previous.stop, n.stop, []⟩
    | .remove, none => .error (.noAttribute e.name)
    | _, some n => .ok ⟨n.start, n.stop, renderAttribute e.name e.value⟩
    | _, none => .ok ⟨previous.stop, previous.stop, ' ' :: renderAttribute e.name e.value⟩

/-- What has been planned for the nodes met so far. -/
structure Progress where
  pending : List Edit
  splices : List Splice := []
  applied : List Edit := []
  diagnostics : List Diagnostic := []

def sameSpot (p q : Position) : Bool :=
  p.line == q.line && p.column == q.column

/-- Plans one edit for an element at `spot`. -/
def Progress.edit (source : Text) (opening : Node) (spot : Position) (p : Progress) (e : Edit) :
    Progress :=
  match spliceFor source opening e with
  | .ok s => { p with splices := p.splices ++ [s], applied := p.applied ++ [e] }
  | .error reason =>
    { p with
      diagnostics := p.diagnostics ++
        [{ message := "Failed to apply transformation: ".toList ++ reason.message
           position := some spot }] }

/-- Plans the edits that wait for the place of an element node. -/
def Progress.visit (source : Text) (p : Progress) (n : Node) : Progress :=
  if p.pending.isEmpty then p
  else match n.opening? with
    | none => p
    | some opening =>
      let spot := Position.ofOffset source n.start
      let (here, elsewhere) := p.pending.partition (sameSpot spot ·.position)
      here.foldl (Progress.edit source opening spot) { p with pending := elsewhere }

/-- Brings edits of one place together, at the first of them. -/
def grouped : (fuel : Nat) → List Edit → List Edit
  | 0, edits => edits
  | _, [] => []
  | fuel + 1, e :: edits =>
    let (here, elsewhere) := edits.partition (sameSpot e.position ·.position)
    e :: here ++ grouped fuel elsewhere

def unmatched (e : Edit) : Diagnostic :=
  { message := "No <".toList ++ e.element.tag ++ "> opening tag found at ".toList ++
      e.position.key
    position := some e.position }

def overlapping (source : Text) (start : Nat) : Diagnostic :=
  { message := "Overlapping edit skipped".toList
    position := some (.ofOffset source start) }

def revise (source : Text) (edits : List Edit) (path : Text) (parser : Parser := .bundled) :
    Revision :=
  if edits.isEmpty then { code := source }
  else match parser.tree? source path with
    | none => .refused source "Transform error: source contains syntax errors".toList
    | some tree =>
      let done := (Node.elementsOf tree).foldl (Progress.visit source)
        { pending := grouped edits.length edits }
      let (code, skipped) := Splice.applyAll source done.splices
      if (parser.tree? code path).isSome then
        { code
          diagnostics := done.diagnostics ++ done.pending.map unmatched ++
            skipped.map (overlapping source)
          applied := done.applied }
      else .refused source "Transform error: rewritten source failed to parse".toList

end MarkupIds.Script
