import Xref.Reference.Typing

/-!
# Values of annotation elements

The arguments of an annotation as values. A single argument without a name belongs to the element
`value`.
-/
namespace Xref.Reference

open Java Syntax Text

def unquote (text : String) : String :=
  let within (quote : String) : Option String := (dropStart? quote text).bind (dropEnd? quote)
  ((within "\"\"\"").or (within "\"")).getD text

namespace Walk

/-- The values of the elements of an annotation after one more of its arguments. -/
def addElement (values : ElementValues) (argument : Tree × Decorated Meaning) :
    Walk ElementValues := do
  if argument.1.kind.isComment then return values
  if argument.1.kind == .elementValuePair then
    match argument.1.child? .key, argument.2.parts.child? .value with
    | some key, some (_, value) =>
      return ElementValues.insert (← text key) (← value.value.element) values
    | _, _ => return values
  return ElementValues.insert "value" (← argument.2.value.element) values

def elementsFrom (cs : Sense) : Walk ElementValues :=
  match cs.child? .arguments with
  | none => pure []
  | some (_, list) => list.parts.named.foldlM addElement []

def annotationName (t : Tree) : Walk String := do
  match t.child? .name with
  | some name => return (← typeName (name.dottedName (← setting).source)).name
  | none => return ""

def elementFrom (t : Tree) (cs : Sense) (type : Walk (Option TypeName)) : Walk ElementValue := do
  match t.kind with
  | .elementValueArrayInitializer | .arrayInitializer =>
    let items := cs.named.filter fun c => !c.1.kind.isComment
    return .list (← items.mapM fun c => c.2.value.element)
  | .annotationUse | .annotationMarker =>
    return .nested (← annotationName t) (← elementsFrom cs)
  | .stringLiteral => return .literal (some stringName) (unquote (← text t))
  | .classLiteral =>
    match t.named.head? with
    | some c => return .literal (some className) (← typeNameAt c 0).name
    | none => return .literal (some className) (← text t)
  | _ =>
    let known := (← type).filter TypeName.isResolved
    return .literal (known.map TypeName.name) (← text t)

end Walk

end Xref.Reference
