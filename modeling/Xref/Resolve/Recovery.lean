import Xref.Java.TypeInfo

/-!
# Names without a binding

A name that no indexed type accounts for can often still be qualified: by a known type in front of
it, by an import, or because it was written with dots. What is put together in such a way is
`recovered`; all else stays as it was written.
-/
namespace Xref.Resolve

open Java Text

/-- Qualifies `text` as far as possible. `lead` is asked whether the first segment names a known
type. -/
def recoverName {m : Type → Type} [Monad m] (text : String) (imports : List Import)
    (lead : String → m (Option String)) : m TypeName := do
  let text := trim text
  match cutFirst '.' text with
  | some (first, rest) =>
    if let some known ← lead first then
      return .recovered (known ++ "." ++ rest)
    match imports.find? fun i => i.isSingleType && i.simpleName == first with
    | some i => return .recovered (i.name ++ "." ++ rest)
    | none => return .recovered text
  | none =>
    match imports.find? fun i => i.isSingleType && i.simpleName == text with
    | some i => return .recovered i.name
    | none => return .unresolved text

/-- The signature of a call without a binding. The types of its arguments are listed only if all
of them are known. -/
def literalCall (receiver : Option String) (name : String) (types : List (Option String)) :
    String :=
  let params := if types.all Option.isSome then joinWith "," (types.filterMap id) else ""
  let call := name ++ "(" ++ params ++ ")"
  match receiver with
  | some r => r ++ "." ++ call
  | none => call

end Xref.Resolve
