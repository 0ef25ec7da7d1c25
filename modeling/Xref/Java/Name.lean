import Xref.Text.Split

/-!
# Names of Java types

Types are known by their binary names: packages joined by `.`, member types by `$`. An array type
is its element type followed by one `[]` for each dimension.
-/
namespace Xref.Java

open Text

def objectName : String := "java.lang.Object"

def stringName : String := "java.lang.String"

def className : String := "java.lang.Class"

/-- The type of the `null` literal. It is nobody's declared type. -/
def nullName : String := "null"

def primitives : List String :=
  ["boolean", "byte", "char", "short", "int", "long", "float", "double", "void"]

def isPrimitive (name : String) : Bool :=
  primitives.contains name

def boxes : List (String × String) :=
  [("boolean", "java.lang.Boolean"), ("byte", "java.lang.Byte"), ("char", "java.lang.Character"),
   ("short", "java.lang.Short"), ("int", "java.lang.Integer"), ("long", "java.lang.Long"),
   ("float", "java.lang.Float"), ("double", "java.lang.Double")]

def boxOf (primitive : String) : Option String :=
  (boxes.find? fun b => b.1 == primitive).map Prod.snd

def unboxOf (boxed : String) : Option String :=
  (boxes.find? fun b => b.2 == boxed).map Prod.fst

def unboxed (name : String) : String :=
  (unboxOf name).getD name

/-- The primitive types that a value of the first type widens to. -/
def widenings : List (String × List String) :=
  [("byte", ["short", "int", "long", "float", "double"]),
   ("short", ["int", "long", "float", "double"]),
   ("char", ["int", "long", "float", "double"]),
   ("int", ["long", "float", "double"]),
   ("long", ["float", "double"]),
   ("float", ["double"])]

def widensTo (source target : String) : Bool :=
  widenings.any fun (s, targets) => s == source && targets.contains target

/-- Counts the `[]` at the end of a text that is given back to front, and drops them together with
the white space around them. -/
def dropDims : List Char → List Char × Nat
  | ']' :: '[' :: rest =>
    let (base, dims) := dropDims rest
    (base, dims + 1)
  | c :: rest => if isBlank c then dropDims rest else (c :: rest, 0)
  | [] => ([], 0)

/-- The element type and the number of dimensions: `a.B[][]` is `a.B` with 2. -/
def splitArray (name : String) : String × Nat :=
  let (base, dims) := dropDims name.toList.reverse
  (String.ofList (base.reverse.dropWhile isBlank), dims)

def withDims (base : String) (dims : Nat) : String :=
  String.ofList (base.toList ++ (List.replicate dims ['[', ']']).flatten)

def isArray (name : String) : Bool :=
  0 < (splitArray name).2

/-- What is left of a text has no dimensions at its end, and neither has any beginning of it. -/
theorem dropDims_take (cs : List Char) (n : Nat) : (dropDims ((dropDims cs).1.take n)).2 = 0 := by
  fun_induction dropDims cs with
  | case1 rest base dims h ih => simpa [h] using ih
  | case2 c rest hne hc ih => exact ih
  | case3 c rest hne hc =>
    match n, rest with
    | 0, _ => rfl
    | 1, _ | _ + 2, [] => simp [dropDims, hc]
    | n + 2, d :: rest =>
      have hcd : ¬ (c = ']' ∧ d = '[') := by
        rintro ⟨rfl, rfl⟩
        exact hne rest rfl rfl
      simp only [List.take_succ_cons]
      rw [dropDims.eq_2 _ _ (by simpa using hcd), if_neg (by simpa using hc)]
  | case4 => simp [dropDims]

theorem splitArray_dims (name : String) : (splitArray (splitArray name).1).2 = 0 := by
  obtain ⟨n, hn⟩ : ∃ n, ((dropDims name.toList.reverse).1.reverse.dropWhile isBlank).reverse =
      (dropDims name.toList.reverse).1.take n := by
    obtain ⟨blank, hblank⟩ := List.dropWhile_suffix (l := (dropDims name.toList.reverse).1.reverse)
      (p := isBlank)
    have hrev := congrArg List.reverse hblank
    rw [List.reverse_append, List.reverse_reverse] at hrev
    exact ⟨_, (List.prefix_iff_eq_take.1 ⟨_, hrev⟩)⟩
  simp only [splitArray, String.toList_ofList, hn, dropDims_take]

theorem boxOf_spec {primitive box : String} (h : boxOf primitive = some box) :
    isPrimitive box = false ∧ (splitArray box).2 = 0 := by
  have hall : ∀ e ∈ boxes, isPrimitive e.2 = false ∧ (splitArray e.2).2 = 0 := by decide
  obtain ⟨e, he, rfl⟩ := Option.map_eq_some_iff.1 h
  exact hall e (List.mem_of_find?_eq_some he)

theorem unboxOf_spec {boxed primitive : String} (h : unboxOf boxed = some primitive) :
    isPrimitive primitive = true := by
  have hall : ∀ e ∈ boxes, isPrimitive e.1 = true := by decide
  obtain ⟨e, he, rfl⟩ := Option.map_eq_some_iff.1 h
  exact hall e (List.mem_of_find?_eq_some he)

/-- The last segment of a binary name. The number in front of a local class's name is not part of
it: the simple name of `Main$1Helper` is `Helper`. -/
def simpleName (name : String) : String :=
  let last := ((pieces (fun c => c == '.' || c == '$') name.toList).getLast?).getD []
  String.ofList (last.dropWhile Char.isDigit)

/-- A name in a package. The default package has the empty name. -/
def qualify (package simple : String) : String :=
  if package.isEmpty then simple else package ++ "." ++ simple

/-- A package and the packages around it, innermost first: `a.b.c`, `a.b`, `a`. -/
def packagePrefixes (package : String) : List String :=
  if package.isEmpty then []
  else
    let segments := split '.' package
    ((List.range segments.length).map fun k => joinWith "." (segments.take (k + 1))).reverse

end Xref.Java
