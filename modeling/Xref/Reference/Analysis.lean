import Xref.Reference.Visit
import Xref.Syntax.Parse

/-!
# Analysing a unit

The references of a compilation unit, in the order of the walk over it. The types of the unit stand
in front of the given index, so what the unit declares counts and not what an older copy did.
-/
namespace Xref.Reference

open Declaration Java Resolve Syntax Text

def Place.ofUnit (index : TypeIndex) (source : List Char) (d : Declarations) : Place where
  index := index
  source := source
  lines := LineMap.ofChars source
  declarations := d
  remembering := .trusting
  context := { package := d.package, imports := d.imports }
  frames := []
  path := []

def collect (place : Place) (unit : Tree) : WalkState :=
  ((Walk.visitAll unit (meaning [] unit).parts).run place |>.run {}).2

def declarationsOf (label : String) (source : List Char) (unit : Tree) : Declarations :=
  Declarations.ofUnit { source := source, origin := .target label, includeLocal := true } unit

structure Analysis where
  records : List Record
  consulted : List String

def analyzeUnit (base : TypeIndex) (label : String) (source : List Char) (unit : Tree) :
    Analysis :=
  let d := declarationsOf label source unit
  let final := collect (Place.ofUnit (base.overlay d.types) source d) unit
  { records := final.records, consulted := final.memory.consulted }

/-- Analyses a text, unless it is no compilation unit. -/
def analyze? (base : TypeIndex) (label : String) (text : String) : Option Analysis :=
  (parse? text.toList).map (analyzeUnit base label text.toList)

end Xref.Reference
