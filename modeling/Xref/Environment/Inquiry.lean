import Xref.Environment.Basic

/-!
# Questions one after the other

An inquiry asks many questions about one environment, perhaps with the types of a unit in front of
it. What one question has brought to memory is there for the next.
-/
namespace Xref

open Files Java Resolve

structure Inquiry where
  environment : Environment
  unitTypes : List TypeInfo := []
  memory : Memory := {}

namespace Inquiry

def index (i : Inquiry) (files : FileTree) : TypeIndex :=
  (i.environment.index files).overlay i.unitTypes

def withEnvironment (i : Inquiry) (env : Environment) : Inquiry := { i with environment := env }

def ask {α : Type} (i : Inquiry) (files : FileTree) (question : TypeIndex → Query α) :
    α × Inquiry :=
  let (answer, memory) := (question (i.index files)).run i.memory
  (answer, {
    i with
    environment := i.environment.settle files memory.consulted
    memory := { memory with consulted := [] } })

end Inquiry

end Xref
