import Xref.Environment.Inquiry
import Xref.Main
import Xref.Proofs.Changes
import Xref.Proofs.ClassFile.Descriptors
import Xref.Proofs.ClassFile.Loading
import Xref.Proofs.Environment.OwnFile
import Xref.Proofs.Reference.Annotations
import Xref.Proofs.Reference.Callables
import Xref.Proofs.Reference.Coherence
import Xref.Proofs.Reference.Displaying
import Xref.Proofs.Reference.Comments
import Xref.Proofs.Reference.Components
import Xref.Proofs.Reference.Exchange
import Xref.Proofs.Reference.PlainWalk
import Xref.Proofs.Reference.Sites
import Xref.Proofs.Reference.Value
import Xref.Proofs.Resolve.Assignment
import Xref.Proofs.Resolve.Canonical
import Xref.Proofs.Resolve.Variables
import Xref.Proofs.Saving
import Xref.Proofs.Syntax.Erasure
import Xref.Proofs.Text.Spans
