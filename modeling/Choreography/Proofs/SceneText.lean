import Choreography.Proofs.RoundTrip
import Choreography.Scene

/-! # Reading a scene

A scene is accepted if its text holds one and its widgets have names of their own. A scene that is
written as a text is such a text. -/
namespace Choreography

namespace Scene

structure Named (s : Scene) : Prop where
  nonempty : ∀ w ∈ s.widgets, w.id ≠ ""
  distinct : (s.widgets.map SceneWidget.id).Nodup

end Scene

/-! ### Round trips -/

theorem Size.ofDocument_toDocument {s : Size} (hwidth : isSigned 32 s.width = true)
    (hheight : isSigned 32 s.height = true) (surplus : Bool) :
    ofDocument surplus s.toDocument = some s := by
  simp [ofDocument, toDocument, Document.signed?_ofInt hwidth, Document.signed?_ofInt hheight]

/-- The sizes of a widget and the place of its start have thirty-two bits, and the numbers in its
program have texts that read back. -/
structure SceneWidget.Preserved (w : SceneWidget) : Prop where
  size : isSigned 32 w.width = true ∧ isSigned 32 w.height = true
  container : isSigned 32 w.container.width = true ∧ isSigned 32 w.container.height = true
  start : isSigned 32 w.start.x = true ∧ isSigned 32 w.start.y = true
  program : w.program.Preserved

namespace SceneWidget
open Document

theorem writable_toDocument {w : SceneWidget} (h : w.Preserved) : w.toDocument.Writable := by
  have hcontainer : w.container.toDocument.Writable :=
    .object (writable_pair (writable_narrow h.container.1)
      (writable_narrow h.container.2))
  have hprogram : (Document.array (blockToDocuments w.statements)).Writable :=
    .array (Statement.writable_blockToDocuments w.statements h.program.statements)
  refine .object ?_
  simp only [List.forall_mem_cons]
  exact ⟨.string w.id, writable_narrow h.size.1, writable_narrow h.size.2, hcontainer,
    Frame.writable_toDocument h.start.1 h.start.2, Value.writable_table h.program.constants,
    hprogram, List.forall_mem_nil _⟩

theorem ofDocument_toDocument {w : SceneWidget} (h : w.Preserved) (surplus : Bool) :
    ofDocument surplus w.toDocument = some w := by
  have hstatements : Statement.blockOfDocument (.array (blockToDocuments w.statements)) =
      some w.statements := Statement.blockOfDocument_blockToDocuments h.program.statements
  have hconstants : Value.tableOfDocument (w.constants.toDocument Value.toDocument) =
      some w.constants := Value.tableOfDocument_toDocument h.program.constants
  simp [ofDocument, toDocument, string?, signed?_ofInt h.size.1, signed?_ofInt h.size.2,
    Size.ofDocument_toDocument h.container.1 h.container.2,
    Frame.ofDocument_toDocument h.start.1 h.start.2, hstatements, hconstants]

end SceneWidget

end Choreography
