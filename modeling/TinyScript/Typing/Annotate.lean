import TinyScript.Typing.Declare

/-! Giving every expression its type, parts before wholes. -/

namespace TinyScript

namespace Visitor

def annotating : Visitor Empty Scopes where
  expr _ descend := do
    let e ← descend
    let j ← get
    return e.withType (j.context.resolve j.data e)

end Visitor

namespace Analysis

def annotate (a : Analysis) : Analysis :=
  { a with program :=
      ((Visitor.annotating.visitProgram a.program).complete ⟨.ofProgram a.program, a.scopes⟩).1 }

end Analysis

end TinyScript
