import TinyScript.Proofs.Assembly.Parsed
import TinyScript.Proofs.Derivation.UniqueProgram

/-! Parsing decides the language of the grammar, and assembling what was parsed gives a text of the
language the program of its one derivation. -/

namespace TinyScript

open Assembly

theorem ProgramTree.ofEvents_events (p : ProgramTree) :
    Program.ofEvents p.events =
      match p.tokens.find? Token.unreadable with
      | some t => .error (numberFault t)
      | none => .ok p.meaning := by
  have h := p.builds
  rw [Builds] at h
  rw [Program.ofEvents, h]
  cases p.tokens.find? Token.unreadable <;> rfl

/-- Tokens are parsed iff those before the end of the text have a derivation. There is only one
then, and what is assembled is its program, if all its numbers are in range. -/
theorem parse_decides_derivations (tokens : List Token) (file : String) :
    match (parse tokens file).1 with
    | .ok es =>
      (∃! p : ProgramTree, p.tokens = beforeEnd tokens) ∧
        ∃ p : ProgramTree, p.tokens = beforeEnd tokens ∧
          Program.ofEvents es =
            match p.tokens.find? Token.unreadable with
            | some t => .error (numberFault t)
            | none => .ok p.meaning
    | .error _ => ¬ ∃ p : ProgramTree, p.tokens = beforeEnd tokens := by
  rcases h : parse tokens file with ⟨result, r⟩
  cases result with
  | ok es =>
    obtain ⟨p, hp, rfl, -⟩ := parse_of_ok h
    refine ⟨⟨p, hp, fun q hq => ?_⟩, p, hp, p.ofEvents_events⟩
    exact ProgramTree.tokens_injective (hq.trans hp.symm)
  | error e =>
    rintro ⟨p, hp⟩
    have hok : ∃ r, parse tokens file = (.ok p.events, r) := parse_tokens hp
    simp [h] at hok

end TinyScript
