import TinyScript.Analysis
import TinyScript.Proofs.Derivation.Apart
import TinyScript.Proofs.Language
import TinyScript.Proofs.Typing.Annotate

/-! What an accepted text comes to: the program that is read from it, with scopes of its own
everywhere, its parameters settled and the types told from what the scopes contain in the end. -/

namespace TinyScript

theorem readProgram_cases (source : String) (fileName : Option String) :
    (∃ e, readProgram source fileName = .error (.error e)) ∨
      ∃ t : ProgramTree, readProgram source fileName = .ok t.meaning := by
  unfold readProgram
  cases tokenize source fileName with
  | error e => exact .inl ⟨e, rfl⟩
  | ok tokens =>
    rcases hparse : parse tokens (fileName.getD defaultFile) with ⟨result, r⟩
    cases result with
    | error e => exact .inl ⟨e, by simp [hparse, orFault, bind, Except.bind]⟩
    | ok events =>
      obtain ⟨t, -, rfl, -⟩ := parse_of_ok hparse
      simp only [hparse, orFault, bind, Except.bind, t.ofEvents_events]
      split
      · exact .inl ⟨_, rfl⟩
      · exact .inr ⟨t, rfl⟩

theorem exists_meaning_of_readProgram {source : String} {fileName : Option String} {p : Program}
    (h : readProgram source fileName = .ok p) : ∃ t : ProgramTree, t.meaning = p := by
  rcases readProgram_cases source fileName with ⟨e, he⟩ | ⟨t, ht⟩
  · cases h.symm.trans he
  · exact ⟨t, Except.ok.inj (ht.symm.trans h)⟩

namespace Program

def filled (p : Program) : Declared := p.declare (.ofProgram p) ⟨{}, []⟩

def analysis (p : Program) : Analysis :=
  ⟨(p.settled (.ofProgram p) ⟨{}, []⟩).typed p.filled.scopes, p.filled.scopes⟩

theorem statements_analysis (p : Program) :
    p.analysis.program.statements =
      Stmt.typedAll p.filled.scopes p.returnType [p.scope] p.statements := by
  rw [← returnType_settled (.ofProgram p) p ⟨{}, []⟩]
  rfl

theorem bodies_analysis (p : Program) :
    p.analysis.program.functions.map Function.body =
      p.functions.map fun f => f.body.typed p.filled.scopes p.returnType [f.scope, p.scope] := by
  rw [← returnType_settled (.ofProgram p) p ⟨{}, []⟩]
  unfold analysis typed settled
  rw [List.map_map]
  exact Function.map_settledAll (fun _ _ => rfl) _ _ _

end Program

/-- The result of a text that can be read: the first thing that went wrong when its scopes were
filled, or the program as analysed, unless types are missing that are required. -/
theorem analyze_of_readProgram (settings : Settings) {source : String} {p : Program}
    (h : readProgram source settings.fileName = .ok p) :
    analyze source settings =
      match p.filled.errors.head? with
      | some e => .error (.error e)
      | none => if settings.strict then orFault p.analysis.requireTyped else .ok p.analysis := by
  let declared : Analysis := ⟨p.settled (.ofProgram p) ⟨{}, []⟩, p.filled.scopes⟩
  have hfill : Analysis.fillScopes { program := p } = (p.filled.errors.head?, declared) :=
    Analysis.fillScopes_eq { program := p }
  have hannotate : declared.annotate = p.analysis :=
    congrArg (Analysis.mk · p.filled.scopes) declared.program_annotate
  unfold analyze
  rw [h]
  simp only [bind, Except.bind, hfill]
  cases p.filled.errors.head? with
  | some e => rfl
  | none => simp only [hannotate]

theorem analyze_ne_misplacedLiteral (source : String) (settings : Settings) (kind : TokenKind) :
    analyze source settings ≠ .error (.misplacedLiteral kind) := by
  rcases readProgram_cases source settings.fileName with ⟨e, he⟩ | ⟨t, ht⟩
  · simp [analyze, he, bind, Except.bind]
  · rw [analyze_of_readProgram settings ht]
    split
    · simp
    · split
      · cases t.meaning.analysis.requireTyped <;> simp [orFault]
      · simp

/-- An accepted text can be read, to a program with scopes of its own everywhere and with no two
parameters of a function of one name; what is given back is that program as analysed. -/
theorem analyze_eq_ok {source : String} {settings : Settings} {a : Analysis}
    (h : analyze source settings = .ok a) :
    ∃ p, readProgram source settings.fileName = .ok p ∧ p.Distinct ∧
      (∀ f ∈ p.functions, (f.parameters.map Parameter.name).Nodup) ∧ a = p.analysis := by
  cases hread : readProgram source settings.fileName with
  | error e => simp [analyze, hread, bind, Except.bind] at h
  | ok p =>
    obtain ⟨t, rfl⟩ := exists_meaning_of_readProgram hread
    have hdistinct := t.distinct
    have herrors := t.meaning.errors_declare hdistinct.apart (c := .ofProgram t.meaning) rfl
    rw [analyze_of_readProgram settings hread] at h
    split at h
    · cases h
    · next hnone =>
      rw [Program.filled, herrors] at hnone
      have hnames : ∀ f ∈ t.meaning.functions, (f.parameters.map Parameter.name).Nodup := by
        simpa [Function.errors, Function.repeated, repeatedNames_eq_nil] using hnone
      refine ⟨_, rfl, hdistinct, hnames, ?_⟩
      split at h
      · unfold Analysis.requireTyped at h
        split at h
        · exact (Except.ok.inj h).symm
        · cases h
      · exact (Except.ok.inj h).symm

end TinyScript
