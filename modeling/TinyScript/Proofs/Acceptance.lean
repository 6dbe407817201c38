import TinyScript.Analysis
import TinyScript.Proofs.Derivation.Apart
import TinyScript.Proofs.Language
import TinyScript.Proofs.Token.Scan

/-! Which texts are accepted when types may stay unknown, and what is reported for the others. -/

namespace TinyScript

open Assembly

def Token.tooLarge (t : Token) : Bool :=
  t.kind = .number && 2 ^ 63 - 1 < Text.decimalValue t.value.toList

namespace Token

theorem Lexed.unreadable_eq {t : Token} (h : t.Lexed) : t.unreadable = t.tooLarge := by
  unfold unreadable tooLarge
  rcases h.number_or with ⟨hk, hne, hdigits⟩ | ⟨hk, -⟩
  · rw [Text.int64?_digits hne hdigits]
    split <;> simp_all
  · simp [hk]

theorem beforeEnd_scan {us : List Token} (h : ∀ t ∈ us, t.Lexed) (p : Position) :
    beforeEnd (us ++ [eofAt p]) = us :=
  beforeEnd_append (fun t ht => (h t ht).kind_ne_eof) rfl []

theorem find?_tooLarge {us : List Token} (h : ∀ t ∈ us, t.Lexed) :
    (us.filter isLiteral).find? tooLarge = us.find? unreadable := by
  induction us with
  | nil => rfl
  | cons t us ih =>
    obtain ⟨ht, hus⟩ := List.forall_mem_cons.1 h
    have hlarge := ht.unreadable_eq
    by_cases hl : t.isLiteral
    · rw [List.filter_cons_of_pos hl, List.find?_cons, List.find?_cons, hlarge, ih hus]
    · have hsmall : t.tooLarge = false := by
        simp_all [isLiteral, tooLarge]
      rw [List.filter_cons_of_neg hl, List.find?_cons, hlarge, hsmall, ih hus]

theorem find?_tooLarge_eq_none {ts : List Token} :
    ts.find? tooLarge = none ↔
      ∀ t ∈ ts, t.kind = .number → Text.decimalValue t.value.toList ≤ 2 ^ 63 - 1 := by
  simp [tooLarge]

end Token

theorem analyze_of_read {source : String} {fileName : Option String} {program : Program}
    (h : readProgram source fileName = .ok program) (hp : program.Apart) :
    match (program.functions.flatMap Function.repeated).head? with
    | some name => analyze source ⟨fileName, false⟩ =
        .error (.error (.detached (.variableAlreadyDeclared name)))
    | none => ∃ a, analyze source ⟨fileName, false⟩ = .ok a := by
  have hfill := Analysis.fillScopes_eq { program }
  have herrors := program.errors_declare hp (c := .ofProgram program) rfl
  have hmap : program.functions.flatMap Function.errors =
      (program.functions.flatMap Function.repeated).map
        fun n => .detached (.variableAlreadyDeclared n) := (List.map_flatMap ..).symm
  simp only [herrors, hmap, List.head?_map] at hfill
  unfold analyze
  rw [h]
  cases hr : (program.functions.flatMap Function.repeated).head? with
  | some name =>
    rw [hr] at hfill
    simp only [bind, Except.bind, hfill]
    rfl
  | none =>
    rw [hr] at hfill
    simp only [bind, Except.bind, hfill]
    exact ⟨_, rfl⟩

/-- A fault of the stages among themselves, that no text should bring about. -/
def Fault.Internal : Fault → Prop
  | .error e =>
    match e.cause with
    | .missingConstruct _ | .unexpectedConstruct _ _ | .unbalancedBlock _ | .incompleteProgram
    | .scopeUnavailable | .circularGrammar => True
    | _ => False
  | .misplacedLiteral _ => True

theorem not_internal_of_tokenize {source : String} {fileName : Option String} {e : Error}
    (h : tokenize source fileName = .error e) : ¬ (Fault.error e).Internal := by
  have hcases := tokenize_cases source fileName
  rw [h] at hcases
  obtain ⟨c, p, rfl⟩ := hcases
  exact id

theorem not_internal_of_parse {tokens : List Token} {file : String} {e : Error}
    (h : (parse tokens file).1 = .error e) : ¬ (Fault.error e).Internal := by
  obtain ⟨-, ts, -, hb⟩ := parse_of_error (r := (parse tokens file).2) (Prod.ext h rfl)
  cases hb with
  | mismatch | unexpected _ | unknownType _ _ | unsupported _ _ _ => exact id
  | noRoom hn => exact absurd trivial hn

theorem head?_repeated_eq_none {fs : List Function} :
    (fs.flatMap Function.repeated).head? = none ↔
      ∀ f ∈ fs, (f.parameters.map Parameter.name).Nodup := by
  simp [Function.repeated, repeatedNames_eq_nil]

/-- The first stage that objects to a text gives the result: reading its tokens, parsing them,
reading the numbers among its literals, or declaring the parameters of its functions. -/
def Judged (source : String) (fileName : Option String) (result : Except Fault Analysis) : Prop :=
  match tokenize source fileName with
  | .error e => result = .error (.error e)
  | .ok tokens =>
    match (parse tokens (fileName.getD defaultFile)).1 with
    | .error e => result = .error (.error e)
    | .ok events =>
      literalTokens events = tokens.filter Token.isLiteral ∧
      match (literalTokens events).find? Token.tooLarge with
      | some t => result = .error (.error ⟨.numberParseError t.value, t.span.start⟩)
      | none => ∃ program, Program.ofEvents events = .ok program ∧
        match (program.functions.flatMap Function.repeated).head? with
        | some name => result = .error (.error (.detached (.variableAlreadyDeclared name)))
        | none => ∃ a, result = .ok a

theorem judged_analyze (source : String) (fileName : Option String) :
    Judged source fileName (analyze source ⟨fileName, false⟩) := by
  unfold Judged
  have hcases := tokenize_cases source fileName
  cases htokens : tokenize source fileName with
  | error e => simp [analyze, readProgram, htokens, orFault, bind, Except.bind]
  | ok tokens =>
    rw [htokens] at hcases
    obtain ⟨us, pos, rfl, hus⟩ := hcases
    simp only
    rcases hparse : parse (us ++ [Token.eofAt pos]) (fileName.getD defaultFile) with ⟨result, r⟩
    cases result with
    | error e => simp [analyze, readProgram, htokens, hparse, orFault, bind, Except.bind]
    | ok events =>
      obtain ⟨p, hp, rfl, -⟩ := parse_of_ok hparse
      have hread : readProgram source fileName = Program.ofEvents p.events := by
        simp [readProgram, htokens, hparse, orFault, bind, Except.bind]
      rw [Token.beforeEnd_scan hus] at hp
      -- the literals among the events are those of the text
      have hliterals : literalTokens p.events = us.filter Token.isLiteral :=
        hp ▸ p.literalTokens_events
      refine ⟨by simp [hliterals, Token.isLiteral, Token.eofAt], ?_⟩
      have hevents := p.ofEvents_events
      rw [hliterals, Token.find?_tooLarge hus, ← hp]
      split
      · next t ht =>
        rw [ht] at hevents
        rw [analyze, hread, hevents]
        rfl
      · next hnone =>
        rw [hnone] at hevents
        exact ⟨p.meaning, hevents, analyze_of_read (hread.trans hevents) p.apart⟩

namespace Judged

variable {source : String} {fileName : Option String} {result : Except Fault Analysis}

theorem ok_iff (h : Judged source fileName result) :
    (∃ a, result = .ok a) ↔ ∃ tokens events program, tokenize source fileName = .ok tokens ∧
      (parse tokens (fileName.getD defaultFile)).1 = .ok events ∧
      (∀ t ∈ literalTokens events, t.kind = .number →
        Text.decimalValue t.value.toList ≤ 2 ^ 63 - 1) ∧
      Program.ofEvents events = .ok program ∧
      ∀ f ∈ program.functions, (f.parameters.map Parameter.name).Nodup := by
  unfold Judged at h
  constructor
  · rintro ⟨a, rfl⟩
    split at h
    · cases h
    · next tokens htokens =>
      split at h
      · cases h
      · next events hevents =>
        obtain ⟨-, h⟩ := h
        split at h
        · cases h
        · next hnumbers =>
          obtain ⟨program, hprogram, h⟩ := h
          split at h
          · cases h
          · next hnames =>
            exact ⟨tokens, events, program, htokens, hevents,
              Token.find?_tooLarge_eq_none.1 hnumbers, hprogram,
              head?_repeated_eq_none.1 hnames⟩
  · rintro ⟨tokens, events, program, htokens, hevents, hnumbers, hprogram, hnames⟩
    simp only [htokens, hevents, Token.find?_tooLarge_eq_none.2 hnumbers] at h
    obtain ⟨-, program', hprogram', h⟩ := h
    obtain rfl : program = program' := Except.ok.inj (hprogram.symm.trans hprogram')
    simpa only [head?_repeated_eq_none.2 hnames] using h

theorem not_internal (h : Judged source fileName result) {f : Fault} (hf : result = .error f) :
    ¬ f.Internal := by
  unfold Judged at h
  subst hf
  split at h
  · next e he =>
    cases h
    exact not_internal_of_tokenize he
  · split at h
    · next e he =>
      cases h
      exact not_internal_of_parse he
    · obtain ⟨-, h⟩ := h
      split at h
      · cases h
        exact id
      · obtain ⟨program, -, h⟩ := h
        split at h
        · cases h
          exact id
        · simp at h

end Judged

/-- Where types may stay unknown, a text is accepted iff it can be read and parsed, its literals are
in range and no function has two parameters of one name; otherwise the first stage that objects is
reported. No stage fails for want of order among the stages, and an assignment can at most find a
scope unavailable. -/
theorem analyze_judges (source : String) (fileName : Option String) :
    ((∃ a, analyze source ⟨fileName, false⟩ = .ok a) ↔
      ∃ tokens events program, tokenize source fileName = .ok tokens ∧
        (parse tokens (fileName.getD defaultFile)).1 = .ok events ∧
        (∀ t ∈ literalTokens events, t.kind = .number →
          Text.decimalValue t.value.toList ≤ 2 ^ 63 - 1) ∧
        Program.ofEvents events = .ok program ∧
        ∀ f ∈ program.functions, (f.parameters.map Parameter.name).Nodup) ∧
    Judged source fileName (analyze source ⟨fileName, false⟩) ∧
    (∀ f, analyze source ⟨fileName, false⟩ = .error f → ¬ f.Internal) ∧
    ∀ (d : Declared) (c : Context) (name : String) (type : DataType),
      (d.assign c name type).errors = d.errors ∨
        (d.assign c name type).errors = d.errors ++ [.detached .scopeUnavailable] := by
  have h := judged_analyze source fileName
  refine ⟨h.ok_iff, h, fun f hf => h.not_internal hf, fun d c name type => ?_⟩
  rcases d.assign_cases c name type with ⟨he, -⟩ | he | ⟨s, -, t, he⟩
  · exact .inr (by rw [he]; rfl)
  · exact .inl (by rw [he])
  · exact .inl (by rw [he])

def doubledParameter : String := "def f(a, a) \x7b\x7d"

theorem analyze_doubledParameter :
    analyze doubledParameter ⟨none, false⟩ =
        .error (.error (.detached (.variableAlreadyDeclared "a"))) ∧
      ¬ Fault.Internal (.error (.detached (.variableAlreadyDeclared "a"))) := by
  have hfails : (analyze doubledParameter ⟨none, false⟩).map (fun _ => ()) =
      .error (.error (.detached (.variableAlreadyDeclared "a"))) := by decide +kernel
  cases h : analyze doubledParameter ⟨none, false⟩ with
  | ok a =>
    rw [h] at hfails
    cases hfails
  | error f =>
    rw [h] at hfails
    obtain rfl := Except.error.inj hfails
    exact ⟨rfl, (analyze_judges doubledParameter none).2.2.1 _ h⟩

end TinyScript
