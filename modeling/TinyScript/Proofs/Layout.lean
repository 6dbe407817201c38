import TinyScript.Proofs.Reading.Layout
import TinyScript.Proofs.Typing.Analyzed

/-! The layout of a text does not matter. Of a token only its kind and its value are looked at, from
the parse to the types; where it stands is told in errors and decides nothing. -/

namespace TinyScript

inductive Fault.Alike : Fault → Fault → Prop
  | error {e e' : Error} (h : e.cause = e'.cause) : Alike (.error e) (.error e')
  | misplacedLiteral (kind : TokenKind) : Alike (.misplacedLiteral kind) (.misplacedLiteral kind)

/-- Both give a result, and these are related, or both fail for the same cause. -/
inductive SameResult {α : Type} (R : α → α → Prop) : Except Fault α → Except Fault α → Prop
  | ok {a b : α} (h : R a b) : SameResult R (.ok a) (.ok b)
  | error {f f' : Fault} (h : f.Alike f') : SameResult R (.error f) (.error f')

namespace SameResult

variable {α β : Type}

theorem refl (x : Except Fault α) : SameResult Eq x x := by
  match x with
  | .ok _ => exact .ok rfl
  | .error (.error _) => exact .error (.error rfl)
  | .error (.misplacedLiteral kind) => exact .error (.misplacedLiteral kind)

theorem bind {R : α → α → Prop} {Q : β → β → Prop} {x y : Except Fault α}
    {next next' : α → Except Fault β} (h : SameResult R x y)
    (hnext : ∀ a b, R a b → SameResult Q (next a) (next' b)) :
    SameResult Q (x >>= next) (y >>= next') := by
  cases h with
  | ok hab => exact hnext _ _ hab
  | error hf => exact .error hf

end SameResult

theorem EventKind.exists_literal {kind : EventKind} {t : Token}
    (h : kind.unplaced = .literal t) : ∃ u, kind = .literal u ∧ u.unplaced = t := by
  cases kind with
  | literal u => exact ⟨u, rfl, EventKind.literal.inj h⟩
  | _ => cases h

namespace Assembly

theorem sameResult_literal {t u : Token} (h : t.Alike u) :
    SameResult Eq (literal t) (literal u) := by
  unfold literal
  rw [← h.kind, ← h.value]
  split
  · exact .refl _
  · split
    · exact .refl _
    · exact .error (.error rfl)
  · exact .refl _
  · exact .refl _

theorem handle_unplaced {e : Event} (h : ∀ t, e.kind ≠ .literal t) :
    handle e.unplaced = handle e := by
  obtain ⟨id, depth, kind⟩ := e
  cases kind with
  | literal t => exact absurd rfl (h t)
  | function name parameters returnType body =>
    have hparameters : (parameters.map (Prod.map Token.unplaced fun t => t)).map parameter =
        parameters.map parameter := List.map_map ..
    exact congrArg (fun parameters => takeBlock body >>= fun body => freshScope >>= fun scope =>
      keep id (.function ⟨name.value, parameters, returnType.getD .unknown, body, depth, scope⟩))
      hparameters
  | _ => rfl

theorem acceptAll_literal (a : Assembly) (id : Serial) (depth : Nat) (t : Token) :
    a.acceptAll [⟨id, depth, .literal t⟩] = literal t >>= fun value =>
      .ok { a with pending := a.pending.insert id (.expr (.ofLiteral depth value)) } := by
  have haccept : a.accept ⟨id, depth, .literal t⟩ = outcome (liftExcept (literal t) >>= fun value =>
      keep id (.expr (.ofLiteral depth value))) a := rfl
  rw [acceptAll, haccept]
  cases literal t with
  | ok value => rfl
  | error f => rfl

theorem sameResult_event (a : Assembly) {e e' : Event} (h : e.unplaced = e'.unplaced) :
    SameResult Eq (a.acceptAll [e]) (a.acceptAll [e']) := by
  obtain ⟨id, depth, kind⟩ := e
  obtain ⟨id', depth', kind'⟩ := e'
  obtain ⟨rfl, rfl, hkind⟩ := Event.mk.inj h
  by_cases hliteral : ∃ t, kind = .literal t
  · obtain ⟨t, rfl⟩ := hliteral
    obtain ⟨u, rfl, hu⟩ := EventKind.exists_literal hkind.symm
    rw [acceptAll_literal, acceptAll_literal]
    exact (sameResult_literal hu.symm).bind fun _ _ hvalue => hvalue ▸ .refl _
  · have hother : ∀ t, kind ≠ .literal t := fun t ht => hliteral ⟨t, ht⟩
    have hother' : ∀ u, kind' ≠ .literal u := by
      rintro u rfl
      obtain ⟨t, ht, -⟩ := EventKind.exists_literal hkind
      exact hother t ht
    have hhandle : handle ⟨id, depth, kind⟩ = handle ⟨id, depth, kind'⟩ := by
      rw [← handle_unplaced hother, h, handle_unplaced hother']
    rw [acceptAll, accept, hhandle]
    exact .refl _

theorem sameResult_acceptAll (a : Assembly) {es es' : List Event}
    (h : es.map Event.unplaced = es'.map Event.unplaced) :
    SameResult Eq (a.acceptAll es) (a.acceptAll es') := by
  induction es generalizing a es' with
  | nil =>
    obtain rfl : es' = [] := by simpa using h.symm
    exact .refl _
  | cons e es ih =>
    cases es' with
    | nil => simp at h
    | cons e' es' =>
      obtain ⟨he, hes⟩ := List.cons.inj h
      rw [← List.singleton_append, ← List.singleton_append (l := es'), acceptAll_append,
        acceptAll_append]
      exact (sameResult_event a he).bind fun b _ hb => hb ▸ ih b hes

end Assembly

theorem sameResult_ofEvents {es es' : List Event}
    (h : es.map Event.unplaced = es'.map Event.unplaced) :
    SameResult Eq (Program.ofEvents es) (Program.ofEvents es') :=
  (Assembly.sameResult_acceptAll {} h).bind fun _ _ ha => ha ▸ .refl _

theorem sameResult_parse {ts us : List Token} (h : ts.map Token.unplaced = us.map Token.unplaced)
    (file file' : String) :
    SameResult (fun es es' => es.map Event.unplaced = es'.map Event.unplaced)
      (orFault (parse ts file).1) (orFault (parse us file').1) := by
  have hparse := tallies_parse h file file'
  generalize parse ts file = x, parse us file' = y at hparse
  cases hparse with
  | ok hes _ => exact .ok hes
  | error he _ => exact .error (.error he)

theorem map_unplaced {ts us : List Token}
    (h : (ts.map fun t => (t.kind, t.value)) = us.map fun t => (t.kind, t.value)) :
    ts.map Token.unplaced = us.map Token.unplaced := by
  have hpairs := congrArg (List.map fun k : TokenKind × String => Token.mk k.1 k.2 default) h
  rw [List.map_map, List.map_map] at hpairs
  exact hpairs

section Texts

variable {source source' : String} {settings settings' : Settings} {ts us : List Token}

theorem sameResult_readProgram {fileName fileName' : Option String}
    (ht : tokenize source fileName = .ok ts) (hu : tokenize source' fileName' = .ok us)
    (h : ts.map Token.unplaced = us.map Token.unplaced) :
    SameResult Eq (readProgram source fileName) (readProgram source' fileName') := by
  unfold readProgram
  rw [ht, hu]
  exact (sameResult_parse h _ _).bind fun _ _ hes => sameResult_ofEvents hes

theorem sameResult_analyze (ht : tokenize source settings.fileName = .ok ts)
    (hu : tokenize source' settings'.fileName = .ok us)
    (h : ts.map Token.unplaced = us.map Token.unplaced)
    (hstrict : settings.strict = settings'.strict) :
    SameResult Eq (analyze source settings) (analyze source' settings') := by
  unfold analyze
  rw [hstrict]
  exact (sameResult_readProgram ht hu h).bind fun _ _ hp => hp ▸ .refl _

/-- Tokens of the same kinds and values are parsed to the same events but for their places, or else
both parses break off after the same events and for the same cause. Texts of such tokens are
analysed with one result, if types are required of both or of neither. -/
theorem layout_is_immaterial
    (h : (ts.map fun t => (t.kind, t.value)) = us.map fun t => (t.kind, t.value)) :
    (∀ file file', Reader.Tallies (fun es es' => es.map Event.unplaced = es'.map Event.unplaced)
      (parse ts file) (parse us file')) ∧
    ∀ source source' settings settings', tokenize source settings.fileName = .ok ts →
      tokenize source' settings'.fileName = .ok us → settings.strict = settings'.strict →
      SameResult Eq (analyze source settings) (analyze source' settings') ∧
        ∀ kind, analyze source settings ≠ .error (.misplacedLiteral kind) := by
  have hunplaced := map_unplaced h
  refine ⟨tallies_parse hunplaced, fun source source' settings settings' ht hu hstrict => ?_⟩
  exact ⟨sameResult_analyze ht hu hunplaced hstrict, analyze_ne_misplacedLiteral source settings⟩

end Texts

def denseText : String := "def f(n) \x7b return n + 1; \x7d x = f(2);"

def airyText : String := "def f ( n )\n\x7b\n  return n+1;\n\x7d\n\nx   =\n  f( 2 ) ;\n"

theorem denseText_airyText : ∃ ts us, tokenize denseText none = .ok ts ∧
    tokenize airyText (some "airy") = .ok us ∧ ts ≠ us ∧
    (ts.map fun t => (t.kind, t.value)) = (us.map fun t => (t.kind, t.value)) ∧
    Reader.Tallies (fun es es' => es.map Event.unplaced = es'.map Event.unplaced)
      (parse ts "") (parse us "airy") ∧
    SameResult Eq (analyze denseText ⟨none, true⟩) (analyze airyText ⟨some "airy", true⟩) := by
  have htokens : (tokenize denseText none).toOption.any (fun ts =>
      (tokenize airyText (some "airy")).toOption.any fun us => ts ≠ us ∧
        (ts.map fun t => (t.kind, t.value)) = us.map fun t => (t.kind, t.value)) := by
    decide +kernel
  cases hts : tokenize denseText none with
  | error e => simp [hts, Except.toOption] at htokens
  | ok ts =>
    cases hus : tokenize airyText (some "airy") with
    | error e => simp [hus, Except.toOption] at htokens
    | ok us =>
      simp only [hts, hus, Except.toOption, Option.any_some, decide_eq_true_eq] at htokens
      obtain ⟨hne, hsame⟩ := htokens
      have h := layout_is_immaterial hsame
      exact ⟨ts, us, rfl, rfl, hne, hsame, h.1 "" "airy",
        (h.2 denseText airyText ⟨none, true⟩ ⟨some "airy", true⟩ hts hus rfl).1⟩

end TinyScript
