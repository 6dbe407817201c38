import TinyScript.Proofs.Derivation.Events

/-! The literals among the events of a derivation are its literal tokens, in the order they are
written. -/

namespace TinyScript

def Token.isLiteral (t : Token) : Bool := t.kind ∈ [TokenKind.number, .string, .bool]

def Event.literal? (e : Event) : Option Token :=
  match e.kind with
  | .literal t => some t
  | _ => none

theorem Event.literal?_eq_some {e : Event} {t : Token} :
    e.literal? = some t ↔ e.kind = .literal t := by
  unfold literal?
  split <;> simp_all

def literalTokens (es : List Event) : List Token := es.filterMap Event.literal?

@[simp] theorem literalTokens_nil : literalTokens [] = [] := rfl

@[simp] theorem literalTokens_append (es es' : List Event) :
    literalTokens (es ++ es') = literalTokens es ++ literalTokens es' := List.filterMap_append

@[simp] theorem literalTokens_cons (e : Event) (es : List Event) :
    literalTokens (e :: es) = e.literal?.toList ++ literalTokens es := by
  rw [literalTokens, List.filterMap_cons]
  cases e.literal? <;> rfl

theorem Leaf.isLiteral_eq_false {kinds : List TokenKind} (leaf : Leaf kinds)
    (h : ∀ k ∈ [TokenKind.number, .string, .bool], k ∉ kinds) : leaf.token.isLiteral = false :=
  decide_eq_false fun hm => h _ hm leaf.mem

theorem ExprTree.literalTokens_events {p : ExprPart} (e : ExprTree p) (i d : Nat) :
    literalTokens (e.events i d) = e.tokens.filter Token.isLiteral := by
  induction e generalizing i d with
  | @join l left operator right ihl ihr =>
    have ho := operator.isLiteral_eq_false (by cases l <;> decide)
    simp [events, tokens, Event.literal?, ihl, ihr, ho]
  | tighter _ _ ih | call _ ih | some _ ih => exact ih i d
  | sign operator operand ih =>
    have ho := operator.isLiteral_eq_false (by decide)
    simp [events, tokens, Event.literal?, ih, ho]
  | literal value =>
    have hv : value.token.isLiteral = true := decide_eq_true value.mem
    simp [events, tokens, Event.literal?, hv]
  | var name => simp [events, tokens, Event.literal?, name.isLiteral_eq_false (by decide)]
  | grouping opening inner closing ih =>
    simp [events, tokens, ih, opening.isLiteral_eq_false (by decide),
      closing.isLiteral_eq_false (by decide)]
  | apply name opening arguments closing ih =>
    simp [events, tokens, Event.literal?, ih, name.isLiteral_eq_false (by decide),
      opening.isLiteral_eq_false (by decide), closing.isLiteral_eq_false (by decide)]
  | none => rfl
  | last item ih => simp [events, tokens, Event.literal?, ih]
  | more item comma rest ihi ihr =>
    simp [events, tokens, Event.literal?, ihi, ihr, comma.isLiteral_eq_false (by decide)]

theorem ExprTree.literalTokens_fullEvents (e : FullExpr) (i d : Nat) :
    literalTokens (e.fullEvents i d) = e.tokens.filter Token.isLiteral := by
  simp [fullEvents, Event.literal?, e.literalTokens_events]

theorem StmtTree.literalTokens_events {p : StmtPart} (s : StmtTree p) (i d : Nat) :
    literalTokens (s.events i d) = s.tokens.filter Token.isLiteral := by
  induction s generalizing i d with
  | _ =>
    simp [events, tokens, Event.literal?, Token.isLiteral, ExprTree.literalTokens_events,
      ExprTree.literalTokens_fullEvents, *]

theorem TypeTree.filter_isLiteral (t : TypeTree) : t.tokens.filter Token.isLiteral = [] := by
  induction t with
  | primitive p name => simp [tokens, Token.isLiteral, name.isName]
  | collection c name opening element closing ih =>
    simp [tokens, Token.isLiteral, name.isName, ih]

theorem AnnotationTree.filter_isLiteral {mark : TokenKind} (a : AnnotationTree mark)
    (h : mark ∉ [TokenKind.number, .string, .bool]) : a.tokens.filter Token.isLiteral = [] := by
  cases a with
  | none => rfl
  | some leaf type => simp_all [tokens, Token.isLiteral, type.filter_isLiteral]

theorem ParameterTree.filter_isLiteral (p : ParameterTree) :
    p.tokens.filter Token.isLiteral = [] := by
  simp [tokens, Token.isLiteral, p.type.filter_isLiteral (by decide)]

theorem ParametersTree.filter_isLiteral (ps : ParametersTree) :
    ps.tokens.filter Token.isLiteral = [] := by
  cases ps with
  | none => rfl
  | some items =>
    induction items with
    | last item => exact item.filter_isLiteral
    | more item comma rest ih =>
      rw [tokens] at ih
      simp [tokens, ParameterItems.tokens, Token.isLiteral, item.filter_isLiteral, ih]

theorem FunctionTree.literalTokens_events (f : FunctionTree) (i d : Nat) :
    literalTokens (f.events i d) = f.tokens.filter Token.isLiteral := by
  simp [events, tokens, Event.literal?, Token.isLiteral, f.body.literalTokens_events,
    f.parameters.filter_isLiteral, f.result.filter_isLiteral (by decide)]

theorem ItemTree.literalTokens_eventsAll (items : List ItemTree) (i d : Nat) :
    literalTokens (eventsAll items i d) = (items.flatMap tokens).filter Token.isLiteral := by
  induction items generalizing i with
  | nil => rfl
  | cons item items ih =>
    cases item with
    | statement s => simp [eventsAll, events, tokens, s.literalTokens_events, ih]
    | function f => simp [eventsAll, events, tokens, f.literalTokens_events, ih]

theorem ProgramTree.literalTokens_events (p : ProgramTree) :
    literalTokens p.events = p.tokens.filter Token.isLiteral := by
  simp [events, lastEvent, Event.literal?, ItemTree.literalTokens_eventsAll, tokens]

end TinyScript
