import TinyScript.Proofs.Derivation.Meaning
import TinyScript.Proofs.Printing.Lexing

/-! What is written from a tree has a derivation that stands for the tree again, up to depths and
scopes. Where the tokens stand in their text does not matter. -/

namespace TinyScript

def Leaf.ofLexeme {t : Token} {k : TokenKind} {value : String} (h : t.lexeme = (k, value)) :
    Leaf [k] := ⟨t, List.mem_singleton.2 (congrArg Prod.fst h)⟩

theorem Token.kind_of_lexeme {t : Token} {k : TokenKind} {value : String}
    (h : t.lexeme = (k, value)) : k = t.kind := (congrArg Prod.fst h).symm

theorem Token.value_of_lexeme {t : Token} {k : TokenKind} {value : String}
    (h : t.lexeme = (k, value)) : t.value = value := congrArg Prod.snd h

namespace Token

variable {ts : List Token} {ls ls' : List Lexeme} {l : Lexeme}

theorem exists_first (h : ts.map lexeme = l :: ls) :
    ∃ u us, ts = u :: us ∧ u.lexeme = l ∧ us.map lexeme = ls := List.map_eq_cons_iff.1 h

theorem exists_around (h : ts.map lexeme = ls ++ l :: ls') :
    ∃ us u vs, ts = us ++ u :: vs ∧ us.map lexeme = ls ∧ u.lexeme = l ∧ vs.map lexeme = ls' := by
  obtain ⟨us, ws, rfl, hus, hws⟩ := List.map_eq_append_iff.1 h
  obtain ⟨u, vs, rfl, hu, hvs⟩ := exists_first hws
  exact ⟨us, u, vs, rfl, hus, hu, hvs⟩

theorem exists_last (h : ts.map lexeme = ls ++ [l]) :
    ∃ us u, ts = us ++ [u] ∧ us.map lexeme = ls ∧ u.lexeme = l := by
  obtain ⟨us, u, vs, rfl, hus, hu, hvs⟩ := exists_around h
  obtain rfl := List.map_eq_nil_iff.1 hvs
  exact ⟨us, u, rfl, hus, hu⟩

end Token

/-- Whatever tokens are written `ls` derive the expression `e` at the level `l`. -/
def Expr.DerivedAt (e : Expr) (l : Level) (ls : List Lexeme) : Prop :=
  ∀ ⦃ts : List Token⦄, ts.map Token.lexeme = ls →
    ∃ t : ExprTree (.level l), t.tokens = ts ∧ ∀ d, Expr.bare (t.meaning d) = e.bare

namespace Expr.DerivedAt

variable {e : Expr} {l l' : Level} {ls : List Lexeme}

theorem tighter (h : e.DerivedAt l.next ls) (hl : l ≠ .primary) : e.DerivedAt l ls := by
  intro ts hts
  obtain ⟨t, ht, hm⟩ := h hts
  exact ⟨.tighter hl t, ht, hm⟩

theorem loosen (h : e.DerivedAt l' ls) (hl : l.rank ≤ l'.rank) : e.DerivedAt l ls := by
  -- down the levels from `l'`, one `tighter` for each
  induction hn : l'.rank - l.rank generalizing l with
  | zero =>
    have heq : l = l' := by
      have : l.rank = l'.rank := by omega
      cases l <;> cases l' <;> first | rfl | cases this
    exact heq ▸ h
  | succ n ih =>
    have hp : l ≠ .primary := by
      rintro rfl
      have : l'.rank ≤ Level.primary.rank := by cases l' <;> decide
      omega
    have hr := Level.rank_next hp
    exact (ih (by omega) (by omega)).tighter hp

theorem grouping (h : e.DerivedAt .logical ls) :
    e.DerivedAt .primary (fixed .openParen :: (ls ++ [fixed .closeParen])) := by
  intro ts hts
  obtain ⟨o, ts, rfl, ho, hts⟩ := Token.exists_first hts
  obtain ⟨us, c, rfl, hus, hc⟩ := Token.exists_last hts
  obtain ⟨t, rfl, hm⟩ := h hus
  exact ⟨.grouping (.ofLexeme ho) t (.ofLexeme hc), rfl, fun d => hm (d + 1)⟩

theorem enclose (h : e.DerivedAt e.level ls) (need : Level) :
    e.DerivedAt need (enclose need e.level ls) := by
  unfold TinyScript.enclose
  split
  · next hle => exact h.loosen hle
  · have hlogical : e.DerivedAt .logical ls := h.loosen (by cases e.level <;> decide)
    exact hlogical.grouping.loosen (by cases need <;> decide)

end Expr.DerivedAt

theorem BinaryOp.kind_mem (op : BinaryOp) : op.kind ∈ op.level.kinds := by
  cases op <;> decide

theorem BinaryOp.ofSymbol_spelling (op : BinaryOp) : ofSymbol op.kind.spelling = op := by
  cases op <;> rfl

theorem UnaryOp.kind_mem (op : UnaryOp) : op.kind ∈ [TokenKind.not, .dash] := by
  cases op <;> decide

theorem UnaryOp.ofSymbol_spelling {op : UnaryOp} (h : op ≠ .invalid) :
    ofSymbol op.kind.spelling = op := by
  cases op <;> first | rfl | exact absurd rfl h

namespace Expr

def DerivedArguments (es : List Expr) (ls : List Lexeme) : Prop :=
  ∀ ⦃ts : List Token⦄, ts.map Token.lexeme = ls →
    ∃ t : ExprTree .arguments, t.tokens = ts ∧ ∀ d, bareAll (t.meaning d) = bareAll es

theorem derived_binary {tag : Tag} {op : BinaryOp} {left right : Expr} {ls ls' : List Lexeme}
    (htag : tag.type = .unknown) (hl : left.DerivedAt op.level ls)
    (hr : right.DerivedAt op.level.next ls') :
    (binary tag op left right).DerivedAt op.level (ls ++ fixed op.kind :: ls') := by
  intro ts hts
  obtain ⟨us, o, vs, rfl, hus, ho, hvs⟩ := Token.exists_around hts
  obtain ⟨t, rfl, hm⟩ := hl hus
  obtain ⟨t', rfl, hm'⟩ := hr hvs
  have hkind : o.kind ∈ op.level.kinds := Token.kind_of_lexeme ho ▸ op.kind_mem
  refine ⟨.join t ⟨o, hkind⟩ t', rfl, fun d => ?_⟩
  simp only [ExprTree.meaning, bare, hm, hm', Token.value_of_lexeme ho,
    BinaryOp.ofSymbol_spelling, Tag.untyped, htag]

theorem derived_unary {tag : Tag} {op : UnaryOp} {operand : Expr} {ls : List Lexeme}
    (htag : tag.type = .unknown) (hop : op ≠ .invalid) (h : operand.DerivedAt .unary ls) :
    (unary tag op operand).DerivedAt .unary (fixed op.kind :: ls) := by
  intro ts hts
  obtain ⟨o, us, rfl, ho, hus⟩ := Token.exists_first hts
  obtain ⟨t, rfl, hm⟩ := h hus
  have hkind : o.kind ∈ [TokenKind.not, .dash] := Token.kind_of_lexeme ho ▸ op.kind_mem
  refine ⟨.sign ⟨o, hkind⟩ t, rfl, fun d => ?_⟩
  simp only [ExprTree.meaning, bare, hm, Token.value_of_lexeme ho,
    UnaryOp.ofSymbol_spelling hop, Tag.untyped, htag]

theorem literalValue_of_lexeme {t : Token} {value : Literal} (h : value.expressible)
    (ht : t.lexeme = value.lexeme) :
    t.kind ∈ [TokenKind.number, .string, .bool] ∧ t.literalValue = value := by
  cases value with
  | bool b =>
    have hk : _ = t.kind := Token.kind_of_lexeme ht
    have hv : t.value = _ := Token.value_of_lexeme ht
    cases b <;> simp [← hk, Token.literalValue, hv, Literal.render] <;> decide
  | int n =>
    have hk : _ = t.kind := Token.kind_of_lexeme ht
    have hv : t.value = _ := Token.value_of_lexeme ht
    have hn : 0 ≤ n.toInt := of_decide_eq_true h
    simp [← hk, Token.literalValue, hv, Literal.int64?_render hn]
  | str s =>
    have hk : _ = t.kind := Token.kind_of_lexeme ht
    have hv : t.value = _ := Token.value_of_lexeme ht
    simp [← hk, Token.literalValue, hv]

theorem derived_literal {tag : Tag} {value : Literal} (htag : tag.type = value.type)
    (h : value.expressible) : (literal tag value).DerivedAt .primary [value.lexeme] := by
  intro ts hts
  obtain ⟨u, us, rfl, hu, hus⟩ := Token.exists_first hts
  obtain rfl := List.map_eq_nil_iff.1 hus
  obtain ⟨hkind, hvalue⟩ := literalValue_of_lexeme h hu
  refine ⟨.literal ⟨u, hkind⟩, rfl, fun d => ?_⟩
  simp only [ExprTree.meaning, hvalue, ofLiteral, bare, htag]

theorem derived_var {tag : Tag} {name : String} (htag : tag.type = .unknown) :
    (var tag name).DerivedAt .primary [(.identifier, name)] := by
  intro ts hts
  obtain ⟨u, us, rfl, hu, hus⟩ := Token.exists_first hts
  obtain rfl := List.map_eq_nil_iff.1 hus
  refine ⟨.var (.ofLexeme hu), rfl, fun d => ?_⟩
  have hv : (Leaf.ofLexeme hu).token.value = name := Token.value_of_lexeme hu
  simp only [ExprTree.meaning, bare, hv, Tag.untyped, htag]

theorem derived_call {tag : Tag} {name : String} {arguments : List Expr} {ls : List Lexeme}
    (htag : tag.type = .unknown) (h : DerivedArguments arguments ls) ⦃ts : List Token⦄
    (hts : ts.map Token.lexeme =
      (.identifier, name) :: fixed .openParen :: (ls ++ [fixed .closeParen])) :
    ∃ t : ExprTree .call, t.tokens = ts ∧
      ∀ d, Expr.bare (t.meaning d) = (call tag name arguments).bare := by
  obtain ⟨n, ts, rfl, hn, hts⟩ := Token.exists_first hts
  obtain ⟨o, ts, rfl, ho, hts⟩ := Token.exists_first hts
  obtain ⟨us, c, rfl, hus, hc⟩ := Token.exists_last hts
  obtain ⟨t, rfl, hm⟩ := h hus
  refine ⟨.apply (.ofLexeme hn) (.ofLexeme ho) t (.ofLexeme hc), rfl, fun d => ?_⟩
  have hv : (Leaf.ofLexeme hn).token.value = name := Token.value_of_lexeme hn
  simp only [ExprTree.meaning, bare, hv, hm, Tag.untyped, htag]

theorem derived_items {e : Expr} {es : List Expr} {ls : List Lexeme} {lss : List (List Lexeme)}
    (he : e.DerivedAt .logical ls) (hes : List.Forall₂ (fun e => e.DerivedAt .logical) es lss)
    ⦃ts : List Token⦄ (hts : ts.map Token.lexeme = commas (ls :: lss)) :
    ∃ t : ExprTree .items, t.tokens = ts ∧ ∀ d, bareAll (t.meaning d) = bareAll (e :: es) := by
  induction hes generalizing e ls ts with
  | nil =>
    obtain ⟨t, rfl, hm⟩ := he hts
    exact ⟨.last t, rfl, fun d => by simp [ExprTree.meaning, bareAll, hm]⟩
  | cons hf _ ih =>
    obtain ⟨us, c, vs, rfl, hus, hc, hvs⟩ := Token.exists_around hts
    obtain ⟨t, rfl, hm⟩ := he hus
    obtain ⟨t', rfl, hm'⟩ := ih hf hvs
    refine ⟨.more t (.ofLexeme hc) t', rfl, fun d => ?_⟩
    have hm' := hm' d
    simp only [ExprTree.meaning, bareAll, bare_withDepth, hm] at hm' ⊢
    rw [hm']

theorem derivedArguments_of_forall {es : List Expr} {lss : List (List Lexeme)}
    (h : List.Forall₂ (fun e => e.DerivedAt .logical) es lss) :
    DerivedArguments es (commas lss) := by
  intro ts hts
  cases h with
  | nil =>
    obtain rfl := List.map_eq_nil_iff.1 hts
    exact ⟨.none, rfl, fun _ => rfl⟩
  | cons he hes =>
    obtain ⟨t, ht, hm⟩ := derived_items he hes hts
    exact ⟨.some t, ht, hm⟩

theorem DerivedAt.full {e : Expr} {ls : List Lexeme} (h : e.DerivedAt e.level ls) :
    e.DerivedAt .logical ls := h.loosen (by cases e.level <;> decide)

mutual

theorem derived (e : Expr) (h : e.expressible) : e.DerivedAt e.level e.lexemes := by
  cases e with
  | binary tag op left right =>
    simp only [expressible, Bool.and_eq_true, decide_eq_true_eq] at h
    exact derived_binary h.1.1.1 ((derived left h.1.2).enclose _) ((derived right h.2).enclose _)
  | unary tag op operand =>
    simp only [expressible, Bool.and_eq_true, decide_eq_true_eq] at h
    exact derived_unary h.1.1 h.1.2 ((derived operand h.2).enclose _)
  | literal tag value =>
    simp only [expressible, Bool.and_eq_true, decide_eq_true_eq] at h
    exact derived_literal h.1 h.2
  | var tag name =>
    simp only [expressible, Bool.and_eq_true, decide_eq_true_eq] at h
    exact derived_var h.1
  | call tag name arguments =>
    simp only [expressible, Bool.and_eq_true, decide_eq_true_eq] at h
    have harguments := derivedArguments_of_forall (derivedAll arguments h.2)
    intro ts hts
    obtain ⟨t, ht, hm⟩ := derived_call h.1.1 harguments hts
    exact ⟨.call t, ht, hm⟩

theorem derivedAll (es : List Expr) (h : expressibleAll es) :
    List.Forall₂ (fun e => e.DerivedAt .logical) es (lexemesAll es) := by
  cases es with
  | nil => exact .nil
  | cons e es =>
    simp only [expressibleAll, Bool.and_eq_true] at h
    exact .cons (derived e h.1).full (derivedAll es h.2)

end

end Expr

end TinyScript
