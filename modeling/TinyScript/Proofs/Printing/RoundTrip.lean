import TinyScript.Proofs.Acceptance
import TinyScript.Proofs.Printing.DeriveProgram

/-! Reading the source text of a program gives the program back, up to depths and scopes. -/

namespace TinyScript

structure Lexeme.Faithful (l : Lexeme) : Prop where
  legible : l.Legible
  readable : l.1 = .number → (Text.int64? l.2).isSome

namespace Lexeme.Faithful

theorem of_ne {l : Lexeme} (h : l.Legible) (hk : l.1 ≠ .number) : l.Faithful :=
  ⟨h, fun he => absurd he hk⟩

theorem mark {k : TokenKind} (h : k.spelling ≠ "") : (fixed k).Faithful := by
  refine .of_ne (.mark h) fun hk => ?_
  obtain rfl : k = .number := hk
  exact absurd rfl h

theorem name {text : String} (h : isName text) : Lexeme.Faithful (.identifier, text) :=
  .of_ne (.identifier h) (by simp)

theorem literal {value : Literal} (h : value.expressible) : value.lexeme.Faithful := by
  cases value with
  | bool b => exact .of_ne (.bool b) (by simp [Literal.lexeme])
  | int n =>
    have hn : 0 ≤ n.toInt := of_decide_eq_true h
    have hne : (Literal.int n).render.toList ≠ [] := by simp [Literal.render_int hn]
    refine ⟨.digits hne (Literal.isDigit_of_mem_render hn), fun _ => ?_⟩
    simp [Literal.lexeme, Literal.int64?_render hn]
  | str s => exact .of_ne (.string s) (by simp [Literal.lexeme])

theorem commas {lss : List (List Lexeme)} (h : ∀ ls ∈ lss, ∀ l ∈ ls, l.Faithful) :
    ∀ l ∈ commas lss, l.Faithful := by
  fun_induction TinyScript.commas lss with
  | case1 => exact List.forall_mem_nil _
  | case2 item => exact h item (by simp)
  | case3 item items _ ih =>
    obtain ⟨hitem, hitems⟩ := List.forall_mem_cons.1 h
    simp only [List.forall_mem_append, List.forall_mem_cons]
    exact ⟨hitem, .mark (by decide), ih hitems⟩

theorem enclose {ls : List Lexeme} (h : ∀ l ∈ ls, l.Faithful) (need own : Level) :
    ∀ l ∈ enclose need own ls, l.Faithful := by
  unfold TinyScript.enclose
  split
  · exact h
  · simp only [List.forall_mem_append, List.forall_mem_cons]
    exact ⟨.mark (by decide), h, .mark (by decide), List.forall_mem_nil _⟩

theorem type {t : DataType} (h : t.writable) : ∀ l ∈ t.lexemes, l.Faithful := by
  induction t with
  | bool | int | str => exact List.forall_mem_cons.2 ⟨.name (by decide), List.forall_mem_nil _⟩
  | unknown => cases h
  | collection family element ih =>
    have hname : isName family.name := by cases family <;> decide
    have helement : element.writable := by
      cases family with
      | list | set => exact h
      | map => cases h
    simp only [DataType.lexemes, List.forall_mem_append, List.forall_mem_cons]
    exact ⟨.name hname, .mark (by decide), ih helement, .mark (by decide), List.forall_mem_nil _⟩

theorem typeAfter {t : DataType} (h : t.expressible) {mark : TokenKind}
    (hmark : mark.spelling ≠ "") : ∀ l ∈ t.lexemesAfter mark, l.Faithful := by
  unfold DataType.lexemesAfter
  split
  · next hknown =>
    exact List.forall_mem_cons.2 ⟨.mark hmark, type (DataType.writable_of_isKnown h hknown)⟩
  · exact List.forall_mem_nil _

end Lexeme.Faithful

mutual

theorem Expr.faithful_lexemes (e : Expr) (h : e.expressible) : ∀ l ∈ e.lexemes, l.Faithful := by
  cases e with
  | binary tag op left right =>
    simp only [expressible, Bool.and_eq_true] at h
    simp only [lexemes, List.forall_mem_append, List.forall_mem_cons]
    exact ⟨.enclose (left.faithful_lexemes h.1.2) _ _, .mark (by cases op <;> decide),
      .enclose (right.faithful_lexemes h.2) _ _⟩
  | unary tag op operand =>
    simp only [expressible, Bool.and_eq_true] at h
    simp only [lexemes, List.forall_mem_cons]
    exact ⟨.mark (by cases op <;> decide), .enclose (operand.faithful_lexemes h.2) _ _⟩
  | literal tag value =>
    simp only [expressible, Bool.and_eq_true] at h
    exact List.forall_mem_cons.2 ⟨.literal h.2, List.forall_mem_nil _⟩
  | var tag name =>
    simp only [expressible, Bool.and_eq_true] at h
    exact List.forall_mem_cons.2 ⟨.name h.2, List.forall_mem_nil _⟩
  | call tag name arguments =>
    simp only [expressible, Bool.and_eq_true] at h
    simp only [lexemes, List.forall_mem_append, List.forall_mem_cons]
    exact ⟨.name h.1.2, .mark (by decide), .commas (Expr.faithful_lexemesAll arguments h.2),
      .mark (by decide), List.forall_mem_nil _⟩

theorem Expr.faithful_lexemesAll (es : List Expr) (h : Expr.expressibleAll es) :
    ∀ ls ∈ Expr.lexemesAll es, ∀ l ∈ ls, l.Faithful := by
  cases es with
  | nil => exact List.forall_mem_nil _
  | cons e es =>
    simp only [Expr.expressibleAll, Bool.and_eq_true] at h
    simp only [Expr.lexemesAll, List.forall_mem_cons]
    exact ⟨e.faithful_lexemes h.1, Expr.faithful_lexemesAll es h.2⟩

end

mutual

theorem Stmt.faithful_lexemes (s : Stmt) (h : s.expressible) : ∀ l ∈ s.lexemes, l.Faithful := by
  cases s with
  | assign depth target value =>
    have h : target.expressible ∧ value.expressible := by
      cases target <;> simp_all [Stmt.expressible]
    simp only [Stmt.lexemes, List.forall_mem_append, List.forall_mem_cons]
    exact ⟨target.faithful_lexemes h.1, .mark (by decide), value.faithful_lexemes h.2,
      .mark (by decide), List.forall_mem_nil _⟩
  | ifThen depth condition yes =>
    simp only [Stmt.expressible, Bool.and_eq_true] at h
    simp only [Stmt.lexemes, List.forall_mem_append, List.forall_mem_cons]
    exact ⟨.mark (by decide), .mark (by decide), condition.faithful_lexemes h.1,
      .mark (by decide), Block.faithful_lexemes yes h.2⟩
  | ifElse depth condition yes no =>
    simp only [Stmt.expressible, Bool.and_eq_true] at h
    simp only [Stmt.lexemes, List.forall_mem_append, List.forall_mem_cons]
    exact ⟨.mark (by decide), .mark (by decide), condition.faithful_lexemes h.1.1,
      .mark (by decide), Block.faithful_lexemes yes h.1.2, .mark (by decide),
      Block.faithful_lexemes no h.2⟩
  | loop depth guard body =>
    simp only [Stmt.expressible, Bool.and_eq_true] at h
    simp only [Stmt.lexemes, List.forall_mem_append, List.forall_mem_cons]
    exact ⟨.mark (by decide), .mark (by decide), guard.faithful_lexemes h.1,
      .mark (by decide), Block.faithful_lexemes body h.2⟩
  | ret depth value =>
    simp only [Stmt.lexemes, List.forall_mem_append, List.forall_mem_cons]
    exact ⟨.mark (by decide), value.faithful_lexemes h, .mark (by decide), List.forall_mem_nil _⟩
  | brk depth | cont depth =>
    simp only [Stmt.lexemes, List.forall_mem_cons]
    exact ⟨.mark (by decide), .mark (by decide), List.forall_mem_nil _⟩
  | test depth call expected =>
    have h : call.expressible ∧ expected.expressible := by
      cases call <;> simp_all [Stmt.expressible]
    simp only [Stmt.lexemes, List.forall_mem_append, List.forall_mem_cons]
    exact ⟨.mark (by decide), call.faithful_lexemes h.1, .mark (by decide),
      expected.faithful_lexemes h.2, .mark (by decide), List.forall_mem_nil _⟩

theorem Block.faithful_lexemes (b : Block) (h : b.expressible) : ∀ l ∈ b.lexemes, l.Faithful := by
  cases b with
  | mk depth scope statements =>
    simp only [Block.lexemes, List.forall_mem_append, List.forall_mem_cons]
    exact ⟨.mark (by decide), Stmt.faithful_lexemesAll statements h, .mark (by decide),
      List.forall_mem_nil _⟩

theorem Stmt.faithful_lexemesAll (ss : List Stmt) (h : Stmt.expressibleAll ss) :
    ∀ l ∈ Stmt.lexemesAll ss, l.Faithful := by
  cases ss with
  | nil => exact List.forall_mem_nil _
  | cons s ss =>
    simp only [Stmt.expressibleAll, Bool.and_eq_true] at h
    simp only [Stmt.lexemesAll, List.forall_mem_append]
    exact ⟨Stmt.faithful_lexemes s h.1, Stmt.faithful_lexemesAll ss h.2⟩

end

theorem Parameter.faithful_lexemes {p : Parameter} (h : p.expressible) :
    ∀ l ∈ p.lexemes, l.Faithful := by
  simp only [expressible, Bool.and_eq_true] at h
  exact List.forall_mem_cons.2 ⟨.name h.1, .typeAfter h.2 (by decide)⟩

theorem Function.faithful_lexemes {f : Function} (h : f.expressible) :
    ∀ l ∈ f.lexemes, l.Faithful := by
  simp only [expressible, Bool.and_eq_true, List.all_eq_true] at h
  obtain ⟨⟨⟨hname, hparameters⟩, hresult⟩, hbody⟩ := h
  simp only [lexemes, List.forall_mem_append, List.forall_mem_cons]
  refine ⟨.mark (by decide), .name hname, .mark (by decide), .commas fun ls hls => ?_,
    .mark (by decide), .typeAfter hresult (by decide), f.body.faithful_lexemes hbody⟩
  obtain ⟨p, hp, rfl⟩ := List.mem_map.1 hls
  exact Parameter.faithful_lexemes (hparameters p hp)

theorem Program.faithful_lexemes {p : Program} (h : p.expressible) :
    ∀ l ∈ p.lexemes, l.Faithful := by
  simp only [expressible, Bool.and_eq_true, List.all_eq_true] at h
  simp only [lexemes, List.forall_mem_append]
  refine ⟨Stmt.faithful_lexemesAll p.statements h.1, fun l hl => ?_⟩
  obtain ⟨f, hf, hl⟩ := List.mem_flatMap.1 hl
  exact Function.faithful_lexemes (h.2 f hf) l hl

theorem Program.tokenize_source {p : Program} (h : p.expressible) (fileName : Option String) :
    ∃ us place, tokenize p.source fileName = .ok (us ++ [Token.eofAt place]) ∧
      us.map Token.lexeme = p.lexemes := by
  rw [tokenize, source, String.toList_ofList]
  exact Token.scan_spell (fun l hl => (faithful_lexemes h l hl).legible) _ 0

theorem find?_unreadable_eq_none {us : List Token} {ls : List Lexeme}
    (h : ∀ l ∈ ls, l.Faithful) (hus : us.map Token.lexeme = ls) :
    us.find? Token.unreadable = none := by
  subst hus
  refine List.find?_eq_none.2 fun t ht => ?_
  have hread := (h _ (List.mem_map_of_mem ht)).readable
  simp only [Token.unreadable, Bool.and_eq_true, decide_eq_true_eq, not_and, Bool.not_eq_true]
  intro hk
  have hsome : (Text.int64? t.value).isSome := hread hk
  simpa using hsome

/-- A program that a text can stand for is read back from its source text, up to the depths and the
scopes in it. -/
theorem readProgram_source (p : Program) (h : p.expressible) (fileName : Option String) :
    ∃ q, readProgram p.source fileName = .ok q ∧ q.bare = p.bare := by
  obtain ⟨us, place, htokens, hus⟩ := p.tokenize_source h fileName
  -- the tokens of the text are those it was written with, so they derive `p`
  obtain ⟨tree, htree, hbare⟩ := Program.derived h hus
  have hlexed : ∀ t ∈ us, t.Lexed := by
    have hcases := tokenize_cases p.source fileName
    rw [htokens] at hcases
    obtain ⟨vs, _, heq, hvs⟩ := hcases
    obtain ⟨rfl, -⟩ := List.append_inj' heq rfl
    exact hvs
  have hend : tree.tokens = beforeEnd (us ++ [Token.eofAt place]) := by
    rw [Token.beforeEnd_scan hlexed, htree]
  obtain ⟨r, hparse⟩ : ∃ r, parse (us ++ [Token.eofAt place]) (fileName.getD defaultFile) =
      (.ok tree.events, r) := parse_tokens hend
  have hevents := tree.ofEvents_events
  rw [htree, find?_unreadable_eq_none (Program.faithful_lexemes h) hus] at hevents
  refine ⟨tree.meaning, ?_, hbare⟩
  simp [readProgram, htokens, hparse, orFault, bind, Except.bind, hevents]

/-- A program with operands on the right of their own level, quoted quotes and annotations. -/
def specimen : Program where
  statements := [
    .assign 0 (.var (.untyped 0) "x")
      (.binary (.untyped 0) .sub (.ofLiteral 0 (.int 7))
        (.binary (.untyped 0) .sub (.ofLiteral 0 (.int 2))
          (.unary (.untyped 0) .neg (.var (.untyped 0) "y")))),
    .ifThen 0 (.unary (.untyped 0) .not
        (.binary (.untyped 0) .eq (.var (.untyped 0) "x") (.ofLiteral 0 (.str "\"é\\"))))
      (.mk 0 ⟨0⟩ [.brk 0]),
    .test 0 (.call (.untyped 0) "f" [.ofLiteral 0 (.bool true), .var (.untyped 0) "x"])
      (.ofLiteral 0 (.int 0))]
  functions := [
    ⟨"f", [⟨"a", .collection .list .int⟩, ⟨"b", .unknown⟩], .str,
      .mk 0 ⟨0⟩ [.ret 0 (.var (.untyped 0) "b")], 0, ⟨0⟩⟩]
  depth := 0
  scope := ⟨0⟩

theorem readProgram_specimen : specimen.expressible ∧
    specimen.source = "x = 7 - ( 2 - - y ) ; " ++
      "if ( ! ( x == \"\\\"é\\\\\" ) ) \x7b break ; \x7d test f ( true , x ) == 0 ; " ++
      "def f ( a : list < int > , b ) -> str \x7b return b ; \x7d" ∧
    ∃ q, readProgram specimen.source none = .ok q ∧ q.bare = specimen.bare :=
  ⟨by decide, by decide +kernel, readProgram_source specimen (by decide) none⟩

end TinyScript
