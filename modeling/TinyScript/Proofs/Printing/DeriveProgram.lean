import TinyScript.Proofs.Printing.Derive

/-! What is written from types, statements, functions and whole programs has a derivation that
stands for them again, up to depths and scopes. -/

namespace TinyScript

section Pieces

variable {e : Expr} {ts : List Token} {ls ls' : List Lexeme}

theorem Expr.DerivedAt.exists_condition {word : TokenKind} (h : e.DerivedAt .logical ls)
    (hts : ts.map Token.lexeme =
      fixed word :: fixed .openParen :: (ls ++ fixed .closeParen :: ls')) :
    ∃ (w : Leaf [word]) (o : Leaf [.openParen]) (t : FullExpr) (c : Leaf [.closeParen])
      (us : List Token), ts = w.token :: o.token :: (t.tokens ++ c.token :: us) ∧
      us.map Token.lexeme = ls' ∧ ∀ d, (t.fullMeaning d).bare = e.bare := by
  obtain ⟨w, ts, rfl, hw, hts⟩ := Token.exists_first hts
  obtain ⟨o, ts, rfl, ho, hts⟩ := Token.exists_first hts
  obtain ⟨us, c, vs, rfl, hus, hc, hvs⟩ := Token.exists_around hts
  obtain ⟨t, rfl, hm⟩ := h hus
  refine ⟨.ofLexeme hw, .ofLexeme ho, t, .ofLexeme hc, vs, rfl, hvs, fun d => ?_⟩
  rw [ExprTree.fullMeaning, Expr.bare_withDepth, hm]

theorem Expr.DerivedAt.exists_stopped (h : e.DerivedAt .logical ls)
    (hts : ts.map Token.lexeme = ls ++ [fixed .semicolon]) :
    ∃ (t : FullExpr) (stop : Leaf [.semicolon]), ts = t.tokens ++ [stop.token] ∧
      ∀ d, (t.fullMeaning d).bare = e.bare := by
  obtain ⟨us, c, rfl, hus, hc⟩ := Token.exists_last hts
  obtain ⟨t, rfl, hm⟩ := h hus
  refine ⟨t, .ofLexeme hc, rfl, fun d => ?_⟩
  rw [ExprTree.fullMeaning, Expr.bare_withDepth, hm]

theorem Token.exists_word {word : TokenKind}
    (hts : ts.map Token.lexeme = [fixed word, fixed .semicolon]) :
    ∃ (w : Leaf [word]) (stop : Leaf [.semicolon]), ts = [w.token, stop.token] := by
  obtain ⟨w, ts, rfl, hw, hts⟩ := Token.exists_first hts
  obtain ⟨c, us, rfl, hc, hus⟩ := Token.exists_first hts
  obtain rfl := List.map_eq_nil_iff.1 hus
  exact ⟨.ofLexeme hw, .ofLexeme hc, rfl⟩

end Pieces

def Stmt.Derived (s : Stmt) (ls : List Lexeme) : Prop :=
  ∀ ⦃ts : List Token⦄, ts.map Token.lexeme = ls →
    ∃ t : StmtTree .statement, t.tokens = ts ∧ ∀ d k, Stmt.bare (t.meaning d k) = s.bare

def Block.Derived (b : Block) (ls : List Lexeme) : Prop :=
  ∀ ⦃ts : List Token⦄, ts.map Token.lexeme = ls →
    ∃ t : StmtTree .block, t.tokens = ts ∧ ∀ d k, Block.bare (t.meaning d k) = b.bare

def Stmt.DerivedAll (ss : List Stmt) (ls : List Lexeme) : Prop :=
  ∀ ⦃ts : List Token⦄, ts.map Token.lexeme = ls →
    ∃ t : StmtTree .body, t.tokens = ts ∧ ∀ d k, Stmt.bareAll (t.meaning d k) = Stmt.bareAll ss

section Statements

variable {depth : Nat} {condition value : Expr} {yes no : Block} {ls ls' ls'' : List Lexeme}

theorem Stmt.derived_assign {tag : Tag} {name : String} (htag : tag.type = .unknown)
    (hv : value.DerivedAt .logical ls) :
    (Stmt.assign depth (.var tag name) value).Derived
      ((.identifier, name) :: fixed .assignment :: (ls ++ [fixed .semicolon])) := by
  intro ts hts
  obtain ⟨n, ts, rfl, hn, hts⟩ := Token.exists_first hts
  obtain ⟨m, ts, rfl, hmark, hts⟩ := Token.exists_first hts
  obtain ⟨t, stop, rfl, hm⟩ := hv.exists_stopped hts
  refine ⟨.assign (.ofLexeme hn) (.ofLexeme hmark) t stop, rfl, fun d k => ?_⟩
  have hname : (Leaf.ofLexeme hn).token.value = name := Token.value_of_lexeme hn
  simp only [StmtTree.meaning, bare, Expr.bare, hm, hname, Tag.untyped, htag]

theorem Stmt.derived_ifThen (hc : condition.DerivedAt .logical ls) (hy : yes.Derived ls') :
    (Stmt.ifThen depth condition yes).Derived
      (fixed .ifWord :: fixed .openParen :: (ls ++ fixed .closeParen :: ls')) := by
  intro ts hts
  obtain ⟨w, o, t, c, us, rfl, hus, hm⟩ := hc.exists_condition hts
  obtain ⟨b, rfl, hb⟩ := hy hus
  exact ⟨.ifThen w o t c b, rfl, fun d k => congrArg₂ (Stmt.ifThen 0) (hm d) (hb (d + 1) k)⟩

theorem Stmt.derived_ifElse (hc : condition.DerivedAt .logical ls) (hy : yes.Derived ls')
    (hn : no.Derived ls'') :
    (Stmt.ifElse depth condition yes no).Derived (fixed .ifWord :: fixed .openParen ::
      (ls ++ fixed .closeParen :: (ls' ++ fixed .elseWord :: ls''))) := by
  intro ts hts
  obtain ⟨w, o, t, c, us, rfl, hus, hm⟩ := hc.exists_condition hts
  obtain ⟨us, e, vs, rfl, hus, he, hvs⟩ := Token.exists_around hus
  obtain ⟨b, rfl, hb⟩ := hy hus
  obtain ⟨b', rfl, hb'⟩ := hn hvs
  exact ⟨.ifElse w o t c b (.ofLexeme he) b', rfl,
    fun d k => by simp only [StmtTree.meaning, bare, hm, hb, hb']⟩

theorem Stmt.derived_loop (hc : condition.DerivedAt .logical ls) (hy : yes.Derived ls') :
    (Stmt.loop depth condition yes).Derived
      (fixed .whileWord :: fixed .openParen :: (ls ++ fixed .closeParen :: ls')) := by
  intro ts hts
  obtain ⟨w, o, t, c, us, rfl, hus, hm⟩ := hc.exists_condition hts
  obtain ⟨b, rfl, hb⟩ := hy hus
  exact ⟨.loop w o t c b, rfl, fun d k => congrArg₂ (Stmt.loop 0) (hm d) (hb (d + 1) k)⟩

theorem Stmt.derived_ret (hv : value.DerivedAt .logical ls) :
    (Stmt.ret depth value).Derived (fixed .returnWord :: (ls ++ [fixed .semicolon])) := by
  intro ts hts
  obtain ⟨w, ts, rfl, hw, hts⟩ := Token.exists_first hts
  obtain ⟨t, stop, rfl, hm⟩ := hv.exists_stopped hts
  exact ⟨.ret (.ofLexeme hw) t stop, rfl, fun d k => congrArg (Stmt.ret 0) (hm d)⟩

theorem Stmt.derived_test {tag : Tag} {name : String} {arguments : List Expr}
    (htag : tag.type = .unknown) (ha : Expr.DerivedArguments arguments ls)
    (hv : value.DerivedAt .logical ls') :
    (Stmt.test depth (.call tag name arguments) value).Derived (fixed .testWord ::
      ((.identifier, name) :: fixed .openParen :: (ls ++ [fixed .closeParen]) ++
        fixed .equals :: (ls' ++ [fixed .semicolon]))) := by
  intro ts hts
  obtain ⟨w, ts, rfl, hw, hts⟩ := Token.exists_first hts
  obtain ⟨us, m, vs, rfl, hus, hmark, hvs⟩ := Token.exists_around hts
  obtain ⟨c, rfl, hcall⟩ := Expr.derived_call htag ha hus
  obtain ⟨t, stop, rfl, hm⟩ := hv.exists_stopped hvs
  exact ⟨.test (.ofLexeme hw) c (.ofLexeme hmark) t stop, rfl,
    fun d k => congrArg₂ (Stmt.test 0) (hcall d) (hm d)⟩

theorem Block.derived_braces {scope : Scope} {ss : List Stmt} (h : Stmt.DerivedAll ss ls) :
    (Block.mk depth scope ss).Derived (fixed .openCurly :: (ls ++ [fixed .closeCurly])) := by
  intro ts hts
  obtain ⟨o, ts, rfl, ho, hts⟩ := Token.exists_first hts
  obtain ⟨us, c, rfl, hus, hc⟩ := Token.exists_last hts
  obtain ⟨t, rfl, hm⟩ := h hus
  exact ⟨.braces (.ofLexeme ho) t (.ofLexeme hc), rfl,
    fun d k => congrArg (Block.mk 0 ⟨0⟩) (hm (d + 1) (k + 1))⟩

end Statements

mutual

theorem Stmt.derived (s : Stmt) (h : s.expressible) : s.Derived s.lexemes := by
  cases s with
  | assign depth target value =>
    cases target with
    | var tag name =>
      simp only [Stmt.expressible, Expr.expressible, Bool.and_eq_true, decide_eq_true_eq] at h
      exact Stmt.derived_assign h.1.1 (value.derived h.2).full
    | _ => simp [Stmt.expressible] at h
  | ifThen depth condition yes =>
    simp only [Stmt.expressible, Bool.and_eq_true] at h
    exact Stmt.derived_ifThen (condition.derived h.1).full (Block.derived yes h.2)
  | ifElse depth condition yes no =>
    simp only [Stmt.expressible, Bool.and_eq_true] at h
    exact Stmt.derived_ifElse (condition.derived h.1.1).full (Block.derived yes h.1.2)
      (Block.derived no h.2)
  | loop depth guard body =>
    simp only [Stmt.expressible, Bool.and_eq_true] at h
    exact Stmt.derived_loop (guard.derived h.1).full (Block.derived body h.2)
  | ret depth value =>
    simp only [Stmt.expressible] at h
    exact Stmt.derived_ret (value.derived h).full
  | brk depth =>
    intro ts hts
    obtain ⟨w, stop, rfl⟩ := Token.exists_word hts
    exact ⟨.brk w stop, rfl, fun _ _ => rfl⟩
  | cont depth =>
    intro ts hts
    obtain ⟨w, stop, rfl⟩ := Token.exists_word hts
    exact ⟨.cont w stop, rfl, fun _ _ => rfl⟩
  | test depth call expected =>
    cases call with
    | call tag name arguments =>
      simp only [Stmt.expressible, Expr.expressible, Bool.and_eq_true, decide_eq_true_eq] at h
      have harguments := Expr.derivedArguments_of_forall (Expr.derivedAll arguments h.1.2)
      exact Stmt.derived_test h.1.1.1 harguments (expected.derived h.2).full
    | _ => simp [Stmt.expressible] at h

theorem Block.derived (b : Block) (h : b.expressible) : b.Derived b.lexemes := by
  cases b with
  | mk depth scope statements => exact Block.derived_braces (Stmt.derivedAll statements h)

theorem Stmt.derivedAll (ss : List Stmt) (h : Stmt.expressibleAll ss) :
    Stmt.DerivedAll ss (Stmt.lexemesAll ss) := by
  intro ts hts
  cases ss with
  | nil =>
    obtain rfl := List.map_eq_nil_iff.1 hts
    exact ⟨.nil, rfl, fun _ _ => rfl⟩
  | cons s ss =>
    simp only [Stmt.expressibleAll, Bool.and_eq_true] at h
    obtain ⟨us, vs, rfl, hus, hvs⟩ := List.map_eq_append_iff.1 hts
    obtain ⟨t, rfl, hm⟩ := Stmt.derived s h.1 hus
    obtain ⟨t', rfl, hm'⟩ := Stmt.derivedAll ss h.2 hvs
    refine ⟨.cons t t', rfl, fun d k => ?_⟩
    simp only [StmtTree.meaning, Stmt.bareAll, hm, hm']

end

def Word.ofLexeme {t : Token} {text : String} (h : t.lexeme = (.identifier, text)) : Word text :=
  ⟨t, congrArg Prod.fst h, congrArg Prod.snd h⟩

namespace DataType

variable {ts : List Token} {t : DataType}

theorem derived_primitive (p : Primitive) (hts : ts.map Token.lexeme = [(.identifier, p.name)]) :
    ∃ tree : TypeTree, tree.tokens = ts ∧ tree.type = p.type := by
  obtain ⟨u, us, rfl, hu, hus⟩ := Token.exists_first hts
  obtain rfl := List.map_eq_nil_iff.1 hus
  exact ⟨.primitive p (.ofLexeme hu), rfl, rfl⟩

theorem derived_collection {ls : List Lexeme} (c : Container)
    (h : ∀ ⦃us : List Token⦄, us.map Token.lexeme = ls →
      ∃ tree : TypeTree, tree.tokens = us ∧ tree.type = t)
    (hts : ts.map Token.lexeme =
      (.identifier, c.name) :: fixed .less :: (ls ++ [fixed .greater])) :
    ∃ tree : TypeTree, tree.tokens = ts ∧ tree.type = .collection c.family t := by
  obtain ⟨n, ts, rfl, hn, hts⟩ := Token.exists_first hts
  obtain ⟨o, ts, rfl, ho, hts⟩ := Token.exists_first hts
  obtain ⟨us, g, rfl, hus, hg⟩ := Token.exists_last hts
  obtain ⟨tree, rfl, rfl⟩ := h hus
  exact ⟨.collection c (.ofLexeme hn) (.ofLexeme ho) tree (.ofLexeme hg), rfl, rfl⟩

theorem derived (h : t.writable) (hts : ts.map Token.lexeme = t.lexemes) :
    ∃ tree : TypeTree, tree.tokens = ts ∧ tree.type = t := by
  induction t generalizing ts with
  | bool => exact derived_primitive .bool hts
  | int => exact derived_primitive .int hts
  | str => exact derived_primitive .str hts
  | unknown => cases h
  | collection family element ih =>
    cases family with
    | list => exact derived_collection .list (fun _ => ih h) hts
    | set => exact derived_collection .set (fun _ => ih h) hts
    | map => cases h

theorem derived_after {mark : TokenKind} (h : t.expressible)
    (hts : ts.map Token.lexeme = t.lexemesAfter mark) :
    ∃ tree : AnnotationTree mark, tree.tokens = ts ∧ tree.type?.getD .unknown = t := by
  unfold lexemesAfter at hts
  split at hts
  · next hknown =>
    obtain ⟨m, us, rfl, hm, hus⟩ := Token.exists_first hts
    obtain ⟨tree, rfl, rfl⟩ := derived (writable_of_isKnown h hknown) hus
    exact ⟨.some (.ofLexeme hm) tree, rfl, rfl⟩
  · next hknown =>
    obtain rfl : t = unknown := by simpa using hknown
    obtain rfl := List.map_eq_nil_iff.1 hts
    exact ⟨.none, rfl, rfl⟩

end DataType

namespace Parameter

variable {ts : List Token}

theorem derived {p : Parameter} (h : p.expressible) (hts : ts.map Token.lexeme = p.lexemes) :
    ∃ tree : ParameterTree, tree.tokens = ts ∧ Assembly.parameter tree.entry = p := by
  simp only [expressible, Bool.and_eq_true] at h
  obtain ⟨n, us, rfl, hn, hus⟩ := Token.exists_first hts
  obtain ⟨tree, rfl, htype⟩ := DataType.derived_after h.2 hus
  refine ⟨⟨.ofLexeme hn, tree⟩, rfl, ?_⟩
  have hname : (Leaf.ofLexeme hn).token.value = p.name := Token.value_of_lexeme hn
  simp only [Assembly.parameter, ParameterTree.entry, hname, htype]

theorem derived_items {p : Parameter} {ps : List Parameter} (hp : p.expressible)
    (hps : ∀ q ∈ ps, q.expressible)
    (hts : ts.map Token.lexeme = commas ((p :: ps).map lexemes)) :
    ∃ tree : ParameterItems, tree.tokens = ts ∧
      tree.entries.map Assembly.parameter = p :: ps := by
  induction ps generalizing p ts with
  | nil =>
    obtain ⟨tree, rfl, rfl⟩ := derived hp hts
    exact ⟨.last tree, rfl, rfl⟩
  | cons q qs ih =>
    obtain ⟨us, c, vs, rfl, hus, hc, hvs⟩ := Token.exists_around hts
    obtain ⟨tree, rfl, rfl⟩ := derived hp hus
    obtain ⟨rest, rfl, hrest⟩ := ih (hps q (by simp)) (fun r hr => hps r (by simp [hr])) hvs
    exact ⟨.more tree (.ofLexeme hc) rest, rfl, by simp [ParameterItems.entries, hrest]⟩

theorem derived_all {ps : List Parameter} (h : ∀ p ∈ ps, p.expressible)
    (hts : ts.map Token.lexeme = commas (ps.map lexemes)) :
    ∃ tree : ParametersTree, tree.tokens = ts ∧ tree.entries.map Assembly.parameter = ps := by
  cases ps with
  | nil =>
    obtain rfl := List.map_eq_nil_iff.1 hts
    exact ⟨.none, rfl, rfl⟩
  | cons p ps =>
    obtain ⟨tree, ht, hm⟩ := derived_items (h p (by simp)) (fun q hq => h q (by simp [hq])) hts
    exact ⟨.some tree, ht, hm⟩

end Parameter

theorem Function.derived {f : Function} {ts : List Token} (h : f.expressible)
    (hts : ts.map Token.lexeme = f.lexemes) :
    ∃ tree : FunctionTree, tree.tokens = ts ∧ ∀ d k, (tree.meaning d k).bare = f.bare := by
  simp only [Function.expressible, Bool.and_eq_true, List.all_eq_true] at h
  obtain ⟨⟨⟨-, hparameters⟩, hresult⟩, hbody⟩ := h
  obtain ⟨w, ts, rfl, hw, hts⟩ := Token.exists_first hts
  obtain ⟨n, ts, rfl, hn, hts⟩ := Token.exists_first hts
  obtain ⟨o, ts, rfl, ho, hts⟩ := Token.exists_first hts
  obtain ⟨us, c, vs, rfl, hus, hc, hvs⟩ := Token.exists_around hts
  obtain ⟨vs, ws, rfl, hvs, hws⟩ := List.map_eq_append_iff.1 hvs
  obtain ⟨parameters, rfl, hps⟩ := Parameter.derived_all hparameters hus
  obtain ⟨result, rfl, hr⟩ := DataType.derived_after hresult hvs
  obtain ⟨body, rfl, hb⟩ := Block.derived f.body hbody hws
  refine ⟨⟨.ofLexeme hw, .ofLexeme hn, .ofLexeme ho, parameters, .ofLexeme hc, result, body⟩, rfl,
    fun d k => ?_⟩
  have hname : (Leaf.ofLexeme hn).token.value = f.name := Token.value_of_lexeme hn
  simp only [FunctionTree.meaning, Function.bare, hname, hps, hr, hb]

theorem ItemTree.derived {ss : List Stmt} {fs : List Function} {ts : List Token}
    (hs : Stmt.expressibleAll ss) (hf : ∀ f ∈ fs, f.expressible)
    (hts : ts.map Token.lexeme = Stmt.lexemesAll ss ++ fs.flatMap Function.lexemes) :
    ∃ items : List ItemTree, items.flatMap ItemTree.tokens = ts ∧ ∀ d k,
      Stmt.bareAll (ItemTree.statements items d k) = Stmt.bareAll ss ∧
        (ItemTree.functions items d k).map Function.bare = fs.map Function.bare := by
  induction ss generalizing ts with
  | nil =>
    induction fs generalizing ts with
    | nil =>
      obtain rfl := List.map_eq_nil_iff.1 hts
      exact ⟨[], rfl, fun _ _ => ⟨rfl, rfl⟩⟩
    | cons f fs ih =>
      rw [Stmt.lexemesAll, List.nil_append] at hts
      obtain ⟨us, vs, rfl, hus, hvs⟩ := List.map_eq_append_iff.1 hts
      obtain ⟨tree, rfl, hm⟩ := Function.derived (hf f (by simp)) hus
      obtain ⟨items, rfl, hitems⟩ := ih (fun g hg => hf g (by simp [hg])) hvs
      refine ⟨.function tree :: items, rfl, fun d k => ?_⟩
      have hrest := hitems d (k + tree.scopes)
      exact ⟨hrest.1, by simp only [functions, List.map_cons, hm, hrest.2]⟩
  | cons s ss ih =>
    simp only [Stmt.expressibleAll, Bool.and_eq_true] at hs
    rw [Stmt.lexemesAll, List.append_assoc] at hts
    obtain ⟨us, vs, rfl, hus, hvs⟩ := List.map_eq_append_iff.1 hts
    obtain ⟨tree, rfl, hm⟩ := Stmt.derived s hs.1 hus
    obtain ⟨items, rfl, hitems⟩ := ih hs.2 hvs
    refine ⟨.statement tree :: items, rfl, fun d k => ?_⟩
    have hrest := hitems d (k + tree.scopes)
    exact ⟨by simp only [statements, Stmt.bareAll, hm, hrest.1], hrest.2⟩

theorem Program.derived {p : Program} {ts : List Token} (h : p.expressible)
    (hts : ts.map Token.lexeme = p.lexemes) :
    ∃ tree : ProgramTree, tree.tokens = ts ∧ tree.meaning.bare = p.bare := by
  simp only [Program.expressible, Bool.and_eq_true, List.all_eq_true] at h
  obtain ⟨items, rfl, hitems⟩ := ItemTree.derived h.1 h.2 hts
  refine ⟨⟨items⟩, rfl, ?_⟩
  obtain ⟨hs, hf⟩ := hitems 1 0
  simp only [ProgramTree.meaning, Program.bare, hs, hf]

end TinyScript
