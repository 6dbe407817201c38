import TinyScript.Proofs.Derivation.UniqueExpr

/-! Programs have unique derivations, so a list of tokens is derived in one way at most. -/

namespace TinyScript

namespace Word

theorem text_eq {text other : String} {word : Word text} {word' : Word other}
    (h : word.token = word'.token) : text = other :=
  word.isText.symm.trans ((congrArg Token.value h).trans word'.isText)

end Word

theorem Primitive.eq_of_name_eq {p q : Primitive} (h : p.name = q.name) : p = q := by
  cases p <;> cases q <;> first | rfl | exact absurd h (by decide)

theorem Container.eq_of_name_eq {c d : Container} (h : c.name = d.name) : c = d := by
  cases c <;> cases d <;> first | rfl | exact absurd h (by decide)

theorem Container.name_ne_primitive (c : Container) (p : Primitive) : c.name ≠ p.name := by
  cases c <;> cases p <;> decide

theorem TypeTree.determined (t : TypeTree) {t' : TypeTree} {rest rest' : List Token}
    (he : t.tokens ++ rest = t'.tokens ++ rest') : t = t' ∧ rest = rest' := by
  induction t generalizing t' rest rest' with
  | primitive p name =>
    cases t' with
    | primitive p' name' =>
      obtain ⟨hn, hr⟩ := List.cons.inj he
      obtain rfl := Primitive.eq_of_name_eq (Word.text_eq hn)
      exact ⟨by rw [Word.ext hn], hr⟩
    | collection c' name' =>
      exact absurd (Word.text_eq (List.cons.inj he).1).symm (c'.name_ne_primitive p)
  | collection c name opening element closing ih =>
    cases t' with
    | primitive p' name' =>
      exact absurd (Word.text_eq (List.cons.inj he).1) (c.name_ne_primitive p')
    | collection c' name' opening' element' closing' =>
      simp only [tokens, List.cons_append, List.append_assoc, List.cons.injEq] at he
      obtain ⟨hn, ho, he⟩ := he
      obtain ⟨rfl, hc⟩ := ih he
      obtain ⟨hc, hr⟩ := List.cons.inj hc
      obtain rfl := Container.eq_of_name_eq (Word.text_eq hn)
      exact ⟨by rw [Word.ext hn, Leaf.ext ho, Leaf.ext hc], hr⟩

def StmtPart.Follows : StmtPart → List Token → Prop
  | .statement, rest => ∀ t ∈ rest.head?, t.kind ≠ .elseWord
  | .block, _ => True
  | .body, rest => ∀ t ∈ rest.head?, t.kind = .closeCurly

namespace StmtTree

def lead : StmtTree .statement → TokenKind
  | assign .. => .identifier
  | ifThen .. => .ifWord
  | ifElse .. => .ifWord
  | loop .. => .whileWord
  | ret .. => .returnWord
  | brk .. => .breakWord
  | cont .. => .continueWord
  | test .. => .testWord

theorem tokens_lead (s : StmtTree .statement) :
    ∃ t ts, s.tokens = t :: ts ∧ t.kind = s.lead := by
  cases s <;> exact ⟨_, _, rfl, Leaf.kind_eq _⟩

theorem tokens_ne_nil (s : StmtTree .statement) : s.tokens ≠ [] := by
  obtain ⟨t, ts, ht, -⟩ := s.tokens_lead
  simp [ht]

theorem lead_eq {s s' : StmtTree .statement} {rest rest' : List Token}
    (he : s.tokens ++ rest = s'.tokens ++ rest') : s.lead = s'.lead := by
  obtain ⟨t, ts, ht, hk⟩ := s.tokens_lead
  obtain ⟨t', ts', ht', hk'⟩ := s'.tokens_lead
  rw [ht, ht'] at he
  rw [← hk, ← hk', (List.cons.inj he).1]

def leads : List TokenKind :=
  [.identifier, .ifWord, .whileWord, .returnWord, .breakWord, .continueWord, .testWord]

theorem lead_mem (s : StmtTree .statement) : s.lead ∈ leads := by
  cases s <;> simp [lead, leads]

def Determined {p : StmtPart} (s : StmtTree p) : Prop :=
  ∀ ⦃s' : StmtTree p⦄ ⦃rest rest' : List Token⦄, p.Follows rest → p.Follows rest' →
    s.tokens ++ rest = s'.tokens ++ rest' → s = s' ∧ rest = rest'

theorem determined_assign (name : Leaf [.identifier]) (mark : Leaf [.assignment])
    (value : FullExpr) (stop : Leaf [.semicolon]) : Determined (.assign name mark value stop) := by
  intro s' rest rest' _ _ he
  have hl := lead_eq he
  cases s' with
  | assign name' mark' value' stop' =>
    simp only [tokens, List.cons_append, List.append_assoc, List.nil_append,
      List.cons.injEq] at he
    obtain ⟨hn, hm, he⟩ := he
    obtain ⟨rfl, rfl, hr⟩ := ExprTree.determined_before (by decide) he
    exact ⟨by rw [Leaf.ext hn, Leaf.ext hm], hr⟩
  | _ => cases hl

theorem determined_ifThen (word : Leaf [.ifWord]) (opening : Leaf [.openParen])
    (condition : FullExpr) (closing : Leaf [.closeParen]) {yes : StmtTree .block}
    (ih : Determined yes) : Determined (.ifThen word opening condition closing yes) := by
  intro s' rest rest' h _ he
  have hl := lead_eq he
  cases s' with
  | ifThen word' opening' condition' closing' yes' =>
    simp only [tokens, List.cons_append, List.append_assoc, List.cons.injEq] at he
    obtain ⟨hw, ho, he⟩ := he
    obtain ⟨rfl, rfl, hb⟩ := ExprTree.determined_before (by decide) he
    obtain ⟨rfl, hr⟩ := ih trivial trivial hb
    exact ⟨by rw [Leaf.ext hw, Leaf.ext ho], hr⟩
  | ifElse word' opening' condition' closing' yes' otherwise no =>
    simp only [tokens, List.cons_append, List.append_assoc, List.cons.injEq] at he
    obtain ⟨rfl, rfl, hb⟩ := ExprTree.determined_before (by decide) he.2.2
    obtain ⟨rfl, hr⟩ := ih trivial trivial hb
    exact absurd otherwise.kind_eq (h otherwise.token (by rw [hr]; rfl))
  | _ => cases hl

theorem determined_ifElse (word : Leaf [.ifWord]) (opening : Leaf [.openParen])
    (condition : FullExpr) (closing : Leaf [.closeParen]) {yes no : StmtTree .block}
    (otherwise : Leaf [.elseWord]) (ihy : Determined yes) (ihn : Determined no) :
    Determined (.ifElse word opening condition closing yes otherwise no) := by
  intro s' rest rest' _ h' he
  have hl := lead_eq he
  cases s' with
  | ifThen word' opening' condition' closing' yes' =>
    simp only [tokens, List.cons_append, List.append_assoc, List.cons.injEq] at he
    obtain ⟨rfl, rfl, hb⟩ := ExprTree.determined_before (by decide) he.2.2
    obtain ⟨rfl, hr⟩ := ihy trivial trivial hb
    exact absurd otherwise.kind_eq (h' otherwise.token (by rw [← hr]; rfl))
  | ifElse word' opening' condition' closing' yes' otherwise' no' =>
    simp only [tokens, List.cons_append, List.append_assoc, List.cons.injEq] at he
    obtain ⟨hw, ho, he⟩ := he
    obtain ⟨rfl, rfl, hb⟩ := ExprTree.determined_before (by decide) he
    obtain ⟨rfl, ho'⟩ := ihy trivial trivial hb
    obtain ⟨hw', hn⟩ := List.cons.inj ho'
    obtain ⟨rfl, hr⟩ := ihn trivial trivial hn
    exact ⟨by rw [Leaf.ext hw, Leaf.ext ho, Leaf.ext hw'], hr⟩
  | _ => cases hl

theorem determined_loop (word : Leaf [.whileWord]) (opening : Leaf [.openParen])
    (guard : FullExpr) (closing : Leaf [.closeParen]) {body : StmtTree .block}
    (ih : Determined body) : Determined (.loop word opening guard closing body) := by
  intro s' rest rest' _ _ he
  have hl := lead_eq he
  cases s' with
  | loop word' opening' guard' closing' body' =>
    simp only [tokens, List.cons_append, List.append_assoc, List.cons.injEq] at he
    obtain ⟨hw, ho, he⟩ := he
    obtain ⟨rfl, rfl, hb⟩ := ExprTree.determined_before (by decide) he
    obtain ⟨rfl, hr⟩ := ih trivial trivial hb
    exact ⟨by rw [Leaf.ext hw, Leaf.ext ho], hr⟩
  | _ => cases hl

theorem determined_ret (word : Leaf [.returnWord]) (value : FullExpr)
    (stop : Leaf [.semicolon]) : Determined (.ret word value stop) := by
  intro s' rest rest' _ _ he
  have hl := lead_eq he
  cases s' with
  | ret word' value' stop' =>
    simp only [tokens, List.cons_append, List.append_assoc, List.nil_append,
      List.cons.injEq] at he
    obtain ⟨rfl, rfl, hr⟩ := ExprTree.determined_before (by decide) he.2
    exact ⟨by rw [Leaf.ext he.1], hr⟩
  | _ => cases hl

theorem determined_brk (word : Leaf [.breakWord]) (stop : Leaf [.semicolon]) :
    Determined (.brk word stop) := by
  intro s' rest rest' _ _ he
  have hl := lead_eq he
  cases s' with
  | brk word' stop' =>
    simp only [tokens, List.cons_append, List.nil_append, List.cons.injEq] at he
    exact ⟨by rw [Leaf.ext he.1, Leaf.ext he.2.1], he.2.2⟩
  | _ => cases hl

theorem determined_cont (word : Leaf [.continueWord]) (stop : Leaf [.semicolon]) :
    Determined (.cont word stop) := by
  intro s' rest rest' _ _ he
  have hl := lead_eq he
  cases s' with
  | cont word' stop' =>
    simp only [tokens, List.cons_append, List.nil_append, List.cons.injEq] at he
    exact ⟨by rw [Leaf.ext he.1, Leaf.ext he.2.1], he.2.2⟩
  | _ => cases hl

theorem determined_test (word : Leaf [.testWord]) (call : ExprTree .call) (mark : Leaf [.equals])
    (expected : FullExpr) (stop : Leaf [.semicolon]) :
    Determined (.test word call mark expected stop) := by
  intro s' rest rest' _ _ he
  have hl := lead_eq he
  cases s' with
  | test word' call' mark' expected' stop' =>
    simp only [tokens, List.cons_append, List.append_assoc, List.nil_append,
      List.cons.injEq] at he
    obtain ⟨hw, hc⟩ := he
    obtain ⟨rfl, hm'⟩ := call.determined trivial trivial hc
    obtain ⟨hm, hx⟩ := List.cons.inj hm'
    obtain ⟨rfl, rfl, hr⟩ := ExprTree.determined_before (by decide) hx
    exact ⟨by rw [Leaf.ext hw, Leaf.ext hm], hr⟩
  | _ => cases hl

theorem determined_braces (opening : Leaf [.openCurly]) {body : StmtTree .body}
    (closing : Leaf [.closeCurly]) (ih : Determined body) :
    Determined (.braces opening body closing) := by
  intro s' rest rest' _ _ he
  cases s' with
  | braces opening' body' closing' =>
    simp only [tokens, List.cons_append, List.append_assoc, List.nil_append,
      List.cons.injEq] at he
    obtain ⟨rfl, hc⟩ := ih (by rintro t ⟨⟩; exact closing.kind_eq)
      (by rintro t ⟨⟩; exact closing'.kind_eq) he.2
    obtain ⟨hc, hr⟩ := List.cons.inj hc
    exact ⟨by rw [Leaf.ext he.1, Leaf.ext hc], hr⟩

theorem closing_ne_head (s : StmtTree .statement) {rest rest' : List Token}
    (h : StmtPart.body.Follows rest) : rest ≠ s.tokens ++ rest' := by
  intro he
  obtain ⟨t, ts, ht, hk⟩ := s.tokens_lead
  rw [ht] at he
  have hm := s.lead_mem
  rw [← hk, h t (by rw [he]; rfl)] at hm
  exact absurd hm (by decide)

theorem follows_body (b : StmtTree .body) {rest : List Token} (h : StmtPart.body.Follows rest) :
    StmtPart.statement.Follows (b.tokens ++ rest) := by
  intro t ht
  cases b with
  | nil =>
    rw [h t ht]
    decide
  | cons first more =>
    obtain ⟨u, us, hu, hk⟩ := first.tokens_lead
    have hm := first.lead_mem
    simp only [tokens, hu, List.cons_append, List.head?_cons, Option.mem_some_iff] at ht
    rw [← hk, ht] at hm
    intro he
    rw [he] at hm
    exact absurd hm (by decide)

theorem determined_nil : Determined .nil := by
  intro s' rest rest' h _ he
  cases s' with
  | nil => exact ⟨rfl, he⟩
  | cons first more =>
    simp only [tokens, List.nil_append, List.append_assoc] at he
    exact absurd he (closing_ne_head first h)

theorem determined_cons {first : StmtTree .statement} {more : StmtTree .body}
    (ihf : Determined first) (ihm : Determined more) : Determined (.cons first more) := by
  intro s' rest rest' h h' he
  cases s' with
  | nil =>
    simp only [tokens, List.nil_append, List.append_assoc] at he
    exact absurd he.symm (closing_ne_head first h')
  | cons first' more' =>
    simp only [tokens, List.append_assoc] at he
    obtain ⟨rfl, hb⟩ := ihf (follows_body more h) (follows_body more' h') he
    obtain ⟨rfl, hr⟩ := ihm h h' hb
    exact ⟨rfl, hr⟩

theorem determined {p : StmtPart} (s : StmtTree p) : Determined s := by
  induction s with
  | assign name mark value stop => exact determined_assign name mark value stop
  | ifThen word opening condition closing _ ih =>
    exact determined_ifThen word opening condition closing ih
  | ifElse word opening condition closing _ otherwise _ ihy ihn =>
    exact determined_ifElse word opening condition closing otherwise ihy ihn
  | loop word opening guard closing _ ih => exact determined_loop word opening guard closing ih
  | ret word value stop => exact determined_ret word value stop
  | brk word stop => exact determined_brk word stop
  | cont word stop => exact determined_cont word stop
  | test word call mark expected stop => exact determined_test word call mark expected stop
  | braces opening _ closing ih => exact determined_braces opening closing ih
  | nil => exact determined_nil
  | cons _ _ ihf ihm => exact determined_cons ihf ihm

end StmtTree

theorem AnnotationTree.determined {mark : TokenKind} (a : AnnotationTree mark)
    {a' : AnnotationTree mark} {rest rest' : List Token} (h : ∀ t ∈ rest.head?, t.kind ≠ mark)
    (h' : ∀ t ∈ rest'.head?, t.kind ≠ mark) (he : a.tokens ++ rest = a'.tokens ++ rest') :
    a = a' ∧ rest = rest' := by
  cases a with
  | none =>
    cases a' with
    | none => exact ⟨rfl, he⟩
    | some mark type =>
      have hr : rest = mark.token :: _ := he
      exact absurd mark.kind_eq (h mark.token (by rw [hr]; rfl))
  | some mark type =>
    cases a' with
    | none =>
      have hr : rest' = mark.token :: _ := he.symm
      exact absurd mark.kind_eq (h' mark.token (by rw [hr]; rfl))
    | some mark' type' =>
      obtain ⟨hm, ht⟩ := List.cons.inj he
      obtain ⟨rfl, hr⟩ := type.determined ht
      exact ⟨by rw [Leaf.ext hm], hr⟩

theorem ParameterTree.determined (p : ParameterTree) {p' : ParameterTree}
    {rest rest' : List Token} (h : ∀ t ∈ rest.head?, t.kind ≠ .colon)
    (h' : ∀ t ∈ rest'.head?, t.kind ≠ .colon) (he : p.tokens ++ rest = p'.tokens ++ rest') :
    p = p' ∧ rest = rest' := by
  obtain ⟨name, type⟩ := p
  obtain ⟨name', type'⟩ := p'
  obtain ⟨hn, ht⟩ := List.cons.inj he
  obtain rfl : name = name' := Leaf.ext hn
  obtain ⟨rfl, hr⟩ := type.determined h h' ht
  exact ⟨rfl, hr⟩

theorem ParameterItems.determined (ps : ParameterItems) {ps' : ParameterItems}
    {closing closing' : Leaf [.closeParen]} {rest rest' : List Token}
    (he : ps.tokens ++ closing.token :: rest = ps'.tokens ++ closing'.token :: rest') :
    ps = ps' ∧ closing = closing' ∧ rest = rest' := by
  have noColon {k : TokenKind} (leaf : Leaf [k]) (hk : k ≠ .colon) (rest : List Token) :
      ∀ t ∈ (leaf.token :: rest).head?, t.kind ≠ .colon := by
    rintro t ⟨⟩
    rwa [leaf.kind_eq]
  induction ps generalizing ps' with
  | last item =>
    cases ps' with
    | last item' =>
      obtain ⟨rfl, hc⟩ := item.determined (noColon closing (by decide) _)
        (noColon closing' (by decide) _) he
      obtain ⟨hc, hr⟩ := List.cons.inj hc
      exact ⟨rfl, Leaf.ext hc, hr⟩
    | more item' comma rest =>
      simp only [tokens, List.append_assoc, List.cons_append] at he
      obtain ⟨_, hc⟩ := item.determined (noColon closing (by decide) _)
        (noColon comma (by decide) _) he
      exact absurd (List.cons.inj hc).1 (closing.token_ne comma (by decide))
  | more item comma more ih =>
    cases ps' with
    | last item' =>
      simp only [tokens, List.append_assoc, List.cons_append] at he
      obtain ⟨_, hc⟩ := item.determined (noColon comma (by decide) _)
        (noColon closing' (by decide) _) he
      exact absurd (List.cons.inj hc).1 (comma.token_ne closing' (by decide))
    | more item' comma' more' =>
      simp only [tokens, List.append_assoc, List.cons_append] at he
      obtain ⟨rfl, hm⟩ := item.determined (noColon comma (by decide) _)
        (noColon comma' (by decide) _) he
      obtain ⟨hc, hm⟩ := List.cons.inj hm
      obtain ⟨rfl, rfl, hr⟩ := ih hm
      exact ⟨by rw [Leaf.ext hc], rfl, hr⟩

theorem ParameterItems.tokens_head (ps : ParameterItems) :
    ∃ t ts, ps.tokens = t :: ts ∧ t.kind = .identifier := by
  cases ps with
  | last item => exact ⟨item.name.token, _, rfl, item.name.kind_eq⟩
  | more item comma rest => exact ⟨item.name.token, _, rfl, item.name.kind_eq⟩

theorem ParameterItems.closing_ne_head (ps : ParameterItems) (closing : Leaf [.closeParen])
    {rest rest' : List Token} : closing.token :: rest ≠ ps.tokens ++ rest' := by
  intro he
  obtain ⟨t, ts, ht, hk⟩ := ps.tokens_head
  rw [ht] at he
  have hc := closing.kind_eq
  rw [(List.cons.inj he).1, hk] at hc
  cases hc

theorem ParametersTree.determined (ps : ParametersTree) {ps' : ParametersTree}
    {closing closing' : Leaf [.closeParen]} {rest rest' : List Token}
    (he : ps.tokens ++ closing.token :: rest = ps'.tokens ++ closing'.token :: rest') :
    ps = ps' ∧ closing = closing' ∧ rest = rest' := by
  cases ps with
  | none =>
    cases ps' with
    | none =>
      obtain ⟨hc, hr⟩ := List.cons.inj he
      exact ⟨rfl, Leaf.ext hc, hr⟩
    | some items => exact absurd he (items.closing_ne_head closing)
  | some items =>
    cases ps' with
    | none => exact absurd he.symm (items.closing_ne_head closing')
    | some items' =>
      obtain ⟨rfl, hc, hr⟩ := items.determined he
      exact ⟨rfl, hc, hr⟩

theorem StmtTree.noArrow (b : StmtTree .block) (rest : List Token) :
    ∀ t ∈ (b.tokens ++ rest).head?, t.kind ≠ .arrow := by
  cases b with
  | braces opening _ _ =>
    rintro t ⟨⟩
    exact opening.kind_ne (by decide)

theorem FunctionTree.determined (f : FunctionTree) {f' : FunctionTree} {rest rest' : List Token}
    (he : f.tokens ++ rest = f'.tokens ++ rest') : f = f' ∧ rest = rest' := by
  obtain ⟨word, name, opening, parameters, closing, result, body⟩ := f
  obtain ⟨word', name', opening', parameters', closing', result', body'⟩ := f'
  simp only [tokens, List.cons_append, List.append_assoc, List.cons.injEq] at he
  obtain ⟨hw, hn, ho, hp⟩ := he
  obtain ⟨rfl, rfl, ha⟩ := parameters.determined hp
  obtain ⟨rfl, hb⟩ := result.determined (body.noArrow rest) (body'.noArrow rest') ha
  obtain ⟨rfl, hr⟩ := body.determined trivial trivial hb
  exact ⟨by rw [Leaf.ext hw, Leaf.ext hn, Leaf.ext ho], hr⟩

theorem ItemTree.tokens_head (i : ItemTree) :
    ∃ t ts, i.tokens = t :: ts ∧ t.kind ∈ TokenKind.defWord :: StmtTree.leads := by
  cases i with
  | statement s =>
    obtain ⟨t, ts, ht, hk⟩ := s.tokens_lead
    exact ⟨t, ts, ht, List.mem_cons_of_mem _ (hk ▸ s.lead_mem)⟩
  | function f => exact ⟨f.word.token, _, rfl, by rw [f.word.kind_eq]; exact List.mem_cons_self⟩

theorem ItemTree.determined (i : ItemTree) {i' : ItemTree} {rest rest' : List Token}
    (h : StmtPart.statement.Follows rest) (h' : StmtPart.statement.Follows rest')
    (he : i.tokens ++ rest = i'.tokens ++ rest') : i = i' ∧ rest = rest' := by
  have noDef (s : StmtTree .statement) (f : FunctionTree) (rest rest' : List Token) :
      s.tokens ++ rest ≠ f.tokens ++ rest' := by
    intro he
    obtain ⟨t, ts, ht, hk⟩ := s.tokens_lead
    rw [ht] at he
    have hm := s.lead_mem
    rw [← hk, (List.cons.inj he).1, f.word.kind_eq] at hm
    exact absurd hm (by decide)
  cases i with
  | statement s =>
    cases i' with
    | statement s' =>
      obtain ⟨rfl, hr⟩ := s.determined h h' he
      exact ⟨rfl, hr⟩
    | function f => exact absurd he (noDef s f rest rest')
  | function f =>
    cases i' with
    | statement s => exact absurd he.symm (noDef s f rest' rest)
    | function f' =>
      obtain ⟨rfl, hr⟩ := f.determined he
      exact ⟨rfl, hr⟩

theorem ItemTree.follows_items (items : List ItemTree) :
    StmtPart.statement.Follows (items.flatMap tokens) := by
  intro t ht he
  cases items with
  | nil => cases ht
  | cons i items =>
    obtain ⟨u, us, hu, hk⟩ := i.tokens_head
    simp only [List.flatMap_cons, hu, List.cons_append, List.head?_cons,
      Option.mem_some_iff] at ht
    rw [ht, he] at hk
    exact absurd hk (by decide)

theorem ProgramTree.tokens_injective : Function.Injective ProgramTree.tokens := by
  rintro ⟨items⟩ ⟨items'⟩ he
  simp only [tokens] at he
  congr
  induction items generalizing items' with
  | nil =>
    cases items' with
    | nil => rfl
    | cons i items' =>
      obtain ⟨t, ts, ht, _⟩ := i.tokens_head
      simp [ht] at he
  | cons i items ih =>
    cases items' with
    | nil =>
      obtain ⟨t, ts, ht, _⟩ := i.tokens_head
      simp [ht] at he
    | cons i' items' =>
      obtain ⟨rfl, hr⟩ := i.determined (ItemTree.follows_items items)
        (ItemTree.follows_items items') (by simpa only [List.flatMap_cons] using he)
      rw [ih items' hr]

end TinyScript
