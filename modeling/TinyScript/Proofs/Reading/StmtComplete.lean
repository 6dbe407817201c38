import TinyScript.Proofs.Reading.ExprComplete

/-! Whatever has a derivation as a statement, a function or a program is read as that derivation. -/

namespace TinyScript

open Reader

namespace TypeTree

theorem typeWithin_takes (t : TypeTree) {n : Nat} {r : Reader} {rest : List Token} {i d : Nat}
    (s : Stands r (t.tokens ++ rest) i d) (hn : r.upcoming.length < n) :
    Leads (typeWithin .standard n) r (fun type r' => type = t.type ∧ Passed r r' t.tokens [] 0)
      fun _ _ => False := by
  induction t generalizing n r rest with
  | primitive p name =>
    cases n with
    | zero => exact absurd hn (Nat.not_lt_zero _)
    | succ n =>
      let leaf : Leaf [.identifier] := ⟨name.token, by simp [name.isName]⟩
      have s : Stands r (leaf.token :: rest) i d := s
      refine leads_peek ?_
      rw [s.current_eq, leaf.kind_eq]
      refine Leads.bind (leads_takeOr (.refl r) s (by decide) fun r₁ p₁ _ => ?_)
      rw [show leaf.token.value = p.name from name.isText, p.ofName?_name]
      exact Leads.pure ⟨rfl, p₁⟩
  | collection c name opening element closing ih =>
    cases n with
    | zero => exact absurd hn (Nat.not_lt_zero _)
    | succ n =>
      let leaf : Leaf [.identifier] := ⟨name.token, by simp [name.isName]⟩
      have s : Stands r (leaf.token :: opening.token :: (element.tokens ++ closing.token :: rest))
          i d := by simpa [tokens] using s
      refine leads_peek ?_
      rw [s.current_eq, leaf.kind_eq]
      refine Leads.bind (leads_takeOr (.refl r) s (by decide) fun r₁ p₁ s₁ => ?_)
      rw [show leaf.token.value = c.name from name.isText, c.not_primitive, c.ofName?_name]
      refine Leads.bind (leads_takeOr p₁ s₁ (by decide) fun r₂ p₂ s₂ => ?_)
      have hlen := p₂.length_upcoming
      simp only [List.length_append, List.length_singleton] at hlen
      refine Leads.bind ((ih s₂ (by omega)).mono ?_ fun _ _ => False.elim)
      rintro _ r₃ ⟨rfl, q⟩
      refine Leads.bind (leads_takeOr (p₂.trans q) (s₂.after q) (by decide) fun r₄ p₄ _ => ?_)
      rw [c.ofFamily?_family]
      exact Leads.pure ⟨rfl, by simpa [tokens, leaf] using p₄⟩

end TypeTree

theorem AnnotationTree.leads {mark : TokenKind} (a : AnnotationTree mark) {r₀ r : Reader}
    {ts us : List Token} {es : List Event} {n i d : Nat} {ok : Option DataType → Reader → Prop}
    {bad : Error → Reader → Prop} (hk : mark ≠ .eof) (p : Passed r₀ r ts es n)
    (s : Stands r (a.tokens ++ us) i d) (hf : ∀ t ∈ us.head?, t.kind ≠ mark)
    (hok : ∀ r', Passed r₀ r' (ts ++ a.tokens) es n → Stands r' us i d → ok a.type? r') :
    Leads (typeAfter .standard mark) r ok bad := by
  cases a with
  | none =>
    refine leads_peek ?_
    rw [if_neg (hf _ s.current_mem_head)]
    exact Leads.pure (hok r (by simpa [tokens] using p) s)
  | some leaf type =>
    refine leads_peek ?_
    rw [s.current_eq, if_pos leaf.kind_eq]
    refine Leads.bind (leads_take p s (by simpa using hk.symm) fun r₁ p₁ s₁ => ?_)
    refine Leads.bind (Leads.bind (Leads.of_ok (outcome_get r₁) ?_))
    refine (type.typeWithin_takes s₁ (Nat.lt_succ_self _)).mono ?_ fun _ _ => False.elim
    rintro _ r₂ ⟨rfl, q⟩
    exact Leads.pure (hok r₂ (by simpa [tokens] using p₁.trans q) (s₁.after q))

namespace StmtTree

def Complete : {p : StmtPart} → StmtTree p → Prop
  | .statement, s => ∀ ⦃n : Nat⦄ ⦃r : Reader⦄ ⦃rest : List Token⦄ ⦃i d : Nat⦄,
      StmtPart.statement.Follows rest → Stands r (s.tokens ++ rest) i d →
      (Goal.rule .statement).cost r < n →
      (Goal.rule .statement).Takes n r ⟨s.tokens, s.events i (d + 1), s.count, s.root i⟩
  | .block, b => ∀ ⦃n : Nat⦄ ⦃r : Reader⦄ ⦃rest : List Token⦄ ⦃i d : Nat⦄,
      Stands r (b.tokens ++ rest) i d → (Goal.rule .block).cost r < n →
      (Goal.rule .block).Takes n r ⟨b.tokens, b.events i (d + 1), b.count, i⟩
  | .body, b => ∀ ⦃block : Serial⦄ ⦃n : Nat⦄ ⦃r : Reader⦄ ⦃rest : List Token⦄ ⦃i d : Nat⦄
      (closing : Leaf [.closeCurly]), Stands r (b.tokens ++ closing.token :: rest) i d →
      (Goal.statements block).cost r < n →
      (Goal.statements block).Takes n r
        ⟨b.tokens ++ [closing.token], b.events i (d + 1) ++ [⟨block, d, .exitBlock⟩], b.count,
          block⟩

theorem complete_of_takes {s : StmtTree .statement} {rule : Rule}
    (hrule : Grammar.standard.statement? s.lead = some rule)
    (h : ∀ ⦃n : Nat⦄ ⦃r : Reader⦄ ⦃rest : List Token⦄ ⦃i d : Nat⦄,
      StmtPart.statement.Follows rest → Stands r (s.tokens ++ rest) i d →
      (Goal.rule rule).cost r < n + 1 →
      (Goal.rule rule).Takes (n + 1) r ⟨s.tokens, s.events i d, s.count, s.root i⟩) :
    Complete s := by
  intro n r rest i d hf st hn
  obtain ⟨t, ts, ht, hk⟩ := s.tokens_lead
  have hcur : r.current = t := by
    rw [ht] at st
    exact st.current_eq
  have hw := (Goal.of_statement hrule).1
  cases n with
  | zero => exact absurd hn (Nat.not_lt_zero _)
  | succ n =>
    have hn : (Goal.rule rule).cost r < n :=
      Goal.cost_lt (.rule .statement) (.refl r) (.inr (by rw [hw]; exact Nat.zero_lt_one)) hn
    refine leads_peek ?_
    rw [hcur, hk, hrule]
    refine leads_nested ?_
    cases n with
    | zero => exact absurd hn (Nat.not_lt_zero _)
    | succ n =>
      refine (h hf st.deeper hn).mono ?_ fun _ _ => id
      rintro _ r' ⟨rfl, p⟩
      exact ⟨rfl, p.shallower⟩

theorem leads_expression (goal : Goal) (e : FullExpr) {kinds : List TokenKind} {leaf : Leaf kinds}
    {r₀ r : Reader} {ts us : List Token} {es : List Event} {n m i d : Nat}
    {ok : Serial → Reader → Prop} {bad : Error → Reader → Prop}
    (hk : ∀ k ∈ kinds, k ≠ .openParen ∧ k.joinRank = 0) (hts : ts ≠ [])
    (hn : goal.cost r₀ < m + 1) (p : Passed r₀ r ts es n)
    (s : Stands r (e.tokens ++ leaf.token :: us) i d)
    (hok : ∀ r', Passed r₀ r' (ts ++ e.tokens) (es ++ e.fullEvents i d) (n + (e.count + 1)) →
      Stands r' (leaf.token :: us) (i + (e.count + 1)) d → ok (i + e.count) r') :
    Leads (within .standard m (.rule .fullExpr)) r ok bad :=
  leads_within p s (e.complete.fullExpr (ExprTree.follows_leaf leaf us hk) s
    (goal.cost_lt p (.inl hts) hn)) hok

theorem complete_assign (name : Leaf [.identifier]) (mark : Leaf [.assignment]) (value : FullExpr)
    (stop : Leaf [.semicolon]) : Complete (.assign name mark value stop) := by
  refine complete_of_takes rfl fun n r rest i d hf s hn => ?_
  have s : Stands r (name.token :: mark.token :: (value.tokens ++ stop.token :: rest)) i d := by
    simpa [tokens] using s
  refine Leads.bind (leads_takeOr (.refl r) s (by decide) fun r₁ p₁ s₁ => ?_)
  refine Leads.bind (leads_mark p₁ s₁ fun r₂ p₂ s₂ => ?_)
  refine Leads.bind (leads_takeOr p₂ s₂ (by decide) fun r₃ p₃ s₃ => ?_)
  refine Leads.bind (leads_expression (.rule .assignment) value (by decide) (by simp) hn p₃ s₃
    fun r₄ p₄ s₄ => ?_)
  refine Leads.bind (leads_takeOr p₄ s₄ (by decide) fun r₅ p₅ s₅ => ?_)
  refine leads_mark p₅ s₅ fun r₆ p₆ _ => ⟨?_, ?_⟩
  · simp only [root, count]
    omega
  · simpa [tokens, events, count, Nat.add_assoc] using p₆

theorem leads_condition (goal : Goal) {opening : Leaf [.openParen]} (e : FullExpr)
    {closing : Leaf [.closeParen]} {r₀ r : Reader} {ts us : List Token} {es : List Event}
    {n m i d : Nat} {ok : Serial → Reader → Prop} {bad : Error → Reader → Prop}
    (hn : goal.cost r₀ < m + 1) (p : Passed r₀ r ts es n)
    (s : Stands r (opening.token :: (e.tokens ++ closing.token :: us)) i d)
    (hok : ∀ r', Passed r₀ r' (ts ++ opening.token :: (e.tokens ++ [closing.token]))
        (es ++ e.fullEvents i d) (n + (e.count + 1)) →
      Stands r' us (i + (e.count + 1)) d → ok (i + e.count) r') :
    Leads (readCondition (within .standard m)) r ok bad := by
  refine Leads.bind (leads_takeOr p s (by decide) fun r₁ p₁ s₁ => ?_)
  refine Leads.bind (leads_expression goal e (by decide) (by simp) hn p₁ s₁ fun r₂ p₂ s₂ => ?_)
  refine Leads.bind (leads_takeOr p₂ s₂ (by decide) fun r₃ p₃ s₃ => ?_)
  exact Leads.pure (hok r₃ (by simpa using p₃) s₃)

theorem complete_ifThen (word : Leaf [.ifWord]) (opening : Leaf [.openParen])
    (condition : FullExpr) (closing : Leaf [.closeParen]) {yes : StmtTree .block}
    (ih : Complete yes) : Complete (.ifThen word opening condition closing yes) := by
  refine complete_of_takes rfl fun n r rest i d hf s hn => ?_
  have s : Stands r (word.token :: opening.token ::
      (condition.tokens ++ closing.token :: (yes.tokens ++ rest))) i d := by
    simpa [tokens] using s
  refine Leads.bind (leads_takeOr (.refl r) s (by decide) fun r₁ p₁ s₁ => ?_)
  refine Leads.bind (leads_condition (.rule .conditional) condition hn p₁ s₁ fun r₂ p₂ s₂ => ?_)
  refine Leads.bind (leads_within p₂ s₂ (ih s₂ (Goal.cost_lt (.rule .conditional) p₂
    (.inl (by simp)) hn)) fun r₃ p₃ s₃ => leads_peek ?_)
  rw [if_neg (hf _ s₃.current_mem_head)]
  refine leads_mark p₃ s₃ fun r₄ p₄ _ => ⟨?_, ?_⟩
  · simp only [root, count]
    omega
  · simpa [tokens, events, count, Nat.add_assoc] using p₄

theorem complete_ifElse (word : Leaf [.ifWord]) (opening : Leaf [.openParen])
    (condition : FullExpr) (closing : Leaf [.closeParen]) {yes : StmtTree .block}
    (otherwise : Leaf [.elseWord]) {no : StmtTree .block} (ihy : Complete yes)
    (ihn : Complete no) :
    Complete (.ifElse word opening condition closing yes otherwise no) := by
  refine complete_of_takes rfl fun n r rest i d hf s hn => ?_
  have s : Stands r (word.token :: opening.token :: (condition.tokens ++ closing.token ::
      (yes.tokens ++ otherwise.token :: (no.tokens ++ rest)))) i d := by
    simpa [tokens] using s
  refine Leads.bind (leads_takeOr (.refl r) s (by decide) fun r₁ p₁ s₁ => ?_)
  refine Leads.bind (leads_condition (.rule .conditional) condition hn p₁ s₁ fun r₂ p₂ s₂ => ?_)
  refine Leads.bind (leads_within p₂ s₂ (ihy s₂ (Goal.cost_lt (.rule .conditional) p₂
    (.inl (by simp)) hn)) fun r₃ p₃ s₃ => leads_peek ?_)
  rw [s₃.current_eq, if_pos otherwise.kind_eq]
  refine Leads.bind (leads_take p₃ s₃ (by decide) fun r₄ p₄ s₄ => ?_)
  refine Leads.bind (leads_within p₄ s₄ (ihn s₄ (Goal.cost_lt (.rule .conditional) p₄
    (.inl (by simp)) hn)) fun r₅ p₅ s₅ => ?_)
  refine leads_mark p₅ s₅ fun r₆ p₆ _ => ⟨?_, ?_⟩
  · simp only [root, count]
    omega
  · simpa [tokens, events, count, Nat.add_assoc] using p₆

theorem complete_loop (word : Leaf [.whileWord]) (opening : Leaf [.openParen]) (guard : FullExpr)
    (closing : Leaf [.closeParen]) {body : StmtTree .block} (ih : Complete body) :
    Complete (.loop word opening guard closing body) := by
  refine complete_of_takes rfl fun n r rest i d hf s hn => ?_
  have s : Stands r (word.token :: opening.token ::
      (guard.tokens ++ closing.token :: (body.tokens ++ rest))) i d := by
    simpa [tokens] using s
  refine Leads.bind (leads_takeOr (.refl r) s (by decide) fun r₁ p₁ s₁ => ?_)
  refine Leads.bind (leads_condition (.rule .loop) guard hn p₁ s₁ fun r₂ p₂ s₂ => ?_)
  refine Leads.bind (leads_within p₂ s₂ (ih s₂ (Goal.cost_lt (.rule .loop) p₂
    (.inl (by simp)) hn)) fun r₃ p₃ s₃ => ?_)
  refine leads_mark p₃ s₃ fun r₄ p₄ _ => ⟨?_, ?_⟩
  · simp only [root, count]
    omega
  · simpa [tokens, events, count, Nat.add_assoc] using p₄

theorem complete_ret (word : Leaf [.returnWord]) (value : FullExpr) (stop : Leaf [.semicolon]) :
    Complete (.ret word value stop) := by
  refine complete_of_takes rfl fun n r rest i d hf s hn => ?_
  have s : Stands r (word.token :: (value.tokens ++ stop.token :: rest)) i d := by
    simpa [tokens] using s
  obtain ⟨t, ts, ht, hk⟩ := value.tokens_head (by simp)
  refine Leads.bind (leads_takeOr (.refl r) s (by decide) fun r₁ p₁ s₁ => leads_peek ?_)
  have hopen : r₁.current.kind ≠ .semicolon := by
    have s₁ := s₁
    rw [ht] at s₁
    rw [s₁.current_eq]
    exact fun he => absurd (he ▸ hk) (by decide)
  rw [if_neg hopen]
  refine Leads.bind (leads_expression (.rule .ret) value (by decide) (by simp) hn p₁ s₁
    fun r₂ p₂ s₂ => ?_)
  refine Leads.bind (leads_takeOr p₂ s₂ (by decide) fun r₃ p₃ s₃ => ?_)
  refine leads_mark p₃ s₃ fun r₄ p₄ _ => ⟨?_, ?_⟩
  · simp only [root, count]
    omega
  · simpa [tokens, events, count, Nat.add_assoc] using p₄

theorem leads_word {word : TokenKind} {kind : EventKind} {leaf : Leaf [word]}
    {stop : Leaf [.semicolon]} {r : Reader} {rest : List Token} {i d : Nat}
    {bad : Error → Reader → Prop} (hk : word ≠ .eof)
    (s : Stands r (leaf.token :: stop.token :: rest) i d) :
    Leads (readWord word kind) r
      (fun id r' => id = i ∧ Passed r r' [leaf.token, stop.token] [⟨i, d, kind⟩] 1) bad := by
  refine Leads.bind (leads_takeOr (.refl r) s hk fun r₁ p₁ s₁ => ?_)
  refine Leads.bind (leads_takeOr p₁ s₁ (by decide) fun r₂ p₂ s₂ => ?_)
  exact leads_mark p₂ s₂ fun r₃ p₃ _ => ⟨rfl, p₃⟩

theorem complete_test (word : Leaf [.testWord]) (call : ExprTree .call) (mark : Leaf [.equals])
    (expected : FullExpr) (stop : Leaf [.semicolon]) :
    Complete (.test word call mark expected stop) := by
  refine complete_of_takes rfl fun n r rest i d hf s hn => ?_
  have hcall := call.complete
  cases call with
  | apply name opening arguments closing =>
    have s : Stands r (word.token :: name.token :: (opening.token :: (arguments.tokens ++
        closing.token :: (mark.token :: (expected.tokens ++ stop.token :: rest))))) i d := by
      simpa [tokens, ExprTree.tokens] using s
    refine Leads.bind (leads_takeOr (.refl r) s (by decide) fun r₁ p₁ s₁ => ?_)
    refine Leads.bind (leads_takeOr p₁ s₁ (by decide) fun r₂ p₂ s₂ => leads_peek ?_)
    rw [s₂.current_eq, if_pos opening.kind_eq]
    refine Leads.bind (leads_within p₂ (by simpa using s₂) (hcall s₂ (Goal.cost_lt (.rule .test) p₂
      (.inl (by simp)) hn)) fun r₃ p₃ s₃ => ?_)
    refine Leads.bind (leads_mark p₃ s₃ fun r₄ p₄ s₄ => ?_)
    refine Leads.bind (leads_takeOr p₄ s₄ (by decide) fun r₅ p₅ s₅ => ?_)
    refine Leads.bind (leads_expression (.rule .test) expected (by decide) (by simp) hn p₅ s₅
      fun r₆ p₆ s₆ => ?_)
    refine Leads.bind (leads_takeOr p₆ s₆ (by decide) fun r₇ p₇ s₇ => ?_)
    refine leads_mark p₇ s₇ fun r₈ p₈ _ => ⟨?_, ?_⟩
    · simp only [root, count, ExprTree.count]
      omega
    · simpa [tokens, events, count, ExprTree.tokens, ExprTree.events, ExprTree.count,
        ExprTree.root, Nat.add_assoc] using p₈

theorem complete_braces (opening : Leaf [.openCurly]) {body : StmtTree .body}
    (closing : Leaf [.closeCurly]) (ih : Complete body) :
    Complete (.braces opening body closing) := by
  intro n r rest i d s hn
  have s : Stands r (opening.token :: (body.tokens ++ closing.token :: rest)) i d := by
    simpa [tokens] using s
  cases n with
  | zero => exact absurd hn (Nat.not_lt_zero _)
  | succ n =>
    refine leads_nested (Leads.bind (leads_takeOr (.refl r.deeper) s.deeper (by decide)
      fun r₁ p₁ s₁ => ?_))
    change Leads (emit .enterBlock >>= fun id => within .standard n (.statements id)) r₁ _ _
    refine Leads.bind (leads_mark p₁ s₁ fun r₂ p₂ s₂ => ?_)
    have hd : (Goal.rule .block).cost r.deeper < n + 1 := hn
    have hn₂ : (Goal.statements i).cost r₂ < n :=
      Goal.cost_lt (.rule .block) p₂ (.inl (by simp)) hd
    refine leads_within p₂ (by simpa using s₂) (ih closing s₂ hn₂) fun r₃ p₃ _ => ⟨rfl, ?_⟩
    simpa [tokens, events, count, Nat.add_comm] using p₃.shallower

theorem complete_nil : Complete .nil := by
  intro block n r rest i d closing s hn
  cases n with
  | zero => exact absurd hn (Nat.not_lt_zero _)
  | succ n =>
    refine leads_peek ?_
    rw [s.current_eq, if_pos closing.kind_eq]
    refine Leads.bind (leads_takeOr (.refl r) s (by decide) fun r₁ p₁ s₁ => ?_)
    refine Leads.bind (leads_emitAs p₁ fun r₂ p₂ => ?_)
    refine Leads.pure ⟨rfl, ?_⟩
    simpa [tokens, events, count, s.depth] using p₂

theorem complete_cons {first : StmtTree .statement} {more : StmtTree .body}
    (ihf : Complete first) (ihm : Complete more) : Complete (.cons first more) := by
  intro block n r rest i d closing s hn
  have s : Stands r (first.tokens ++ (more.tokens ++ closing.token :: rest)) i d := by
    simpa [tokens] using s
  have hf : StmtPart.statement.Follows (more.tokens ++ closing.token :: rest) :=
    follows_body more (by rintro t ⟨⟩; exact closing.kind_eq)
  obtain ⟨t, ts, ht, hk⟩ := first.tokens_lead
  have hcur : r.current.kind ∈ leads := by
    have s := s
    rw [ht] at s
    rw [s.current_eq, hk]
    exact first.lead_mem
  cases n with
  | zero => exact absurd hn (Nat.not_lt_zero _)
  | succ n =>
    refine leads_peek ?_
    rw [if_neg fun he => absurd (he ▸ hcur) (by decide),
      if_neg fun he => absurd (he ▸ hcur) (by decide)]
    have hn₁ : (Goal.rule .statement).cost r < n :=
      Goal.cost_lt (.statements block) (.refl r) (.inr (Nat.lt_succ_self 1)) hn
    refine Leads.bind (leads_within (.refl r) s (ihf hf s hn₁) fun r₁ p₁ s₁ => ?_)
    have hn₂ : (Goal.statements block).cost r₁ < n :=
      Goal.cost_lt (.statements block) p₁ (.inl (by simpa using first.tokens_ne_nil)) hn
    refine leads_within p₁ (by simpa using s₁) (ihm closing s₁ hn₂) fun r₂ p₂ _ => ⟨rfl, ?_⟩
    simpa [tokens, events, count] using p₂

theorem complete {p : StmtPart} (s : StmtTree p) : Complete s := by
  induction s with
  | assign name mark value stop => exact complete_assign name mark value stop
  | ifThen word opening condition closing _ ih =>
    exact complete_ifThen word opening condition closing ih
  | ifElse word opening condition closing _ otherwise _ ihy ihn =>
    exact complete_ifElse word opening condition closing otherwise ihy ihn
  | loop word opening guard closing _ ih => exact complete_loop word opening guard closing ih
  | ret word value stop => exact complete_ret word value stop
  | brk word stop =>
    exact complete_of_takes rfl fun n r rest i d hf s hn => leads_word (by decide) s
  | cont word stop =>
    exact complete_of_takes rfl fun n r rest i d hf s hn => leads_word (by decide) s
  | test word call mark expected stop => exact complete_test word call mark expected stop
  | braces opening _ closing ih => exact complete_braces opening closing ih
  | nil => exact complete_nil
  | cons _ _ ihf ihm => exact complete_cons ihf ihm

end StmtTree

theorem ParameterTree.takes (item : ParameterTree) {name : Token}
    {done : List (Token × Option DataType)} {n : Nat} {r : Reader} {t : Token} {us : List Token}
    {i d : Nat} {y : Yield} (hk : t.kind ≠ .colon)
    (s : Stands r (item.tokens ++ t :: us) i d)
    (hrest : ∀ r₁, Passed r r₁ item.tokens [] 0 → Stands r₁ (t :: us) i d →
      Leads (do
        separator (expect .comma) "expected parameter after `,`"
        within .standard n (.parameters name (done ++ [item.entry]))) r₁
        (fun (id : Nat) r' => id = y.root ∧ r.Passed r' y.tokens y.events y.count)
        fun _ _ => False) :
    (Goal.parameters name done).Takes (n + 1) r y := by
  refine leads_peek ?_
  have s : Stands r (item.name.token :: (item.type.tokens ++ t :: us)) i d := s
  rw [if_neg (s.current_eq ▸ item.name.kind_ne (by decide))]
  refine Leads.bind (leads_takeOr (.refl r) s (by decide) fun r₁ p₁ s₁ => ?_)
  refine Leads.bind (item.type.leads (by decide) p₁ s₁ (by rintro t ⟨⟩; exact hk)
    fun r₂ p₂ s₂ => hrest r₂ (by simpa [tokens] using p₂) s₂)

theorem FunctionTree.takes_rest (closing : Leaf [.closeParen]) (result : AnnotationTree .arrow)
    (body : StmtTree .block) {name : Token} {done : List (Token × Option DataType)} {n : Nat}
    {r : Reader} {rest : List Token} {i d : Nat}
    (s : Stands r (closing.token :: (result.tokens ++ (body.tokens ++ rest))) i d)
    (hn : (Goal.parameters name done).cost r < n) :
    (Goal.parameters name done).Takes n r ⟨closing.token :: (result.tokens ++ body.tokens),
      body.events i (d + 1) ++ [⟨i + body.count, d, .function name done result.type? i⟩],
      body.count + 1, i + body.count⟩ := by
  cases n with
  | zero => exact absurd hn (Nat.not_lt_zero _)
  | succ n =>
    refine leads_peek ?_
    rw [s.current_eq, if_pos closing.kind_eq]
    refine Leads.bind (leads_takeOr (.refl r) s (by decide) fun r₁ p₁ s₁ => ?_)
    refine Leads.bind (result.leads (by decide) p₁ s₁ (body.noArrow rest) fun r₂ p₂ s₂ => ?_)
    have hn₂ : (Goal.rule .block).cost r₂ < n :=
      Goal.cost_lt (.parameters name done) p₂ (.inl (by simp)) hn
    refine Leads.bind (leads_within p₂ s₂ (body.complete s₂ hn₂) fun r₃ p₃ s₃ => ?_)
    exact leads_mark p₃ s₃ fun r₄ p₄ _ => ⟨rfl, by simpa using p₄⟩

theorem ParameterItems.takes (items : ParameterItems) (closing : Leaf [.closeParen])
    (result : AnnotationTree .arrow) (body : StmtTree .block) {name : Token}
    {done : List (Token × Option DataType)} {n : Nat} {r : Reader} {rest : List Token} {i d : Nat}
    (s : Stands r (items.tokens ++ closing.token :: (result.tokens ++ (body.tokens ++ rest))) i d)
    (hn : (Goal.parameters name done).cost r < n) :
    (Goal.parameters name done).Takes n r
      ⟨items.tokens ++ closing.token :: (result.tokens ++ body.tokens), body.events i (d + 1) ++
        [⟨i + body.count, d, .function name (done ++ items.entries) result.type? i⟩],
      body.count + 1, i + body.count⟩ := by
  induction items generalizing done n r with
  | last item =>
    cases n with
    | zero => exact absurd hn (Nat.not_lt_zero _)
    | succ n =>
      refine item.takes (closing.kind_ne (by decide)) s fun r₁ p₁ s₁ => ?_
      have hn₁ : (Goal.parameters name (done ++ [item.entry])).cost r₁ < n :=
        Goal.cost_lt (.parameters name done) p₁ (.inl (by simp [ParameterTree.tokens])) hn
      refine Leads.bind (leads_close (s₁.current_eq ▸ closing.kind_eq) ?_)
      refine leads_within p₁ (by simpa using s₁)
        (FunctionTree.takes_rest closing result body s₁ hn₁) fun r₂ p₂ _ => ⟨rfl, ?_⟩
      simpa [tokens, entries] using p₂
  | more item comma items ih =>
    cases n with
    | zero => exact absurd hn (Nat.not_lt_zero _)
    | succ n =>
      have s : Stands r (item.tokens ++ comma.token :: (items.tokens ++ closing.token ::
          (result.tokens ++ (body.tokens ++ rest)))) i d := by simpa [tokens] using s
      refine item.takes (comma.kind_ne (by decide)) s fun r₁ p₁ s₁ => ?_
      have hcomma : r₁.current.kind ≠ .closeParen := s₁.current_eq ▸ comma.kind_ne (by decide)
      refine Leads.bind (leads_comma hcomma (leads_takeOr p₁ s₁ (by decide)
        fun r₂ p₂ s₂ => ⟨?_, ?_⟩))
      · obtain ⟨t, ts, ht, hk⟩ := items.tokens_head
        rw [ht] at s₂
        rw [s₂.current_eq, hk]
        decide
      · have hn₂ : (Goal.parameters name (done ++ [item.entry])).cost r₂ < n :=
          Goal.cost_lt (.parameters name done) p₂ (.inl (by simp)) hn
        refine leads_within p₂ (by simpa using s₂) (ih s₂ hn₂) fun r₃ p₃ _ => ⟨rfl, ?_⟩
        simpa [tokens, entries] using p₃

theorem FunctionTree.takes (f : FunctionTree) {n : Nat} {r : Reader} {rest : List Token}
    {i d : Nat} (s : Stands r (f.tokens ++ rest) i d) (hn : (Goal.rule .function).cost r < n) :
    (Goal.rule .function).Takes n r ⟨f.tokens, f.events i (d + 1), f.count, i + f.body.count⟩ := by
  obtain ⟨word, name, opening, parameters, closing, result, body⟩ := f
  have s : Stands r (word.token :: name.token :: opening.token :: (parameters.tokens ++
      closing.token :: (result.tokens ++ (body.tokens ++ rest)))) i d := by simpa [tokens] using s
  cases n with
  | zero => exact absurd hn (Nat.not_lt_zero _)
  | succ n =>
    have hd : (Goal.rule .function).cost r.deeper < n + 1 := hn
    refine leads_nested (Leads.bind (leads_takeOr (.refl r.deeper) s.deeper (by decide)
      fun r₁ p₁ s₁ => ?_))
    refine Leads.bind (leads_takeOr p₁ s₁ (by decide) fun r₂ p₂ s₂ => ?_)
    refine Leads.bind (leads_takeOr p₂ s₂ (by decide) fun r₃ p₃ s₃ => ?_)
    have hn₃ : (Goal.parameters name.token []).cost r₃ < n :=
      Goal.cost_lt (.rule .function) p₃ (.inl (by simp)) hd
    cases parameters with
    | none =>
      refine leads_within p₃ (by simpa [ParametersTree.tokens] using s₃)
        (takes_rest closing result body s₃ hn₃) fun r₄ p₄ _ => ⟨rfl, ?_⟩
      simpa [tokens, events, count, ParametersTree.tokens, ParametersTree.entries]
        using p₄.shallower
    | some items =>
      refine leads_within p₃ (by simpa [ParametersTree.tokens] using s₃)
        (items.takes closing result body s₃ hn₃) fun r₄ p₄ _ => ⟨rfl, ?_⟩
      simpa [tokens, events, count, ParametersTree.tokens, ParametersTree.entries]
        using p₄.shallower

end TinyScript
