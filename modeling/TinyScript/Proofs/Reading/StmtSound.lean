import TinyScript.Proofs.Reading.ExprSound

/-! The readings of statements, functions and programs yield derivations, and so does every reading
that is allowed some depth of goals within goals. -/

namespace TinyScript

instance : Inhabited (StmtTree .statement) := ⟨.brk default default⟩

instance : Inhabited (StmtTree .block) := ⟨.braces default .nil default⟩

theorem Goal.of_statement {k : TokenKind} {rule : Rule}
    (h : Grammar.standard.statement? k = some rule) :
    (Goal.rule rule).weight = 0 ∧ (∀ t, (Goal.rule rule).Ready t) ∧
      ∀ i d t y, (Goal.rule rule).Yields i d t y → ∃ s : StmtTree .statement,
        y = ⟨s.tokens, s.events i d, s.count, s.root i⟩ := by
  cases k with
  | identifier | ifWord | whileWord | returnWord | breakWord | continueWord | testWord =>
    cases h
    exact ⟨rfl, fun _ => trivial, fun _ _ _ _ => id⟩
  | _ => cases h

theorem Goal.exists_yields (goal : Goal) (i d : Nat) {t : Token} (h : goal.Ready t) :
    ∃ y, goal.Yields i d t y := by
  cases goal with
  | rule rule =>
    cases rule with
    | fullExpr | primary | negation | grouping => exact ⟨_, Classical.arbitrary _, rfl⟩
    | function => exact ⟨_, ⟨default, default, default, .none, default, .none, default⟩, rfl⟩
    | _ => exact ⟨_, default, rfl⟩
  | expr power => exact ⟨_, Classical.arbitrary _, rfl⟩
  | operators power left => exact ⟨_, extends_nil power left i d t⟩
  | binary left power =>
    obtain ⟨l, hl, hp⟩ := h
    exact ⟨_, l, ⟨t, hl⟩, Classical.arbitrary _, hp, rfl⟩
  | call name => exact ⟨_, default, .none, default, rfl⟩
  | arguments name done =>
    by_cases hk : t.kind = .closeParen
    · exact ⟨_, .none, default, by simp [hk], rfl⟩
    · exact ⟨_, .some (.last (Classical.arbitrary _)), default, by simp [hk], rfl⟩
  | statements block => exact ⟨_, .nil, default, rfl⟩
  | parameters name done =>
    by_cases hk : t.kind = .closeParen
    · exact ⟨_, .none, default, .none, default, by simp [hk], rfl⟩
    · exact ⟨_, .some (.last ⟨default, .none⟩), default, .none, default, by simp [hk], rfl⟩
  | program ss fs => exact ⟨_, [], rfl⟩

namespace Reader

section Steps

variable {r₀ r : Reader} {ts : List Token} {es : List Event} {n : Nat}
  {bad : Error → Reader → Prop}

theorem leads_annotated {mark : TokenKind} {ok : Option DataType → Reader → Prop} {enough : Prop}
    (hc : r₀.Closed) (p : Passed r₀ r ts es n) (hk : mark ≠ .eof)
    (hok : ∀ (a : AnnotationTree mark) r', Passed r₀ r' (ts ++ a.tokens) es n → ok a.type? r')
    (hbad : ∀ e r', Halted enough r₀ r' es e → bad e r') :
    Leads (typeAfter .standard mark) r ok bad := by
  refine leads_peek ?_
  split
  · next h =>
    refine Leads.bind (leads_advance [mark] hc p (by simpa using h)
      (by simpa using hk.symm) fun leaf r₁ p₁ => ?_)
    refine Leads.bind (leads_readType hc p₁ (fun t r₂ p₂ => ?_) hbad)
    exact Leads.pure (hok (.some leaf t) r₂ (by simpa [AnnotationTree.tokens] using p₂))
  · exact Leads.pure (hok .none r (by simpa [AnnotationTree.tokens] using p))

theorem leads_opened {α : Type} {kind : EventKind} {next : Serial → ReadM α}
    {ok : α → Reader → Prop} (p : Passed r₀ r ts es n)
    (h : ∀ r', Passed r₀ r' ts (es ++ [⟨r₀.nextId + n, r₀.depth, kind⟩]) (n + 1) →
      Leads (next (r₀.nextId + n)) r' ok bad) :
    Leads (do let id ← freshId; emitAs id kind; next id) r ok bad := by
  change Leads (emit kind >>= next) r ok bad
  exact Leads.bind (leads_emit p h)

theorem leads_emitAs {id : Serial} {kind : EventKind} {ok : Unit → Reader → Prop}
    (p : Passed r₀ r ts es n)
    (h : ∀ r', Passed r₀ r' ts (es ++ [⟨id, r₀.depth, kind⟩]) n → ok () r') :
    Leads (emitAs id kind) r ok bad := by
  have hp := p.trans (passed_record r id kind)
  rw [List.append_nil, p.depth] at hp
  exact Leads.of_ok (outcome_emitAs r id kind) (h _ hp)

theorem leads_word {word : TokenKind} {kind : EventKind} {ok : Serial → Reader → Prop}
    (hc : r.Closed) (hk : word ≠ .eof)
    (hok : ∀ (leaf : Leaf [word]) (stop : Leaf [.semicolon]) r',
      Passed r r' [leaf.token, stop.token] [⟨r.nextId, r.depth, kind⟩] 1 → ok r.nextId r')
    (hbad : ∀ us r', Passed r r' us [] 0 → bad r'.mismatch r') :
    Leads (readWord word kind) r ok bad := by
  refine Leads.bind (leads_expect hc (.refl r) hk (fun leaf r₁ p₁ => ?_) (hbad _ _ (.refl r)))
  refine Leads.bind (leads_expect hc p₁ (by decide) (fun stop r₂ p₂ => ?_) (hbad _ _ p₁))
  exact leads_emit p₂ fun r₃ p₃ => hok leaf stop r₃ p₃

end Steps

section Productions

variable {room : Nat} {read : Goal → ReadM Serial}
  (hread : ∀ sub : Goal, sub.ReadBy room (read sub))

include hread

theorem readStatement_reads :
    (Goal.rule .statement).ReadBy (room + 1) (readStatement .standard read) := by
  intro r hc _
  refine leads_peek ?_
  split
  · next rule hrule =>
    obtain ⟨hweight, hready, hyields⟩ := Goal.of_statement hrule
    have hd : r.deeper.Closed := hc
    refine leads_nested (leads_read hread (.rule .statement) hd (.refl _)
      (.inr (by rw [hweight]; exact Nat.zero_lt_one)) (hready _) ?_ ?_)
    · intro y r₁ hy p₁ _
      obtain ⟨s, rfl⟩ := hyields _ _ _ _ hy
      exact ⟨_, ⟨s, rfl⟩, by simpa using p₁.shallower, by simp, trivial⟩
    · intro y err r' hy h
      obtain ⟨s, rfl⟩ := hyields _ _ _ _ hy
      exact ⟨_, ⟨s, rfl⟩, h.shallower.mono (by simp)⟩
  · split <;> exact Leads.of_error (outcome_reject r _)
      ⟨_, ⟨default, rfl⟩, .here (.refl r) (.unexpected _) List.nil_prefix⟩

theorem readBlock_reads : (Goal.rule .block).ReadBy (room + 1) (readBlock read) := by
  intro r hc _
  have hd : r.deeper.Closed := hc
  refine leads_nested (Leads.bind (leads_expect hd (.refl _) (by decide)
    (fun opening r₁ p₁ => ?_) ?_))
  · refine leads_opened p₁ fun r₂ p₂ => ?_
    refine leads_read hread (.rule .block) hd p₂ (.inl (by simp)) trivial ?_ ?_
    · rintro _ r₃ ⟨body, closing, rfl⟩ p₃ _
      refine ⟨_, ⟨.braces opening body closing, rfl⟩, ?_, by simp, trivial⟩
      simpa [StmtTree.tokens, StmtTree.events, StmtTree.count, Nat.add_comm] using p₃.shallower
    · rintro _ err r' ⟨body, closing, rfl⟩ h
      refine ⟨_, ⟨.braces opening body closing, rfl⟩, h.shallower.mono ?_⟩
      simp [StmtTree.events]
  · exact ⟨_, ⟨default, rfl⟩, (Halted.here (.refl r.deeper) .mismatch List.nil_prefix).shallower⟩

theorem readStatements_reads (block : Serial) :
    (Goal.statements block).ReadBy (room + 1) (readStatements read block) := by
  intro r hc _
  have hend : ∀ e, Blame ((Goal.statements block).cost r < room + 1) [] r e →
      (Goal.statements block).Cut (room + 1) r e r := fun e hb =>
    ⟨_, ⟨.nil, default, rfl⟩, .here (.refl r) hb List.nil_prefix⟩
  refine leads_peek ?_
  split
  · refine Leads.bind (leads_expect hc (.refl r) (by decide) (fun closing r₁ p₁ => ?_)
      (hend _ .mismatch))
    refine Leads.bind (leads_emitAs p₁ fun r₂ p₂ => ?_)
    refine Leads.pure ⟨_, ⟨.nil, closing, rfl⟩, ?_, rfl, trivial⟩
    simpa [StmtTree.tokens, StmtTree.events, StmtTree.count] using p₂
  split
  · exact Leads.of_error (outcome_reject r _) (hend _ (.unexpected _))
  · refine Leads.bind (leads_read hread (.statements block) hc (.refl r)
      (.inr (Nat.lt_succ_self 1)) trivial ?_ ?_)
    · rintro _ r₁ ⟨s, rfl⟩ p₁ _
      refine leads_rest hread hc p₁ (by simpa using s.tokens_ne_nil) trivial (fun _ => id) ?_
      rintro _ ⟨body, closing, rfl⟩
      refine ⟨⟨.cons s body, closing, ?_⟩, List.prefix_rfl⟩
      simp [Yield.after, StmtTree.tokens, StmtTree.events, StmtTree.count]
    · rintro _ err r' ⟨s, rfl⟩ h
      refine ⟨_, ⟨.cons s .nil, default, rfl⟩, h.mono ?_⟩
      simp [StmtTree.events]

theorem readAssignment_reads : (Goal.rule .assignment).ReadBy (room + 1) (readAssignment read) := by
  intro r hc _
  refine Leads.bind (leads_expect hc (.refl r) (by decide) (fun name r₁ p₁ => ?_) ?_)
  · refine Leads.bind (leads_emit p₁ fun r₂ p₂ => ?_)
    refine Leads.bind (leads_require hc p₂ (by decide) (fun mark r₃ p₃ => ?_) ?_)
    · refine Leads.bind (leads_read hread (.rule .assignment) hc p₃ (.inl (by simp)) trivial ?_ ?_)
      · rintro _ r₄ ⟨value, rfl⟩ p₄ _
        refine Leads.bind (leads_expect hc p₄ (by decide) (fun stop r₅ p₅ => ?_) ?_)
        · refine leads_emit p₅ fun r₆ p₆ => ⟨_, ⟨.assign name mark value stop, rfl⟩, ?_, ?_,
            trivial⟩
          · simpa [StmtTree.tokens, StmtTree.events, StmtTree.count, Nat.add_assoc] using p₆
          · simp only [StmtTree.root, StmtTree.count]
            omega
        · exact ⟨_, ⟨.assign name mark value default, rfl⟩,
            .here p₄ .mismatch (by simp [StmtTree.events])⟩
      · rintro _ err r' ⟨value, rfl⟩ h
        exact ⟨_, ⟨.assign name mark value default, rfl⟩, h.mono (by simp [StmtTree.events])⟩
    · exact ⟨_, ⟨.assign name default (Classical.arbitrary _) default, rfl⟩,
        .here p₂ (.unexpected _) (by simp [StmtTree.events])⟩
  · exact ⟨_, ⟨default, rfl⟩, .here (.refl r) .mismatch List.nil_prefix⟩

theorem leads_condition (goal : Goal) {r₀ r : Reader} {ts : List Token} {es : List Event} {n : Nat}
    {ok : Serial → Reader → Prop} {bad : Error → Reader → Prop} (hc : r₀.Closed)
    (p : Passed r₀ r ts es n)
    (hok : ∀ (opening : Leaf [.openParen]) (e : FullExpr) (closing : Leaf [.closeParen]) r',
      Passed r₀ r' (ts ++ opening.token :: (e.tokens ++ [closing.token]))
        (es ++ e.fullEvents (r₀.nextId + n) r₀.depth) (n + (e.count + 1)) →
      ok (r₀.nextId + n + e.count) r')
    (hbad : ∀ (e : FullExpr) err r', Halted (goal.cost r₀ < room + 1) r₀ r'
      (es ++ e.fullEvents (r₀.nextId + n) r₀.depth) err → bad err r') :
    Leads (readCondition read) r ok bad := by
  refine Leads.bind (leads_expect hc p (by decide) (fun opening r₁ p₁ => ?_) ?_)
  · refine Leads.bind (leads_read hread goal hc p₁ (.inl (by simp)) trivial ?_ ?_)
    · rintro _ r₂ ⟨e, rfl⟩ p₂ _
      refine Leads.bind (leads_expect hc p₂ (by decide) (fun closing r₃ p₃ => ?_) ?_)
      · exact Leads.pure (hok opening e closing r₃ (by simpa using p₃))
      · exact hbad e _ _ (.here p₂ .mismatch List.prefix_rfl)
    · rintro _ err r' ⟨e, rfl⟩ h
      exact hbad e _ _ h
  · exact hbad (Classical.arbitrary _) _ _ (.here p .mismatch (List.prefix_append _ _))

theorem readConditional_reads :
    (Goal.rule .conditional).ReadBy (room + 1) (readConditional read) := by
  intro r hc _
  refine Leads.bind (leads_expect hc (.refl r) (by decide) (fun word r₁ p₁ => ?_) ?_)
  · refine Leads.bind (leads_condition hread (.rule .conditional) hc p₁ ?_ ?_)
    · intro opening e closing r₂ p₂
      refine Leads.bind (leads_read hread (.rule .conditional) hc p₂ (.inl (by simp)) trivial ?_ ?_)
      · rintro _ r₃ ⟨yes, rfl⟩ p₃ _
        refine leads_peek ?_
        split
        · next hk =>
          refine Leads.bind (leads_advance [.elseWord] hc p₃ (by simpa using hk)
            (by decide) fun otherwise r₄ p₄ => ?_)
          refine Leads.bind (leads_read hread (.rule .conditional) hc p₄ (.inl (by simp)) trivial
            ?_ ?_)
          · rintro _ r₅ ⟨no, rfl⟩ p₅ _
            refine leads_emit p₅ fun r₆ p₆ =>
              ⟨_, ⟨.ifElse word opening e closing yes otherwise no, rfl⟩, ?_, ?_, trivial⟩
            · simpa [StmtTree.tokens, StmtTree.events, StmtTree.count, Nat.add_assoc] using p₆
            · simp only [StmtTree.root, StmtTree.count]
              omega
          · rintro _ err r' ⟨no, rfl⟩ h
            refine ⟨_, ⟨.ifElse word opening e closing yes otherwise no, rfl⟩, h.mono ?_⟩
            simp [StmtTree.events, Nat.add_assoc]
        · refine leads_emit p₃ fun r₄ p₄ =>
            ⟨_, ⟨.ifThen word opening e closing yes, rfl⟩, ?_, ?_, trivial⟩
          · simpa [StmtTree.tokens, StmtTree.events, StmtTree.count, Nat.add_assoc] using p₄
          · simp only [StmtTree.root, StmtTree.count]
            omega
      · rintro _ err r' ⟨yes, rfl⟩ h
        refine ⟨_, ⟨.ifThen word opening e closing yes, rfl⟩, h.mono ?_⟩
        simp [StmtTree.events, Nat.add_assoc]
    · intro e err r' h
      exact ⟨_, ⟨.ifThen word default e default default, rfl⟩, h.mono (by simp [StmtTree.events])⟩
  · exact ⟨_, ⟨default, rfl⟩, .here (.refl r) .mismatch List.nil_prefix⟩

theorem readLoop_reads : (Goal.rule .loop).ReadBy (room + 1) (readLoop read) := by
  intro r hc _
  refine Leads.bind (leads_expect hc (.refl r) (by decide) (fun word r₁ p₁ => ?_) ?_)
  · refine Leads.bind (leads_condition hread (.rule .loop) hc p₁ ?_ ?_)
    · intro opening e closing r₂ p₂
      refine Leads.bind (leads_read hread (.rule .loop) hc p₂ (.inl (by simp)) trivial ?_ ?_)
      · rintro _ r₃ ⟨body, rfl⟩ p₃ _
        refine leads_emit p₃ fun r₄ p₄ =>
          ⟨_, ⟨.loop word opening e closing body, rfl⟩, ?_, ?_, trivial⟩
        · simpa [StmtTree.tokens, StmtTree.events, StmtTree.count, Nat.add_assoc] using p₄
        · simp only [StmtTree.root, StmtTree.count]
          omega
      · rintro _ err r' ⟨body, rfl⟩ h
        refine ⟨_, ⟨.loop word opening e closing body, rfl⟩, h.mono ?_⟩
        simp [StmtTree.events, Nat.add_assoc]
    · intro e err r' h
      exact ⟨_, ⟨.loop word default e default default, rfl⟩, h.mono (by simp [StmtTree.events])⟩
  · exact ⟨_, ⟨default, rfl⟩, .here (.refl r) .mismatch List.nil_prefix⟩

theorem readReturn_reads : (Goal.rule .ret).ReadBy (room + 1) (readReturn read) := by
  intro r hc _
  refine Leads.bind (leads_expect hc (.refl r) (by decide) (fun word r₁ p₁ => ?_) ?_)
  · refine leads_peek ?_
    split
    · exact Leads.of_error (outcome_reject r₁ _)
        ⟨_, ⟨default, rfl⟩, .here p₁ (.unexpected _) List.nil_prefix⟩
    · refine Leads.bind (leads_read hread (.rule .ret) hc p₁ (.inl (by simp)) trivial ?_ ?_)
      · rintro _ r₂ ⟨value, rfl⟩ p₂ _
        refine Leads.bind (leads_expect hc p₂ (by decide) (fun stop r₃ p₃ => ?_) ?_)
        · refine leads_emit p₃ fun r₄ p₄ => ⟨_, ⟨.ret word value stop, rfl⟩, ?_, ?_, trivial⟩
          · simpa [StmtTree.tokens, StmtTree.events, StmtTree.count, Nat.add_assoc] using p₄
          · simp only [StmtTree.root, StmtTree.count]
            omega
        · exact ⟨_, ⟨.ret word value default, rfl⟩, .here p₂ .mismatch (by simp [StmtTree.events])⟩
      · rintro _ err r' ⟨value, rfl⟩ h
        exact ⟨_, ⟨.ret word value default, rfl⟩, h.mono (by simp [StmtTree.events])⟩
  · exact ⟨_, ⟨default, rfl⟩, .here (.refl r) .mismatch List.nil_prefix⟩

theorem readTest_reads : (Goal.rule .test).ReadBy (room + 1) (readTest read) := by
  intro r hc _
  refine Leads.bind (leads_expect hc (.refl r) (by decide) (fun word r₁ p₁ => ?_) ?_)
  · refine Leads.bind (leads_require hc p₁ (by decide) (fun name r₂ p₂ => ?_) ?_)
    · refine leads_peek ?_
      split
      · refine Leads.bind (leads_read hread (.rule .test) hc p₂ (.inl (by simp)) trivial ?_ ?_)
        · rintro _ r₃ ⟨opening, arguments, closing, rfl⟩ p₃ _
          refine Leads.bind (leads_emit p₃ fun r₄ p₄ => ?_)
          refine Leads.bind (leads_require hc p₄ (by decide) (fun mark r₅ p₅ => ?_) ?_)
          · refine Leads.bind (leads_read hread (.rule .test) hc p₅ (.inl (by simp)) trivial ?_ ?_)
            · rintro _ r₆ ⟨expected, rfl⟩ p₆ _
              refine Leads.bind (leads_expect hc p₆ (by decide) (fun stop r₇ p₇ => ?_) ?_)
              · refine leads_emit p₇ fun r₈ p₈ => ⟨_, ⟨.test word
                  (.apply name opening arguments closing) mark expected stop, rfl⟩, ?_, ?_,
                  trivial⟩
                · simpa [StmtTree.tokens, StmtTree.events, StmtTree.count, ExprTree.tokens,
                    ExprTree.events, ExprTree.count, ExprTree.root, Nat.add_assoc] using p₈
                · simp only [StmtTree.root, StmtTree.count, ExprTree.count]
                  omega
              · refine ⟨_, ⟨.test word (.apply name opening arguments closing) mark expected
                  default, rfl⟩, .here p₆ .mismatch ?_⟩
                simp [StmtTree.events, ExprTree.events, ExprTree.count, ExprTree.root,
                  Nat.add_assoc]
            · rintro _ err r' ⟨expected, rfl⟩ h
              refine ⟨_, ⟨.test word (.apply name opening arguments closing) mark expected
                default, rfl⟩, h.mono ?_⟩
              simp [StmtTree.events, ExprTree.events, ExprTree.count, ExprTree.root, Nat.add_assoc]
          · refine ⟨_, ⟨.test word (.apply name opening arguments closing) default
              (Classical.arbitrary _) default, rfl⟩, .here p₄ (.unexpected _) ?_⟩
            simp [StmtTree.events, ExprTree.events, ExprTree.count, ExprTree.root, Nat.add_assoc]
        · rintro _ err r' ⟨opening, arguments, closing, rfl⟩ h
          refine ⟨_, ⟨.test word (.apply name opening arguments closing) default
            (Classical.arbitrary _) default, rfl⟩, h.mono ?_⟩
          simp [StmtTree.events, ExprTree.events]
      -- no event has been recorded yet, so any statement will do
      · exact Leads.of_error (outcome_reject r₂ _)
          ⟨_, ⟨default, rfl⟩, .here p₂ (.unexpected _) List.nil_prefix⟩
    · exact ⟨_, ⟨default, rfl⟩, .here p₁ (.unexpected _) List.nil_prefix⟩
  · exact ⟨_, ⟨default, rfl⟩, .here (.refl r) .mismatch List.nil_prefix⟩

theorem readFunction_reads : (Goal.rule .function).ReadBy (room + 1) (readFunction read) := by
  intro r hc _
  have hcut : ∀ (us : List Token) (r' : Reader) (err : Error), Passed r.deeper r' us [] 0 →
      Blame ((Goal.rule .function).cost r < room + 1) us r' err →
      (Goal.rule .function).Cut (room + 1) r err r'.shallower := fun us r' err p hb =>
    ⟨_, ⟨⟨default, default, default, .none, default, .none, default⟩, rfl⟩,
      (Halted.here p hb List.nil_prefix).shallower⟩
  have hd : r.deeper.Closed := hc
  refine leads_nested (Leads.bind (leads_expect hd (.refl _) (by decide)
    (fun word r₁ p₁ => ?_) (hcut _ _ _ (.refl _) .mismatch)))
  refine Leads.bind (leads_require hd p₁ (by decide) (fun name r₂ p₂ => ?_)
    (hcut _ _ _ p₁ (.unexpected _)))
  refine Leads.bind (leads_expect hd p₂ (by decide) (fun opening r₃ p₃ => ?_)
    (hcut _ _ _ p₂ .mismatch))
  refine leads_read hread (.rule .function) hd p₃ (.inl (by simp)) trivial ?_ ?_
  · rintro _ r₄ ⟨parameters, closing, result, body, -, rfl⟩ p₄ _
    refine ⟨_, ⟨⟨word, name, opening, parameters, closing, result, body⟩, rfl⟩, ?_, ?_, trivial⟩
    · simpa [FunctionTree.tokens, FunctionTree.events, FunctionTree.count] using p₄.shallower
    · simp
  · rintro _ err r' ⟨parameters, closing, result, body, -, rfl⟩ h
    refine ⟨_, ⟨⟨word, name, opening, parameters, closing, result, body⟩, rfl⟩,
      h.shallower.mono ?_⟩
    simp [FunctionTree.events]

theorem readParameters_reads (name : Token) (done : List (Token × Option DataType)) :
    (Goal.parameters name done).ReadBy (room + 1) (readParameters .standard read name done) := by
  intro r hc _
  -- no event comes before the body, so a mistake up to there can be mended in any way
  have hcut : ∀ (r' : Reader) (err : Error),
      Halted ((Goal.parameters name done).cost r < room + 1) r r' [] err →
      (Goal.parameters name done).Cut (room + 1) r err r' := fun r' err h =>
    have ⟨y, hy⟩ := (Goal.parameters name done).exists_yields r.nextId r.depth trivial
    ⟨y, hy, h.mono List.nil_prefix⟩
  refine leads_peek ?_
  split
  · next hk =>
    refine Leads.bind (leads_expect hc (.refl r) (by decide) (fun closing r₁ p₁ => ?_)
      (hcut _ _ (.here (.refl r) .mismatch List.prefix_rfl)))
    refine Leads.bind (leads_annotated hc p₁ (by decide) (fun result r₂ p₂ => ?_)
      fun err r' h => hcut _ _ h)
    refine Leads.bind
      (leads_read hread (.parameters name done) hc p₂ (.inl (by simp)) trivial ?_ ?_)
    · rintro _ r₃ ⟨body, rfl⟩ p₃ _
      refine leads_emit p₃ fun r₄ p₄ =>
        ⟨_, ⟨.none, closing, result, body, by simp [hk], rfl⟩, ?_, ?_, trivial⟩
      · simpa [ParametersTree.tokens, ParametersTree.entries] using p₄
      · simp
    · rintro _ err r' ⟨body, rfl⟩ h
      refine ⟨_, ⟨.none, closing, result, body, by simp [hk], rfl⟩, h.mono ?_⟩
      simp
  · next hk =>
    refine Leads.bind (leads_require hc (.refl r) (by decide) (fun parameter r₁ p₁ => ?_)
      (hcut _ _ (.here (.refl r) (.unexpected _) List.prefix_rfl)))
    refine Leads.bind (leads_annotated hc p₁ (by decide) (fun type r₂ p₂ => ?_)
      fun err r' h => hcut _ _ h)
    refine Leads.bind (leads_separator (leads_expect hc p₂ (by decide)
      (fun comma r₃ p₃ => ⟨comma, p₃⟩) (hcut _ _ (.here p₂ .mismatch List.prefix_rfl))) ?_ ?_
      fun comma r₃ p₃ => hcut _ _ (.here p₃ (.unexpected _) List.prefix_rfl))
    · intro hclose
      refine leads_rest hread hc p₂ (by simp) trivial (fun _ => id) ?_
      rintro _ ⟨parameters, closing, result, body, hiff, rfl⟩
      obtain rfl := hiff.2 hclose
      refine ⟨⟨.some (.last ⟨parameter, type⟩), closing, result, body, by simp [hk], ?_⟩,
        List.prefix_rfl⟩
      simp [Yield.after, ParametersTree.tokens, ParameterItems.tokens, ParameterTree.tokens,
        ParametersTree.entries, ParameterItems.entries, ParameterTree.entry]
    · intro comma r₃ p₃ hopen
      refine leads_rest hread hc p₃ (by simp) trivial (fun _ => id) ?_
      rintro _ ⟨parameters, closing, result, body, hiff, rfl⟩
      cases parameters with
      | none => exact absurd (hiff.1 rfl) hopen
      | some items =>
        refine ⟨⟨.some (.more ⟨parameter, type⟩ comma items), closing, result, body,
          by simp [hk], ?_⟩, List.prefix_rfl⟩
        simp [Yield.after, ParametersTree.tokens, ParameterItems.tokens, ParameterTree.tokens,
          ParametersTree.entries, ParameterItems.entries, ParameterTree.entry]

theorem readProgram_reads (ss fs : List Serial) :
    (Goal.program ss fs).ReadBy (room + 1) (readProgram read ss fs) := by
  intro r hc _
  refine leads_peek ?_
  split
  · next hk =>
    refine leads_emit (.refl r) fun r₁ p₁ => ⟨_, ⟨[], rfl⟩, ?_, rfl, ?_⟩
    · simpa [ItemTree.eventsAll, ItemTree.countAll, ItemTree.statementIds, ItemTree.functionIds]
        using p₁
    · rw [Goal.Ends, p₁.current_eq (.refl r)]
      exact hk
  split
  · refine Leads.bind (leads_read hread (.program ss fs) hc (.refl r) (.inr Nat.zero_lt_two)
      trivial ?_ ?_)
    · rintro _ r₁ ⟨f, rfl⟩ p₁ _
      refine leads_rest hread hc p₁ (by simp [FunctionTree.tokens]) trivial (fun _ => id) ?_
      rintro _ ⟨items, rfl⟩
      refine ⟨⟨.function f :: items, ?_⟩, by simp [Yield.after, ← List.append_assoc]⟩
      simp [Yield.after, ItemTree.tokens, ItemTree.events, ItemTree.count, ItemTree.eventsAll,
        ItemTree.countAll, ItemTree.statementIds, ItemTree.functionIds, Nat.add_assoc]
    · rintro _ err r' ⟨f, rfl⟩ h
      refine ⟨_, ⟨[.function f], rfl⟩, h.mono ?_⟩
      simp [ItemTree.events, ItemTree.eventsAll]
  · refine Leads.bind (leads_read hread (.program ss fs) hc (.refl r) (.inr (Nat.lt_succ_self 1))
      trivial ?_ ?_)
    · rintro _ r₁ ⟨s, rfl⟩ p₁ _
      refine leads_rest hread hc p₁ (by simpa using s.tokens_ne_nil) trivial (fun _ => id) ?_
      rintro _ ⟨items, rfl⟩
      refine ⟨⟨.statement s :: items, ?_⟩, by simp [Yield.after, ← List.append_assoc]⟩
      simp [Yield.after, ItemTree.tokens, ItemTree.events, ItemTree.count, ItemTree.eventsAll,
        ItemTree.countAll, ItemTree.statementIds, ItemTree.functionIds, Nat.add_assoc]
    · rintro _ err r' ⟨s, rfl⟩ h
      refine ⟨_, ⟨[.statement s], rfl⟩, h.mono ?_⟩
      simp [ItemTree.events, ItemTree.eventsAll]

theorem step_reads (goal : Goal) : goal.ReadBy (room + 1) (step .standard read goal) := by
  cases goal with
  | rule rule =>
    cases rule with
    | fullExpr => exact readFullExpr_reads hread
    | primary => exact readPrimary_reads hread
    | negation => exact readNegation_reads hread
    | grouping => exact readGrouping_reads hread
    | statement => exact readStatement_reads hread
    | block => exact readBlock_reads hread
    | function => exact readFunction_reads hread
    | assignment => exact readAssignment_reads hread
    | conditional => exact readConditional_reads hread
    | loop => exact readLoop_reads hread
    | ret => exact readReturn_reads hread
    | brk =>
      exact fun r hc _ => leads_word hc (by decide)
        (fun word stop r' p => ⟨_, ⟨.brk word stop, rfl⟩, p, rfl, trivial⟩)
        fun us r' p => ⟨_, ⟨default, rfl⟩, .here p .mismatch List.nil_prefix⟩
    | cont =>
      exact fun r hc _ => leads_word hc (by decide)
        (fun word stop r' p => ⟨_, ⟨.cont word stop, rfl⟩, p, rfl, trivial⟩)
        fun us r' p => ⟨_, ⟨default, rfl⟩, .here p .mismatch List.nil_prefix⟩
    | test => exact readTest_reads hread
  | expr power => exact readExpr_reads hread power
  | operators power left => exact readOperators_reads hread power left
  | binary left power => exact readBinary_reads hread left power
  | call name => exact readCall_reads hread name
  | arguments name done => exact readArguments_reads hread name done
  | statements block => exact readStatements_reads hread block
  | parameters name done => exact readParameters_reads hread name done
  | program ss fs => exact readProgram_reads hread ss fs

end Productions

/-- Every reading that is allowed `room` goals within goals yields a derivation, or breaks off
within one; and it runs out of room only if `room` is less than the cost of its goal. -/
theorem within_reads (room : Nat) (goal : Goal) :
    goal.ReadBy room (within .standard room goal) := by
  induction room generalizing goal with
  | zero =>
    intro r _ hready
    obtain ⟨y, hy⟩ := goal.exists_yields r.nextId r.depth hready
    exact ⟨y, hy, .here (.refl r) (.noRoom (Nat.not_lt_zero _)) List.nil_prefix⟩
  | succ room ih => exact step_reads ih goal

end Reader

end TinyScript
