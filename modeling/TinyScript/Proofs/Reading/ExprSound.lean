import TinyScript.Proofs.Reading.Yield

/-! The readings of expressions yield derivations. In the loop over operators, each operator read
is no tighter than the one before it, so what has been read so far can always stand on its left. A
reading that breaks off is completed to a derivation with any tokens that fit. -/

namespace TinyScript

instance (l : Level) : Nonempty (ExprTree (.level l)) :=
  have ⟨e, _⟩ := ExprTree.exists_alike (m := l) (by cases l <;> decide) (.var default)
  ⟨e⟩

theorem extends_nil (power : Power) (left i d : Nat) (t : Token) :
    Extends power left i d t ⟨[], [], 0, left⟩ := by
  rintro l e j hl _ rfl _
  obtain ⟨e', ht, hn, he⟩ := ExprTree.exists_alike hl e
  exact ⟨e', by simp [ht], by simp [he], by simp [hn], by simp only [ExprTree.root, hn]⟩

theorem extends_cons {power : Power} {left i d : Nat} {t t' : Token} {l : Level}
    (op : Leaf l.kinds) (right : ExprTree (.level l.next)) {y : Yield} (hp : power.rank < l.rank)
    (ht : t.kind.joinRank = l.rank) (ht' : t'.kind.joinRank ≤ l.rank)
    (hy : Extends power (i + right.count) (i + right.count + 1) d t' y) :
    Extends power left i d t (y.after (op.token :: right.tokens) (right.events i (d + 1) ++
      [⟨i + right.count, d, .binary op.token left (right.root i)⟩]) (right.count + 1)) := by
  rintro m e j hm hj rfl rfl
  obtain ⟨e₁, ht₁, hn₁, he₁⟩ := ExprTree.exists_alike (m := l) (by omega) e
  have habove : power.above.rank ≤ l.rank := Nat.le_trans power.rank_above_le hp
  obtain ⟨e', ht', hev, hn, hr⟩ := hy l (.join e₁ op right) j habove ht'
    (by simp only [ExprTree.root, ExprTree.count, hn₁]; omega)
    (by simp only [ExprTree.count, hn₁]; omega)
  refine ⟨e', ?_, ?_, ?_, hr⟩
  · simp [ht', ExprTree.tokens, ht₁, Yield.after]
  · simp [hev, ExprTree.events, ExprTree.root, he₁, hn₁, Yield.after]
  · simp only [hn, ExprTree.count, hn₁, Yield.after]
    omega

namespace Goal

variable {i d : Nat} {t : Token} {y : Yield}

theorem yields_lowest : (Goal.expr .lowest).Yields i d t y ↔
    ∃ e : FullExpr, y = ⟨e.tokens, e.events i (d + 1), e.count, e.root i⟩ := Iff.rfl

theorem yields_unary : (Goal.expr .unary).Yields i d t y ↔ ∃ e : ExprTree (.level .unary),
    y = ⟨e.tokens, e.events i (d + 1), e.count, e.root i⟩ := Iff.rfl

theorem yields_operand {l : Level} (op : Leaf l.kinds) : (Goal.expr l.power).Yields i d t y ↔
    ∃ e : ExprTree (.level l.next), y = ⟨e.tokens, e.events i (d + 1), e.count, e.root i⟩ := by
  rw [← Level.above_power op]
  rfl

theorem of_opening {k : TokenKind} {rule : Rule} (h : Grammar.standard.opening? k = some rule) :
    (Goal.rule rule).weight = 0 ∧ (∀ t : Token, t.kind = k → (Goal.rule rule).Ready t) ∧
      ∀ i d t y, (Goal.rule rule).Yields i d t y → ∃ e : ExprTree (.level .unary),
        y = ⟨e.tokens, e.events i d, e.count, e.root i⟩ := by
  cases k with
  | number | string | bool | identifier =>
    cases h
    exact ⟨rfl, fun _ _ => trivial, fun _ _ _ _ => id⟩
  | dash | not | openParen =>
    cases h
    exact ⟨rfl, fun _ hk => by simp [Ready, hk], fun _ _ _ _ => id⟩
  | _ => cases h

end Goal

namespace Reader

theorem leads_separator {r₀ r : Reader} {ts : List Token} {es : List Event} {n : Nat}
    {comma : ReadM Token} {dangling : String} {ok : Unit → Reader → Prop}
    {bad : Error → Reader → Prop}
    (hcomma : Leads comma r
      (fun _ r' => ∃ leaf : Leaf [.comma], Passed r₀ r' (ts ++ [leaf.token]) es n) bad)
    (hclose : r.current.kind = .closeParen → ok () r)
    (hnext : ∀ (leaf : Leaf [.comma]) r', Passed r₀ r' (ts ++ [leaf.token]) es n →
      r'.current.kind ≠ .closeParen → ok () r')
    (hbad : ∀ (leaf : Leaf [.comma]) r', Passed r₀ r' (ts ++ [leaf.token]) es n →
      bad (r'.unexpected dangling) r') :
    Leads (separator comma dangling) r ok bad := by
  refine leads_peek ?_
  split
  · next h => exact Leads.pure (hclose h)
  · refine Leads.bind (hcomma.mono ?_ fun _ _ h => h)
    rintro _ r₁ ⟨leaf, p⟩
    refine leads_peek ?_
    split
    · exact Leads.of_error (outcome_reject r₁ _) (hbad leaf r₁ p)
    · next h => exact Leads.pure (hnext leaf r₁ p h)

section Productions

variable {room : Nat} {read : Goal → ReadM Serial}
  (hread : ∀ sub : Goal, sub.ReadBy room (read sub))

include hread

theorem readFullExpr_reads : (Goal.rule .fullExpr).ReadBy (room + 1) (readFullExpr read) := by
  intro r hc _
  refine Leads.bind (leads_read hread (.rule .fullExpr) hc (.refl r) (.inr (by decide)) trivial
    ?_ ?_)
  · intro y r₁ hy p₁ _
    obtain ⟨e, rfl⟩ := Goal.yields_lowest.1 hy
    refine leads_emit p₁ fun r₂ p₂ => ⟨_, ⟨e, rfl⟩, ?_, by simp, trivial⟩
    simpa [ExprTree.fullEvents] using p₂
  · intro y e r' hy h
    obtain ⟨t, rfl⟩ := Goal.yields_lowest.1 hy
    exact ⟨_, ⟨t, rfl⟩, h.mono (by simp [ExprTree.fullEvents])⟩

theorem readOperators_reads (power : Power) (left : Serial) :
    (Goal.operators power left).ReadBy (room + 1) (readOperators .standard read power left) := by
  intro r hc _
  refine leads_peek ?_
  split
  · next hle => exact Leads.pure ⟨_, extends_nil _ _ _ _ _, .refl r, rfl, hle⟩
  · next hlt =>
    have hlt : power.rank < r.current.kind.joinRank := Nat.lt_of_not_le hlt
    obtain ⟨l, hl, hp⟩ := TokenKind.exists_level (k := r.current.kind) (by omega)
    have hrank : ∀ m : Level, m.power = Grammar.standard.power r.current.kind →
        r.current.kind.joinRank = m.rank := fun m hm => by
      rw [TokenKind.joinRank, ← hm, Level.rank_power]
    refine Leads.bind (leads_read hread (.operators power left) hc (.refl r) (.inr Nat.zero_lt_one)
      ⟨l, hl, hp⟩ ?_ ?_)
    · rintro _ r₁ ⟨m, op, right, hm, rfl⟩ p₁ hend
      have hr := hrank m hm
      -- what comes next is no tighter than `op`, so it goes on from the whole
      have hend : r₁.current.kind.joinRank ≤ m.rank := by rw [← hr]; exact hend
      simp only [List.nil_append, Nat.zero_add, Nat.add_zero] at p₁
      refine leads_rest hread hc p₁ (by simp) trivial (fun _ => id) fun y hy => ?_
      have hy : Extends power (r.nextId + right.count) (r.nextId + right.count + 1) r.depth
          r₁.current y := by simpa [Goal.Yields, Nat.add_assoc] using hy
      exact ⟨extends_cons op right (by omega) hr hend hy, List.prefix_rfl⟩
    · rintro _ e r' ⟨m, op, right, hm, rfl⟩ h
      have hr := hrank m hm
      exact ⟨_, extends_cons op right (by omega) hr (Nat.zero_le _)
        (extends_nil _ _ _ _ (.eofAt default)), h.mono (by simp [Yield.after])⟩

theorem readExpr_reads (power : Power) :
    (Goal.expr power).ReadBy (room + 1) (readExpr .standard read power) := by
  intro r hc _
  have habove : power.above.rank ≤ Level.unary.rank := by cases power <;> decide
  have hd : r.deeper.Closed := hc
  refine leads_nested (leads_peek ?_)
  split
  · obtain ⟨e⟩ := (inferInstance : Nonempty (ExprTree (.level power.above)))
    exact Leads.of_error (outcome_fail _)
      ⟨_, ⟨e, rfl⟩, (Halted.here (.refl r.deeper) .mismatch List.nil_prefix).shallower⟩
  · next rule hrule =>
    obtain ⟨hweight, hready, hyields⟩ := Goal.of_opening hrule
    refine Leads.bind (leads_read hread (.expr power) hd (.refl _)
      (.inr (by rw [hweight]; exact Nat.zero_lt_one)) (hready _ rfl) ?_ ?_)
    · intro y r₁ hy p₁ _
      obtain ⟨e, rfl⟩ := hyields _ _ _ _ hy
      -- whatever operators are read, they make a larger tree with `e` on its left
      have hext : ∀ y, (Goal.operators power (e.root r.nextId)).Yields (r.nextId + e.count)
          (r.depth + 1) r₁.current y → _ := fun y hy => hy .unary e r.nextId habove
            (Nat.le_of_lt (TokenKind.joinRank_lt_unary _)) rfl rfl
      refine leads_read hread (.expr power) hd p₁
        (.inl (by simpa using e.tokens_ne_nil (by simp))) trivial ?_ ?_
      · intro y r₂ hy p₂ hend
        obtain ⟨e', ht, hev, hn, hr⟩ := hext y (by simpa using hy)
        refine ⟨_, ⟨e', rfl⟩, ?_, hr, hend⟩
        rw [ht, hev, hn]
        simpa using p₂.shallower
      · intro y err r' hy h
        obtain ⟨e', ht, hev, hn, hr⟩ := hext y (by simpa using hy)
        refine ⟨_, ⟨e', rfl⟩, h.shallower.mono ?_⟩
        rw [hev]
        simp
    · intro y err r' hy h
      obtain ⟨e, rfl⟩ := hyields _ _ _ _ hy
      obtain ⟨e', -, -, he⟩ := ExprTree.exists_alike habove e
      refine ⟨_, ⟨e', rfl⟩, h.shallower.mono ?_⟩
      rw [he]
      simp

theorem readBinary_reads (left : Serial) (power : Power) :
    (Goal.binary left power).ReadBy (room + 1) (readBinary read left power) := by
  rintro r hc ⟨l, hl, rfl⟩
  refine Leads.bind (leads_advance l.kinds hc (.refl r) hl
    (fun h => absurd (Level.mem_kinds_iff.1 h) (Nat.ne_of_lt l.rank_pos)) fun op r₁ p₁ => ?_)
  refine Leads.bind (leads_read hread (.binary left l.power) hc p₁ (.inl (by simp)) trivial ?_ ?_)
  · intro y r₂ hy p₂ hend
    obtain ⟨e, rfl⟩ := (Goal.yields_operand op).1 hy
    refine leads_emit p₂ fun r₃ p₃ => ⟨_, ⟨l, op, e, rfl, rfl⟩, by simpa using p₃, by simp, ?_⟩
    rw [Goal.Ends, p₃.current_eq p₂]
    exact hend
  · intro y e r' hy h
    obtain ⟨t, rfl⟩ := (Goal.yields_operand op).1 hy
    exact ⟨_, ⟨l, op, t, rfl, rfl⟩, h.mono (by simp)⟩

theorem readNegation_reads : (Goal.rule .negation).ReadBy (room + 1) (readNegation read) := by
  intro r hc hready
  refine Leads.bind (leads_advance _ hc (.refl r) hready (by decide) fun op r₁ p₁ => ?_)
  refine Leads.bind (leads_read hread (.rule .negation) hc p₁ (.inl (by simp)) trivial ?_ ?_)
  · intro y r₂ hy p₂ _
    obtain ⟨e, rfl⟩ := Goal.yields_unary.1 hy
    refine leads_emit p₂ fun r₃ p₃ => ⟨_, ⟨.sign op e, rfl⟩, ?_, ?_, trivial⟩
    · simpa [ExprTree.tokens, ExprTree.events, ExprTree.count] using p₃
    · simp [ExprTree.root, ExprTree.count]
  · intro y err r' hy h
    obtain ⟨e, rfl⟩ := Goal.yields_unary.1 hy
    exact ⟨_, ⟨.sign op e, rfl⟩, h.mono (by simp [ExprTree.events])⟩

theorem readGrouping_reads : (Goal.rule .grouping).ReadBy (room + 1) (readGrouping read) := by
  intro r hc hready
  refine Leads.bind (leads_advance _ hc (.refl r) hready (by decide) fun opening r₁ p₁ => ?_)
  refine Leads.bind (leads_read hread (.rule .grouping) hc p₁ (.inl (by simp)) trivial ?_ ?_)
  · intro y r₂ hy p₂ _
    obtain ⟨e, rfl⟩ := Goal.yields_lowest.1 hy
    refine Leads.bind (leads_expect hc p₂ (by decide) (fun closing r₃ p₃ => ?_) ?_)
    · refine Leads.pure ⟨_, ⟨.tighter (by decide) (.grouping opening e closing), rfl⟩, ?_, ?_,
        trivial⟩
      · simpa [ExprTree.tokens, ExprTree.events, ExprTree.count] using p₃
      · simp [ExprTree.root, ExprTree.count]
    · exact ⟨_, ⟨.tighter (by decide) (.grouping opening e default), rfl⟩,
        .here p₂ .mismatch (by simp [ExprTree.events])⟩
  · intro y err r' hy h
    obtain ⟨e, rfl⟩ := Goal.yields_lowest.1 hy
    exact ⟨_, ⟨.tighter (by decide) (.grouping opening e default), rfl⟩,
      h.mono (by simp [ExprTree.events])⟩

theorem readPrimary_reads : (Goal.rule .primary).ReadBy (room + 1) (readPrimary read) := by
  intro r hc _
  refine leads_peek ?_
  have hlit : r.current.kind ∈ [TokenKind.number, .string, .bool] →
      Leads (do let token ← advance; emit (.literal token)) r
        (fun id r' => (Goal.rule .primary).Done r id r')
        (fun e r' => (Goal.rule .primary).Cut (room + 1) r e r') := by
    intro hk
    refine Leads.bind (leads_advance _ hc (.refl r) hk (by decide) fun leaf r₁ p₁ => ?_)
    refine leads_emit p₁ fun r₂ p₂ => ⟨_, ⟨.tighter (by decide) (.literal leaf), rfl⟩, ?_, ?_,
      trivial⟩
    · simpa [ExprTree.tokens, ExprTree.events, ExprTree.count] using p₂
    · simp [ExprTree.root, ExprTree.count]
  split
  · next hk => exact hlit (by simp [hk])
  · next hk => exact hlit (by simp [hk])
  · next hk => exact hlit (by simp [hk])
  · next hk =>
    refine Leads.bind (leads_advance [.identifier] hc (.refl r) (by simp [hk])
      (by decide) fun name r₁ p₁ => ?_)
    refine leads_peek ?_
    split
    · refine leads_rest hread hc p₁ (by simp) trivial (fun _ => id) ?_
      rintro _ ⟨opening, arguments, closing, rfl⟩
      refine ⟨⟨.tighter (by decide) (.call (.apply name opening arguments closing)), ?_⟩,
        List.prefix_rfl⟩
      simp [Yield.after, ExprTree.tokens, ExprTree.events, ExprTree.count, ExprTree.root]
    · refine leads_emit p₁ fun r₂ p₂ => ⟨_, ⟨.tighter (by decide) (.var name), rfl⟩, ?_, ?_,
        trivial⟩
      · simpa [ExprTree.tokens, ExprTree.events, ExprTree.count] using p₂
      · simp [ExprTree.root, ExprTree.count]
  · exact Leads.of_error (outcome_fail r) ⟨_, ⟨.tighter (by decide) (.var default), rfl⟩,
      .here (.refl r) .mismatch List.nil_prefix⟩

theorem readCall_reads (name : Token) :
    (Goal.call name).ReadBy (room + 1) (readCall read name) := by
  intro r hc _
  refine Leads.bind (leads_expect hc (.refl r) (by decide) (fun opening r₁ p₁ => ?_) ?_)
  · refine leads_rest hread hc p₁ (by simp) trivial (fun _ => id) ?_
    rintro _ ⟨arguments, closing, -, rfl⟩
    exact ⟨⟨opening, arguments, closing, by simp [Yield.after]⟩, List.prefix_rfl⟩
  · exact ⟨_, ⟨default, .none, default, rfl⟩, .here (.refl r) .mismatch List.nil_prefix⟩

theorem readArguments_reads (name : Token) (done : List Serial) :
    (Goal.arguments name done).ReadBy (room + 1) (readArguments read name done) := by
  intro r hc _
  refine leads_peek ?_
  split
  · next hk =>
    refine Leads.bind (leads_expect hc (.refl r) (by decide) (fun closing r₁ p₁ => ?_) ?_)
    · refine leads_emit p₁ fun r₂ p₂ => ⟨_, ⟨.none, closing, by simp [hk], rfl⟩, ?_, ?_, trivial⟩
      · simpa [ExprTree.tokens, ExprTree.events, ExprTree.count, ExprTree.ids] using p₂
      · simp [ExprTree.count]
    · exact ⟨_, ⟨.none, default, by simp [hk], rfl⟩, .here (.refl r) .mismatch List.nil_prefix⟩
  · next hk =>
    have hlast : ∀ (e : FullExpr) (r' : Reader) (err : Error),
        Halted ((Goal.arguments name done).cost r < room + 1) r r'
          (e.fullEvents r.nextId r.depth) err →
        (Goal.arguments name done).Cut (room + 1) r err r' := fun e r' err h =>
      ⟨_, ⟨.some (.last e), default, by simp [hk], rfl⟩,
        h.mono (by simp [ExprTree.events, ExprTree.fullEvents])⟩
    refine Leads.bind (leads_read hread (.arguments name done) hc (.refl r)
      (.inr (Nat.lt_succ_self 2)) trivial ?_ ?_)
    · rintro _ r₁ ⟨e, rfl⟩ p₁ _
      have hne : e.tokens ≠ [] := e.tokens_ne_nil (by simp)
      refine Leads.bind (leads_separator
        (leads_require hc p₁ (by decide) (fun comma r₂ p₂ => ⟨comma, p₂⟩) ?_) ?_ ?_ ?_)
      · exact hlast e _ _ (.here p₁ (.unexpected _) (by simp))
      · intro hclose
        refine leads_rest hread hc p₁ (by simpa using hne) trivial (fun _ => id) ?_
        rintro _ ⟨arguments, closing, hiff, rfl⟩
        obtain rfl := hiff.2 hclose
        refine ⟨⟨.some (.last e), closing, by simp [hk], ?_⟩, List.prefix_rfl⟩
        simp [Yield.after, ExprTree.tokens, ExprTree.events, ExprTree.fullEvents, ExprTree.count,
          ExprTree.ids, Nat.add_assoc]
      · intro comma r₂ p₂ hopen
        refine leads_rest hread hc p₂ (by simp) trivial (fun _ => id) ?_
        rintro _ ⟨arguments, closing, hiff, rfl⟩
        cases arguments with
        | none => exact absurd (hiff.1 rfl) hopen
        | some items =>
          refine ⟨⟨.some (.more e comma items), closing, by simp [hk], ?_⟩, List.prefix_rfl⟩
          simp [Yield.after, ExprTree.tokens, ExprTree.events, ExprTree.fullEvents,
            ExprTree.count, ExprTree.ids, Nat.add_assoc]
      · intro comma r₂ p₂
        exact hlast e _ _ (.here p₂ (.unexpected _) (by simp))
    · rintro _ err r' ⟨e, rfl⟩ h
      exact hlast e _ _ (by simpa using h)

end Productions

end Reader

end TinyScript
