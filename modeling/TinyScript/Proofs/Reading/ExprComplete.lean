import TinyScript.Proofs.Reading.StmtSound

/-! Whatever has a derivation as an expression is read as that derivation. A tree at a level of
operators is read from its leftmost operand on, in one loop over the operators: reading the tree
comes down to going on with the loop behind it. -/

namespace TinyScript

def Goal.Takes (goal : Goal) (n : Nat) (r : Reader) (y : Yield) : Prop :=
  Leads (Reader.within .standard n goal) r
    (fun (id : Nat) r' => id = y.root ∧ r.Passed r' y.tokens y.events y.count) fun _ _ => False

namespace Reader

structure Stands (r : Reader) (us : List Token) (i d : Nat) : Prop where
  closed : r.Closed
  tokens : r.tokens = us
  nextId : r.nextId = i
  depth : r.depth = d

namespace Stands

variable {r r' : Reader} {ts us : List Token} {es : List Event} {i d n : Nat}

theorem after (s : Stands r (ts ++ us) i d) (p : Passed r r' ts es n) : Stands r' us (i + n) d where
  closed := p.closed s.closed
  tokens := List.append_cancel_left (p.tokens.symm.trans s.tokens)
  nextId := by rw [p.nextId, s.nextId]
  depth := by rw [p.depth, s.depth]

theorem deeper (s : Stands r us i d) : Stands r.deeper us i (d + 1) :=
  ⟨s.closed, s.tokens, s.nextId, congrArg (· + 1) s.depth⟩

theorem current_eq {t : Token} (s : Stands r (t :: us) i d) : r.current = t :=
  (List.cons.inj s.tokens).1

theorem current_mem_head (s : Stands r us i d) : r.current ∈ us.head? := by
  rw [← s.tokens]
  rfl

end Stands

section Steps

variable {r₀ r : Reader} {ts us : List Token} {es : List Event} {n i d : Nat}
  {bad : Error → Reader → Prop}

theorem leads_take {kinds : List TokenKind} {ok : Token → Reader → Prop} {leaf : Leaf kinds}
    (p : Passed r₀ r ts es n) (s : Stands r (leaf.token :: us) i d) (hk : .eof ∉ kinds)
    (hok : ∀ r', Passed r₀ r' (ts ++ [leaf.token]) es n → Stands r' us i d → ok leaf.token r') :
    Leads advance r ok bad := by
  have hkind : r.current.kind ≠ .eof := fun he => hk (he ▸ s.current_eq ▸ leaf.mem)
  have q := passed_next (s.closed.upcoming_ne_nil hkind) hkind
  rw [s.current_eq] at q
  have h := hok _ (by simpa using p.trans q) (s.after q)
  exact Leads.of_ok (outcome_advance r) (s.current_eq ▸ h)

theorem leads_takeOr {kind : TokenKind} {error : Option Error} {ok : Token → Reader → Prop}
    {leaf : Leaf [kind]} (p : Passed r₀ r ts es n) (s : Stands r (leaf.token :: us) i d)
    (hk : kind ≠ .eof)
    (hok : ∀ r', Passed r₀ r' (ts ++ [leaf.token]) es n → Stands r' us i d → ok leaf.token r') :
    Leads (expectOr kind error) r ok bad := by
  have ho := outcome_expectOr r kind error
  rw [if_pos (by rw [s.current_eq, leaf.kind_eq])] at ho
  have ha : Leads advance r ok bad := leads_take p s (by simpa using hk.symm) hok
  exact Leads.of_ok ho (ha.ok_of (outcome_advance r))

theorem leads_mark {kind : EventKind} {ok : Serial → Reader → Prop} (p : Passed r₀ r ts es n)
    (s : Stands r us i d)
    (hok : ∀ r', Passed r₀ r' ts (es ++ [⟨i, d, kind⟩]) (n + 1) → Stands r' us (i + 1) d →
      ok i r') :
    Leads (emit kind) r ok bad := by
  have q := passed_emitted r kind
  rw [s.nextId, s.depth] at q
  have h := hok _ (by simpa using p.trans q) (Stands.after (by simpa using s) q)
  exact Leads.of_ok (outcome_emit r kind) (s.nextId ▸ h)

theorem leads_within {goal : Goal} {m : Nat} {y : Yield} {ok : Serial → Reader → Prop}
    (p : Passed r₀ r ts es n) (s : Stands r (y.tokens ++ us) i d) (h : goal.Takes m r y)
    (hok : ∀ r', Passed r₀ r' (ts ++ y.tokens) (es ++ y.events) (n + y.count) →
      Stands r' us (i + y.count) d → ok y.root r') :
    Leads (within .standard m goal) r ok bad := by
  refine h.mono ?_ fun _ _ => False.elim
  rintro _ r' ⟨rfl, q⟩
  exact hok r' (p.trans q) (s.after q)

theorem leads_close {comma : ReadM Token} {dangling : String} {ok : Unit → Reader → Prop}
    (h : r.current.kind = .closeParen) (hok : ok () r) :
    Leads (separator comma dangling) r ok bad := by
  refine leads_peek ?_
  rw [if_pos h]
  exact Leads.pure hok

theorem leads_comma {comma : ReadM Token} {dangling : String} {ok : Unit → Reader → Prop}
    (h : r.current.kind ≠ .closeParen)
    (hcomma : Leads comma r (fun _ r' => r'.current.kind ≠ .closeParen ∧ ok () r') bad) :
    Leads (separator comma dangling) r ok bad := by
  refine leads_peek ?_
  rw [if_neg h]
  refine Leads.bind (hcomma.mono ?_ fun _ _ hb => hb)
  rintro _ r' ⟨h', hok⟩
  refine leads_peek ?_
  rw [if_neg h']
  exact Leads.pure hok

def operand (power : Power) (n : Nat) : ReadM Serial := do
  match Grammar.standard.opening? (← peek) with
  | none => fail
  | some rule =>
    let left ← within .standard n (.rule rule)
    within .standard n (.operators power left)

theorem leads_operand {power : Power} {rule : Rule} {y : Yield} {ok : Serial → Reader → Prop}
    (hrule : Grammar.standard.opening? r.current.kind = some rule)
    (s : Stands r (y.tokens ++ us) i d) (h : (Goal.rule rule).Takes n r y)
    (hok : ∀ r', Passed r r' y.tokens y.events y.count →
      Leads (within .standard n (.operators power y.root)) r' ok bad) :
    Leads (operand power n) r ok bad := by
  refine leads_peek ?_
  rw [hrule]
  exact Leads.bind (leads_within (.refl r) s h fun r' p _ => hok r' (by simpa using p))

end Steps

end Reader

open Reader

theorem Power.rank_injective : Function.Injective Power.rank := by
  intro p q h
  cases p <;> cases q <;> first | rfl | exact absurd h (by decide)

theorem Level.power_eq {l : Level} {k : TokenKind} (h : k ∈ l.kinds) :
    Grammar.standard.power k = l.power :=
  Power.rank_injective ((mem_kinds_iff.1 h).trans l.rank_power.symm)

theorem Leaf.power_not_le {l : Level} (op : Leaf l.kinds) {power : Power}
    (h : power.above.rank ≤ l.rank) : ¬l.power ≤ power := by
  have hl := op.token.kind.joinRank_lt_unary
  rw [op.joinRank_eq] at hl
  rw [Power.le_iff, l.rank_power]
  cases power <;> simp only [Power.above, Power.rank, Level.rank] at h hl ⊢ <;> omega

namespace ExprTree

/-- A tree is read from its tokens. At a level of operators, reading an operand there takes the
tree and goes on with the operators after it. -/
def Complete : {p : ExprPart} → ExprTree p → Prop
  | .level l, e => ∀ ⦃power : Power⦄ ⦃n : Nat⦄ ⦃r : Reader⦄ ⦃rest : List Token⦄ ⦃i d : Nat⦄
      ⦃ok : Serial → Reader → Prop⦄ ⦃bad : Error → Reader → Prop⦄,
      power.above.rank ≤ l.rank → (ExprPart.level l.next).Follows rest →
      Stands r (e.tokens ++ rest) i d → (Goal.rule .primary).cost r < n →
      (∀ m r', Passed r r' e.tokens (e.events i d) e.count →
        (Goal.operators power (e.root i)).cost r' < m →
        Leads (within .standard m (.operators power (e.root i))) r' ok bad) →
      Leads (operand power n) r ok bad
  | .call, .apply name opening arguments closing =>
    ∀ ⦃n : Nat⦄ ⦃r : Reader⦄ ⦃rest : List Token⦄ ⦃i d : Nat⦄,
      Stands r (opening.token :: (arguments.tokens ++ closing.token :: rest)) i d →
      (Goal.call name.token).cost r < n → (Goal.call name.token).Takes n r
        ⟨opening.token :: (arguments.tokens ++ [closing.token]), arguments.events i d ++
          [⟨i + arguments.count, d, .call name.token (arguments.ids i)⟩], arguments.count + 1,
          i + arguments.count⟩
  | .arguments, e | .items, e =>
    ∀ ⦃name : Token⦄ ⦃done : List Serial⦄ ⦃n : Nat⦄ ⦃r : Reader⦄ ⦃rest : List Token⦄ ⦃i d : Nat⦄
      (closing : Leaf [.closeParen]), Stands r (e.tokens ++ closing.token :: rest) i d →
      (Goal.arguments name done).cost r < n → (Goal.arguments name done).Takes n r
        ⟨e.tokens ++ [closing.token], e.events i d ++
          [⟨i + e.count, d, .call name (done ++ e.ids i)⟩], e.count + 1, i + e.count⟩

theorem Complete.expr {l : Level} {e : ExprTree (.level l)} (he : Complete e) {power : Power}
    {n : Nat} {r : Reader} {rest : List Token} {i d : Nat} (hp : power.above.rank ≤ l.rank)
    (hf : (ExprPart.level l.next).Follows rest)
    (hstop : ∀ t ∈ rest.head?, t.kind.joinRank ≤ power.rank) (s : Stands r (e.tokens ++ rest) i d)
    (hn : (Goal.expr power).cost r < n) :
    (Goal.expr power).Takes n r ⟨e.tokens, e.events i (d + 1), e.count, e.root i⟩ := by
  cases n with
  | zero => exact absurd hn (Nat.not_lt_zero _)
  | succ n =>
    have hn : (Goal.rule .primary).cost r < n :=
      Goal.cost_lt (.expr power) (.refl r) (.inr Nat.zero_lt_one) hn
    refine leads_nested (he hp hf s.deeper hn fun m r' p hm => ?_)
    have s' := s.deeper.after p
    cases m with
    | zero => exact absurd hm (Nat.not_lt_zero _)
    | succ m =>
      refine leads_peek ?_
      have hle : Grammar.standard.power r'.current.kind ≤ power := hstop _ s'.current_mem_head
      rw [if_pos hle]
      exact Leads.pure ⟨rfl, p.shallower⟩

theorem follows_next {l : Level} {rest : List Token} (h : (ExprPart.level l).Follows rest) :
    (ExprPart.level l.next).Follows rest := by
  by_cases hl : l = .primary
  · subst hl
    exact h
  · exact follows_tail hl [] h

theorem Complete.fullExpr {e : FullExpr} (he : Complete e) {n : Nat} {r : Reader}
    {rest : List Token} {i d : Nat} (hf : (ExprPart.level .logical).Follows rest)
    (s : Stands r (e.tokens ++ rest) i d) (hn : (Goal.rule .fullExpr).cost r < n) :
    (Goal.rule .fullExpr).Takes n r ⟨e.tokens, e.fullEvents i d, e.count + 1, i + e.count⟩ := by
  cases n with
  | zero => exact absurd hn (Nat.not_lt_zero _)
  | succ n =>
    have hn : (Goal.expr .lowest).cost r < n :=
      Goal.cost_lt (.rule .fullExpr) (.refl r) (.inr (by decide)) hn
    refine Leads.bind (leads_within (.refl r) s (he.expr (Nat.le_refl _) (follows_next hf)
      (fun t ht => Nat.le_of_lt_succ (hf t ht).2) s hn) fun r₁ p₁ s₁ => ?_)
    refine leads_mark p₁ s₁ fun r₂ p₂ _ => ⟨rfl, ?_⟩
    simpa [fullEvents] using p₂

theorem takes_binary {l : Level} (op : Leaf l.kinds) {right : ExprTree (.level l.next)}
    (ih : Complete right) {left : Serial} {n : Nat} {r : Reader} {rest : List Token} {i d : Nat}
    (hf : (ExprPart.level l.next).Follows rest)
    (s : Stands r (op.token :: (right.tokens ++ rest)) i d)
    (hn : (Goal.binary left l.power).cost r < n) :
    (Goal.binary left l.power).Takes n r ⟨op.token :: right.tokens, right.events i (d + 1) ++
      [⟨i + right.count, d, .binary op.token left (right.root i)⟩], right.count + 1,
      i + right.count⟩ := by
  have hl : l ≠ .primary := by rintro rfl; exact absurd op.mem List.not_mem_nil
  cases n with
  | zero => exact absurd hn (Nat.not_lt_zero _)
  | succ n =>
    refine Leads.bind (leads_take (.refl r) s
      (fun h => absurd (Level.mem_kinds_iff.1 h) (Nat.ne_of_lt l.rank_pos)) fun r₁ p₁ s₁ => ?_)
    have hn₁ : (Goal.expr l.power).cost r₁ < n :=
      Goal.cost_lt (.binary left l.power) p₁ (.inl (by simp)) hn
    have hstop : ∀ t ∈ rest.head?, t.kind.joinRank ≤ l.power.rank := fun t ht => by
      have := (hf t ht).2
      rw [Level.rank_next hl] at this
      rw [l.rank_power]
      omega
    refine Leads.bind (leads_within p₁ s₁ (ih.expr (Nat.le_of_eq (by rw [Level.above_power op]))
      (follows_next hf) hstop s₁ hn₁) fun r₂ p₂ s₂ => ?_)
    exact leads_mark p₂ s₂ fun r₃ p₃ _ => ⟨rfl, by simpa using p₃⟩

theorem complete_join {l : Level} {left : ExprTree (.level l)} (op : Leaf l.kinds)
    {right : ExprTree (.level l.next)} (ihl : Complete left) (ihr : Complete right) :
    Complete (.join left op right) := by
  intro power n r rest i d ok bad hp hf s hn hok
  have hl : l ≠ .primary := by rintro rfl; exact absurd op.mem List.not_mem_nil
  have hrank := Level.rank_next hl
  have hop : (ExprPart.level l.next).Follows (op.token :: (right.tokens ++ rest)) := by
    rintro t ⟨⟩
    exact ⟨op.kind_ne_of_joinRank rfl, by rw [op.joinRank_eq]; omega⟩
  have s : Stands r (left.tokens ++ op.token :: (right.tokens ++ rest)) i d := by
    simpa [tokens] using s
  -- behind `left` the loop stands before `op`, and after it behind the whole
  refine ihl hp hop s hn fun m r₁ p₁ hm => ?_
  have s₁ := s.after p₁
  cases m with
  | zero => exact absurd hm (Nat.not_lt_zero _)
  | succ m =>
    have hm₁ : (Goal.binary (left.root i) l.power).cost r₁ < m :=
      Goal.cost_lt (.operators power (left.root i)) (.refl r₁) (.inr Nat.zero_lt_one) hm
    refine leads_peek ?_
    rw [s₁.current_eq, Level.power_eq op.mem, if_neg (op.power_not_le hp)]
    refine Leads.bind (leads_within (.refl r₁) s₁ (takes_binary op ihr hf s₁ hm₁)
      fun r₂ q s₂ => ?_)
    have hroot : i + left.count + right.count = (join left op right).root i := by
      simp only [root, count]
      omega
    have hm₂ : (Goal.operators power ((join left op right).root i)).cost r₂ < m :=
      Goal.cost_lt (.operators power (left.root i)) q (.inl (by simp)) hm
    rw [hroot]
    refine hok m r₂ ?_ hm₂
    simpa [tokens, events, count, Nat.add_assoc] using p₁.trans q

theorem complete_tighter {l : Level} (hl : l ≠ .primary) {inner : ExprTree (.level l.next)}
    (ih : Complete inner) : Complete (.tighter hl inner) := by
  intro power n r rest i d ok bad hp hf s hn hok
  have hrank := Level.rank_next hl
  exact ih (by omega) (follows_next hf) s hn hok

theorem complete_of_takes {l : Level} {e : ExprTree (.level l)} (rule : Rule)
    (hrule : ∀ ⦃t ts⦄, e.tokens = t :: ts → Grammar.standard.opening? t.kind = Option.some rule)
    (h : ∀ ⦃n : Nat⦄ ⦃r : Reader⦄ ⦃rest : List Token⦄ ⦃i d : Nat⦄,
      (ExprPart.level l.next).Follows rest → Stands r (e.tokens ++ rest) i d →
      (Goal.rule .primary).cost r < n + 1 →
      (Goal.rule rule).Takes (n + 1) r ⟨e.tokens, e.events i d, e.count, e.root i⟩) :
    Complete e := by
  intro power n r rest i d ok bad hp hf s hn hok
  obtain ⟨t, ts, ht, -⟩ := e.tokens_head (by simp)
  have hcur : r.current = t := by
    rw [ht] at s
    exact s.current_eq
  cases n with
  | zero => exact absurd hn (Nat.not_lt_zero _)
  | succ n =>
    refine leads_operand (hcur ▸ hrule ht) s (h hf s hn) fun r' p => hok (n + 1) r' p ?_
    exact Nat.lt_succ_of_lt (Goal.cost_lt (.rule .primary) p (.inl (by simp [ht])) hn)

theorem complete_sign (op : Leaf [.not, .dash]) {operand : ExprTree (.level .unary)}
    (ih : Complete operand) : Complete (.sign op operand) := by
  refine complete_of_takes .negation ?_ fun n r rest i d hf s hn => ?_
  · rintro t ts ⟨⟩
    have := op.mem
    simp only [List.mem_cons, List.not_mem_nil, or_false] at this
    rcases this with h | h <;> rw [h] <;> rfl
  · refine Leads.bind (leads_take (.refl r) s (by decide) fun r₁ p₁ s₁ => ?_)
    have hn₁ : (Goal.expr .unary).cost r₁ < n :=
      Goal.cost_lt (.rule .negation) p₁ (.inl (by simp)) hn
    refine Leads.bind (leads_within p₁ s₁ (ih.expr (Nat.le_refl _) hf
      (fun t _ => Nat.le_of_lt t.kind.joinRank_lt_unary) s₁ hn₁) fun r₂ p₂ s₂ => ?_)
    refine leads_mark p₂ s₂ fun r₃ p₃ _ => ⟨?_, ?_⟩
    · simp [root, count]
    · simpa [tokens, events, count] using p₃

theorem complete_literal (value : Leaf [.number, .string, .bool]) : Complete (.literal value) := by
  have hk := value.mem
  simp only [List.mem_cons, List.not_mem_nil, or_false] at hk
  refine complete_of_takes .primary ?_ fun n r rest i d hf s hn => ?_
  · rintro t ts ⟨⟩
    rcases hk with h | h | h <;> rw [h] <;> rfl
  · have hlit : Leads (do let token ← advance; emit (.literal token)) r
        (fun id r' => id = i ∧ Passed r r' [value.token] [⟨i, d, .literal value.token⟩] 1)
        fun _ _ => False := by
      refine Leads.bind (leads_take (.refl r) s (by decide) fun r₁ p₁ s₁ => ?_)
      exact leads_mark p₁ s₁ fun r₂ p₂ _ => ⟨rfl, by simpa using p₂⟩
    refine leads_peek ?_
    rw [s.current_eq]
    rcases hk with h | h | h <;> rw [h] <;> exact hlit

theorem complete_var (name : Leaf [.identifier]) : Complete (.var name) := by
  refine complete_of_takes .primary ?_ fun n r rest i d hf s hn => ?_
  · rintro t ts ⟨⟩
    rw [name.kind_eq]
    rfl
  · refine leads_peek ?_
    rw [s.current_eq, name.kind_eq]
    refine Leads.bind (leads_take (.refl r) s (by decide) fun r₁ p₁ s₁ => leads_peek ?_)
    rw [if_neg (hf _ s₁.current_mem_head).1]
    exact leads_mark p₁ s₁ fun r₂ p₂ _ => ⟨rfl, by simpa [tokens, events, count] using p₂⟩

theorem complete_call {inner : ExprTree .call} (ih : Complete inner) : Complete (.call inner) := by
  cases inner with
  | apply name opening arguments closing =>
    refine complete_of_takes .primary ?_ fun n r rest i d hf s hn => ?_
    · rintro t ts ⟨⟩
      rw [name.kind_eq]
      rfl
    · have s : Stands r (name.token :: opening.token :: (arguments.tokens ++ closing.token :: rest))
          i d := by simpa [tokens] using s
      refine leads_peek ?_
      rw [s.current_eq, name.kind_eq]
      refine Leads.bind (leads_take (.refl r) s (by decide) fun r₁ p₁ s₁ => leads_peek ?_)
      rw [s₁.current_eq, if_pos opening.kind_eq]
      have hn₁ : (Goal.call name.token).cost r₁ < n :=
        Goal.cost_lt (.rule .primary) p₁ (.inl (by simp)) hn
      refine leads_within p₁ (by simpa using s₁) (ih s₁ hn₁) fun r₂ p₂ _ => ⟨?_, ?_⟩
      · simp [root, count]
      · simpa [tokens, events, count] using p₂

theorem complete_grouping (opening : Leaf [.openParen]) {inner : FullExpr}
    (closing : Leaf [.closeParen]) (ih : Complete inner) :
    Complete (.grouping opening inner closing) := by
  refine complete_of_takes .grouping ?_ fun n r rest i d hf s hn => ?_
  · rintro t ts ⟨⟩
    rw [opening.kind_eq]
    rfl
  · have s : Stands r (opening.token :: (inner.tokens ++ closing.token :: rest)) i d := by
      simpa [tokens] using s
    have hclose := follows_leaf (l := .logical) closing rest (by decide)
    refine Leads.bind (leads_take (.refl r) s (by decide) fun r₁ p₁ s₁ => ?_)
    have hn₁ : (Goal.expr .lowest).cost r₁ < n :=
      Goal.cost_lt (.rule .grouping) p₁ (.inl (by simp)) hn
    refine Leads.bind (leads_within p₁ s₁ (ih.expr (Nat.le_refl _) (follows_next hclose)
      (fun t ht => Nat.le_of_lt_succ (hclose t ht).2) s₁ hn₁) fun r₂ p₂ s₂ => ?_)
    refine Leads.bind (leads_takeOr p₂ s₂ (by decide) fun r₃ p₃ _ => ?_)
    exact Leads.pure ⟨rfl, by simpa [tokens, events, count] using p₃⟩

theorem complete_apply (name : Leaf [.identifier]) (opening : Leaf [.openParen])
    {arguments : ExprTree .arguments} (closing : Leaf [.closeParen]) (ih : Complete arguments) :
    Complete (.apply name opening arguments closing) := by
  intro n r rest i d s hn
  cases n with
  | zero => exact absurd hn (Nat.not_lt_zero _)
  | succ n =>
    refine Leads.bind (leads_takeOr (.refl r) s (by decide) fun r₁ p₁ s₁ => ?_)
    have hn₁ : (Goal.arguments name.token []).cost r₁ < n :=
      Goal.cost_lt (.call name.token) p₁ (.inl (by simp)) hn
    exact leads_within p₁ (by simpa using s₁) (ih closing s₁ hn₁) fun r₂ p₂ _ =>
      ⟨rfl, by simpa using p₂⟩

theorem complete_none : Complete .none := by
  intro name done n r rest i d closing s hn
  cases n with
  | zero => exact absurd hn (Nat.not_lt_zero _)
  | succ n =>
    refine leads_peek ?_
    rw [s.current_eq, if_pos closing.kind_eq]
    refine Leads.bind (leads_takeOr (.refl r) s (by decide) fun r₁ p₁ s₁ => ?_)
    exact leads_mark p₁ s₁ fun r₂ p₂ _ => ⟨rfl, by simpa [tokens, events, count, ids] using p₂⟩

theorem takes_argument {item : FullExpr} (ih : Complete item) {name : Token} {done : List Serial}
    {n : Nat} {r : Reader} {us : List Token} {i d : Nat} {y : Yield}
    (hf : (ExprPart.level .logical).Follows us) (s : Stands r (item.tokens ++ us) i d)
    (hn : (Goal.arguments name done).cost r < n + 1)
    (hrest : ∀ r₁, Passed r r₁ item.tokens (item.fullEvents i d) (item.count + 1) →
      Stands r₁ us (i + (item.count + 1)) d →
      Leads (do
        separator (require .comma "expected `,` between call arguments")
          "expected argument after `,`"
        within .standard n (.arguments name (done ++ [i + item.count]))) r₁
        (fun id r' => id = y.root ∧ r.Passed r' y.tokens y.events y.count) fun _ _ => False) :
    (Goal.arguments name done).Takes (n + 1) r y := by
  obtain ⟨t, ts, ht, hk⟩ := item.tokens_head (by simp)
  have hopen : r.current.kind ≠ .closeParen := by
    rw [ht] at s
    rw [s.current_eq]
    exact fun he => absurd (he ▸ hk) (by decide)
  refine leads_peek ?_
  rw [if_neg hopen]
  have hn₁ : (Goal.rule .fullExpr).cost r < n :=
    Goal.cost_lt (.arguments name done) (.refl r) (.inr (Nat.lt_succ_self 2)) hn
  exact Leads.bind (leads_within (.refl r) s (ih.fullExpr hf s hn₁) fun r₁ p₁ s₁ =>
    hrest r₁ (by simpa using p₁) s₁)

theorem complete_last {item : FullExpr} (ih : Complete item) : Complete (.last item) := by
  intro name done n r rest i d closing s hn
  cases n with
  | zero => exact absurd hn (Nat.not_lt_zero _)
  | succ n =>
    refine takes_argument ih (follows_leaf closing rest (by decide)) s hn fun r₁ p₁ s₁ => ?_
    have hn₁ : (Goal.arguments name (done ++ [i + item.count])).cost r₁ < n :=
      Goal.cost_lt (.arguments name done) p₁ (.inl (item.tokens_ne_nil (by simp))) hn
    refine Leads.bind (leads_close (s₁.current_eq ▸ closing.kind_eq) ?_)
    refine leads_within p₁ s₁ (complete_none closing s₁ hn₁) fun r₂ p₂ _ => ⟨?_, ?_⟩
    · simp [count]
    · simpa [tokens, events, fullEvents, count, ids, Nat.add_assoc] using p₂

theorem complete_more {item : FullExpr} (comma : Leaf [.comma]) {more : ExprTree .items}
    (ihi : Complete item) (ihm : Complete more) : Complete (.more item comma more) := by
  intro name done n r rest i d closing s hn
  cases n with
  | zero => exact absurd hn (Nat.not_lt_zero _)
  | succ n =>
    have s : Stands r (item.tokens ++ comma.token :: (more.tokens ++ closing.token :: rest)) i d :=
      by simpa [tokens] using s
    refine takes_argument ihi (follows_leaf comma _ (by decide)) s hn fun r₁ p₁ s₁ => ?_
    have hcomma : r₁.current.kind ≠ .closeParen := s₁.current_eq ▸ comma.kind_ne (by decide)
    refine Leads.bind (leads_comma hcomma (leads_takeOr p₁ s₁ (by decide) fun r₂ p₂ s₂ => ⟨?_, ?_⟩))
    · obtain ⟨t, ts, ht, hk⟩ := more.tokens_head (by simp)
      rw [ht] at s₂
      rw [s₂.current_eq]
      exact fun he => absurd (he ▸ hk) (by decide)
    · have hn₂ : (Goal.arguments name (done ++ [i + item.count])).cost r₂ < n :=
        Goal.cost_lt (.arguments name done) p₂ (.inl (by simp)) hn
      refine leads_within p₂ (by simpa using s₂) (ihm closing s₂ hn₂) fun r₃ p₃ _ => ⟨?_, ?_⟩
      · simp [count, Nat.add_assoc]
      · simpa [tokens, events, fullEvents, count, ids, Nat.add_assoc] using p₃

theorem complete {p : ExprPart} (e : ExprTree p) : Complete e := by
  induction e with
  | join _ op _ ihl ihr => exact complete_join op ihl ihr
  | tighter h _ ih => exact complete_tighter h ih
  | sign op _ ih => exact complete_sign op ih
  | literal value => exact complete_literal value
  | var name => exact complete_var name
  | call _ ih => exact complete_call ih
  | grouping opening _ closing ih => exact complete_grouping opening closing ih
  | apply name opening _ closing ih => exact complete_apply name opening closing ih
  | none => exact complete_none
  | some _ ih => exact ih
  | last _ ih => exact complete_last ih
  | more _ comma _ ihi ihm => exact complete_more comma ihi ihm

end ExprTree

end TinyScript
