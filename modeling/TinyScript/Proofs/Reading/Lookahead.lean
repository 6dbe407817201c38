import TinyScript.Proofs.Reading.OpenTypes

/-! Every goal is read without a look beyond the token at which its reading stops. Where that is a
token that was not expected, the tokens passed are the start of something that the goal yields. -/

namespace TinyScript

def Goal.Begins (goal : Goal) (r : Reader) (ts : List Token) : Prop :=
  ∃ y, goal.Yields r.nextId r.depth r.current y ∧ ts <+: y.tokens

theorem Goal.begins_nil (goal : Goal) {r : Reader} (h : goal.Ready r.current) :
    goal.Begins r [] := by
  obtain ⟨y, hy⟩ := goal.exists_yields r.nextId r.depth h
  exact ⟨y, hy, List.nil_prefix⟩

namespace Reader

variable {r : Reader} {stuck : List Token → Prop}

section Steps

variable {β : Type}

theorem replays_separator {comma : ReadM Token} {dangling : String} {next next' : Unit → ReadM β}
    (ht : TakesKind comma .comma) (hc : r.Closed) (hstuck : stuck [])
    (hdangling : ∀ leaf : Leaf [.comma], stuck [leaf.token])
    (hclose : r.current.kind = .closeParen → Replays (next ()) (next' ()) r stuck)
    (hnext : ∀ (leaf : Leaf [.comma]) (r₁ : Reader), r₁.Closed → r₁.current.kind ≠ .closeParen →
      Replays (next ()) (next' ()) r₁ fun ts => stuck (leaf.token :: ts)) :
    Replays (separator comma dangling >>= next) (separator comma dangling >>= next') r stuck := by
  unfold separator
  simp only [bind_assoc]
  refine replays_peek ?_
  split
  · next h => simpa only [pure_bind] using hclose h
  · simp only [bind_assoc]
    refine replays_take ht (by decide) hc hstuck fun leaf r₁ hc₁ => replays_peek ?_
    split
    · exact (replays_reject _ (hdangling leaf)).bind hc₁ fun _ _ _ ho => by cases ho
    · next h => simpa only [pure_bind] using hnext leaf r₁ hc₁ h

theorem replays_opened {kind : EventKind} {next next' : Serial → ReadM β}
    (h : Replays (next r.nextId) (next' r.nextId) (r.emitted kind) stuck) :
    Replays (do let id ← freshId; emitAs id kind; next id)
      (do let id ← freshId; emitAs id kind; next' id) r stuck := by
  change Replays (emit kind >>= next) (emit kind >>= next') r stuck
  exact replays_emitted h

theorem replays_exit (id : Serial) (kind : EventKind) :
    Replays (do emitAs id kind; return id) (do emitAs id kind; return id) r stuck :=
  have ho : outcome (do emitAs id kind; return id) r = (.ok id, r.record id kind) := rfl
  .of_outcome [] ho (.stay rfl fun _ => rfl)

theorem replays_word {word : TokenKind} {kind : EventKind} {goal : Goal} (hk : word ≠ .eof)
    (hc : r.Closed) (h : ∀ leaf : Leaf [word], ∃ y, goal.Yields r.nextId r.depth r.current y ∧
      y.tokens = [leaf.token, (default : Leaf [.semicolon]).token]) :
    Replays (readWord word kind) (readWord word kind) r (goal.Begins r) := by
  have hbegins : ∀ (leaf : Leaf [word]) ts, ts <+: [leaf.token] → goal.Begins r ts := by
    intro leaf ts hts
    obtain ⟨y, hy, htokens⟩ := h leaf
    exact ⟨y, hy, hts.trans (by simp [htokens])⟩
  refine replays_take (takesKind_expect _) hk hc (hbegins default _ List.nil_prefix)
    fun leaf r₁ hc₁ => ?_
  exact replays_take (takesKind_expect _) (by decide) hc₁ (hbegins leaf _ List.prefix_rfl)
    fun _ _ _ => replays_emit _

end Steps

structure Rereads (room : Nat) (read read' : Goal → ReadM Serial) : Prop where
  sound : ∀ sub : Goal, sub.ReadBy room (read sub)
  replays : ∀ (sub : Goal) ⦃r : Reader⦄, r.Closed → sub.Ready r.current →
    Replays (read sub) (read' sub) r (sub.Begins r)

section Productions

variable {room : Nat} {read read' : Goal → ReadM Serial} (h : Rereads room read read')

include h

theorem Rereads.bind {β : Type} {next next' : Serial → ReadM β} (sub : Goal) (hc : r.Closed)
    (hr : sub.Ready r.current)
    (hstuck : ∀ y ts, sub.Yields r.nextId r.depth r.current y → ts <+: y.tokens → stuck ts)
    (hnext : ∀ y r₁, sub.Yields r.nextId r.depth r.current y →
      Passed r r₁ y.tokens y.events y.count → sub.Ends r₁.current → r₁.Closed →
      Replays (next y.root) (next' y.root) r₁ fun ts => stuck (y.tokens ++ ts)) :
    Replays (read sub >>= next) (read' sub >>= next') r stuck := by
  have hbegins := (h.replays sub hc hr).mono fun ts ⟨y, hy, hts⟩ => hstuck y ts hy hts
  refine hbegins.bind hc fun id r₁ us ho hus hc₁ => ?_
  obtain ⟨y, hy, p, rfl, hends⟩ := (h.sound sub hc hr).ok_of ho
  obtain rfl : us = y.tokens := List.append_cancel_right (hus.symm.trans p.tokens)
  exact hnext y r₁ hy p hends hc₁

theorem Rereads.rest (sub : Goal) (hc : r.Closed) (hr : sub.Ready r.current)
    (hstuck : ∀ y ts, sub.Yields r.nextId r.depth r.current y → ts <+: y.tokens → stuck ts) :
    Replays (read sub) (read' sub) r stuck :=
  (h.replays sub hc hr).mono fun ts ⟨y, hy, hts⟩ => hstuck y ts hy hts

theorem readFullExpr_replays (hc : r.Closed) : Replays (readFullExpr read) (readFullExpr read') r
    ((Goal.rule .fullExpr).Begins r) := by
  refine h.bind (.expr .lowest) hc trivial ?_ fun _ _ _ _ _ _ => replays_emit _
  intro y ts hy hts
  obtain ⟨e, rfl⟩ := Goal.yields_lowest.1 hy
  exact ⟨_, ⟨e, rfl⟩, hts⟩

theorem readExpr_replays (power : Power) (hc : r.Closed) :
    Replays (readExpr .standard read power) (readExpr .standard read' power) r
      ((Goal.expr power).Begins r) := by
  have habove : power.above.rank ≤ Level.unary.rank := by cases power <;> decide
  have hd : r.deeper.Closed := hc
  refine Replays.nested (replays_peek ?_)
  split
  · exact replays_fail (Goal.begins_nil _ trivial)
  · next rule hrule =>
    obtain ⟨-, hready, hyields⟩ := Goal.of_opening hrule
    refine h.bind (.rule rule) hd (hready _ rfl) ?_ ?_
    · intro y ts hy hts
      obtain ⟨e, rfl⟩ := hyields _ _ _ _ hy
      obtain ⟨e', htokens, -⟩ := ExprTree.exists_alike habove e
      exact ⟨_, ⟨e', rfl⟩, hts.trans (by simp [htokens])⟩
    · intro y r₁ hy p _ hc₁
      obtain ⟨e, rfl⟩ := hyields _ _ _ _ hy
      refine h.rest (.operators power _) hc₁ trivial fun y ts hy hts => ?_
      rw [p.nextId, p.depth] at hy
      obtain ⟨e', htokens, -⟩ := hy .unary e r.nextId habove
        (Nat.le_of_lt (TokenKind.joinRank_lt_unary _)) rfl rfl
      exact ⟨_, ⟨e', rfl⟩, by simpa [htokens] using hts⟩

theorem readOperators_replays (power : Power) (left : Serial) (hc : r.Closed) :
    Replays (readOperators .standard read power left) (readOperators .standard read' power left) r
      ((Goal.operators power left).Begins r) := by
  refine replays_peek ?_
  split
  · exact replays_pure _
  · next hlt =>
    have hlt : power.rank < r.current.kind.joinRank := Nat.lt_of_not_le hlt
    obtain ⟨l, hl, hp⟩ := TokenKind.exists_level (k := r.current.kind) (by omega)
    have hrank : ∀ m : Level, m.power = Grammar.standard.power r.current.kind →
        r.current.kind.joinRank = m.rank := fun m hm => by
      rw [TokenKind.joinRank, ← hm, Level.rank_power]
    refine h.bind (.binary left _) hc ⟨l, hl, hp⟩ ?_ ?_
    · rintro _ ts ⟨m, op, right, hm, rfl⟩ hts
      have hr := hrank m hm
      refine ⟨_, extends_cons op right (by omega) hr (Nat.zero_le _)
        (extends_nil _ _ _ _ (.eofAt default)), ?_⟩
      simpa [Yield.after] using hts
    · rintro _ r₁ ⟨m, op, right, hm, rfl⟩ p hend hc₁
      have hr := hrank m hm
      have hend : r₁.current.kind.joinRank ≤ m.rank := by rw [← hr]; exact hend
      refine h.rest (.operators power _) hc₁ trivial fun y ts hy hts => ?_
      rw [p.nextId, p.depth] at hy
      refine ⟨_, extends_cons op right (by omega) hr hend hy, ?_⟩
      simpa [Yield.after] using hts

theorem readBinary_replays (left : Serial) (power : Power) (hc : r.Closed)
    (hready : (Goal.binary left power).Ready r.current) :
    Replays (readBinary read left power) (readBinary read' left power) r
      ((Goal.binary left power).Begins r) := by
  obtain ⟨l, hl, rfl⟩ := hready
  refine replays_advance l.kinds hc hl
    (fun h => absurd (Level.mem_kinds_iff.1 h) (Nat.ne_of_lt l.rank_pos)) fun op r₁ hc₁ => ?_
  refine h.bind (.expr l.power) hc₁ trivial ?_ fun _ _ _ _ _ _ => replays_emit _
  intro y ts hy hts
  obtain ⟨e, rfl⟩ := (Goal.yields_operand op).1 hy
  exact ⟨_, ⟨l, op, e, rfl, rfl⟩, by simpa using hts⟩

theorem readNegation_replays (hc : r.Closed) (hready : (Goal.rule .negation).Ready r.current) :
    Replays (readNegation read) (readNegation read') r ((Goal.rule .negation).Begins r) := by
  refine replays_advance _ hc hready (by decide) fun op r₁ hc₁ => ?_
  refine h.bind (.expr .unary) hc₁ trivial ?_ fun _ _ _ _ _ _ => replays_emit _
  intro y ts hy hts
  obtain ⟨e, rfl⟩ := Goal.yields_unary.1 hy
  exact ⟨_, ⟨.sign op e, rfl⟩, by simpa [ExprTree.tokens] using hts⟩

theorem readGrouping_replays (hc : r.Closed) (hready : (Goal.rule .grouping).Ready r.current) :
    Replays (readGrouping read) (readGrouping read') r ((Goal.rule .grouping).Begins r) := by
  refine replays_advance _ hc hready (by decide) fun opening r₁ hc₁ => ?_
  have hbegins : ∀ (e : FullExpr) ts, ts <+: e.tokens →
      (Goal.rule .grouping).Begins r (opening.token :: ts) := fun e ts hts =>
    ⟨_, ⟨.tighter (by decide) (.grouping opening e default), rfl⟩,
      by simp [ExprTree.tokens, List.prefix_append_of_prefix hts]⟩
  refine h.bind (.expr .lowest) hc₁ trivial ?_ ?_
  · intro y ts hy hts
    obtain ⟨e, rfl⟩ := Goal.yields_lowest.1 hy
    exact hbegins e ts hts
  · intro y r₂ hy _ _ hc₂
    obtain ⟨e, rfl⟩ := Goal.yields_lowest.1 hy
    exact replays_take (takesKind_expect _) (by decide) hc₂ (hbegins e _ (by simp))
      fun _ _ _ => replays_pure _

theorem readPrimary_replays (hc : r.Closed) :
    Replays (readPrimary read) (readPrimary read') r ((Goal.rule .primary).Begins r) := by
  have hlit : r.current.kind ∈ [TokenKind.number, .string, .bool] →
      Replays (do let token ← advance; emit (.literal token))
        (do let token ← advance; emit (.literal token)) r ((Goal.rule .primary).Begins r) :=
    fun hk => replays_advance _ hc hk (by decide) fun _ _ _ => replays_emit _
  refine replays_peek ?_
  split
  · next hk => exact hlit (by simp [hk])
  · next hk => exact hlit (by simp [hk])
  · next hk => exact hlit (by simp [hk])
  · next hk =>
    refine replays_advance [.identifier] hc (by simp [hk]) (by decide) fun name r₁ hc₁ => ?_
    refine replays_peek ?_
    split
    · refine h.rest (.call _) hc₁ trivial ?_
      rintro _ ts ⟨opening, arguments, closing, rfl⟩ hts
      exact ⟨_, ⟨.tighter (by decide) (.call (.apply name opening arguments closing)), rfl⟩,
        by simpa [ExprTree.tokens] using hts⟩
    · exact replays_emit _
  · exact replays_fail (Goal.begins_nil _ trivial)

theorem readCall_replays (name : Token) (hc : r.Closed) :
    Replays (readCall read name) (readCall read' name) r ((Goal.call name).Begins r) := by
  refine replays_take (takesKind_expect _) (by decide) hc (Goal.begins_nil _ trivial)
    fun opening r₁ hc₁ => ?_
  refine h.rest (.arguments name []) hc₁ trivial ?_
  rintro _ ts ⟨arguments, closing, -, rfl⟩ hts
  exact ⟨_, ⟨opening, arguments, closing, rfl⟩, by simpa using hts⟩

theorem readArguments_replays (name : Token) (done : List Serial) (hc : r.Closed) :
    Replays (readArguments read name done) (readArguments read' name done) r
      ((Goal.arguments name done).Begins r) := by
  refine replays_peek ?_
  split
  · exact replays_take (takesKind_expect _) (by decide) hc (Goal.begins_nil _ trivial)
      fun _ _ _ => replays_emit _
  · next hk =>
    -- an argument that is followed by a mistake can be the last, or have another after it
    have hmore : ∀ (e : FullExpr) (comma : Leaf [.comma]) ts, ts <+: e.tokens ++ [comma.token] →
        (Goal.arguments name done).Begins r ts := fun e comma ts hts =>
      ⟨_, ⟨.some (.more e comma (.last (Classical.arbitrary _))), default, by simp [hk], rfl⟩,
        hts.trans (by simp [ExprTree.tokens])⟩
    refine h.bind (.rule .fullExpr) hc trivial ?_ ?_
    · rintro _ ts ⟨e, rfl⟩ hts
      exact hmore e default ts (List.prefix_append_of_prefix hts)
    · rintro _ r₁ ⟨e, rfl⟩ p _ hc₁
      refine replays_separator (takesKind_require _ _) hc₁ (hmore e default _ (by simp))
        (fun comma => hmore e comma _ (by simp)) ?_ ?_
      · intro hclose
        refine h.rest (.arguments name _) hc₁ trivial ?_
        rintro _ ts ⟨arguments, closing, hiff, rfl⟩ hts
        obtain rfl := hiff.2 hclose
        exact ⟨_, ⟨.some (.last e), closing, by simp [hk], rfl⟩,
          by simpa [ExprTree.tokens] using hts⟩
      · intro comma r₂ hc₂ hopen
        refine h.rest (.arguments name _) hc₂ trivial ?_
        rintro _ ts ⟨arguments, closing, hiff, rfl⟩ hts
        cases arguments with
        | none => exact absurd (hiff.1 rfl) hopen
        | some items =>
          exact ⟨_, ⟨.some (.more e comma items), closing, by simp [hk], rfl⟩,
            by simpa [ExprTree.tokens] using hts⟩

theorem readStatement_replays (hc : r.Closed) :
    Replays (readStatement .standard read) (readStatement .standard read') r
      ((Goal.rule .statement).Begins r) := by
  have hd : r.deeper.Closed := hc
  refine replays_peek ?_
  split
  · next rule hrule =>
    obtain ⟨-, hready, hyields⟩ := Goal.of_statement hrule
    refine Replays.nested (h.rest (.rule rule) hd (hready _) fun y ts hy hts => ?_)
    obtain ⟨s, rfl⟩ := hyields _ _ _ _ hy
    exact ⟨_, ⟨s, rfl⟩, hts⟩
  · split <;> exact replays_reject _ (Goal.begins_nil _ trivial)

theorem readBlock_replays (hc : r.Closed) :
    Replays (readBlock read) (readBlock read') r ((Goal.rule .block).Begins r) := by
  have hd : r.deeper.Closed := hc
  refine Replays.nested (replays_take (takesKind_expect _) (by decide) hd
    (Goal.begins_nil _ trivial) fun opening r₁ hc₁ => replays_opened ?_)
  refine h.rest (.statements _) hc₁ trivial ?_
  rintro _ ts ⟨body, closing, rfl⟩ hts
  exact ⟨_, ⟨.braces opening body closing, rfl⟩, by simpa [StmtTree.tokens] using hts⟩

theorem readStatements_replays (block : Serial) (hc : r.Closed) :
    Replays (readStatements read block) (readStatements read' block) r
      ((Goal.statements block).Begins r) := by
  refine replays_peek ?_
  split
  · exact replays_take (takesKind_expect _) (by decide) hc (Goal.begins_nil _ trivial)
      fun _ _ _ => replays_exit _ _
  split
  · exact replays_reject _ (Goal.begins_nil _ trivial)
  · refine h.bind (.rule .statement) hc trivial ?_ ?_
    · rintro _ ts ⟨s, rfl⟩ hts
      exact ⟨_, ⟨.cons s .nil, default, rfl⟩,
        by simpa [StmtTree.tokens] using List.prefix_append_of_prefix hts⟩
    · rintro _ r₁ ⟨s, rfl⟩ _ _ hc₁
      refine h.rest (.statements block) hc₁ trivial ?_
      rintro _ ts ⟨body, closing, rfl⟩ hts
      exact ⟨_, ⟨.cons s body, closing, rfl⟩, by simpa [StmtTree.tokens] using hts⟩

theorem readAssignment_replays (hc : r.Closed) :
    Replays (readAssignment read) (readAssignment read') r ((Goal.rule .assignment).Begins r) := by
  refine replays_take (takesKind_expect _) (by decide) hc (Goal.begins_nil _ trivial)
    fun name r₁ hc₁ => replays_emitted ?_
  have hbegins : ∀ (mark : Leaf [.assignment]) (value : FullExpr) ts,
      ts <+: mark.token :: value.tokens → (Goal.rule .assignment).Begins r (name.token :: ts) :=
    fun mark value ts hts => ⟨_, ⟨.assign name mark value default, rfl⟩, by
      simpa [StmtTree.tokens] using
        hts.trans (List.prefix_append _ [(default : Leaf [.semicolon]).token])⟩
  refine replays_take (takesKind_require _ _) (by decide) hc₁
    (hbegins default (Classical.arbitrary _) _ List.nil_prefix) fun mark r₂ hc₂ => ?_
  refine h.bind (.rule .fullExpr) hc₂ trivial ?_ ?_
  · rintro _ ts ⟨value, rfl⟩ hts
    exact hbegins mark value _ ((List.prefix_cons_inj _).2 hts)
  · rintro _ r₃ ⟨value, rfl⟩ _ _ hc₃
    exact replays_take (takesKind_expect _) (by decide) hc₃ (hbegins mark value _ (by simp))
      fun _ _ _ => replays_emit _

theorem replays_condition {β : Type} {next next' : Serial → ReadM β} (hc : r.Closed)
    (hstuck : ∀ (opening : Leaf [.openParen]) (e : FullExpr) ts,
      ts <+: opening.token :: e.tokens → stuck ts)
    (hnext : ∀ (opening : Leaf [.openParen]) (e : FullExpr) (closing : Leaf [.closeParen])
      (id : Serial) (r₁ : Reader), r₁.Closed → Replays (next id) (next' id) r₁ fun ts =>
        stuck (opening.token :: (e.tokens ++ closing.token :: ts))) :
    Replays (readCondition read >>= next) (readCondition read' >>= next') r stuck := by
  unfold readCondition
  simp only [bind_assoc, pure_bind]
  refine replays_take (takesKind_expect _) (by decide) hc
    (hstuck default (Classical.arbitrary _) _ List.nil_prefix) fun opening r₁ hc₁ => ?_
  refine h.bind (.rule .fullExpr) hc₁ trivial ?_ ?_
  · rintro _ ts ⟨e, rfl⟩ hts
    exact hstuck opening e _ ((List.prefix_cons_inj _).2 hts)
  · rintro _ r₂ ⟨e, rfl⟩ _ _ hc₂
    exact replays_take (takesKind_expect _) (by decide) hc₂ (hstuck opening e _ (by simp))
      fun closing r₃ hc₃ => hnext opening e closing _ r₃ hc₃

theorem readConditional_replays (hc : r.Closed) :
    Replays (readConditional read) (readConditional read') r
      ((Goal.rule .conditional).Begins r) := by
  refine replays_take (takesKind_expect _) (by decide) hc (Goal.begins_nil _ trivial)
    fun word r₁ hc₁ => ?_
  refine replays_condition h hc₁ ?_ ?_
  · intro opening e ts hts
    refine ⟨_, ⟨.ifThen word opening e default default, rfl⟩, ?_⟩
    simpa [StmtTree.tokens] using List.prefix_append_of_prefix hts
  · intro opening e closing _ r₂ hc₂
    refine h.bind (.rule .block) hc₂ trivial ?_ ?_
    · rintro _ ts ⟨yes, rfl⟩ hts
      exact ⟨_, ⟨.ifThen word opening e closing yes, rfl⟩, by simpa [StmtTree.tokens] using hts⟩
    · rintro _ r₃ ⟨yes, rfl⟩ _ _ hc₃
      refine replays_peek ?_
      split
      · next hk =>
        refine replays_advance [.elseWord] hc₃ (by simpa using hk) (by decide)
          fun otherwise r₄ hc₄ => ?_
        refine h.bind (.rule .block) hc₄ trivial ?_ fun _ _ _ _ _ _ => replays_emit _
        rintro _ ts ⟨no, rfl⟩ hts
        exact ⟨_, ⟨.ifElse word opening e closing yes otherwise no, rfl⟩,
          by simpa [StmtTree.tokens] using hts⟩
      · exact replays_emit _

theorem readLoop_replays (hc : r.Closed) :
    Replays (readLoop read) (readLoop read') r ((Goal.rule .loop).Begins r) := by
  refine replays_take (takesKind_expect _) (by decide) hc (Goal.begins_nil _ trivial)
    fun word r₁ hc₁ => ?_
  refine replays_condition h hc₁ ?_ ?_
  · intro opening e ts hts
    refine ⟨_, ⟨.loop word opening e default default, rfl⟩, ?_⟩
    simpa [StmtTree.tokens] using List.prefix_append_of_prefix hts
  · intro opening e closing _ r₂ hc₂
    refine h.bind (.rule .block) hc₂ trivial ?_ fun _ _ _ _ _ _ => replays_emit _
    rintro _ ts ⟨body, rfl⟩ hts
    exact ⟨_, ⟨.loop word opening e closing body, rfl⟩, by simpa [StmtTree.tokens] using hts⟩

theorem readReturn_replays (hc : r.Closed) :
    Replays (readReturn read) (readReturn read') r ((Goal.rule .ret).Begins r) := by
  refine replays_take (takesKind_expect _) (by decide) hc (Goal.begins_nil _ trivial)
    fun word r₁ hc₁ => ?_
  have hbegins : ∀ (value : FullExpr) ts, ts <+: value.tokens →
      (Goal.rule .ret).Begins r (word.token :: ts) := fun value ts hts =>
    ⟨_, ⟨.ret word value default, rfl⟩,
      by simpa [StmtTree.tokens] using List.prefix_append_of_prefix hts⟩
  refine replays_peek ?_
  split
  · exact replays_reject _ (hbegins (Classical.arbitrary _) _ List.nil_prefix)
  · refine h.bind (.rule .fullExpr) hc₁ trivial ?_ ?_
    · rintro _ ts ⟨value, rfl⟩ hts
      exact hbegins value ts hts
    · rintro _ r₂ ⟨value, rfl⟩ _ _ hc₂
      exact replays_take (takesKind_expect _) (by decide) hc₂ (hbegins value _ (by simp))
        fun _ _ _ => replays_emit _

theorem readTest_replays (hc : r.Closed) :
    Replays (readTest read) (readTest read') r ((Goal.rule .test).Begins r) := by
  refine replays_take (takesKind_expect _) (by decide) hc (Goal.begins_nil _ trivial)
    fun word r₁ hc₁ => ?_
  have hbegins : ∀ (call : ExprTree .call) (mark : Leaf [.equals]) (expected : FullExpr) ts,
      ts <+: call.tokens ++ mark.token :: expected.tokens →
      (Goal.rule .test).Begins r (word.token :: ts) := fun call mark expected ts hts =>
    ⟨_, ⟨.test word call mark expected default, rfl⟩, by
      simpa [StmtTree.tokens] using
        hts.trans (List.prefix_append _ [(default : Leaf [.semicolon]).token])⟩
  have hcall : ∀ (call : ExprTree .call) ts, ts <+: call.tokens →
      (Goal.rule .test).Begins r (word.token :: ts) := fun call ts hts =>
    hbegins call default (Classical.arbitrary _) ts (List.prefix_append_of_prefix hts)
  refine replays_take (takesKind_require _ _) (by decide) hc₁
    (hcall (.apply default default .none default) _ List.nil_prefix) fun name r₂ hc₂ => ?_
  refine replays_peek ?_
  split
  · refine h.bind (.call _) hc₂ trivial ?_ ?_
    · rintro _ ts ⟨opening, arguments, closing, rfl⟩ hts
      exact hcall (.apply name opening arguments closing) _
        (by simpa [ExprTree.tokens] using hts)
    · rintro _ r₃ ⟨opening, arguments, closing, rfl⟩ _ _ hc₃
      refine replays_emitted (replays_take (takesKind_require _ _) (by decide) hc₃ ?_
        fun mark r₄ hc₄ => ?_)
      · exact hcall (.apply name opening arguments closing) _ (by simp [ExprTree.tokens])
      refine h.bind (.rule .fullExpr) hc₄ trivial ?_ ?_
      · rintro _ ts ⟨expected, rfl⟩ hts
        exact hbegins (.apply name opening arguments closing) mark expected _
          (by simpa [ExprTree.tokens] using hts)
      · rintro _ r₅ ⟨expected, rfl⟩ _ _ hc₅
        refine replays_take (takesKind_expect _) (by decide) hc₅ ?_ fun _ _ _ => replays_emit _
        exact hbegins (.apply name opening arguments closing) mark expected _
          (by simp [ExprTree.tokens])
  · exact replays_reject _ (hcall (.apply name default .none default) _ (by simp [ExprTree.tokens]))

theorem readFunction_replays (hc : r.Closed) :
    Replays (readFunction read) (readFunction read') r ((Goal.rule .function).Begins r) := by
  have hd : r.deeper.Closed := hc
  have hbegins : ∀ (word : Leaf [.defWord]) (name : Leaf [.identifier]) ts,
      ts <+: [word.token, name.token] → (Goal.rule .function).Begins r ts :=
    fun word name ts hts => ⟨_, ⟨⟨word, name, default, .none, default, .none, default⟩, rfl⟩,
      hts.trans (by simp [FunctionTree.tokens])⟩
  refine Replays.nested (replays_take (takesKind_expect _) (by decide) hd
    (hbegins default default _ List.nil_prefix) fun word r₁ hc₁ => ?_)
  refine replays_take (takesKind_require _ _) (by decide) hc₁ (hbegins word default _ (by simp))
    fun name r₂ hc₂ => ?_
  refine replays_take (takesKind_expect _) (by decide) hc₂ (hbegins word name _ List.prefix_rfl)
    fun opening r₃ hc₃ => ?_
  refine h.rest (.parameters _ []) hc₃ trivial ?_
  rintro _ ts ⟨parameters, closing, result, body, -, rfl⟩ hts
  exact ⟨_, ⟨⟨word, name, opening, parameters, closing, result, body⟩, rfl⟩,
    by simpa [FunctionTree.tokens] using hts⟩

theorem readParameters_replays (name : Token) (done : List (Token × Option DataType))
    (hc : r.Closed) : Replays (readParameters .standard read name done)
      (readParameters .standard read' name done) r ((Goal.parameters name done).Begins r) := by
  refine replays_peek ?_
  split
  · next hk =>
    have hbegins : ∀ (closing : Leaf [.closeParen]) (result : AnnotationTree .arrow)
        (body : StmtTree .block) ts, ts <+: closing.token :: (result.tokens ++ body.tokens) →
        (Goal.parameters name done).Begins r ts := fun closing result body ts hts =>
      ⟨_, ⟨.none, closing, result, body, by simp [hk], rfl⟩,
        by simpa [ParametersTree.tokens] using hts⟩
    refine replays_take (takesKind_expect _) (by decide) hc (Goal.begins_nil _ trivial)
      fun closing r₁ hc₁ => ?_
    refine replays_annotated (.inr rfl) hc₁ ?_ fun result r₂ hc₂ => ?_
    · intro result ts hts
      exact hbegins closing result default _
        ((List.prefix_cons_inj _).2 (List.prefix_append_of_prefix hts))
    refine h.bind (.rule .block) hc₂ trivial ?_ fun _ _ _ _ _ _ => replays_emit _
    rintro _ ts ⟨body, rfl⟩ hts
    exact hbegins closing result body _ (by simpa using hts)
  · next hk =>
    have hmore : ∀ (parameter : Leaf [.identifier]) (type : AnnotationTree .colon)
        (comma : Leaf [.comma]) ts, ts <+: parameter.token :: (type.tokens ++ [comma.token]) →
        (Goal.parameters name done).Begins r ts := fun parameter type comma ts hts =>
      ⟨_, ⟨.some (.more ⟨parameter, type⟩ comma (.last ⟨default, .none⟩)), default, .none, default,
        by simp [hk], rfl⟩, hts.trans (by
          simp [ParametersTree.tokens, ParameterItems.tokens, ParameterTree.tokens])⟩
    refine replays_take (takesKind_require _ _) (by decide) hc (Goal.begins_nil _ trivial)
      fun parameter r₁ hc₁ => ?_
    refine replays_annotated (.inl rfl) hc₁ ?_ fun type r₂ hc₂ => ?_
    · intro type ts hts
      exact hmore parameter type default _
        ((List.prefix_cons_inj _).2 (List.prefix_append_of_prefix hts))
    refine replays_separator (takesKind_expect _) hc₂ (hmore parameter type default _ (by simp))
      (fun comma => hmore parameter type comma _ (by simp)) ?_ ?_
    · intro hclose
      refine h.rest (.parameters name _) hc₂ trivial ?_
      rintro _ ts ⟨parameters, closing, result, body, hiff, rfl⟩ hts
      obtain rfl := hiff.2 hclose
      refine ⟨_, ⟨.some (.last ⟨parameter, type⟩), closing, result, body, by simp [hk], rfl⟩, ?_⟩
      simpa [ParametersTree.tokens, ParameterItems.tokens, ParameterTree.tokens] using hts
    · intro comma r₃ hc₃ hopen
      refine h.rest (.parameters name _) hc₃ trivial ?_
      rintro _ ts ⟨parameters, closing, result, body, hiff, rfl⟩ hts
      cases parameters with
      | none => exact absurd (hiff.1 rfl) hopen
      | some items =>
        refine ⟨_, ⟨.some (.more ⟨parameter, type⟩ comma items), closing, result, body,
          by simp [hk], rfl⟩, ?_⟩
        simpa [ParametersTree.tokens, ParameterItems.tokens, ParameterTree.tokens] using hts

theorem readProgram_replays (ss fs : List Serial) (hc : r.Closed) :
    Replays (readProgram read ss fs) (readProgram read' ss fs) r
      ((Goal.program ss fs).Begins r) := by
  have hbegins : ∀ (item : ItemTree) (items : List ItemTree) ts,
      ts <+: item.tokens ++ items.flatMap ItemTree.tokens → (Goal.program ss fs).Begins r ts :=
    fun item items ts hts => ⟨_, ⟨item :: items, rfl⟩, by simpa using hts⟩
  refine replays_peek ?_
  split
  · exact replays_emit _
  split
  · refine h.bind (.rule .function) hc trivial ?_ ?_
    · rintro _ ts ⟨f, rfl⟩ hts
      exact hbegins (.function f) [] _ (by simpa [ItemTree.tokens] using hts)
    · rintro _ r₁ ⟨f, rfl⟩ _ _ hc₁
      refine h.rest (.program ss _) hc₁ trivial ?_
      rintro _ ts ⟨items, rfl⟩ hts
      exact hbegins (.function f) items _ (by simpa [ItemTree.tokens] using hts)
  · refine h.bind (.rule .statement) hc trivial ?_ ?_
    · rintro _ ts ⟨s, rfl⟩ hts
      exact hbegins (.statement s) [] _ (by simpa [ItemTree.tokens] using hts)
    · rintro _ r₁ ⟨s, rfl⟩ _ _ hc₁
      refine h.rest (.program _ fs) hc₁ trivial ?_
      rintro _ ts ⟨items, rfl⟩ hts
      exact hbegins (.statement s) items _ (by simpa [ItemTree.tokens] using hts)

theorem step_replays (goal : Goal) (hc : r.Closed) (hready : goal.Ready r.current) :
    Replays (step .standard read goal) (step .standard read' goal) r (goal.Begins r) := by
  cases goal with
  | rule rule =>
    cases rule with
    | fullExpr => exact readFullExpr_replays h hc
    | primary => exact readPrimary_replays h hc
    | negation => exact readNegation_replays h hc hready
    | grouping => exact readGrouping_replays h hc hready
    | statement => exact readStatement_replays h hc
    | block => exact readBlock_replays h hc
    | function => exact readFunction_replays h hc
    | assignment => exact readAssignment_replays h hc
    | conditional => exact readConditional_replays h hc
    | loop => exact readLoop_replays h hc
    | ret => exact readReturn_replays h hc
    | brk => exact replays_word (by decide) hc fun word => ⟨_, ⟨.brk word default, rfl⟩, rfl⟩
    | cont => exact replays_word (by decide) hc fun word => ⟨_, ⟨.cont word default, rfl⟩, rfl⟩
    | test => exact readTest_replays h hc
  | expr power => exact readExpr_replays h power hc
  | operators power left => exact readOperators_replays h power left hc
  | binary left power => exact readBinary_replays h left power hc hready
  | call name => exact readCall_replays h name hc
  | arguments name done => exact readArguments_replays h name done hc
  | statements block => exact readStatements_replays h block hc
  | parameters name done => exact readParameters_replays h name done hc
  | program ss fs => exact readProgram_replays h ss fs hc

end Productions

/-- Whatever room there is for goals within goals, more makes no difference to a reading, and
neither does what comes after the token at which it stops. -/
theorem within_replays {n m : Nat} (hnm : n ≤ m) (goal : Goal) (hc : r.Closed)
    (hready : goal.Ready r.current) :
    Replays (within .standard n goal) (within .standard m goal) r (goal.Begins r) := by
  induction n generalizing m goal r with
  | zero => exact replays_starved
  | succ n ih =>
    obtain ⟨m, rfl⟩ := Nat.exists_eq_add_of_lt hnm
    have hrereads : Rereads n (within .standard n) (within .standard (n + m)) :=
      ⟨within_reads n, fun sub r hc hready => ih (Nat.le_add_right n m) sub hc hready⟩
    exact step_replays hrereads goal hc hready

end Reader

end TinyScript
