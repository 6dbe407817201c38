import TinyScript.Proofs.Reading.StmtComplete

/-! Parsing accepts exactly the lists of tokens that have a derivation, up to the first end of
text, and records the events of the derivation. A parse that fails has recorded a part of the events
of some derivation, without the event that closes it. -/

namespace TinyScript

open Reader

namespace ItemTree

theorem follows_items_eof (items : List ItemTree) {t : Token} (ht : t.kind = .eof)
    (ts : List Token) : StmtPart.statement.Follows (items.flatMap tokens ++ t :: ts) := by
  cases items with
  | nil =>
    rintro _ ⟨⟩
    simp [ht]
  | cons item items =>
    obtain ⟨u, us, hu, -⟩ := item.tokens_head
    intro v hv
    refine follows_items (item :: items) v ?_
    simpa [hu] using hv

theorem takes (items : List ItemTree) {t : Token} (ht : t.kind = .eof) {ts : List Token}
    {ss fs : List Serial} {n : Nat} {r : Reader} {i d : Nat}
    (s : Stands r (items.flatMap tokens ++ t :: ts) i d) (hn : (Goal.program ss fs).cost r < n) :
    (Goal.program ss fs).Takes n r ⟨items.flatMap tokens, eventsAll items i (d + 1) ++
      [⟨i + countAll items, d, .program (ss ++ statementIds items i)
        (fs ++ functionIds items i)⟩], countAll items + 1, i + countAll items⟩ := by
  induction items generalizing ss fs n r i with
  | nil =>
    cases n with
    | zero => exact absurd hn (Nat.not_lt_zero _)
    | succ n =>
      refine leads_peek ?_
      rw [s.current_eq, if_pos ht]
      refine leads_mark (.refl r) s fun r₁ p₁ _ => ⟨rfl, ?_⟩
      simpa [eventsAll, countAll, statementIds, functionIds] using p₁
  | cons item items ih =>
    have hf := follows_items_eof items ht ts
    have s : Stands r (item.tokens ++ (items.flatMap tokens ++ t :: ts)) i d := by
      simpa using s
    cases n with
    | zero => exact absurd hn (Nat.not_lt_zero _)
    | succ n =>
      cases item with
      | statement st =>
        obtain ⟨u, us, hu, hk⟩ := st.tokens_lead
        have hcur : r.current.kind ∈ StmtTree.leads := by
          have s := s
          simp only [tokens, hu] at s
          rw [s.current_eq, hk]
          exact st.lead_mem
        refine leads_peek ?_
        rw [if_neg fun he => absurd (he ▸ hcur) (by decide),
          if_neg fun he => absurd (he ▸ hcur) (by decide)]
        have hn₁ : (Goal.rule .statement).cost r < n :=
          Goal.cost_lt (.program ss fs) (.refl r) (.inr (Nat.lt_succ_self 1)) hn
        refine Leads.bind (leads_within (.refl r) s (st.complete hf s hn₁) fun r₁ p₁ s₁ => ?_)
        have hn₂ : (Goal.program (ss ++ [st.root i]) fs).cost r₁ < n :=
          Goal.cost_lt (.program ss fs) p₁ (.inl (by simpa using st.tokens_ne_nil)) hn
        refine leads_within p₁ s₁ (ih s₁ hn₂) fun r₂ p₂ _ => ⟨?_, ?_⟩
        · simp [countAll, count, Nat.add_assoc]
        · simpa [tokens, events, count, eventsAll, countAll, statementIds, functionIds,
            Nat.add_assoc] using p₂
      | function f =>
        have hcur : r.current.kind = .defWord := by
          have s := s
          simp only [tokens, FunctionTree.tokens] at s
          rw [s.current_eq, f.word.kind_eq]
        refine leads_peek ?_
        rw [if_neg (by simp [hcur]), if_pos hcur]
        have hn₁ : (Goal.rule .function).cost r < n :=
          Goal.cost_lt (.program ss fs) (.refl r) (.inr Nat.zero_lt_two) hn
        refine Leads.bind (leads_within (.refl r) s (f.takes s hn₁) fun r₁ p₁ s₁ => ?_)
        have hn₂ : (Goal.program ss (fs ++ [i + f.body.count])).cost r₁ < n :=
          Goal.cost_lt (.program ss fs) p₁ (.inl (by simp [FunctionTree.tokens])) hn
        refine leads_within p₁ s₁ (ih s₁ hn₂) fun r₂ p₂ _ => ⟨?_, ?_⟩
        · simp [countAll, count, Nat.add_assoc]
        · simpa [tokens, events, count, eventsAll, countAll, statementIds, functionIds,
            Nat.add_assoc] using p₂

end ItemTree

def beforeEnd (tokens : List Token) : List Token := tokens.takeWhile (·.kind ≠ .eof)

theorem beforeEnd_append {ts : List Token} (h : ∀ t ∈ ts, t.kind ≠ .eof) {t : Token}
    (ht : t.kind = .eof) (us : List Token) : beforeEnd (ts ++ t :: us) = ts := by
  rw [beforeEnd, List.takeWhile_append_of_pos (by simpa using h),
    List.takeWhile_cons_of_neg (by simp [ht]), List.append_nil]

theorem exists_beforeEnd {ts : List Token} (h : ∃ t ∈ ts, t.kind = .eof) :
    ∃ t us, t.kind = .eof ∧ ts = beforeEnd ts ++ t :: us := by
  induction ts with
  | nil => simp at h
  | cons t ts ih =>
    by_cases ht : t.kind = .eof
    · exact ⟨t, ts, ht, by simp [beforeEnd, ht]⟩
    · obtain ⟨u, us, hu, hts⟩ := ih (by simpa [ht] using h)
      refine ⟨u, us, hu, ?_⟩
      conv_lhs => rw [hts]
      simp [beforeEnd, ht]

namespace Reader

theorem cons_closed (t : Token) (ts : List Token) :
    ∃ us, t :: closed t ts = t :: ts ++ us ∧ (∀ u ∈ us, u.kind = .eof) ∧
      ∃ u ∈ (t :: closed t ts).getLast?, u.kind = .eof := by
  induction ts generalizing t with
  | nil =>
    by_cases ht : t.kind = .eof
    · exact ⟨[], by simp [closed, ht], by simp, by simp [closed, ht]⟩
    · exact ⟨[.eofAt t.span.stop], by simp [closed, ht], by simp [Token.eofAt],
        by simp [closed, ht, Token.eofAt]⟩
  | cons u us ih =>
    obtain ⟨vs, hvs, heof, hlast⟩ := ih u
    exact ⟨vs, by rw [closed, hvs]; rfl, heof, by rwa [closed, List.getLast?_cons_cons]⟩

@[simp] theorem ofTokens_events (tokens : List Token) (file : String) :
    (ofTokens tokens file).events = #[] := by cases tokens <;> rfl

@[simp] theorem ofTokens_nextId (tokens : List Token) (file : String) :
    (ofTokens tokens file).nextId = 0 := by cases tokens <;> rfl

@[simp] theorem ofTokens_depth (tokens : List Token) (file : String) :
    (ofTokens tokens file).depth = 0 := by cases tokens <;> rfl

theorem closed_ofTokens (tokens : List Token) (file : String) : (ofTokens tokens file).Closed := by
  cases tokens with
  | nil => exact ⟨.eofAt ⟨0, file⟩, rfl, rfl⟩
  | cons t ts =>
    obtain ⟨_, _, _, hlast⟩ := cons_closed t ts
    exact hlast

theorem beforeEnd_ofTokens (tokens : List Token) (file : String) :
    beforeEnd (ofTokens tokens file).tokens = beforeEnd tokens := by
  cases tokens with
  | nil => rfl
  | cons t ts =>
    obtain ⟨us, hus, heof, _⟩ := cons_closed t ts
    have htokens : (ofTokens (t :: ts) file).tokens = t :: ts ++ us := hus
    have hend : us.takeWhile (·.kind ≠ .eof) = [] := by
      cases us with
      | nil => rfl
      | cons u us => simp [heof u List.mem_cons_self]
    rw [htokens, beforeEnd, beforeEnd, List.takeWhile_append, hend, List.append_nil]
    split
    · next h => exact ((List.takeWhile_sublist _).eq_of_length h).symm
    · rfl

theorem Closed.exists_eof {r : Reader} (h : r.Closed) : ∃ t ∈ r.tokens, t.kind = .eof :=
  have ⟨t, ht, hk⟩ := h
  ⟨t, List.mem_of_mem_getLast? ht, hk⟩

end Reader

section Parse

variable {tokens : List Token} {file : String}

theorem parse_eq : parse tokens file =
    match outcome (within .standard (ofTokens tokens file).maxGoals (.program [] []))
      (ofTokens tokens file) with
    | (.ok _, r) => (.ok r.events.toList, r)
    | (.error e, r) => (.error e, r) := rfl

theorem cost_lt_maxGoals (goal : Goal) (r : Reader) : goal.cost r < r.maxGoals := by
  have hweight := goal.weight_lt
  unfold Goal.cost maxGoals
  omega

theorem parse_of_ok {es : List Event} {r : Reader} (h : parse tokens file = (.ok es, r)) :
    ∃ t : ProgramTree, t.tokens = beforeEnd tokens ∧ es = t.events ∧ r.events.toList = es := by
  have hread := within_reads (ofTokens tokens file).maxGoals (.program [] [])
    (closed_ofTokens tokens file) trivial
  rw [parse_eq] at h
  split at h
  · next id r' ho =>
    obtain ⟨rfl, rfl⟩ : r'.events.toList = es ∧ r' = r := by simpa using h
    obtain ⟨_, ⟨items, rfl⟩, p, -, hend⟩ := hread.ok_of ho
    refine ⟨⟨items⟩, ?_, ?_, rfl⟩
    · have := beforeEnd_append p.inside hend r'.upcoming
      rw [← beforeEnd_ofTokens tokens file, p.tokens]
      exact this.symm
    · simpa [ProgramTree.events, ProgramTree.lastEvent] using p.events
  · cases h

theorem parse_of_error {e : Error} {r : Reader} (h : parse tokens file = (.error e, r)) :
    (∃ items, r.events.toList <+: ItemTree.eventsAll items 0 1) ∧
      ∃ ts, (ofTokens tokens file).tokens = ts ++ r.tokens ∧ Blame True ts r e := by
  have hread := within_reads (ofTokens tokens file).maxGoals (.program [] [])
    (closed_ofTokens tokens file) trivial
  rw [parse_eq] at h
  split at h
  · cases h
  · next e' r' ho =>
    obtain ⟨rfl, rfl⟩ : e' = e ∧ r' = r := by simpa using h
    obtain ⟨_, ⟨items, rfl⟩, hh⟩ := hread.bad_of ho
    obtain ⟨done, hdone, hev⟩ := hh.events
    obtain ⟨ts, hts, -, hb⟩ := hh.tokens
    refine ⟨⟨items, ?_⟩, ts, hts, ?_⟩
    · rw [hev]
      simpa using hdone
    · simpa using hb.mono (fun _ => cost_lt_maxGoals _ _) []

theorem parse_program {t : ProgramTree} {u : Token} (hu : u.kind = .eof) {us : List Token}
    (h : (ofTokens tokens file).tokens = t.tokens ++ u :: us) :
    ∃ r, parse tokens file = (.ok t.events, r) := by
  have s : Stands (ofTokens tokens file) (t.items.flatMap ItemTree.tokens ++ u :: us) 0 0 :=
    ⟨closed_ofTokens tokens file, h, ofTokens_nextId tokens file, ofTokens_depth tokens file⟩
  have htakes := ItemTree.takes t.items hu s (cost_lt_maxGoals (.program [] []) _)
  rw [parse_eq]
  split
  · next id r' ho =>
    refine ⟨r', ?_⟩
    have hev := (htakes.ok_of ho).2.events
    simpa [ProgramTree.events, ProgramTree.lastEvent] using hev
  · next e r' ho => exact absurd (htakes.bad_of ho) id

theorem parse_tokens {t : ProgramTree} (h : t.tokens = beforeEnd tokens) :
    ∃ r, parse tokens file = (.ok t.events, r) := by
  obtain ⟨u, us, hu, htokens⟩ := exists_beforeEnd (closed_ofTokens tokens file).exists_eof
  rw [beforeEnd_ofTokens, ← h] at htokens
  exact parse_program hu htokens

end Parse

end TinyScript
