import TinyScript.Proofs.Reading.Replay

/-! Reading a type looks no further than the token it stops at, and how many tokens are left makes
no difference to it. Where it stops at a token it did not expect, the names and brackets it has
passed can be gone on with to a type, or to a `map` that is refused. -/

namespace TinyScript

instance : Inhabited TypeTree := ⟨.primitive .int ⟨⟨.identifier, "int", default⟩, rfl, rfl⟩⟩

namespace Reader

variable {r : Reader} {ts us : List Token} {t : Token}

section Names

theorem replays_namedTypeOf {element element' : ReadM DataType} (hc : r.Closed)
    (he : ∀ ⦃r : Reader⦄, r.Closed → Replays element element' r fun _ => True) :
    Replays (namedTypeOf element) (namedTypeOf element') r fun _ => True := by
  refine replays_take (takesKind_expect _) (by decide) hc trivial fun name r₁ hc₁ => ?_
  split
  · exact replays_pure _
  split
  · exact replays_throw (by simp [Error.IsUnexpected])
  · refine replays_take (takesKind_expect _) (by decide) hc₁ trivial fun opening r₂ hc₂ => ?_
    refine (he hc₂).bind hc₂ fun t r₃ us _ _ hc₃ => ?_
    refine replays_take (takesKind_expect _) (by decide) hc₃ trivial fun closing r₄ hc₄ => ?_
    split
    · exact replays_pure _
    · exact replays_throw (by simp [Error.IsUnexpected])

theorem replays_typeWithin {n m : Nat} (hnm : n ≤ m) (hc : r.Closed) :
    Replays (typeWithin .standard n) (typeWithin .standard m) r fun _ => True := by
  induction n generalizing m r with
  | zero => exact replays_starved
  | succ n ih =>
    obtain ⟨m, rfl⟩ := Nat.exists_eq_add_of_lt hnm
    refine replays_peek ?_
    split
    · exact replays_namedTypeOf hc fun r hc => ih (by omega) hc
    · exact replays_fail trivial

theorem not_starved_typeWithin {n : Nat} (hc : r.Closed) (hn : r.upcoming.length < n) :
    ¬ Starved (outcome (typeWithin .standard n) r).1 := by
  rintro ⟨p, hp⟩
  have hhalted := (typeWithin_leads n hc hn).bad_of (Prod.ext hp rfl)
  obtain ⟨ts, -, -, hblame⟩ := hhalted.tokens
  cases hblame with
  | noRoom h => exact h trivial

theorem outcome_readType (r : Reader) :
    outcome (readType .standard) r = outcome (typeWithin .standard (r.upcoming.length + 1)) r :=
  outcome_bind_ok (outcome_get r) _

theorem replays_readType (hc : r.Closed) :
    Replays (readType .standard) (readType .standard) r fun _ => True := by
  have hown : OwnRoom (readType .standard) (typeWithin .standard) := fun r hc =>
    ⟨_, outcome_readType r, not_starved_typeWithin hc (Nat.lt_succ_self _)⟩
  exact hown.replays (fun n m hnm r hc => replays_typeWithin hnm hc) hc

end Names

section Maps

def Refused (e : Error) (ts : List Token) : Prop :=
  ∀ ⦃r : Reader⦄ ⦃rest : List Token⦄ ⦃n i d : Nat⦄, Stands r (ts ++ rest) i d →
    r.upcoming.length < n → Leads (typeWithin .standard n) r (fun _ _ => False) fun e' _ => e' = e

def RefusedAs (t : Token) (ts : List Token) : Prop :=
  ∀ ⦃r : Reader⦄ ⦃rest : List Token⦄ ⦃n i d : Nat⦄, Stands r (ts ++ rest) i d →
    r.upcoming.length < n → Leads (typeWithin .standard n) r (fun _ _ => False)
      fun e _ => e = ⟨.unsupportedCollection t.value, t.span.start⟩

def OpenMap (ts : List Token) (t : Token) : Prop :=
  ∃ outer after us, ts = outer ++ t :: after ∧ Opened outer ∧ t.kind = .identifier ∧
    t.value = "map" ∧ RefusedAs t (ts ++ us)

theorem leads_family {n i d : Nat} {name : Leaf [.identifier]} {opening : Leaf [.less]}
    {family : Family} {ok : DataType → Reader → Prop} {bad : Error → Reader → Prop}
    (hname : DataType.ofName? name.token.value = none)
    (hfamily : Family.ofName? name.token.value = some family)
    (s : Stands r (name.token :: opening.token :: us) i d) (hn : r.upcoming.length < n + 1)
    (h : ∀ r' : Reader, Stands r' us i d → r'.upcoming.length < n →
      Leads (typeWithin .standard n) r' (fun t r'' => Leads (do
        let _ ← expect .greater
        match DataType.ofFamily? family t with
        | some t => return t
        | none => throw ⟨.unsupportedCollection name.token.value, name.token.span.start⟩)
        r'' ok bad) bad) :
    Leads (typeWithin .standard (n + 1)) r ok bad := by
  refine leads_peek ?_
  rw [s.current_eq, name.kind_eq]
  refine Leads.bind (leads_takeOr (.refl r) s (by decide) fun r₁ p₁ s₁ => ?_)
  rw [hname, hfamily]
  refine Leads.bind (leads_takeOr p₁ s₁ (by decide) fun r₂ p₂ s₂ => ?_)
  have hlength := p₂.length_upcoming
  simp only [List.length_append, List.length_singleton] at hlength
  exact Leads.bind (h r₂ s₂ (by omega))

theorem refusedAs_map {name : Leaf [.identifier]} {family : Family}
    (hname : DataType.ofName? name.token.value = none)
    (hfamily : Family.ofName? name.token.value = some family)
    (hmap : ∀ t, DataType.ofFamily? family t = none) (opening : Leaf [.less]) (element : TypeTree)
    (closing : Leaf [.greater]) :
    RefusedAs name.token (name.token :: opening.token :: (element.tokens ++ [closing.token])) := by
  intro r rest n i d s hn
  have s : Stands r (name.token :: opening.token :: (element.tokens ++ closing.token :: rest)) i
      d := by simpa using s
  cases n with
  | zero => exact absurd hn (Nat.not_lt_zero _)
  | succ n =>
    refine leads_family hname hfamily s hn fun r₁ s₁ hn₁ => ?_
    refine (element.typeWithin_takes s₁ hn₁).mono ?_ fun _ _ => False.elim
    rintro _ r₂ ⟨rfl, p⟩
    refine Leads.bind (leads_takeOr (.refl r₂) (s₁.after p) (by decide) fun r₃ _ _ => ?_)
    rw [hmap]
    exact Leads.throw rfl

theorem Refused.within {e : Error} (h : Refused e ts) {name : Leaf [.identifier]} {family : Family}
    (hname : DataType.ofName? name.token.value = none)
    (hfamily : Family.ofName? name.token.value = some family) (opening : Leaf [.less]) :
    Refused e (name.token :: opening.token :: ts) := by
  intro r rest n i d s hn
  cases n with
  | zero => exact absurd hn (Nat.not_lt_zero _)
  | succ n =>
    refine leads_family hname hfamily s hn fun r₁ s₁ hn₁ => ?_
    exact (h s₁ hn₁).mono (fun _ _ => False.elim) fun _ _ he => he

theorem RefusedAs.within (h : RefusedAs t ts) {name : Leaf [.identifier]} {family : Family}
    (hname : DataType.ofName? name.token.value = none)
    (hfamily : Family.ofName? name.token.value = some family) (opening : Leaf [.less]) :
    RefusedAs t (name.token :: opening.token :: ts) :=
  Refused.within h hname hfamily opening

theorem Refused.append {e : Error} (h : Refused e ts) (us : List Token) :
    Refused e (ts ++ us) := by
  intro r rest n i d s hn
  rw [List.append_assoc] at s
  exact h s hn

theorem refused_name {name : Leaf [.identifier]}
    (hname : DataType.ofName? name.token.value = none)
    (hfamily : Family.ofName? name.token.value = none) :
    Refused ⟨.unknownType name.token.value, name.token.span.start⟩ [name.token] := by
  intro r rest n i d s hn
  have s : Stands r (name.token :: rest) i d := s
  cases n with
  | zero => exact absurd hn (Nat.not_lt_zero _)
  | succ n =>
    refine leads_peek ?_
    rw [s.current_eq, name.kind_eq]
    refine Leads.bind (leads_takeOr (.refl r) s (by decide) fun r₁ _ _ => ?_)
    rw [hname, hfamily]
    exact Leads.throw rfl

def TypeBegins (ts : List Token) : Prop :=
  (∃ type : TypeTree, ts <+: type.tokens) ∨ ∃ t, OpenMap ts t

theorem typeBegins_nil : TypeBegins [] := .inl ⟨default, List.nil_prefix⟩

theorem typeBegins_of_family {name : Leaf [.identifier]} {family : Family}
    (hname : DataType.ofName? name.token.value = none)
    (hfamily : Family.ofName? name.token.value = some family) (opening : Leaf [.less])
    (element : TypeTree) (closing : Leaf [.greater])
    (h : name.token :: ts <+: name.token :: opening.token :: (element.tokens ++ [closing.token])) :
    TypeBegins (name.token :: ts) := by
  have hvalue := Family.name_of_ofName? hfamily
  rcases family.container_or_map with ⟨c, rfl, hc, -⟩ | ⟨hmap, hnone⟩
  · let word : Word c.name := ⟨name.token, name.kind_eq, (hc.trans hvalue).symm⟩
    exact .inl ⟨.collection c word opening element closing, h⟩
  · obtain ⟨us, hus⟩ := h
    refine .inr ⟨name.token, [], ts, us, rfl, .nil, name.kind_eq, hvalue.symm.trans hmap, ?_⟩
    rw [hus]
    exact refusedAs_map hname hfamily hnone opening element closing

theorem TypeBegins.within (h : TypeBegins ts) {name : Leaf [.identifier]} {family : Family}
    (hname : DataType.ofName? name.token.value = none)
    (hfamily : Family.ofName? name.token.value = some family) (opening : Leaf [.less]) :
    TypeBegins (name.token :: opening.token :: ts) := by
  rcases h with ⟨element, us, hus⟩ | ⟨t, outer, after, us, rfl, houter, hk, hv, hrefused⟩
  · refine typeBegins_of_family hname hfamily opening element default ?_
    exact ⟨us ++ [(default : Leaf [.greater]).token], by simp [← hus]⟩
  · exact .inr ⟨t, name.token :: opening.token :: outer, after, us, rfl,
      .cons name.kind_eq hfamily opening.kind_eq houter, hk, hv,
      hrefused.within hname hfamily opening⟩

theorem typeWithin_begins {n : Nat} (hc : r.Closed) (hn : r.upcoming.length < n) :
    Leads (typeWithin .standard n) r (fun _ _ => True) fun e r' => e.IsUnexpected →
      ∃ ts, r.tokens = ts ++ r'.tokens ∧ TypeBegins ts := by
  induction n generalizing r with
  | zero => exact absurd hn (Nat.not_lt_zero _)
  | succ n ih =>
    refine leads_peek ?_
    split
    · refine Leads.bind (leads_expect hc (.refl r) (by decide) (fun name r₁ p₁ => ?_)
        fun _ => ⟨[], rfl, typeBegins_nil⟩)
      split
      · exact Leads.pure trivial
      split
      · exact Leads.throw fun h => h.elim
      · next hname _ family hfamily =>
        refine Leads.bind (leads_expect hc p₁ (by decide) (fun opening r₂ p₂ => ?_) fun _ =>
          ⟨_, p₁.tokens, typeBegins_of_family hname hfamily default default default (by simp)⟩)
        have hlength := p₂.length_upcoming
        simp only [List.length_append, List.length_singleton] at hlength
        have hc₂ := p₂.closed hc
        have hn₂ : r₂.upcoming.length < n := by omega
        refine Leads.bind ?_
        rcases ho : outcome (typeWithin .standard n) r₂ with ⟨result, r₃⟩
        cases result with
        | ok type =>
          obtain ⟨element, rfl, q⟩ := (typeWithin_leads n hc₂ hn₂).ok_of ho
          have p₃ := p₂.trans q
          refine Leads.of_ok ho (Leads.bind (leads_expect hc p₃ (by decide) (fun closing r₄ _ => ?_)
            fun _ => ⟨_, p₃.tokens,
              typeBegins_of_family hname hfamily opening element default (by simp)⟩))
          split
          · exact Leads.pure trivial
          · exact Leads.throw fun h => h.elim
        | error e =>
          refine Leads.of_error ho fun hu => ?_
          obtain ⟨ts, hts, hwithin⟩ := (ih hc₂ hn₂).bad_of ho hu
          exact ⟨name.token :: opening.token :: ts, by simp [p₂.tokens, hts],
            hwithin.within hname hfamily opening⟩
    · exact Leads.of_error (outcome_fail r) fun _ => ⟨[], rfl, typeBegins_nil⟩

end Maps

section Annotations

theorem next_onto (r : Reader) (t : Token) {ts : List Token} (h : ts ≠ []) :
    (r.onto (t :: ts)).next = r.onto ts := by
  obtain ⟨u, us, rfl⟩ := List.exists_cons_of_ne_nil h
  rfl

theorem outcome_of_map_error {α β : Type} {act : ReadM α} {f : α → β} {e : Error} {r' : Reader}
    (h : outcome (do let a ← act; pure (f a)) r = (.error e, r')) :
    outcome act r = (.error e, r') := by
  rw [outcome_bind] at h
  split at h
  · cases h
  · next e₁ r₁ ho =>
    cases h
    exact ho

theorem Refused.outcome_readType {e : Error} (h : Refused e ts) {rest : List Token}
    (hc : r.Closed) (htokens : r.tokens = ts ++ rest) :
    ∃ r', outcome (readType .standard) r = (.error e, r') := by
  have hleads := h ⟨hc, htokens, rfl, rfl⟩ (Nat.lt_succ_self _)
  rcases ho : outcome (typeWithin .standard (r.upcoming.length + 1)) r with ⟨result, r'⟩
  cases result with
  | ok type => exact (hleads.ok_of ho).elim
  | error e =>
    obtain rfl := hleads.bad_of ho
    exact ⟨r', (Reader.outcome_readType r).trans ho⟩

theorem RefusedAs.outcome_readType (h : RefusedAs t ts) {rest : List Token} (hc : r.Closed)
    (htokens : r.tokens = ts ++ rest) : ∃ r', outcome (readType .standard) r =
      (.error ⟨.unsupportedCollection t.value, t.span.start⟩, r') :=
  Refused.outcome_readType h hc htokens

theorem typeAfter_replays {mark : TokenKind} (hmark : mark = .colon ∨ mark = .arrow)
    (hc : r.Closed) : Replays (typeAfter .standard mark) (typeAfter .standard mark) r
      fun ts => ∃ a : AnnotationTree mark, ts <+: a.tokens := by
  have heof : mark ≠ .eof := by rcases hmark with rfl | rfl <;> decide
  refine replays_peek ?_
  split
  · next hkind =>
    have hplain : Replays (do let _ ← advance; let t ← readType .standard; return some t)
        (do let _ ← advance; let t ← readType .standard; return some t) r fun _ => True := by
      refine replays_advance [mark] hc (by simpa using hkind) (by simpa using heof.symm)
        fun leaf r₁ hc₁ => ?_
      exact (replays_readType hc₁).bind hc₁ fun _ _ _ _ _ _ => replays_pure _
    refine hplain.restuck fun e r' ts ho hu htokens => ?_
    have hne : r.current.kind ≠ .eof := hkind.trans_ne heof
    have p := passed_next (hc.upcoming_ne_nil hne) hne
    rw [outcome_bind_ok (outcome_advance r)] at ho
    have htype := outcome_of_map_error ho
    rw [outcome_readType] at htype
    obtain ⟨us, hus, hbegins⟩ := (typeWithin_begins (p.closed hc) (Nat.lt_succ_self _)).bad_of htype
      hu
    have hcancel : ts ++ r'.tokens = r.current :: us ++ r'.tokens := by
      rw [← htokens, p.tokens, hus]
      rfl
    obtain rfl := List.append_cancel_right hcancel
    rcases hbegins with ⟨type, hts⟩ | ⟨t, outer, after, vs, rfl, houter, hk, hv, hrefused⟩
    · exact .inl ⟨.some ⟨r.current, by simp [hkind]⟩ type, (List.prefix_cons_inj _).2 hts⟩
    · refine .inr ⟨t, vs, ⟨[], r.current, outer, after, rfl, hkind ▸ hmark, houter, hk, hv⟩,
        fun rest hended => ?_⟩
      have hafter : Ended (outer ++ t :: after ++ (vs ++ rest)) :=
        (ended_append _ hended.ne_nil).2 hended
      have hstands := tokens_onto r hafter.ne_nil
      obtain ⟨r'', hr''⟩ := hrefused.outcome_readType ((closed_onto r hafter.ne_nil).2 hafter)
        (hstands.trans (List.append_assoc _ _ _).symm)
      rw [outcome_bind_ok (outcome_advance _), List.cons_append, next_onto _ _ hafter.ne_nil]
      exact ⟨r'', outcome_bind_error hr'' _⟩
  · exact replays_pure _

theorem replays_annotated {β : Type} {mark : TokenKind} {next next' : Option DataType → ReadM β}
    {stuck : List Token → Prop} (hmark : mark = .colon ∨ mark = .arrow) (hc : r.Closed)
    (hstuck : ∀ (a : AnnotationTree mark) ts, ts <+: a.tokens → stuck ts)
    (hnext : ∀ (a : AnnotationTree mark) (r₁ : Reader), r₁.Closed →
      Replays (next a.type?) (next' a.type?) r₁ fun ts => stuck (a.tokens ++ ts)) :
    Replays (typeAfter .standard mark >>= next) (typeAfter .standard mark >>= next') r
      stuck := by
  have hread := (typeAfter_replays hmark hc).mono fun ts ⟨a, ha⟩ => hstuck a ts ha
  refine hread.bind hc fun type? r₁ us ho hus hc₁ => ?_
  have hleads : Leads (typeAfter .standard mark) r
      (fun type? r' => ∃ a : AnnotationTree mark, type? = a.type? ∧ Passed r r' a.tokens [] 0)
      fun _ _ => True :=
    leads_annotated hc (.refl r) (by rcases hmark with rfl | rfl <;> decide)
      (fun a r' p => ⟨a, rfl, p⟩) fun e r' (_ : Halted True r r' [] e) => trivial
  obtain ⟨a, rfl, p⟩ := hleads.ok_of ho
  obtain rfl : us = a.tokens := List.append_cancel_right (hus.symm.trans p.tokens)
  exact hnext a r₁ hc₁

end Annotations

end Reader

end TinyScript
