import TinyScript.Proofs.Reading.StmtComplete

/-! Reading looks at no token beyond the one it stops at. If a reading is done again with other
tokens from there on, it comes to the same, with the same room for goals within goals or with more.
And where a reading stops at a token it did not expect, what it has passed can be gone on with;
unless a `map` is open there, which is refused as soon as it is closed. -/

namespace TinyScript

def Ended (ts : List Token) : Prop := ∃ t ∈ ts.getLast?, t.kind = .eof

theorem ended_append (ts : List Token) {us : List Token} (h : us ≠ []) :
    Ended (ts ++ us) ↔ Ended us := by
  rw [Ended, Ended, List.getLast?_append_of_ne_nil ts h]

theorem Ended.ne_nil {ts : List Token} (h : Ended ts) : ts ≠ [] := by
  rintro rfl
  obtain ⟨t, ht, -⟩ := h
  cases ht

def Error.IsUnexpected (e : Error) : Prop :=
  match e.cause with
  | .unexpectedToken _ | .unexpectedTokenDetailed _ _ => True
  | _ => False

def Starved {α : Type} (result : Except Error α) : Prop :=
  ∃ p, result = .error ⟨.circularGrammar, p⟩

inductive Opened : List Token → Prop
  | nil : Opened []
  | cons {name opening : Token} {family : Family} {ts : List Token}
      (hname : name.kind = .identifier) (hfamily : Family.ofName? name.value = some family)
      (hopening : opening.kind = .less) (h : Opened ts) : Opened (name :: opening :: ts)

/-- A `map` in an annotation: it comes after the mark of the annotation and the collections that are
open there. -/
def MapAnnotation (ts : List Token) (t : Token) : Prop :=
  ∃ before mark outer after, ts = before ++ mark :: (outer ++ t :: after) ∧
    (mark.kind = .colon ∨ mark.kind = .arrow) ∧ Opened outer ∧ t.kind = .identifier ∧
    t.value = "map"

theorem MapAnnotation.append {ts : List Token} {t : Token} (h : MapAnnotation ts t)
    (us : List Token) : MapAnnotation (us ++ ts) t := by
  obtain ⟨before, mark, outer, after, rfl, hmap⟩ := h
  exact ⟨us ++ before, mark, outer, after, (List.append_assoc _ _ _).symm, hmap⟩

namespace Reader

def onto (r : Reader) : List Token → Reader
  | [] => r
  | t :: ts => { r with current := t, upcoming := ts }

theorem tokens_onto (r : Reader) {ts : List Token} (h : ts ≠ []) : (r.onto ts).tokens = ts := by
  obtain ⟨t, ts, rfl⟩ := List.exists_cons_of_ne_nil h
  rfl

theorem closed_onto (r : Reader) {ts : List Token} (h : ts ≠ []) :
    (r.onto ts).Closed ↔ Ended ts := by
  rw [Closed, tokens_onto r h, Ended]

theorem deeper_onto (r : Reader) (ts : List Token) : (r.onto ts).deeper = r.deeper.onto ts := by
  cases ts <;> rfl

theorem shallower_onto (r : Reader) (ts : List Token) :
    (r.onto ts).shallower = r.shallower.onto ts := by
  cases ts <;> rfl

variable {α β : Type} {r r' : Reader} {stuck : List Token → Prop}

/-- There are tokens to go on with after `ts` so that, whatever follows them, `act` comes to refuse
a `map` of an annotation in `ts`. -/
def Refuses (act : ReadM α) (r : Reader) (ts : List Token) : Prop :=
  ∃ t us, MapAnnotation ts t ∧ ∀ rest, Ended (us ++ rest) → ∃ r',
    outcome act (r.onto (ts ++ (us ++ rest))) =
      (.error ⟨.unsupportedCollection t.value, t.span.start⟩, r')

structure Replay (act : ReadM α) (r : Reader) (result : Except Error α) (r' : Reader)
    (stuck : List Token → Prop) (ts : List Token) : Prop where
  tokens : r.tokens = ts ++ r'.tokens
  /-- With other tokens after the one at which it stopped, `act` comes to the same. -/
  again : ¬ Starved result → ∀ rest, Ended (r'.current :: rest) →
    outcome act (r.onto (ts ++ r'.current :: rest)) = (result, r'.onto (r'.current :: rest))
  stuck : ∀ e, result = .error e → e.IsUnexpected → stuck ts ∨ Refuses act r ts

/-- Whatever `act` comes to from `r`, `act'` comes to it again. -/
def Replays (act act' : ReadM α) (r : Reader) (stuck : List Token → Prop) : Prop :=
  ∃ ts, Replay act' r (outcome act r).1 (outcome act r).2 stuck ts

namespace Replay

variable {act : ReadM α} {next : α → ReadM β} {ts us : List Token}

theorem closed {result : Except Error α} (h : Replay act r result r' stuck ts) (hc : r.Closed) :
    r'.Closed := by
  have hended : Ended (ts ++ r'.tokens) := h.tokens ▸ hc
  exact (ended_append ts (List.cons_ne_nil _ _)).1 hended

theorem stay {a : α} (htokens : r.tokens = r'.tokens)
    (h : ∀ rest, outcome act (r.onto (r'.current :: rest)) =
      (.ok a, r'.onto (r'.current :: rest))) : Replay act r (.ok a) r' stuck [] :=
  ⟨htokens, fun _ rest _ => h rest, fun _ he => by cases he⟩

theorem halt {e : Error} (hstuck : e.IsUnexpected → stuck [])
    (h : ∀ rest, outcome act (r.onto (r.current :: rest)) =
      (.error e, r.onto (r.current :: rest))) : Replay act r (.error e) r stuck [] :=
  ⟨rfl, fun _ rest _ => h rest, fun _ he hu => .inl (hstuck (by cases he; exact hu))⟩

theorem bind_again {a : α} (h : Replay act r (.ok a) r' stuck ts) {vs : List Token}
    (hhead : vs.head? = some r'.current) (hvs : Ended vs) :
    outcome (act >>= next) (r.onto (ts ++ vs)) = outcome (next a) (r'.onto vs) := by
  obtain ⟨rest, rfl⟩ := List.head?_eq_some_iff.1 hhead
  exact outcome_bind_ok (h.again (by simp [Starved]) rest hvs) next

end Replay

namespace Refuses

variable {act : ReadM α} {next : α → ReadM β} {ts us : List Token}

theorem imp {act' : ReadM β} {r₁ : Reader} (h : Refuses act r ts)
    (hfails : ∀ us name p r', Ended us →
      outcome act (r.onto (ts ++ us)) = (.error ⟨.unsupportedCollection name, p⟩, r') →
      ∃ r'', outcome act' (r₁.onto (ts ++ us)) = (.error ⟨.unsupportedCollection name, p⟩, r'')) :
    Refuses act' r₁ ts := by
  obtain ⟨t, us, hmap, hrest⟩ := h
  refine ⟨t, us, hmap, fun rest hended => ?_⟩
  obtain ⟨r', hr'⟩ := hrest rest hended
  exact hfails _ _ _ r' hended hr'

theorem bind (h : Refuses act r ts) : Refuses (act >>= next) r ts :=
  h.imp fun _ _ _ r' _ ho => ⟨r', outcome_bind_error ho next⟩

theorem bind_ok {a : α} (h : Replay act r (.ok a) r' stuck us) {rest' : List Token}
    (htokens : r'.tokens = ts ++ rest') (hrefuses : Refuses (next a) r' ts) :
    Refuses (act >>= next) r (us ++ ts) := by
  obtain ⟨t, vs, hmap, hrest⟩ := hrefuses
  refine ⟨t, vs, hmap.append us, fun rest hended => ?_⟩
  obtain ⟨r'', hr''⟩ := hrest rest hended
  -- a `map` is among `ts`, so `ts` starts with the token at which the first step stopped
  have hne : ts ≠ [] := by
    rintro rfl
    obtain ⟨before, mark, outer, after, hts, -⟩ := hmap
    simp at hts
  obtain ⟨u, ts, rfl⟩ := List.exists_cons_of_ne_nil hne
  obtain rfl : r'.current = u := (List.cons.inj htokens).1
  refine ⟨r'', ?_⟩
  rw [List.append_assoc, h.bind_again rfl ((ended_append _ hended.ne_nil).2 hended)]
  exact hr''

end Refuses

namespace Replays

variable {act act' : ReadM α} {next next' : α → ReadM β}

theorem of_outcome (ts : List Token) {result : Except Error α}
    (ho : outcome act r = (result, r')) (h : Replay act' r result r' stuck ts) :
    Replays act act' r stuck := ⟨ts, by rwa [ho]⟩

theorem mono {stuck' : List Token → Prop} (h : Replays act act' r stuck)
    (hstuck : ∀ ts, stuck ts → stuck' ts) : Replays act act' r stuck' := by
  obtain ⟨ts, hts⟩ := h
  exact ⟨ts, hts.tokens, hts.again, fun e he hu => (hts.stuck e he hu).imp_left (hstuck ts)⟩

theorem bind_ok {a : α} {r₁ : Reader} {us : List Token} {stuck₁ : List Token → Prop}
    (ho : outcome act r = (.ok a, r₁)) (h : Replay act' r (.ok a) r₁ stuck₁ us)
    (hnext : Replays (next a) (next' a) r₁ fun ts => stuck (us ++ ts)) :
    Replays (act >>= next) (act' >>= next') r stuck := by
  obtain ⟨ts, hts⟩ := hnext
  rcases ho₁ : outcome (next a) r₁ with ⟨result, r'⟩
  rw [ho₁] at hts
  refine of_outcome (us ++ ts) ((outcome_bind_ok ho next).trans ho₁)
    ⟨?_, fun hs rest hrest => ?_, fun e he hu => ?_⟩
  · rw [h.tokens, hts.tokens, List.append_assoc]
  · have hhead : (ts ++ r'.current :: rest).head? = some r₁.current := by
      have htokens := congrArg List.head? hts.tokens
      cases ts <;> exact htokens.symm
    rw [List.append_assoc, h.bind_again hhead ((ended_append ts (List.cons_ne_nil _ _)).2 hrest)]
    exact hts.again hs rest hrest
  · exact (hts.stuck e he hu).imp_right (Refuses.bind_ok h hts.tokens)

theorem bind (h : Replays act act' r stuck) (hc : r.Closed)
    (hnext : ∀ a r₁ us, outcome act r = (.ok a, r₁) → r.tokens = us ++ r₁.tokens → r₁.Closed →
      Replays (next a) (next' a) r₁ fun ts => stuck (us ++ ts)) :
    Replays (act >>= next) (act' >>= next') r stuck := by
  obtain ⟨us, hus⟩ := h
  rcases ho : outcome act r with ⟨result, r₁⟩
  rw [ho] at hus
  cases result with
  | ok a => exact bind_ok ho hus (hnext a r₁ us ho hus.tokens (hus.closed hc))
  | error e =>
    refine of_outcome us (outcome_bind_error ho next) ⟨hus.tokens, fun hs rest hrest => ?_,
      fun e' he' hu => ?_⟩
    · have hs : ¬ Starved (.error e : Except Error α) := fun ⟨p, hp⟩ => hs ⟨p, by cases hp; rfl⟩
      exact outcome_bind_error (hus.again hs rest hrest) next'
    · cases he'
      exact (hus.stuck e rfl hu).imp_right Refuses.bind

theorem nested (h : Replays act act' r.deeper stuck) :
    Replays (Reader.nested act) (Reader.nested act') r stuck := by
  obtain ⟨ts, hts⟩ := h
  rcases ho : outcome act r.deeper with ⟨result, r'⟩
  rw [ho] at hts
  have hnested : outcome (Reader.nested act) r = (result, r'.shallower) := by
    rw [outcome_nested, ho]
  refine of_outcome ts hnested ⟨hts.tokens, fun hs rest hrest => ?_,
    fun e he hu => (hts.stuck e he hu).imp_right fun hrefuses => hrefuses.imp ?_⟩
  · have hagain : outcome act' (r.deeper.onto (ts ++ r'.shallower.current :: rest)) =
        (result, r'.onto (r'.current :: rest)) := hts.again hs rest hrest
    rw [outcome_nested, deeper_onto, hagain, shallower_onto]
    rfl
  · intro us name p r'' _ ho
    exact ⟨r''.shallower, by rw [outcome_nested, deeper_onto, ho]⟩

theorem restuck {stuck' : List Token → Prop} (h : Replays act act' r stuck)
    (hstuck : ∀ e r' ts, outcome act r = (.error e, r') → e.IsUnexpected →
      r.tokens = ts ++ r'.tokens → stuck' ts ∨ Refuses act' r ts) :
    Replays act act' r stuck' := by
  obtain ⟨ts, hts⟩ := h
  exact ⟨ts, hts.tokens, hts.again,
    fun e he hu => hstuck e _ ts (Prod.ext he rfl) hu hts.tokens⟩

theorem outcome_eq (h : Replays act act' r stuck) (hc : r.Closed)
    (hs : ¬ Starved (outcome act r).1) : outcome act' r = outcome act r := by
  obtain ⟨ts, hts⟩ := h
  have hagain := hts.again hs (outcome act r).2.upcoming (hts.closed hc)
  have htokens : ts ++ (outcome act r).2.current :: (outcome act r).2.upcoming = r.tokens :=
    hts.tokens.symm
  rwa [htokens] at hagain

end Replays

section Room

variable {read : Nat → ReadM α} {act : ReadM α} {stuck : Reader → List Token → Prop}

def OwnRoom (act : ReadM α) (read : Nat → ReadM α) : Prop :=
  ∀ r : Reader, r.Closed →
    ∃ n, outcome act r = outcome (read n) r ∧ ¬ Starved (outcome (read n) r).1

theorem OwnRoom.outcome_of (h : OwnRoom act read)
    (hread : ∀ n m, n ≤ m → ∀ r : Reader, r.Closed → Replays (read n) (read m) r (stuck r))
    (hc : r.Closed) {n : Nat} {result : Except Error α} (ho : outcome (read n) r = (result, r'))
    (hs : ¬ Starved result) : outcome act r = (result, r') := by
  obtain ⟨m, hact, hs'⟩ := h r hc
  calc outcome act r
    _ = outcome (read m) r := hact
    _ = outcome (read (max n m)) r :=
      ((hread m _ (Nat.le_max_right n m) r hc).outcome_eq hc hs').symm
    _ = outcome (read n) r :=
      (hread n _ (Nat.le_max_left n m) r hc).outcome_eq hc (by rwa [ho])
    _ = (result, r') := ho

theorem OwnRoom.replays (h : OwnRoom act read)
    (hread : ∀ n m, n ≤ m → ∀ r : Reader, r.Closed → Replays (read n) (read m) r (stuck r))
    (hc : r.Closed) : Replays act act r (stuck r) := by
  obtain ⟨n, hact, hs⟩ := h r hc
  obtain ⟨ts, hts⟩ := hread n n (Nat.le_refl n) r hc
  have hclosed : ∀ us, Ended us → (r.onto (ts ++ us)).Closed := fun us hus =>
    (closed_onto r (by simp [hus.ne_nil])).2 ((ended_append ts hus.ne_nil).2 hus)
  refine .of_outcome ts hact ⟨hts.tokens, fun _ rest hrest => ?_, fun e he hu =>
    (hts.stuck e he hu).imp_right fun hrefuses => hrefuses.imp ?_⟩
  · exact h.outcome_of hread (hclosed _ hrest) (hts.again hs rest hrest) hs
  · intro us name p r' hus ho
    exact ⟨r', h.outcome_of hread (hclosed us hus) ho (by simp [Starved])⟩

end Room

section Steps

theorem replays_pure (a : α) : Replays (pure a : ReadM α) (pure a) r stuck :=
  .of_outcome [] (outcome_pure a r) (.stay rfl fun _ => rfl)

theorem replays_throw {e : Error} (h : ¬ e.IsUnexpected) :
    Replays (throw e : ReadM α) (throw e) r stuck :=
  have ho : outcome (throw e : ReadM α) r = (.error e, r) := rfl
  .of_outcome [] ho (.halt (fun hu => absurd hu h) fun _ => rfl)

theorem replays_starved {act : ReadM α} :
    Replays (do throw ⟨.circularGrammar, (← get).position⟩) act r stuck := by
  have ho : outcome (do throw ⟨.circularGrammar, (← get).position⟩ : ReadM α) r =
      (.error ⟨.circularGrammar, r.position⟩, r) := rfl
  refine .of_outcome [] ho ⟨rfl, fun hs => absurd ⟨_, rfl⟩ hs, fun e he hu => ?_⟩
  cases he
  exact hu.elim

theorem replays_fail (h : stuck []) : Replays (fail : ReadM α) fail r stuck :=
  .of_outcome [] (outcome_fail r) (.halt (fun _ => h) fun _ => rfl)

theorem replays_reject (message : String) (h : stuck []) :
    Replays (reject message : ReadM α) (reject message) r stuck :=
  .of_outcome [] (outcome_reject r message) (.halt (fun _ => h) fun _ => rfl)

theorem replays_emit (kind : EventKind) : Replays (emit kind) (emit kind) r stuck :=
  .of_outcome [] (outcome_emit r kind) (.stay rfl fun _ => rfl)

theorem replays_peek {next next' : TokenKind → ReadM β}
    (h : Replays (next r.current.kind) (next' r.current.kind) r stuck) :
    Replays (peek >>= next) (peek >>= next') r stuck :=
  have hpeek : Replay peek r (.ok r.current.kind) r stuck [] := .stay rfl fun _ => rfl
  .bind_ok (outcome_peek r) hpeek h

theorem replays_emitted {kind : EventKind} {next next' : Serial → ReadM β}
    (h : Replays (next r.nextId) (next' r.nextId) (r.emitted kind) stuck) :
    Replays (emit kind >>= next) (emit kind >>= next') r stuck :=
  have hemit : Replay (emit kind) r (.ok r.nextId) (r.emitted kind) stuck [] :=
    .stay rfl fun _ => rfl
  .bind_ok (outcome_emit r kind) hemit h

theorem replay_next {act : ReadM Token} (hc : r.Closed) (hk : r.current.kind ≠ .eof)
    (hact : ∀ u : Reader, u.current = r.current → outcome act u = (.ok u.current, u.next)) :
    Replay act r (.ok r.current) r.next stuck [r.current] where
  tokens := (passed_next (hc.upcoming_ne_nil hk) hk).tokens
  again _ rest _ := by
    rw [hact (r.onto ([r.current] ++ r.next.current :: rest)) rfl]
    unfold next
    split <;> rfl
  stuck _ he := by cases he

theorem replays_advance {next next' : Token → ReadM β} (kinds : List TokenKind) (hc : r.Closed)
    (hm : r.current.kind ∈ kinds) (hk : .eof ∉ kinds)
    (hnext : ∀ (leaf : Leaf kinds) (r₁ : Reader), r₁.Closed →
      Replays (next leaf.token) (next' leaf.token) r₁ fun ts => stuck (leaf.token :: ts)) :
    Replays (advance >>= next) (advance >>= next') r stuck := by
  have hne : r.current.kind ≠ .eof := fun he => hk (he ▸ hm)
  have hadvance : Replay advance r (.ok r.current) r.next stuck [r.current] :=
    replay_next hc hne fun _ _ => rfl
  exact .bind_ok (outcome_advance r) hadvance (hnext ⟨_, hm⟩ _ (hadvance.closed hc))

structure TakesKind (act : ReadM Token) (kind : TokenKind) : Prop where
  ok : ∀ r : Reader, r.current.kind = kind → outcome act r = (.ok r.current, r.next)
  bad : ∃ error : Token → Error, ∀ r : Reader, r.current.kind ≠ kind →
    outcome act r = (.error (error r.current), r)

theorem takesKind_expect (kind : TokenKind) : TakesKind (expect kind) kind where
  ok r h := (outcome_expectOr r kind none).trans (if_pos h)
  bad := ⟨fun t => ⟨.unexpectedToken t.value, t.span.start⟩,
    fun r h => (outcome_expectOr r kind none).trans (if_neg h)⟩

theorem takesKind_require (kind : TokenKind) (message : String) :
    TakesKind (require kind message) kind where
  ok r h := (outcome_expectOr r kind (some (r.unexpected message))).trans (if_pos h)
  bad := ⟨fun t => ⟨.unexpectedTokenDetailed t.value message, t.span.start⟩,
    fun r h => (outcome_expectOr r kind (some (r.unexpected message))).trans (if_neg h)⟩

theorem replays_take {act : ReadM Token} {kind : TokenKind} {next next' : Token → ReadM β}
    (ht : TakesKind act kind) (hk : kind ≠ .eof) (hc : r.Closed) (hstuck : stuck [])
    (hnext : ∀ (leaf : Leaf [kind]) (r₁ : Reader), r₁.Closed →
      Replays (next leaf.token) (next' leaf.token) r₁ fun ts => stuck (leaf.token :: ts)) :
    Replays (act >>= next) (act >>= next') r stuck := by
  by_cases h : r.current.kind = kind
  · have htake : Replay act r (.ok r.current) r.next stuck [r.current] :=
      replay_next hc (h.trans_ne hk) fun u hu => ht.ok u (by rw [hu, h])
    have hmem : r.current.kind ∈ [kind] := List.mem_singleton.2 h
    exact .bind_ok (ht.ok r h) htake (hnext ⟨_, hmem⟩ _ (htake.closed hc))
  · obtain ⟨error, herror⟩ := ht.bad
    have hfails : Replays act act r stuck := .of_outcome [] (herror r h)
      (.halt (fun _ => hstuck) fun rest => herror (r.onto (r.current :: rest)) h)
    refine hfails.bind hc fun a r₁ us ho => ?_
    rw [herror r h] at ho
    cases ho

end Steps

end Reader

end TinyScript
