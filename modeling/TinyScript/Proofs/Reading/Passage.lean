import Mathlib.Data.List.Basic
import TinyScript.Grammar.Reader
import TinyScript.Proofs.Derivation.Tree
import TinyScript.Proofs.Outcome

/-! How a reader gets from one state to another: the tokens it passes, the events it records and the
numbers it gives out. A reading that breaks off has recorded a part of what the whole construct
would have given, and its error names a token at or just before the place it stopped. -/

namespace TinyScript

namespace Reader

def tokens (r : Reader) : List Token := r.current :: r.upcoming

def Closed (r : Reader) : Prop := ∃ t ∈ r.tokens.getLast?, t.kind = .eof

theorem Closed.of_suffix {r r' : Reader} (h : r.Closed) (hs : r'.tokens <:+ r.tokens) :
    r'.Closed := by
  obtain ⟨ts, hts⟩ := hs
  have hne : r'.tokens ≠ [] := List.cons_ne_nil _ _
  unfold Closed at h ⊢
  rwa [← hts, List.getLast?_append_of_ne_nil ts hne] at h

/-- From `r` to `r'` over `ts`, none of them an end of text, with `es` recorded and `n` numbers
given out. -/
structure Passed (r r' : Reader) (ts : List Token) (es : List Event) (n : Nat) : Prop where
  tokens : r.tokens = ts ++ r'.tokens
  inside : ∀ t ∈ ts, t.kind ≠ .eof
  events : r'.events.toList = r.events.toList ++ es
  nextId : r'.nextId = r.nextId + n
  depth : r'.depth = r.depth

namespace Passed

variable {r r₁ r₂ : Reader} {ts ts' : List Token} {es es' : List Event} {n n' : Nat}

theorem refl (r : Reader) : Passed r r [] [] 0 :=
  ⟨rfl, by simp, by simp, rfl, rfl⟩

theorem trans (p : Passed r r₁ ts es n) (q : Passed r₁ r₂ ts' es' n') :
    Passed r r₂ (ts ++ ts') (es ++ es') (n + n') where
  tokens := by rw [p.tokens, q.tokens, List.append_assoc]
  inside t ht := (List.mem_append.1 ht).elim (p.inside t) (q.inside t)
  events := by rw [q.events, p.events, List.append_assoc]
  nextId := by rw [q.nextId, p.nextId, Nat.add_assoc]
  depth := q.depth.trans p.depth

theorem closed (p : Passed r r₁ ts es n) (h : r.Closed) : r₁.Closed :=
  h.of_suffix ⟨ts, p.tokens.symm⟩

theorem current_eq (p : Passed r r₁ ts es n) (q : Passed r r₂ ts es' n') :
    r₁.current = r₂.current :=
  (List.cons.inj (List.append_cancel_left (p.tokens.symm.trans q.tokens))).1

theorem length_upcoming (p : Passed r r₁ ts es n) :
    r.upcoming.length = ts.length + r₁.upcoming.length := by
  have := congrArg List.length p.tokens
  simp only [Reader.tokens, List.length_append, List.length_cons] at this
  omega

end Passed

theorem Closed.upcoming_ne_nil {r : Reader} (h : r.Closed) (hk : r.current.kind ≠ .eof) :
    r.upcoming ≠ [] := by
  intro hn
  obtain ⟨t, ht, hkt⟩ := h
  rw [tokens, hn, List.getLast?_singleton, Option.mem_some_iff] at ht
  exact hk (ht ▸ hkt)

theorem passed_next {r : Reader} (h : r.upcoming ≠ []) (hk : r.current.kind ≠ .eof) :
    Passed r r.next [r.current] [] 0 := by
  unfold next
  split
  · next hn => exact absurd hn h
  · next t ts hu => exact ⟨by simp [tokens, hu], by simpa using hk, by simp, rfl, rfl⟩

def emitted (r : Reader) (kind : EventKind) : Reader :=
  { r with nextId := r.nextId + 1, events := r.events.push ⟨r.nextId, r.depth, kind⟩ }

theorem passed_emitted (r : Reader) (kind : EventKind) :
    Passed r (r.emitted kind) [] [⟨r.nextId, r.depth, kind⟩] 1 :=
  ⟨rfl, by simp, by simp [emitted], rfl, rfl⟩

theorem passed_record (r : Reader) (id : Serial) (kind : EventKind) :
    Passed r (r.record id kind) [] [⟨id, r.depth, kind⟩] 0 :=
  ⟨rfl, by simp, by simp [record], rfl, rfl⟩

@[simp] theorem deeper_nextId (r : Reader) : r.deeper.nextId = r.nextId := rfl

@[simp] theorem deeper_depth (r : Reader) : r.deeper.depth = r.depth + 1 := rfl

theorem Passed.shallower {r r' : Reader} {ts : List Token} {es : List Event} {n : Nat}
    (p : Passed r.deeper r' ts es n) : Passed r r'.shallower ts es n where
  tokens := p.tokens
  inside := p.inside
  events := p.events
  nextId := p.nextId
  depth := by
    have := p.depth
    simp only [deeper, Reader.shallower] at this ⊢
    omega

section Outcomes

variable {α : Type} (r : Reader)

@[simp] theorem outcome_peek : outcome peek r = (.ok r.current.kind, r) := rfl

@[simp] theorem outcome_advance : outcome advance r = (.ok r.current, r.next) := rfl

@[simp] theorem outcome_fail : outcome (fail : ReadM α) r = (.error r.mismatch, r) := rfl

@[simp] theorem outcome_reject (message : String) :
    outcome (reject message : ReadM α) r = (.error (r.unexpected message), r) := rfl

theorem outcome_expectOr (kind : TokenKind) (error : Option Error) :
    outcome (expectOr kind error) r =
      if r.current.kind = kind then (.ok r.current, r.next)
      else (.error (error.getD r.mismatch), r) := by
  rw [expectOr, outcome_bind_ok (outcome_get r)]
  split <;> rfl

@[simp] theorem outcome_emit (kind : EventKind) :
    outcome (emit kind) r = (.ok r.nextId, r.emitted kind) := rfl

@[simp] theorem outcome_emitAs (id : Serial) (kind : EventKind) :
    outcome (emitAs id kind) r = (.ok (), r.record id kind) := rfl

theorem outcome_nested (act : ReadM α) :
    outcome (nested act) r = ((outcome act r.deeper).1, (outcome act r.deeper).2.shallower) := rfl

end Outcomes

/-- What the error of a reading that stops at `r` after `ts` is about: the current token, a name of
no type just before it, or a name of an unsupported collection. Only where there was not `enough`
room for goals within goals does reading stop for want of it. -/
inductive Blame (enough : Prop) (ts : List Token) (r : Reader) : Error → Prop
  | mismatch : Blame enough ts r r.mismatch
  | unexpected (message : String) : Blame enough ts r (r.unexpected message)
  | unknownType {us : List Token} {t : Token} (h : ts = us ++ [t]) (hk : t.kind = .identifier) :
      Blame enough ts r ⟨.unknownType t.value, t.span.start⟩
  | unsupported {t : Token} (h : t ∈ ts) (hk : t.kind = .identifier) (hv : t.value = "map") :
      Blame enough ts r ⟨.unsupportedCollection t.value, t.span.start⟩
  | noRoom {p : Position} (h : ¬enough) : Blame enough ts r ⟨.circularGrammar, p⟩

theorem Blame.mono {enough enough' : Prop} {ts : List Token} {r : Reader} {e : Error}
    (b : Blame enough ts r e) (h : enough' → enough) (us : List Token) :
    Blame enough' (us ++ ts) r e := by
  cases b with
  | mismatch => exact .mismatch
  | unexpected message => exact .unexpected message
  | @unknownType vs t h hk => exact .unknownType (by rw [h, ← List.append_assoc]) hk
  | unsupported h hk hv => exact .unsupported (List.mem_append_right us h) hk hv
  | noRoom hn => exact .noRoom fun he => hn (h he)

structure Halted (enough : Prop) (r r' : Reader) (es : List Event) (e : Error) : Prop where
  depth : r'.depth = r.depth
  events : ∃ done, done <+: es ∧ r'.events.toList = r.events.toList ++ done
  tokens : ∃ ts, r.tokens = ts ++ r'.tokens ∧ (∀ t ∈ ts, t.kind ≠ .eof) ∧ Blame enough ts r' e

namespace Halted

variable {enough enough' : Prop} {r₀ r r' : Reader} {ts : List Token} {es es' : List Event}
  {n : Nat} {e : Error}

theorem here (p : Passed r₀ r ts es n) (b : Blame enough ts r e) (h : es <+: es') :
    Halted enough r₀ r es' e where
  depth := p.depth
  events := ⟨es, h, p.events⟩
  tokens := ⟨ts, p.tokens, p.inside, b⟩

theorem after (p : Passed r₀ r ts es n) (s : Halted enough r r' es' e) (h : enough' → enough) :
    Halted enough' r₀ r' (es ++ es') e := by
  obtain ⟨done, hd, hev⟩ := s.events
  obtain ⟨us, hu, hin, hb⟩ := s.tokens
  refine ⟨s.depth.trans p.depth, ⟨es ++ done, (List.prefix_append_right_inj es).2 hd, ?_⟩,
    ⟨ts ++ us, ?_, ?_, hb.mono h ts⟩⟩
  · rw [hev, p.events, List.append_assoc]
  · rw [p.tokens, hu, List.append_assoc]
  · exact fun t ht => (List.mem_append.1 ht).elim (p.inside t) (hin t)

theorem mono (s : Halted enough r r' es e) (h : es <+: es') : Halted enough r r' es' e :=
  have ⟨done, hd, hev⟩ := s.events
  ⟨s.depth, ⟨done, hd.trans h, hev⟩, s.tokens⟩

theorem shallower (s : Halted enough r.deeper r' es e) : Halted enough r r'.shallower es e where
  depth := by
    have := s.depth
    simp only [deeper, Reader.shallower] at this ⊢
    omega
  events := s.events
  tokens :=
    have ⟨ts, ht, hin, hb⟩ := s.tokens
    ⟨ts, ht, hin, by cases hb <;> constructor <;> assumption⟩

end Halted

/-! Following a step that starts where a passage from `r₀` has come to. -/

section Steps

variable {α : Type} {r₀ r : Reader} {ts : List Token} {es : List Event} {n : Nat}
  {bad : Error → Reader → Prop}

theorem leads_peek {next : TokenKind → ReadM α} {ok : α → Reader → Prop}
    (h : Leads (next r.current.kind) r ok bad) : Leads (peek >>= next) r ok bad :=
  Leads.bind (Leads.of_ok (outcome_peek r) h)

theorem leads_advance (kinds : List TokenKind) {ok : Token → Reader → Prop} (hc : r₀.Closed)
    (p : Passed r₀ r ts es n) (hm : r.current.kind ∈ kinds) (hk : .eof ∉ kinds)
    (hok : ∀ (leaf : Leaf kinds) r', Passed r₀ r' (ts ++ [leaf.token]) es n →
      ok leaf.token r') : Leads advance r ok bad := by
  have hne : r.current.kind ≠ .eof := fun he => hk (he ▸ hm)
  have hn := passed_next ((p.closed hc).upcoming_ne_nil hne) hne
  have hp := p.trans hn
  rw [List.append_nil] at hp
  exact Leads.of_ok (outcome_advance r) (hok ⟨r.current, hm⟩ _ hp)

theorem leads_expectOr {kind : TokenKind} {error : Option Error} {ok : Token → Reader → Prop}
    (hc : r₀.Closed) (p : Passed r₀ r ts es n) (hk : kind ≠ .eof)
    (hok : ∀ (leaf : Leaf [kind]) r', Passed r₀ r' (ts ++ [leaf.token]) es n → ok leaf.token r')
    (hbad : bad (error.getD r.mismatch) r) : Leads (expectOr kind error) r ok bad := by
  have ho := outcome_expectOr r kind error
  split at ho
  · next h =>
    have ha : Leads advance r ok bad := leads_advance [kind] hc p (by simpa using h)
      (by simpa using hk.symm) hok
    exact Leads.of_ok ho (ha.ok_of (outcome_advance r))
  · exact Leads.of_error ho hbad

theorem leads_expect {kind : TokenKind} {ok : Token → Reader → Prop} (hc : r₀.Closed)
    (p : Passed r₀ r ts es n) (hk : kind ≠ .eof)
    (hok : ∀ (leaf : Leaf [kind]) r', Passed r₀ r' (ts ++ [leaf.token]) es n → ok leaf.token r')
    (hbad : bad r.mismatch r) : Leads (expect kind) r ok bad :=
  leads_expectOr hc p hk hok hbad

theorem leads_require {kind : TokenKind} {message : String} {ok : Token → Reader → Prop}
    (hc : r₀.Closed) (p : Passed r₀ r ts es n) (hk : kind ≠ .eof)
    (hok : ∀ (leaf : Leaf [kind]) r', Passed r₀ r' (ts ++ [leaf.token]) es n → ok leaf.token r')
    (hbad : bad (r.unexpected message) r) : Leads (require kind message) r ok bad :=
  leads_expectOr hc p hk hok hbad

theorem leads_emit {kind : EventKind} {ok : Serial → Reader → Prop} (p : Passed r₀ r ts es n)
    (hok : ∀ r', Passed r₀ r' ts (es ++ [⟨r₀.nextId + n, r₀.depth, kind⟩]) (n + 1) →
      ok (r₀.nextId + n) r') : Leads (emit kind) r ok bad := by
  have hp := p.trans (passed_emitted r kind)
  rw [List.append_nil, p.nextId, p.depth] at hp
  refine Leads.of_ok (outcome_emit r kind) ?_
  rw [p.nextId]
  exact hok _ hp

theorem leads_nested {act : ReadM α} {ok : α → Reader → Prop}
    (h : Leads act r.deeper (fun a r' => ok a r'.shallower) fun e r' => bad e r'.shallower) :
    Leads (nested act) r ok bad := by
  unfold Leads at h ⊢
  rw [outcome_nested]
  split at h
  · next a t ha => simpa only [ha] using h
  · next e t he => simpa only [he] using h

end Steps

end Reader

end TinyScript
