import TinyScript.Proofs.Assembly.Program
import TinyScript.Proofs.Assembly.Step
import TinyScript.Proofs.Reading.Parse

/-! Assembling what has been parsed. Whether a parse succeeds or not, the events it leaves can be
taken one after the other, up to the first number out of range; what is left after the last of them
tells whether the parse had come to its end. -/

namespace TinyScript

open Assembly

def Proper (es : List Event) : Prop := ∀ e ∈ es, ∀ ss fs, e.kind ≠ .program ss fs

@[simp] theorem Proper.nil : Proper [] := fun _ h => by cases h

@[simp] theorem proper_append {es es' : List Event} :
    Proper (es ++ es') ↔ Proper es ∧ Proper es' := List.forall_mem_append

@[simp] theorem proper_cons {e : Event} {es : List Event} :
    Proper (e :: es) ↔ (∀ ss fs, e.kind ≠ .program ss fs) ∧ Proper es := List.forall_mem_cons

theorem ExprTree.proper {p : ExprPart} (e : ExprTree p) (i d : Nat) : Proper (e.events i d) := by
  induction e generalizing i d with
  | _ => simp [events, *]

theorem ExprTree.proper_full (e : FullExpr) (i d : Nat) : Proper (e.fullEvents i d) := by
  simp [fullEvents, e.proper]

theorem StmtTree.proper {p : StmtPart} (s : StmtTree p) (i d : Nat) : Proper (s.events i d) := by
  induction s generalizing i d with
  | _ => simp [events, ExprTree.proper, ExprTree.proper_full, *]

theorem ItemTree.proper_all (items : List ItemTree) (i d : Nat) :
    Proper (eventsAll items i d) := by
  induction items generalizing i with
  | nil => exact .nil
  | cons item items ih =>
    cases item with
    | statement s => exact proper_append.2 ⟨s.proper i d, ih _⟩
    | function f =>
      exact proper_append.2 ⟨by simp [events, FunctionTree.events, f.body.proper], ih _⟩

def Literate (es : List Event) : Prop := ∀ t ∈ literalTokens es, t.isLiteral

theorem ProgramTree.literate (p : ProgramTree) : Literate p.events := by
  intro t ht
  rw [p.literalTokens_events] at ht
  exact (List.mem_filter.1 ht).2

theorem Literate.sublist {es es' : List Event} (h : Literate es') (hs : es.Sublist es') :
    Literate es := fun t ht => h t ((hs.filterMap _).subset ht)

namespace Assembly

variable {a b : Assembly} {es : List Event}

theorem unreadable_of_error {t : Token} {f : Fault}
    (ht : t.isLiteral) (h : literal t = .error f) :
    t.unreadable = true ∧ f = numberFault t := by
  have hvalue := literal_eq ⟨t, of_decide_eq_true ht⟩
  cases hu : t.unreadable <;> simp_all

theorem readable_of_ok {t : Token} {v : Literal} (ht : t.isLiteral)
    (h : literal t = .ok v) : t.unreadable = false := by
  have hvalue := literal_eq ⟨t, of_decide_eq_true ht⟩
  cases hu : t.unreadable <;> simp_all

/-- Whatever it starts from, a stream is taken to its end, or up to its first number out of range,
unless something is out of order. -/
theorem acceptAll_cases (a : Assembly) (h : Literate es) :
    (∃ f, f.Disordered ∧ a.acceptAll es = .error f) ∨
      match (literalTokens es).find? Token.unreadable with
      | some t => a.acceptAll es = .error (numberFault t)
      | none => ∃ b, a.acceptAll es = .ok b := by
  induction es generalizing a with
  | nil => exact .inr ⟨a, rfl⟩
  | cons e es ih =>
    have hes : Literate es := h.sublist (List.sublist_cons_self e es)
    cases hk : e.literal? with
    | none =>
      have htokens : literalTokens (e :: es) = literalTokens es := List.filterMap_cons_none hk
      rw [acceptAll, htokens]
      split
      · exact ih _ hes
      · next f b hf =>
        refine .inl ⟨f, ((leads_handle e a).bad_of hf).resolve_right ?_, rfl⟩
        rintro ⟨t, ht, -⟩
        simp [Event.literal?_eq_some.2 ht] at hk
    | some t =>
      have htokens : literalTokens (e :: es) = t :: literalTokens es :=
        List.filterMap_cons_some hk
      have ht := h t (htokens ▸ List.mem_cons_self)
      rw [acceptAll, htokens]
      split
      · next b hb =>
        obtain ⟨v, hv⟩ := ((leads_handle e a).ok_of hb).2.2 t (Event.literal?_eq_some.1 hk)
        rw [List.find?_cons_of_neg (by simp [readable_of_ok ht hv])]
        exact ih b hes
      · next f b hf =>
        refine ((leads_handle e a).bad_of hf).imp (fun hd => ⟨f, hd, rfl⟩) ?_
        rintro ⟨u, hu, hl⟩
        obtain rfl : t = u := by simpa [Event.literal?_eq_some.2 hu] using hk.symm
        obtain ⟨hbad, rfl⟩ := unreadable_of_error ht hl
        rw [List.find?_cons_of_pos hbad]

theorem took_all (h : a.acceptAll es = .ok b) :
    b.openIds = es.foldl (fun ids e => e.openAfter ids) a.openIds ∧
      (Proper es → b.program = a.program) := by
  induction es generalizing a with
  | nil =>
    cases h
    exact ⟨rfl, fun _ => rfl⟩
  | cons e es ih =>
    obtain ⟨c, hc, h⟩ := exists_of_acceptAll_cons h
    obtain ⟨hopen, hprogram, -⟩ := (leads_handle e a).ok_of hc
    obtain ⟨hopen', hprogram'⟩ := ih h
    refine ⟨by rw [hopen', hopen, List.foldl_cons], fun hp => ?_⟩
    have hp := proper_cons.1 hp
    rw [hprogram' hp.2, hprogram hp.1]

/-- What is missing where no program came: the end of the outermost open block, if one is open. -/
def missing (ids : List Serial) : Cause :=
  match ids.getLast? with
  | some id => .unbalancedBlock id
  | none => .incompleteProgram

theorem finish_of_none (h : a.program = none) :
    a.finish = .error (.detached (missing a.openIds)) := by
  simp only [finish, missing, openIds, List.getLast?_map, h]
  cases a.blocks.getLast? <;> rfl

end Assembly

namespace ProgramTree

variable {es : List Event}

theorem taken {p : ProgramTree} (h : es <+: p.events) :
    match (literalTokens es).find? Token.unreadable with
    | some t => acceptAll {} es = .error (numberFault t)
    | none => ∃ a, acceptAll {} es = .ok a := by
  refine (acceptAll_cases {} (p.literate.sublist h.sublist)).resolve_left ?_
  rintro ⟨f, hf, herror⟩
  -- what is out of order in a part would be so in the whole
  obtain ⟨rest, hrest⟩ := h
  have hbuilds := p.builds
  rw [Builds, ← hrest, acceptAll_append, herror] at hbuilds
  split at hbuilds
  · cases hbuilds
    exact hf
  · cases hbuilds

theorem eq_assembly {p : ProgramTree} {a : Assembly} (h : acceptAll {} p.events = .ok a) :
    a = p.assembly := by
  have hbuilds := p.builds
  rw [Builds, h] at hbuilds
  split at hbuilds
  · cases hbuilds
  · exact Except.ok.inj hbuilds

end ProgramTree

theorem ItemTree.finish_of_prefix {items : List ItemTree} {es : List Event}
    (h : es <+: eventsAll items 0 1) {a : Assembly} (ha : acceptAll {} es = .ok a) :
    a.finish = .error (.detached (missing (openBlocks es))) := by
  have hproper : Proper es := fun e he => proper_all items 0 1 e (h.subset he)
  obtain ⟨hopen, hprogram⟩ := took_all ha
  rw [finish_of_none (hprogram hproper), hopen]
  rfl

def recorded (tokens : List Token) (file : String) : List Event :=
  (parse tokens file).2.events.toList

theorem exists_recorded (tokens : List Token) (file : String) :
    ∃ p : ProgramTree, match (parse tokens file).1 with
      | .ok _ => recorded tokens file = p.events
      | .error _ => recorded tokens file <+: ItemTree.eventsAll p.items 0 1 := by
  rcases h : parse tokens file with ⟨result, r⟩
  cases result with
  | ok es =>
    obtain ⟨p, -, hes, hr⟩ := parse_of_ok h
    exact ⟨p, by rw [recorded, h]; exact hr.trans hes⟩
  | error e =>
    obtain ⟨⟨items, hitems⟩, -⟩ := parse_of_error h
    exact ⟨⟨items⟩, by rwa [recorded, h]⟩

theorem Literate.accept_ne {es : List Event} (h : Literate es) {e : Event} (he : e ∈ es)
    (a : Assembly) (k : TokenKind) : (a.accept e).1 ≠ .error (.misplacedLiteral k) := by
  intro hk
  have hout : outcome (handle e) a = (.error (.misplacedLiteral k), (a.accept e).2) :=
    Prod.ext hk rfl
  rcases (leads_handle e a).bad_of hout with hd | ⟨t, ht, hl⟩
  · exact hd
  · have hmem := h t (List.mem_filterMap.2 ⟨e, he, Event.literal?_eq_some.2 ht⟩)
    cases (unreadable_of_error hmem hl).2

/-- Whether or not a parse succeeds, no event it records is a misplaced literal, and taking the
events fails at the first literal out of range only. With none, all that was parsed is claimed
if the parse succeeded; if it failed, the outermost block still open is to blame for the want of a
program, if there is one. -/
theorem assembly_of_recorded (tokens : List Token) (file : String) :
    (∀ e ∈ recorded tokens file, ∀ (a : Assembly) (k : TokenKind),
      (a.accept e).1 ≠ .error (.misplacedLiteral k)) ∧
    match (literalTokens (recorded tokens file)).find? Token.unreadable with
    | some t => acceptAll {} (recorded tokens file) = .error (numberFault t)
    | none => ∃ a, acceptAll {} (recorded tokens file) = .ok a ∧
      match (parse tokens file).1 with
      | .ok _ => a.blocks = [] ∧ a.pending = {} ∧ ∃ p, a.finish = .ok p
      | .error _ =>
        a.finish = .error (.detached (missing (openBlocks (recorded tokens file)))) := by
  obtain ⟨p, hp⟩ := exists_recorded tokens file
  have hstart : recorded tokens file <+: p.events := by
    cases hr : (parse tokens file).1 with
    | ok es => rw [hr] at hp; exact hp ▸ List.prefix_rfl
    | error e => rw [hr] at hp; exact hp.trans (List.prefix_append _ _)
  refine ⟨fun e he => (p.literate.sublist hstart.sublist).accept_ne he, ?_⟩
  have htaken := p.taken hstart
  split
  · next t ht => simpa only [ht] using htaken
  · next ht =>
    simp only [ht] at htaken
    obtain ⟨a, ha⟩ := htaken
    refine ⟨a, ha, ?_⟩
    split
    · next es hes =>
      simp only [hes] at hp
      obtain rfl := p.eq_assembly (hp ▸ ha)
      exact ⟨rfl, rfl, p.meaning, rfl⟩
    · next e he =>
      simp only [he] at hp
      exact ItemTree.finish_of_prefix hp ha

def brokenLoop : List Token :=
  [⟨.whileWord, "while", default⟩, ⟨.openParen, "(", default⟩, ⟨.bool, "true", default⟩,
    ⟨.closeParen, ")", default⟩, ⟨.openCurly, "\x7b", default⟩, ⟨.identifier, "n", default⟩,
    ⟨.assignment, "=", default⟩, ⟨.number, "2", default⟩, ⟨.semicolon, ";", default⟩]

theorem assembly_of_brokenLoop :
    (⟨4, 4, .literal ⟨.number, "2", default⟩⟩ ∈ recorded brokenLoop "" ∧
      (accept {} ⟨4, 4, .literal ⟨.number, "2", default⟩⟩).1 ≠
        .error (.misplacedLiteral .number)) ∧
    ∃ a, acceptAll {} (recorded brokenLoop "") = .ok a ∧
      a.finish = .error (.detached (.unbalancedBlock 2)) := by
  have hmem : ⟨4, 4, .literal ⟨.number, "2", default⟩⟩ ∈ recorded brokenLoop "" := by decide
  have h := assembly_of_recorded brokenLoop ""
  exact ⟨⟨hmem, h.1 _ hmem {} .number⟩, h.2⟩

end TinyScript
