import TinyScript.Proofs.Derivation.Meaning
import TinyScript.Proofs.Outcome

/-! Taking events one after the other. Construct numbers grow, so what waits for its whole is a
stack in practice: new pieces go on top, and what was there before keeps its place. A stream is
built up from parts, and the first number out of range among the tokens of the parts ends it. -/

namespace TinyScript

namespace Keyed

variable {α : Type} {m : Keyed Serial α} {i j k l : Nat} {a : α}

def push (m : Keyed Serial α) (k : Nat) (a : α) : Keyed Serial α := ⟨(k, a) :: m.entries⟩

def Below (m : Keyed Serial α) (i : Nat) : Prop := ∀ p ∈ m.entries, p.1 < i

theorem Below.mono (h : Below m i) (hij : i ≤ j) : Below m j :=
  fun p hp => Nat.lt_of_lt_of_le (h p hp) hij

theorem Below.push (h : Below m i) (hk : k < j) (hij : i ≤ j) : Below (m.push k a) j := by
  intro p hp
  rcases List.mem_cons.1 hp with rfl | hp
  · exact hk
  · exact h.mono hij p hp

theorem Below.erase_eq (h : Below m i) (hk : i ≤ k) : m.erase k = m := by
  unfold erase
  congr
  exact List.filter_eq_self.2 fun p hp => by
    simpa using Nat.ne_of_lt (Nat.lt_of_lt_of_le (h p hp) hk)

theorem Below.insert_eq (h : Below m i) (hk : i ≤ k) : m.insert k a = m.push k a := by
  rw [insert, h.erase_eq hk]
  rfl

@[simp] theorem get?_push (m : Keyed Serial α) (k l : Nat) (a : α) :
    (m.push k a).get? l = if k = l then some a else m.get? l := by
  unfold get? push
  by_cases h : k = l <;> simp [h]

@[simp] theorem erase_push (m : Keyed Serial α) (k l : Nat) (a : α) :
    (m.push k a).erase l = if k = l then m.erase l else (m.erase l).push k a := by
  unfold erase push
  by_cases h : k = l <;> simp [h]

def eraseAll (m : Keyed Serial α) (ks : List Serial) : Keyed Serial α :=
  ⟨m.entries.filter fun p => p.1 ∉ ks⟩

@[simp] theorem eraseAll_nil (m : Keyed Serial α) : m.eraseAll [] = m := by
  unfold eraseAll
  congr
  exact List.filter_eq_self.2 fun _ _ => by simp

theorem eraseAll_cons (m : Keyed Serial α) (k : Serial) (ks : List Serial) :
    m.eraseAll (k :: ks) = (m.erase k).eraseAll ks := by
  simp only [eraseAll, erase, List.filter_filter, List.mem_cons, not_or]
  congr 2
  funext p
  simp [Bool.and_comm]

theorem eraseAll_eraseAll (m : Keyed Serial α) (ks ls : List Serial) :
    (m.eraseAll ks).eraseAll ls = m.eraseAll (ks ++ ls) := by
  simp only [eraseAll, List.filter_filter, List.mem_append, not_or]
  congr 2
  funext p
  simp [Bool.and_comm]

theorem eraseAll_push_of_mem {ks : List Serial} (h : k ∈ ks) :
    (m.push k a).eraseAll ks = m.eraseAll ks := by
  simp [eraseAll, push, h]

theorem get?_eraseAll {ks : List Serial} (h : k ∉ ks) : (m.eraseAll ks).get? k = m.get? k := by
  unfold get? eraseAll
  rw [List.find?_filter]
  congr 2
  funext p
  by_cases hp : p.1 = k
  · simp [hp, h]
  · simp [hp]

theorem Below.eraseAll_eq (h : Below m i) {ks : List Serial} (hks : ∀ k ∈ ks, i ≤ k) :
    m.eraseAll ks = m := by
  unfold eraseAll
  congr
  refine List.filter_eq_self.2 fun p hp => ?_
  simpa using fun hk => absurd (h p hp) (Nat.not_lt_of_le (hks _ hk))

def pushAll (m : Keyed Serial α) : List (Serial × α) → Keyed Serial α
  | [] => m
  | p :: ps => (m.push p.1 p.2).pushAll ps

variable {ps : List (Serial × α)}

theorem get?_pushAll_of_notMem (hk : k ∉ ps.map Prod.fst) :
    (m.pushAll ps).get? k = m.get? k := by
  induction ps generalizing m with
  | nil => rfl
  | cons p ps ih =>
    simp only [List.map_cons, List.mem_cons, not_or] at hk
    rw [pushAll, ih hk.2, get?_push, if_neg fun he => hk.1 he.symm]

theorem get?_pushAll (hn : (ps.map Prod.fst).Nodup) {p : Serial × α} (hp : p ∈ ps) :
    (m.pushAll ps).get? p.1 = some p.2 := by
  induction ps generalizing m with
  | nil => cases hp
  | cons q ps ih =>
    obtain ⟨hq, hn⟩ := List.nodup_cons.1 hn
    rcases List.mem_cons.1 hp with rfl | hp
    · rw [pushAll, get?_pushAll_of_notMem hq, get?_push, if_pos rfl]
    · exact ih hn hp

theorem eraseAll_pushAll {ks : List Serial} (h : ∀ p ∈ ps, p.1 ∈ ks) :
    (m.pushAll ps).eraseAll ks = m.eraseAll ks := by
  induction ps generalizing m with
  | nil => rfl
  | cons p ps ih =>
    rw [pushAll, ih fun q hq => h q (List.mem_cons_of_mem p hq),
      eraseAll_push_of_mem (h p List.mem_cons_self)]

end Keyed

namespace Assembly

variable {a b c : Assembly}

def onTop (a : Assembly) (id : Nat) (node : Node) : Assembly :=
  { a with pending := a.pending.push id node }

@[simp] theorem onTop_pending (a : Assembly) (id : Nat) (node : Node) :
    (a.onTop id node).pending = a.pending.push id node := rfl

def without (a : Assembly) (id : Nat) : Assembly := { a with pending := a.pending.erase id }

def withoutAll (a : Assembly) (ids : List Serial) : Assembly :=
  { a with pending := a.pending.eraseAll ids }

theorem without_withoutAll (a : Assembly) (id : Serial) (ids : List Serial) :
    (a.without id).withoutAll ids = a.withoutAll (id :: ids) := by
  simp only [without, withoutAll, Keyed.eraseAll_cons]

theorem withoutAll_withoutAll (a : Assembly) (ids ids' : List Serial) :
    (a.withoutAll ids).withoutAll ids' = a.withoutAll (ids ++ ids') := by
  simp only [withoutAll, Keyed.eraseAll_eraseAll]

theorem without_eq {i k : Nat} (h : a.pending.Below i) (hk : i ≤ k) : a.without k = a := by
  rw [without, h.erase_eq hk]

theorem onTop_without (a : Assembly) (k l : Nat) (node : Node) :
    (a.onTop k node).without l = if k = l then a.without l else (a.without l).onTop k node := by
  unfold without
  rw [onTop_pending, Keyed.erase_push]
  split <;> rfl

theorem onTop_without_self {i k : Nat} (h : a.pending.Below i) (hk : i ≤ k) (node : Node) :
    (a.onTop k node).without k = a := by
  rw [onTop_without, if_pos rfl, without_eq h hk]

theorem onTop_without_of_ne {k l : Nat} (h : k ≠ l) (node : Node) :
    (a.onTop k node).without l = (a.without l).onTop k node := by
  rw [onTop_without, if_neg h]

section Outcomes

variable {id : Serial}

theorem outcome_take {node : Node} (h : a.pending.get? id = some node) :
    outcome (take id) a = (.ok node, a.without id) := by
  rw [take, outcome_bind_ok (outcome_get a), h]
  rfl

theorem outcome_takeExpr {e : Expr} (h : a.pending.get? id = some (.expr e)) :
    outcome (takeExpr id) a = (.ok e, a.without id) := by
  rw [takeExpr, outcome_bind_ok (outcome_take h)]
  rfl

theorem outcome_takeStmt {s : Stmt} (h : a.pending.get? id = some (.statement s)) :
    outcome (takeStmt id) a = (.ok s, a.without id) := by
  rw [takeStmt, outcome_bind_ok (outcome_take h)]
  rfl

theorem outcome_takeBlock {b : Block} (h : a.pending.get? id = some (.block b)) :
    outcome (takeBlock id) a = (.ok b, a.without id) := by
  rw [takeBlock, outcome_bind_ok (outcome_take h)]
  rfl

theorem outcome_takeFunction {f : Function} (h : a.pending.get? id = some (.function f)) :
    outcome (takeFunction id) a = (.ok f, a.without id) := by
  rw [takeFunction, outcome_bind_ok (outcome_take h)]
  rfl

theorem outcome_takeAll {α : Type} {claim : Serial → AssembleM α} {node : α → Node}
    (hclaim : ∀ {a : Assembly} {id : Serial} {x : α}, a.pending.get? id = some (node x) →
      outcome (claim id) a = (.ok x, a.without id))
    (l : List (Serial × α)) (hnodup : (l.map Prod.fst).Nodup) (a : Assembly)
    (h : ∀ p ∈ l, a.pending.get? p.1 = some (node p.2)) :
    outcome (takeAll claim (l.map Prod.fst)) a =
      (.ok (l.map Prod.snd), a.withoutAll (l.map Prod.fst)) := by
  induction l generalizing a with
  | nil => simp [takeAll, withoutAll]
  | cons p l ih =>
    obtain ⟨hp, hnodup⟩ := List.nodup_cons.1 hnodup
    have hrest : ∀ q ∈ l, (a.pending.erase p.1).get? q.1 = some (node q.2) := by
      intro q hq
      have hne : q.1 ≠ p.1 := fun he => hp (he ▸ List.mem_map_of_mem hq)
      rw [Keyed.get?_erase, if_neg hne]
      exact h q (List.mem_cons_of_mem p hq)
    rw [List.map_cons, takeAll, outcome_bind_ok (hclaim (h p List.mem_cons_self)),
      outcome_bind_ok (ih hnodup _ hrest), ← without_withoutAll]
    rfl

theorem outcome_keep {i k : Nat} (h : a.pending.Below i) (hk : i ≤ k) (node : Node) :
    outcome (keep k node) a = (.ok (), a.onTop k node) := by
  rw [onTop, ← h.insert_eq hk]
  rfl

end Outcomes

def added (a : Assembly) (id : Nat) (s : Stmt) : Assembly :=
  match a.blocks with
  | b :: bs => { a with blocks := b.push s :: bs }
  | [] => a.onTop id (.statement s)

theorem outcome_addStmt {i id : Nat} (h : a.pending.Below i) (hid : i ≤ id) (s : Stmt) :
    outcome (addStmt id s) a = (.ok (), a.added id s) := by
  rw [addStmt, outcome_bind_ok (outcome_get a), added]
  cases hb : a.blocks with
  | cons b bs => rfl
  | nil => exact outcome_keep h hid _

theorem outcome_handle_literal (a : Assembly) (id : Serial) (d : Nat) (token : Token) :
    outcome (handle ⟨id, d, .literal token⟩) a =
      match literal token with
      | .ok v => (.ok (), { a with pending := a.pending.insert id (.expr (.ofLiteral d v)) })
      | .error f => (.error f, a) := by
  change outcome (liftExcept (literal token) >>= fun v => keep id (.expr (.ofLiteral d v))) a = _
  cases literal token with
  | ok v => rfl
  | error f => rfl

def numberFault (t : Token) : Fault := .error ⟨.numberParseError t.value, t.span.start⟩

/-- Taking `es` leads from `a` to `b`, unless one of the tokens `ts` is a number out of range: then
the first such number is the fault. -/
def Builds (a : Assembly) (es : List Event) (ts : List Token) (b : Assembly) : Prop :=
  a.acceptAll es =
    match ts.find? Token.unreadable with
    | some t => .error (numberFault t)
    | none => .ok b

theorem acceptAll_append (a : Assembly) (es es' : List Event) :
    a.acceptAll (es ++ es') = a.acceptAll es >>= fun b => b.acceptAll es' := by
  induction es generalizing a with
  | nil => rfl
  | cons e es ih =>
    rw [List.cons_append, acceptAll, acceptAll]
    split
    · exact ih _
    · rfl

theorem exists_of_acceptAll_cons {e : Event} {es : List Event} (h : a.acceptAll (e :: es) = .ok b) :
    ∃ c, a.accept e = (.ok (), c) ∧ c.acceptAll es = .ok b := by
  rw [acceptAll] at h
  split at h
  · next c hc => exact ⟨c, hc, h⟩
  · cases h

theorem exists_of_acceptAll_append {es es' : List Event} (h : a.acceptAll (es ++ es') = .ok b) :
    ∃ c, a.acceptAll es = .ok c ∧ c.acceptAll es' = .ok b := by
  rw [acceptAll_append] at h
  cases hc : a.acceptAll es with
  | ok c =>
    rw [hc] at h
    exact ⟨c, rfl, h⟩
  | error f =>
    rw [hc] at h
    cases h

namespace Builds

variable {es es' : List Event} {ts ts' : List Token}

theorem nil (a : Assembly) : Builds a [] [] a := rfl

theorem append (h : Builds a es ts b) (h' : Builds b es' ts' c) :
    Builds a (es ++ es') (ts ++ ts') c := by
  unfold Builds at h h' ⊢
  rw [acceptAll_append, h, List.find?_append]
  cases ts.find? Token.unreadable with
  | some t => rfl
  | none => exact h'

theorem single {e : Event} (h : outcome (handle e) a = (.ok (), b)) : Builds a [e] [] b := by
  have ha : a.accept e = (.ok (), b) := h
  simp [Builds, acceptAll, ha]

theorem of_tokens (h : Builds a es ts b)
    (ht : ts'.find? Token.unreadable = ts.find? Token.unreadable) : Builds a es ts' b := by
  rwa [Builds, ht]

end Builds

end Assembly

theorem Leaf.readable {kinds : List TokenKind} (leaf : Leaf kinds) (h : .number ∉ kinds) :
    leaf.token.unreadable = false := by
  simp [Token.unreadable, leaf.kind_ne h]

end TinyScript
