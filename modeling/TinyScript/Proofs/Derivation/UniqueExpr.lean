import Mathlib.Tactic.Common
import TinyScript.Grammar.Tables
import TinyScript.Proofs.Derivation.Tree

/-! Expressions have unique derivations. Each nonterminal has tokens that may follow it, and with
such tokens after both, two trees of one nonterminal that start the same list are the same tree. At
a level of operators, where trees nest to the left, the trees are compared as spines: the leftmost
operand, then the operators with their right operands from left to right. -/

namespace TinyScript

namespace Level

def rank : Level → Nat
  | logical => 1
  | relational => 2
  | additive => 3
  | multiplicative => 4
  | unary => 5
  | primary => 6

theorem rank_pos (l : Level) : 0 < l.rank := by cases l <;> decide

theorem rank_next {l : Level} (h : l ≠ .primary) : l.next.rank = l.rank + 1 := by
  cases l <;> first | rfl | exact absurd rfl h

end Level

def TokenKind.joinRank (k : TokenKind) : Nat := (Grammar.standard.power k).rank

theorem Level.mem_kinds_iff {l : Level} {k : TokenKind} : k ∈ l.kinds ↔ k.joinRank = l.rank := by
  cases k <;> cases l <;> decide

theorem TokenKind.joinRank_lt_unary (k : TokenKind) : k.joinRank < Level.unary.rank := by
  cases k <;> decide

namespace Leaf

theorem joinRank_eq {l : Level} (op : Leaf l.kinds) : op.token.kind.joinRank = l.rank :=
  Level.mem_kinds_iff.1 op.mem

theorem token_ne {kinds others : List TokenKind} (leaf : Leaf kinds) (other : Leaf others)
    (h : ∀ k ∈ kinds, k ∉ others) : leaf.token ≠ other.token :=
  fun he => h _ leaf.mem (he ▸ other.mem)

theorem kind_ne_of_joinRank {l : Level} {k : TokenKind} (op : Leaf l.kinds) (h : k.joinRank = 0) :
    op.token.kind ≠ k :=
  op.kind_ne fun hk => absurd (h.symm.trans (Level.mem_kinds_iff.1 hk)) (Nat.ne_of_lt l.rank_pos)

end Leaf

namespace ExprTree

def openers : List TokenKind :=
  [.number, .string, .bool, .identifier, .not, .dash, .openParen]

theorem tokens_head {p : ExprPart} (e : ExprTree p) (hp : p ≠ .arguments) :
    ∃ t ts, e.tokens = t :: ts ∧ t.kind ∈ openers := by
  induction e with
  | join left operator right ihl _ =>
    obtain ⟨t, ts, ht, hk⟩ := ihl (by simp)
    exact ⟨t, _, by rw [tokens, ht]; rfl, hk⟩
  | tighter _ inner ih | last inner ih | call inner ih => exact ih (by simp)
  | more item comma rest ih _ =>
    obtain ⟨t, ts, ht, hk⟩ := ih (by simp)
    exact ⟨t, _, by rw [tokens, ht]; rfl, hk⟩
  | sign operator operand _ =>
    refine ⟨operator.token, _, rfl, ?_⟩
    have := operator.mem
    simp only [openers, List.mem_cons, List.not_mem_nil, or_false] at this ⊢
    tauto
  | literal value =>
    refine ⟨value.token, _, rfl, ?_⟩
    have := value.mem
    simp only [openers, List.mem_cons, List.not_mem_nil, or_false] at this ⊢
    tauto
  | var name => exact ⟨name.token, _, rfl, by simp [openers]⟩
  | grouping opening _ _ _ => exact ⟨opening.token, _, rfl, by simp [openers]⟩
  | apply name _ _ _ _ => exact ⟨name.token, _, rfl, by simp [openers]⟩
  | none | some => exact absurd rfl hp

theorem tokens_ne_nil {p : ExprPart} (e : ExprTree p) (hp : p ≠ .arguments) : e.tokens ≠ [] := by
  obtain ⟨t, ts, ht, _⟩ := e.tokens_head hp
  exact ht ▸ List.cons_ne_nil t ts

/-- The leftmost operand of a level, and its operators with their right operands. -/
inductive Spine {l : Level} : ExprTree (.level l) → ExprTree (.level l.next) →
    List (Leaf l.kinds × ExprTree (.level l.next)) → Prop
  | tighter (h : l ≠ .primary) (x : ExprTree (.level l.next)) : Spine (.tighter h x) x []
  | join {left : ExprTree (.level l)} {x : ExprTree (.level l.next)}
      {tail : List (Leaf l.kinds × ExprTree (.level l.next))} (operator : Leaf l.kinds)
      (right : ExprTree (.level l.next)) (h : Spine left x tail) :
      Spine (.join left operator right) x (tail ++ [(operator, right)])

def tailTokens {l : Level} (tail : List (Leaf l.kinds × ExprTree (.level l.next))) : List Token :=
  tail.flatMap fun q => q.1.token :: q.2.tokens

theorem exists_spine {l : Level} (hl : l.rank < Level.unary.rank) :
    (e : ExprTree (.level l)) → ∃ x tail, Spine e x tail
  | .join left operator right =>
    have ⟨x, tail, h⟩ := exists_spine hl left
    ⟨x, tail ++ [(operator, right)], .join operator right h⟩
  | .tighter h x => ⟨x, [], .tighter h x⟩
  | .sign _ _ => absurd hl (by decide)
  | .literal _ | .var _ | .call _ | .grouping _ _ _ => absurd hl (by decide)

namespace Spine

variable {l : Level} {e e' : ExprTree (.level l)} {x : ExprTree (.level l.next)}
  {tail : List (Leaf l.kinds × ExprTree (.level l.next))}

theorem tokens_eq (h : Spine e x tail) : e.tokens = x.tokens ++ tailTokens tail := by
  induction h with
  | tighter h x => simp [tokens, tailTokens]
  | join operator right _ ih =>
    simp only [tokens, ih, tailTokens, List.flatMap_append, List.flatMap_singleton,
      List.append_assoc]

theorem sizeOf_lt (h : Spine e x tail) :
    sizeOf x < sizeOf e ∧ ∀ q ∈ tail, sizeOf q.2 < sizeOf e := by
  induction h with
  | tighter h x => exact ⟨by rw [ExprTree.tighter.sizeOf_spec]; omega, by simp⟩
  | join operator right _ ih =>
    simp only [ExprTree.join.sizeOf_spec, List.mem_append, List.mem_singleton]
    refine ⟨by omega, ?_⟩
    rintro q (hq | rfl)
    · have := ih.2 q hq
      omega
    · simp only
      omega

theorem unique (h : Spine e x tail) (h' : Spine e' x tail) : e = e' := by
  induction h generalizing e' with
  | tighter h x =>
    generalize ht : ([] : List _) = tail at h'
    cases h' with
    | tighter => rfl
    | join _ _ _ => simp at ht
  | @join left x tail operator right _ ih =>
    generalize ht : tail ++ [(operator, right)] = tail' at h'
    cases h' with
    | tighter => simp at ht
    | join operator' right' h' =>
      obtain ⟨rfl, hq⟩ := List.append_inj' ht rfl
      simp only [List.cons.injEq, Prod.mk.injEq, and_true] at hq
      rw [ih h', hq.1, hq.2]

end Spine

end ExprTree

def ExprPart.Follows : ExprPart → List Token → Prop
  | .level l, rest => ∀ t ∈ rest.head?, t.kind ≠ .openParen ∧ t.kind.joinRank < l.rank
  | .call, _ => True
  | .arguments, rest | .items, rest => ∀ t ∈ rest.head?, t.kind = .closeParen

namespace ExprTree

/-- No other tree starts the same list of tokens. -/
def Determined {p : ExprPart} (e : ExprTree p) : Prop :=
  ∀ ⦃e' : ExprTree p⦄ ⦃rest rest' : List Token⦄, p.Follows rest → p.Follows rest' →
    e.tokens ++ rest = e'.tokens ++ rest' → e = e' ∧ rest = rest'

theorem follows_tail {l : Level} (hl : l ≠ .primary)
    (tail : List (Leaf l.kinds × ExprTree (.level l.next))) {rest : List Token}
    (h : (ExprPart.level l).Follows rest) :
    (ExprPart.level l.next).Follows (tailTokens tail ++ rest) := by
  have hr := Level.rank_next hl
  cases tail with
  | nil =>
    intro t ht
    have := h t ht
    exact ⟨this.1, by omega⟩
  | cons q tail =>
    intro t ht
    simp only [tailTokens, List.flatMap_cons, List.cons_append, List.head?_cons,
      Option.mem_some_iff] at ht
    subst ht
    exact ⟨q.1.kind_ne_of_joinRank rfl, by rw [q.1.joinRank_eq]; omega⟩

theorem tail_determined {l : Level} (hl : l ≠ .primary)
    {tail tail' : List (Leaf l.kinds × ExprTree (.level l.next))} {rest rest' : List Token}
    (hd : ∀ q ∈ tail, Determined q.2) (h : (ExprPart.level l).Follows rest)
    (h' : (ExprPart.level l).Follows rest')
    (he : tailTokens tail ++ rest = tailTokens tail' ++ rest') : tail = tail' ∧ rest = rest' := by
  induction tail generalizing tail' with
  | nil =>
    cases tail' with
    | nil => exact ⟨rfl, he⟩
    | cons q' tail' =>
      -- `rest` would start with an operator of the level
      have := h q'.1.token (by rw [show rest = _ from he]; rfl)
      exact absurd q'.1.joinRank_eq (Nat.ne_of_lt this.2)
  | cons q tail ih =>
    cases tail' with
    | nil =>
      have := h' q.1.token (by rw [show rest' = _ from he.symm]; rfl)
      exact absurd q.1.joinRank_eq (Nat.ne_of_lt this.2)
    | cons q' tail' =>
      simp only [tailTokens, List.flatMap_cons, List.cons_append, List.cons.injEq,
        List.append_assoc] at he
      obtain ⟨hq, hrest⟩ := hd q List.mem_cons_self (follows_tail hl tail h)
        (follows_tail hl tail' h') he.2
      obtain ⟨rfl, hr⟩ := ih (fun q hq => hd q (List.mem_cons_of_mem _ hq)) hrest
      exact ⟨congrArg (· :: tail) (Prod.ext (Leaf.ext he.1) hq), hr⟩

theorem determined_of_spine {l : Level} (hl : l.rank < Level.unary.rank)
    {e : ExprTree (.level l)} {x : ExprTree (.level l.next)}
    {tail : List (Leaf l.kinds × ExprTree (.level l.next))} (hs : Spine e x tail)
    (hx : Determined x) (ht : ∀ q ∈ tail, Determined q.2) : Determined e := by
  intro e' rest rest' h h' he
  obtain ⟨x', tail', hs'⟩ := exists_spine hl e'
  have hp : l ≠ .primary := by rintro rfl; exact absurd hl (by decide)
  rw [hs.tokens_eq, hs'.tokens_eq, List.append_assoc, List.append_assoc] at he
  obtain ⟨rfl, hrest⟩ := hx (follows_tail hp tail h) (follows_tail hp tail' h') he
  obtain ⟨rfl, hr⟩ := tail_determined hp ht h h' hrest
  exact ⟨hs.unique hs', hr⟩

theorem sign_ne_head {p : ExprTree (.level .primary)} (operator : Leaf [.not, .dash])
    {ts rest : List Token} : operator.token :: ts ≠ p.tokens ++ rest := by
  intro he
  cases p with
  | join _ op _ => exact absurd op.mem List.not_mem_nil
  | tighter h _ => exact absurd rfl h
  | literal value => exact operator.token_ne value (by decide) (List.cons.inj he).1
  | var name => exact operator.token_ne name (by decide) (List.cons.inj he).1
  | call inner =>
    cases inner with
    | apply name _ _ _ => exact operator.token_ne name (by decide) (List.cons.inj he).1
  | grouping opening _ _ => exact operator.token_ne opening (by decide) (List.cons.inj he).1

theorem determined_sign (operator : Leaf [.not, .dash]) {operand : ExprTree (.level .unary)}
    (ih : Determined operand) : Determined (.sign operator operand) := by
  intro e' rest rest' h h' he
  cases e' with
  | join _ op _ => exact absurd op.mem List.not_mem_nil
  | tighter _ inner => exact absurd he (sign_ne_head operator)
  | sign operator' operand' =>
    obtain ⟨ho, he⟩ := List.cons.inj he
    obtain ⟨rfl, hr⟩ := ih h h' he
    exact ⟨by rw [Leaf.ext ho], hr⟩

theorem determined_unsigned (hp : Level.unary ≠ .primary) {inner : ExprTree (.level .primary)}
    (ih : Determined inner) : Determined (.tighter hp inner : ExprTree (.level .unary)) := by
  intro e' rest rest' h h' he
  cases e' with
  | join _ op _ => exact absurd op.mem List.not_mem_nil
  | sign operator' operand' => exact absurd he.symm (sign_ne_head operator')
  | tighter hp' inner' =>
    -- nothing that joins operands is as tight as a sign, so both follow alike
    have hf {rest : List Token} (h : (ExprPart.level .unary).Follows rest) :
        (ExprPart.level .primary).Follows rest :=
      fun t ht => ⟨(h t ht).1, Nat.lt_succ_of_lt (h t ht).2⟩
    obtain ⟨rfl, hr⟩ := ih (hf h) (hf h') he
    exact ⟨rfl, hr⟩

theorem determined_literal (value : Leaf [.number, .string, .bool]) :
    Determined (.literal value) := by
  intro e' rest rest' _ _ he
  cases e' with
  | join _ op _ => exact absurd op.mem List.not_mem_nil
  | tighter h _ => exact absurd rfl h
  | literal value' =>
    obtain ⟨hv, hr⟩ := List.cons.inj he
    exact ⟨by rw [Leaf.ext hv], hr⟩
  | var name => exact absurd (List.cons.inj he).1 (value.token_ne name (by decide))
  | call inner =>
    cases inner with
    | apply name _ _ _ => exact absurd (List.cons.inj he).1 (value.token_ne name (by decide))
  | grouping opening _ _ =>
    exact absurd (List.cons.inj he).1 (value.token_ne opening (by decide))

theorem determined_var (name : Leaf [.identifier]) : Determined (.var name) := by
  intro e' rest rest' h _ he
  cases e' with
  | join _ op _ => exact absurd op.mem List.not_mem_nil
  | tighter h _ => exact absurd rfl h
  | literal value => exact absurd (List.cons.inj he).1 (name.token_ne value (by decide))
  | var name' =>
    obtain ⟨hn, hr⟩ := List.cons.inj he
    exact ⟨by rw [Leaf.ext hn], hr⟩
  | call inner =>
    cases inner with
    | apply _ opening _ _ =>
      -- a parenthesis would follow the variable
      have hr : rest = opening.token :: _ := (List.cons.inj he).2
      exact absurd opening.kind_eq (h opening.token (by rw [hr]; rfl)).1
  | grouping opening _ _ =>
    exact absurd (List.cons.inj he).1 (name.token_ne opening (by decide))

theorem determined_call {c : ExprTree .call} (ih : Determined c) : Determined (.call c) := by
  intro e' rest rest' _ h' he
  cases e' with
  | join _ op _ => exact absurd op.mem List.not_mem_nil
  | tighter h _ => exact absurd rfl h
  | literal value =>
    cases c with
    | apply name _ _ _ => exact absurd (List.cons.inj he).1 (name.token_ne value (by decide))
  | var name' =>
    cases c with
    | apply _ opening _ _ =>
      have hr : rest' = opening.token :: _ := (List.cons.inj he).2.symm
      exact absurd opening.kind_eq (h' opening.token (by rw [hr]; rfl)).1
  | call c' =>
    obtain ⟨rfl, hr⟩ := ih trivial trivial he
    exact ⟨rfl, hr⟩
  | grouping opening _ _ =>
    cases c with
    | apply name _ _ _ => exact absurd (List.cons.inj he).1 (name.token_ne opening (by decide))

theorem follows_leaf {l : Level} {kinds : List TokenKind} (leaf : Leaf kinds) (rest : List Token)
    (h : ∀ k ∈ kinds, k ≠ .openParen ∧ k.joinRank = 0) :
    (ExprPart.level l).Follows (leaf.token :: rest) := by
  rintro t ⟨⟩
  exact ⟨(h _ leaf.mem).1, by rw [(h _ leaf.mem).2]; exact l.rank_pos⟩

theorem determined_grouping (opening : Leaf [.openParen]) {inner : FullExpr}
    (closing : Leaf [.closeParen]) (ih : Determined inner) :
    Determined (.grouping opening inner closing) := by
  intro e' rest rest' _ _ he
  cases e' with
  | join _ op _ => exact absurd op.mem List.not_mem_nil
  | tighter h _ => exact absurd rfl h
  | literal value => exact absurd (List.cons.inj he).1 (opening.token_ne value (by decide))
  | var name => exact absurd (List.cons.inj he).1 (opening.token_ne name (by decide))
  | call inner =>
    cases inner with
    | apply name _ _ _ => exact absurd (List.cons.inj he).1 (opening.token_ne name (by decide))
  | grouping opening' inner' closing' =>
    simp only [tokens, List.cons_append, List.append_assoc, List.nil_append,
      List.cons.injEq] at he
    obtain ⟨rfl, hc⟩ := ih (follows_leaf closing rest (by decide))
      (follows_leaf closing' rest' (by decide)) he.2
    obtain ⟨hc, hr⟩ := List.cons.inj hc
    exact ⟨by rw [Leaf.ext he.1, Leaf.ext hc], hr⟩

theorem determined_apply (name : Leaf [.identifier]) (opening : Leaf [.openParen])
    {arguments : ExprTree .arguments} (closing : Leaf [.closeParen])
    (ih : Determined arguments) : Determined (.apply name opening arguments closing) := by
  intro e' rest rest' _ _ he
  cases e' with
  | apply name' opening' arguments' closing' =>
    simp only [tokens, List.cons_append, List.append_assoc, List.nil_append,
      List.cons.injEq] at he
    obtain ⟨hn, ho, he⟩ := he
    obtain ⟨rfl, hc⟩ := ih (by rintro t ⟨⟩; exact closing.kind_eq)
      (by rintro t ⟨⟩; exact closing'.kind_eq) he
    obtain ⟨hc, hr⟩ := List.cons.inj hc
    exact ⟨by rw [Leaf.ext hn, Leaf.ext ho, Leaf.ext hc], hr⟩

theorem closing_ne_head {p : ExprPart} (e : ExprTree p) (hp : p ≠ .arguments)
    {rest rest' : List Token} (h : ∀ t ∈ rest.head?, t.kind = .closeParen) :
    rest ≠ e.tokens ++ rest' := by
  intro he
  obtain ⟨t, ts, ht, hk⟩ := e.tokens_head hp
  rw [ht] at he
  have := h t (by rw [he]; rfl)
  rw [this] at hk
  exact absurd hk (by decide)

theorem determined_none : Determined .none := by
  intro e' rest rest' h _ he
  cases e' with
  | none => exact ⟨rfl, he⟩
  | some items => exact absurd he (closing_ne_head items (by simp) h)

theorem determined_some {items : ExprTree .items} (ih : Determined items) :
    Determined (.some items) := by
  intro e' rest rest' h h' he
  cases e' with
  | none => exact absurd he.symm (closing_ne_head items (by simp) h')
  | some items' =>
    obtain ⟨rfl, hr⟩ := ih h h' he
    exact ⟨rfl, hr⟩

theorem follows_of_items {l : Level} {rest : List Token} (h : ExprPart.items.Follows rest) :
    (ExprPart.level l).Follows rest := by
  intro t ht
  rw [h t ht]
  exact ⟨by decide, l.rank_pos⟩

theorem comma_ne_head {rest ts : List Token} (comma : Leaf [.comma])
    (h : ExprPart.items.Follows rest) : rest ≠ comma.token :: ts := by
  rintro rfl
  have := h comma.token rfl
  rw [comma.kind_eq] at this
  cases this

theorem determined_last {item : FullExpr} (ih : Determined item) : Determined (.last item) := by
  intro e' rest rest' h h' he
  cases e' with
  | last item' =>
    obtain ⟨rfl, hr⟩ := ih (follows_of_items h) (follows_of_items h') he
    exact ⟨rfl, hr⟩
  | more item' comma more =>
    simp only [tokens, List.append_assoc, List.cons_append] at he
    obtain ⟨_, hr⟩ := ih (follows_of_items h) (follows_leaf comma _ (by decide)) he
    exact absurd hr (comma_ne_head comma h)

theorem determined_more {item : FullExpr} (comma : Leaf [.comma]) {more : ExprTree .items}
    (ihi : Determined item) (ihm : Determined more) : Determined (.more item comma more) := by
  intro e' rest rest' h h' he
  cases e' with
  | last item' =>
    simp only [tokens, List.append_assoc, List.cons_append] at he
    obtain ⟨_, hr⟩ := ihi (follows_leaf comma _ (by decide)) (follows_of_items h') he
    exact absurd hr.symm (comma_ne_head comma h')
  | more item' comma' more' =>
    simp only [tokens, List.append_assoc, List.cons_append] at he
    obtain ⟨rfl, hm⟩ :=
      ihi (follows_leaf comma _ (by decide)) (follows_leaf comma' _ (by decide)) he
    obtain ⟨hc, hm⟩ := List.cons.inj hm
    obtain ⟨rfl, hr⟩ := ihm h h' hm
    exact ⟨by rw [Leaf.ext hc], hr⟩

theorem determined {p : ExprPart} (e : ExprTree p) : Determined e :=
  match p, e with
  | .level .logical, e | .level .relational, e | .level .additive, e
  | .level .multiplicative, e => by
    obtain ⟨x, tail, hs⟩ := exists_spine (by decide) e
    have hlt := hs.sizeOf_lt
    exact determined_of_spine (by decide) hs (determined x) fun q hq =>
      have := hlt.2 q hq
      determined q.2
  | .level .unary, .join _ op _ | .level .primary, .join _ op _ =>
    absurd op.mem List.not_mem_nil
  | .level .unary, .tighter h inner => determined_unsigned h (determined inner)
  | .level .unary, .sign operator operand => determined_sign operator (determined operand)
  | .level .primary, .tighter h _ => absurd rfl h
  | .level .primary, .literal value => determined_literal value
  | .level .primary, .var name => determined_var name
  | .level .primary, .call inner => determined_call (determined inner)
  | .level .primary, .grouping opening inner closing =>
    determined_grouping opening closing (determined inner)
  | .call, .apply name opening arguments closing =>
    determined_apply name opening closing (determined arguments)
  | .arguments, .none => determined_none
  | .arguments, .some items => determined_some (determined items)
  | .items, .last item => determined_last (determined item)
  | .items, .more item comma rest => determined_more comma (determined item) (determined rest)
termination_by sizeOf e

theorem determined_before {l : Level} {kinds : List TokenKind} {e e' : ExprTree (.level l)}
    {leaf leaf' : Leaf kinds} {rest rest' : List Token}
    (h : ∀ k ∈ kinds, k ≠ .openParen ∧ k.joinRank = 0)
    (he : e.tokens ++ leaf.token :: rest = e'.tokens ++ leaf'.token :: rest') :
    e = e' ∧ leaf = leaf' ∧ rest = rest' := by
  obtain ⟨rfl, hl⟩ := e.determined (follows_leaf leaf rest h) (follows_leaf leaf' rest' h) he
  obtain ⟨hl, hr⟩ := List.cons.inj hl
  exact ⟨rfl, Leaf.ext hl, hr⟩

end ExprTree

end TinyScript
