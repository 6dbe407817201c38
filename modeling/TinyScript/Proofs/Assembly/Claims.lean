import TinyScript.Proofs.Assembly.Made

/-! What an event has done once it has been taken. The pieces it names were waiting, under numbers
that all differ and in the classes it asks for; they wait no longer, and what it makes of them is
stored. Nothing is assumed of the assembly before the event. -/

namespace TinyScript

/-- A piece as an event makes it, before a function has its scope. -/
def Node.beforeScope : Node → Node
  | .function f => .function { f with scope := ⟨0⟩ }
  | n => n

theorem Node.construct_beforeScope (n : Node) : n.beforeScope.construct = n.construct := by
  cases n <;> rfl

theorem Keyed.of_get?_eraseAll {α : Type} {m : Keyed Serial α} {ids : List Serial} {id : Serial}
    {x : α} (h : (m.eraseAll ids).get? id = some x) : id ∉ ids ∧ m.get? id = some x := by
  by_cases hid : id ∈ ids
  · obtain ⟨p, hp, -⟩ := Option.map_eq_some_iff.1 h
    have hmem := List.mem_of_find?_eq_some hp
    have hkey := List.find?_some hp
    simp_all [Keyed.eraseAll]
  · exact ⟨hid, (Keyed.get?_eraseAll hid).symm.trans h⟩

namespace Assembly

variable {a b c : Assembly} {id : Serial}

def Offers (a : Assembly) (part : Serial × ConstructClass) (n : Node) : Prop :=
  a.pending.get? part.1 = some n ∧ n.construct = part.2

structure Claims (a : Assembly) (parts : List (Serial × ConstructClass)) (ns : List Node)
    (b : Assembly) : Prop where
  nodup : (parts.map Prod.fst).Nodup
  offers : List.Forall₂ a.Offers parts ns
  rest : b = a.withoutAll (parts.map Prod.fst)

namespace Claims

variable {parts parts' : List (Serial × ConstructClass)} {ns ns' : List Node}

theorem nil (a : Assembly) : Claims a [] [] a := ⟨List.nodup_nil, .nil, (withoutAll_nil a).symm⟩

theorem append (h : Claims a parts ns b) (h' : Claims b parts' ns' c) :
    Claims a (parts ++ parts') (ns ++ ns') c := by
  obtain ⟨hnodup, hoffers, rfl⟩ := h
  obtain ⟨hnodup', hoffers', rfl⟩ := h'
  -- what is claimed later is still there, so it is none of what was claimed before
  have hlater : ∀ part n, (a.withoutAll (parts.map Prod.fst)).Offers part n →
      part.1 ∉ parts.map Prod.fst ∧ a.Offers part n := by
    rintro part n ⟨hget, hclass⟩
    obtain ⟨hid, hget⟩ := Keyed.of_get?_eraseAll hget
    exact ⟨hid, hget, hclass⟩
  refine ⟨?_, List.rel_append hoffers (hoffers'.imp fun part n h => (hlater part n h).2), ?_⟩
  · rw [List.map_append]
    refine List.nodup_append.2 ⟨hnodup, hnodup', ?_⟩
    rintro _ hid _ hid' rfl
    obtain ⟨part, hpart, rfl⟩ := List.mem_map.1 hid'
    obtain ⟨n, -, hn⟩ := exists_of_forall₂ hoffers' hpart
    exact (hlater part n hn).1 hid
  · rw [withoutAll_withoutAll, List.map_append]

theorem of_get? (h : Claims a parts ns b) {n : Node} (hn : b.pending.get? id = some n) :
    id ∉ parts.map Prod.fst ∧ a.pending.get? id = some n := by
  obtain ⟨-, -, rfl⟩ := h
  exact Keyed.of_get?_eraseAll hn

theorem blocks_eq (h : Claims a parts ns b) : b.blocks = a.blocks := by rw [h.rest]; rfl

theorem program_eq (h : Claims a parts ns b) : b.program = a.program := by rw [h.rest]; rfl

end Claims

theorem of_take {n : Node} (h : outcome (take id) a = (.ok n, b)) :
    Claims a [(id, n.construct)] [n] b := by
  rw [take, outcome_bind_ok (outcome_get a)] at h
  cases hget : a.pending.get? id with
  | none => simp only [hget] at h; cases h
  | some m =>
    simp only [hget] at h
    cases h
    exact ⟨List.nodup_singleton id, .cons ⟨hget, rfl⟩ .nil, a.without_eq_withoutAll id⟩

def Claimant {α : Type} (claim : Serial → AssembleM α) (node : α → Node) (cls : ConstructClass) :
    Prop :=
  ∀ ⦃a b id x⦄, outcome (claim id) a = (.ok x, b) → Claims a [(id, cls)] [node x] b

theorem claimant_takeExpr : Claimant takeExpr .expr .expression := by
  intro a b id e h
  obtain ⟨n, c, htake, h⟩ := exists_of_outcome_bind h
  cases n <;> cases h
  exact of_take htake

theorem claimant_takeStmt : Claimant takeStmt .statement .statement := by
  intro a b id s h
  obtain ⟨n, c, htake, h⟩ := exists_of_outcome_bind h
  cases n <;> cases h
  exact of_take htake

theorem claimant_takeBlock : Claimant takeBlock .block .block := by
  intro a b id block h
  obtain ⟨n, c, htake, h⟩ := exists_of_outcome_bind h
  cases n <;> cases h
  exact of_take htake

theorem claimant_takeFunction : Claimant takeFunction .function .function := by
  intro a b id f h
  obtain ⟨n, c, htake, h⟩ := exists_of_outcome_bind h
  cases n <;> cases h
  exact of_take htake

theorem Claimant.takeAll {α : Type} {claim : Serial → AssembleM α} {node : α → Node}
    {cls : ConstructClass} (hclaim : Claimant claim node cls) {ids : List Serial} {xs : List α}
    (h : outcome (takeAll claim ids) a = (.ok xs, b)) :
    Claims a (ids.map (·, cls)) (xs.map node) b := by
  induction ids generalizing a xs with
  | nil =>
    cases h
    exact .nil _
  | cons id ids ih =>
    obtain ⟨x, c, hfirst, h⟩ := exists_of_outcome_bind h
    obtain ⟨xs', c', hrest, h⟩ := exists_of_outcome_bind h
    cases h
    exact (hclaim hfirst).append (ih hrest)

inductive Taken (a : Assembly) : Event → Assembly → Prop
  | enter {id d : Nat} : Taken a ⟨id, d, .enterBlock⟩ (a.opened id d)
  | exit {d : Nat} {block : OpenBlock} {outer : List OpenBlock} (h : a.blocks = block :: outer) :
    Taken a ⟨block.id, d, .exitBlock⟩
      { a with blocks := outer, pending := a.pending.insert block.id (.block block.close) }
  | program {id d : Nat} {statements functions : List Serial} {ss : List Stmt} {fs : List Function}
    {b c : Assembly}
    (hss : Claims (a.withScopes 1) (statements.map (·, .statement)) (ss.map .statement) b)
    (hfs : Claims b (functions.map (·, .function)) (fs.map .function) c) :
    Taken a ⟨id, d, .program statements functions⟩
      { c with program := some ⟨ss, fs, d, ⟨a.nextScope⟩⟩ }
  | made {e : Event} {ns : List Node} {n : Node} {k : Nat} {b : Assembly}
    (hclaims : Claims a e.kind.parts.flatten ns b) (hmakes : e.Makes ns n.beforeScope) :
    Taken a e ((b.withScopes k).stored e.id n)

section Taken

variable {d : Nat}

theorem Taken.statement {e : Event} {ns : List Node} {s : Stmt}
    (hclaims : Claims a e.kind.parts.flatten ns b) (hmakes : e.Makes ns (.statement s))
    (h : outcome (addStmt e.id s) b = (.ok (), c)) : Taken a e c := by
  rw [outcome_addStmt_stored] at h
  cases h
  exact .made (k := 0) (n := .statement s) hclaims hmakes

theorem Taken.expr {e : Event} {ns : List Node} {v : Expr}
    (hclaims : Claims a e.kind.parts.flatten ns b) (hmakes : e.Makes ns (.expr v))
    (h : outcome (keep e.id (.expr v)) b = (.ok (), c)) : Taken a e c := by
  cases h
  exact .made (k := 0) (n := .expr v) hclaims hmakes

theorem taken_exitBlock (h : outcome (closeBlock id) a = (.ok (), b)) :
    Taken a ⟨id, d, .exitBlock⟩ b := by
  cases hblocks : a.blocks with
  | nil =>
    rw [closeBlock, outcome_bind_ok (outcome_get a)] at h
    simp only [hblocks] at h
    cases h
  | cons block outer =>
    by_cases hid : block.id = id
    · subst hid
      rw [outcome_closeBlock hblocks] at h
      cases h
      exact .exit hblocks
    · rw [closeBlock, outcome_bind_ok (outcome_get a)] at h
      simp only [hblocks, outcome_bind_ok (outcome_set _ _), if_neg hid] at h
      cases h

theorem taken_program {statements functions : List Serial}
    (h : outcome (buildProgram d statements functions) a = (.ok (), b)) :
    Taken a ⟨id, d, .program statements functions⟩ b := by
  have hscope : outcome freshScope a = (.ok ⟨a.nextScope⟩, a.withScopes 1) := rfl
  rw [buildProgram, outcome_bind_ok hscope] at h
  obtain ⟨ss, c, hss, h⟩ := exists_of_outcome_bind h
  obtain ⟨fs, c', hfs, h⟩ := exists_of_outcome_bind h
  cases h
  exact .program (claimant_takeStmt.takeAll hss) (claimant_takeFunction.takeAll hfs)

theorem taken_function {name : Token} {parameters : List (Token × Option DataType)}
    {result : Option DataType} {body : Serial}
    (h : outcome (buildFunction id d name parameters result body) a = (.ok (), b)) :
    Taken a ⟨id, d, .function name parameters result body⟩ b := by
  obtain ⟨block, c, hbody, h⟩ := exists_of_outcome_bind h
  have hscope : outcome freshScope c = (.ok ⟨c.nextScope⟩, c.withScopes 1) := rfl
  rw [outcome_bind_ok hscope] at h
  cases h
  exact .made (k := 1) (n := .function ⟨name.value, parameters.map parameter, result.getD .unknown,
    block, d, ⟨c.nextScope⟩⟩) (claimant_takeBlock hbody) (.function rfl)

theorem taken_assignment {target value : Serial}
    (h : outcome (buildAssignment id d target value) a = (.ok (), b)) :
    Taken a ⟨id, d, .assignment target value⟩ b := by
  obtain ⟨t, c, htarget, h⟩ := exists_of_outcome_bind h
  cases t with
  | var tag name =>
    obtain ⟨v, c', hvalue, h⟩ := exists_of_outcome_bind h
    exact .statement ((claimant_takeExpr htarget).append (claimant_takeExpr hvalue))
      (.assignment rfl) h
  | _ => cases h

theorem taken_conditional {condition : Serial} {blocks : List Serial}
    (h : outcome (buildConditional id d condition blocks) a = (.ok (), b)) :
    Taken a ⟨id, d, .conditional condition blocks⟩ b := by
  obtain ⟨v, c, hcondition, h⟩ := exists_of_outcome_bind h
  match blocks with
  | [] => cases h
  | [yes] =>
    obtain ⟨y, c', hyes, h⟩ := exists_of_outcome_bind h
    exact .statement ((claimant_takeExpr hcondition).append (claimant_takeBlock hyes))
      (.ifThen rfl) h
  | [yes, no] =>
    obtain ⟨y, c', hyes, h⟩ := exists_of_outcome_bind h
    obtain ⟨n, c'', hno, h⟩ := exists_of_outcome_bind h
    exact .statement ((claimant_takeExpr hcondition).append
      ((claimant_takeBlock hyes).append (claimant_takeBlock hno))) (.ifElse rfl) h
  | yes :: no :: _ :: _ =>
    obtain ⟨y, c', hyes, h⟩ := exists_of_outcome_bind h
    obtain ⟨n, c'', hno, h⟩ := exists_of_outcome_bind h
    cases h

theorem taken_test {call expected : Serial}
    (h : outcome (buildTest id d call expected) a = (.ok (), b)) :
    Taken a ⟨id, d, .test call expected⟩ b := by
  obtain ⟨t, c, hcall, h⟩ := exists_of_outcome_bind h
  cases t with
  | call tag name arguments =>
    obtain ⟨v, c', hexpected, h⟩ := exists_of_outcome_bind h
    exact .statement ((claimant_takeExpr hcall).append (claimant_takeExpr hexpected)) (.test rfl) h
  | _ => cases h

theorem writes_of_literal {token : Token} {v : Literal} (h : literal token = .ok v) :
    token.Writes v := by
  unfold literal at h
  split at h
  · next hkind =>
    cases h
    exact .bool hkind
  · next hkind =>
    split at h
    · next n hn =>
      cases h
      exact .int hkind hn
    · cases h
  · next hkind =>
    cases h
    exact .str hkind
  · cases h

theorem taken_literal {token : Token}
    (h : outcome (handle ⟨id, d, .literal token⟩) a = (.ok (), b)) :
    Taken a ⟨id, d, .literal token⟩ b := by
  obtain ⟨v, c, hvalue, h⟩ := exists_of_outcome_bind h
  cases hliteral : literal token with
  | ok w =>
    rw [hliteral] at hvalue
    cases hvalue
    exact .expr (.nil a) (.literal rfl (writes_of_literal hliteral)) h
  | error f =>
    rw [hliteral] at hvalue
    cases hvalue

theorem taken_of_handle {e : Event} (h : outcome (handle e) a = (.ok (), b)) : Taken a e b := by
  obtain ⟨id, d, kind⟩ := e
  cases kind with
  | enterBlock =>
    cases h
    exact .enter
  | exitBlock => exact taken_exitBlock h
  | program statements functions => exact taken_program h
  | function name parameters result body => exact taken_function h
  | assignment target value => exact taken_assignment h
  | conditional condition blocks => exact taken_conditional h
  | test call expected => exact taken_test h
  | literal token => exact taken_literal h
  | loop guard body =>
    obtain ⟨g, c, hguard, h⟩ := exists_of_outcome_bind h
    obtain ⟨block, c', hbody, h⟩ := exists_of_outcome_bind h
    exact .statement ((claimant_takeExpr hguard).append (claimant_takeBlock hbody)) (.loop rfl) h
  | ret value =>
    obtain ⟨v, c, hvalue, h⟩ := exists_of_outcome_bind h
    exact .statement (claimant_takeExpr hvalue) (.ret rfl) h
  | brk => exact .statement (.nil a) (.brk rfl) h
  | cont => exact .statement (.nil a) (.cont rfl) h
  | expr inner =>
    obtain ⟨v, c, hinner, h⟩ := exists_of_outcome_bind h
    exact .expr (claimant_takeExpr hinner) (.expr rfl) h
  | binary operator left right =>
    obtain ⟨l, c, hleft, h⟩ := exists_of_outcome_bind h
    obtain ⟨r, c', hright, h⟩ := exists_of_outcome_bind h
    exact .expr ((claimant_takeExpr hleft).append (claimant_takeExpr hright)) (.binary rfl) h
  | unary operator operand =>
    obtain ⟨v, c, hoperand, h⟩ := exists_of_outcome_bind h
    exact .expr (claimant_takeExpr hoperand) (.unary rfl) h
  | call name arguments =>
    obtain ⟨vs, c, harguments, h⟩ := exists_of_outcome_bind h
    have hclaims := (claimant_takeExpr.takeAll harguments).append (.nil c)
    exact .expr hclaims (.call rfl (List.append_nil _)) h
  | var name => exact .expr (.nil a) (.var rfl) h

end Taken

end Assembly

end TinyScript
