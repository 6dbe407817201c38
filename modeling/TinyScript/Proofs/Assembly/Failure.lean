import TinyScript.Proofs.Assembly.Claims

/-! What an event has done where it fails. Parts are claimed one after the other, with a way out
after each of them, and nothing is stored before the last: so the first few of the parts are gone,
and nothing has come in. Nothing is assumed of the assembly before the event. -/

namespace TinyScript

namespace Assembly

structure Spent (a : Assembly) (ids : List Serial) (b : Assembly) : Prop where
  pending : b.pending = a.pending.eraseAll ids
  blocks : b.blocks = a.blocks
  program : b.program = a.program
  nextScope : a.nextScope ≤ b.nextScope

namespace Spent

variable {a b c : Assembly} {ids ids' : List Serial}

theorem refl (a : Assembly) : Spent a [] a :=
  ⟨(Keyed.eraseAll_nil _).symm, rfl, rfl, Nat.le_refl _⟩

theorem trans (h : Spent a ids b) (h' : Spent b ids' c) : Spent a (ids ++ ids') c where
  pending := by rw [h'.pending, h.pending, Keyed.eraseAll_eraseAll]
  blocks := h'.blocks.trans h.blocks
  program := h'.program.trans h.program
  nextScope := Nat.le_trans h.nextScope h'.nextScope

end Spent

theorem Claims.spent {a b : Assembly} {parts : List (Serial × ConstructClass)} {ns : List Node}
    (h : Claims a parts ns b) : Spent a (parts.map Prod.fst) b := by
  obtain ⟨-, -, rfl⟩ := h
  exact ⟨rfl, rfl, rfl, Nat.le_refl _⟩

def Spares {α : Type} (act : AssembleM α) (ids : List Serial) : Prop :=
  ∀ ⦃a b : Assembly⦄ ⦃f : Fault⦄, outcome act a = (.error f, b) →
    ∃ gone, gone <+: ids ∧ Spent a gone b

/-- A step that claims the pieces `ids`, and the first few of them where it fails. -/
structure Spends {α : Type} (act : AssembleM α) (ids : List Serial) : Prop where
  spent : ∀ ⦃a b : Assembly⦄ ⦃x : α⦄, outcome act a = (.ok x, b) → Spent a ids b
  spares : Spares act ids

variable {α β : Type} {ids ids' : List Serial}

theorem spares_fail (cause : Cause) (ids : List Serial) : Spares (fail (α := α) cause) ids := by
  intro a b f h
  cases h
  exact ⟨[], List.nil_prefix, .refl _⟩

theorem spares_of_ok {act : AssembleM α} (h : ∀ a, ∃ x b, outcome act a = (.ok x, b))
    (ids : List Serial) : Spares act ids := by
  intro a b f hf
  obtain ⟨x, c, hok⟩ := h a
  rw [hok] at hf
  cases hf

theorem spares_keep (id : Serial) (node : Node) : Spares (keep id node) [] :=
  spares_of_ok (fun _ => ⟨(), _, rfl⟩) []

theorem spares_addStmt (id : Serial) (s : Stmt) : Spares (addStmt id s) [] :=
  spares_of_ok (fun a => ⟨(), _, outcome_addStmt_stored a id s⟩) []

theorem Spends.bind {act : AssembleM α} {next : α → AssembleM β} (h : Spends act ids)
    (hnext : ∀ x, Spares (next x) ids') : Spares (act >>= next) (ids ++ ids') := by
  intro a b f hf
  rcases of_outcome_bind_error hf with hact | ⟨x, c, hact, hrest⟩
  · obtain ⟨gone, hgone, hspent⟩ := h.spares hact
    exact ⟨gone, hgone.trans (List.prefix_append _ _), hspent⟩
  · obtain ⟨gone, hgone, hspent⟩ := hnext x hrest
    exact ⟨ids ++ gone, (List.prefix_append_right_inj ids).2 hgone, (h.spent hact).trans hspent⟩

theorem spends_freshScope : Spends freshScope [] where
  spent a b x h := by
    cases h
    exact ⟨(Keyed.eraseAll_nil _).symm, rfl, rfl, Nat.le_succ _⟩
  spares := spares_of_ok (fun _ => ⟨_, _, rfl⟩) []

theorem spends_take (id : Serial) : Spends (take id) [id] where
  spent _ _ _ h := (of_take h).spent
  spares a b f h := by
    rw [take, outcome_bind_ok (outcome_get a)] at h
    cases hget : a.pending.get? id with
    | none =>
      simp only [hget] at h
      exact spares_fail _ _ h
    | some node =>
      simp only [hget] at h
      cases h

theorem Claimant.spends {claim : Serial → AssembleM α} {node : α → Node} {cls : ConstructClass}
    (hclaim : Claimant claim node cls) {check : Node → AssembleM α}
    (hcheck : ∀ n, Spares (check n) []) (h : ∀ id, claim id = take id >>= check) (id : Serial) :
    Spends (claim id) [id] where
  spent _ _ _ hx := (hclaim hx).spent
  spares := by
    rw [h]
    exact (spends_take id).bind hcheck

theorem spends_takeExpr (id : Serial) : Spends (takeExpr id) [id] := by
  refine claimant_takeExpr.spends (fun n => ?_) (fun _ => rfl) id
  cases n with
  | expr e => exact spares_of_ok (fun a => ⟨e, a, rfl⟩) []
  | _ => exact spares_fail _ _

theorem spends_takeStmt (id : Serial) : Spends (takeStmt id) [id] := by
  refine claimant_takeStmt.spends (fun n => ?_) (fun _ => rfl) id
  cases n with
  | statement s => exact spares_of_ok (fun a => ⟨s, a, rfl⟩) []
  | _ => exact spares_fail _ _

theorem spends_takeBlock (id : Serial) : Spends (takeBlock id) [id] := by
  refine claimant_takeBlock.spends (fun n => ?_) (fun _ => rfl) id
  cases n with
  | block b => exact spares_of_ok (fun a => ⟨b, a, rfl⟩) []
  | _ => exact spares_fail _ _

theorem spends_takeFunction (id : Serial) : Spends (takeFunction id) [id] := by
  refine claimant_takeFunction.spends (fun n => ?_) (fun _ => rfl) id
  cases n with
  | function f => exact spares_of_ok (fun a => ⟨f, a, rfl⟩) []
  | _ => exact spares_fail _ _

theorem spends_takeAll {claim : Serial → AssembleM α} (h : ∀ id, Spends (claim id) [id])
    (ids : List Serial) : Spends (takeAll claim ids) ids := by
  induction ids with
  | nil =>
    constructor
    · intro a b x hx
      cases hx
      exact .refl _
    · exact spares_of_ok (fun a => ⟨[], a, rfl⟩) []
  | cons id ids ih =>
    constructor
    · intro a b xs hxs
      obtain ⟨x, c, hfirst, hxs⟩ := exists_of_outcome_bind hxs
      obtain ⟨xs', c', hrest, hxs⟩ := exists_of_outcome_bind hxs
      cases hxs
      exact ((h id).spent hfirst).trans (ih.spent hrest)
    · have hlast : ∀ x, Spares (do let xs ← takeAll claim ids; pure (x :: xs)) ids := by
        intro x
        have hpure := ih.bind fun xs => spares_of_ok (fun a => ⟨x :: xs, a, rfl⟩) []
        rwa [List.append_nil] at hpure
      exact (h id).bind hlast

theorem spares_program (d : Nat) (statements functions : List Serial) :
    Spares (buildProgram d statements functions) (statements ++ functions) := by
  refine spends_freshScope.bind fun scope => ?_
  refine (spends_takeAll spends_takeStmt statements).bind fun ss => ?_
  have hset : ∀ fs, Spares (modify fun a => { a with program := some ⟨ss, fs, d, scope⟩ }) [] :=
    fun _ => spares_of_ok (fun _ => ⟨_, _, rfl⟩) []
  have hlast := (spends_takeAll spends_takeFunction functions).bind hset
  rwa [List.append_nil] at hlast

theorem spares_function (id d : Nat) (name : Token) (parameters : List (Token × Option DataType))
    (result : Option DataType) (body : Serial) :
    Spares (buildFunction id d name parameters result body) [body] :=
  (spends_takeBlock body).bind fun _ => spends_freshScope.bind fun _ => spares_keep id _

theorem spares_assignment (id d : Nat) (target value : Serial) :
    Spares (buildAssignment id d target value) [target, value] := by
  refine (spends_takeExpr target).bind fun e => ?_
  cases e with
  | var tag name => exact (spends_takeExpr value).bind fun _ => spares_addStmt id _
  | _ => exact spares_fail _ _

theorem spares_conditional (id d : Nat) (condition : Serial) (blocks : List Serial) :
    Spares (buildConditional id d condition blocks) (condition :: blocks) := by
  refine (spends_takeExpr condition).bind fun e => ?_
  match blocks with
  | [] => exact spares_fail _ _
  | [yes] => exact (spends_takeBlock yes).bind fun _ => spares_addStmt id _
  | yes :: no :: more =>
    refine (spends_takeBlock yes).bind fun y => (spends_takeBlock no).bind fun n => ?_
    cases more with
    | nil => exact spares_addStmt id _
    | cons _ _ => exact spares_fail _ _

theorem spares_test (id d : Nat) (call expected : Serial) :
    Spares (buildTest id d call expected) [call, expected] := by
  refine (spends_takeExpr call).bind fun e => ?_
  cases e with
  | call tag name arguments => exact (spends_takeExpr expected).bind fun _ => spares_addStmt id _
  | _ => exact spares_fail _ _

theorem eq_of_literal_failed {a b : Assembly} {f : Fault} {id d : Nat} {token : Token}
    (h : outcome (handle ⟨id, d, .literal token⟩) a = (.error f, b)) : b = a := by
  rw [outcome_handle_literal] at h
  split at h
  · cases h
  · cases h
    rfl

/-- The end of a block that is not the innermost one closes the innermost one, and what was in it
is gone. -/
theorem eq_of_exitBlock_failed {a b : Assembly} {f : Fault} {id : Nat}
    (h : outcome (closeBlock id) a = (.error f, b)) : b = { a with blocks := a.blocks.tail } := by
  rw [closeBlock, outcome_bind_ok (outcome_get a)] at h
  cases hblocks : a.blocks with
  | nil =>
    simp only [hblocks] at h
    cases h
    rw [List.tail_nil, ← hblocks]
  | cons block outer =>
    simp only [hblocks, outcome_bind_ok (outcome_set _ _)] at h
    split at h
    · cases h
    · cases h
      rfl

theorem spares_handle {e : Event} (he : e.kind ≠ .exitBlock) : Spares (handle e) e.named := by
  obtain ⟨id, d, kind⟩ := e
  cases kind with
  | enterBlock => exact spares_of_ok (fun _ => ⟨(), _, rfl⟩) _
  | exitBlock => exact absurd rfl he
  | program statements functions =>
    have hnamed : Event.named ⟨id, d, .program statements functions⟩ = statements ++ functions := by
      simp [Event.named, EventKind.parts, Function.comp_def]
    rw [hnamed]
    exact spares_program d statements functions
  | function name parameters result body =>
    exact spares_function id d name parameters result body
  | assignment target value => exact spares_assignment id d target value
  | conditional condition blocks =>
    have hnamed : Event.named ⟨id, d, .conditional condition blocks⟩ = condition :: blocks := by
      simp [Event.named, EventKind.parts, Function.comp_def]
    rw [hnamed]
    exact spares_conditional id d condition blocks
  | test call expected => exact spares_test id d call expected
  | literal token =>
    intro a b f h
    obtain rfl := eq_of_literal_failed h
    exact ⟨[], List.nil_prefix, .refl _⟩
  | loop guard body =>
    exact (spends_takeExpr guard).bind fun _ => (spends_takeBlock body).bind fun _ =>
      spares_addStmt id _
  | ret value => exact (spends_takeExpr value).bind fun _ => spares_addStmt id _
  | brk | cont => exact spares_addStmt id _
  | expr inner | unary _ inner => exact (spends_takeExpr inner).bind fun _ => spares_keep id _
  | binary operator left right =>
    exact (spends_takeExpr left).bind fun _ => (spends_takeExpr right).bind fun _ =>
      spares_keep id _
  | call name arguments =>
    have hlast := (spends_takeAll spends_takeExpr arguments).bind fun vs =>
      spares_keep id (.expr (.call (.untyped d) name.value vs))
    rw [List.append_nil] at hlast
    rw [named_call]
    exact hlast
  | var name => exact spares_keep id _

structure Left (a : Assembly) (e : Event) (b : Assembly) : Prop where
  pending : ∃ gone, gone <+: e.named ∧ b.pending = a.pending.eraseAll gone
  program : b.program = a.program
  blocks : b.blocks = if e.kind = .exitBlock then a.blocks.tail else a.blocks
  nextScope : a.nextScope ≤ b.nextScope

theorem left_of_failed {a b : Assembly} {e : Event} {f : Fault}
    (h : outcome (handle e) a = (.error f, b)) : Left a e b := by
  by_cases hexit : e.kind = .exitBlock
  · obtain ⟨id, d, kind⟩ := e
    obtain rfl : kind = .exitBlock := hexit
    obtain rfl := eq_of_exitBlock_failed h
    exact ⟨⟨[], List.nil_prefix, (Keyed.eraseAll_nil _).symm⟩, rfl, (if_pos rfl).symm,
      Nat.le_refl _⟩
  · obtain ⟨gone, hgone, hspent⟩ := spares_handle hexit h
    exact ⟨⟨gone, hgone, hspent.pending⟩, hspent.program, hspent.blocks.trans (if_neg hexit).symm,
      hspent.nextScope⟩

/-- An event that fails adds nothing. Of what waits, the first few of the pieces it names are gone
and the rest is untouched, and the program is the same. So are the open blocks, except that the end
of a block closes the innermost one. A literal that fails changes nothing at all. -/
theorem failed_event_adds_nothing {a b : Assembly} {e : Event} {f : Fault}
    (h : a.accept e = (.error f, b)) :
    (∃ gone, gone <+: e.named ∧ b.pending = a.pending.eraseAll gone) ∧
      b.program = a.program ∧
      b.blocks = (if e.kind = .exitBlock then a.blocks.tail else a.blocks) ∧
      ∀ token, e.kind = .literal token → b = a := by
  have hleft := left_of_failed h
  refine ⟨hleft.pending, hleft.program, hleft.blocks, ?_⟩
  obtain ⟨id, d, kind⟩ := e
  rintro token ⟨⟩
  exact eq_of_literal_failed h

def threeBlocks : Assembly where
  pending := ⟨[(0, .expr (.var (.untyped 1) "x")), (1, .block (.mk 2 ⟨0⟩ [.brk 3])),
    (2, .block (.mk 2 ⟨1⟩ [])), (3, .block (.mk 2 ⟨2⟩ [.cont 3]))]⟩
  blocks := [{ id := 4, depth := 0, scope := ⟨3⟩, statements := [.brk 1] }]
  nextScope := 4

/-- A conditional with three blocks fails when two of them have been claimed, and the end of a block
that is not open fails when the innermost one has been closed. -/
theorem threeBlocks_fails :
    (threeBlocks.accept ⟨5, 1, .conditional 0 [1, 2, 3]⟩ =
      (.error (.error (.detached (.unexpectedConstruct "at most two blocks" "more"))),
        { threeBlocks with pending := ⟨[(3, .block (.mk 2 ⟨2⟩ [.cont 3]))]⟩ }) ∧
      ∃ gone, gone <+: [0, 1, 2, 3] ∧ (⟨[(3, .block (.mk 2 ⟨2⟩ [.cont 3]))]⟩ : Keyed Serial Node) =
        threeBlocks.pending.eraseAll gone) ∧
    threeBlocks.accept ⟨5, 0, .exitBlock⟩ =
      (.error (.error (.detached (.unbalancedBlock 5))), { threeBlocks with blocks := [] }) ∧
      ([] : List OpenBlock) = threeBlocks.blocks.tail := by
  have hconditional : threeBlocks.accept ⟨5, 1, .conditional 0 [1, 2, 3]⟩ =
      (.error (.error (.detached (.unexpectedConstruct "at most two blocks" "more"))),
        { threeBlocks with pending := ⟨[(3, .block (.mk 2 ⟨2⟩ [.cont 3]))]⟩ }) := rfl
  have hexit : threeBlocks.accept ⟨5, 0, .exitBlock⟩ =
      (.error (.error (.detached (.unbalancedBlock 5))), { threeBlocks with blocks := [] }) := rfl
  exact ⟨⟨hconditional, (failed_event_adds_nothing hconditional).1⟩, hexit,
    (failed_event_adds_nothing hexit).2.2.1⟩

end Assembly

end TinyScript
