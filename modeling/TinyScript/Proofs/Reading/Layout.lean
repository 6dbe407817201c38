import TinyScript.Grammar.Goal
import TinyScript.Proofs.Reading.Passage

/-! Reading does not look at where tokens were found. Readers whose tokens have the same kinds and
values go the same way: they record the same events but for the places of tokens, and if one breaks
off, so does the other and for the same cause. -/

namespace TinyScript

def Token.unplaced (t : Token) : Token := { t with span := default }

def Token.Alike (t u : Token) : Prop := t.unplaced = u.unplaced

theorem Token.Alike.kind {t u : Token} (h : t.Alike u) : t.kind = u.kind := (Token.mk.inj h).1

theorem Token.Alike.value {t u : Token} (h : t.Alike u) : t.value = u.value := (Token.mk.inj h).2.1

def EventKind.unplaced : EventKind → EventKind
  | .function name parameters returnType body =>
    .function name.unplaced (parameters.map (Prod.map Token.unplaced id)) returnType body
  | .binary operator left right => .binary operator.unplaced left right
  | .unary operator operand => .unary operator.unplaced operand
  | .call name arguments => .call name.unplaced arguments
  | .var name => .var name.unplaced
  | .literal token => .literal token.unplaced
  | kind => kind

def Event.unplaced (e : Event) : Event := { e with kind := e.kind.unplaced }

inductive Goal.Alike : Goal → Goal → Prop
  | refl (goal : Goal) : Alike goal goal
  | call {name name' : Token} (hname : name.Alike name') : Alike (.call name) (.call name')
  | arguments {name name' : Token} (hname : name.Alike name') (done : List Serial) :
      Alike (.arguments name done) (.arguments name' done)
  | parameters {name name' : Token} (hname : name.Alike name')
      {done done' : List (Token × Option DataType)}
      (hdone : done.map (Prod.map Token.unplaced id) = done'.map (Prod.map Token.unplaced id)) :
      Alike (.parameters name done) (.parameters name' done')

namespace Reader

/-- Readers at the same place of lists of tokens that are alike, which have recorded the same. -/
structure Alike (r r' : Reader) : Prop where
  current : r.current.Alike r'.current
  upcoming : r.upcoming.map Token.unplaced = r'.upcoming.map Token.unplaced
  nextId : r.nextId = r'.nextId
  depth : r.depth = r'.depth
  events : r.events.toList.map Event.unplaced = r'.events.toList.map Event.unplaced

namespace Alike

variable {r r' : Reader}

theorem length_upcoming (h : r.Alike r') : r.upcoming.length = r'.upcoming.length := by
  simpa using congrArg List.length h.upcoming

theorem next (h : r.Alike r') : r.next.Alike r'.next := by
  obtain ⟨current, upcoming, nextId, depth, events⟩ := r
  obtain ⟨current', upcoming', nextId', depth', events'⟩ := r'
  have hupcoming := h.upcoming
  cases upcoming with
  | nil =>
    obtain rfl : upcoming' = [] := by simpa using hupcoming.symm
    exact h
  | cons t ts =>
    cases upcoming' with
    | nil => simp at hupcoming
    | cons t' ts' =>
      obtain ⟨ht, hts⟩ := List.cons.inj hupcoming
      exact ⟨ht, hts, h.nextId, h.depth, h.events⟩

theorem deeper (h : r.Alike r') : r.deeper.Alike r'.deeper :=
  ⟨h.current, h.upcoming, h.nextId, congrArg (· + 1) h.depth, h.events⟩

theorem shallower (h : r.Alike r') : r.shallower.Alike r'.shallower :=
  ⟨h.current, h.upcoming, h.nextId, congrArg (· - 1) h.depth, h.events⟩

theorem numbered (h : r.Alike r') :
    Alike { r with nextId := r.nextId + 1 } { r' with nextId := r'.nextId + 1 } :=
  ⟨h.current, h.upcoming, congrArg (· + 1) h.nextId, h.depth, h.events⟩

theorem record (h : r.Alike r') (id : Serial) {kind kind' : EventKind}
    (hkind : kind.unplaced = kind'.unplaced) : (r.record id kind).Alike (r'.record id kind') where
  current := h.current
  upcoming := h.upcoming
  nextId := h.nextId
  depth := h.depth
  events := by
    simp only [Reader.record, Array.toList_push, List.map_append, h.events, List.map_cons,
      List.map_nil, Event.unplaced, hkind, h.depth]

end Alike

variable {α β : Type}

/-- What two readings come to that go the same way: results that are alike, or errors of one
cause. -/
inductive Tallies (R : α → α → Prop) : Except Error α × Reader → Except Error α × Reader → Prop
  | ok {a b : α} {r r' : Reader} (h : R a b) (hr : r.Alike r') : Tallies R (.ok a, r) (.ok b, r')
  | error {e e' : Error} {r r' : Reader} (h : e.cause = e'.cause) (hr : r.Alike r') :
      Tallies R (.error e, r) (.error e', r')

def Agrees (R : α → α → Prop) (act act' : ReadM α) : Prop :=
  ∀ ⦃r r' : Reader⦄, r.Alike r' → Tallies R (outcome act r) (outcome act' r')

namespace Agrees

variable {R : α → α → Prop} {Q : β → β → Prop}

theorem pure {a b : α} (h : R a b) : Agrees R (Pure.pure a) (Pure.pure b) :=
  fun _ _ hr => .ok h hr

theorem throw {e e' : Error} (h : e.cause = e'.cause) :
    Agrees R (MonadExcept.throw e) (MonadExcept.throw e') := fun _ _ hr => .error h hr

theorem bind {act act' : ReadM α} {next next' : α → ReadM β} (h : Agrees R act act')
    (hnext : ∀ a b, R a b → Agrees Q (next a) (next' b)) :
    Agrees Q (act >>= next) (act' >>= next') := by
  intro r r' hr
  have hact := h hr
  generalize ho : outcome act r = x, ho' : outcome act' r' = y at hact
  cases hact with
  | ok hab hs =>
    rw [outcome_bind_ok ho, outcome_bind_ok ho']
    exact hnext _ _ hab hs
  | error he hs =>
    rw [outcome_bind_error ho, outcome_bind_error ho']
    exact .error he hs

theorem get {next next' : Reader → ReadM β}
    (h : ∀ ⦃r r'⦄, r.Alike r' → Tallies Q (outcome (next r) r) (outcome (next' r') r')) :
    Agrees Q (MonadState.get >>= next) (MonadState.get >>= next') := fun _ _ hr => h hr

theorem nested {act act' : ReadM α} (h : Agrees R act act') :
    Agrees R (Reader.nested act) (Reader.nested act') := by
  intro r r' hr
  have hact := h hr.deeper
  rw [outcome_nested, outcome_nested]
  generalize outcome act r.deeper = x, outcome act' r'.deeper = y at hact
  cases hact with
  | ok hab hs => exact .ok hab hs.shallower
  | error he hs => exact .error he hs.shallower

end Agrees

variable {R : α → α → Prop}

theorem agrees_peek : Agrees Eq peek peek := fun _ _ hr => .ok hr.current.kind hr

theorem agrees_advance : Agrees Token.Alike advance advance :=
  fun _ _ hr => .ok hr.current hr.next

theorem agrees_fail : Agrees R fail fail := fun _ _ hr =>
  .error (congrArg Cause.unexpectedToken hr.current.value) hr

theorem agrees_reject (message : String) : Agrees R (reject message) (reject message) :=
  fun _ _ hr => .error (congrArg (Cause.unexpectedTokenDetailed · message) hr.current.value) hr

theorem agrees_expect (kind : TokenKind) :
    Agrees Token.Alike (expect kind) (expect kind) := by
  intro r r' hr
  rw [expect, outcome_expectOr, outcome_expectOr, hr.current.kind]
  split
  · exact .ok hr.current hr.next
  · exact .error (congrArg Cause.unexpectedToken hr.current.value) hr

theorem agrees_require (kind : TokenKind) (message : String) :
    Agrees Token.Alike (require kind message) (require kind message) := by
  refine Agrees.get fun r r' hr => ?_
  rw [outcome_expectOr, outcome_expectOr, hr.current.kind]
  split
  · exact .ok hr.current hr.next
  · exact .error (congrArg (Cause.unexpectedTokenDetailed · message) hr.current.value) hr

theorem agrees_freshId : Agrees Eq freshId freshId := fun _ _ hr => .ok hr.nextId hr.numbered

theorem agrees_emitAs (id : Serial) {kind kind' : EventKind} (h : kind.unplaced = kind'.unplaced) :
    Agrees Eq (emitAs id kind) (emitAs id kind') := fun _ _ hr =>
  .ok rfl (hr.record id h)

theorem agrees_emit {kind kind' : EventKind} (h : kind.unplaced = kind'.unplaced) :
    Agrees Eq (emit kind) (emit kind') := by
  refine agrees_freshId.bind fun id _ hid => ?_
  subst hid
  exact (agrees_emitAs id h).bind fun _ _ _ => .pure rfl

section Types

theorem agrees_namedTypeOf {element element' : ReadM DataType} (h : Agrees Eq element element') :
    Agrees Eq (namedTypeOf element) (namedTypeOf element') := by
  refine (agrees_expect .identifier).bind fun name name' hname => ?_
  rw [← hname.value]
  cases DataType.ofName? name.value with
  | some t => exact .pure rfl
  | none =>
    cases Family.ofName? name.value with
    | none => exact .throw rfl
    | some family =>
      refine (agrees_expect .less).bind fun _ _ _ => h.bind fun t _ ht => ?_
      refine (agrees_expect .greater).bind fun _ _ _ => ?_
      rw [← ht]
      cases DataType.ofFamily? family t with
      | some t => exact .pure rfl
      | none => exact .throw rfl

theorem agrees_typeWithin (g : Grammar) (n : Nat) :
    Agrees Eq (typeWithin g n) (typeWithin g n) := by
  induction n with
  | zero => exact Agrees.get fun _ _ hr => .error rfl hr
  | succ n ih =>
    refine agrees_peek.bind fun kind _ hkind => ?_
    subst hkind
    split
    · exact agrees_namedTypeOf ih
    · exact agrees_fail

theorem agrees_readType (g : Grammar) : Agrees Eq (readType g) (readType g) :=
  Agrees.get fun _ _ hr => by
    rw [hr.length_upcoming]
    exact agrees_typeWithin g _ hr

theorem agrees_annotated (g : Grammar) (mark : TokenKind) :
    Agrees Eq (typeAfter g mark) (typeAfter g mark) := by
  refine agrees_peek.bind fun kind _ hkind => ?_
  subst hkind
  split
  · refine agrees_advance.bind fun _ _ _ => (agrees_readType g).bind fun t _ ht => ?_
    exact .pure (congrArg some ht)
  · exact .pure rfl

end Types

theorem agrees_separator {comma comma' : ReadM Token} (h : Agrees Token.Alike comma comma')
    (dangling : String) : Agrees Eq (separator comma dangling) (separator comma' dangling) := by
  refine agrees_peek.bind fun kind _ hkind => ?_
  subst hkind
  split
  · exact .pure rfl
  · refine h.bind fun _ _ _ => agrees_peek.bind fun kind _ hkind => ?_
    subst hkind
    split
    · exact agrees_reject _
    · exact .pure rfl

section Productions

variable (g : Grammar) {read read' : Goal → ReadM Serial}
  (hread : ∀ ⦃goal goal' : Goal⦄, goal.Alike goal' → Agrees Eq (read goal) (read' goal'))

include hread

theorem agrees_fullExpr : Agrees Eq (readFullExpr read) (readFullExpr read') :=
  (hread (.refl _)).bind fun _ _ hinner => agrees_emit (congrArg EventKind.expr hinner)

theorem agrees_expr (power : Power) :
    Agrees Eq (readExpr g read power) (readExpr g read' power) := by
  refine .nested (agrees_peek.bind fun kind _ hkind => ?_)
  subst hkind
  cases g.opening? kind with
  | none => exact agrees_fail
  | some rule => exact (hread (.refl _)).bind fun _ _ hleft => hleft ▸ hread (.refl _)

theorem agrees_operators (power : Power) (left : Serial) :
    Agrees Eq (readOperators g read power left) (readOperators g read' power left) := by
  refine agrees_peek.bind fun kind _ hkind => ?_
  subst hkind
  split
  · exact .pure rfl
  · exact (hread (.refl _)).bind fun _ _ hleft => hleft ▸ hread (.refl _)

theorem agrees_binary (left : Serial) (power : Power) :
    Agrees Eq (readBinary read left power) (readBinary read' left power) := by
  refine agrees_advance.bind fun operator operator' ho => ?_
  refine (hread (.refl _)).bind fun _ _ hright => agrees_emit ?_
  rw [EventKind.unplaced, EventKind.unplaced, ho, hright]

theorem agrees_primary : Agrees Eq (readPrimary read) (readPrimary read') := by
  refine agrees_peek.bind fun kind _ hkind => ?_
  subst hkind
  have hliteral : Agrees Eq (do let token ← advance; emit (.literal token))
      (do let token ← advance; emit (.literal token)) :=
    agrees_advance.bind fun _ _ htoken => agrees_emit (congrArg EventKind.literal htoken)
  cases kind with
  | number | string | bool => exact hliteral
  | identifier =>
    refine agrees_advance.bind fun name name' hname => agrees_peek.bind fun kind _ hkind => ?_
    subst hkind
    split
    · exact hread (.call hname)
    · exact agrees_emit (congrArg EventKind.var hname)
  | _ => exact agrees_fail

theorem agrees_negation : Agrees Eq (readNegation read) (readNegation read') := by
  refine agrees_advance.bind fun operator operator' ho => ?_
  refine (hread (.refl _)).bind fun _ _ hoperand => agrees_emit ?_
  rw [EventKind.unplaced, EventKind.unplaced, ho, hoperand]

theorem agrees_grouping : Agrees Eq (readGrouping read) (readGrouping read') := by
  refine agrees_advance.bind fun _ _ _ => (hread (.refl _)).bind fun _ _ hinner => ?_
  exact (agrees_expect .closeParen).bind fun _ _ _ => .pure hinner

theorem agrees_call {name name' : Token} (hname : name.Alike name') :
    Agrees Eq (readCall read name) (readCall read' name') := by
  exact (agrees_expect .openParen).bind fun _ _ _ => hread (.arguments hname [])

theorem agrees_arguments {name name' : Token} (hname : name.Alike name') (done : List Serial) :
    Agrees Eq (readArguments read name done) (readArguments read' name' done) := by
  refine agrees_peek.bind fun kind _ hkind => ?_
  subst hkind
  split
  · refine (agrees_expect .closeParen).bind fun _ _ _ => agrees_emit ?_
    rw [EventKind.unplaced, EventKind.unplaced, hname]
  · refine (hread (.refl _)).bind fun argument _ hargument => ?_
    refine (agrees_separator (agrees_require .comma _) _).bind fun _ _ _ => ?_
    rw [← hargument]
    exact hread (.arguments hname _)

theorem agrees_statement : Agrees Eq (readStatement g read) (readStatement g read') := by
  refine agrees_peek.bind fun kind _ hkind => ?_
  subst hkind
  cases g.statement? kind with
  | some rule => exact .nested (hread (.refl _))
  | none =>
    change Agrees Eq (if kind = .defWord then _ else _) (if kind = .defWord then _ else _)
    split
    · exact agrees_reject _
    · exact agrees_reject _

theorem agrees_block : Agrees Eq (readBlock read) (readBlock read') := by
  refine .nested ((agrees_expect .openCurly).bind fun _ _ _ => ?_)
  refine agrees_freshId.bind fun id _ hid => ?_
  subst hid
  exact (agrees_emitAs id rfl).bind fun _ _ _ => hread (.refl _)

theorem agrees_statements (block : Serial) :
    Agrees Eq (readStatements read block) (readStatements read' block) := by
  refine agrees_peek.bind fun kind _ hkind => ?_
  subst hkind
  split
  · refine (agrees_expect .closeCurly).bind fun _ _ _ => ?_
    exact (agrees_emitAs block rfl).bind fun _ _ _ => .pure rfl
  · split
    · exact agrees_reject _
    · exact (hread (.refl _)).bind fun _ _ _ => hread (.refl _)

theorem agrees_function : Agrees Eq (readFunction read) (readFunction read') := by
  refine .nested ((agrees_expect .defWord).bind fun _ _ _ => ?_)
  refine (agrees_require .identifier _).bind fun name name' hname => ?_
  exact (agrees_expect .openParen).bind fun _ _ _ => hread (.parameters hname rfl)

theorem agrees_parameters {name name' : Token} (hname : name.Alike name')
    {done done' : List (Token × Option DataType)}
    (hdone : done.map (Prod.map Token.unplaced id) = done'.map (Prod.map Token.unplaced id)) :
    Agrees Eq (readParameters g read name done) (readParameters g read' name' done') := by
  refine agrees_peek.bind fun kind _ hkind => ?_
  subst hkind
  split
  · refine (agrees_expect .closeParen).bind fun _ _ _ => ?_
    refine (agrees_annotated g .arrow).bind fun _ _ htype => ?_
    refine (hread (.refl _)).bind fun _ _ hbody => agrees_emit ?_
    rw [EventKind.unplaced, EventKind.unplaced, hname, hdone, htype, hbody]
  · refine (agrees_require .identifier _).bind fun parameter parameter' hparameter => ?_
    refine (agrees_annotated g .colon).bind fun _ _ htype => ?_
    refine (agrees_separator (agrees_expect .comma) _).bind fun _ _ _ => ?_
    refine hread (.parameters hname ?_)
    rw [List.map_append, List.map_append, hdone, htype]
    exact congrArg (fun t => _ ++ [(t, _)]) hparameter

theorem agrees_assignment : Agrees Eq (readAssignment read) (readAssignment read') := by
  refine (agrees_expect .identifier).bind fun name name' hname => ?_
  have hvar : (EventKind.var name).unplaced = (EventKind.var name').unplaced :=
    congrArg EventKind.var hname
  refine (agrees_emit hvar).bind fun target _ htarget => ?_
  refine (agrees_require .assignment _).bind fun _ _ _ => ?_
  refine (hread (.refl _)).bind fun value _ hvalue => ?_
  refine (agrees_expect .semicolon).bind fun _ _ _ => agrees_emit ?_
  rw [htarget, hvalue]

theorem agrees_condition : Agrees Eq (readCondition read) (readCondition read') := by
  refine (agrees_expect .openParen).bind fun _ _ _ => ?_
  refine (hread (.refl _)).bind fun _ _ hcondition => ?_
  exact (agrees_expect .closeParen).bind fun _ _ _ => .pure hcondition

theorem agrees_conditional : Agrees Eq (readConditional read) (readConditional read') := by
  refine (agrees_expect .ifWord).bind fun _ _ _ => ?_
  refine (agrees_condition hread).bind fun condition _ hcondition => ?_
  refine (hread (.refl _)).bind fun yes _ hyes => agrees_peek.bind fun kind _ hkind => ?_
  subst hkind hcondition hyes
  split
  · refine agrees_advance.bind fun _ _ _ => (hread (.refl _)).bind fun no _ hno => ?_
    exact agrees_emit (by rw [hno])
  · exact agrees_emit rfl

theorem agrees_loop : Agrees Eq (readLoop read) (readLoop read') := by
  refine (agrees_expect .whileWord).bind fun _ _ _ => ?_
  refine (agrees_condition hread).bind fun guard _ hguard => ?_
  exact (hread (.refl _)).bind fun body _ hbody => agrees_emit (by rw [hguard, hbody])

theorem agrees_return : Agrees Eq (readReturn read) (readReturn read') := by
  refine (agrees_expect .returnWord).bind fun _ _ _ => agrees_peek.bind fun kind _ hkind => ?_
  subst hkind
  split
  · exact agrees_reject _
  · refine (hread (.refl _)).bind fun value _ hvalue => ?_
    exact (agrees_expect .semicolon).bind fun _ _ _ => agrees_emit (by rw [hvalue])

omit hread in
theorem agrees_word (word : TokenKind) (kind : EventKind) :
    Agrees Eq (readWord word kind) (readWord word kind) :=
  (agrees_expect word).bind fun _ _ _ =>
    (agrees_expect .semicolon).bind fun _ _ _ => agrees_emit rfl

theorem agrees_test : Agrees Eq (readTest read) (readTest read') := by
  refine (agrees_expect .testWord).bind fun _ _ _ => ?_
  refine (agrees_require .identifier _).bind fun name name' hname => ?_
  refine agrees_peek.bind fun kind _ hkind => ?_
  subst hkind
  split
  · refine (hread (.call hname)).bind fun inner _ hinner => ?_
    subst hinner
    refine (agrees_emit rfl).bind fun call _ hcall => ?_
    refine (agrees_require .equals _).bind fun _ _ _ => ?_
    refine (hread (.refl _)).bind fun expected _ hexpected => ?_
    refine (agrees_expect .semicolon).bind fun _ _ _ => agrees_emit ?_
    rw [hcall, hexpected]
  · exact agrees_reject _

theorem agrees_program (statements functions : List Serial) :
    Agrees Eq (readProgram read statements functions) (readProgram read' statements functions) := by
  refine agrees_peek.bind fun kind _ hkind => ?_
  subst hkind
  split
  · exact agrees_emit rfl
  · split
    · exact (hread (.refl _)).bind fun _ _ hid => hid ▸ hread (.refl _)
    · exact (hread (.refl _)).bind fun _ _ hid => hid ▸ hread (.refl _)

theorem agrees_rule (rule : Rule) : Agrees Eq (stepRule g read rule) (stepRule g read' rule) := by
  cases rule with
  | fullExpr => exact agrees_fullExpr hread
  | primary => exact agrees_primary hread
  | negation => exact agrees_negation hread
  | grouping => exact agrees_grouping hread
  | statement => exact agrees_statement g hread
  | block => exact agrees_block hread
  | function => exact agrees_function hread
  | assignment => exact agrees_assignment hread
  | conditional => exact agrees_conditional hread
  | loop => exact agrees_loop hread
  | ret => exact agrees_return hread
  | brk => exact agrees_word .breakWord .brk
  | cont => exact agrees_word .continueWord .cont
  | test => exact agrees_test hread

theorem agrees_step {goal goal' : Goal} (h : goal.Alike goal') :
    Agrees Eq (step g read goal) (step g read' goal') := by
  cases h with
  | refl =>
    cases goal with
    | rule r => exact agrees_rule g hread r
    | expr power => exact agrees_expr g hread power
    | operators power left => exact agrees_operators g hread power left
    | binary left power => exact agrees_binary hread left power
    | call name => exact agrees_call hread rfl
    | arguments name done => exact agrees_arguments hread rfl done
    | statements block => exact agrees_statements hread block
    | parameters name done => exact agrees_parameters g hread rfl rfl
    | program statements functions => exact agrees_program hread statements functions
  | call hname => exact agrees_call hread hname
  | arguments hname done => exact agrees_arguments hread hname done
  | parameters hname hdone => exact agrees_parameters g hread hname hdone

end Productions

theorem agrees_within (g : Grammar) (n : Nat) ⦃goal goal' : Goal⦄ (h : goal.Alike goal') :
    Agrees Eq (within g n goal) (within g n goal') := by
  induction n generalizing goal goal' with
  | zero => exact Agrees.get fun _ _ hr => .error rfl hr
  | succ n ih => exact agrees_step g (fun _ _ hgoal => ih hgoal) h

theorem agrees_read (g : Grammar) (goal : Goal) : Agrees Eq (read g goal) (read g goal) :=
  Agrees.get fun _ _ hr => by
    rw [maxGoals, maxGoals, hr.length_upcoming]
    exact agrees_within g _ (.refl goal) hr

section OfTokens

variable {ts us : List Token}

theorem closed_unplaced (h : ts.map Token.unplaced = us.map Token.unplaced) {t u : Token}
    (htu : t.Alike u) :
    (closed t ts).map Token.unplaced = (closed u us).map Token.unplaced := by
  induction ts generalizing us t u with
  | nil =>
    obtain rfl : us = [] := by simpa using h.symm
    rw [closed, closed, htu.kind]
    split <;> rfl
  | cons t' ts ih =>
    cases us with
    | nil => simp at h
    | cons u' us =>
      obtain ⟨ht, hts⟩ := List.cons.inj h
      exact congrArg₂ List.cons ht (ih hts ht)

theorem alike_ofTokens (h : ts.map Token.unplaced = us.map Token.unplaced) (file file' : String) :
    (ofTokens ts file).Alike (ofTokens us file') := by
  cases ts with
  | nil =>
    obtain rfl : us = [] := by simpa using h.symm
    exact ⟨rfl, rfl, rfl, rfl, rfl⟩
  | cons t ts =>
    cases us with
    | nil => simp at h
    | cons u us =>
      obtain ⟨ht, hts⟩ := List.cons.inj h
      exact ⟨ht, closed_unplaced hts ht, rfl, rfl, rfl⟩

end OfTokens

end Reader

theorem tallies_parse {ts us : List Token} (h : ts.map Token.unplaced = us.map Token.unplaced)
    (file file' : String) :
    Reader.Tallies (fun es es' => es.map Event.unplaced = es'.map Event.unplaced)
      (parse ts file) (parse us file') := by
  have hread := Reader.agrees_read .standard (.program [] []) (Reader.alike_ofTokens h file file')
  rw [outcome, outcome] at hread
  rw [parse, parse]
  generalize (Reader.read .standard (.program [] [])).run.run (Reader.ofTokens ts file) = x,
    (Reader.read .standard (.program [] [])).run.run (Reader.ofTokens us file') = y at hread
  cases hread with
  | ok _ hr => exact .ok hr.events hr
  | error he hr => exact .error he hr

end TinyScript
