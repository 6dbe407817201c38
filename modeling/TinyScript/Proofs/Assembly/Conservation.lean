import Mathlib.Algebra.Order.BigOperators.Group.List
import Mathlib.Algebra.Order.Group.Multiset
import Mathlib.Tactic.Abel
import TinyScript.Proofs.Assembly.Atoms
import TinyScript.Proofs.Assembly.Failure

/-! Nodes are made once and kept once. What an assembly has is counted node by node, through all
that waits, the open blocks and the program. Whatever events come, and whether or not they are
taken, no event has more than one node to show for itself; nodes are lost only where an event fails,
a number is used again or a program takes the place of another. -/

namespace TinyScript

namespace Assembly

variable {a b : Assembly} {e : Event}

def atoms (a : Assembly) : Multiset Atom :=
  a.pending.total Node.atoms + (a.blocks.map OpenBlock.atoms).sum + a.program.elim 0 Program.atoms

def numbers (a : Assembly) : Multiset Serial := a.openIds + a.pending.keys

theorem Claims.atoms_eq {parts : List (Serial × ConstructClass)} {ns : List Node}
    (h : Claims a parts ns b) (hu : a.pending.Unique) :
    a.atoms = (ns.map Node.atoms).sum + b.atoms := by
  have hfound : List.Forall₂ (fun id n => a.pending.get? id = some n) (parts.map Prod.fst) ns :=
    List.forall₂_map_left_iff.2 (h.offers.imp fun _ _ hoffer => hoffer.1)
  have htotal := hu.total_eraseAll Node.atoms h.nodup hfound
  rw [← h.spent.pending] at htotal
  rw [atoms, atoms, h.blocks_eq, h.program_eq, htotal, add_assoc, add_assoc, add_assoc]

theorem atoms_stored (hu : a.pending.Unique) (id : Serial) (n : Node) :
    (a.stored id n).pending.Unique ∧ ∃ lost, a.atoms + n.atoms = (a.stored id n).atoms + lost ∧
      (a.pending.get? id = none → lost = 0) := by
  have hinsert : a.atoms + n.atoms =
      ({ a with pending := a.pending.insert id n } : Assembly).atoms +
        (a.pending.get? id).elim 0 Node.atoms := by
    have htotal := hu.total_insert Node.atoms id n
    simp only [atoms]
    rw [add_right_comm, add_right_comm _ _ n.atoms, htotal]
    abel
  have hlost : a.pending.get? id = none → (a.pending.get? id).elim 0 Node.atoms = 0 := by
    intro hnone
    rw [hnone]
    rfl
  obtain ⟨pending, blocks, program, nextScope⟩ := a
  cases n with
  | statement s =>
    cases blocks with
    | nil => exact ⟨hu.insert id _, _, hinsert, hlost⟩
    | cons block outer =>
      refine ⟨hu, 0, ?_, fun _ => rfl⟩
      simp only [atoms, stored, List.map_cons, List.sum_cons, OpenBlock.atoms_push, Node.atoms]
      abel
  | _ => exact ⟨hu.insert id _, _, hinsert, hlost⟩

def Clear (a : Assembly) (e : Event) : Prop :=
  a.pending.get? e.id = none ∧ (e.kind.class? = some .program → a.program = none)

/-- The nodes before an event and the one it adds are those after it and some that are lost, of
which there are none if nothing is in the way. -/
structure Balanced (a : Assembly) (e : Event) (b : Assembly) : Prop where
  unique : b.pending.Unique
  sum : ∃ lost, a.atoms + e.added = b.atoms + lost ∧ (a.Clear e → lost = 0)

theorem balanced_made {c : Assembly} {ns : List Node} {n : Node} {k : Nat}
    (hu : a.pending.Unique) (hclaims : Claims a e.kind.parts.flatten ns c)
    (hmakes : e.Makes ns n.beforeScope) : Balanced a e ((c.withScopes k).stored e.id n) := by
  have huc : (c.withScopes k).pending.Unique := by
    rw [withScopes_pending, hclaims.spent.pending]
    exact hu.eraseAll _
  obtain ⟨hunique, lost, hlost, hnone⟩ := atoms_stored huc e.id n
  have hnode := hmakes.atoms_eq
  rw [Node.atoms_beforeScope] at hnode
  refine ⟨hunique, lost, ?_, fun hclear => hnone ?_⟩
  · have hscopes : (c.withScopes k).atoms = c.atoms := rfl
    rw [← hlost, hclaims.atoms_eq hu, hnode, hscopes]
    abel
  · refine Option.eq_none_iff_forall_ne_some.2 fun m hm => ?_
    have hbefore := (hclaims.of_get? hm).2
    rw [hclear.1] at hbefore
    cases hbefore

theorem balanced_exit {block : OpenBlock} {outer : List OpenBlock} (hu : a.pending.Unique)
    (h : a.blocks = block :: outer) (d : Nat) :
    Balanced a ⟨block.id, d, .exitBlock⟩
      { a with blocks := outer, pending := a.pending.insert block.id (.block block.close) } := by
  refine ⟨hu.insert _ _, (a.pending.get? block.id).elim 0 Node.atoms, ?_, fun hclear => ?_⟩
  · have htotal := hu.total_insert Node.atoms block.id (.block block.close)
    have hblock : Node.atoms (.block block.close) = block.atoms := rfl
    have hadded : Event.added ⟨block.id, d, .exitBlock⟩ = 0 := rfl
    simp only [atoms, h, List.map_cons, List.sum_cons, hadded, add_zero]
    rw [← add_assoc, ← hblock, htotal]
    abel
  · rw [hclear.1]
    rfl

theorem balanced_program {c c' : Assembly} {id d : Nat} {statements functions : List Serial}
    {ss : List Stmt} {fs : List Function} {scope : Scope} (hu : a.pending.Unique)
    (hss : Claims (a.withScopes 1) (statements.map (·, .statement)) (ss.map .statement) c)
    (hfs : Claims c (functions.map (·, .function)) (fs.map .function) c') :
    Balanced a ⟨id, d, .program statements functions⟩
      { c' with program := some ⟨ss, fs, d, scope⟩ } := by
  have huc : c.pending.Unique := by
    rw [hss.spent.pending]
    exact hu.eraseAll _
  have huc' : c'.pending.Unique := by
    rw [hfs.spent.pending]
    exact huc.eraseAll _
  refine ⟨huc', a.program.elim 0 Program.atoms, ?_, fun hclear => ?_⟩
  · have hscopes : (a.withScopes 1).atoms = a.atoms := rfl
    have hclaimed := (hss.atoms_eq hu).trans (congrArg _ (hfs.atoms_eq huc))
    have hprogram : c'.program = a.program := hfs.program_eq.trans hss.program_eq
    have hadded : Event.added ⟨id, d, .program statements functions⟩ = 0 := rfl
    have hstatements : (ss.map (Node.atoms ∘ .statement)).sum = (ss.map Stmt.atoms).sum := rfl
    have hfunctions : (fs.map (Node.atoms ∘ .function)).sum = (fs.map Function.atoms).sum := rfl
    rw [hscopes, List.map_map, List.map_map, hstatements, hfunctions] at hclaimed
    have hnew : ({ c' with program := some ⟨ss, fs, d, scope⟩ } : Assembly).atoms =
        c'.pending.total Node.atoms + (c'.blocks.map OpenBlock.atoms).sum +
          ((ss.map Stmt.atoms).sum + (fs.map Function.atoms).sum) := rfl
    rw [hclaimed, hadded, hnew, atoms, hprogram]
    abel
  · rw [hclear.2 rfl]
    rfl

theorem Taken.balanced (h : Taken a e b) (hu : a.pending.Unique) : Balanced a e b := by
  cases h with
  | @enter id d =>
    refine ⟨hu, 0, ?_, fun _ => rfl⟩
    have hadded : Event.added ⟨id, d, .enterBlock⟩ = {.block d} := rfl
    simp only [atoms, opened, withScopes, hadded, List.map_cons, List.sum_cons, OpenBlock.atoms,
      OpenBlock.close, Block.atoms, Stmt.atomsAll, add_zero]
    abel
  | exit hblocks => exact balanced_exit hu hblocks _
  | program hss hfs => exact balanced_program hu hss hfs
  | made hclaims hmakes => exact balanced_made hu hclaims hmakes

theorem Left.atoms_le (h : Left a e b) (hu : a.pending.Unique) :
    b.pending.Unique ∧ b.atoms ≤ a.atoms := by
  obtain ⟨⟨gone, -, hpending⟩, hprogram, hblocks, -⟩ := h
  have hwaits : b.pending.total Node.atoms ≤ a.pending.total Node.atoms := by
    rw [hpending]
    exact (List.filter_sublist.map _).sum_le_sum fun _ _ => Multiset.zero_le _
  have hsublist : b.blocks.Sublist a.blocks := by
    rw [hblocks]
    split
    · exact List.tail_sublist _
    · exact List.Sublist.refl _
  have hopen : (b.blocks.map OpenBlock.atoms).sum ≤ (a.blocks.map OpenBlock.atoms).sum :=
    (hsublist.map _).sum_le_sum fun _ _ => Multiset.zero_le _
  refine ⟨hpending ▸ hu.eraseAll gone, ?_⟩
  rw [atoms, atoms, hprogram]
  exact add_le_add (add_le_add hwaits hopen) le_rfl

theorem atoms_accept_le (hu : a.pending.Unique) (e : Event) :
    (a.accept e).2.pending.Unique ∧ (a.accept e).2.atoms ≤ a.atoms + e.added := by
  rcases h : a.accept e with ⟨result, b⟩
  cases result with
  | ok _ =>
    obtain ⟨hunique, lost, hlost, -⟩ := (taken_of_handle h).balanced hu
    exact ⟨hunique, hlost ▸ Multiset.le_add_right _ _⟩
  | error f =>
    obtain ⟨hunique, hle⟩ := (left_of_failed h).atoms_le hu
    exact ⟨hunique, hle.trans (Multiset.le_add_right _ _)⟩

def afterAll (a : Assembly) (es : List Event) : Assembly := es.foldl (fun a e => (a.accept e).2) a

theorem afterAll_concat (a : Assembly) (es : List Event) (e : Event) :
    a.afterAll (es ++ [e]) = ((a.afterAll es).accept e).2 := by
  rw [afterAll, List.foldl_concat]
  rfl

theorem afterAll_of_acceptAll {es : List Event} (h : a.acceptAll es = .ok b) :
    a.afterAll es = b := by
  induction es generalizing a with
  | nil => exact Except.ok.inj h
  | cons e es ih =>
    obtain ⟨c, hc, h⟩ := exists_of_acceptAll_cons h
    rw [afterAll, List.foldl_cons, hc]
    exact ih h

theorem atoms_afterAll_le (hu : a.pending.Unique) (es : List Event) :
    (a.afterAll es).pending.Unique ∧
      (a.afterAll es).atoms ≤ a.atoms + (es.map Event.added).sum := by
  induction es generalizing a with
  | nil => simp [afterAll, hu]
  | cons e es ih =>
    obtain ⟨hunique, hle⟩ := atoms_accept_le hu e
    obtain ⟨hafter, hrest⟩ := ih hunique
    refine ⟨hafter, ?_⟩
    calc (a.afterAll (e :: es)).atoms
        ≤ (a.accept e).2.atoms + (es.map Event.added).sum := hrest
      _ ≤ a.atoms + e.added + (es.map Event.added).sum := add_le_add hle le_rfl
      _ = a.atoms + ((e :: es).map Event.added).sum := by
        rw [List.map_cons, List.sum_cons, add_assoc]

end Assembly

def Event.taken (e : Event) : Multiset Serial := if e.kind = .exitBlock then 0 else {e.id}

theorem Event.taken_of_ne {e : Event} (h : e.kind ≠ .exitBlock) : e.taken = {e.id} := if_neg h

namespace Assembly

variable {a b : Assembly} {e : Event}

theorem numbers_stored_le (a : Assembly) (id : Serial) (n : Node) :
    (a.stored id n).numbers ≤ a.numbers + {id} := by
  have hinsert : ({ a with pending := a.pending.insert id n } : Assembly).numbers ≤
      a.numbers + {id} := by
    rw [numbers, numbers, add_assoc]
    exact add_le_add le_rfl (a.pending.keys_insert_le id n)
  rw [numbers, openIds_stored]
  obtain ⟨pending, blocks, program, nextScope⟩ := a
  cases n with
  | statement s =>
    cases blocks with
    | nil => exact hinsert
    | cons block outer => exact Multiset.le_add_right _ _
  | _ => exact hinsert

theorem Claims.numbers_le {parts : List (Serial × ConstructClass)} {ns : List Node}
    (h : Claims a parts ns b) : b.numbers ≤ a.numbers := by
  rw [numbers, numbers, openIds, h.blocks_eq, h.spent.pending]
  exact add_le_add le_rfl (a.pending.keys_eraseAll_le _)

theorem Taken.numbers_le (h : Taken a e b) : b.numbers ≤ a.numbers + e.taken := by
  cases h with
  | @enter id d =>
    have hopen : (a.opened id d).numbers = {id} + a.numbers := rfl
    rw [hopen, add_comm]
    exact le_rfl
  | @exit d block outer hblocks =>
    have hopen : a.openIds = block.id :: outer.map OpenBlock.id := by rw [openIds, hblocks]; rfl
    calc (outer.map OpenBlock.id : Multiset Serial) + (a.pending.insert block.id _).keys
        ≤ outer.map OpenBlock.id + (a.pending.keys + {block.id}) :=
          add_le_add le_rfl (a.pending.keys_insert_le _ _)
      _ = a.numbers + 0 := by
        rw [numbers, hopen, ← Multiset.cons_coe, ← Multiset.singleton_add]
        abel
  | program hss hfs =>
    exact (hfs.numbers_le.trans hss.numbers_le).trans (Multiset.le_add_right _ _)
  | @made e ns n k c hclaims hmakes =>
    rw [Event.taken_of_ne hmakes.kind_ne_exitBlock]
    have hscopes : (c.withScopes k).numbers = c.numbers := rfl
    exact ((c.withScopes k).numbers_stored_le e.id n).trans
      (add_le_add (hscopes ▸ hclaims.numbers_le) le_rfl)

theorem Taken.get?_eq_none (h : Taken a e b) (hn : (a.numbers + e.taken).Nodup) :
    a.pending.get? e.id = none := by
  apply Keyed.get?_eq_none_of_notMem_keys
  by_cases hexit : e.kind = .exitBlock
  · cases h with
    | @exit d block outer hblocks =>
      -- the block is open under the number
      have hopen : block.id ∈ a.openIds := by simp [openIds, hblocks]
      exact Multiset.disjoint_left.1 (Multiset.nodup_add.1 (Multiset.nodup_add.1 hn).1).2.2 hopen
    | enter | program => cases hexit
    | made _ hmakes => exact absurd hexit hmakes.kind_ne_exitBlock
  · rw [Event.taken_of_ne hexit] at hn
    intro hmem
    have hnumbers : e.id ∈ a.numbers := Multiset.mem_add.2 (.inr hmem)
    exact Multiset.disjoint_left.1 (Multiset.nodup_add.1 hn).2.2 hnumbers
      (Multiset.mem_singleton_self _)

def programs (a : Assembly) (es : List Event) : Nat :=
  (if a.program.isSome then 1 else 0) + es.countP fun e => e.kind.class? = some .program

theorem programs_of_taken {es : List Event} (h : outcome (handle e) a = (.ok (), b)) :
    b.programs es ≤ a.programs (e :: es) := by
  rw [programs, programs, List.countP_cons]
  by_cases hkind : e.kind.class? = some .program
  · simp only [hkind, decide_true, if_true]
    split <;> omega
  · have hprogram : b.program = a.program := by
      refine ((leads_handle e a).ok_of h).2.1 fun ss fs he => hkind ?_
      rw [he]
      rfl
    simp [hkind, hprogram]

theorem atoms_eq_of_acceptAll {es : List Event} (hb : a.acceptAll es = .ok b)
    (hu : a.pending.Unique) (hn : (a.numbers + (es.map Event.taken).sum).Nodup)
    (hp : a.programs es ≤ 1) : b.atoms = a.atoms + (es.map Event.added).sum := by
  induction es generalizing a with
  | nil =>
    obtain rfl := Except.ok.inj hb
    simp
  | cons e es ih =>
    obtain ⟨c, hc, hb⟩ := exists_of_acceptAll_cons hb
    have htaken := taken_of_handle hc
    rw [List.map_cons, List.sum_cons, ← add_assoc] at hn
    obtain ⟨hunique, lost, hlost, hnone⟩ := htaken.balanced hu
    have hclear : a.Clear e := by
      refine ⟨htaken.get?_eq_none (Multiset.nodup_add.1 hn).1, fun hkind => ?_⟩
      refine Option.not_isSome_iff_eq_none.1 fun hsome => ?_
      rw [programs, if_pos hsome, List.countP_cons, if_pos (decide_eq_true hkind)] at hp
      omega
    have hstep : a.atoms + e.added = c.atoms := by rw [hlost, hnone hclear, add_zero]
    have hnumbers := Multiset.nodup_of_le (add_le_add htaken.numbers_le le_rfl) hn
    rw [ih hb hunique hnumbers ((programs_of_taken hc).trans hp), ← hstep, List.map_cons,
      List.sum_cons, add_assoc]

end Assembly

theorem sum_added (es : List Event) :
    (es.map Event.added).sum = (es.filterMap Event.atom? : Multiset Atom) := by
  induction es with
  | nil => rfl
  | cons e es ih =>
    rw [List.map_cons, List.sum_cons, ih, Event.added, List.filterMap_cons]
    cases e.atom? <;> rfl

theorem sum_taken (es : List Event) :
    (es.map Event.taken).sum = (es.filter fun e => e.kind ≠ .exitBlock).map Event.id := by
  induction es with
  | nil => rfl
  | cons e es ih =>
    rw [List.map_cons, List.sum_cons, ih, Event.taken]
    by_cases h : e.kind = .exitBlock <;> simp [h]

/-- Whether an event is that of a node: of any but the end of a block, a program and the mark at the
end of an expression. -/
def Event.addsNode (e : Event) : Bool :=
  match e.kind with
  | .exitBlock | .program .. | .expr _ => false
  | _ => true

theorem Event.isSome_atom? {a b : Assembly} {e : Event}
    (h : outcome (Assembly.handle e) a = (.ok (), b)) (he : e.addsNode) : e.atom?.isSome := by
  obtain ⟨id, d, kind⟩ := e
  cases kind with
  | literal token =>
    obtain ⟨v, hv⟩ := ((Assembly.leads_handle _ a).ok_of h).2.2 token rfl
    simp [atom?, hv, Except.toOption]
  | exitBlock | program | expr => cases he
  | _ => rfl

theorem Assembly.exists_handle_of_acceptAll {a b : Assembly} {es : List Event}
    (h : a.acceptAll es = .ok b) {e : Event} (he : e ∈ es) :
    ∃ c d, outcome (handle e) c = (.ok (), d) := by
  induction es generalizing a with
  | nil => cases he
  | cons e' es ih =>
    obtain ⟨c, hc, h⟩ := exists_of_acceptAll_cons h
    rcases List.mem_cons.1 he with rfl | he
    · exact ⟨a, c, hc⟩
    · exact ih h he

theorem Assembly.atoms_of_prefix {es before : List Event} {a : Assembly}
    (ha : acceptAll {} es = .ok a)
    (hnodup : ((es.filter fun e => e.kind ≠ .exitBlock).map Event.id).Nodup)
    (hprograms : (es.countP fun e => e.kind.class? = some .program) ≤ 1) (hbefore : before <+: es) :
    (afterAll {} before).atoms = (before.filterMap Event.atom? : Multiset Atom) := by
  obtain ⟨after, rfl⟩ := hbefore
  obtain ⟨b, hb, -⟩ := exists_of_acceptAll_append ha
  have hunique : Keyed.Unique ({} : Assembly).pending := List.nodup_nil
  have hempty : ({} : Assembly).atoms = 0 := rfl
  have hnumbers : (({} : Assembly).numbers + (before.map Event.taken).sum).Nodup := by
    have hnone : ({} : Assembly).numbers = 0 := rfl
    rw [hnone, zero_add, sum_taken]
    rw [List.filter_append, List.map_append] at hnodup
    exact Multiset.coe_nodup.2 (List.nodup_append'.1 hnodup).1
  have hcount : ({} : Assembly).programs before ≤ 1 := by
    rw [List.countP_append] at hprograms
    simpa [programs] using (Nat.le_add_right _ _).trans hprograms
  rw [afterAll_of_acceptAll hb, atoms_eq_of_acceptAll hb hunique hnumbers hcount, hempty, zero_add,
    sum_added]

/-- Every node has one event to itself, and where nothing goes wrong every event has its node.
Whatever the events are, and whether or not they are taken, one event more adds the node of that
event at most, so the nodes there are after them are those that some of the events add, each one
once. If all are taken, no number is taken twice and there is one program at most, then each event of
a node adds one, and at any time the nodes of all the events so far are there. -/
theorem every_node_has_one_event (es : List Event) :
    (∀ e, (Assembly.afterAll {} (es ++ [e])).atoms ≤
      (Assembly.afterAll {} es).atoms + (e.atom?.toList : Multiset Atom)) ∧
    (∃ kept : List Event, kept.Sublist es ∧
      (Assembly.afterAll {} es).atoms = (kept.filterMap Event.atom? : Multiset Atom)) ∧
    ∀ a, Assembly.acceptAll {} es = .ok a →
      ((es.filter fun e => e.kind ≠ .exitBlock).map Event.id).Nodup →
      (es.countP fun e => e.kind.class? = some .program) ≤ 1 →
      (∀ e ∈ es, e.addsNode → e.atom?.isSome) ∧
        (∀ before, before <+: es → (Assembly.afterAll {} before).atoms =
          (before.filterMap Event.atom? : Multiset Atom)) ∧
        a.atoms = (es.filterMap Event.atom? : Multiset Atom) := by
  have hunique : Keyed.Unique ({} : Assembly).pending := List.nodup_nil
  obtain ⟨hafter, hle⟩ := Assembly.atoms_afterAll_le hunique es
  refine ⟨fun e => ?_, ?_, fun a ha hnodup hprograms => ⟨fun e he hadds => ?_, fun before => ?_, ?_⟩⟩
  · rw [Assembly.afterAll_concat]
    exact (Assembly.atoms_accept_le hafter e).2
  · have hempty : ({} : Assembly).atoms = 0 := rfl
    rw [hempty, zero_add, sum_added] at hle
    obtain ⟨l, hl⟩ := Quot.exists_rep (Assembly.afterAll {} es).atoms
    rw [← hl] at hle ⊢
    obtain ⟨l', hperm, hsublist⟩ := Multiset.coe_le.1 hle
    obtain ⟨kept, hkept, rfl⟩ := List.sublist_filterMap_iff.1 hsublist
    exact ⟨kept, hkept, (Multiset.coe_eq_coe.2 hperm).symm⟩
  · obtain ⟨c, d, hhandle⟩ := Assembly.exists_handle_of_acceptAll ha he
    exact Event.isSome_atom? hhandle hadds
  · exact Assembly.atoms_of_prefix ha hnodup hprograms
  · rw [← Assembly.afterAll_of_acceptAll ha]
    exact Assembly.atoms_of_prefix ha hnodup hprograms (List.prefix_refl es)

/-- A loop, a function without statements, a program of both, and a variable left over. -/
def strayVariable : List Event :=
  let name (s : String) : Token := ⟨.identifier, s, default⟩
  [⟨0, 2, .var (name "x")⟩, ⟨1, 1, .expr 0⟩, ⟨2, 2, .enterBlock⟩, ⟨3, 3, .brk⟩, ⟨2, 2, .exitBlock⟩,
    ⟨4, 1, .loop 1 2⟩, ⟨5, 2, .enterBlock⟩, ⟨5, 2, .exitBlock⟩,
    ⟨6, 1, .function (name "f") [] none 5⟩, ⟨7, 0, .program [4] [6]⟩, ⟨8, 1, .var (name "y")⟩]

def strayAssembly : Assembly where
  pending := ⟨[(8, .expr (.var (.untyped 1) "y"))]⟩
  program := some
    { statements := [.loop 1 (.var (.untyped 1) "x") (.mk 2 ⟨0⟩ [.brk 3])]
      functions := [⟨"f", [], .unknown, .mk 2 ⟨1⟩ [], 1, ⟨2⟩⟩]
      depth := 0
      scope := ⟨3⟩ }
  nextScope := 4

theorem strayVariable_has_one_event : Assembly.acceptAll {} strayVariable = .ok strayAssembly ∧
    strayAssembly.atoms = ↑[Atom.var "x", .block 2, .statement "break" 3, .statement "while loop" 1,
      .block 2, .function "f" [] .unknown 1, .var "y"] := by
  have haccept : Assembly.acceptAll {} strayVariable = .ok strayAssembly := by decide +kernel
  obtain ⟨-, -, hnodes⟩ := every_node_has_one_event strayVariable
  exact ⟨haccept, (hnodes _ haccept (by decide) (by decide)).2.2⟩

end TinyScript
