import TinyScript.Proofs.Assembly.Run

/-! The events of an expression build the expression that its derivation stands for, on top of what
is waiting. The arguments of a call wait one by one until the call claims them. -/

namespace TinyScript

open Assembly

namespace Assembly

variable {a : Assembly} {i id d : Nat}

def withArguments (a : Assembly) (l : List (Nat × Expr)) : Assembly :=
  { a with pending := a.pending.pushAll (l.map fun p => (p.1, .expr p.2)) }

theorem outcome_binary {l r : Nat} (h : a.pending.Below i) (hl : i ≤ l)
    (hlr : l < r) (hr : r < id) (operator : Token) (left right : Expr) :
    outcome (handle ⟨id, d, .binary operator l r⟩)
        ((a.onTop l (.expr left)).onTop r (.expr right)) =
      (.ok (), a.onTop id
        (.expr (.binary (.untyped d) (.ofSymbol operator.value) left right))) := by
  have hne : r ≠ l := Nat.ne_of_gt hlr
  rw [handle, outcome_bind_ok (outcome_takeExpr (e := left) (by simp [hne])),
    onTop_without_of_ne hne, onTop_without_self h hl,
    outcome_bind_ok (outcome_takeExpr (e := right) (by simp)), onTop_without_self h (by omega),
    outcome_keep h (show i ≤ id by omega)]

theorem outcome_unary {k : Nat} (h : a.pending.Below i) (hk : i ≤ k)
    (hid : k < id) (operator : Token) (operand : Expr) :
    outcome (handle ⟨id, d, .unary operator k⟩) (a.onTop k (.expr operand)) =
      (.ok (), a.onTop id (.expr (.unary (.untyped d) (.ofSymbol operator.value) operand))) := by
  rw [handle, outcome_bind_ok (outcome_takeExpr (e := operand) (by simp)),
    onTop_without_self h hk, outcome_keep h (show i ≤ id by omega)]

theorem outcome_expr {k : Nat} (h : a.pending.Below i) (hk : i ≤ k) (hid : k < id) (inner : Expr) :
    outcome (handle ⟨id, d, .expr k⟩) (a.onTop k (.expr inner)) =
      (.ok (), a.onTop id (.expr (inner.withDepth d))) := by
  rw [handle, outcome_bind_ok (outcome_takeExpr (e := inner) (by simp)),
    onTop_without_self h hk, outcome_keep h (show i ≤ id by omega)]

theorem outcome_var (h : a.pending.Below id) (name : Token) :
    outcome (handle ⟨id, d, .var name⟩) a =
      (.ok (), a.onTop id (.expr (.var (.untyped d) name.value))) := by
  rw [handle, outcome_keep h (Nat.le_refl id)]

theorem literal_eq (value : Leaf [.number, .string, .bool]) :
    literal value.token = if value.token.unreadable then .error (numberFault value.token)
      else .ok value.token.literalValue := by
  have hk := value.mem
  simp only [List.mem_cons, List.not_mem_nil, or_false] at hk
  unfold literal Token.unreadable Token.literalValue
  rcases hk with hk | hk | hk
  · cases hn : Text.int64? value.token.value <;> simp [hk, numberFault]
  · simp [hk]
  · simp [hk]

theorem outcome_literal (h : a.pending.Below id) (token : Token) :
    outcome (handle ⟨id, d, .literal token⟩) a =
      match literal token with
      | .ok v => (.ok (), a.onTop id (.expr (.ofLiteral d v)))
      | .error f => (.error f, a) := by
  rw [outcome_handle_literal]
  cases literal token with
  | ok v => simp only [onTop, h.insert_eq (Nat.le_refl id)]
  | error f => rfl

theorem outcome_call (h : a.pending.Below i) (hid : i ≤ id) (name : Token)
    {l : List (Nat × Expr)} (hl : ∀ p ∈ l, i ≤ p.1) (hn : (l.map Prod.fst).Nodup) :
    outcome (handle ⟨id, d, .call name (l.map Prod.fst)⟩) (a.withArguments l) =
      (.ok (), a.onTop id (.expr (.call (.untyped d) name.value (l.map Prod.snd)))) := by
  have hkeys : (l.map fun p => (p.1, Node.expr p.2)).map Prod.fst = l.map Prod.fst := by simp
  have hget : ∀ p ∈ l, (a.withArguments l).pending.get? p.1 = some (.expr p.2) := by
    intro p hp
    have hm : (p.1, Node.expr p.2) ∈ l.map fun p => (p.1, Node.expr p.2) :=
      List.mem_map.2 ⟨p, hp, rfl⟩
    exact Keyed.get?_pushAll (by rw [hkeys]; exact hn) hm
  have herase : (a.withArguments l).withoutAll (l.map Prod.fst) = a := by
    rw [withoutAll, withArguments, Keyed.eraseAll_pushAll, h.eraseAll_eq]
    · simpa using hl
    · intro p hp
      rw [← hkeys]
      exact List.mem_map_of_mem hp
  rw [handle]
  simp only
  rw [outcome_bind_ok (outcome_takeAll outcome_takeExpr l hn _ hget), herase, outcome_keep h hid]

end Assembly

namespace ExprTree

def entries : {p : ExprPart} → ExprTree p → Nat → Nat → List (Nat × Expr)
  | _, some items, i, d => items.entries i d
  | _, last item, i, d => [(i + item.count, item.fullMeaning d)]
  | _, more item _ rest, i, d =>
    (i + item.count, item.fullMeaning d) :: rest.entries (i + item.count + 1) d
  | _, _, _, _ => []

theorem map_fst_entries {p : ExprPart} (e : ExprTree p) (i d : Nat) :
    (e.entries i d).map Prod.fst = e.ids i := by
  induction e generalizing i with
  | some _ ih => exact ih i
  | more item _ _ _ ih => simp [entries, ids, ih]
  | _ => rfl

theorem ids_bounds {p : ExprPart} (e : ExprTree p) (i : Nat) :
    (∀ k ∈ e.ids i, i ≤ k ∧ k < i + e.count) ∧ (e.ids i).Nodup := by
  induction e generalizing i with
  | some _ ih => exact ih i
  | last item => simp [ids, count]
  | more item _ rest _ ih =>
    obtain ⟨hb, hn⟩ := ih (i + item.count + 1)
    refine ⟨?_, List.nodup_cons.2 ⟨fun hm => ?_, hn⟩⟩
    · intro k hk
      rcases List.mem_cons.1 hk with rfl | hk
      · simp only [count]
        omega
      · have := hb k hk
        simp only [count]
        omega
    · have := hb _ hm
      omega
  | _ => simp [ids]

/-- The events of a tree put what it stands for on top of what is waiting. -/
def Assembles : {p : ExprPart} → ExprTree p → Prop
  | .level _, e | .call, e => ∀ ⦃a : Assembly⦄ ⦃i : Nat⦄ (d : Nat), a.pending.Below i →
      Builds a (e.events i d) e.tokens (a.onTop (e.root i) (.expr (e.meaning d)))
  | .arguments, e | .items, e => ∀ ⦃a : Assembly⦄ ⦃i : Nat⦄ (d : Nat), a.pending.Below i →
      Builds a (e.events i d) e.tokens (a.withArguments (e.entries i d)) ∧
        (e.entries i d).map Prod.snd = e.meaning d

theorem assembles_join {l : Level} {left : ExprTree (.level l)} (op : Leaf l.kinds)
    {right : ExprTree (.level l.next)} (ihl : Assembles left) (ihr : Assembles right) :
    Assembles (.join left op right) := by
  intro a i d hb
  have hcl := left.count_pos (by simp)
  have hcr := right.count_pos (by simp)
  have hop : .number ∉ l.kinds := by cases l <;> decide
  have hbl : (a.pending.push (left.root i) (.expr (left.meaning d))).Below (i + left.count) :=
    hb.push (by simp only [root]; omega) (by omega)
  have hbinary := outcome_binary (d := d) hb (show i ≤ left.root i by simp only [root]; omega)
    (show left.root i < right.root (i + left.count) by simp only [root]; omega)
    (show right.root (i + left.count) < i + left.count + right.count by simp only [root]; omega)
    op.token (left.meaning d) (right.meaning (d + 1))
  have hroot : (join left op right).root i = i + left.count + right.count := by
    simp only [root, count]
    omega
  have h := (ihl d hb).append ((ihr (d + 1) hbl).append (.single hbinary))
  rw [hroot]
  refine h.of_tokens ?_
  simp [tokens, op.readable hop, List.find?_append]

theorem assembles_sign (op : Leaf [.not, .dash]) {operand : ExprTree (.level .unary)}
    (ih : Assembles operand) : Assembles (.sign op operand) := by
  intro a i d hb
  have hc := operand.count_pos (by simp)
  have hunary := outcome_unary (d := d) hb (show i ≤ operand.root i by simp only [root]; omega)
    (show operand.root i < i + operand.count by simp only [root]; omega) op.token
    (operand.meaning (d + 1))
  have h := (ih (d + 1) hb).append (.single hunary)
  have hroot : (sign op operand).root i = i + operand.count := by simp [root, count]
  rw [hroot]
  refine h.of_tokens ?_
  simp [tokens, op.readable (by decide)]

theorem assembles_literal (value : Leaf [.number, .string, .bool]) :
    Assembles (.literal value) := by
  intro a i d hb
  have haccept : a.accept ⟨i, d, .literal value.token⟩ = _ := outcome_literal hb value.token
  rw [literal_eq] at haccept
  by_cases hu : value.token.unreadable
  · simp only [hu, if_true] at haccept
    simp [Builds, events, tokens, acceptAll, haccept, hu]
  · simp only [hu] at haccept
    exact (Builds.single haccept).of_tokens (by simp [tokens, hu])

theorem assembles_var (name : Leaf [.identifier]) : Assembles (.var name) := by
  intro a i d hb
  exact (Builds.single (outcome_var hb name.token)).of_tokens
    (by simp [tokens, name.readable (by decide)])

theorem assembles_grouping (opening : Leaf [.openParen]) {inner : FullExpr}
    (closing : Leaf [.closeParen]) (ih : Assembles inner) :
    Assembles (.grouping opening inner closing) := by
  intro a i d hb
  refine (ih (d + 1) hb).of_tokens ?_
  simp [tokens, opening.readable (by decide), closing.readable (by decide)]

theorem assembles_apply (name : Leaf [.identifier]) (opening : Leaf [.openParen])
    {arguments : ExprTree .arguments} (closing : Leaf [.closeParen])
    (ih : Assembles arguments) : Assembles (.apply name opening arguments closing) := by
  intro a i d hb
  obtain ⟨hargs, hmeaning⟩ := ih d hb
  obtain ⟨hids, hnodup⟩ := arguments.ids_bounds i
  rw [← arguments.map_fst_entries i d] at hids hnodup
  have hcall := outcome_call (d := d) hb (Nat.le_add_right i arguments.count) name.token
    (fun p hp => (hids p.1 (List.mem_map_of_mem hp)).1) hnodup
  rw [map_fst_entries, hmeaning] at hcall
  refine (hargs.append (.single hcall)).of_tokens ?_
  simp [tokens, name.readable (by decide), opening.readable (by decide),
    closing.readable (by decide)]

theorem Assembles.full {e : FullExpr} (he : Assembles e) {a : Assembly} {i : Nat} (d : Nat)
    (hb : a.pending.Below i) :
    Builds a (e.fullEvents i d) e.tokens (a.onTop (i + e.count) (.expr (e.fullMeaning d))) := by
  have hc := e.count_pos (by simp)
  have hexpr := outcome_expr (d := d) hb (show i ≤ e.root i by simp only [root]; omega)
    (show e.root i < i + e.count by simp only [root]; omega) (e.meaning (d + 1))
  exact ((he (d + 1) hb).append (.single hexpr)).of_tokens (by simp)

theorem assembles_last {item : FullExpr} (ih : Assembles item) : Assembles (.last item) :=
  fun _ _ d hb => ⟨ih.full d hb, rfl⟩

theorem assembles_more {item : FullExpr} (comma : Leaf [.comma]) {rest : ExprTree .items}
    (ihi : Assembles item) (ihr : Assembles rest) : Assembles (.more item comma rest) := by
  intro a i d hb
  have hbi : (a.onTop (i + item.count) (.expr (item.fullMeaning d))).pending.Below
      (i + item.count + 1) := hb.push (Nat.lt_succ_self _) (by omega)
  obtain ⟨hrest, hmeaning⟩ := ihr d hbi
  have h := (ihi.full d hb).append hrest
  refine ⟨?_, ?_⟩
  · have hevents : (more item comma rest).events i d =
        item.fullEvents i d ++ rest.events (i + item.count + 1) d := by
      simp [events, fullEvents]
    rw [hevents]
    refine h.of_tokens ?_
    simp [tokens, comma.readable (by decide), List.find?_append]
  · exact congrArg (List.cons (item.fullMeaning d)) hmeaning

theorem assembles {p : ExprPart} (e : ExprTree p) : Assembles e := by
  induction e with
  | join _ op _ ihl ihr => exact assembles_join op ihl ihr
  | tighter _ _ ih => exact ih
  | sign op _ ih => exact assembles_sign op ih
  | literal value => exact assembles_literal value
  | var name => exact assembles_var name
  | call _ ih => exact ih
  | grouping opening _ closing ih => exact assembles_grouping opening closing ih
  | apply name opening _ closing ih => exact assembles_apply name opening closing ih
  | none => exact fun a _ _ _ => ⟨.nil a, rfl⟩
  | some _ ih => exact ih
  | last _ ih => exact assembles_last ih
  | more _ comma _ ihi ihr => exact assembles_more comma ihi ihr

end ExprTree

end TinyScript
