import TinyScript.Proofs.Assembly.Expr

/-! The events of statements and blocks build what their derivations stand for. A statement goes
to the innermost open block, or waits where none is open; a block waits for the construct it belongs
to. Scopes are given out in the order of the events. -/

namespace TinyScript

open Assembly

namespace Assembly

variable {a : Assembly} {i id d : Nat}

def withScopes (a : Assembly) (n : Nat) : Assembly := { a with nextScope := a.nextScope + n }

@[simp] theorem withScopes_pending (a : Assembly) (n : Nat) :
    (a.withScopes n).pending = a.pending := rfl

@[simp] theorem withScopes_blocks (a : Assembly) (n : Nat) :
    (a.withScopes n).blocks = a.blocks := rfl

@[simp] theorem withScopes_zero (a : Assembly) : a.withScopes 0 = a := rfl

theorem onTop_withScopes (a : Assembly) (k n : Nat) (node : Node) :
    (a.onTop k node).withScopes n = (a.withScopes n).onTop k node := rfl

theorem withScopes_withScopes (a : Assembly) (m n : Nat) :
    (a.withScopes m).withScopes n = a.withScopes (m + n) := by
  simp [withScopes, Nat.add_assoc]

theorem outcome_assignment {t v : Nat} (h : a.pending.Below i) (ht : i ≤ t) (htv : t < v)
    (hv : v < id) (tag : Tag) (name : String) (value : Expr) :
    outcome (handle ⟨id, d, .assignment t v⟩)
        ((a.onTop t (.expr (.var tag name))).onTop v (.expr value)) =
      (.ok (), a.added id (.assign d (.var tag name) value)) := by
  have hne : v ≠ t := Nat.ne_of_gt htv
  change outcome (buildAssignment id d t v) _ = _
  rw [buildAssignment,
    outcome_bind_ok (outcome_takeExpr (e := .var tag name) (by simp [hne])),
    onTop_without_of_ne hne, onTop_without_self h ht,
    outcome_bind_ok (outcome_takeExpr (e := value) (by simp)), onTop_without_self h (by omega),
    outcome_addStmt h (show i ≤ id by omega)]

theorem outcome_ifThen {c y : Nat} (h : a.pending.Below i) (hc : i ≤ c) (hcy : c < y)
    (hy : y < id) (condition : Expr) (yes : Block) :
    outcome (handle ⟨id, d, .conditional c [y]⟩)
        ((a.onTop c (.expr condition)).onTop y (.block yes)) =
      (.ok (), a.added id (.ifThen d condition yes)) := by
  have hne : y ≠ c := Nat.ne_of_gt hcy
  change outcome (buildConditional id d c [y]) _ = _
  rw [buildConditional,
    outcome_bind_ok (outcome_takeExpr (e := condition) (by simp [hne])),
    onTop_without_of_ne hne, onTop_without_self h hc,
    outcome_bind_ok (outcome_takeBlock (b := yes) (by simp)), onTop_without_self h (by omega),
    outcome_addStmt h (show i ≤ id by omega)]

theorem outcome_ifElse {c y n : Nat} (h : a.pending.Below i) (hc : i ≤ c) (hcy : c < y)
    (hyn : y < n) (hn : n < id) (condition : Expr) (yes no : Block) :
    outcome (handle ⟨id, d, .conditional c [y, n]⟩)
        (((a.onTop c (.expr condition)).onTop y (.block yes)).onTop n (.block no)) =
      (.ok (), a.added id (.ifElse d condition yes no)) := by
  have hy : y ≠ c := Nat.ne_of_gt hcy
  have hnc : n ≠ c := by omega
  have hny : n ≠ y := Nat.ne_of_gt hyn
  change outcome (buildConditional id d c [y, n]) _ = _
  rw [buildConditional,
    outcome_bind_ok (outcome_takeExpr (e := condition) (by simp [hy, hnc])),
    onTop_without_of_ne hnc, onTop_without_of_ne hy, onTop_without_self h hc,
    outcome_bind_ok (outcome_takeBlock (b := yes) (by simp [hny])),
    onTop_without_of_ne hny, onTop_without_self h (by omega),
    outcome_bind_ok (outcome_takeBlock (b := no) (by simp)), onTop_without_self h (by omega)]
  exact outcome_addStmt h (show i ≤ id by omega) _

theorem outcome_loop {g b : Nat} (h : a.pending.Below i) (hg : i ≤ g) (hgb : g < b)
    (hb : b < id) (guard : Expr) (body : Block) :
    outcome (handle ⟨id, d, .loop g b⟩) ((a.onTop g (.expr guard)).onTop b (.block body)) =
      (.ok (), a.added id (.loop d guard body)) := by
  have hne : b ≠ g := Nat.ne_of_gt hgb
  rw [handle, outcome_bind_ok (outcome_takeExpr (e := guard) (by simp [hne])),
    onTop_without_of_ne hne, onTop_without_self h hg,
    outcome_bind_ok (outcome_takeBlock (b := body) (by simp)), onTop_without_self h (by omega),
    outcome_addStmt h (show i ≤ id by omega)]

theorem outcome_ret {v : Nat} (h : a.pending.Below i) (hv : i ≤ v) (hid : v < id) (value : Expr) :
    outcome (handle ⟨id, d, .ret v⟩) (a.onTop v (.expr value)) =
      (.ok (), a.added id (.ret d value)) := by
  rw [handle, outcome_bind_ok (outcome_takeExpr (e := value) (by simp)),
    onTop_without_self h hv, outcome_addStmt h (show i ≤ id by omega)]

theorem outcome_test {c v : Nat} (h : a.pending.Below i) (hc : i ≤ c) (hcv : c < v)
    (hv : v < id) (tag : Tag) (name : String) (arguments : List Expr) (expected : Expr) :
    outcome (handle ⟨id, d, .test c v⟩)
        ((a.onTop c (.expr (.call tag name arguments))).onTop v (.expr expected)) =
      (.ok (), a.added id (.test d (.call tag name arguments) expected)) := by
  have hne : v ≠ c := Nat.ne_of_gt hcv
  change outcome (buildTest id d c v) _ = _
  rw [buildTest,
    outcome_bind_ok (outcome_takeExpr (e := .call tag name arguments) (by simp [hne])),
    onTop_without_of_ne hne, onTop_without_self h hc,
    outcome_bind_ok (outcome_takeExpr (e := expected) (by simp)), onTop_without_self h (by omega),
    outcome_addStmt h (show i ≤ id by omega)]

theorem outcome_function {b : Nat} (h : a.pending.Below i) (hb : i ≤ b) (hid : b < id)
    (name : Token) (parameters : List (Token × Option DataType)) (result : Option DataType)
    (body : Block) :
    outcome (handle ⟨id, d, .function name parameters result b⟩) (a.onTop b (.block body)) =
      (.ok (), (a.withScopes 1).onTop id (.function ⟨name.value, parameters.map parameter,
        result.getD .unknown, body, d, ⟨a.nextScope⟩⟩)) := by
  have hscope : outcome freshScope a = (.ok ⟨a.nextScope⟩, a.withScopes 1) := rfl
  have h' : (a.withScopes 1).pending.Below i := h
  change outcome (buildFunction id d name parameters result b) _ = _
  rw [buildFunction, outcome_bind_ok (outcome_takeBlock (b := body) (by simp)),
    onTop_without_self h hb, outcome_bind_ok hscope, outcome_keep h' (show i ≤ id by omega)]

def opened (a : Assembly) (id depth : Nat) : Assembly :=
  { a.withScopes 1 with blocks := { id, depth, scope := ⟨a.nextScope⟩ } :: a.blocks }

def filled (a : Assembly) (ss : List Stmt) : Assembly :=
  match a.blocks with
  | b :: bs => { a with blocks := { b with statements := b.statements ++ ss } :: bs }
  | [] => a

theorem filled_nil (a : Assembly) : a.filled [] = a := by
  obtain ⟨pending, blocks, program, nextScope⟩ := a
  cases blocks <;> simp [filled]

theorem filled_added {b : OpenBlock} {bs : List OpenBlock} (h : a.blocks = b :: bs) (id : Nat)
    (s : Stmt) (n : Nat) (ss : List Stmt) :
    ((a.added id s).withScopes n).filled ss = (a.withScopes n).filled (s :: ss) := by
  simp [filled, added, h, withScopes, OpenBlock.push]

theorem added_blocks {b : OpenBlock} {bs : List OpenBlock} (h : a.blocks = b :: bs) (id : Nat)
    (s : Stmt) : (a.added id s).blocks = b.push s :: bs ∧ (a.added id s).pending = a.pending ∧
      (a.added id s).nextScope = a.nextScope := by
  simp [added, h]

theorem outcome_exitBlock {n : Nat} (h : a.pending.Below id) (ss : List Stmt) :
    outcome (handle ⟨id, d, .exitBlock⟩) (((a.opened id d).withScopes n).filled ss) =
      (.ok (), (a.withScopes (1 + n)).onTop id (.block (.mk d ⟨a.nextScope⟩ ss))) := by
  have h' : (a.withScopes (1 + n)).pending.Below id := h
  rw [← outcome_keep h' (Nat.le_refl id)]
  change outcome (closeBlock id) _ = _
  rw [closeBlock, outcome_bind_ok (outcome_get _)]
  simp [filled, opened, withScopes, OpenBlock.close, outcome_bind_ok (outcome_set _ _),
    Nat.add_assoc]

end Assembly

namespace StmtTree

def Assembles : {p : StmtPart} → StmtTree p → Prop
  | .statement, s => ∀ ⦃a : Assembly⦄ ⦃i : Nat⦄ (d : Nat), a.pending.Below i →
      Builds a (s.events i d) s.tokens
        ((a.withScopes s.scopes).added (s.root i) (s.meaning d a.nextScope))
  | .block, b => ∀ ⦃a : Assembly⦄ ⦃i : Nat⦄ (d : Nat), a.pending.Below i →
      Builds a (b.events i d) b.tokens
        ((a.withScopes b.scopes).onTop i (.block (b.meaning d a.nextScope)))
  | .body, b => ∀ ⦃a : Assembly⦄ ⦃i : Nat⦄ (d : Nat), a.pending.Below i → a.blocks ≠ [] →
      Builds a (b.events i d) b.tokens
        ((a.withScopes b.scopes).filled (b.meaning d a.nextScope))

theorem assembles_assign (name : Leaf [.identifier]) (mark : Leaf [.assignment])
    (value : FullExpr) (stop : Leaf [.semicolon]) : Assembles (.assign name mark value stop) := by
  intro a i d hb
  have hvar := outcome_var (d := d) hb name.token
  have hb₁ : (a.onTop i (.expr (.var (.untyped d) name.token.value))).pending.Below (i + 1) :=
    hb.push (Nat.lt_succ_self i) (by omega)
  have hassign := outcome_assignment (d := d) hb (Nat.le_refl i)
    (show i < i + 1 + value.count by omega) (Nat.lt_succ_self _) (.untyped d) name.token.value
    (value.fullMeaning d)
  have h := (Builds.single hvar).append ((value.assembles.full d hb₁).append (.single hassign))
  have hroot : (assign name mark value stop).root i = i + 1 + value.count + 1 := by
    simp only [root, count]
    omega
  rw [hroot]
  refine h.of_tokens ?_
  simp [tokens, name.readable (by decide), mark.readable (by decide), stop.readable (by decide),
    List.find?_append]

theorem builds_guarded (e : FullExpr) {block : StmtTree .block} (ih : Assembles block)
    {a : Assembly} {i : Nat} (d : Nat) (hb : a.pending.Below i) :
    Builds a (e.fullEvents i d ++ block.events (i + e.count + 1) (d + 1)) (e.tokens ++ block.tokens)
      (((a.withScopes block.scopes).onTop (i + e.count) (.expr (e.fullMeaning d))).onTop
        (i + e.count + 1) (.block (block.meaning (d + 1) a.nextScope))) := by
  have hb₁ : (a.onTop (i + e.count) (.expr (e.fullMeaning d))).pending.Below (i + e.count + 1) :=
    hb.push (Nat.lt_succ_self _) (by omega)
  exact (e.assembles.full d hb).append (ih (d + 1) hb₁)

theorem assembles_ifThen (word : Leaf [.ifWord]) (opening : Leaf [.openParen])
    (condition : FullExpr) (closing : Leaf [.closeParen]) {yes : StmtTree .block}
    (ih : Assembles yes) : Assembles (.ifThen word opening condition closing yes) := by
  intro a i d hb
  have hc := yes.block_count_pos
  have hb' : (a.withScopes yes.scopes).pending.Below i := hb
  have hif := outcome_ifThen (d := d) hb'
    (Nat.le_add_right i condition.count) (Nat.lt_succ_self _)
    (show _ < i + condition.count + 1 + yes.count by omega)
    (condition.fullMeaning d) (yes.meaning (d + 1) a.nextScope)
  have h := (builds_guarded condition ih d hb).append (.single hif)
  have hroot : (ifThen word opening condition closing yes).root i =
      i + condition.count + 1 + yes.count := by
    simp only [root, count]
    omega
  have hevents : (ifThen word opening condition closing yes).events i d = _ :=
    (List.append_assoc _ _ _).symm
  rw [hroot, hevents]
  refine h.of_tokens ?_
  simp [tokens, word.readable (by decide), opening.readable (by decide),
    closing.readable (by decide), List.find?_append]

theorem assembles_ifElse (word : Leaf [.ifWord]) (opening : Leaf [.openParen])
    (condition : FullExpr) (closing : Leaf [.closeParen]) {yes : StmtTree .block}
    (otherwise : Leaf [.elseWord]) {no : StmtTree .block} (ihy : Assembles yes)
    (ihn : Assembles no) :
    Assembles (.ifElse word opening condition closing yes otherwise no) := by
  intro a i d hb
  have hcy := yes.block_count_pos
  have hcn := no.block_count_pos
  let a' := a.withScopes (yes.scopes + no.scopes)
  have hb' : a'.pending.Below i := hb
  have hif := outcome_ifElse (d := d) hb'
    (Nat.le_add_right i condition.count) (Nat.lt_succ_self _)
    (show i + condition.count + 1 < i + condition.count + 1 + yes.count by omega)
    (show _ < i + condition.count + 1 + yes.count + no.count by omega)
    (condition.fullMeaning d) (yes.meaning (d + 1) a.nextScope)
    (no.meaning (d + 1) (a.nextScope + yes.scopes))
  have hguarded := builds_guarded condition ihy d hb
  -- the condition and the first block wait while the second is read
  have hb₂ : (((a.withScopes yes.scopes).onTop (i + condition.count)
      (.expr (condition.fullMeaning d))).onTop (i + condition.count + 1)
      (.block (yes.meaning (d + 1) a.nextScope))).pending.Below
      (i + condition.count + 1 + yes.count) :=
    (hb.push (Nat.lt_succ_self _) (by omega)).push (by omega) (Nat.le_add_right _ _)
  have hno := ihn (d + 1) hb₂
  rw [onTop_withScopes, onTop_withScopes, withScopes_withScopes] at hno
  have h := hguarded.append (hno.append (.single hif))
  have hroot : (ifElse word opening condition closing yes otherwise no).root i =
      i + condition.count + 1 + yes.count + no.count := by
    simp only [root, count]
    omega
  have hevents : (ifElse word opening condition closing yes otherwise no).events i d = _ :=
    (List.append_assoc _ _ _).symm
  rw [hroot, hevents]
  refine h.of_tokens ?_
  simp [tokens, word.readable (by decide), opening.readable (by decide),
    closing.readable (by decide), otherwise.readable (by decide), List.find?_append]

theorem assembles_loop (word : Leaf [.whileWord]) (opening : Leaf [.openParen]) (guard : FullExpr)
    (closing : Leaf [.closeParen]) {body : StmtTree .block} (ih : Assembles body) :
    Assembles (.loop word opening guard closing body) := by
  intro a i d hb
  have hc := body.block_count_pos
  have hb' : (a.withScopes body.scopes).pending.Below i := hb
  have hloop := outcome_loop (d := d) hb'
    (Nat.le_add_right i guard.count) (Nat.lt_succ_self _)
    (show _ < i + guard.count + 1 + body.count by omega)
    (guard.fullMeaning d) (body.meaning (d + 1) a.nextScope)
  have h := (builds_guarded guard ih d hb).append (.single hloop)
  have hroot : (loop word opening guard closing body).root i =
      i + guard.count + 1 + body.count := by
    simp only [root, count]
    omega
  have hevents : (loop word opening guard closing body).events i d = _ :=
    (List.append_assoc _ _ _).symm
  rw [hroot, hevents]
  refine h.of_tokens ?_
  simp [tokens, word.readable (by decide), opening.readable (by decide),
    closing.readable (by decide), List.find?_append]

theorem assembles_ret (word : Leaf [.returnWord]) (value : FullExpr) (stop : Leaf [.semicolon]) :
    Assembles (.ret word value stop) := by
  intro a i d hb
  have hret := outcome_ret (d := d) hb (Nat.le_add_right i value.count) (Nat.lt_succ_self _)
    (value.fullMeaning d)
  have h := (value.assembles.full d hb).append (.single hret)
  refine h.of_tokens ?_
  simp [tokens, word.readable (by decide), stop.readable (by decide), List.find?_append]

theorem assembles_test (word : Leaf [.testWord]) (call : ExprTree .call) (mark : Leaf [.equals])
    (expected : FullExpr) (stop : Leaf [.semicolon]) :
    Assembles (.test word call mark expected stop) := by
  intro a i d hb
  have hcall := call.assembles d hb
  have hc := call.count_pos (by simp)
  cases call with
  | apply name opening arguments closing =>
    have hexpr := outcome_expr (d := d) hb
      (show i ≤ (ExprTree.apply name opening arguments closing).root i by
        simp only [ExprTree.root]; omega)
      (show _ < i + (ExprTree.apply name opening arguments closing).count by
        simp only [ExprTree.root]; omega)
      ((ExprTree.apply name opening arguments closing).meaning d)
    have hb₁ : (a.onTop (i + (ExprTree.apply name opening arguments closing).count)
        (.expr ((ExprTree.apply name opening arguments closing).meaning d))).pending.Below
        (i + (ExprTree.apply name opening arguments closing).count + 1) :=
      hb.push (Nat.lt_succ_self _) (by omega)
    have htest := outcome_test (d := d) hb
      (Nat.le_add_right i (ExprTree.apply name opening arguments closing).count)
      (show _ < i + (ExprTree.apply name opening arguments closing).count + 1 + expected.count by
        omega) (Nat.lt_succ_self _) (.untyped d) name.token.value (arguments.meaning d)
      (expected.fullMeaning d)
    have h := hcall.append ((Builds.single hexpr).append
      ((expected.assembles.full d hb₁).append (.single htest)))
    have hroot : (test word (.apply name opening arguments closing) mark expected stop).root i =
        i + (ExprTree.apply name opening arguments closing).count + 1 + expected.count + 1 := by
      simp only [root, count]
      omega
    rw [hroot]
    refine h.of_tokens ?_
    simp [tokens, word.readable (by decide), mark.readable (by decide), stop.readable (by decide),
      List.find?_append]

theorem assembles_braces (opening : Leaf [.openCurly]) {body : StmtTree .body}
    (closing : Leaf [.closeCurly]) (ih : Assembles body) :
    Assembles (.braces opening body closing) := by
  intro a i d hb
  have henter : outcome (handle ⟨i, d, .enterBlock⟩) a = (.ok (), a.opened i d) := rfl
  have hb₁ : (a.opened i d).pending.Below (i + 1) := hb.mono (by omega)
  have h := (Builds.single henter).append ((ih (d + 1) hb₁ (by simp [opened])).append
    (.single (outcome_exitBlock hb _)))
  refine h.of_tokens ?_
  simp [tokens, opening.readable (by decide), closing.readable (by decide)]

theorem assembles_cons {first : StmtTree .statement} {rest : StmtTree .body}
    (ihf : Assembles first) (ihr : Assembles rest) : Assembles (.cons first rest) := by
  intro a i d hb hblocks
  obtain ⟨b, bs, hbs⟩ := List.exists_cons_of_ne_nil hblocks
  have hbs' : (a.withScopes first.scopes).blocks = b :: bs := hbs
  obtain ⟨hbl, hp, hn⟩ := added_blocks hbs' (first.root i) (first.meaning d a.nextScope)
  have h := (ihf d hb).append (ihr d (i := i + first.count)
    (hp ▸ hb.mono (Nat.le_add_right i _)) (hbl ▸ List.cons_ne_nil _ _))
  have hfilled := filled_added hbs' (first.root i) (first.meaning d a.nextScope)
    rest.scopes (rest.meaning d (a.nextScope + first.scopes))
  rw [hn, show (a.withScopes first.scopes).nextScope = a.nextScope + first.scopes from rfl,
    hfilled, withScopes_withScopes] at h
  exact h

theorem assembles {p : StmtPart} (s : StmtTree p) : Assembles s := by
  induction s with
  | assign name mark value stop => exact assembles_assign name mark value stop
  | ifThen word opening condition closing _ ih =>
    exact assembles_ifThen word opening condition closing ih
  | ifElse word opening condition closing _ otherwise _ ihy ihn =>
    exact assembles_ifElse word opening condition closing otherwise ihy ihn
  | loop word opening guard closing _ ih => exact assembles_loop word opening guard closing ih
  | ret word value stop => exact assembles_ret word value stop
  | brk word stop =>
    intro a i d hb
    have h : outcome (handle ⟨i, d, .brk⟩) a = _ := outcome_addStmt hb (Nat.le_refl i) (.brk d)
    exact (Builds.single h).of_tokens
      (by simp [tokens, word.readable (by decide), stop.readable (by decide)])
  | cont word stop =>
    intro a i d hb
    have h : outcome (handle ⟨i, d, .cont⟩) a = _ := outcome_addStmt hb (Nat.le_refl i) (.cont d)
    exact (Builds.single h).of_tokens
      (by simp [tokens, word.readable (by decide), stop.readable (by decide)])
  | test word call mark expected stop => exact assembles_test word call mark expected stop
  | braces opening _ closing ih => exact assembles_braces opening closing ih
  | nil =>
    intro a i d _ _
    simpa [events, tokens, scopes, meaning, filled_nil] using Builds.nil a
  | cons _ _ ihf ihr => exact assembles_cons ihf ihr

end StmtTree

end TinyScript
