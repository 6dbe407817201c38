import Mathlib.Data.List.Nodup
import Mathlib.Data.List.Range
import TinyScript.Proofs.Assembly.Parsed
import TinyScript.Proofs.Stream.Parts

/-! The events that a parse records are bottom-up. The events of a construct form a segment of the
stream, which leaves the blocks around it open and completes what the next event names; segments
follow each other, and an event that names all that waits ends one. What holds at each place of a
segment holds at each place of a part it starts with, so a parse that fails is no exception. -/

namespace TinyScript

/-- The events of constructs numbered from `i` on, `n` of them, where the blocks `ids` are open.
Of what they complete, the `heads` are still to be named. -/
structure Segment (ids : List Serial) (i n : Nat) (heads : List (Serial × ConstructClass))
    (es : List Event) : Prop where
  numbers : (es.filter fun e => e.kind ≠ .exitBlock).map Event.id = List.range' i n
  completed : ((completions es).map Prod.fst).Perm (List.range' i n)
  balanced : openFrom ids es = ids
  closes : AtEach (fun before e => e.kind = .exitBlock →
    (openFrom ids before).head? = some e.id) es
  parts : AtEach (fun before e => ∀ l ∈ e.kind.parts, l.Sublist (completions before)) es
  fitting : AtEach (fun before e => e.Fitting before) es
  waiting : heads.Sublist (completions es)
  count : ∀ k, (partIds ids es).count k =
    (es.flatMap Event.named).count k + (heads.map Prod.fst).count k

theorem Event.Fitting.mono {before before' : List Event} {e : Event} (h : e.Fitting before)
    (hsub : before ⊆ before') : e.Fitting before' := by
  unfold Fitting at h ⊢
  split at h
  · obtain ⟨d, name, hname⟩ := h
    exact ⟨d, name, hsub hname⟩
  · obtain ⟨d, d', inner, name, arguments, hexpr, hcall⟩ := h
    exact ⟨d, d', inner, name, arguments, hsub hexpr, hsub hcall⟩
  · trivial

namespace Segment

variable {ids : List Serial} {i n n' : Nat} {heads heads' : List (Serial × ConstructClass)}
  {es es' : List Event}

theorem nil (ids : List Serial) (i : Nat) : Segment ids i 0 [] [] where
  numbers := rfl
  completed := .nil
  balanced := rfl
  closes := .nil
  parts := .nil
  fitting := .nil
  waiting := List.Sublist.refl []
  count _ := rfl

theorem of_eq (h : Segment ids i n heads es) (hn : n' = n) (hheads : heads' = heads)
    (hes : es' = es) : Segment ids i n' heads' es' := by
  rwa [hn, hheads, hes]

theorem append (h : Segment ids i n heads es) (h' : Segment ids (i + n) n' heads' es') :
    Segment ids i (n + n') (heads ++ heads') (es ++ es') where
  numbers := by
    rw [List.filter_append, List.map_append, h.numbers, h'.numbers, List.range'_append_1]
  completed := by
    rw [completions_append, List.map_append, ← List.range'_append_1]
    exact h.completed.append h'.completed
  balanced := by rw [openFrom_append, h.balanced, h'.balanced]
  closes := atEach_append.2 ⟨h.closes, h'.closes.imp fun before e hclose hkind => by
    rw [openFrom_append, h.balanced]
    exact hclose hkind⟩
  parts := atEach_append.2 ⟨h.parts, h'.parts.imp fun before e hparts l hl => by
    rw [completions_append]
    exact (hparts l hl).trans (List.sublist_append_right _ _)⟩
  fitting := atEach_append.2 ⟨h.fitting, h'.fitting.imp fun before e hfits =>
    hfits.mono (List.subset_append_right _ _)⟩
  waiting := by
    rw [completions_append]
    exact h.waiting.append h'.waiting
  count k := by
    have hfirst := h.count k
    have hsecond := h'.count k
    simp only [partIds_append, h.balanced, List.flatMap_append, List.map_append,
      List.count_append] at hfirst hsecond ⊢
    omega

theorem emit (h : Segment ids i n heads es) (d : Nat) (kind : EventKind) {c : ConstructClass}
    (hclass : kind.class? = some c) (hblock : c ≠ .block)
    (hparts : ∀ l ∈ kind.parts, l.Sublist heads) (hnamed : kind.parts.flatten.Perm heads)
    (hfits : Event.Fitting es ⟨i + n, d, kind⟩) :
    Segment ids i (n + 1) (if Event.isPart ids ⟨i + n, d, kind⟩ then [(i + n, c)] else [])
      (es ++ [⟨i + n, d, kind⟩]) := by
  have hexit : kind ≠ .exitBlock := by
    rintro rfl
    exact hblock (Option.some.inj hclass).symm
  have henter : kind ≠ .enterBlock := by
    rintro rfl
    cases hclass
  have hrange : List.range' i (n + 1) = List.range' i n ++ [i + n] := by
    rw [List.range'_concat, Nat.one_mul]
  refine ⟨?_, ?_, ?_, ?_, ?_, ?_, ?_, fun k => ?_⟩
  · rw [List.filter_append, List.map_append, h.numbers, hrange]
    simp [hexit]
  · rw [completions_append, List.map_append, hrange]
    refine h.completed.append ?_
    simp [hclass]
  · rw [openFrom_append, h.balanced]
    change Event.openAfter ⟨i + n, d, kind⟩ ids = ids
    unfold Event.openAfter
    split <;> simp_all
  · exact atEach_append.2 ⟨h.closes, atEach_singleton.2 fun hkind => absurd hkind hexit⟩
  · refine atEach_append.2 ⟨h.parts, atEach_singleton.2 fun l hl => ?_⟩
    rw [List.append_nil]
    exact (hparts l hl).trans h.waiting
  · refine atEach_append.2 ⟨h.fitting, atEach_singleton.2 ?_⟩
    rwa [List.append_nil]
  · rw [completions_append]
    refine List.Sublist.trans ?_ (List.sublist_append_right _ _)
    split
    · simp [hclass]
    · exact List.nil_sublist _
  · have hcount := h.count k
    have hown : (Event.named ⟨i + n, d, kind⟩).Perm (heads.map Prod.fst) := hnamed.map _
    rw [partIds_append, h.balanced, List.flatMap_append, List.count_append, List.count_append,
      hcount, partIds, partIds, List.append_nil, List.flatMap_singleton, hown.count_eq k]
    congr 1
    split <;> rfl

theorem block (d : Nat) (h : Segment (i :: ids) (i + 1) n [] es) :
    Segment ids i (n + 1) [(i, .block)]
      (⟨i, d, .enterBlock⟩ :: (es ++ [⟨i, d, .exitBlock⟩])) := by
  have hrange : List.range' i (n + 1) = i :: List.range' (i + 1) n := List.range'_succ ..
  have hopen : openFrom (i :: ids) es = i :: ids := h.balanced
  have hcompletions : completions (⟨i, d, .enterBlock⟩ :: (es ++ [⟨i, d, .exitBlock⟩])) =
      completions es ++ [(i, .block)] := by
    simp [EventKind.class?]
  refine ⟨?_, ?_, ?_, ?_, ?_, ?_, ?_, fun k => ?_⟩
  · rw [List.filter_cons_of_pos (by simp), List.filter_append, List.map_cons, List.map_append,
      h.numbers, hrange]
    simp
  · rw [hcompletions, List.map_append, hrange]
    exact List.perm_append_comm.trans (h.completed.cons i)
  · rw [openFrom_cons, openFrom_append]
    change openFrom (openFrom (i :: ids) es) _ = ids
    rw [hopen]
    rfl
  · refine atEach_cons.2 ⟨fun hkind => (by cases hkind), atEach_append.2
      ⟨h.closes, atEach_singleton.2 fun _ => ?_⟩⟩
    change (openFrom (i :: ids) (es ++ [])).head? = some i
    rw [List.append_nil, hopen]
    rfl
  · exact atEach_cons.2 ⟨fun l hl => (by cases hl), atEach_append.2
      ⟨h.parts, atEach_singleton.2 fun l hl => (by cases hl)⟩⟩
  · refine atEach_cons.2 ⟨trivial, atEach_append.2
      ⟨h.fitting.imp fun before e hfits => ?_, atEach_singleton.2 trivial⟩⟩
    exact hfits.mono (List.subset_cons_self _ _)
  · rw [hcompletions]
    exact List.sublist_append_right _ _
  · have hparts : partIds ids (⟨i, d, .enterBlock⟩ :: (es ++ [⟨i, d, .exitBlock⟩])) =
        partIds (i :: ids) es ++ [i] := by
      change partIds (i :: ids) (es ++ [⟨i, d, .exitBlock⟩]) = _
      rw [partIds_append, hopen]
      rfl
    have hnamed : (⟨i, d, .enterBlock⟩ :: (es ++ [⟨i, d, .exitBlock⟩])).flatMap Event.named =
        es.flatMap Event.named := by
      simp [Event.named, EventKind.parts]
    rw [hparts, hnamed, List.count_append, h.count k]
    rfl

theorem emit_in_order (h : Segment ids i n heads es) (d : Nat) (kind : EventKind)
    {c : ConstructClass} (hclass : kind.class? = some c) (hblock : c ≠ .block)
    (hparts : kind.parts.flatten = heads) (hfits : Event.Fitting es ⟨i + n, d, kind⟩) :
    Segment ids i (n + 1) (if Event.isPart ids ⟨i + n, d, kind⟩ then [(i + n, c)] else [])
      (es ++ [⟨i + n, d, kind⟩]) := by
  subst hparts
  exact h.emit d kind hclass hblock (fun _ => List.sublist_flatten_of_mem) (.refl _) hfits

theorem emit_expression (h : Segment ids i n heads es) (d : Nat) (kind : EventKind) {k : Nat}
    (hclass : kind.class? = some .expression) (hparts : kind.parts.flatten = heads)
    (hk : k = i + n) : Segment ids i (n + 1) [(k, .expression)] (es ++ [⟨k, d, kind⟩]) := by
  subst hk
  have hfits : Event.Fitting es ⟨i + n, d, kind⟩ := by
    cases kind <;> first | trivial | cases hclass
  refine (h.emit_in_order d kind hclass (by simp) hparts hfits).of_eq rfl ?_ rfl
  rw [Event.isPart, hclass]
  rfl

end Segment

namespace ExprTree

def heads : {p : ExprPart} → ExprTree p → Nat → List (Serial × ConstructClass)
  | .level _, e, i | .call, e, i => [(e.root i, .expression)]
  | .arguments, e, i | .items, e, i => (e.ids i).map (·, .expression)

theorem segment (ids : List Serial) {p : ExprPart} (e : ExprTree p) (i d : Nat) :
    Segment ids i e.count (e.heads i) (e.events i d) := by
  induction e generalizing i d with
  | join left operator right ihl ihr =>
    have h := (ihl i d).append (ihr (i + left.count) (d + 1))
    refine (h.emit_expression d (.binary operator.token (left.root i) (right.root (i + left.count)))
      rfl rfl (Nat.add_assoc ..)).of_eq rfl ?_ ?_
    · rw [heads, root, count, Nat.add_sub_cancel, Nat.add_assoc]
    · rw [events, List.append_assoc]
  | tighter _ _ ih | call _ ih => exact ih i d
  | grouping _ inner _ ih => exact ih i (d + 1)
  | sign operator operand ih => exact (ih i (d + 1)).emit_expression d _ rfl rfl rfl
  | literal | var => exact (Segment.nil ids i).emit_expression d _ rfl rfl rfl
  | apply name _ arguments _ ih =>
    exact (ih i d).emit_expression d _ rfl (List.append_nil _) rfl
  | none => exact Segment.nil ids i
  | some _ ih => exact ih i d
  | last item ih => exact (ih i (d + 1)).emit_expression d _ rfl rfl rfl
  | more item _ rest ihi ihr =>
    have hfirst := (ihi i (d + 1)).emit_expression d (.expr (item.root i)) rfl rfl rfl
    refine (hfirst.append (ihr (i + item.count + 1) d)).of_eq rfl rfl ?_
    rw [events, List.append_assoc]
    rfl

theorem segment_full (ids : List Serial) (e : FullExpr) (i d : Nat) :
    Segment ids i (e.count + 1) [(i + e.count, .expression)] (e.fullEvents i d) :=
  (e.segment ids i (d + 1)).emit_expression d _ rfl rfl rfl

theorem exists_call (e : ExprTree .call) (i d : Nat) :
    ∃ name arguments, ⟨e.root i, d, .call name arguments⟩ ∈ e.events i d := by
  cases e with
  | apply name opening arguments closing =>
    exact ⟨name.token, arguments.ids i, List.mem_append_right _ (List.mem_singleton.2 rfl)⟩

end ExprTree

namespace StmtTree

def heads (ids : List Serial) : {p : StmtPart} → StmtTree p → Nat → List (Serial × ConstructClass)
  | .statement, s, i => if ids.isEmpty then [(s.root i, .statement)] else []
  | .block, _, i => [(i, .block)]
  | .body, _, _ => []

theorem segment_of_last {s : StmtTree .statement} {ids : List Serial} {i n : Nat}
    {waiting : List (Serial × ConstructClass)} {es : List Event} (h : Segment ids i n waiting es)
    (d : Nat) (kind : EventKind) (hclass : kind.class? = some .statement)
    (hparts : kind.parts.flatten = waiting) (hfits : Event.Fitting es ⟨i + n, d, kind⟩)
    (hcount : s.count = n + 1) (hevents : s.events i d = es ++ [⟨i + n, d, kind⟩]) :
    Segment ids i s.count (s.heads ids i) (s.events i d) := by
  refine (h.emit_in_order d kind hclass (by simp) hparts hfits).of_eq hcount ?_ hevents
  rw [heads, root, hcount, Nat.add_sub_cancel, Event.isPart, hclass]

theorem segment {p : StmtPart} (s : StmtTree p) (ids : List Serial) (hids : p = .body → ids ≠ [])
    (i d : Nat) : Segment ids i s.count (s.heads ids i) (s.events i d) := by
  induction s generalizing ids i d with
  | assign name _ value _ =>
    have htarget := (Segment.nil ids i).emit_expression d (.var name.token) rfl rfl rfl
    have h := htarget.append (value.segment_full ids (i + 1) d)
    have hfits : ∃ d' name', ⟨i, d', .var name'⟩ ∈
        [⟨i, d, .var name.token⟩] ++ value.fullEvents (i + 1) d := ⟨d, name.token, by simp⟩
    refine segment_of_last h d (.assignment i (i + 1 + value.count)) rfl rfl hfits ?_ ?_
    · simp only [count]
      omega
    · simp [events, ← Nat.add_assoc, Nat.add_right_comm _ 1]
  | ifThen _ _ condition _ yes ih =>
    have h := (condition.segment_full ids i d).append
      (ih ids (by simp) (i + condition.count + 1) (d + 1))
    refine segment_of_last h d (.conditional (i + condition.count) [i + condition.count + 1])
      rfl rfl trivial rfl ?_
    simp [events, ← Nat.add_assoc]
  | ifElse _ _ condition _ yes _ no ihy ihn =>
    have h := ((condition.segment_full ids i d).append
      (ihy ids (by simp) (i + condition.count + 1) (d + 1))).append
        (ihn ids (by simp) (i + (condition.count + 1 + yes.count)) (d + 1))
    refine segment_of_last h d (.conditional (i + condition.count)
      [i + condition.count + 1, i + (condition.count + 1 + yes.count)]) rfl rfl trivial rfl ?_
    simp [events, ← Nat.add_assoc]
  | loop _ _ guard _ body ih =>
    have h := (guard.segment_full ids i d).append
      (ih ids (by simp) (i + guard.count + 1) (d + 1))
    refine segment_of_last h d (.loop (i + guard.count) (i + guard.count + 1)) rfl rfl trivial rfl
      ?_
    simp [events, ← Nat.add_assoc]
  | ret _ value _ =>
    have h := value.segment_full ids i d
    exact segment_of_last h d (.ret (i + value.count)) rfl rfl trivial rfl rfl
  | brk => exact segment_of_last (Segment.nil ids i) d .brk rfl rfl trivial rfl rfl
  | cont => exact segment_of_last (Segment.nil ids i) d .cont rfl rfl trivial rfl rfl
  | test _ call _ expected _ =>
    have hcall := (call.segment ids i d).emit_expression d (.expr (call.root i)) rfl rfl rfl
    have h := hcall.append (expected.segment_full ids (i + call.count + 1) d)
    obtain ⟨name, arguments, hmem⟩ := call.exists_call i d
    refine segment_of_last h d (.test (i + call.count) (i + call.count + 1 + expected.count))
      rfl rfl ⟨d, d, call.root i, name, arguments, by simp, by simp [hmem]⟩ rfl ?_
    simp [events, ← Nat.add_assoc]
  | braces _ body _ ih => exact (ih (i :: ids) (by simp) (i + 1) (d + 1)).block d
  | nil => exact Segment.nil ids i
  | cons first rest ihf ihr =>
    have hheads : first.heads ids i = [] := if_neg (by simpa using hids rfl)
    refine ((ihf ids (by simp) i d).append (ihr ids hids (i + first.count) d)).of_eq rfl ?_ rfl
    rw [hheads]
    rfl

end StmtTree

namespace ItemTree

def heads : List ItemTree → Nat → List (Serial × ConstructClass)
  | [], _ => []
  | statement s :: items, i => (s.root i, .statement) :: heads items (i + s.count)
  | function f :: items, i => (i + f.body.count, .function) :: heads items (i + f.count)

theorem segment_function (f : FunctionTree) (i d : Nat) :
    Segment [] i f.count [(i + f.body.count, .function)] (f.events i d) := by
  have hbody := f.body.segment [] (by simp) i (d + 1)
  exact hbody.emit_in_order d (.function f.name.token f.parameters.entries f.result.type? i)
    rfl (by simp) rfl trivial

theorem segment_all (items : List ItemTree) (i d : Nat) :
    Segment [] i (countAll items) (heads items i) (eventsAll items i d) := by
  induction items generalizing i with
  | nil => exact Segment.nil [] i
  | cons item items ih =>
    cases item with
    | statement s => exact (s.segment [] (by simp) i d).append (ih (i + s.count))
    | function f => exact (segment_function f i d).append (ih (i + f.count))

theorem statementIds_sublist (items : List ItemTree) (i : Nat) :
    ((statementIds items i).map (·, ConstructClass.statement)).Sublist (heads items i) := by
  induction items generalizing i with
  | nil => exact List.Sublist.refl []
  | cons item items ih =>
    cases item with
    | statement s => exact (ih _).cons_cons _
    | function f => exact (ih _).cons _

theorem functionIds_sublist (items : List ItemTree) (i : Nat) :
    ((functionIds items i).map (·, ConstructClass.function)).Sublist (heads items i) := by
  induction items generalizing i with
  | nil => exact List.Sublist.refl []
  | cons item items ih =>
    cases item with
    | statement s => exact (ih _).cons _
    | function f => exact (ih _).cons_cons _

theorem perm_heads (items : List ItemTree) (i : Nat) :
    ((statementIds items i).map (·, ConstructClass.statement) ++
      (functionIds items i).map (·, ConstructClass.function)).Perm (heads items i) := by
  induction items generalizing i with
  | nil => exact .nil
  | cons item items ih =>
    cases item with
    | statement s => exact (ih _).cons _
    | function f => exact List.perm_middle.trans ((ih _).cons _)

end ItemTree

namespace ProgramTree

theorem segment (p : ProgramTree) :
    Segment [] 0 (ItemTree.countAll p.items + 1) [] p.events := by
  have hparts : ∀ l ∈ p.lastEvent.kind.parts, l.Sublist (ItemTree.heads p.items 0) := by
    intro l hl
    rcases List.mem_pair.1 hl with rfl | rfl
    · exact ItemTree.statementIds_sublist p.items 0
    · exact ItemTree.functionIds_sublist p.items 0
  have hperm : p.lastEvent.kind.parts.flatten.Perm (ItemTree.heads p.items 0) := by
    simpa [lastEvent, EventKind.parts] using ItemTree.perm_heads p.items 0
  have h := (ItemTree.segment_all p.items 0 1).emit 0 p.lastEvent.kind rfl (by simp) hparts hperm
    trivial
  exact h.of_eq rfl rfl (by simp [events, lastEvent])

theorem count_named (p : ProgramTree) (k : Serial) :
    (p.events.flatMap Event.named).count k = (partIds [] p.events).count k := by
  rw [p.segment.count k]
  rfl

theorem nodup_partIds (p : ProgramTree) : (partIds [] p.events).Nodup :=
  (p.segment.completed.nodup_iff.2 List.nodup_range').sublist (partIds_sublist [] p.events)

theorem bottomUp (p : ProgramTree) : BottomUp p.events where
  numbered := ⟨_, by rw [p.segment.numbers, List.range_eq_range']⟩
  closes := p.segment.closes
  parts := p.segment.parts
  fitting := p.segment.fitting
  once := by
    refine List.nodup_iff_count_le_one.2 fun k => ?_
    rw [p.count_named]
    exact List.nodup_iff_count_le_one.1 p.nodup_partIds k

theorem whole (p : ProgramTree) : BottomUp.Whole p.events where
  closed := p.segment.balanced
  last := by
    refine ⟨ItemTree.eventsAll p.items 0 1, _, _, _, rfl, fun e he hclass => ?_⟩
    have hproper := ItemTree.proper_all p.items 0 1 e he
    cases hk : e.kind <;> simp_all [EventKind.class?]
  claimed := by
    intro before e after hevents hpart
    have hmem : e.id ∈ partIds [] p.events := by
      rw [hevents]
      exact mem_partIds hpart
    rw [p.count_named]
    exact List.count_eq_one_of_mem p.nodup_partIds hmem

end ProgramTree

theorem BottomUp.of_prefix {es es' : List Event} (h : BottomUp es') (hes : es <+: es') :
    BottomUp es where
  numbered := by
    obtain ⟨n, hn⟩ := h.numbered
    have hstart : (es.filter fun e => e.kind ≠ .exitBlock).map Event.id <+: List.range n := by
      rw [← hn]
      exact (hes.filter _).map _
    rw [List.prefix_iff_eq_take, List.take_range] at hstart
    exact ⟨_, hstart⟩
  closes := h.closes.of_prefix hes
  parts := h.parts.of_prefix hes
  fitting := h.fitting.of_prefix hes
  once := by
    obtain ⟨rest, rfl⟩ := hes
    refine h.once.sublist ?_
    rw [List.flatMap_append]
    exact List.sublist_append_left _ _

/-- Whether or not a parse succeeds, the events it records are bottom-up; if it succeeds, they are
those of a whole program. -/
theorem recorded_bottomUp (tokens : List Token) (file : String) :
    BottomUp (recorded tokens file) ∧
      ∀ es, (parse tokens file).1 = .ok es → BottomUp.Whole (recorded tokens file) := by
  obtain ⟨p, hp⟩ := exists_recorded tokens file
  cases hr : (parse tokens file).1 with
  | ok es =>
    rw [hr] at hp
    rw [show recorded tokens file = p.events from hp]
    exact ⟨p.bottomUp, fun _ _ => p.whole⟩
  | error e =>
    rw [hr] at hp
    have hstart : recorded tokens file <+: p.events := hp.trans (List.prefix_append _ _)
    exact ⟨p.bottomUp.of_prefix hstart, fun es hes => by cases hes⟩

def testedFunction : List Token :=
  [⟨.defWord, "def", default⟩, ⟨.identifier, "f", default⟩, ⟨.openParen, "(", default⟩,
    ⟨.identifier, "n", default⟩, ⟨.closeParen, ")", default⟩, ⟨.openCurly, "\x7b", default⟩,
    ⟨.ifWord, "if", default⟩, ⟨.openParen, "(", default⟩, ⟨.identifier, "n", default⟩,
    ⟨.closeParen, ")", default⟩, ⟨.openCurly, "\x7b", default⟩, ⟨.returnWord, "return", default⟩,
    ⟨.number, "1", default⟩, ⟨.semicolon, ";", default⟩, ⟨.closeCurly, "\x7d", default⟩,
    ⟨.closeCurly, "\x7d", default⟩, ⟨.testWord, "test", default⟩, ⟨.identifier, "f", default⟩,
    ⟨.openParen, "(", default⟩, ⟨.bool, "true", default⟩, ⟨.closeParen, ")", default⟩,
    ⟨.equals, "==", default⟩, ⟨.number, "1", default⟩, ⟨.semicolon, ";", default⟩]

theorem recorded_bottomUp_testedFunction :
    (parse testedFunction "").1 = .ok (recorded testedFunction "") ∧
      BottomUp.Whole (recorded testedFunction "") := by
  have hok : (parse testedFunction "").1 = .ok (recorded testedFunction "") := by decide +kernel
  exact ⟨hok, (recorded_bottomUp testedFunction "").2 _ hok⟩

end TinyScript
