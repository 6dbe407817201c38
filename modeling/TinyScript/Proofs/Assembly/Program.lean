import Mathlib.Data.List.Basic
import TinyScript.Proofs.Assembly.Stmt
import TinyScript.Proofs.Derivation.Literals

/-! The events of a whole program build the program that its derivation stands for, and leave
nothing behind. -/

namespace TinyScript

open Assembly

theorem find?_unreadable {ts : List Token} (h : ts.filter Token.isLiteral = []) :
    ts.find? Token.unreadable = none := by
  refine List.find?_eq_none.2 fun t ht hu => ?_
  refine List.filter_eq_nil_iff.1 h t ht ?_
  simp_all [Token.isLiteral, Token.unreadable]

theorem FunctionTree.assembles (f : FunctionTree) {a : Assembly} {i : Nat} (d : Nat)
    (hb : a.pending.Below i) : Builds a (f.events i d) f.tokens
      ((a.withScopes f.scopes).onTop (i + f.body.count) (.function (f.meaning d a.nextScope))) := by
  have hc := f.body.block_count_pos
  have hb' : (a.withScopes f.body.scopes).pending.Below i := hb
  have hfunction := outcome_function (d := d) hb' (Nat.le_refl i)
    (show i < i + f.body.count by omega) f.name.token f.parameters.entries f.result.type?
    (f.body.meaning (d + 1) a.nextScope)
  rw [withScopes_withScopes] at hfunction
  refine ((f.body.assembles (d + 1) hb).append (.single hfunction)).of_tokens ?_
  simp only [tokens, List.find?_cons, List.find?_append, f.word.readable (by decide),
    f.name.readable (by decide), f.opening.readable (by decide), f.closing.readable (by decide),
    find?_unreadable f.parameters.filter_isLiteral,
    find?_unreadable (f.result.filter_isLiteral (by decide)), Option.none_or, List.append_nil]

namespace ItemTree

def statementEntries : List ItemTree → Nat → Nat → Nat → List (Nat × Stmt)
  | [], _, _, _ => []
  | statement s :: items, i, d, k =>
    (s.root i, s.meaning d k) :: statementEntries items (i + s.count) d (k + s.scopes)
  | function f :: items, i, d, k => statementEntries items (i + f.count) d (k + f.scopes)

def functionEntries : List ItemTree → Nat → Nat → Nat → List (Nat × Function)
  | [], _, _, _ => []
  | statement s :: items, i, d, k => functionEntries items (i + s.count) d (k + s.scopes)
  | function f :: items, i, d, k =>
    (i + f.body.count, f.meaning d k) :: functionEntries items (i + f.count) d (k + f.scopes)

def entry : ItemTree → Nat → Nat → Nat → Nat × Node
  | statement s, i, d, k => (s.root i, .statement (s.meaning d k))
  | function f, i, d, k => (i + f.body.count, .function (f.meaning d k))

def entries : List ItemTree → Nat → Nat → Nat → List (Nat × Node)
  | [], _, _, _ => []
  | item :: items, i, d, k => item.entry i d k :: entries items (i + item.count) d (k + item.scopes)

variable (items : List ItemTree) (i d k : Nat)

theorem statementEntries_fst :
    (statementEntries items i d k).map Prod.fst = statementIds items i := by
  fun_induction statementEntries items i d k <;> simp [statementIds, *]

theorem statementEntries_snd :
    (statementEntries items i d k).map Prod.snd = statements items d k := by
  fun_induction statementEntries items i d k <;> simp [statements, *]

theorem functionEntries_fst :
    (functionEntries items i d k).map Prod.fst = functionIds items i := by
  fun_induction functionEntries items i d k <;> simp [functionIds, *]

theorem functionEntries_snd :
    (functionEntries items i d k).map Prod.snd = functions items d k := by
  fun_induction functionEntries items i d k <;> simp [functions, *]

theorem perm_entries :
    ((statementEntries items i d k).map (Prod.map id Node.statement) ++
      (functionEntries items i d k).map (Prod.map id Node.function)).Perm
      (entries items i d k) := by
  induction items generalizing i k with
  | nil => exact .nil
  | cons item items ih =>
    cases item with
    | statement s => exact (ih _ _).cons _
    | function f => exact List.perm_middle.trans ((ih _ _).cons _)

theorem entry_bounds (item : ItemTree) :
    i ≤ (item.entry i d k).1 ∧ (item.entry i d k).1 < i + item.count := by
  cases item with
  | statement s =>
    have hc := s.count_pos
    simp only [entry, count, StmtTree.root]
    omega
  | function f =>
    simp only [entry, count, FunctionTree.count]
    omega

theorem le_of_mem_entries {p : Nat × Node} (hp : p ∈ entries items i d k) : i ≤ p.1 := by
  induction items generalizing i k with
  | nil => cases hp
  | cons item items ih =>
    rcases List.mem_cons.1 hp with rfl | hp
    · exact (entry_bounds i d k item).1
    · exact Nat.le_trans (Nat.le_add_right i _) (ih _ _ hp)

theorem nodup_entries : ((entries items i d k).map Prod.fst).Nodup := by
  induction items generalizing i k with
  | nil => exact List.nodup_nil
  | cons item items ih =>
    refine List.nodup_cons.2 ⟨fun hmem => ?_, ih _ _⟩
    obtain ⟨p, hp, he⟩ := List.mem_map.1 hmem
    have hle := le_of_mem_entries items _ d _ hp
    have hlt := (entry_bounds i d k item).2
    omega

variable {items i d k}

theorem assembles (item : ItemTree) {a : Assembly} (d : Nat) (hb : a.pending.Below i)
    (hblocks : a.blocks = []) :
    Builds a (item.events i d) item.tokens
      ((a.withScopes item.scopes).onTop (item.entry i d a.nextScope).1
        (item.entry i d a.nextScope).2) := by
  cases item with
  | statement s =>
    have h := s.assembles d hb
    simp only [added, withScopes_blocks, hblocks] at h
    exact h
  | function f => exact f.assembles d hb

theorem builds_all (items : List ItemTree) {a : Assembly} {i : Nat} (d : Nat)
    (hb : a.pending.Below i) (hblocks : a.blocks = []) :
    Builds a (eventsAll items i d) (items.flatMap tokens)
      { a.withScopes (scopesAll items) with
        pending := a.pending.pushAll (entries items i d a.nextScope) } := by
  induction items generalizing a i with
  | nil => exact .nil a
  | cons item items ih =>
    have hb' := hb.push (a := (item.entry i d a.nextScope).2)
      (entry_bounds i d a.nextScope item).2 (Nat.le_add_right i item.count)
    have h := (item.assembles d hb hblocks).append (ih hb' hblocks)
    rw [onTop_withScopes, withScopes_withScopes] at h
    exact h

end ItemTree

theorem Assembly.outcome_buildProgram {a : Assembly} (d : Nat) (ss : List (Nat × Stmt))
    (fs : List (Nat × Function)) (hids : (ss.map Prod.fst ++ fs.map Prod.fst).Nodup)
    (hss : ∀ p ∈ ss, a.pending.get? p.1 = some (.statement p.2))
    (hfs : ∀ p ∈ fs, a.pending.get? p.1 = some (.function p.2)) :
    outcome (buildProgram d (ss.map Prod.fst) (fs.map Prod.fst)) a =
      (.ok (), { (a.withScopes 1).withoutAll (ss.map Prod.fst ++ fs.map Prod.fst) with
        program := some ⟨ss.map Prod.snd, fs.map Prod.snd, d, ⟨a.nextScope⟩⟩ }) := by
  obtain ⟨hs, hf, hdisjoint⟩ := List.nodup_append.1 hids
  have hscope : outcome freshScope a = (.ok ⟨a.nextScope⟩, a.withScopes 1) := rfl
  have hstmts := outcome_takeAll outcome_takeStmt ss hs (a.withScopes 1) hss
  have hfunctions := outcome_takeAll outcome_takeFunction fs hf
    ((a.withScopes 1).withoutAll (ss.map Prod.fst)) fun p hp => by
      have hp' : p.1 ∉ ss.map Prod.fst := fun hmem =>
        hdisjoint _ hmem _ (List.mem_map_of_mem hp) rfl
      exact (Keyed.get?_eraseAll hp').trans (hfs p hp)
  rw [buildProgram, outcome_bind_ok hscope, outcome_bind_ok hstmts, outcome_bind_ok hfunctions,
    withoutAll_withoutAll]
  rfl

namespace ProgramTree

def assembly (p : ProgramTree) : Assembly :=
  { program := some p.meaning, nextScope := ItemTree.scopesAll p.items + 1 }

def rest (p : ProgramTree) : Assembly :=
  { pending := .pushAll {} (ItemTree.entries p.items 0 1 0)
    nextScope := ItemTree.scopesAll p.items }

theorem outcome_lastEvent (p : ProgramTree) :
    outcome (handle p.lastEvent) p.rest = (.ok (), p.assembly) := by
  have hperm := ItemTree.perm_entries p.items 0 1 0
  have hnodup := ItemTree.nodup_entries p.items 0 1 0
  -- what is claimed is what waits, in another order
  have hids : ((ItemTree.statementEntries p.items 0 1 0).map Prod.fst ++
      (ItemTree.functionEntries p.items 0 1 0).map Prod.fst).Perm
      ((ItemTree.entries p.items 0 1 0).map Prod.fst) := by
    simpa [Function.comp_def] using hperm.map Prod.fst
  have h := outcome_buildProgram (a := p.rest) 0 _ _ (hids.nodup_iff.2 hnodup)
    (fun q hq => Keyed.get?_pushAll (p := Prod.map id Node.statement q) hnodup
      (hperm.subset (List.mem_append_left _ (List.mem_map_of_mem hq))))
    fun q hq => Keyed.get?_pushAll (p := Prod.map id Node.function q) hnodup
      (hperm.subset (List.mem_append_right _ (List.mem_map_of_mem hq)))
  have hnone : p.rest.pending.eraseAll
      ((ItemTree.statementEntries p.items 0 1 0).map Prod.fst ++
        (ItemTree.functionEntries p.items 0 1 0).map Prod.fst) = {} :=
    Keyed.eraseAll_pushAll fun q hq => hids.symm.subset (List.mem_map_of_mem hq)
  rw [withoutAll, withScopes_pending, hnone, ItemTree.statementEntries_fst,
    ItemTree.statementEntries_snd, ItemTree.functionEntries_fst,
    ItemTree.functionEntries_snd] at h
  exact h

theorem builds (p : ProgramTree) : Builds {} p.events p.tokens p.assembly := by
  have hempty : Keyed.Below (α := Node) {} 0 := fun _ h => by cases h
  have hitems := ItemTree.builds_all p.items (a := {}) 1 hempty rfl
  simp only [withScopes, Nat.zero_add] at hitems
  have h := hitems.append (.single p.outcome_lastEvent)
  rwa [List.append_nil] at h

end ProgramTree

end TinyScript
