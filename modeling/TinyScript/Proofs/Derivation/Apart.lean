import Mathlib.Data.List.Nodup
import TinyScript.Proofs.Derivation.Meaning
import TinyScript.Proofs.Typing.Steps

/-! The scopes that a derivation gives out are numbered in the order they are taken, so no two
blocks and functions share one. -/

namespace TinyScript

def StmtPart.scopesOf : {p : StmtPart} → p.Meaning → List Scope
  | .statement, s => Stmt.scopes s
  | .block, b => Block.scopes b
  | .body, ss => Stmt.scopesAll ss

theorem nodup_append_of_lt {l l' : List Scope} {b : Nat} (hl : l.Nodup) (hl' : l'.Nodup)
    (hlt : ∀ s ∈ l, s.id < b) (hle : ∀ s ∈ l', b ≤ s.id) : (l ++ l').Nodup := by
  refine List.nodup_append'.2 ⟨hl, hl', List.disjoint_left.2 fun s hs hs' => ?_⟩
  have hs := hlt s hs
  have hs' := hle s hs'
  omega

theorem StmtTree.scopes_bounds {p : StmtPart} (t : StmtTree p) (d k : Nat) :
    ∀ s ∈ StmtPart.scopesOf (t.meaning d k), k ≤ s.id ∧ s.id < k + t.scopes := by
  induction t generalizing d k with
  | assign | ret | brk | cont | test | nil =>
    simp [StmtPart.scopesOf, meaning, Stmt.scopes, Stmt.scopesAll]
  | ifThen _ _ _ _ _ ih | loop _ _ _ _ _ ih => exact ih (d + 1) k
  | ifElse _ _ _ _ yes _ no ihy ihn =>
    intro s hs
    rcases List.mem_append.1 hs with hs | hs
    · have := ihy (d + 1) k s hs
      simp only [scopes]
      omega
    · have := ihn (d + 1) (k + yes.scopes) s hs
      simp only [scopes]
      omega
  | braces _ body _ ih =>
    intro s hs
    rcases List.mem_cons.1 hs with rfl | hs
    · simp only [scopes]
      omega
    · have := ih (d + 1) (k + 1) s hs
      simp only [scopes]
      omega
  | cons first rest ihf ihr =>
    intro s hs
    rcases List.mem_append.1 hs with hs | hs
    · have := ihf d k s hs
      simp only [scopes]
      omega
    · have := ihr d (k + first.scopes) s hs
      simp only [scopes]
      omega

theorem StmtTree.nodup_scopes {p : StmtPart} (t : StmtTree p) (d k : Nat) :
    (StmtPart.scopesOf (t.meaning d k)).Nodup := by
  induction t generalizing d k with
  | assign | ret | brk | cont | test | nil => exact List.nodup_nil
  | ifThen _ _ _ _ _ ih | loop _ _ _ _ _ ih => exact ih (d + 1) k
  | ifElse _ _ _ _ yes _ no ihy ihn =>
    exact nodup_append_of_lt (ihy (d + 1) k) (ihn (d + 1) (k + yes.scopes))
      (fun s hs => (yes.scopes_bounds (d + 1) k s hs).2)
      (fun s hs => (no.scopes_bounds (d + 1) (k + yes.scopes) s hs).1)
  | braces _ body _ ih =>
    refine List.nodup_cons.2 ⟨fun hmem => ?_, ih (d + 1) (k + 1)⟩
    have hb := body.scopes_bounds (d + 1) (k + 1) _ hmem
    simp only at hb
    omega
  | cons first rest ihf ihr =>
    exact nodup_append_of_lt (ihf d k) (ihr d (k + first.scopes))
      (fun s hs => (first.scopes_bounds d k s hs).2)
      (fun s hs => (rest.scopes_bounds d (k + first.scopes) s hs).1)

theorem FunctionTree.scopes_bounds (f : FunctionTree) (d k : Nat) :
    ∀ s ∈ (f.meaning d k).scopes, k ≤ s.id ∧ s.id < k + f.scopes := by
  intro s hs
  rcases List.mem_cons.1 hs with rfl | hs
  · simp only [meaning, scopes]
    omega
  · have := f.body.scopes_bounds (d + 1) k s hs
    simp only [scopes]
    omega

theorem FunctionTree.nodup_scopes (f : FunctionTree) (d k : Nat) :
    (f.meaning d k).scopes.Nodup := by
  refine List.nodup_cons.2 ⟨fun hmem => ?_, f.body.nodup_scopes (d + 1) k⟩
  have hb := f.body.scopes_bounds (d + 1) k _ hmem
  simp only [meaning] at hb
  omega

namespace ItemTree

theorem statements_bounds (items : List ItemTree) (d k : Nat) :
    ∀ s ∈ Stmt.scopesAll (statements items d k), k ≤ s.id ∧ s.id < k + scopesAll items := by
  induction items generalizing k with
  | nil => simp [statements, Stmt.scopesAll]
  | cons item items ih =>
    cases item with
    | statement t =>
      intro s hs
      rcases List.mem_append.1 hs with hs | hs
      · have := t.scopes_bounds d k s hs
        simp only [scopesAll, scopes]
        omega
      · have := ih (k + t.scopes) s hs
        simp only [scopesAll, scopes]
        omega
    | function f =>
      intro s hs
      have := ih (k + f.scopes) s hs
      simp only [scopesAll, scopes]
      omega

theorem functions_bounds (items : List ItemTree) (d k : Nat) :
    ∀ f ∈ functions items d k, ∀ s ∈ f.scopes, k ≤ s.id ∧ s.id < k + scopesAll items := by
  induction items generalizing k with
  | nil => simp [functions]
  | cons item items ih =>
    cases item with
    | statement t =>
      intro f hf s hs
      have := ih (k + t.scopes) f hf s hs
      simp only [scopesAll, scopes]
      omega
    | function g =>
      intro f hf s hs
      rcases List.mem_cons.1 hf with rfl | hf
      · have := g.scopes_bounds d k s hs
        simp only [scopesAll, scopes]
        omega
      · have := ih (k + g.scopes) f hf s hs
        simp only [scopesAll, scopes]
        omega

theorem nodup_scopes (items : List ItemTree) (d k : Nat) :
    ((functions items d k).flatMap Function.scopes ++
      Stmt.scopesAll (statements items d k)).Nodup := by
  induction items generalizing k with
  | nil => exact List.nodup_nil
  | cons item items ih =>
    have hrest : ∀ s ∈ (functions items d (k + item.scopes)).flatMap Function.scopes ++
        Stmt.scopesAll (statements items d (k + item.scopes)), k + item.scopes ≤ s.id := by
      intro s hs
      rcases List.mem_append.1 hs with hs | hs
      · obtain ⟨f, hf, hs⟩ := List.mem_flatMap.1 hs
        exact (functions_bounds items d _ f hf s hs).1
      · exact (statements_bounds items d _ s hs).1
    cases item with
    | statement t =>
      have hall := nodup_append_of_lt (t.nodup_scopes d k) (ih _)
        (fun s hs => (t.scopes_bounds d k s hs).2) hrest
      exact (List.perm_append_comm_assoc ..).nodup hall
    | function g =>
      have hall := nodup_append_of_lt (g.nodup_scopes d k) (ih _)
        (fun s hs => (g.scopes_bounds d k s hs).2) hrest
      rwa [← List.append_assoc] at hall

end ItemTree

theorem ProgramTree.distinct (p : ProgramTree) : p.meaning.Distinct := by
  have hitems := ItemTree.nodup_scopes p.items 1 0
  have hlast : ∀ s ∈ (ItemTree.functions p.items 1 0).flatMap Function.scopes ++
      Stmt.scopesAll (ItemTree.statements p.items 1 0), s.id < ItemTree.scopesAll p.items := by
    intro s hs
    rcases List.mem_append.1 hs with hs | hs
    · obtain ⟨f, hf, hs⟩ := List.mem_flatMap.1 hs
      have hb := ItemTree.functions_bounds p.items 1 0 f hf s hs
      omega
    · have hb := ItemTree.statements_bounds p.items 1 0 s hs
      omega
  have hall := nodup_append_of_lt hitems (List.nodup_singleton ⟨ItemTree.scopesAll p.items⟩) hlast
    (by simp)
  rwa [List.append_assoc] at hall

theorem ProgramTree.apart (p : ProgramTree) : p.meaning.Apart := p.distinct.apart

end TinyScript
