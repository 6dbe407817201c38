import TinyScript.Proofs.Places
import TinyScript.Proofs.Typing.Parts
import TinyScript.Proofs.Typing.Shadowing
import TinyScript.Proofs.Walk.Writes

/-! What is known while scopes are filled. Some active scope has a name iff the name was given to
one of them, as to a function its parameters are, or assigned to in one of them before. A block
therefore gets those of the names assigned to in it that were not known around it when the walk came
to it. -/

namespace TinyScript

namespace Scopes

variable {m m' : Scopes} {s t : Scope} {name x : String} {type : DataType}

theorem Enters.has_iff (h : m.Enters s name type m') :
    m'.Has t x ↔ m.Has t x ∨ t = s ∧ x = name := by
  unfold Has
  rw [h.symbol]
  split <;> simp_all

/-- Some active scope has a name iff the name was given to one of them or written in one of them
before. -/
def Tracks (given : Scope → String → Prop) (m : Scopes) (active : List Scope)
    (past : List (Scope × String)) : Prop :=
  ∀ x, (∃ s ∈ active, m.Has s x) ↔ ∃ s ∈ active, given s x ∨ (s, x) ∈ past

theorem Tracks.none_iff {given : Scope → String → Prop} {active : List Scope}
    {past : List (Scope × String)} (h : m.Tracks given active past) (x : String) :
    (∀ s ∈ active, ¬ m.Has s x) ↔ ∀ s ∈ active, ¬ given s x ∧ (s, x) ∉ past := by
  have hnone := not_congr (h x)
  simpa only [not_exists, not_and, not_or] using hnone

end Scopes

namespace Declared

theorem has_assign {d : Declared} (h : d.scopes.Clean) {c : Context} {s : Scope}
    (hs : c.active.head? = some s) (name : String) (type : DataType) (t : Scope) (x : String) :
    (d.assign c name type).scopes.Has t x ↔
      d.scopes.Has t x ∨ t = s ∧ x = name ∧ ∀ u ∈ c.active, ¬ d.scopes.Has u name := by
  generalize hd' : d.assign c name type = d'
  have hassigns := d.assigns c name type
  rw [hd'] at hassigns
  cases hassigns with
  | refused hu hp => simp [h _] at hp
  | nowhere hactive => simp [hactive] at hs
  | kept hu hsymbol hkept =>
    have hhas := Scopes.has_of_symbol hsymbol
    grind
  | refined hu hsymbol hunknown henters =>
    have hhas := Scopes.has_of_symbol hsymbol
    rw [henters.has_iff]
    grind
  | declared hactive hnone henters =>
    rw [hactive] at hs
    obtain rfl := Option.some.inj hs
    rw [henters.has_iff]
    grind

end Declared

/-- A block has the names that its statements assign to, but for those that were given to a scope
around it, or written in one before they were first written in the block. -/
def Scopes.Gets (given : Scope → String → Prop) (m : Scopes) (log : List (Scope × String))
    (b : Block) (around : List Scope) : Prop :=
  ∀ x, m.Has b.scope x ↔ x ∈ targets b.statements ∧
    ∀ s ∈ around, ¬ given s x ∧ (s, x) ∉ upTo (b.scope, x) log

namespace Declared

structure Awaits (given : Scope → String → Prop) (c : Context) (ss : List Scope)
    (past : List (Scope × String)) (d : Declared) : Prop extends Opens c ss d where
  tracks : d.scopes.Tracks given c.active past
  unwritten : ∀ s ∈ ss, ∀ x, (s, x) ∉ past

/-- A part with the scopes `ss` and the nodes `sites` was done after the writes `past`. -/
structure Records (given : Scope → String → Prop) (c : Context) (ss : List Scope)
    (sites : List Visit) (past : List (Scope × String)) (d d' : Declared) : Prop
    extends Does c ss d d' where
  tracks : d'.scopes.Tracks given c.active (past ++ writesAt sites)
  own : ∀ s x, (s, x) ∈ writesAt sites → s ∈ ss ∨ c.active.head? = some s
  blocks : ∀ b around, ⟨.block b, around⟩ ∈ sites →
    b.scope ∈ ss ∧ (∀ x ∈ targets b.statements, (b.scope, x) ∈ writesAt sites) ∧
      d'.scopes.Gets given (past ++ writesAt sites) b around

variable {given : Scope → String → Prop} {c : Context} {s : Scope} {ss ss' : List Scope}
  {sites sites' : List Visit} {past : List (Scope × String)} {d d' d'' : Declared}

theorem Awaits.left (h : Awaits given c (ss ++ ss') past d) : Awaits given c ss past d where
  toOpens := h.toOpens.left
  tracks := h.tracks
  unwritten s hs := h.unwritten s (List.mem_append_left _ hs)

theorem Awaits.right (h : Awaits given c (ss ++ ss') past d)
    (hfirst : Records given c ss sites past d d') :
    Awaits given c ss' (past ++ writesAt sites) d' where
  toOpens := h.toOpens.right hfirst.toDoes
  tracks := hfirst.tracks
  unwritten s hs x hmem := by
    have hnot := (notMem_of_nodup h.nodup).2 s hs
    rcases List.mem_append.1 hmem with hmem | hmem
    · exact h.unwritten s (List.mem_append_right _ hs) x hmem
    · rcases hfirst.own s x hmem with hs | hhead
      · exact hnot (List.mem_append_right _ hs)
      · exact hnot (List.mem_append_left _ (List.mem_of_mem_head? hhead))

theorem Awaits.enter (h : Awaits given c (s :: ss) past d) (hgiven : ∀ x, ¬ given s x) :
    Awaits given (c.enter s) ss past d where
  toOpens := h.toOpens.enter
  tracks x := by
    have hempty : ¬ d.scopes.Has s x := Scopes.not_has_of_get (h.empty s List.mem_cons_self)
    have hpast := h.unwritten s List.mem_cons_self x
    simp only [Context.enter, List.mem_cons, exists_eq_or_imp, hempty, hgiven, hpast, or_self,
      false_or]
    exact h.tracks x
  unwritten t ht := h.unwritten t (List.mem_cons_of_mem s ht)

namespace Records

theorem idle (h : Awaits given c ss past d) (hidle : ∀ v ∈ sites, v.Idle) :
    Records given c [] sites past d d where
  runs := .refl
  same _ _ := rfl
  tracks := by
    rw [writesAt_eq_nil hidle, List.append_nil]
    exact h.tracks
  own s x hmem := by
    rw [writesAt_eq_nil hidle] at hmem
    cases hmem
  blocks b around hmem := absurd rfl ((hidle _ hmem).2 b)

theorem lead {idles : List Visit} (h : Records given c ss sites past d d')
    (hidle : ∀ v ∈ idles, v.Idle) : Records given c ss (idles ++ sites) past d d' := by
  have hwrites : writesAt (idles ++ sites) = writesAt sites := by
    rw [writesAt_append, writesAt_eq_nil hidle, List.nil_append]
  refine ⟨h.toDoes, by rw [hwrites]; exact h.tracks, by rw [hwrites]; exact h.own, ?_⟩
  intro b around hmem
  rw [hwrites]
  rcases List.mem_append.1 hmem with hmem | hmem
  · exact absurd rfl ((hidle _ hmem).2 b)
  · exact h.blocks b around hmem

theorem append (h : Awaits given c (ss ++ ss') past d) (hfirst : Records given c ss sites past d d')
    (hsecond : Awaits given c ss' (past ++ writesAt sites) d' →
      Records given c ss' sites' (past ++ writesAt sites) d' d'') :
    Records given c (ss ++ ss') (sites ++ sites') past d d'' := by
  have hsecond := hsecond (h.right hfirst)
  refine ⟨hfirst.toDoes.append hsecond.toDoes, ?_, ?_, ?_⟩
  · rw [writesAt_append, ← List.append_assoc]
    exact hsecond.tracks
  · intro s x hmem
    rw [writesAt_append, List.mem_append] at hmem
    rcases hmem with hmem | hmem
    · exact (hfirst.own s x hmem).imp_left (List.mem_append_left _)
    · exact (hsecond.own s x hmem).imp_left (List.mem_append_right _)
  · intro b around hmem
    rw [writesAt_append, ← List.append_assoc]
    rcases List.mem_append.1 hmem with hmem | hmem
    · obtain ⟨hscope, hwritten, hgets⟩ := hfirst.blocks b around hmem
      have hsame := hsecond.same b.scope ((notMem_of_nodup h.nodup).1 b.scope hscope)
      refine ⟨List.mem_append_left _ hscope, fun x hx => List.mem_append_left _ (hwritten x hx),
        fun x => ?_⟩
      rw [Scopes.has_congr hsame, hgets x]
      refine and_congr_right fun hx => ?_
      have hlog : (b.scope, x) ∈ past ++ writesAt sites :=
        List.mem_append_right _ (hwritten x hx)
      rw [upTo_append_of_mem hlog]
    · obtain ⟨hscope, hwritten, hgets⟩ := hsecond.blocks b around hmem
      exact ⟨List.mem_append_right _ hscope, fun x hx => List.mem_append_right _ (hwritten x hx),
        hgets⟩

theorem assign (h : Awaits given c [] past d) (name : String) (type : DataType)
    (hblocks : ∀ b around, ⟨.block b, around⟩ ∉ sites)
    (hwrites : writesAt sites = (c.active.head?.map (·, name)).toList) :
    Records given c [] sites past d (d.assign c name type) where
  runs := .single (.assign d (List.suffix_refl _) h.active name type)
  same := by
    rw [List.append_nil]
    exact (fills_assign h.clean c name type).same
  tracks x := by
    rw [hwrites]
    cases hactive : c.active with
    | nil => simp
    | cons s rest =>
      have hhead : c.active.head? = some s := by rw [hactive, List.head?_cons]
      have htracks := h.tracks x
      simp only [has_assign h.clean hhead, hactive, List.head?_cons, Option.map_some,
        Option.toList_some, List.mem_append, List.mem_singleton, Prod.mk.injEq] at htracks ⊢
      grind
  own s x hmem := by
    rw [hwrites, Option.mem_toList, Option.map_eq_some_iff] at hmem
    obtain ⟨t, ht, heq⟩ := hmem
    obtain ⟨rfl, -⟩ := Prod.mk.inj heq
    exact .inr ht
  blocks b around hmem := absurd hmem (hblocks b around)

end Records

section block

variable {depth : Nat} {scope : Scope} {statements : List Stmt}

theorem Runs.has_iff {around : List Scope} (h : Runs (s :: around) d d')
    (hnodup : (s :: around).Nodup) {t : Scope} (ht : t ∈ around) (x : String) :
    d'.scopes.Has t x ↔ d.scopes.Has t x := ⟨h.has_tail hnodup ht, h.refines.has⟩

theorem Records.has_own_iff (h : Awaits given c (Block.mk depth scope statements).scopes past d)
    (hgiven : ∀ x, ¬ given scope x)
    (hin : Records given (c.enter scope) (Stmt.scopesAll statements)
      (Stmt.sitesAll (scope :: c.active) statements) past d d') (x : String) :
    d'.scopes.Has scope x ↔ x ∈ targets statements ∧ ∀ t ∈ c.active, ¬ d.scopes.Has t x := by
  have hnodup : (scope :: c.active).Nodup := (h.enter hgiven).active
  have hwrite := Block.write_mem_iff h.nodup x
  have htracks := hin.tracks x
  constructor
  · intro hhas
    have hnone : ∀ t ∈ c.active, ¬ d.scopes.Has t x := by
      intro t ht hhas'
      have hhidden := (List.pairwise_cons.1 hin.runs.later.hidden).1 t ht x hhas'
      exact hhidden (Scopes.not_has_of_get (h.empty scope List.mem_cons_self)) hhas
    refine ⟨?_, hnone⟩
    obtain ⟨t, ht, hknown⟩ := htracks.1 ⟨scope, List.mem_cons_self, hhas⟩
    rw [List.mem_append] at hknown
    rcases List.mem_cons.1 ht with rfl | ht
    · have hlater := hknown.resolve_left (hgiven x)
      exact hwrite.1 (hlater.resolve_left (h.unwritten t List.mem_cons_self x))
    · have hwrites := Block.write_notMem h.nodup ht x
      rw [Block.writesAt_sites] at hwrites
      have houter : given t x ∨ (t, x) ∈ past := hknown.imp_right fun h => h.resolve_right hwrites
      obtain ⟨u, hu, hhas'⟩ := (h.tracks x).2 ⟨t, ht, houter⟩
      exact absurd hhas' (hnone u hu)
  · rintro ⟨hx, hnone⟩
    have hmem : (scope, x) ∈ past ++ writesAt (Stmt.sitesAll (scope :: c.active) statements) :=
      List.mem_append_right _ (hwrite.2 hx)
    obtain ⟨t, ht, hhas⟩ := htracks.2 ⟨scope, List.mem_cons_self, .inr hmem⟩
    rcases List.mem_cons.1 ht with rfl | ht
    · exact hhas
    · exact absurd ((hin.runs.has_iff hnodup ht x).1 hhas) (hnone t ht)

theorem Records.block (h : Awaits given c (Block.mk depth scope statements).scopes past d)
    (hgiven : ∀ x, ¬ given scope x)
    (hin : Records given (c.enter scope) (Stmt.scopesAll statements)
      (Stmt.sitesAll (scope :: c.active) statements) past d d')
    (hdoes : Does c (Block.mk depth scope statements).scopes d d') :
    Records given c (Block.mk depth scope statements).scopes
      ((Block.mk depth scope statements).sites c.active) past d d' := by
  have hnodup : (scope :: c.active).Nodup := (h.enter hgiven).active
  have hwrites := fun t (ht : t ∈ c.active) => Block.write_notMem h.nodup ht
  have htracks : d'.scopes.Tracks given c.active
      (past ++ writesAt ((Block.mk depth scope statements).sites c.active)) := by
    intro x
    have hhas : (∃ t ∈ c.active, d'.scopes.Has t x) ↔ ∃ t ∈ c.active, d.scopes.Has t x :=
      exists_congr fun t => and_congr_right fun ht => hin.runs.has_iff hnodup ht x
    rw [hhas, h.tracks x]
    refine exists_congr fun t => and_congr_right fun ht => ?_
    rw [List.mem_append, or_iff_left (hwrites t ht x)]
  refine ⟨hdoes, htracks, fun t x hmem => .inl (Block.mem_writesAt _ _ hmem), ?_⟩
  intro b around hmem
  rcases List.mem_cons.1 hmem with heq | hmem
  · obtain ⟨hb, rfl⟩ := Visit.mk.inj heq
    obtain rfl := Place.block.inj hb
    refine ⟨List.mem_cons_self, fun x => (Block.write_mem_iff h.nodup x).2, fun x => ?_⟩
    rw [Block.scope, Records.has_own_iff h hgiven hin x]
    refine and_congr_right fun _ => ?_
    -- the block's first write of the name comes after `past`, and it writes nothing around it
    have hpast := h.unwritten scope List.mem_cons_self x
    rw [h.tracks.none_iff x, upTo_append_of_notMem hpast]
    refine forall₂_congr fun t ht => and_congr_right' (not_congr ?_)
    rw [List.mem_append]
    exact (or_iff_left fun hmem => hwrites t ht x (upTo_subset _ _ hmem)).symm
  · obtain ⟨hscope, hin⟩ := hin.blocks b around hmem
    exact ⟨List.mem_cons_of_mem scope hscope, hin⟩

end block

end Declared

open Declared (Awaits Records)

variable {given : Scope → String → Prop}

mutual

theorem Stmt.records_declare (s : Stmt) {c : Context} {past : List (Scope × String)} {d : Declared}
    (h : Awaits given c s.scopes past d) (hgiven : ∀ t ∈ s.scopes, ∀ x, ¬ given t x) :
    Records given c s.scopes (s.sites c.active) past d (s.declare c d) := by
  have hidle := fun e : Expr => e.idle_sites c.active
  cases s with
  | assign depth target value =>
    have hparts := List.forall_mem_append.2 ⟨hidle value, hidle target⟩
    cases target with
    | var tag name =>
      refine Records.assign h name _ ?_ ?_
      · intro b around hmem
        have hvisits := (List.mem_cons.1 hmem).resolve_left (by simp)
        exact (hparts _ hvisits).2 b rfl
      · simp [Stmt.sites, Visit.write?, Stmt.targetName?]
    | _ => exact .idle h (List.forall_mem_cons.2 ⟨Stmt.idle_visit rfl _, hparts⟩)
  | ifThen depth condition yes =>
    exact (yes.records_declare h hgiven).lead
      (List.forall_mem_cons.2 ⟨Stmt.idle_visit rfl _, hidle condition⟩)
  | ifElse depth condition yes no =>
    obtain ⟨hgivenYes, hgivenNo⟩ := List.forall_mem_append.1 hgiven
    have hyes := yes.records_declare (Awaits.left h) hgivenYes
    exact (Records.append h hyes fun hno => no.records_declare hno hgivenNo).lead
      (List.forall_mem_cons.2 ⟨Stmt.idle_visit rfl _, hidle condition⟩)
  | loop depth guard body =>
    exact (body.records_declare h hgiven).lead
      (List.forall_mem_cons.2 ⟨Stmt.idle_visit rfl _, hidle guard⟩)
  | ret depth value =>
    exact .idle h (List.forall_mem_cons.2 ⟨Stmt.idle_visit rfl _, hidle value⟩)
  | brk depth => exact .idle h (List.forall_mem_singleton.2 (Stmt.idle_visit rfl _))
  | cont depth => exact .idle h (List.forall_mem_singleton.2 (Stmt.idle_visit rfl _))
  | test depth call expected =>
    exact .idle h (List.forall_mem_cons.2 ⟨Stmt.idle_visit rfl _,
      List.forall_mem_append.2 ⟨hidle call, hidle expected⟩⟩)

theorem Block.records_declare (b : Block) {c : Context} {past : List (Scope × String)}
    {d : Declared} (h : Awaits given c b.scopes past d)
    (hgiven : ∀ t ∈ b.scopes, ∀ x, ¬ given t x) :
    Records given c b.scopes (b.sites c.active) past d (b.declare c d) := by
  cases b with
  | mk depth scope statements =>
    obtain ⟨hscope, hinner⟩ := List.forall_mem_cons.1 hgiven
    have hstatements := Stmt.records_declareAll statements (Awaits.enter h hscope) hinner
    exact .block h hscope hstatements (Block.does_declare h.toOpens)

theorem Stmt.records_declareAll (ss : List Stmt) {c : Context} {past : List (Scope × String)}
    {d : Declared} (h : Awaits given c (Stmt.scopesAll ss) past d)
    (hgiven : ∀ t ∈ Stmt.scopesAll ss, ∀ x, ¬ given t x) :
    Records given c (Stmt.scopesAll ss) (Stmt.sitesAll c.active ss) past d
      (Stmt.declareAll c ss d) := by
  cases ss with
  | nil => exact .idle h (List.forall_mem_nil _)
  | cons s ss =>
    obtain ⟨hgivenFirst, hgivenRest⟩ := List.forall_mem_append.1 hgiven
    have hfirst := s.records_declare (Awaits.left h) hgivenFirst
    exact Records.append h hfirst fun hss => Stmt.records_declareAll ss hss hgivenRest

end

end TinyScript
