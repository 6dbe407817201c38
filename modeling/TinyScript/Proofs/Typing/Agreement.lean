import Mathlib.Data.List.Forall2
import TinyScript.Proofs.Typing.Assignments
import TinyScript.Proofs.Typing.Parts
import TinyScript.Proofs.Typing.Shadowing

/-! Types are told twice: that of an assigned value when scopes are filled, from what they contain
by then, and that of every expression at the end. An assignment that declares its name gives it the
type of its value, and the value has that type in the end, unless the type was that of a variable of
the program which a parameter hides that finds its own type later. -/

namespace TinyScript

open Declared (Runs Does Opens)

/-- A part with the scopes `ss` is over: they are as they are in the end, when the scopes contain
`m`. -/
structure Declared.Closes (m : Scopes) (c : Context) (ss : List Scope) (d : Declared) : Prop where
  later : d.scopes.Later c.active m
  same : ∀ s ∈ ss, m.get s = d.scopes.get s

namespace Declared.Closes

variable {m : Scopes} {c : Context} {ss ss' : List Scope} {d d' : Declared} {s : Scope}

theorem right (h : Closes m c (ss ++ ss') d) : Closes m c ss' d :=
  ⟨h.later, fun s hs => h.same s (List.mem_append_right _ hs)⟩

theorem left (h : Closes m c (ss ++ ss') d') (hnodup : (ss ++ ss' ++ c.active).Nodup)
    (hd : Does c ss' d d') : Closes m c ss d where
  later := hd.runs.later.trans h.later
  same s hs := by
    rw [h.same s (List.mem_append_left _ hs), hd.same s ((notMem_of_nodup hnodup).1 s hs)]

theorem enter (h : Closes m c (s :: ss) d) : Closes m (c.enter s) ss d :=
  ⟨h.later.enter (h.same s List.mem_cons_self), fun t ht => h.same t (List.mem_cons_of_mem s ht)⟩

end Declared.Closes

open Declared (Closes)

/-- Where an assignment stands: in which function, within which scopes, and between what there was
when these became active and what there is in the end. -/
structure Assigning.Stands (f : Option Function) (m : Scopes) (around : List Scope) (d : Declared)
    (a : Assigning) : Prop where
  function : a.function? = f
  within : around <:+ a.context.active
  nodup : a.context.active.Nodup
  runs : Runs around d a.before
  layered : a.before.scopes.Layered (f.map Function.scope) a.context.active
  later : a.before.scopes.Later a.context.active m

namespace Assigning.Stands

variable {f : Option Function} {m : Scopes} {around : List Scope} {s : Scope} {d d' : Declared}
  {a : Assigning}

theorem leave (h : Stands f m (s :: around) d a) : Stands f m around d a :=
  { h with
    within := (List.suffix_cons _ _).trans h.within
    runs := h.runs.mono (List.suffix_cons _ _) }

theorem of_runs (h : Stands f m around d' a) (hd : Runs around d d') : Stands f m around d a :=
  { h with runs := hd.trans h.runs }

end Assigning.Stands

open Assigning (Stands)

mutual

theorem Stmt.stands_assigning (s : Stmt) {f : Option Function} {m : Scopes} {c : Context}
    {d : Declared} (hopens : Opens c s.scopes d)
    (hlayered : d.scopes.Layered (f.map Function.scope) c.active)
    (hcloses : Closes m c s.scopes (s.declare c d)) :
    ∀ a ∈ s.assigning f c d, Stands f m c.active d a := by
  cases s with
  | assign depth target value =>
    cases target with
    | var tag name =>
      have hruns := (Stmt.does_declare hopens).runs
      intro a ha
      obtain rfl := List.mem_singleton.1 ha
      exact ⟨rfl, List.suffix_refl _, hopens.nodup, .refl, hlayered,
        hruns.later.trans hcloses.later⟩
    | _ => exact List.forall_mem_nil _
  | ifThen depth condition yes =>
    exact fun a ha => (yes.stands_assigning hopens hlayered hcloses a ha).leave
  | ifElse depth condition yes no =>
    have hyes := Block.does_declare hopens.left
    have hopensNo := hopens.right hyes
    have hclosesYes := hcloses.left hopens.nodup (Block.does_declare hopensNo)
    have hlayeredNo := hyes.runs.layered hopens.active hlayered
    intro a ha
    rcases List.mem_append.1 ha with ha | ha
    · exact (yes.stands_assigning hopens.left hlayered hclosesYes a ha).leave
    · exact (no.stands_assigning hopensNo hlayeredNo hcloses.right a ha).leave.of_runs hyes.runs
  | loop depth guard body =>
    exact fun a ha => (body.stands_assigning hopens hlayered hcloses a ha).leave
  | ret _ _ | brk _ | cont _ | test _ _ _ => exact List.forall_mem_nil _

theorem Block.stands_assigning (b : Block) {f : Option Function} {m : Scopes} {c : Context}
    {d : Declared} (hopens : Opens c b.scopes d)
    (hlayered : d.scopes.Layered (f.map Function.scope) c.active)
    (hcloses : Closes m c b.scopes (b.declare c d)) :
    ∀ a ∈ b.assigning f c d, Stands f m (b.scope :: c.active) d a := by
  cases b with
  | mk depth scope statements =>
    have hempty := hopens.empty scope List.mem_cons_self
    exact Stmt.stands_assigningAll statements hopens.enter (hlayered.enter (.inl hempty))
      hcloses.enter

theorem Stmt.stands_assigningAll (ss : List Stmt) {f : Option Function} {m : Scopes}
    {c : Context} {d : Declared} (hopens : Opens c (Stmt.scopesAll ss) d)
    (hlayered : d.scopes.Layered (f.map Function.scope) c.active)
    (hcloses : Closes m c (Stmt.scopesAll ss) (Stmt.declareAll c ss d)) :
    ∀ a ∈ Stmt.assigningAll f c ss d, Stands f m c.active d a := by
  cases ss with
  | nil => exact List.forall_mem_nil _
  | cons s ss =>
    have hs := Stmt.does_declare hopens.left
    have hopensRest := hopens.right hs
    have hclosesFirst := hcloses.left hopens.nodup (Stmt.does_declareAll hopensRest)
    have hlayeredRest := hs.runs.layered hopens.active hlayered
    intro a ha
    rcases List.mem_append.1 ha with ha | ha
    · exact s.stands_assigning hopens.left hlayered hclosesFirst a ha
    · exact (Stmt.stands_assigningAll ss hopensRest hlayeredRest hcloses.right a ha).of_runs hs.runs

end

namespace Function

variable {m : Scopes} {c : Context} {d : Declared} {s : Scope}

theorem stands_assigning {f : Function} (hopens : Opens c f.scopes d)
    (hlayered : d.scopes.Layered (some f.scope) c.active)
    (hcloses : Closes m c f.scopes (f.declare c d)) :
    ∀ a ∈ f.assigning c d, Stands (some f) m (f.body.scope :: f.scope :: c.active)
      (d.declareParameters f.scope f.parameters) a := by
  have hbody := opens_body hopens
  have hparameters := (does_declareParameters hopens).runs.layered hopens.active hlayered
  have hclean := (Block.does_declare hbody).runs.refines.clean hbody.clean
  have hwithin : f.declare c d = f.within c d := Declared.settleAll_snd hclean _ _
  rw [hwithin] at hcloses
  exact f.body.stands_assigning hbody (hparameters.enter (.inr rfl)) hcloses.enter

theorem stands_assigningAll (fs : List Function) (hc : c.active = [s])
    (hopens : Opens c (fs.flatMap scopes) d)
    (hcloses : Closes m c (fs.flatMap scopes) (declareAll c fs d)) :
    ∀ a ∈ assigningAll c fs d, ∃ f ∈ fs, ∃ d', Opens c f.scopes d' ∧
      Stands (some f) m (f.body.scope :: f.scope :: c.active)
        (d'.declareParameters f.scope f.parameters) a := by
  induction fs generalizing d with
  | nil => exact List.forall_mem_nil _
  | cons f fs ih =>
    have hfirst : Opens c f.scopes d := Opens.left hopens
    have hf := does_declare hfirst
    have hrest := Opens.right hopens hf
    have hclosesFirst := Closes.left hcloses hopens.nodup (does_declareAll hrest)
    have hlayered : d.scopes.Layered (some f.scope) c.active := hc ▸ List.pairwise_singleton _ _
    intro a ha
    rcases List.mem_append.1 ha with ha | ha
    · exact ⟨f, List.mem_cons_self, d, hfirst, stands_assigning hfirst hlayered hclosesFirst a ha⟩
    · obtain ⟨g, hg, hstands⟩ := ih hrest (Closes.right hcloses) a ha
      exact ⟨g, List.mem_cons_of_mem f hg, hstands⟩

end Function

theorem Program.stands_assigning {p : Program} (hp : p.Distinct) :
    ∀ a ∈ p.assigning, Stands none p.filled.scopes [p.scope] ⟨{}, []⟩ a ∨
      ∃ f ∈ p.functions, ∃ d, Opens ((Context.ofProgram p).enter p.scope) f.scopes d ∧
        Stands (some f) p.filled.scopes [f.body.scope, f.scope, p.scope]
          (d.declareParameters f.scope f.parameters) a := by
  let c := (Context.ofProgram p).enter p.scope
  let ss := Stmt.scopesAll p.statements ++ p.functions.flatMap Function.scopes
  have hopens := hp.opens
  have hcloses : Closes p.filled.scopes c ss p.filled := ⟨.refl _ _, fun _ _ => rfl⟩
  have hfunctions := hopens.right (Stmt.does_declareAll hopens.left)
  have hclosesFirst := hcloses.left hopens.nodup (Function.does_declareAll hfunctions)
  intro a ha
  rcases List.mem_append.1 ha with ha | ha
  · exact .inl (Stmt.stands_assigningAll p.statements hopens.left (List.pairwise_singleton _ _)
      hclosesFirst a ha)
  · exact .inr (Function.stands_assigningAll p.functions rfl hfunctions hcloses.right a ha)

/-- The variable that an expression has its type from, if it is from one. -/
def Expr.leading? : Expr → Option String
  | .binary tag _ left _ => if tag.type.isKnown then none else left.leading?
  | .unary tag _ operand => if tag.type.isKnown then none else operand.leading?
  | .var tag name => if tag.type.isKnown then none else some name
  | .literal .. | .call .. => none

theorem DataType.orElse_elim (t u : DataType) (visible : String → DataType)
    (leading : Option String) : t.orElse (leading.elim u visible) =
      (if t.isKnown then none else leading).elim (t.orElse u) visible := by
  unfold orElse
  split <;> rfl

theorem Expr.inferred_eq (returns visible : String → DataType) (e : Expr) :
    e.inferred returns visible =
      e.leading?.elim (e.inferred returns fun _ => .unknown) visible := by
  cases e with
  | binary tag operator left right =>
    rw [inferred, left.inferred_eq returns visible, DataType.orElse_elim]
    rfl
  | unary tag operator operand =>
    rw [inferred, operand.inferred_eq returns visible, DataType.orElse_elim]
    rfl
  | var tag name => exact DataType.orElse_elim tag.type .unknown visible (some name)
  | literal tag value => rfl
  | call tag name arguments => rfl

/-- The value of an assignment had its type from a variable of the program, while the function in
which it stands had a parameter of that name, without a type; in the end this parameter has the type
`type'`. -/
def Program.Overtaken (p : Program) (m : Scopes) (a : Assigning) (type type' : DataType) : Prop :=
  ∃ f ∈ a.function?, ∃ q ∈ f.parameters, q.type = .unknown ∧ a.value.leading? = some q.name ∧
    a.before.scopes.symbol? f.scope q.name = some ⟨q.name, .unknown⟩ ∧
    a.before.scopes.symbol? p.scope q.name = some ⟨q.name, type⟩ ∧
    m.symbol? f.scope q.name = some ⟨q.name, type'⟩ ∧ type' ≠ .unknown

namespace Assigning.Stands

variable {m : Scopes} {around : List Scope} {d : Declared} {a : Assigning} {type type' : DataType}

theorem type_eq_iff {f : Option Function} (h : Stands f m around d a) (hd : d.scopes.Clean)
    (hintroduces : a.introduces? = some type) (hk : type ≠ .unknown) (hne : type' ≠ type) :
    (a.typed m).2.type = type' ↔ ∃ name s, a.value.leading? = some name ∧
      f.map Function.scope = some s ∧
      a.before.scopes.Overtakes a.context.active name type m s type' := by
  have hclean := h.runs.refines.clean hd
  have htype := a.eq_resolve_of_introduces hintroduces
  rw [Context.resolve_eq, Expr.inferred_eq] at htype
  rw [typed, Expr.type_typed, Expr.inferred_eq]
  cases hleading : a.value.leading? with
  | none =>
    -- a type that is from no variable is the same both times
    rw [hleading, Option.elim_none] at htype
    simpa [← htype] using hne.symm
  | some name =>
    rw [hleading] at htype
    simp only [Option.elim_some] at htype ⊢
    constructor
    · rintro rfl
      rcases h.later.visibleType_cases hclean h.layered (htype ▸ hk) with heq | ⟨s, hs, hovertakes⟩
      · exact absurd (heq.trans htype.symm) hne
      · exact ⟨name, s, rfl, hs, htype ▸ hovertakes⟩
    · rintro ⟨other, s, hname, hs, hovertakes⟩
      obtain rfl : name = other := Option.some.inj hname
      obtain ⟨rest, hrest, -⟩ := hovertakes.outer
      exact h.later.visibleType_of_overtakes hclean (hs ▸ h.layered)
        (hrest.subset List.mem_cons_self) (Scopes.has_of_symbol hovertakes.before)
        hovertakes.after hovertakes.known

end Assigning.Stands

theorem tail_eq_of_suffix {s : Scope} {ss ss' around : List Scope} (hnodup : around.Nodup)
    (h : s :: ss <:+ around) (h' : s :: ss' <:+ around) : ss = ss' := by
  have hshort : ∀ {us us'}, s :: us' <:+ around → s :: us <:+ s :: us' → us = us' := by
    intro us us' hus' hus
    rcases List.suffix_cons_iff.1 hus with heq | hsuffix
    · exact (List.cons.inj heq).2
    · have hnot := (List.nodup_cons.1 (hnodup.sublist hus'.sublist)).1
      exact absurd (hsuffix.subset List.mem_cons_self) hnot
  rcases List.suffix_or_suffix_of_suffix h h' with hss | hss
  · exact hshort h' hss
  · exact (hshort h hss).symm

theorem Function.exists_parameter {f : Function} {c : Context} {b : Scope} {around : List Scope}
    {d d' : Declared} {name : String} (hopens : Opens c f.scopes d)
    (hruns : Runs (b :: f.scope :: around) (d.declareParameters f.scope f.parameters) d')
    (hnodup : (b :: f.scope :: around).Nodup)
    (hsymbol : d'.scopes.symbol? f.scope name = some ⟨name, .unknown⟩) :
    ∃ q ∈ f.parameters, q.name = name ∧ q.type = .unknown := by
  have hhas := hruns.has_tail hnodup List.mem_cons_self (Scopes.has_of_symbol hsymbol)
  obtain ⟨symbol, hfirst⟩ := Option.ne_none_iff_exists'.1 hhas
  have hparameter := Declared.symbol_declareParameters (hopens.clean f.scope) f.parameters name
  have hempty : d.scopes.symbol? f.scope name = none :=
    not_not.1 (Scopes.not_has_of_get (hopens.empty f.scope List.mem_cons_self))
  rw [hempty, Option.none_or, hfirst] at hparameter
  obtain ⟨q, hq, rfl⟩ := Option.map_eq_some_iff.1 hparameter.symm
  refine ⟨q, List.mem_of_find?_eq_some hq, by simpa using List.find?_some hq, ?_⟩
  by_contra hk
  obtain ⟨symbol', hsymbol', hkept⟩ := hruns.refines.symbol _ _ _ hfirst
  have heq := Option.some.inj (hsymbol'.symm.trans hsymbol)
  exact hk (congrArg Symbol.type ((hkept hk).symm.trans heq))

theorem Program.type_eq_iff_overtaken {p : Program} (hp : p.Distinct) {a : Assigning}
    (ha : a ∈ p.assigning) {type type' : DataType} (hintroduces : a.introduces? = some type)
    (hk : type ≠ .unknown) (hne : type' ≠ type) :
    (a.typed p.filled.scopes).2.type = type' ↔ p.Overtaken p.filled.scopes a type type' := by
  rcases p.stands_assigning hp a ha with hstands | ⟨f, -, d, hopens, hstands⟩
  · rw [hstands.type_eq_iff (fun _ => rfl) hintroduces hk hne]
    simp [Overtaken, hstands.function]
  · have hsuffix : [f.scope, p.scope] <:+ a.context.active :=
      (List.suffix_cons _ _).trans hstands.within
    rw [hstands.type_eq_iff (Function.opens_body hopens).clean hintroduces hk hne]
    constructor
    · rintro ⟨name, s, hleading, hs, hovertakes⟩
      obtain rfl : f.scope = s := Option.some.inj hs
      obtain ⟨rest, hrest, t, ht, houter⟩ := hovertakes.outer
      -- around the scope of the function there is that of the program only
      obtain rfl := tail_eq_of_suffix hstands.nodup hrest hsuffix
      obtain rfl := List.mem_singleton.1 ht
      obtain ⟨q, hq, rfl, hunknown⟩ := Function.exists_parameter hopens hstands.runs
        (hstands.nodup.sublist hstands.within.sublist) hovertakes.before
      exact ⟨f, hstands.function, q, hq, hunknown, hleading, hovertakes.before, houter,
        hovertakes.after, hovertakes.known⟩
    · rintro ⟨g, hg, q, -, -, hleading, hbefore, houter, hafter, hknown⟩
      obtain rfl : f = g := Option.some.inj (hstands.function.symm.trans hg)
      exact ⟨q.name, f.scope, hleading, rfl, hbefore,
        ⟨[p.scope], hsuffix, p.scope, List.mem_singleton_self _, houter⟩, hafter, hknown⟩

/-- An assignment as it was `made` when scopes were filled and as it is `kept` in the end: if it
declared its name with a known type, its value is of another type exactly if it was overtaken. -/
def Program.Agrees (p : Program) (m : Scopes) (made : Assigning) (kept : String × Expr) : Prop :=
  kept.1 = made.name ∧ ∀ type type', made.introduces? = some type → type ≠ .unknown →
    type' ≠ type → (kept.2.type = type' ↔ p.Overtaken m made type type')

/-- In every accepted text, the value of an assignment that declares its name with a known type has
that type in the end, unless a parameter overtakes it and gives it its own. -/
theorem introduced_types_agree (settings : Settings) {source : String} {p : Program} {a : Analysis}
    (hread : readProgram source settings.fileName = .ok p) (hok : analyze source settings = .ok a) :
    List.Forall₂ (p.Agrees a.scopes) p.assigning a.program.assignments := by
  obtain ⟨q, hread', hdistinct, -, rfl⟩ := analyze_eq_ok hok
  obtain rfl : p = q := Except.ok.inj (hread.symm.trans hread')
  rw [p.assignments_analysis, List.forall₂_map_right_iff, List.forall₂_same]
  intro made hmade
  exact ⟨rfl, fun _ _ => p.type_eq_iff_overtaken hdistinct hmade⟩

/-- A text with a parameter that hides a variable of the program, and finds its type after the value
of another assignment had the type of that variable. -/
def hidingParameter : String := "x = 1; def f(x) \x7b y = x; x = \"s\"; \x7d"

theorem analyze_hidingParameter : ∃ p, readProgram hidingParameter none = .ok p ∧
    analyze hidingParameter ⟨none, false⟩ = .ok p.analysis ∧
    (p.assigning.map fun made => (made.name, made.introduces?)) =
      [("x", some .int), ("y", some .int), ("x", none)] ∧
    (p.analysis.program.assignments.map fun kept => (kept.1, kept.2.type)) =
      [("x", .int), ("y", .str), ("x", .str)] := by
  have hread : (readProgram hidingParameter none).toOption.any (fun p =>
      p.filled.errors.isEmpty &&
      ((p.assigning.map fun made => (made.name, made.introduces?)) =
        [("x", some .int), ("y", some .int), ("x", none)]) &&
      ((p.analysis.program.assignments.map fun kept => (kept.1, kept.2.type)) =
        [("x", .int), ("y", .str), ("x", .str)])) := by decide +kernel
  cases hp : readProgram hidingParameter none with
  | error e => simp [hp, Except.toOption] at hread
  | ok p =>
    simp only [hp, Except.toOption, Option.any_some, Bool.and_eq_true, decide_eq_true_eq,
      List.isEmpty_iff] at hread
    obtain ⟨⟨herrors, hmade⟩, hkept⟩ := hread
    refine ⟨p, rfl, ?_, hmade, hkept⟩
    rw [analyze_of_readProgram ⟨none, false⟩ hp, herrors]
    rfl

theorem hidingParameter_agrees : ∃ p a, readProgram hidingParameter none = .ok p ∧
    analyze hidingParameter ⟨none, false⟩ = .ok a ∧
    (p.assigning.map fun made => (made.name, made.introduces?)) =
      [("x", some .int), ("y", some .int), ("x", none)] ∧
    List.Forall₂ (p.Agrees a.scopes) p.assigning a.program.assignments := by
  obtain ⟨p, hread, hok, hmade, -⟩ := analyze_hidingParameter
  exact ⟨p, _, hread, hok, hmade, introduced_types_agree ⟨none, false⟩ hread hok⟩

/-- The value of an assignment need not have the type with which its name was declared. -/
theorem introduced_type_changes : ∃ p a, readProgram hidingParameter none = .ok p ∧
    analyze hidingParameter ⟨none, false⟩ = .ok a ∧
    ¬ List.Forall₂ (fun made kept => ∀ type, made.introduces? = some type → type ≠ .unknown →
      kept.2.type = type) p.assigning a.program.assignments := by
  obtain ⟨p, hread, hok, hmade, hkept⟩ := analyze_hidingParameter
  refine ⟨p, _, hread, hok, fun hagree => ?_⟩
  have htypes : List.Forall₂ (fun (made : String × Option DataType) (kept : String × DataType) =>
      ∀ type, made.2 = some type → type ≠ .unknown → kept.2 = type)
      (p.assigning.map fun made => (made.name, made.introduces?))
      (p.analysis.program.assignments.map fun kept => (kept.1, kept.2.type)) :=
    List.forall₂_map_left_iff.2 (List.forall₂_map_right_iff.2 hagree)
  rw [hmade, hkept] at htypes
  simp at htypes

end TinyScript
