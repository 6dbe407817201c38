import TinyScript.Proofs.Typing.Annotate
import TinyScript.Proofs.Typing.Steps

/-! Scopes within scopes, while they are filled. An assignment never declares a name that a scope
around it has, so a name that is hidden stays hidden and what hides it is older. Parameters are the
exception: a function's scope may have a name that the program's scope has, without a type at first.
What a name means further on can therefore change in one way only, when such a parameter finds its
type. -/

namespace TinyScript

namespace Scopes

/-- No scope has a name that a scope around it has, except that the scope `free` may. -/
def Layered (m : Scopes) (free : Option Scope) (around : List Scope) : Prop :=
  around.Pairwise fun s t => free ≠ some s → ∀ name, m.Has s name → ¬ m.Has t name

structure Later (m : Scopes) (around : List Scope) (m' : Scopes) : Prop where
  refines : m.Refines m'
  hidden : around.Pairwise fun s t => ∀ name, m.Has t name → ¬ m.Has s name → ¬ m'.Has s name

variable {m m₁ m₂ : Scopes} {free : Option Scope} {around : List Scope} {s : Scope}
  {name : String}

theorem has_congr (h : m₁.get s = m.get s) : m₁.Has s name ↔ m.Has s name := by
  unfold Has symbol?
  rw [h]

theorem not_has_of_get (h : m.get s = {}) : ¬ m.Has s name := by
  unfold Has symbol?
  rw [h]
  exact not_not.2 rfl

theorem has_of_symbol {symbol : Symbol} (h : m.symbol? s name = some symbol) : m.Has s name :=
  Option.ne_none_iff_exists'.2 ⟨symbol, h⟩

theorem Layered.enter (h : m.Layered free around) (hs : m.get s = {} ∨ free = some s) :
    m.Layered free (s :: around) := by
  refine List.pairwise_cons.2 ⟨fun t _ hfree name hhas => ?_, h⟩
  rcases hs with hs | hs
  · exact absurd hhas (not_has_of_get hs)
  · exact absurd hs hfree

namespace Later

theorem refl (m : Scopes) (around : List Scope) : m.Later around m :=
  ⟨.refl m, List.pairwise_of_forall_mem_list fun _ _ _ _ _ _ hs => hs⟩

theorem trans (h : m.Later around m₁) (h' : m₁.Later around m₂) : m.Later around m₂ where
  refines := h.refines.trans h'.refines
  hidden := h.hidden.imp₂ (fun _ _ hfirst hsecond name ht hs =>
    hsecond name (h.refines.has ht) (hfirst name ht hs)) h'.hidden

theorem enter (h : m.Later around m₁) (hs : m₁.get s = m.get s) : m.Later (s :: around) m₁ where
  refines := h.refines
  hidden := List.pairwise_cons.2 ⟨fun _ _ _ _ hnot hhas => hnot ((has_congr hs).1 hhas), h.hidden⟩

end Later

end Scopes

namespace Declared

variable {around : List Scope} {d d' : Declared} {free : Option Scope}

theorem Step.has_cases (h : Step around d d') {t : Scope} (ht : t ∈ around) {name : String}
    (hhas : d'.scopes.Has t name) : d.scopes.Has t name ∨
      around.head? = some t ∧ ∀ s ∈ around, ¬ d.scopes.Has s name := by
  by_cases hold : d.scopes.Has t name
  · exact .inl hold
  · rcases h.effect with hsame | ⟨s, other, type, henters, hentry⟩
    · exact absurd (hsame ▸ hhas) hold
    · obtain ⟨rfl, rfl⟩ := henters.eq_of_has hhas hold
      rcases hentry with ⟨symbol, hsymbol, -⟩ | ⟨-, hnew⟩
      · exact absurd (Scopes.has_of_symbol hsymbol) hold
      · exact .inr (hnew ht)

theorem Step.has_tail {s : Scope} (h : Step (s :: around) d d') (hnodup : (s :: around).Nodup)
    {t : Scope} (ht : t ∈ around) {name : String} (hhas : d'.scopes.Has t name) :
    d.scopes.Has t name := by
  rcases h.has_cases (List.mem_cons_of_mem s ht) hhas with hold | ⟨hhead, -⟩
  · exact hold
  · have hst : s = t := Option.some.inj hhead
    exact absurd (hst ▸ ht) (List.nodup_cons.1 hnodup).1

theorem Step.layered (h : Step around d d') (hnodup : around.Nodup)
    (hlayered : d.scopes.Layered free around) : d'.scopes.Layered free around := by
  cases around with
  | nil => exact .nil
  | cons s around =>
    have htail : ∀ t ∈ around, ∀ name, d'.scopes.Has t name → d.scopes.Has t name :=
      fun t ht _ => h.has_tail hnodup ht
    obtain ⟨hfirst, hrest⟩ := List.pairwise_cons.1 hlayered
    refine List.pairwise_cons.2 ⟨fun t ht hfree name hs hhas => ?_, ?_⟩
    · have hold := htail t ht name hhas
      rcases h.has_cases List.mem_cons_self hs with hs | ⟨-, hnone⟩
      · exact hfirst t ht hfree name hs hold
      · exact hnone t (List.mem_cons_of_mem s ht) hold
    · refine hrest.imp_of_mem fun {s t} hs ht hst hfree name hhas hhas' => ?_
      exact hst hfree name (htail s hs name hhas) (htail t ht name hhas')

theorem Step.later (h : Step around d d') : d.scopes.Later around d'.scopes where
  refines := h.refines
  hidden := List.pairwise_of_forall_mem_list fun s hs t ht name hhas hnot hnew => by
    rcases h.has_cases hs hnew with hold | ⟨-, hnone⟩
    · exact hnot hold
    · exact hnone t ht hhas

namespace Runs

theorem has_tail {s : Scope} (h : Runs (s :: around) d d') (hnodup : (s :: around).Nodup)
    {t : Scope} (ht : t ∈ around) {name : String} (hhas : d'.scopes.Has t name) :
    d.scopes.Has t name := by
  induction h with
  | refl => exact hhas
  | tail _ hstep ih => exact ih (hstep.has_tail hnodup ht hhas)

theorem layered (h : Runs around d d') (hnodup : around.Nodup)
    (hlayered : d.scopes.Layered free around) : d'.scopes.Layered free around := by
  induction h with
  | refl => exact hlayered
  | tail _ hstep ih => exact hstep.layered hnodup ih

theorem later (h : Runs around d d') : d.scopes.Later around d'.scopes := by
  induction h with
  | refl => exact .refl _ _
  | tail _ hstep ih => exact ih.trans hstep.later

end Runs

end Declared

namespace Scopes

variable {m m' : Scopes} {free : Option Scope} {around : List Scope} {s : Scope} {name : String}
  {type type' : DataType}

theorem symbol?_eq {symbol : Symbol} (h : m.symbol? s name = some symbol) :
    m.symbol? s name = some ⟨name, symbol.type⟩ := by
  rw [h, ← symbol?_name h]

theorem visibleType_cons (hs : (m.get s).poisoned = false) (around : List Scope)
    (name : String) : m.visibleType (s :: around) name =
      (m.knownType? name s).getD (m.visibleType around name) := by
  unfold visibleType
  rw [List.takeWhile_cons_of_pos (by simp [hs]), List.findSome?_cons]
  cases m.knownType? name s <;> rfl

theorem visibleType_cons_of_known (hs : (m.get s).poisoned = false) {symbol : Symbol}
    (hsymbol : m.symbol? s name = some symbol) (hk : symbol.type ≠ .unknown) :
    m.visibleType (s :: around) name = symbol.type := by
  unfold symbol? at hsymbol
  simp [visibleType_cons hs, knownType?, hsymbol, hk]

theorem visibleType_cons_of_unknown (hs : (m.get s).poisoned = false)
    (hsymbol : ∀ symbol, m.symbol? s name = some symbol → symbol.type = .unknown) :
    m.visibleType (s :: around) name = m.visibleType around name := by
  unfold symbol? at hsymbol
  have hnone : m.knownType? name s = none := by
    unfold knownType?
    cases hl : (m.get s).table.lookup? name with
    | none => rfl
    | some symbol => simp [hsymbol symbol hl]
  rw [visibleType_cons hs, hnone, Option.getD_none]

theorem exists_symbol_of_visibleType (hm : m.Clean) (hk : m.visibleType around name ≠ .unknown) :
    ∃ t ∈ around, m.symbol? t name = some ⟨name, m.visibleType around name⟩ := by
  induction around with
  | nil => exact absurd rfl hk
  | cons s around ih =>
    by_cases hknown : ∃ symbol, m.symbol? s name = some symbol ∧ symbol.type ≠ .unknown
    · obtain ⟨symbol, hsymbol, hne⟩ := hknown
      rw [visibleType_cons_of_known (hm s) hsymbol hne]
      exact ⟨s, List.mem_cons_self, symbol?_eq hsymbol⟩
    · push Not at hknown
      rw [visibleType_cons_of_unknown (hm s) hknown] at hk ⊢
      obtain ⟨t, ht, hsymbol⟩ := ih hk
      exact ⟨t, List.mem_cons_of_mem s ht, hsymbol⟩

/-- The scope `s` had the name without a type while a scope around it had it with the type `type`;
by `m'` it has found the type `type'`. -/
structure Overtakes (m : Scopes) (around : List Scope) (name : String) (type : DataType)
    (m' : Scopes) (s : Scope) (type' : DataType) : Prop where
  before : m.symbol? s name = some ⟨name, .unknown⟩
  outer : ∃ rest, s :: rest <:+ around ∧ ∃ t ∈ rest, m.symbol? t name = some ⟨name, type⟩
  after : m'.symbol? s name = some ⟨name, type'⟩
  known : type' ≠ .unknown

theorem Overtakes.enter (h : m.Overtakes around name type m' s type') (t : Scope) :
    m.Overtakes (t :: around) name type m' s type' := by
  obtain ⟨rest, hrest, houter⟩ := h.outer
  exact ⟨h.before, ⟨rest, hrest.trans (List.suffix_cons _ _), houter⟩, h.after, h.known⟩

theorem Later.visibleType_cases (h : m.Later around m') (hm : m.Clean)
    (hlayered : m.Layered free around) (hk : m.visibleType around name ≠ .unknown) :
    m'.visibleType around name = m.visibleType around name ∨
      ∃ s, free = some s ∧ m.Overtakes around name (m.visibleType around name) m' s
        (m'.visibleType around name) := by
  have hm' := h.refines.clean hm
  induction around with
  | nil => exact .inl rfl
  | cons s around ih =>
    obtain ⟨hfirst, hlayered⟩ := List.pairwise_cons.1 hlayered
    obtain ⟨hhidden, hlater⟩ := List.pairwise_cons.1 h.hidden
    by_cases hknown : ∃ symbol, m.symbol? s name = some symbol ∧ symbol.type ≠ .unknown
    · obtain ⟨symbol, hsymbol, hne⟩ := hknown
      obtain ⟨symbol', hsymbol', hkept⟩ := h.refines.symbol s name symbol hsymbol
      obtain rfl := hkept hne
      left
      rw [visibleType_cons_of_known (hm s) hsymbol hne,
        visibleType_cons_of_known (hm' s) hsymbol' hne]
    push Not at hknown
    rw [visibleType_cons_of_unknown (hm s) hknown] at hk ⊢
    obtain ⟨t, ht, houter⟩ := exists_symbol_of_visibleType hm hk
    by_cases hknown' : ∃ symbol, m'.symbol? s name = some symbol ∧ symbol.type ≠ .unknown
    · -- `s` has found a type, so it had the name, and is free to
      obtain ⟨symbol', hsymbol', hne⟩ := hknown'
      have hhas : m.Has s name := by
        by_contra hnot
        exact hhidden t ht name (has_of_symbol houter) hnot (has_of_symbol hsymbol')
      obtain ⟨symbol, hsymbol⟩ := Option.ne_none_iff_exists'.1 hhas
      have hfree : free = some s := by
        by_contra hfree
        exact hfirst t ht hfree name hhas (has_of_symbol houter)
      right
      rw [visibleType_cons_of_known (hm' s) hsymbol' hne]
      exact ⟨s, hfree, hknown symbol hsymbol ▸ symbol?_eq hsymbol,
        ⟨around, List.suffix_refl _, t, ht, houter⟩, symbol?_eq hsymbol', hne⟩
    · push Not at hknown'
      rw [visibleType_cons_of_unknown (hm' s) hknown']
      rcases ih ⟨h.refines, hlater⟩ hlayered hk with heq | ⟨f, hf, hovertakes⟩
      · exact .inl heq
      · exact .inr ⟨f, hf, hovertakes.enter s⟩

theorem Later.visibleType_of_overtakes (h : m.Later around m') (hm : m.Clean)
    (hlayered : m.Layered (some s) around) (hs : s ∈ around) (hhas : m.Has s name)
    (hsymbol : m'.symbol? s name = some ⟨name, type⟩) (hk : type ≠ .unknown) :
    m'.visibleType around name = type := by
  have hm' := h.refines.clean hm
  induction around with
  | nil => cases hs
  | cons t around ih =>
    obtain ⟨hfirst, hlayered⟩ := List.pairwise_cons.1 hlayered
    obtain ⟨hhidden, hlater⟩ := List.pairwise_cons.1 h.hidden
    by_cases hst : s = t
    · exact hst ▸ visibleType_cons_of_known (hm' s) hsymbol hk
    · have hmem : s ∈ around := (List.mem_cons.1 hs).resolve_left hst
      have hnot : ¬ m.Has t name := fun hhas' =>
        hfirst s hmem (fun hfree => hst (Option.some.inj hfree)) name hhas' hhas
      have hnone := not_not.1 (hhidden s hmem name hhas hnot)
      rw [visibleType_cons_of_unknown (hm' t) fun symbol h => by simp [hnone] at h]
      exact ih ⟨h.refines, hlater⟩ hlayered hmem

end Scopes

end TinyScript
