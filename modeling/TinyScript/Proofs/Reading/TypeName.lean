import TinyScript.Grammar.TypeName
import TinyScript.Proofs.Derivation.Events
import TinyScript.Proofs.Reading.Passage

/-! Reading the name of a type passes exactly the tokens of such a name and gives the type it stands
for. The tokens ahead bound how deep a name nests, so reading never wants for room. -/

namespace TinyScript

theorem DataType.ofName?_eq_some {s : String} {t : DataType} (h : ofName? s = some t) :
    ∃ p : Primitive, p.name = s ∧ p.type = t := by
  unfold ofName? at h
  split at h
  · exact ⟨.bool, rfl, Option.some.inj h⟩
  · exact ⟨.int, rfl, Option.some.inj h⟩
  · exact ⟨.str, rfl, Option.some.inj h⟩
  · cases h

@[simp] theorem Primitive.ofName?_name (p : Primitive) : DataType.ofName? p.name = some p.type := by
  cases p <;> rfl

namespace Container

theorem ofName?_name (c : Container) : Family.ofName? c.name = some c.family := by cases c <;> rfl

theorem not_primitive (c : Container) : DataType.ofName? c.name = none := by cases c <;> rfl

theorem ofFamily?_family (c : Container) (t : DataType) :
    DataType.ofFamily? c.family t = some (.collection c.family t) := by cases c <;> rfl

end Container

theorem Family.name_of_ofName? {s : String} {f : Family} (h : ofName? s = some f) :
    f.name = s := by
  unfold ofName? at h
  split at h
  · exact Option.some.inj h ▸ rfl
  · exact Option.some.inj h ▸ rfl
  · exact Option.some.inj h ▸ rfl
  · cases h

theorem Family.container_or_map (f : Family) :
    (∃ c : Container, c.family = f ∧ c.name = f.name ∧
      ∀ t, DataType.ofFamily? f t = some (.collection f t)) ∨
    f.name = "map" ∧ ∀ t, DataType.ofFamily? f t = none := by
  cases f with
  | list => exact .inl ⟨.list, rfl, rfl, fun _ => rfl⟩
  | set => exact .inl ⟨.set, rfl, rfl, fun _ => rfl⟩
  | map => exact .inr ⟨rfl, fun _ => rfl⟩

namespace Reader

theorem namedTypeOf_leads {element : ReadM DataType} {r : Reader} (hc : r.Closed)
    (he : ∀ r' : Reader, r'.Closed → r'.upcoming.length < r.upcoming.length →
      Leads element r' (fun type r'' => ∃ t : TypeTree, type = t.type ∧ Passed r' r'' t.tokens [] 0)
        fun e r'' => Halted True r' r'' [] e) :
    Leads (namedTypeOf element) r
      (fun type r' => ∃ t : TypeTree, type = t.type ∧ Passed r r' t.tokens [] 0)
      fun e r' => Halted True r r' [] e := by
  unfold namedTypeOf
  refine Leads.bind (leads_expect hc (.refl r) (by decide) (fun name r₁ p₁ => ?_)
    (.here (.refl r) .mismatch List.prefix_rfl))
  split
  · next t ht =>
    obtain ⟨p, hp, rfl⟩ := DataType.ofName?_eq_some ht
    exact Leads.pure ⟨.primitive p ⟨name.token, name.kind_eq, hp.symm⟩, rfl, p₁⟩
  · split
    · exact Leads.throw (.here p₁ (.unknownType rfl name.kind_eq) List.prefix_rfl)
    · next family hf =>
      have hname := Family.name_of_ofName? hf
      refine Leads.bind (leads_expect hc p₁ (by decide) (fun opening r₂ p₂ => ?_)
        (.here p₁ .mismatch List.prefix_rfl))
      -- the element is read from fewer tokens
      have hlt : r₂.upcoming.length < r.upcoming.length := by
        simp only [p₂.length_upcoming, List.length_append, List.length_singleton]
        omega
      refine Leads.bind ((he r₂ (p₂.closed hc) hlt).mono ?_ fun e r' h => .after p₂ h id)
      rintro _ r₃ ⟨t, rfl, q⟩
      have p₃ := p₂.trans q
      refine Leads.bind (leads_expect hc p₃ (by decide) (fun closing r₄ p₄ => ?_)
        (.here p₃ .mismatch List.prefix_rfl))
      -- a `map` is read to its end before it is refused
      rcases family.container_or_map with ⟨c, rfl, hcn, hof⟩ | ⟨hmap, hof⟩
      · rw [hof]
        refine Leads.pure ⟨.collection c ⟨name.token, name.kind_eq, (hcn.trans hname).symm⟩
          opening t closing, rfl, ?_⟩
        simpa [TypeTree.tokens] using p₄
      · rw [hof]
        refine Leads.throw (.here p₄ (.unsupported ?_ name.kind_eq (hname.symm.trans hmap))
          List.prefix_rfl)
        simp

theorem typeWithin_leads (n : Nat) {r : Reader} (hc : r.Closed) (hn : r.upcoming.length < n) :
    Leads (typeWithin .standard n) r
      (fun type r' => ∃ t : TypeTree, type = t.type ∧ Passed r r' t.tokens [] 0)
      fun e r' => Halted True r r' [] e := by
  induction n generalizing r with
  | zero => exact absurd hn (Nat.not_lt_zero _)
  | succ n ih =>
    rw [typeWithin]
    refine leads_peek ?_
    split
    · exact namedTypeOf_leads hc fun r' hc' hlt => ih hc' (by omega)
    · exact Leads.of_error (outcome_fail r) (.here (.refl r) .mismatch List.prefix_rfl)

theorem leads_readType {r₀ r : Reader} {ts : List Token} {es : List Event} {n : Nat}
    {ok : DataType → Reader → Prop} {bad : Error → Reader → Prop} {enough : Prop}
    (hc : r₀.Closed) (p : Passed r₀ r ts es n)
    (hok : ∀ (t : TypeTree) r', Passed r₀ r' (ts ++ t.tokens) es n → ok t.type r')
    (hbad : ∀ e r', Halted enough r₀ r' es e → bad e r') : Leads (readType .standard) r ok bad := by
  rw [readType]
  refine Leads.bind (Leads.of_ok (outcome_get r) ?_)
  refine (typeWithin_leads _ (p.closed hc) (Nat.lt_succ_self _)).mono ?_ ?_
  · rintro _ r' ⟨t, rfl, q⟩
    have pq := p.trans q
    rw [List.append_nil] at pq
    exact hok t r' pq
  · intro e r' h
    have hh : Halted enough r₀ r' (es ++ []) e := .after p h fun _ => trivial
    rw [List.append_nil] at hh
    exact hbad e r' hh

end Reader

end TinyScript
