/-! Steps that change a state and can break off: what they come to from a given state, and how to
follow them from one step to the next. -/

namespace TinyScript

variable {ε σ α β : Type}

def outcome (act : ExceptT ε (StateM σ) α) (s : σ) : Except ε α × σ := act.run.run s

@[simp] theorem outcome_pure (a : α) (s : σ) :
    outcome (pure a : ExceptT ε (StateM σ) α) s = (.ok a, s) := rfl

@[simp] theorem outcome_get (s : σ) :
    outcome (get : ExceptT ε (StateM σ) σ) s = (.ok s, s) := rfl

@[simp] theorem outcome_set (t s : σ) :
    outcome (set t : ExceptT ε (StateM σ) PUnit) s = (.ok ⟨⟩, t) := rfl

theorem outcome_bind (act : ExceptT ε (StateM σ) α) (next : α → ExceptT ε (StateM σ) β) (s : σ) :
    outcome (act >>= next) s =
      match outcome act s with
      | (.ok a, t) => outcome (next a) t
      | (.error e, t) => (.error e, t) := by
  simp only [outcome, ExceptT.run_bind, StateT.run_bind]
  cases act.run.run s with
  | mk result t => cases result <;> rfl

theorem outcome_bind_ok {act : ExceptT ε (StateM σ) α} {s t : σ} {a : α}
    (h : outcome act s = (.ok a, t)) (next : α → ExceptT ε (StateM σ) β) :
    outcome (act >>= next) s = outcome (next a) t := by rw [outcome_bind, h]

theorem outcome_bind_error {act : ExceptT ε (StateM σ) α} {s t : σ} {e : ε}
    (h : outcome act s = (.error e, t)) (next : α → ExceptT ε (StateM σ) β) :
    outcome (act >>= next) s = (.error e, t) := by rw [outcome_bind, h]

theorem exists_of_outcome_bind {act : ExceptT ε (StateM σ) α} {next : α → ExceptT ε (StateM σ) β}
    {s u : σ} {b : β} (h : outcome (act >>= next) s = (.ok b, u)) :
    ∃ a t, outcome act s = (.ok a, t) ∧ outcome (next a) t = (.ok b, u) := by
  rw [outcome_bind] at h
  split at h
  · next a t ha => exact ⟨a, t, ha, h⟩
  · cases h

theorem of_outcome_bind_error {act : ExceptT ε (StateM σ) α} {next : α → ExceptT ε (StateM σ) β}
    {s u : σ} {e : ε} (h : outcome (act >>= next) s = (.error e, u)) :
    outcome act s = (.error e, u) ∨
      ∃ a t, outcome act s = (.ok a, t) ∧ outcome (next a) t = (.error e, u) := by
  rw [outcome_bind] at h
  split at h
  · next a t ha => exact .inr ⟨a, t, ha, h⟩
  · next he =>
    cases h
    exact .inl he

/-- A step ends with `ok` of its result or with `bad` of its error. -/
def Leads (act : ExceptT ε (StateM σ) α) (s : σ) (ok : α → σ → Prop) (bad : ε → σ → Prop) : Prop :=
  match outcome act s with
  | (.ok a, t) => ok a t
  | (.error e, t) => bad e t

namespace Leads

variable {act : ExceptT ε (StateM σ) α} {s t : σ} {ok : α → σ → Prop} {bad : ε → σ → Prop}

theorem of_ok {a : α} (h : outcome act s = (.ok a, t)) (hok : ok a t) : Leads act s ok bad := by
  rw [Leads, h]
  exact hok

theorem of_error {e : ε} (h : outcome act s = (.error e, t)) (hbad : bad e t) :
    Leads act s ok bad := by
  rw [Leads, h]
  exact hbad

theorem ok_of (h : Leads act s ok bad) {a : α} (ha : outcome act s = (.ok a, t)) : ok a t := by
  rwa [Leads, ha] at h

theorem bad_of (h : Leads act s ok bad) {e : ε} (he : outcome act s = (.error e, t)) :
    bad e t := by
  rwa [Leads, he] at h

theorem pure {a : α} (h : ok a s) : Leads (Pure.pure a : ExceptT ε (StateM σ) α) s ok bad := h

theorem throw {e : ε} (h : bad e s) :
    Leads (MonadExcept.throw e : ExceptT ε (StateM σ) α) s ok bad := h

theorem mono {ok' : α → σ → Prop} {bad' : ε → σ → Prop} (h : Leads act s ok bad)
    (hok : ∀ a t, ok a t → ok' a t) (hbad : ∀ e t, bad e t → bad' e t) :
    Leads act s ok' bad' := by
  unfold Leads at h ⊢
  split at h
  · exact hok _ _ h
  · exact hbad _ _ h

theorem trivial : Leads act s (fun _ _ => True) fun _ _ => True := by
  unfold Leads
  split <;> exact True.intro

theorem bind {next : α → ExceptT ε (StateM σ) β} {okNext : β → σ → Prop}
    (h : Leads act s (fun a t => Leads (next a) t okNext bad) bad) :
    Leads (act >>= next) s okNext bad := by
  unfold Leads at h
  split at h
  · next a t ha =>
    rw [Leads, outcome_bind_ok ha]
    exact h
  · next e t he =>
    rw [Leads, outcome_bind_error he]
    exact h

end Leads

end TinyScript
