import Mathlib.Data.List.Forall2
import Mathlib.Data.List.Nodup

/-! Places in lists: what comes before a place, what comes before the first of a kind, lists in
which nothing comes twice, and lists that go side by side. -/

namespace TinyScript

/-- `R` holds at every place of a list, between what comes before it and what stands there. -/
def AtEach {α : Type} (R : List α → α → Prop) (l : List α) : Prop :=
  ∀ before a after, l = before ++ a :: after → R before a

section AtEach

variable {α : Type} {R R' : List α → α → Prop} {l l' : List α} {a : α}

theorem AtEach.nil : AtEach R [] := fun before a after h => by simp at h

theorem AtEach.imp (h : AtEach R l) (himp : ∀ before a, R before a → R' before a) : AtEach R' l :=
  fun before a after hl => himp before a (h before a after hl)

theorem AtEach.of_prefix (h : AtEach R l') (hl : l <+: l') : AtEach R l := by
  obtain ⟨rest, rfl⟩ := hl
  intro before a after hl
  exact h before a (after ++ rest) (by simp [hl])

theorem atEach_append :
    AtEach R (l ++ l') ↔ AtEach R l ∧ AtEach (fun before => R (l ++ before)) l' := by
  constructor
  · intro h
    refine ⟨h.of_prefix (List.prefix_append l l'), fun before a after hl => ?_⟩
    exact h (l ++ before) a after (by simp [hl])
  · rintro ⟨h, h'⟩ before a after hl
    rcases List.append_eq_append_iff.1 hl with ⟨mid, rfl, hl'⟩ | ⟨mid, rfl, hmid⟩
    · exact h' mid a after hl'
    · cases mid with
      | nil =>
        have hplace := h' [] a after hmid.symm
        simpa using hplace
      | cons b mid =>
        obtain ⟨rfl, -⟩ := List.cons.inj hmid
        exact h before a mid rfl

theorem atEach_singleton : AtEach R [a] ↔ R [] a := by
  constructor
  · intro h
    exact h [] a [] rfl
  · intro h before b after hl
    cases before with
    | nil =>
      obtain ⟨rfl, -⟩ := List.cons.inj hl
      exact h
    | cons c before => simp at hl

theorem atEach_cons : AtEach R (a :: l) ↔ R [] a ∧ AtEach (fun before => R (a :: before)) l := by
  rw [← List.singleton_append, atEach_append, atEach_singleton]
  rfl

end AtEach

instance decidableAtEach {α : Type} : (R : List α → α → Prop) → [∀ l a, Decidable (R l a)] →
    (l : List α) → Decidable (AtEach R l)
  | _, _, [] => .isTrue .nil
  | R, _, a :: l =>
    have := decidableAtEach (fun before => R (a :: before)) l
    decidable_of_iff (R [] a ∧ AtEach (fun before => R (a :: before)) l) atEach_cons.symm

section upTo

variable {α : Type} [DecidableEq α] {a : α} {l : List α}

def upTo (a : α) (l : List α) : List α := l.takeWhile (· ≠ a)

theorem upTo_subset (a : α) (l : List α) : upTo a l ⊆ l := (List.takeWhile_prefix _).subset

theorem upTo_append_of_mem (h : a ∈ l) (l' : List α) : upTo a (l ++ l') = upTo a l := by
  induction l with
  | nil => cases h
  | cons b l ih =>
    by_cases hb : b = a
    · simp [upTo, hb]
    · have hmem : a ∈ l := (List.mem_cons.1 h).resolve_left (Ne.symm hb)
      have hrest := ih hmem
      simp only [upTo, List.cons_append, List.takeWhile_cons] at hrest ⊢
      rw [hrest]

theorem upTo_append_of_notMem (h : a ∉ l) (l' : List α) : upTo a (l ++ l') = l ++ upTo a l' := by
  refine List.takeWhile_append_of_pos fun b hb => decide_eq_true ?_
  rintro rfl
  exact h hb

end upTo

section Nodup

variable {α β : Type}

theorem eq_of_mem_of_nodup_flatMap {l : List α} {f : α → List β} (h : (l.flatMap f).Nodup)
    {a b : α} (ha : a ∈ l) (hb : b ∈ l) {x : β} : x ∈ f a → x ∈ f b → a = b := by
  obtain ⟨-, hapart⟩ := List.nodup_flatMap.1 h
  apply List.Pairwise.forall_of_forall_of_flip (fun _ _ _ _ => rfl) _ _ ha hb
  · exact hapart.imp fun hdisjoint hxa hxb => (hdisjoint hxa hxb).elim
  · exact hapart.imp fun hdisjoint hxb hxa => (hdisjoint hxa hxb).elim

theorem filter_eq_of_perm [DecidableEq β] {l l' : List α} (h : l.Perm l') {key : α → β}
    (hnodup : (l.map key).Nodup) (b : β) :
    (l.filter fun a => key a = b) = l'.filter fun a => key a = b := by
  induction h with
  | nil => rfl
  | cons a _ ih =>
    rw [List.filter_cons, List.filter_cons, ih (List.nodup_cons.1 hnodup).2]
  | swap a a' l =>
    have hne : key a' ≠ key a := fun heq => by simp [heq] at hnodup
    simp only [List.filter_cons, decide_eq_true_eq]
    grind
  | trans hfirst _ ih ih' =>
    exact (ih hnodup).trans (ih' ((hfirst.map key).nodup hnodup))

theorem notMem_concat_of_nodup {before after : List α} {a b : α}
    (h : (before ++ a :: after).Nodup) (hb : b ∈ after) : b ∉ before ++ [a] := by
  rw [List.append_cons] at h
  exact fun hmem => List.disjoint_of_nodup_append h hmem hb

theorem parted_of_sublist {before after pre post : List α} {a : α}
    (h : (pre ++ a :: post).Sublist (before ++ a :: after))
    (hnodup : (before ++ a :: after).Nodup) : pre.Sublist before ∧ post.Sublist after := by
  have hbefore : a ∉ before := fun hmem =>
    List.disjoint_of_nodup_append hnodup hmem List.mem_cons_self
  have hafter : a ∉ after := (List.nodup_cons.1 hnodup.of_append_right).1
  obtain ⟨l, l', hl, hfirst, hlast⟩ := List.sublist_append_iff.1 h
  rcases List.append_eq_append_iff.1 hl with ⟨mid, rfl, hmid⟩ | ⟨mid, rfl, rfl⟩
  · cases mid with
    | nil =>
      rw [List.nil_append] at hmid
      rw [List.append_nil] at hfirst
      rw [← hmid] at hlast
      exact ⟨hfirst, List.cons_sublist_cons.1 hlast⟩
    | cons b mid =>
      obtain ⟨rfl, -⟩ := List.cons.inj hmid
      exact absurd (hfirst.subset (by simp)) hbefore
  · cases mid with
    | nil => exact ⟨by simpa using hfirst, List.cons_sublist_cons.1 hlast⟩
    | cons b mid => exact absurd (hlast.tail.subset (by simp)) hafter

end Nodup

section Forall₂

variable {α β : Type} {R : α → β → Prop} {l : List α} {l' : List β}

theorem exists_of_forall₂ (h : List.Forall₂ R l l') {a : α} (ha : a ∈ l) : ∃ b ∈ l', R a b := by
  induction h with
  | nil => cases ha
  | @cons c b l l' hcb hrest ih =>
    rcases List.mem_cons.1 ha with rfl | ha
    · exact ⟨b, List.mem_cons_self, hcb⟩
    · obtain ⟨d, hd, had⟩ := ih ha
      exact ⟨d, List.mem_cons_of_mem b hd, had⟩

theorem forall₂_unique {l'' : List β} (hR : ∀ a ∈ l, ∀ b c, R a b → R a c → b = c)
    (h : List.Forall₂ R l l') (h' : List.Forall₂ R l l'') : l' = l'' := by
  induction h generalizing l'' with
  | nil => exact (List.forall₂_nil_left_iff.1 h').symm
  | @cons a b l l' hab hrest ih =>
    obtain ⟨c, l'', hac, hrest', rfl⟩ := List.forall₂_cons_left_iff.1 h'
    rw [hR a List.mem_cons_self b c hab hac,
      ih (fun a ha => hR a (List.mem_cons_of_mem _ ha)) hrest']

end Forall₂

end TinyScript
