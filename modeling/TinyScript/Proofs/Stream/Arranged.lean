import Mathlib.Data.List.Induction
import TinyScript.Proofs.Stream.Construct

/-! What follows from a stream having the events of a construct, bottom-up. Every event comes once
and tells its construct, a construct is within one other, and no block is open twice. Around each
event the stream is parted: what the event needs is complete before it. -/

namespace TinyScript

theorem openBlocks_concat (es : List Event) (e : Event) :
    openBlocks (es ++ [e]) = e.openAfter (openBlocks es) := by
  simp [openBlocks, List.foldl_append]

theorem exists_enterBlock_of_mem_openBlocks {es : List Event} {i : Serial} (h : i ∈ openBlocks es) :
    ∃ d, ⟨i, d, .enterBlock⟩ ∈ es := by
  induction es using List.reverseRecOn with
  | nil => cases h
  | append_singleton es e ih =>
    have hcases : e.kind = .enterBlock ∧ i = e.id ∨ i ∈ openBlocks es := by
      rw [openBlocks_concat, Event.openAfter] at h
      split at h
      · next hkind => exact (List.mem_cons.1 h).imp_left fun hi => ⟨hkind, hi⟩
      · exact .inr (List.mem_of_mem_tail h)
      · exact .inr h
    rcases hcases with ⟨hkind, rfl⟩ | hopen
    · exact ⟨e.depth, List.mem_append_right es (by simp [← hkind])⟩
    · obtain ⟨d, hd⟩ := ih hopen
      exact ⟨d, List.mem_append_left [e] hd⟩

namespace Construct

variable {t c c' s : Construct} {es before after : List Event} {e : Event}

theorem id_of_mem_own (h : e ∈ c.own) : e.id = c.id := by
  cases c with
  | whole event parts =>
    obtain rfl := List.mem_singleton.1 h
    rfl
  | block id depth lastDepth statements =>
    simp only [own, List.mem_cons, List.not_mem_nil, or_false] at h
    rcases h with rfl | rfl <;> rfl

theorem last_mem_own (c : Construct) : c.last ∈ c.own := by cases c <;> simp [last, own]

theorem eq_of_mem_own {e' : Event} (h : e ∈ c.own) (h' : e' ∈ c.own) (hkind : e.kind = e'.kind) :
    e = e' := by
  cases c with
  | whole event parts => rw [List.mem_singleton.1 h, List.mem_singleton.1 h']
  | block id depth lastDepth statements =>
    simp only [own, List.mem_cons, List.not_mem_nil, or_false] at h h'
    rcases h with rfl | rfl <;> rcases h' with rfl | rfl <;> first | rfl | cases hkind

theorem nodup_own (c : Construct) : c.own.Nodup := by cases c <;> simp [own]

theorem child_mem_subs (hc : c ∈ t.subs) (hs : s ∈ c.children) : s ∈ t.subs :=
  t.perm_subs.mem_iff.2 (List.mem_cons_of_mem t (List.mem_flatMap.2 ⟨c, hc, hs⟩))

theorem claimed_subset_children (c : Construct) : c.claimed ⊆ c.children := by
  cases c with
  | whole event parts => exact List.Subset.refl parts
  | block => exact List.nil_subset _

theorem claimed_mem_subs (hc : c ∈ t.subs) (hs : s ∈ c.claimed) : s ∈ t.subs :=
  child_mem_subs hc (c.claimed_subset_children hs)

theorem exists_parent (hs : s ∈ t.subs) (hne : s ≠ t) : ∃ c ∈ t.subs, s ∈ c.children :=
  List.mem_flatMap.1 ((List.mem_cons.1 (t.perm_subs.mem_iff.1 hs)).resolve_left hne)

namespace Arranges

variable (h : t.Arranges es)

include h

theorem eq_of_id (hc : c ∈ t.subs) (hc' : c' ∈ t.subs) (hid : c.id = c'.id) : c = c' :=
  List.inj_on_of_nodup_map h.numbers hc hc' hid

theorem mem_iff : e ∈ es ↔ ∃ c ∈ t.subs, e ∈ c.own := by
  rw [h.events.mem_iff, Construct.events, List.mem_flatMap]

theorem eq_of_mem_own (hc : c ∈ t.subs) (hc' : c' ∈ t.subs) (he : e ∈ c.own) (he' : e ∈ c'.own) :
    c = c' :=
  h.eq_of_id hc hc' ((id_of_mem_own he).symm.trans (id_of_mem_own he'))

theorem eq_of_last (hc : c ∈ t.subs) (hc' : c' ∈ t.subs) (hlast : c.last = c'.last) : c = c' :=
  h.eq_of_mem_own hc hc' c.last_mem_own (hlast ▸ c'.last_mem_own)

theorem eq_of_id_of_kind {e' : Event} (he : e ∈ es) (he' : e' ∈ es) (hid : e.id = e'.id)
    (hkind : e.kind = e'.kind) : e = e' := by
  obtain ⟨c, hc, hown⟩ := h.mem_iff.1 he
  obtain ⟨c', hc', hown'⟩ := h.mem_iff.1 he'
  have hcc' := h.eq_of_id hc hc' (by rw [← id_of_mem_own hown, hid, id_of_mem_own hown'])
  exact Construct.eq_of_mem_own hown (hcc' ▸ hown') hkind

theorem nodup_subs : t.subs.Nodup := List.Nodup.of_map id h.numbers

theorem nodup : es.Nodup := by
  rw [h.events.nodup_iff, Construct.events, List.nodup_flatMap]
  refine ⟨fun c _ => c.nodup_own, ?_⟩
  refine h.nodup_subs.imp_of_mem fun hc hc' hne e he he' => ?_
  exact hne (h.eq_of_mem_own hc hc' he he')

theorem nodup_children : (t :: t.subs.flatMap children).Nodup :=
  t.perm_subs.nodup_iff.1 h.nodup_subs

theorem parent_unique (hc : c ∈ t.subs) (hc' : c' ∈ t.subs) (hs : s ∈ c.children)
    (hs' : s ∈ c'.children) : c = c' :=
  eq_of_mem_of_nodup_flatMap (List.nodup_cons.1 h.nodup_children).2 hc hc' hs hs'

theorem nodup_children_id (hc : c ∈ t.subs) : (c.children.map id).Nodup := by
  obtain ⟨heach, -⟩ := List.nodup_flatMap.1 (List.nodup_cons.1 h.nodup_children).2
  refine (heach c hc).map_on fun s hs s' hs' hid => ?_
  exact h.eq_of_id (child_mem_subs hc hs) (child_mem_subs hc hs') hid

theorem nodup_openBlocks (hes : before <+: es) : (openBlocks before).Nodup := by
  induction before using List.reverseRecOn with
  | nil => exact List.nodup_nil
  | append_singleton before e ih =>
    have hbefore := ih ((List.prefix_append before [e]).trans hes)
    rw [openBlocks_concat, Event.openAfter]
    split
    · next hkind =>
      refine List.nodup_cons.2 ⟨fun hopen => ?_, hbefore⟩
      obtain ⟨d, hd⟩ := exists_enterBlock_of_mem_openBlocks hopen
      -- the block was opened by this very event, which has come once
      have he := hes.subset (List.mem_append_right before List.mem_cons_self)
      have heq := h.eq_of_id_of_kind (hes.subset (List.mem_append_left [e] hd)) he rfl hkind.symm
      rw [heq] at hd
      exact List.disjoint_of_nodup_append (hes.sublist.nodup h.nodup) hd List.mem_cons_self
    · exact hbefore.tail
    · exact hbefore

end Arranges

namespace Arranges

variable {id depth lastDepth : Nat} {statements : List Construct}
  (h : t.Arranges (before ++ e :: after))

include h

theorem id_ne_of_complete (hc : c ∈ t.subs) (he : c.last = e) (hc' : c' ∈ t.subs)
    (hbefore : c'.last ∈ before) : c'.id ≠ c.id := by
  intro hid
  obtain rfl := h.eq_of_id hc' hc hid
  rw [he] at hbefore
  exact List.disjoint_of_nodup_append h.nodup hbefore List.mem_cons_self

theorem complete_of_enter (hblock : block id depth lastDepth statements ∈ t.subs)
    (he : e = ⟨id, depth, .enterBlock⟩) :
    (statements.filter fun s => s.last ∈ before ++ [e]) = [] ∧
      ⟨id, lastDepth, .exitBlock⟩ ∉ before ++ [e] := by
  have hin : ([] ++ e :: (statements.map last ++ [(⟨id, lastDepth, .exitBlock⟩ : Event)])).Sublist
      (before ++ e :: after) := by
    have hplace := (h.inPlace _ hblock).1
    rwa [← he] at hplace
  obtain ⟨-, hrest⟩ := parted_of_sublist hin h.nodup
  refine ⟨List.filter_eq_nil_iff.2 fun s hs => ?_, ?_⟩
  · have hs' := hrest.subset (List.mem_append_left _ (List.mem_map_of_mem hs))
    simpa using notMem_concat_of_nodup h.nodup hs'
  · exact notMem_concat_of_nodup h.nodup (hrest.subset (by simp))

theorem complete_of_exit (hblock : block id depth lastDepth statements ∈ t.subs)
    (he : e = ⟨id, lastDepth, .exitBlock⟩) :
    (statements.filter fun s => s.last ∈ before) = statements := by
  have hin : ((⟨id, depth, .enterBlock⟩ :: statements.map last) ++ [e]).Sublist
      (before ++ e :: after) := by
    have hplace := (h.inPlace _ hblock).1
    rwa [← he] at hplace
  obtain ⟨hstart, -⟩ := parted_of_sublist hin h.nodup
  refine List.filter_eq_self.2 fun s hs => ?_
  have hs' : s.last ∈ before :=
    hstart.subset (List.mem_cons_of_mem _ (List.mem_map_of_mem hs))
  simpa using hs'

theorem complete_of_statement (hblock : block id depth lastDepth statements ∈ t.subs)
    (hs : s ∈ statements) (he : s.last = e) :
    (statements.filter fun s => s.last ∈ before ++ [e]) =
      (statements.filter fun s => s.last ∈ before) ++ [s] := by
  obtain ⟨pre, post, rfl⟩ := List.append_of_mem hs
  have hin : (((⟨id, depth, .enterBlock⟩ : Event) :: pre.map last) ++
      e :: (post.map last ++ [(⟨id, lastDepth, .exitBlock⟩ : Event)])).Sublist
      (before ++ e :: after) := by
    have hplace := (h.inPlace _ hblock).1
    rwa [List.map_append, List.map_cons, he, List.append_assoc] at hplace
  obtain ⟨hpre, hpost⟩ := parted_of_sublist hin h.nodup
  have hfirst : ∀ s ∈ pre, s.last ∈ before := fun s hs =>
    hpre.subset (List.mem_cons_of_mem _ (List.mem_map_of_mem hs))
  have hnext : s.last ∉ before := fun hmem =>
    List.disjoint_of_nodup_append h.nodup hmem (he ▸ List.mem_cons_self)
  have hrest : ∀ s ∈ post, s.last ∉ before ++ [e] := fun s hs =>
    notMem_concat_of_nodup h.nodup
      (hpost.subset (List.mem_append_left _ (List.mem_map_of_mem hs)))
  have hdone : (pre.filter fun s => s.last ∈ before) = pre :=
    List.filter_eq_self.2 fun s hs => by simpa using hfirst s hs
  have hdone' : (pre.filter fun s => s.last ∈ before ++ [e]) = pre :=
    List.filter_eq_self.2 fun s hs => by simp [hfirst s hs]
  have hlater : (post.filter fun s => s.last ∈ before) = [] :=
    List.filter_eq_nil_iff.2 fun s hs => by
      simpa using fun hmem => hrest s hs (List.mem_append_left [e] hmem)
  have hlater' : (post.filter fun s => s.last ∈ before ++ [e]) = [] :=
    List.filter_eq_nil_iff.2 fun s hs => by simpa using hrest s hs
  rw [List.filter_append, List.filter_append, hdone, hdone', List.filter_cons_of_pos (by simp [he]),
    List.filter_cons_of_neg (by simpa using hnext), hlater, hlater', List.append_nil]

end Arranges

theorem Presents.writes {p : Program} (h : t.Presents p) (hc : c ∈ t.subs) (hne : c ≠ t) :
    ∃ n, c.Writes n := by
  cases h with
  | program hstatements hfunctions =>
    rw [subs_eq, List.mem_cons, List.mem_flatMap] at hc
    obtain ⟨part, hpart, hc⟩ := hc.resolve_left hne
    obtain ⟨n, -, hn⟩ := exists_of_forall₂ (List.rel_append hstatements hfunctions) hpart
    exact hn.of_mem_subs hc

theorem Presents.class?_ne_none {p : Program} (h : t.Presents p) (hc : c ∈ t.subs) :
    c.last.kind.class? ≠ none := by
  by_cases hne : c = t
  · cases h with
    | program => simp [hne, last, EventKind.class?]
  · obtain ⟨n, hn⟩ := h.writes hc hne
    simp [hn.class?_eq]

theorem Presents.class?_statement {p : Program} {id depth lastDepth : Nat}
    {statements : List Construct} (h : t.Presents p)
    (hblock : block id depth lastDepth statements ∈ t.subs) (hs : s ∈ statements) :
    s.last.kind.class? = some .statement := by
  have hne : block id depth lastDepth statements ≠ t := by
    rintro rfl
    cases h
  obtain ⟨n, hn⟩ := h.writes hblock hne
  cases hn with
  | block hstatements =>
    obtain ⟨m, hm, hwrites⟩ := exists_of_forall₂ hstatements hs
    obtain ⟨stmt, -, rfl⟩ := List.mem_map.1 hm
    exact hwrites.class?_eq

end Construct

end TinyScript
