import TinyScript.Proofs.Assembly.Conservation
import TinyScript.Proofs.Assembly.Ownership
import TinyScript.Proofs.Walk.Nesting
import TinyScript.Proofs.Walk.Tracing

/-! Every program, function and block has a scope to itself, and an empty one. This holds of an
assembly at any time, whatever the events were and whether or not they were taken: a scope comes to
a piece when it is given out, goes with it into the whole that claims it, and is never given out
again, not even where the piece is lost. -/

namespace TinyScript

namespace Assembly

variable {a b : Assembly} {e : Event} {held : List Scope}

/-- The scopes of the functions and blocks that wait or stand in something that waits, of the open
blocks and those within them, and of the program and its parts. -/
def owned (a : Assembly) : List Scope :=
  (a.pending.entries.flatMap fun p => p.2.owned) ++ a.blocks.flatMap OpenBlock.owned ++
    a.program.elim [] Program.owned

theorem count_owned (a : Assembly) (s : Scope) : a.owned.count s = a.countOf s := by
  unfold owned countOf Keyed.countIn
  rw [List.count_append, List.count_append]

theorem Left.countOf_le (h : Left a e b) (s : Scope) : b.countOf s ≤ a.countOf s := by
  obtain ⟨⟨gone, -, hpending⟩, hprogram, hblocks, -⟩ := h
  have hwaits : b.pending.countIn Node.owned s ≤ a.pending.countIn Node.owned s := by
    rw [hpending]
    exact (List.filter_sublist.flatMap _).count_le s
  have hopen : (b.blocks.flatMap OpenBlock.owned).count s ≤
      (a.blocks.flatMap OpenBlock.owned).count s := by
    apply List.Sublist.count_le
    apply List.Sublist.flatMap
    rw [hblocks]
    split
    · exact List.tail_sublist _
    · exact List.Sublist.refl _
  unfold countOf
  rw [hprogram]
  exact Nat.add_le_add_right (Nat.add_le_add hwaits hopen) _

theorem Owns.left (h : Owns held a) (hleft : Left a e b) : Owns held b := by
  intro s
  have hs := h s
  have hcount := hleft.countOf_le s
  have hnext := hleft.nextScope
  split at hs <;> split <;> omega

theorem Owns.accept (h : Owns held a) (e : Event) : Owns held (a.accept e).2 := by
  rcases haccept : a.accept e with ⟨result, b⟩
  rcases result with f | ⟨⟩
  · exact h.left (left_of_failed haccept)
  · exact (yields_handle e h).ok_of haccept

theorem Owns.afterAll (h : Owns held a) (es : List Event) : Owns held (a.afterAll es) := by
  induction es generalizing a with
  | nil => exact h
  | cons e es ih => exact ih (h.accept e)

theorem Owns.nodup (h : Owns held a) : (held ++ a.owned).Nodup := by
  apply List.nodup_iff_count_le_one.2
  intro s
  have hs := h s
  rw [List.count_append, count_owned]
  split at hs <;> omega

theorem owns_empty (n : Nat) : Owns ((List.range n).map Scope.mk) { nextScope := n } := by
  intro s
  have hnodup : ((List.range n).map Scope.mk).Nodup := by
    apply List.nodup_range.map
    rintro i j h
    exact congrArg Scope.id h
  have hnone : countOf { nextScope := n } s = 0 := rfl
  rw [hnone, Nat.add_zero]
  by_cases hs : s.id < n
  · rw [if_pos hs]
    exact List.nodup_iff_count_le_one.1 hnodup s
  · rw [if_neg hs, Nat.le_zero, List.count_eq_zero]
    intro hmem
    obtain ⟨i, hi, rfl⟩ := List.mem_map.1 hmem
    exact hs (List.mem_range.1 hi)

theorem Owns.id_lt (h : Owns held a) {s : Scope} (hs : s ∈ a.owned) : s.id < a.nextScope := by
  apply Decidable.byContradiction
  intro hge
  have hcount := h s
  rw [if_neg hge, ← count_owned] at hcount
  exact absurd (List.count_pos_iff.2 hs) (by omega)

theorem Taken.nextScope_le (h : Taken a e b) : a.nextScope ≤ b.nextScope := by
  cases h with
  | enter => exact Nat.le_succ _
  | exit => exact Nat.le_refl _
  | program hss hfs =>
    exact Nat.le_trans (Nat.le_succ _) (Nat.le_trans hss.spent.nextScope hfs.spent.nextScope)
  | made hclaims =>
    rw [nextScope_stored]
    exact Nat.le_trans hclaims.spent.nextScope (Nat.le_add_right _ _)

theorem nextScope_accept (a : Assembly) (e : Event) : a.nextScope ≤ (a.accept e).2.nextScope := by
  rcases haccept : a.accept e with ⟨result, b⟩
  rcases result with f | ⟨⟩
  · exact (left_of_failed haccept).nextScope
  · exact (taken_of_handle haccept).nextScope_le

theorem nextScope_afterAll (a : Assembly) (es : List Event) :
    a.nextScope ≤ (a.afterAll es).nextScope := by
  induction es generalizing a with
  | nil => exact Nat.le_refl _
  | cons e es ih => exact Nat.le_trans (a.nextScope_accept e) (ih _)

end Assembly

def Scopes.opened (known : Scopes) (n m : Nat) : Scopes :=
  (List.range' n (m - n)).foldl (fun known i => known.put ⟨i⟩ {}) known

theorem Scopes.get_opened (known : Scopes) (n m : Nat) (s : Scope) :
    (known.opened n m).get s = if n ≤ s.id ∧ s.id < m then {} else known.get s := by
  have hput (is : List Nat) : (is.foldl (fun known i => known.put ⟨i⟩ {}) known).get s =
      if s.id ∈ is then {} else known.get s := by
    induction is generalizing known with
    | nil => rfl
    | cons i is ih =>
      have hid : s = ⟨i⟩ ↔ s.id = i := ⟨fun h => h ▸ rfl, fun h => h ▸ rfl⟩
      rw [List.foldl_cons, ih, Scopes.get_put]
      grind
  rw [opened, hput]
  grind

/-- The store after some events, whatever comes of each, where every scope that is given out comes in
with nothing declared in it. -/
def Assembly.storeAfter (a : Assembly) (known : Scopes) : List Event → Scopes
  | [] => known
  | e :: es =>
    let b := (a.accept e).2
    b.storeAfter (known.opened a.nextScope b.nextScope) es

theorem Assembly.get_storeAfter (a : Assembly) (known : Scopes) (es : List Event) (s : Scope) :
    (a.storeAfter known es).get s =
      if a.nextScope ≤ s.id ∧ s.id < (a.afterAll es).nextScope then {} else known.get s := by
  induction es generalizing a known with
  | nil => grind [storeAfter, afterAll]
  | cons e es ih =>
    have hstep := a.nextScope_accept e
    have hrest := (a.accept e).2.nextScope_afterAll es
    have hafter : a.afterAll (e :: es) = (a.accept e).2.afterAll es := rfl
    rw [storeAfter, ih, Scopes.get_opened, hafter]
    grind

theorem Program.scopes_perm (p : Program) : p.scopes.Perm p.owned := by
  have hscopes : p.scopes = scopesAt (p.sites []) := by
    rw [Program.scopes, p.places_eq, List.filterMap_map, scopesAt,
      List.filterMap_eq_flatMap_toList]
    rfl
  rw [hscopes]
  exact p.perm_scopesAt

theorem Assembly.owned_of_ofEvents {es : List Event} {p : Program}
    (h : Program.ofEvents es = .ok p) : p.scopes ⊆ (afterAll {} es).owned := by
  obtain ⟨a, ha, -, hprogram⟩ := Program.exists_assembly_of_ofEvents h
  rw [afterAll_of_acceptAll ha, owned, hprogram]
  exact List.Subset.trans p.scopes_perm.subset (List.subset_append_right _ _)

/-- Every program, function and block has a scope of its own in which nothing is declared. Say that
`n` scopes have been given out before. Then whatever events come, and whatever comes of each, the
scopes of what there is after them are all different. Whatever the store was, nothing is declared in
them once they have come in, and those given out before are left as they were; so nothing was known
of them either if nothing was known of any but the first `n`. And no two parts of a program share a
scope, nor is anything declared in one. -/
theorem every_scope_is_fresh (n : Nat) (known : Scopes) (es : List Event) :
    (Assembly.afterAll { nextScope := n } es).owned.Nodup ∧
      (∀ s ∈ (Assembly.afterAll { nextScope := n } es).owned,
        (Assembly.storeAfter { nextScope := n } known es).get s = {}) ∧
      (∀ s : Scope, s.id < n →
        (Assembly.storeAfter { nextScope := n } known es).get s = known.get s) ∧
      ((∀ s : Scope, n ≤ s.id → known.get s = {}) →
        ∀ s ∈ (Assembly.afterAll { nextScope := n } es).owned, known.get s = {}) ∧
      ∀ p, Program.ofEvents es = .ok p → p.scopes.Nodup ∧
        ∀ s ∈ p.scopes, (Assembly.storeAfter {} known es).get s = {} := by
  have howns (n : Nat) := (Assembly.owns_empty n).afterAll es
  have hlater (n : Nat) : ∀ s ∈ (Assembly.afterAll { nextScope := n } es).owned, n ≤ s.id := by
    obtain ⟨-, -, hapart⟩ := List.nodup_append'.1 (howns n).nodup
    intro s hs
    apply Nat.le_of_not_lt
    intro hlt
    exact List.disjoint_left.1 hapart (List.mem_map.2 ⟨s.id, List.mem_range.2 hlt, rfl⟩) hs
  have hempty (n : Nat) : ∀ s ∈ (Assembly.afterAll { nextScope := n } es).owned,
      (Assembly.storeAfter { nextScope := n } known es).get s = {} := by
    intro s hs
    rw [Assembly.get_storeAfter]
    exact if_pos ⟨hlater n s hs, (howns n).id_lt hs⟩
  refine ⟨(List.nodup_append'.1 (howns n).nodup).2.1, hempty n, fun s hs => ?_,
    fun hknown s hs => hknown s (hlater n s hs), fun p hp => ⟨?_, fun s hs => ?_⟩⟩
  · rw [Assembly.get_storeAfter]
    exact if_neg fun h => Nat.not_le_of_lt hs h.1
  · exact p.scopes_perm.nodup_iff.2 (Program.distinct_of_ofEvents hp)
  · exact hempty 0 s (Assembly.owned_of_ofEvents hp hs)

/-- A function and a program of it, in a stream that goes on after failures: a block closed in
place of another is lost, and so is the scope of a program whose function is missing. -/
def lossyStream : List Event :=
  [⟨0, 2, .enterBlock⟩, ⟨1, 3, .enterBlock⟩, ⟨0, 2, .exitBlock⟩, ⟨2, 3, .brk⟩, ⟨0, 2, .exitBlock⟩,
    ⟨3, 1, .function ⟨.identifier, "f", default⟩ [] none 0⟩, ⟨4, 0, .program [] [3]⟩,
    ⟨5, 0, .program [] [9]⟩, ⟨6, 1, .enterBlock⟩, ⟨7, 2, .enterBlock⟩]

def knownName : Scopes := ({} : Scopes).put ⟨0⟩ { table := ⟨[⟨"x", .int⟩]⟩ }

theorem lossyStream_is_fresh :
    (Assembly.afterAll { nextScope := 1 } lossyStream).owned = [⟨7⟩, ⟨6⟩, ⟨3⟩, ⟨1⟩, ⟨4⟩] ∧
      ([⟨7⟩, ⟨6⟩, ⟨3⟩, ⟨1⟩, ⟨4⟩] : List Scope).Nodup ∧
      (∀ s ∈ ([⟨7⟩, ⟨6⟩, ⟨3⟩, ⟨1⟩, ⟨4⟩] : List Scope), knownName.get s = {} ∧
        (Assembly.storeAfter { nextScope := 1 } knownName lossyStream).get s = {}) ∧
      knownName.get ⟨0⟩ ≠ {} ∧
      (Assembly.storeAfter { nextScope := 1 } knownName lossyStream).get ⟨0⟩ ≠ {} := by
  have howned : (Assembly.afterAll { nextScope := 1 } lossyStream).owned =
      [⟨7⟩, ⟨6⟩, ⟨3⟩, ⟨1⟩, ⟨4⟩] := rfl
  have hknown : ∀ s : Scope, 1 ≤ s.id → knownName.get s = {} := by
    intro s hs
    have hne : s ≠ ⟨0⟩ := by
      rintro rfl
      exact absurd hs (by decide)
    rw [knownName, Scopes.get_put, if_neg hne, Scopes.get_empty]
  have hname : knownName.get ⟨0⟩ ≠ {} := by decide
  obtain ⟨hnodup, hstore, hkept, hempty, -⟩ := every_scope_is_fresh 1 knownName lossyStream
  rw [howned] at hnodup hstore hempty
  refine ⟨howned, hnodup, fun s hs => ⟨hempty hknown s hs, hstore s hs⟩, hname, ?_⟩
  rwa [hkept ⟨0⟩ (by decide)]

end TinyScript
