import TinyScript.Proofs.Reading.Viable

/-! Reading goes on, and it comes to an end. Whatever is read by itself passes at least one token if
it goes well, and it never passes an end of text, at which every reading stops or fails. So goals
within goals are only so deep, and allowing more depth makes no difference to what is read. -/

namespace TinyScript

open Reader

namespace Goal

/-- What is read by itself, and not as the rest of something. -/
inductive Whole : Goal → Prop
  | statement : Whole (.rule .statement)
  | expr (power : Power) : Whole (.expr power)
  | fullExpr : Whole (.rule .fullExpr)
  | call (name : Token) : Whole (.call name)
  | block : Whole (.rule .block)
  | function : Whole (.rule .function)

variable {goal : Goal}

theorem Whole.ready (h : goal.Whole) (t : Token) : goal.Ready t := by
  cases h <;> exact trivial

theorem Whole.tokens_ne_nil (h : goal.Whole) {i d : Nat} {t : Token} {y : Yield}
    (hy : goal.Yields i d t y) : y.tokens ≠ [] := by
  cases h with
  | statement =>
    obtain ⟨s, rfl⟩ := hy
    exact s.tokens_ne_nil
  | expr power =>
    obtain ⟨e, rfl⟩ := hy
    exact e.tokens_ne_nil nofun
  | fullExpr =>
    obtain ⟨e, rfl⟩ := hy
    exact e.tokens_ne_nil nofun
  | call name =>
    obtain ⟨opening, arguments, closing, rfl⟩ := hy
    exact List.cons_ne_nil _ _
  | block =>
    obtain ⟨⟨opening, body, closing⟩, rfl⟩ := hy
    exact List.cons_ne_nil _ _
  | function =>
    obtain ⟨f, rfl⟩ := hy
    exact List.cons_ne_nil _ _

end Goal

theorem TypeTree.tokens_ne_nil (t : TypeTree) : t.tokens ≠ [] := by
  cases t <;> exact List.cons_ne_nil _ _

namespace Reader

variable {α : Type} {r : Reader}

/-- From `r` the step passes tokens of which none is an end of text, and at least one if it goes
well. -/
def GoesOn (act : ReadM α) (r : Reader) : Prop :=
  ∃ ts, r.tokens = ts ++ (outcome act r).2.tokens ∧ (∀ t ∈ ts, t.kind ≠ .eof) ∧
    ((outcome act r).1.isOk → ts ≠ [])

theorem goesOn_of_leads {act : ReadM α} (enough : Prop)
    (h : Leads act r (fun _ r' => ∃ ts es n, Passed r r' ts es n ∧ ts ≠ [])
      fun e r' => ∃ es, Halted enough r r' es e) : GoesOn act r := by
  unfold Leads at h
  unfold GoesOn
  split at h
  · next a r' ho =>
    obtain ⟨ts, es, n, p, hne⟩ := h
    rw [ho]
    exact ⟨ts, p.tokens, p.inside, fun _ => hne⟩
  · next e r' ho =>
    obtain ⟨es, hhalted⟩ := h
    obtain ⟨ts, htokens, hinside, -⟩ := hhalted.tokens
    rw [ho]
    exact ⟨ts, htokens, hinside, nofun⟩

/-- The step does not fail for want of depth, and the readings that may go `depth` deep or deeper
all come to the same. -/
def Settles (act : ReadM α) (within : Nat → ReadM α) (depth : Nat) (r : Reader) : Prop :=
  ¬ Starved (outcome act r).1 ∧ ∀ n, depth ≤ n → outcome (within n) r = outcome act r

theorem outcome_read (goal : Goal) (r : Reader) :
    outcome (read .standard goal) r = outcome (within .standard r.maxGoals goal) r :=
  outcome_bind_ok (outcome_get r) _

theorem goesOn_read {goal : Goal} (h : goal.Whole) (hc : r.Closed) :
    GoesOn (read .standard goal) r := by
  apply goesOn_of_leads (goal.cost r < r.maxGoals)
  have hread := within_reads r.maxGoals goal hc (h.ready _)
  rw [Leads, outcome_read]
  refine hread.mono ?_ ?_
  · rintro id r' ⟨y, hy, p, -⟩
    exact ⟨_, _, _, p, h.tokens_ne_nil hy⟩
  · rintro e r' ⟨y, -, hhalted⟩
    exact ⟨_, hhalted⟩

theorem settles_read {goal : Goal} (hc : r.Closed) (hready : goal.Ready r.current) :
    Settles (read .standard goal) (within .standard · goal) r.maxGoals r := by
  have hroom := not_starved_within hc hready
  unfold Settles
  rw [outcome_read]
  refine ⟨hroom, fun n hn => ?_⟩
  exact (within_replays hn goal hc hready).outcome_eq hc hroom

theorem goesOn_readType (hc : r.Closed) : GoesOn (readType .standard) r := by
  apply goesOn_of_leads True
  apply leads_readType hc (.refl r)
  · intro t r' p
    exact ⟨_, _, _, p, t.tokens_ne_nil⟩
  · intro e r' (hhalted : Halted True r r' [] e)
    exact ⟨_, hhalted⟩

theorem settles_readType (hc : r.Closed) :
    Settles (readType .standard) (typeWithin .standard) (r.upcoming.length + 1) r := by
  have hroom := not_starved_typeWithin hc (Nat.lt_succ_self r.upcoming.length)
  unfold Settles
  rw [outcome_readType]
  refine ⟨hroom, fun n hn => ?_⟩
  exact (replays_typeWithin hn hc).outcome_eq hc hroom

end Reader

/-- Reading goes on and comes to an end, whatever the tokens are. From any of them on, a statement,
an expression of any strength, a call, a block, a function or a type that is read has at least one
token; reading it comes back to no earlier token and passes no end of text, also where it fails; and
it goes so deep into goals within goals and no deeper. So a parse ends with events or with an error,
and not for want of depth. -/
theorem reading_goes_on_and_ends (tokens : List Token) (file : String) :
    (∀ r : Reader, r.tokens <:+ (ofTokens tokens file).tokens →
      (∀ goal : Goal, goal.Whole → GoesOn (Reader.read .standard goal) r ∧
        Settles (Reader.read .standard goal) (within .standard · goal) r.maxGoals r) ∧
      GoesOn (readType .standard) r ∧
      Settles (readType .standard) (typeWithin .standard) (r.upcoming.length + 1) r) ∧
    Settles (Reader.read .standard (.program [] [])) (within .standard · (.program [] []))
      (ofTokens tokens file).maxGoals (ofTokens tokens file) ∧
    ¬ Starved (parse tokens file).1 := by
  have hclosed := closed_ofTokens tokens file
  have hprogram : Settles (Reader.read .standard (.program [] []))
      (within .standard · (.program [] [])) (ofTokens tokens file).maxGoals
      (ofTokens tokens file) := settles_read hclosed trivial
  refine ⟨fun r hr => ?_, hprogram, ?_⟩
  · have hc := hclosed.of_suffix hr
    exact ⟨fun goal h => ⟨goesOn_read h hc, settles_read hc (h.ready _)⟩, goesOn_readType hc,
      settles_readType hc⟩
  · rintro ⟨p, hp⟩
    have hparse : parse tokens file = (.error ⟨.circularGrammar, p⟩, (parse tokens file).2) :=
      Prod.ext hp rfl
    apply hprogram.1
    rw [outcome_of_parse_error tokens file hparse]
    exact ⟨p, rfl⟩

/-- An end of text stands in the middle, and none at the end. -/
def endInside : List Token :=
  [⟨.identifier, "a", .atBytes "shell" 0 1⟩, ⟨.assignment, "=", .atBytes "shell" 2 3⟩,
    ⟨.number, "1", .atBytes "shell" 4 5⟩, ⟨.semicolon, ";", .atBytes "shell" 5 6⟩,
    .eofAt (.atByte "shell" 6), ⟨.identifier, "b", .atBytes "shell" 6 7⟩]

theorem endInside_goes_on :
    (outcome (Reader.read .standard (.rule .statement)) (ofTokens endInside "shell")).2.tokens =
        (ofTokens endInside "shell").tokens.drop 4 ∧
      GoesOn (Reader.read .standard (.rule .statement)) (ofTokens endInside "shell") ∧
      ¬ Starved (parse endInside "shell").1 := by
  obtain ⟨hfrom, -, hparse⟩ := reading_goes_on_and_ends endInside "shell"
  obtain ⟨hgoals, -⟩ := hfrom (ofTokens endInside "shell") List.suffix_rfl
  exact ⟨by rfl, (hgoals (.rule .statement) .statement).1, hparse⟩

end TinyScript
