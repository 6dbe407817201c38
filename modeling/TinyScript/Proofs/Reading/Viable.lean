import TinyScript.Proofs.Reading.Lookahead
import TinyScript.Proofs.Reading.Stopping

/-! What a parse comes to is settled by the tokens up to the one at which it stops. And it stops as
early as can be: where it did not expect a token, the tokens before that one are the start of a
text that is parsed, or of one in which nothing but an open `map` is amiss. -/

namespace TinyScript

open Reader

theorem Reader.not_starved_within {r : Reader} (hc : r.Closed) {goal : Goal}
    (hready : goal.Ready r.current) :
    ¬ Starved (outcome (within .standard r.maxGoals goal) r).1 := by
  rintro ⟨p, hp⟩
  obtain ⟨y, -, hhalted⟩ := (within_reads r.maxGoals goal hc hready).bad_of (Prod.ext hp rfl)
  obtain ⟨ts, -, -, hblame⟩ := hhalted.tokens
  cases hblame with
  | noRoom h => exact h (cost_lt_maxGoals goal r)

theorem ownRoom_program :
    OwnRoom (Reader.read .standard (.program [] [])) (within .standard · (.program [] [])) :=
  fun r hc => ⟨r.maxGoals, outcome_bind_ok (outcome_get r) _, not_starved_within hc trivial⟩

theorem program_replays {r : Reader} (hc : r.Closed) :
    Replays (Reader.read .standard (.program [] [])) (Reader.read .standard (.program [] [])) r
      ((Goal.program [] []).Begins r) :=
  ownRoom_program.replays (fun _ _ hnm _ hc => within_replays hnm _ hc trivial) hc

theorem Reader.closed_of_ended {t : Token} {ts : List Token} (h : Ended (t :: ts)) :
    closed t ts = ts := by
  induction ts generalizing t with
  | nil =>
    obtain ⟨u, hu, hk⟩ := h
    cases hu
    exact if_pos hk
  | cons u us ih =>
    rw [closed, ih ((ended_append [t] (List.cons_ne_nil u us)).1 h)]

theorem Reader.onto_ofTokens (tokens : List Token) (file : String) {tokens' : List Token}
    (h : Ended tokens') (file' : String) :
    (ofTokens tokens file).onto tokens' = ofTokens tokens' file' := by
  obtain ⟨t, ts, rfl⟩ := List.exists_cons_of_ne_nil h.ne_nil
  have hclosed := closed_of_ended h
  cases tokens <;> simp [onto, ofTokens, hclosed]

theorem Reader.tokens_of_ended {tokens : List Token} (h : Ended tokens) (file : String) :
    (ofTokens tokens file).tokens = tokens := by
  rw [← onto_ofTokens tokens file h file, tokens_onto _ h.ne_nil]

section Again

variable (tokens : List Token) (file : String)

theorem parse_eq_read : parse tokens file =
    match outcome (Reader.read .standard (.program [] [])) (ofTokens tokens file) with
    | (.ok _, r) => (.ok r.events.toList, r)
    | (.error e, r) => (.error e, r) := rfl

theorem outcome_of_parse_error {e : Error} {r : Reader} (h : parse tokens file = (.error e, r)) :
    outcome (Reader.read .standard (.program [] [])) (ofTokens tokens file) = (.error e, r) := by
  rw [parse_eq_read] at h
  split at h
  · cases h
  · next e' r' ho =>
    cases h
    exact ho

theorem parse_again {ts rest : List Token}
    (hts : (ofTokens tokens file).tokens = ts ++ (parse tokens file).2.tokens)
    (hrest : Ended ((parse tokens file).2.current :: rest)) (file' : String) :
    parse (ts ++ (parse tokens file).2.current :: rest) file' =
      ((parse tokens file).1,
        (parse tokens file).2.onto ((parse tokens file).2.current :: rest)) := by
  obtain ⟨us, hus⟩ := program_replays (closed_ofTokens tokens file)
  obtain ⟨n, hact, hs⟩ := ownRoom_program _ (closed_ofTokens tokens file)
  rw [← hact] at hs
  rcases ho : outcome (Reader.read .standard (.program [] [])) (ofTokens tokens file) with
    ⟨result, r⟩
  rw [ho] at hus hs
  have hended : Ended (ts ++ (parse tokens file).2.current :: rest) :=
    (ended_append ts (List.cons_ne_nil _ _)).2 hrest
  have hparse : (parse tokens file).2 = r := by
    rw [parse_eq_read, ho]
    cases result <;> rfl
  rw [hparse] at hts hrest hended ⊢
  obtain rfl : us = ts := List.append_cancel_right (hus.tokens.symm.trans hts)
  rw [parse_eq_read, ← onto_ofTokens tokens file hended, hus.again hs rest hrest, parse_eq_read, ho]
  cases result <;> rfl

theorem kind_ne_of_mem_take {t : Token} (h : t ∈ tokens.take (stopIndex tokens file)) :
    t.kind ≠ .eof := by
  obtain ⟨ts, hts, hin, -⟩ := parse_stops tokens file
  rw [take_stopIndex tokens file hin hts] at h
  exact hin t h

theorem stopIndex_le {before after : List Token} {last : Token} (h : last.kind = .eof) :
    stopIndex (before ++ last :: after) file ≤ before.length := by
  by_contra hlt
  obtain ⟨k, hk⟩ := Nat.exists_eq_add_of_lt (Nat.lt_of_not_le hlt)
  refine kind_ne_of_mem_take (before ++ last :: after) file (t := last) ?_ h
  simp [hk, List.take_append, Nat.add_assoc]

theorem parse_congr (h : Ended tokens) {tokens' : List Token} (h' : Ended tokens')
    (file' : String)
    (htake : tokens'.take (stopIndex tokens file + 1) = tokens.take (stopIndex tokens file + 1)) :
    (parse tokens' file').1 = (parse tokens file).1 ∧
      (parse tokens' file').2.events = (parse tokens file).2.events := by
  obtain ⟨ts, hts, hin, -⟩ := parse_stops tokens file
  have hdrop := drop_stopIndex tokens file
  rw [tokens_of_ended h] at hdrop
  have hcurrent : tokens[stopIndex tokens file]? = some (parse tokens file).2.current := by
    rw [← List.head?_drop, hdrop]
    rfl
  rw [List.take_add_one (l := tokens), hcurrent, take_stopIndex tokens file hin hts] at htake
  obtain ⟨rest, rfl⟩ : ∃ rest, tokens' = ts ++ (parse tokens file).2.current :: rest := by
    refine ⟨tokens'.drop (stopIndex tokens file + 1), ?_⟩
    conv_lhs => rw [← List.take_append_drop (stopIndex tokens file + 1) tokens', htake]
    simp
  rw [parse_again tokens file hts ((ended_append ts (List.cons_ne_nil _ _)).1 h') file']
  exact ⟨rfl, rfl⟩

end Again

/-- What a parse of a text with an end comes to is settled by the tokens up to the one at which it
stops. It passes no end of text, and stops at one if it goes well; so it takes no notice of what
comes after the first. -/
theorem parse_looks_no_further (tokens : List Token) (file : String) (hended : Ended tokens) :
    tokens.drop (stopIndex tokens file) = (parse tokens file).2.tokens ∧
    (∀ t ∈ tokens.take (stopIndex tokens file), t.kind ≠ .eof) ∧
    (∀ es, (parse tokens file).1 = .ok es → (parse tokens file).2.current.kind = .eof) ∧
    (∀ tokens' file', Ended tokens' →
      tokens'.take (stopIndex tokens file + 1) = tokens.take (stopIndex tokens file + 1) →
      (parse tokens' file').1 = (parse tokens file).1 ∧
        (parse tokens' file').2.events = (parse tokens file).2.events) ∧
    ∀ before last after after' file', tokens = before ++ last :: after → last.kind = .eof →
      Ended (last :: after') →
      (parse (before ++ last :: after') file').1 = (parse tokens file).1 ∧
        (parse (before ++ last :: after') file').2.events = (parse tokens file).2.events := by
  have hdrop := drop_stopIndex tokens file
  rw [tokens_of_ended hended] at hdrop
  refine ⟨hdrop, fun t ht => kind_ne_of_mem_take tokens file ht, ?_, ?_, ?_⟩
  · intro es hes
    obtain ⟨ts, -, -, -, hwhy⟩ := parse_stops tokens file
    rwa [hes] at hwhy
  · intro tokens' file' hended' htake
    exact parse_congr tokens file hended hended' file' htake
  · rintro before last after after' file' rfl hlast hafter'
    have hended' := (ended_append before (List.cons_ne_nil last after')).2 hafter'
    apply parse_congr (before ++ last :: after) file hended hended' file'
    have hle : stopIndex (before ++ last :: after) file ≤ before.length := stopIndex_le file hlast
    generalize stopIndex (before ++ last :: after) file = i at hle ⊢
    have htake : ∀ us, (before ++ last :: us).take (i + 1) = (before ++ [last]).take (i + 1) := by
      intro us
      rw [List.append_cons, List.take_append_of_le_length (by simpa using hle)]
    rw [htake after', htake after]

def danglingComma (rest : List Token) : List Token :=
  [⟨.identifier, "x", .atBytes "shell" 0 1⟩, ⟨.assignment, "=", .atBytes "shell" 2 3⟩,
    ⟨.identifier, "f", .atBytes "shell" 4 5⟩, ⟨.openParen, "(", .atBytes "shell" 5 6⟩,
    ⟨.number, "1", .atBytes "shell" 6 7⟩, ⟨.comma, ",", .atBytes "shell" 7 8⟩,
    ⟨.closeParen, ")", .atBytes "shell" 9 10⟩] ++ rest

theorem parse_danglingComma :
    stopIndex (danglingComma [⟨.semicolon, ";", .atBytes "shell" 10 11⟩, .eofAt default]) "shell" =
      6 ∧
    (parse (danglingComma [.eofAt default]) "other").1 =
      .error ⟨.unexpectedTokenDetailed ")" "expected argument after `,`", .atByte "shell" 9⟩ := by
  let tokens := danglingComma [⟨.semicolon, ";", .atBytes "shell" 10 11⟩, .eofAt default]
  have hended : Ended tokens := ⟨.eofAt default, rfl, rfl⟩
  have hstop : stopIndex tokens "shell" = 6 := by rfl
  obtain ⟨-, -, -, hcongr, -⟩ := parse_looks_no_further tokens "shell" hended
  rw [hstop] at hcongr
  have hsame := (hcongr (danglingComma [.eofAt default]) "other" ⟨.eofAt default, rfl, rfl⟩ rfl).1
  refine ⟨hstop, hsame.trans ?_⟩
  rfl

section Continuations

variable {r : Reader} {ts : List Token} (file : String)

theorem exists_parse_of_begins (h : (Goal.program [] []).Begins r ts) :
    ∃ us, Ended us ∧ ∃ es r', parse (ts ++ us) file = (.ok es, r') := by
  obtain ⟨_, ⟨items, rfl⟩, us, hus⟩ := h
  let last : Token := .eofAt default
  have hended : ∀ us, Ended (us ++ [last]) := fun us => ⟨last, by simp, rfl⟩
  have htokens : (ofTokens (ts ++ (us ++ [last])) file).tokens =
      (ProgramTree.mk items).tokens ++ [last] := by
    rw [← List.append_assoc, hus, tokens_of_ended (hended _)]
    rfl
  exact ⟨us ++ [last], hended us, _, parse_program rfl htokens⟩

theorem exists_parse_of_refuses {tokens : List Token}
    (h : Refuses (Reader.read .standard (.program [] [])) (ofTokens tokens file) ts) :
    ∃ us, Ended us ∧ ∃ t r', MapAnnotation ts t ∧
      parse (ts ++ us) file = (.error ⟨.unsupportedCollection "map", t.span.start⟩, r') := by
  obtain ⟨t, us, hmap, hrefuses⟩ := h
  let last : Token := .eofAt default
  have hus : Ended (us ++ [last]) := ⟨last, by simp, rfl⟩
  obtain ⟨r', hr'⟩ := hrefuses [last] hus
  rw [onto_ofTokens tokens file ((ended_append ts hus.ne_nil).2 hus) file] at hr'
  obtain ⟨before, mark, outer, after, -, -, -, -, hv⟩ := id hmap
  refine ⟨us ++ [last], hus, t, r', hmap, ?_⟩
  rw [parse_eq_read, hr', hv]

end Continuations

/-- Where a parse stops at a token it did not expect, the tokens before that one can be gone on with
to a text that is parsed; or, if there is a `map` among them in an annotation, to one that is
refused for that `map` alone. -/
theorem parse_unexpected_is_earliest (tokens : List Token) (file : String) (e : Error) (r : Reader)
    (h : parse tokens file = (.error e, r)) (hunexpected : e.IsUnexpected) :
    (ofTokens tokens file).tokens.drop (stopIndex tokens file) = r.tokens ∧
    ∃ us, Ended us ∧
      ((∃ es r', parse (tokens.take (stopIndex tokens file) ++ us) file = (.ok es, r')) ∨
        ∃ t r', MapAnnotation (tokens.take (stopIndex tokens file)) t ∧
          parse (tokens.take (stopIndex tokens file) ++ us) file =
            (.error ⟨.unsupportedCollection "map", t.span.start⟩, r')) := by
  have hdrop := drop_stopIndex tokens file
  obtain ⟨ts, hts, hin, -⟩ := parse_stops tokens file
  rw [take_stopIndex tokens file hin hts]
  rw [h] at hdrop hts
  refine ⟨hdrop, ?_⟩
  obtain ⟨us, hus⟩ := program_replays (closed_ofTokens tokens file)
  rw [outcome_of_parse_error tokens file h] at hus
  obtain rfl : us = ts := List.append_cancel_right (hus.tokens.symm.trans hts)
  rcases hus.stuck e rfl hunexpected with hbegins | hrefuses
  · obtain ⟨vs, hvs, hparsed⟩ := exists_parse_of_begins file hbegins
    exact ⟨vs, hvs, .inl hparsed⟩
  · obtain ⟨vs, hvs, hrefused⟩ := exists_parse_of_refuses file hrefuses
    exact ⟨vs, hvs, .inr hrefused⟩

/-- After `list<map<` a semicolon is out of place. -/
theorem parse_openMap :
    ∃ r, parse (mapParameter.take 9 ++ [⟨.semicolon, ";", .atBytes "shell" 18 19⟩]) "shell" =
        (.error ⟨.unexpectedToken ";", .atByte "shell" 18⟩, r) ∧
      ∃ us, Ended us ∧ ((∃ es r', parse (mapParameter.take 9 ++ us) "shell" = (.ok es, r')) ∨
        ∃ t r', MapAnnotation (mapParameter.take 9) t ∧
          parse (mapParameter.take 9 ++ us) "shell" =
            (.error ⟨.unsupportedCollection "map", t.span.start⟩, r')) := by
  let tokens := mapParameter.take 9 ++ [⟨.semicolon, ";", .atBytes "shell" 18 19⟩]
  have herror : (parse tokens "shell").1 = .error ⟨.unexpectedToken ";", .atByte "shell" 18⟩ := by
    rfl
  have hparse : parse tokens "shell" =
      (.error ⟨.unexpectedToken ";", .atByte "shell" 18⟩, (parse tokens "shell").2) :=
    Prod.ext herror rfl
  have hstop : stopIndex tokens "shell" = 9 := by rfl
  obtain ⟨-, hus⟩ := parse_unexpected_is_earliest tokens "shell" _ _ hparse trivial
  rw [hstop] at hus
  exact ⟨_, hparse, hus⟩

end TinyScript
