import TinyScript.Proofs.Reading.Parse

/-! Where a parse stops. It passes no end of text, comes back up from every level of nesting, and
stops at the first end of text if it goes well; if it fails, its error is about the token it stops
at or about the name of a type that it has passed. -/

namespace TinyScript

open Reader

/-- The place, counted from 0, of the token that is current when a parse returns. -/
def stopIndex (tokens : List Token) (file : String) : Nat :=
  (ofTokens tokens file).tokens.length - (parse tokens file).2.tokens.length

section Stopping

variable (tokens : List Token) (file : String)

theorem Reader.tokens_ofTokens :
    ∃ us, (ofTokens tokens file).tokens = tokens ++ us ∧ ∀ u ∈ us, u.kind = .eof := by
  cases tokens with
  | nil => exact ⟨[.eofAt ⟨0, file⟩], rfl, by simp [Token.eofAt]⟩
  | cons t ts =>
    obtain ⟨us, hus, heof, -⟩ := cons_closed t ts
    exact ⟨us, hus, heof⟩

theorem parse_stops :
    ∃ ts, (ofTokens tokens file).tokens = ts ++ (parse tokens file).2.tokens ∧
      (∀ t ∈ ts, t.kind ≠ .eof) ∧ (parse tokens file).2.depth = 0 ∧
      match (parse tokens file).1 with
      | .ok _ => (parse tokens file).2.current.kind = .eof
      | .error e => Blame True ts (parse tokens file).2 e := by
  have hread := within_reads (ofTokens tokens file).maxGoals (.program [] [])
    (closed_ofTokens tokens file) trivial
  rw [parse_eq]
  rcases ho : outcome (within .standard (ofTokens tokens file).maxGoals (.program [] []))
    (ofTokens tokens file) with ⟨result, r⟩
  cases result with
  | ok id =>
    obtain ⟨y, -, p, -, hend⟩ := hread.ok_of ho
    exact ⟨y.tokens, p.tokens, p.inside, by simpa using p.depth, hend⟩
  | error e =>
    obtain ⟨y, -, hh⟩ := hread.bad_of ho
    obtain ⟨ts, hts, hin, hb⟩ := hh.tokens
    refine ⟨ts, hts, hin, by simpa using hh.depth, ?_⟩
    simpa using hb.mono (fun _ => cost_lt_maxGoals _ _) []

theorem take_stopIndex {ts : List Token} (hin : ∀ t ∈ ts, t.kind ≠ .eof)
    (h : (ofTokens tokens file).tokens = ts ++ (parse tokens file).2.tokens) :
    tokens.take (stopIndex tokens file) = ts := by
  have hlength : stopIndex tokens file = ts.length := by
    unfold stopIndex
    rw [h, List.length_append, Nat.add_sub_cancel]
  obtain ⟨us, hus, heof⟩ := tokens_ofTokens tokens file
  rw [hlength]
  rcases List.append_eq_append_iff.1 (hus.symm.trans h) with ⟨as, rfl, hrest⟩ | ⟨as, rfl, -⟩
  · cases as with
    | nil => simp
    | cons a as =>
      have ha : a ∈ us := by simp [hrest]
      exact absurd (heof a ha) (hin a (by simp))
  · simp

theorem drop_stopIndex :
    (ofTokens tokens file).tokens.drop (stopIndex tokens file) = (parse tokens file).2.tokens := by
  obtain ⟨ts, hts, -⟩ := parse_stops tokens file
  unfold stopIndex
  rw [hts, List.length_append, Nat.add_sub_cancel, List.drop_left]

end Stopping

/-- A parse comes back up from every level of nesting. One that fails stops at a token it did not
expect, and names it; or else it names a token that it has passed: the last one, as the name of no
type, or a `map`, as a collection that is not supported. -/
theorem parse_error_points_at_token (tokens : List Token) (file : String) :
    (parse tokens file).2.depth = 0 ∧
    ∀ e r, parse tokens file = (.error e, r) →
      (ofTokens tokens file).tokens.drop (stopIndex tokens file) = r.tokens ∧
      (e = ⟨.unexpectedToken r.current.value, r.current.span.start⟩ ∨
        (∃ message,
          e = ⟨.unexpectedTokenDetailed r.current.value message, r.current.span.start⟩) ∨
        (∃ t, (tokens.take (stopIndex tokens file)).getLast? = some t ∧ t.kind = .identifier ∧
          e = ⟨.unknownType t.value, t.span.start⟩) ∨
        ∃ t ∈ tokens.take (stopIndex tokens file), t.kind = .identifier ∧ t.value = "map" ∧
          e = ⟨.unsupportedCollection t.value, t.span.start⟩) := by
  obtain ⟨ts, hts, hin, hdepth, hwhy⟩ := parse_stops tokens file
  have htake := take_stopIndex tokens file hin hts
  have hdrop := drop_stopIndex tokens file
  refine ⟨hdepth, fun e r h => ?_⟩
  rw [h] at hdrop hwhy
  have hblame : Blame True ts r e := hwhy
  refine ⟨hdrop, ?_⟩
  rw [htake]
  cases hblame with
  | mismatch => exact .inl rfl
  | unexpected message => exact .inr (.inl ⟨message, rfl⟩)
  | @unknownType us t hus hk => exact .inr (.inr (.inl ⟨t, by simp [hus], hk, rfl⟩))
  | @unsupported t ht hk hv => exact .inr (.inr (.inr ⟨t, ht, hk, hv, rfl⟩))
  | noRoom hn => exact absurd trivial hn

/-- The start of a function with a parameter of the type `list<map<int>>`, up to the inner `>`. -/
def mapParameter : List Token :=
  [⟨.defWord, "def", .atBytes "shell" 0 3⟩, ⟨.identifier, "f", .atBytes "shell" 4 5⟩,
    ⟨.openParen, "(", .atBytes "shell" 5 6⟩, ⟨.identifier, "a", .atBytes "shell" 6 7⟩,
    ⟨.colon, ":", .atBytes "shell" 7 8⟩, ⟨.identifier, "list", .atBytes "shell" 9 13⟩,
    ⟨.less, "<", .atBytes "shell" 13 14⟩, ⟨.identifier, "map", .atBytes "shell" 14 17⟩,
    ⟨.less, "<", .atBytes "shell" 17 18⟩, ⟨.identifier, "int", .atBytes "shell" 18 21⟩,
    ⟨.greater, ">", .atBytes "shell" 21 22⟩]

theorem parse_mapParameter :
    ∃ r, parse mapParameter "shell" =
        (.error ⟨.unsupportedCollection "map", .atByte "shell" 14⟩, r) ∧
      r.current = .eofAt (.atByte "shell" 22) ∧ r.depth = 0 ∧
      ∃ t ∈ mapParameter, t.kind = .identifier ∧ t.value = "map" ∧
        t.span.start = .atByte "shell" 14 := by
  have herror : (parse mapParameter "shell").1 =
      .error ⟨.unsupportedCollection "map", .atByte "shell" 14⟩ := by rfl
  have hcurrent : (parse mapParameter "shell").2.current = .eofAt (.atByte "shell" 22) := by rfl
  have hpair : parse mapParameter "shell" =
      (.error ⟨.unsupportedCollection "map", .atByte "shell" 14⟩,
        (parse mapParameter "shell").2) := Prod.ext herror rfl
  obtain ⟨hdepth, hpoints⟩ := parse_error_points_at_token mapParameter "shell"
  obtain ⟨-, hcause⟩ := hpoints _ _ hpair
  rcases hcause with h | ⟨_, h⟩ | ⟨_, _, _, h⟩ | ⟨t, ht, hk, hv, he⟩
  · cases h
  · cases h
  · cases h
  · exact ⟨_, hpair, hcurrent, hdepth, t, List.mem_of_mem_take ht, hk, hv,
      (congrArg Error.position he).symm⟩

end TinyScript
