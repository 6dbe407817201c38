import Mathlib.Data.List.Basic
import TinyScript.Proofs.Token.Scan

/-! Scanning goes line by line. A line feed after a text that has tokens changes nothing of what is
taken before it, so a text that follows it is scanned as it is by itself, with every place moved on
by the bytes that stand before it. -/

namespace TinyScript

namespace Pattern

variable {cs text rest : List Char}

/-- A matcher that takes the same from a text when a line feed comes after it. -/
def Steady (f : List Char → Option (List Char × List Char)) (cs : List Char) : Prop :=
  ∀ after, f (cs ++ '\n' :: after) = (f cs).map fun s => (s.1, s.2 ++ '\n' :: after)

theorem takeWhile_append_newline {p : Char → Bool} (hp : p '\n' = false) (cs after : List Char) :
    (cs ++ '\n' :: after).takeWhile p = cs.takeWhile p := by
  induction cs with
  | nil => simp [hp]
  | cons c cs ih =>
    rw [List.cons_append, List.takeWhile_cons, List.takeWhile_cons, ih]

theorem dropWhile_append_newline {p : Char → Bool} (hp : p '\n' = false) (cs after : List Char) :
    (cs ++ '\n' :: after).dropWhile p = cs.dropWhile p ++ '\n' :: after := by
  induction cs with
  | nil => simp [hp]
  | cons c cs ih =>
    rw [List.cons_append, List.dropWhile_cons, List.dropWhile_cons, ih]
    split
    · rfl
    · rfl

theorem steady_run? {first more : Char → Bool} (hmore : more '\n' = false) (c : Char)
    (cs : List Char) : Steady (run? first more) (c :: cs) := by
  intro after
  rw [List.cons_append, run?, run?, takeWhile_append_newline hmore, dropWhile_append_newline hmore]
  split
  · rfl
  · rfl

theorem steady_comment? (c : Char) (cs : List Char) : Steady comment? (c :: cs) := by
  intro after
  by_cases hc : c = '/'
  · subst hc
    cases cs with
    | nil => rfl
    | cons d cs =>
      by_cases hd : d = '/'
      · subst hd
        simp only [List.cons_append, comment?, Option.map_some,
          takeWhile_append_newline (p := (· ≠ '\n')) rfl,
          dropWhile_append_newline (p := (· ≠ '\n')) rfl]
      · simp [comment?, hd]
  · simp [comment?, hc]

theorem isPrefixOf?_append_newline (h : '\n' ∉ text) (cs after : List Char) :
    text.isPrefixOf? (cs ++ '\n' :: after) =
      (text.isPrefixOf? cs).map (· ++ '\n' :: after) := by
  induction text generalizing cs with
  | nil => rfl
  | cons c text ih =>
    obtain ⟨hc, htext⟩ := not_or.1 (mt List.mem_cons.2 h)
    cases cs with
    | nil => simp [List.isPrefixOf?, Ne.symm hc]
    | cons d cs =>
      rw [List.cons_append, List.isPrefixOf?, List.isPrefixOf?, ih htext]
      split
      · rfl
      · rfl

theorem steady_exactly? (h : '\n' ∉ text) (cs : List Char) : Steady (exactly? text) cs := by
  intro after
  rw [exactly?, exactly?, isPrefixOf?_append_newline h, Option.map_map, Option.map_map]
  rfl

theorem ne_backslash {c : Char} (hlast : c = '\\' → cs = [] → False)
    (hpair : ∀ d ds, c = '\\' → cs = d :: ds → False) : c ≠ '\\' := by
  cases cs with
  | nil => exact fun hc => hlast hc rfl
  | cons d ds => exact fun hc => hpair d ds hc rfl

/-- The inside of a string. A backslash takes the character after it along, which is on the same
line; other than so there is no quote in it. -/
inductive Inside : List Char → Prop
  | nil : Inside []
  | plain {c : Char} {cs : List Char} (hquote : c ≠ '"') (hbackslash : c ≠ '\\') (h : Inside cs) :
      Inside (c :: cs)
  | pair {c : Char} {cs : List Char} (hline : c ≠ '\n') (h : Inside cs) : Inside ('\\' :: c :: cs)

theorem inside_of_closing? (h : closing? cs = some (text, rest)) : Inside text := by
  fun_induction closing? cs generalizing text rest with
  | case1 | case3 | case4 => cases h
  | case2 cs =>
    cases h
    exact .nil
  | case5 c cs hc ih =>
    obtain ⟨s, hs, he⟩ := Option.map_eq_some_iff.1 h
    cases he
    exact .pair hc (ih hs)
  | case6 c cs hquote hlast hpair ih =>
    obtain ⟨s, hs, he⟩ := Option.map_eq_some_iff.1 h
    cases he
    exact .plain hquote (ne_backslash hlast hpair) (ih hs)

theorem closing?_of_inside {raw : List Char} (h : Inside raw) (after : List Char) :
    closing? (raw ++ '"' :: after) = some (raw, after) := by
  induction h with
  | nil => rfl
  | plain hquote hbackslash _ ih =>
    rw [List.cons_append, closing?_cons hquote hbackslash, ih]
    rfl
  | pair hline _ ih =>
    rw [List.cons_append, List.cons_append, closing?, if_neg hline, ih]
    rfl

theorem closing?_append_right (h : closing? cs = some (text, rest)) (after : List Char) :
    closing? (cs ++ after) = some (text, rest ++ after) := by
  rw [← closing?_append h, List.append_assoc]
  exact closing?_of_inside (inside_of_closing? h) (rest ++ after)

theorem steady_string? {c : Char} {cs : List Char} (h : c = '"' → closing? cs ≠ none) :
    Steady string? (c :: cs) := by
  intro after
  by_cases hc : c = '"'
  · subst hc
    obtain ⟨p, hp⟩ := Option.ne_none_iff_exists'.1 (h rfl)
    simp [string?, hp, closing?_append_right hp]
  · simp [string?, hc]

theorem mark_not_mem_newline {k : TokenKind} {first : Char} {more : List Char}
    (h : mark k first more ∈ table) : '\n' ∉ first :: more := by
  have hall : table.all (fun
    | mark _ first more => '\n' ∉ first :: more
    | _ => true) := by decide
  exact of_decide_eq_true (List.all_eq_true.1 hall _ h)

theorem steady_split? {p : Pattern} (hp : p ∈ table) {c : Char} (hblank : Text.isBlank c = false)
    (hquote : c = '"' → closing? cs ≠ none) : Steady p.split? (c :: cs) := by
  cases p with
  | word => exact steady_run? rfl c cs
  | digits => exact steady_run? rfl c cs
  | blanks => exact fun after => by simp [split?, run?, hblank]
  | quoted => exact steady_string? hquote
  | comment => exact steady_comment? c cs
  | mark k first more => exact steady_exactly? (mark_not_mem_newline hp) (c :: cs)

theorem first?_of_closing?_eq_none (h : closing? cs = none) : first? ('"' :: cs) = none := by
  have hstring : split? .quoted ('"' :: cs) = none := by simp [split?, string?, h]
  simp only [first?, table, List.findSome?_cons, hstring]
  rfl

theorem first?_append_newline {p : Pattern} {c : Char} (hblank : Text.isBlank c = false)
    (h : first? (c :: cs) = some (p, text, rest)) (after : List Char) :
    first? (c :: cs ++ '\n' :: after) = some (p, text, rest ++ '\n' :: after) := by
  have hquote : c = '"' → closing? cs ≠ none := by
    rintro rfl hnone
    rw [first?_of_closing?_eq_none hnone] at h
    cases h
  obtain ⟨before, later, htable, hs, hnone⟩ := first?_eq_some_iff.1 h
  have hsteady : ∀ r ∈ table, Steady r.split? (c :: cs) :=
    fun r hr => steady_split? hr hblank hquote
  refine first?_eq_some_iff.2 ⟨before, later, htable, ?_, fun r hr => ?_⟩
  · rw [hsteady p (by simp [htable]), hs]
    rfl
  · rw [hsteady r (by simp [htable, hr]), hnone r hr]
    rfl

end Pattern

namespace Token

variable {file : String} {offset : Nat} {cs : List Char} {ts : List Token}

theorem scan_newline (file : String) (offset : Nat) (after : List Char) :
    scan file offset ('\n' :: after) = scan file (offset + 1) after := by
  have hblank : ∀ c ∈ ['\n'], Text.isBlank c := List.forall_mem_singleton.2 rfl
  exact scan_blanks hblank file offset after

theorem scan_step_newline {p : Pattern} {text rest : List Char}
    (h : Pattern.first? cs = some (p, text, rest)) (file : String) (offset : Nat)
    (after : List Char) :
    scan file offset (cs ++ '\n' :: after) =
      (scan file (offset + Text.byteLength text) (rest ++ '\n' :: after)).map fun ts =>
        (ofMatch? file offset p text).toList ++ ts := by
  obtain ⟨-, hs⟩ := Pattern.first?_split h
  obtain ⟨hne, rfl⟩ := Pattern.split?_cuts p hs
  obtain ⟨c, run, rfl⟩ := List.exists_cons_of_ne_nil hne
  cases hblank : Text.isBlank c with
  | false => exact scan_of_first (Pattern.first?_append_newline hblank h after)
  | true =>
    -- the line feed makes a run of blanks longer if the text ends with one
    rw [List.cons_append, Pattern.first?_of_isBlank hblank] at h
    obtain rfl : Pattern.blanks = p := congrArg Prod.fst (Option.some.inj h)
    have hrun : Pattern.run? Text.isBlank Text.isBlank (c :: run ++ rest) =
        some (c :: run, rest) := hs
    rw [List.append_assoc, scan_blanks (Pattern.run?_forall hrun fun _ => id)]
    exact (congrFun Except.map_id _).symm

theorem scan_append_newline (h : scan file offset cs = .ok ts) :
    ∃ us place, ts = us ++ [eofAt place] ∧ ∀ after,
      scan file offset (cs ++ '\n' :: after) =
        (scan file (offset + Text.byteLength cs + 1) after).map (us ++ ·) := by
  fun_induction scan file offset cs generalizing ts with
  | case1 offset cs p text rest hfirst _ ih =>
    obtain ⟨ts', hscan, rfl⟩ := exists_of_map_eq_ok h
    obtain ⟨us, place, rfl, hus⟩ := ih hscan
    refine ⟨(ofMatch? file offset p text).toList ++ us, place, by simp, fun after => ?_⟩
    obtain ⟨-, hs⟩ := Pattern.first?_split hfirst
    obtain ⟨-, rfl⟩ := Pattern.split?_cuts p hs
    rw [scan_step_newline hfirst, hus, Text.byteLength_append, ← Nat.add_assoc offset]
    cases scan file (offset + Text.byteLength text + Text.byteLength rest + 1) after with
    | error e => rfl
    | ok vs => exact congrArg Except.ok (List.append_assoc _ _ _).symm
  | case2 offset _ =>
    obtain rfl := Except.ok.inj h
    refine ⟨[], _, rfl, fun after => ?_⟩
    rw [List.nil_append, scan_newline]
    exact (congrFun Except.map_id _).symm
  | case3 => cases h

end Token

def Position.later (bytes : Nat) (p : Position) : Position :=
  { p with offset := p.offset + UInt32.ofNat bytes }

def Span.later (bytes : Nat) (s : Span) : Span := ⟨s.start.later bytes, s.stop.later bytes⟩

def Token.later (bytes : Nat) (t : Token) : Token := { t with span := t.span.later bytes }

def Error.later (bytes : Nat) (e : Error) : Error := { e with position := e.position.later bytes }

theorem Position.later_atByte (bytes : Nat) (file : String) (n : Nat) :
    (atByte file n).later bytes = atByte file (n + bytes) := by
  rw [atByte, atByte, later, UInt32.ofNat_add]

theorem Token.toList_ofMatch?_later (file : String) (offset bytes : Nat) (p : Pattern)
    (text : List Char) :
    (ofMatch? file (offset + bytes) p text).toList =
      (ofMatch? file offset p text).toList.map (later bytes) := by
  rw [ofMatch?, ofMatch?]
  cases p.lexeme? text with
  | none => rfl
  | some l =>
    simp [later, Span.later, Span.atBytes, Position.later_atByte, Nat.add_right_comm]

theorem Token.scan_add (file : String) (offset bytes : Nat) (cs : List Char) :
    scan file (offset + bytes) cs =
      match scan file offset cs with
      | .ok ts => .ok (ts.map (later bytes))
      | .error e => .error (e.later bytes) := by
  fun_induction scan file offset cs with
  | case1 offset cs p text rest hfirst _ ih =>
    rw [scan_of_first hfirst, Nat.add_right_comm, ih, toList_ofMatch?_later]
    cases scan file (offset + Text.byteLength text) rest with
    | error e => rfl
    | ok ts => exact congrArg Except.ok List.map_append.symm
  | case2 offset _ =>
    rw [scan_nil, ← Position.later_atByte]
    rfl
  | case3 offset c cs hnone =>
    rw [scan_of_first_eq_none hnone, ← Position.later_atByte]
    rfl

/-- A text that has tokens, a line feed and any text have the tokens of the one without its end, and
the tokens of the other further on; or where the other has an error, that error further on. -/
theorem tokenize_append_newline {source : String} {fileName : Option String} {ts : List Token}
    (h : tokenize source fileName = .ok ts) :
    ∃ us place, ts = us ++ [Token.eofAt place] ∧ ∀ after : String,
      tokenize (source ++ "\n" ++ after) fileName =
        match tokenize after fileName with
        | .ok vs => .ok (us ++ vs.map (Token.later (Text.byteLength source.toList + 1)))
        | .error e => .error (e.later (Text.byteLength source.toList + 1)) := by
  obtain ⟨us, place, hts, hus⟩ := Token.scan_append_newline h
  refine ⟨us, place, hts, fun after => ?_⟩
  have htext : (source ++ "\n" ++ after).toList = source.toList ++ '\n' :: after.toList := by simp
  rw [tokenize, tokenize, htext, hus, Nat.add_assoc, Token.scan_add]
  cases Token.scan (fileName.getD defaultFile) 0 after.toList with
  | error e => rfl
  | ok vs => rfl

def remarked : String := "a = \"\\\"\" // é"

def remarkedTokens : List Token :=
  [⟨.identifier, "a", .atBytes "shell" 0 1⟩, ⟨.assignment, "=", .atBytes "shell" 2 3⟩,
    ⟨.string, "\"", .atBytes "shell" 4 8⟩]

theorem tokenize_append_newline_remarked :
    tokenize remarked none = .ok (remarkedTokens ++ [.eofAt (.atByte "shell" 14)]) ∧
      tokenize (remarked ++ "\n" ++ "b") none = .ok (remarkedTokens ++
        [⟨.identifier, "b", .atBytes "shell" 15 16⟩, .eofAt (.atByte "shell" 16)]) ∧
      tokenize (remarked ++ "\n" ++ "b #") none =
        .error ⟨.unrecognisedToken "#", .atByte "shell" 17⟩ := by
  have htokens : tokenize remarked none =
      .ok (remarkedTokens ++ [.eofAt (.atByte "shell" 14)]) := by decide +kernel
  have hword : tokenize "b" none =
      .ok [⟨.identifier, "b", .atBytes "shell" 0 1⟩, .eofAt (.atByte "shell" 1)] := by decide +kernel
  have hstray : tokenize "b #" none = .error ⟨.unrecognisedToken "#", .atByte "shell" 2⟩ := by decide +kernel
  obtain ⟨us, place, hus, hafter⟩ := tokenize_append_newline htokens
  obtain rfl : remarkedTokens = us := List.append_inj_left' hus rfl
  refine ⟨htokens, (hafter "b").trans ?_, (hafter "b #").trans ?_⟩
  · rw [hword]
    rfl
  · rw [hstray]
    rfl

end TinyScript
