import Mathlib.Data.Char
import TinyScript.Proofs.Printing.DeriveProgram
import TinyScript.Proofs.Printing.Lexing
import TinyScript.Proofs.Reading.Viable

/-! The text of a type, and reading it back. Every type has a text, also those that cannot be
written in a program: reading refuses such a text at the name of the unknown type or else at its
innermost `map`. What can be read at all has exactly the text it was read from. -/

namespace TinyScript

namespace DataType

def innermost : DataType → DataType
  | collection _ element => element.innermost
  | t => t

def families : DataType → List Family
  | collection family element => family :: element.families
  | _ => []

theorem writable_iff (t : DataType) :
    t.writable ↔ t.innermost ≠ unknown ∧ Family.map ∉ t.families := by
  induction t with
  | bool | int | str | unknown => decide
  | collection family element ih => cases family <;> simp [writable, innermost, families, ih]

/-- The tokens of the text of a type. -/
def shown : DataType → List Lexeme
  | collection family element =>
    (.identifier, family.name) :: fixed .less :: (element.shown ++ [fixed .greater])
  | t => [(.identifier, t.render)]

theorem shown_eq_lexemes {t : DataType} (h : t.writable) : t.shown = t.lexemes := by
  induction t with
  | bool | int | str => rfl
  | unknown => cases h
  | collection family element ih =>
    have hw : element.writable := by
      cases family with
      | list | set => exact h
      | map => cases h
    rw [shown, lexemes, ih hw]

theorem value_ne_map {t : DataType} (h : Family.map ∉ t.families) :
    ∀ l ∈ t.shown, l.2 ≠ "map" := by
  induction t with
  | bool | int | str | unknown => decide
  | collection family element ih =>
    obtain ⟨hfamily, helement⟩ := not_or.1 (mt List.mem_cons.2 h)
    have hname : family.name ≠ "map" := by
      cases family with
      | list | set => decide
      | map => exact absurd rfl hfamily
    simp only [shown, List.forall_mem_cons, List.forall_mem_append]
    exact ⟨hname, by decide, ih helement, by decide⟩

theorem toList_render_collection (family : Family) (element : DataType) :
    (collection family element).render.toList =
      family.name.toList ++ '<' :: (element.render.toList ++ ['>']) := by
  simp [render]

theorem render_head (t : DataType) : ∃ c cs, t.render.toList = c :: cs ∧ c ≠ '=' := by
  cases t with
  | bool | int | str | unknown => exact ⟨_, _, rfl, by decide⟩
  | collection family element =>
    rw [toList_render_collection]
    cases family <;> exact ⟨_, _, rfl, by decide⟩

end DataType

theorem Pattern.first?_less {c : Char} (hc : c ≠ '=') (cs : List Char) :
    first? ('<' :: c :: cs) = some (.mark .less '<' [], ['<'], c :: cs) := by
  have hnot : exactly? ['<', '='] ('<' :: c :: cs) = none := by
    simp [exactly?, List.isPrefixOf?, hc.symm]
  simp only [first?, table, List.findSome?_cons, split?, hnot]
  rfl

def Scans (cs : List Char) (ls : List Lexeme) (rest : List Char) : Prop :=
  ∀ file offset, ∃ us offset', us.map Token.lexeme = ls ∧
    Token.scan file offset cs = (Token.scan file offset' rest).map (us ++ ·)

namespace Scans

variable {cs mid rest : List Char} {ls ls' : List Lexeme}

theorem one {text : List Char} {p : Pattern} {l : Lexeme}
    (hfirst : Pattern.first? cs = some (p, text, rest)) (hlexeme : p.lexeme? text = some l) :
    Scans cs [l] rest := by
  intro file offset
  obtain ⟨u, offset', rfl, hscan⟩ := Token.scan_lexeme hfirst hlexeme file offset
  exact ⟨[u], offset', rfl, hscan⟩

theorem trans (h : Scans cs ls mid) (h' : Scans mid ls' rest) : Scans cs (ls ++ ls') rest := by
  intro file offset
  obtain ⟨us, offset₁, rfl, hus⟩ := h file offset
  obtain ⟨vs, offset₂, rfl, hvs⟩ := h' file offset₁
  refine ⟨us ++ vs, offset₂, List.map_append, ?_⟩
  rw [hus, hvs]
  cases Token.scan file offset₂ rest with
  | ok ts => exact congrArg Except.ok (List.append_assoc us vs ts).symm
  | error e => rfl

end Scans

namespace DataType

theorem scans_render (t : DataType) (n : Nat) :
    Scans (t.render.toList ++ List.replicate n '>') t.shown (List.replicate n '>') := by
  induction t generalizing n with
  | bool | int | str | unknown => cases n <;> exact .one rfl rfl
  | collection family element ih =>
    have hname (rest : List Char) :
        Scans (family.name.toList ++ '<' :: rest) [(.identifier, family.name)] ('<' :: rest) := by
      cases family <;> exact .one rfl rfl
    have hopening : Scans ('<' :: (element.render.toList ++ List.replicate (n + 1) '>'))
        [fixed .less] (element.render.toList ++ List.replicate (n + 1) '>') := by
      obtain ⟨c, cs, hcs, hc⟩ := element.render_head
      rw [hcs]
      exact .one (Pattern.first?_less hc _) rfl
    have hclosing : Scans (List.replicate (n + 1) '>') [fixed .greater] (List.replicate n '>') := by
      cases n <;> exact .one rfl rfl
    have hall := (hname _).trans (hopening.trans ((ih (n + 1)).trans hclosing))
    simpa [toList_render_collection, shown, List.replicate_succ] using hall

theorem tokenize_render (t : DataType) (source : Option String) :
    ∃ us p, tokenize t.render source = .ok (us ++ [Token.eofAt p]) ∧
      us.map Token.lexeme = t.shown := by
  obtain ⟨us, offset, hus, hscan⟩ := t.scans_render 0 (source.getD defaultFile) 0
  rw [List.replicate_zero, List.append_nil, Token.scan_nil] at hscan
  exact ⟨us, _, hscan, hus⟩

theorem exists_of_shown {family : Family} {element : DataType} {us : List Token}
    (h : us.map Token.lexeme = (collection family element).shown) :
    ∃ name opening vs closing, us = name :: opening :: (vs ++ [closing]) ∧
      name.lexeme = (.identifier, family.name) ∧ opening.lexeme = fixed .less ∧
      vs.map Token.lexeme = element.shown ∧ closing.lexeme = fixed .greater := by
  obtain ⟨name, us, rfl, hname, hus⟩ := Token.exists_first h
  obtain ⟨opening, us, rfl, hopening, hus⟩ := Token.exists_first hus
  obtain ⟨vs, closing, rfl, hvs, hclosing⟩ := Token.exists_last hus
  exact ⟨name, opening, vs, closing, rfl, hname, hopening, hvs, hclosing⟩

end DataType

def lastNamed? (text : String) (us : List Token) : Option Token :=
  us.reverse.find? fun u => u.value = text

theorem lastNamed?_collection {text : String} {closing : Token} (h : closing.value ≠ text)
    (name opening : Token) (us : List Token) :
    lastNamed? text (name :: opening :: (us ++ [closing])) =
      (lastNamed? text us).or (lastNamed? text [name, opening]) := by
  simp [lastNamed?, h]

theorem Family.not_primitive (f : Family) : DataType.ofName? f.name = none := by cases f <;> rfl

namespace Reader

open DataType

section Refusing

variable {cause : String → Cause} {text : String} {us vs : List Token} {t : DataType}

/-- Reading a type from `us` fails for the last token with the given text, and at that token. -/
def RefusedAtLast (cause : String → Cause) (text : String) (us : List Token) : Prop :=
  ∃ u, lastNamed? text us = some u ∧ Refused ⟨cause text, u.span.start⟩ us

theorem RefusedAtLast.collection (h : RefusedAtLast cause text vs) {family : Family}
    {name opening closing : Token} (hname : name.lexeme = (.identifier, family.name))
    (hopening : opening.lexeme = fixed .less) (hclosing : closing.value ≠ text) :
    RefusedAtLast cause text (name :: opening :: (vs ++ [closing])) := by
  obtain ⟨u, hu, hrefused⟩ := h
  have hvalue : (Leaf.ofLexeme hname).token.value = family.name := Token.value_of_lexeme hname
  have hprimitive : DataType.ofName? (Leaf.ofLexeme hname).token.value = none :=
    hvalue.symm ▸ family.not_primitive
  have hfamily : Family.ofName? (Leaf.ofLexeme hname).token.value = some family :=
    hvalue.symm ▸ family.ofName?_name
  refine ⟨u, ?_, (hrefused.within hprimitive hfamily (.ofLexeme hopening)).append [closing]⟩
  rw [lastNamed?_collection hclosing, hu, Option.some_or]

theorem refused_of_unknown (h : t.innermost = .unknown) (hus : us.map Token.lexeme = t.shown) :
    RefusedAtLast .unknownType "unknown" us := by
  induction t generalizing us with
  | bool | int | str => cases h
  | unknown =>
    obtain ⟨u, us, rfl, hu, hnil⟩ := Token.exists_first hus
    obtain rfl := List.map_eq_nil_iff.1 hnil
    have hvalue : (Leaf.ofLexeme hu).token.value = "unknown" := Token.value_of_lexeme hu
    have hrefused := refused_name (hvalue ▸ rfl : ofName? (Leaf.ofLexeme hu).token.value = none)
      (hvalue ▸ rfl)
    rw [hvalue] at hrefused
    exact ⟨u, List.find?_cons_of_pos (decide_eq_true hvalue), hrefused⟩
  | collection family element ih =>
    obtain ⟨name, opening, vs, closing, rfl, hname, hopening, hvs, hclosing⟩ := exists_of_shown hus
    refine (ih h hvs).collection hname hopening ?_
    rw [Token.value_of_lexeme hclosing]
    decide

theorem refused_of_map (h : t.innermost ≠ .unknown) (hmap : Family.map ∈ t.families)
    (hus : us.map Token.lexeme = t.shown) : RefusedAtLast .unsupportedCollection "map" us := by
  induction t generalizing us with
  | bool | int | str | unknown => cases hmap
  | collection family element ih =>
    obtain ⟨name, opening, vs, closing, rfl, hname, hopening, hvs, hclosing⟩ := exists_of_shown hus
    have hgreater : closing.value ≠ "map" := by
      rw [Token.value_of_lexeme hclosing]
      decide
    by_cases hinner : Family.map ∈ element.families
    · exact (ih h hinner hvs).collection hname hopening hgreater
    · -- nothing within is in the way, so it is this `map` that is read to its end and refused
      obtain rfl : Family.map = family := (List.mem_cons.1 hmap).resolve_right hinner
      have hwritable := element.writable_iff.2 ⟨h, hinner⟩
      have hnone : lastNamed? "map" vs = none := by
        refine List.find?_eq_none.2 fun u hu => ?_
        have hshown : u.lexeme ∈ element.shown := hvs ▸ List.mem_map_of_mem (List.mem_reverse.1 hu)
        have hne : u.value ≠ "map" := value_ne_map hinner _ hshown
        simpa using hne
      have hlast : lastNamed? "map" (name :: opening :: (vs ++ [closing])) = some name := by
        rw [lastNamed?_collection hgreater, hnone, Option.none_or]
        have hname := Token.value_of_lexeme hname
        have hopening := Token.value_of_lexeme hopening
        simp [lastNamed?, hname, hopening, Family.name, TokenKind.spelling]
      obtain ⟨tree, rfl, -⟩ := derived hwritable (hvs.trans (shown_eq_lexemes hwritable))
      have hvalue : (Leaf.ofLexeme hname).token.value = "map" := Token.value_of_lexeme hname
      have hrefused := refusedAs_map
        (hvalue ▸ rfl : DataType.ofName? (Leaf.ofLexeme hname).token.value = none)
        (hvalue ▸ rfl : Family.ofName? (Leaf.ofLexeme hname).token.value = some .map)
        (fun _ => rfl) (.ofLexeme hopening) tree (.ofLexeme hclosing)
      unfold RefusedAs at hrefused
      rw [hvalue] at hrefused
      exact ⟨name, hlast, hrefused⟩

end Refusing

section Reading

theorem typeWithin_congr {g h : Grammar} (hgh : g.opensType = h.opensType) (n : Nat) :
    typeWithin g n = typeWithin h n := by
  induction n with
  | zero => rfl
  | succ n ih => rw [typeWithin, typeWithin, hgh, ih]

theorem readType_congr {g h : Grammar} (hgh : g.opensType = h.opensType) :
    readType g = readType h := by
  simp only [readType, typeWithin_congr hgh]

theorem outcome_readType_of_writable {t : DataType} (h : t.writable) {us rest : List Token}
    (hus : us.map Token.lexeme = t.shown) {r : Reader} (hc : r.Closed)
    (htokens : r.tokens = us ++ rest) :
    ∃ r', outcome (readType .standard) r = (.ok t, r') ∧ r'.tokens = rest := by
  obtain ⟨tree, rfl, rfl⟩ := derived h (hus.trans (shown_eq_lexemes h))
  have hleads := tree.typeWithin_takes ⟨hc, htokens, rfl, rfl⟩ (Nat.lt_succ_self _)
  rcases ho : outcome (typeWithin .standard (r.upcoming.length + 1)) r with ⟨result, r'⟩
  cases result with
  | error e => exact (hleads.bad_of ho).elim
  | ok type =>
    obtain ⟨rfl, p⟩ := hleads.ok_of ho
    exact ⟨r', (outcome_readType r).trans ho,
      List.append_cancel_left (p.tokens.symm.trans htokens)⟩

theorem namedTypeOf_writable {element : ReadM DataType}
    (he : ∀ r, Leads element r (fun t _ => t.writable) fun _ _ => True) (r : Reader) :
    Leads (namedTypeOf element) r (fun t _ => t.writable) fun _ _ => True := by
  refine Leads.bind (Leads.trivial.mono (fun name r₁ _ => ?_) fun _ _ => id)
  split
  · next t ht =>
    obtain ⟨p, -, rfl⟩ := DataType.ofName?_eq_some ht
    exact Leads.pure (by cases p <;> rfl)
  split
  · exact Leads.throw True.intro
  · next family _ =>
    refine Leads.bind (Leads.trivial.mono (fun _ r₂ _ => ?_) fun _ _ => id)
    refine Leads.bind ((he r₂).mono (fun t r₃ ht => ?_) fun _ _ => id)
    refine Leads.bind (Leads.trivial.mono (fun _ r₄ _ => ?_) fun _ _ => id)
    cases family with
    | list | set => exact Leads.pure ht
    | map => exact Leads.throw True.intro

theorem typeWithin_writable (n : Nat) (r : Reader) :
    Leads (typeWithin .standard n) r (fun t _ => t.writable) fun _ _ => True := by
  induction n generalizing r with
  | zero => exact Leads.bind (Leads.of_ok (outcome_get r) (Leads.throw True.intro))
  | succ n ih =>
    refine leads_peek ?_
    split
    · exact namedTypeOf_writable ih r
    · exact Leads.of_error (outcome_fail r) True.intro

end Reading

end Reader

theorem TypeTree.join_values (tree : TypeTree)
    (hless : ∀ u ∈ tree.tokens, u.kind = .less → u.value = "<")
    (hgreater : ∀ u ∈ tree.tokens, u.kind = .greater → u.value = ">") :
    String.join (tree.tokens.map Token.value) = tree.type.render := by
  induction tree with
  | primitive p name =>
    have hrender : p.name = p.type.render := by cases p <;> rfl
    simp [tokens, type, name.isText, hrender]
  | collection c name opening element closing ih =>
    have hopening := hless opening.token (by simp [tokens]) opening.kind_eq
    have hclosing := hgreater closing.token (by simp [tokens]) closing.kind_eq
    have helement := ih (fun u hu => hless u (by simp [tokens, hu]))
      fun u hu => hgreater u (by simp [tokens, hu])
    have hname : c.name = c.family.name := by cases c <;> rfl
    simp [tokens, type, DataType.render, name.isText, hopening, hclosing, helement, hname,
      String.append_assoc]

open Reader

/-- A type is read back from its text, which is passed to its end, unless it is unknown within its
collections or has a `map` among them; it is refused then, at the unknown type or else at the
innermost `map`. Conversely, what is read is no such type, and the tokens passed make up its text,
if the brackets among them are spelled as such. -/
theorem type_text_round_trips {g : Grammar} (hg : g.opensType = Grammar.standard.opensType) :
    (∀ (t : DataType) (source : Option String) (file : String), ∃ (us : List Token) (p : Position),
      tokenize t.render source = Except.ok (us ++ [Token.eofAt p]) ∧ us.map Token.lexeme = t.shown ∧
      let read := outcome (readType g) (ofTokens (us ++ [Token.eofAt p]) file)
      (t.innermost ≠ .unknown → Family.map ∉ t.families →
        read.1 = .ok t ∧ read.2.tokens = [Token.eofAt p]) ∧
      (t.innermost = .unknown → ∃ u, lastNamed? "unknown" us = some u ∧
        read.1 = .error ⟨.unknownType "unknown", u.span.start⟩) ∧
      (t.innermost ≠ .unknown → Family.map ∈ t.families → ∃ u, lastNamed? "map" us = some u ∧
        read.1 = .error ⟨.unsupportedCollection "map", u.span.start⟩)) ∧
    ∀ (r r' : Reader) (t : DataType), outcome (readType g) r = (.ok t, r') →
      t.innermost ≠ .unknown ∧ Family.map ∉ t.families ∧
      (r.Closed → ∃ ts, r.tokens = ts ++ r'.tokens ∧
        ((∀ u ∈ ts, u.kind = .less → u.value = "<") →
          (∀ u ∈ ts, u.kind = .greater → u.value = ">") →
          String.join (ts.map Token.value) = t.render)) := by
  rw [readType_congr hg]
  constructor
  · intro t source file
    obtain ⟨us, p, htokenize, hus⟩ := t.tokenize_render source
    have htokens := tokens_of_ended (⟨.eofAt p, by simp, rfl⟩ : Ended (us ++ [.eofAt p])) file
    have hc := closed_ofTokens (us ++ [.eofAt p]) file
    refine ⟨us, p, htokenize, hus, fun hknown hmap => ?_, fun hunknown => ?_, fun hknown hmap => ?_⟩
    · obtain ⟨r', ho, hrest⟩ :=
        outcome_readType_of_writable (t.writable_iff.2 ⟨hknown, hmap⟩) hus hc htokens
      rw [ho]
      exact ⟨rfl, hrest⟩
    · obtain ⟨u, hu, hrefused⟩ := refused_of_unknown hunknown hus
      obtain ⟨r', ho⟩ := hrefused.outcome_readType hc htokens
      exact ⟨u, hu, congrArg Prod.fst ho⟩
    · obtain ⟨u, hu, hrefused⟩ := refused_of_map hknown hmap hus
      obtain ⟨r', ho⟩ := hrefused.outcome_readType hc htokens
      exact ⟨u, hu, congrArg Prod.fst ho⟩
  · intro r r' t ho
    rw [outcome_readType] at ho
    obtain ⟨hknown, hmap⟩ := t.writable_iff.1 ((typeWithin_writable _ r).ok_of ho)
    refine ⟨hknown, hmap, fun hc => ?_⟩
    obtain ⟨tree, rfl, p⟩ := (typeWithin_leads _ hc (Nat.lt_succ_self _)).ok_of ho
    exact ⟨tree.tokens, p.tokens, tree.join_values⟩

def setTokens : List Token :=
  [⟨.identifier, "set", default⟩, ⟨.less, "<", default⟩, ⟨.identifier, "int", default⟩,
    ⟨.greater, ">", default⟩]

theorem type_text_specimens :
    (∃ (us : List Token) (p : Position),
      tokenize "list<set<int>>" none = Except.ok (us ++ [Token.eofAt p]) ∧
      (outcome (readType Grammar.standard) (ofTokens (us ++ [Token.eofAt p]) "shell")).1 =
        .ok (DataType.collection .list (.collection .set .int))) ∧
    (∃ (us : List Token) (p : Position) (u : Token),
      tokenize "map<list<unknown>>" none = Except.ok (us ++ [Token.eofAt p]) ∧
      lastNamed? "unknown" us = some u ∧
      (outcome (readType Grammar.standard) (ofTokens (us ++ [Token.eofAt p]) "shell")).1 =
        .error ⟨.unknownType "unknown", u.span.start⟩) ∧
    (∃ (us : List Token) (p : Position) (u : Token),
      tokenize "map<list<map<str>>>" none = Except.ok (us ++ [Token.eofAt p]) ∧
      lastNamed? "map" us = some u ∧
      (outcome (readType Grammar.standard) (ofTokens (us ++ [Token.eofAt p]) "shell")).1 =
        .error ⟨.unsupportedCollection "map", u.span.start⟩) ∧
    ∃ (r' : Reader) (ts : List Token),
      outcome (readType Grammar.standard) (ofTokens setTokens "") =
        (.ok (DataType.collection .set .int), r') ∧
      (ofTokens setTokens "").tokens = ts ++ r'.tokens ∧
      String.join (ts.map Token.value) = "set<int>" := by
  obtain ⟨htext, hread⟩ := type_text_round_trips (g := .standard) rfl
  refine ⟨?_, ?_, ?_, ?_⟩
  · obtain ⟨us, p, htokens, -, hok, -⟩ :=
      htext (.collection .list (.collection .set .int)) none "shell"
    exact ⟨us, p, htokens, (hok (by decide) (by decide)).1⟩
  · obtain ⟨us, p, htokens, -, -, hunknown, -⟩ :=
      htext (.collection .map (.collection .list .unknown)) none "shell"
    obtain ⟨u, hu, he⟩ := hunknown rfl
    exact ⟨us, p, u, htokens, hu, he⟩
  · obtain ⟨us, p, htokens, -, -, -, hmap⟩ :=
      htext (.collection .map (.collection .list (.collection .map .str))) none "shell"
    obtain ⟨u, hu, he⟩ := hmap (by decide) (by decide)
    exact ⟨us, p, u, htokens, hu, he⟩
  · have ho : outcome (readType .standard) (ofTokens setTokens "") =
        (.ok (.collection .set .int), ofTokens [] "") := by rfl
    obtain ⟨-, -, hjoin⟩ := hread _ _ _ ho
    obtain ⟨ts, hts, hrender⟩ := hjoin (closed_ofTokens setTokens "")
    have hall : ∀ u ∈ (ofTokens setTokens "").tokens,
        (u.kind = .less → u.value = "<") ∧ (u.kind = .greater → u.value = ">") := by decide
    have hmem : ∀ u ∈ ts, u ∈ (ofTokens setTokens "").tokens := fun u hu =>
      hts ▸ List.mem_append_left _ hu
    exact ⟨_, ts, ho, hts,
      hrender (fun u hu => (hall u (hmem u hu)).1) fun u hu => (hall u (hmem u hu)).2⟩

end TinyScript
