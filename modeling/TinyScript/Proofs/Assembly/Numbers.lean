import Mathlib.Data.Nat.Digits.Defs
import TinyScript.Proofs.Assembly.Run
import TinyScript.Proofs.Token.Scan

/-! Integer literals are exact. A number token is read for the integer that its text denotes, with
any number of zeros in front and with a sign or without, as far as 64 signed bits reach; where the
text denotes nothing or goes beyond, the event of the literal fails and names the text and where it
starts. -/

namespace TinyScript

namespace Text

/-- The number that a row of digits denotes: the last digit counts once, and each other one ten
times as much as the one after it. -/
def denoted (ds : List Char) : Nat := Nat.ofDigits 10 (ds.map digitValue).reverse

def IsRow (ds : List Char) : Prop := ds ≠ [] ∧ ∀ c ∈ ds, c.isDigit

/-- A row of digits, or one after a sign, and the integer it denotes. -/
inductive Denotes : List Char → Int → Prop
  | bare {ds : List Char} (h : IsRow ds) : Denotes ds (denoted ds)
  | plus {ds : List Char} (h : IsRow ds) : Denotes ('+' :: ds) (denoted ds)
  | minus {ds : List Char} (h : IsRow ds) : Denotes ('-' :: ds) (-denoted ds)

theorem decimalValue_eq_denoted (ds : List Char) : decimalValue ds = denoted ds := by
  unfold decimalValue denoted
  rw [Nat.ofDigits_eq_foldr, List.foldr_reverse, List.foldl_map]
  congr 1
  funext n d
  exact Nat.add_comm _ _

theorem digits?_eq_some_iff {ds : List Char} {n : Nat} :
    digits? ds = some n ↔ IsRow ds ∧ denoted ds = n := by
  simp [digits?, IsRow, decimalValue_eq_denoted]

theorem signed?_eq_some_iff {cs : List Char} {v : Int} : signed? cs = some v ↔ Denotes cs v := by
  constructor
  · intro h
    rw [signed?.eq_def] at h
    split at h
    all_goals
      obtain ⟨n, hn, rfl⟩ := Option.map_eq_some_iff.1 h
      obtain ⟨hrow, rfl⟩ := digits?_eq_some_iff.1 hn
    · exact .plus hrow
    · exact .minus hrow
    · exact .bare hrow
  · intro h
    cases h with
    | bare hrow => rw [signed?_digits hrow.1 hrow.2, decimalValue_eq_denoted]
    | plus hrow | minus hrow =>
      rw [signed?, digits?_eq_some_iff.2 ⟨hrow, rfl⟩]
      rfl

theorem Denotes.unique {cs : List Char} {v w : Int} (hv : Denotes cs v) (hw : Denotes cs w) :
    v = w := by
  rw [← signed?_eq_some_iff] at hv hw
  exact Option.some.inj (hv.symm.trans hw)

theorem int64?_eq_some_iff {s : String} {n : Int64} :
    int64? s = some n ↔ Denotes s.toList n.toInt := by
  rw [← signed?_eq_some_iff, int64?]
  cases signed? s.toList with
  | none => simp
  | some v =>
    simp only [Option.some_inj]
    by_cases hfits : fitsInt64 v
    · obtain ⟨hlower, hupper⟩ := fitsInt64_iff.1 hfits
      have hexact : (Int64.ofInt v).toInt = v := Int64.toInt_ofInt_of_le hlower (by omega)
      rw [if_pos hfits, Option.some_inj, ← Int64.toInt_inj, hexact]
    · rw [if_neg hfits]
      refine iff_of_false (Option.some_ne_none n).symm fun hv => hfits (fitsInt64_iff.2 ?_)
      have hlower := n.le_toInt
      have hupper := n.toInt_lt
      omega

end Text

namespace Assembly

variable {token : Token} {l : Literal}

/-- The event of a literal builds `l` of the token, whatever was built before. -/
def BuildsLiteral (token : Token) (l : Literal) : Prop :=
  ∀ (a : Assembly) (id : Serial) (depth : Nat), a.accept ⟨id, depth, .literal token⟩ =
    (.ok (), { a with pending := a.pending.insert id (.expr (.ofLiteral depth l)) })

/-- The event of a literal fails with `e` for the token, and leaves all as it was. -/
def RefusesLiteral (token : Token) (e : Error) : Prop :=
  ∀ (a : Assembly) (id : Serial) (depth : Nat),
    a.accept ⟨id, depth, .literal token⟩ = (.error (.error e), a)

theorem buildsLiteral_iff : BuildsLiteral token l ↔ literal token = .ok l := by
  constructor
  · intro h
    have hbuilt : outcome (handle ⟨0, 0, .literal token⟩) {} = _ := h {} 0 0
    rw [outcome_handle_literal] at hbuilt
    split at hbuilt
    · next v hv =>
      have hpending := congrArg (fun b => b.2.pending.get? 0) hbuilt
      simp only [Keyed.get?_insert, if_pos] at hpending
      obtain ⟨-, rfl⟩ := Expr.literal.inj (Node.expr.inj (Option.some.inj hpending))
      exact hv
    · cases hbuilt
  · intro h a id depth
    have haccept := outcome_handle_literal a id depth token
    rwa [h] at haccept

theorem refusesLiteral_of_eq {e : Error} (h : literal token = .error (.error e)) :
    RefusesLiteral token e := by
  intro a id depth
  have haccept := outcome_handle_literal a id depth token
  rwa [h] at haccept

theorem literal_number_iff (hkind : token.kind = .number) :
    literal token = .ok l ↔ ∃ n : Int64, l = .int n ∧ Text.Denotes token.value.toList n.toInt := by
  simp only [← Text.int64?_eq_some_iff, literal, hkind]
  cases Text.int64? token.value with
  | none => simp
  | some n => simp [eq_comm]

theorem refusesLiteral_number (hkind : token.kind = .number)
    (h : ∀ n : Int64, ¬ Text.Denotes token.value.toList n.toInt) :
    RefusesLiteral token ⟨.numberParseError token.value, token.span.start⟩ := by
  have hread : Text.int64? token.value = none :=
    Option.eq_none_iff_forall_ne_some.2 fun n hn => h n (Text.int64?_eq_some_iff.1 hn)
  apply refusesLiteral_of_eq
  simp only [literal, hkind, hread]

end Assembly

/-- A number token of digits only, however many, builds the integer they denote, and where that is
above 2⁶³ - 1 it is refused for its text, at its start. Of any number token an integer is built
exactly if the text denotes it and it is from -2⁶³ to 2⁶³ - 1; otherwise the token is refused in the
same way. -/
theorem integer_literals_are_exact {token : Token} (hkind : token.kind = .number) :
    (∀ ds, Text.IsRow ds → token.value = String.ofList ds →
      if Text.denoted ds ≤ 2 ^ 63 - 1 then
        ∃ n : Int64, n.toInt = Text.denoted ds ∧ Assembly.BuildsLiteral token (.int n)
      else Assembly.RefusesLiteral token
        ⟨.numberParseError (String.ofList ds), token.span.start⟩) ∧
    (∀ l, Assembly.BuildsLiteral token l ↔ ∃ (v : Int) (n : Int64),
      Text.Denotes token.value.toList v ∧ -2 ^ 63 ≤ v ∧ v ≤ 2 ^ 63 - 1 ∧ n.toInt = v ∧
        l = .int n) ∧
    ((∀ l, ¬ Assembly.BuildsLiteral token l) →
      Assembly.RefusesLiteral token ⟨.numberParseError token.value, token.span.start⟩) := by
  have hbuilds : ∀ l, Assembly.BuildsLiteral token l ↔
      ∃ n : Int64, l = .int n ∧ Text.Denotes token.value.toList n.toInt := fun l =>
    Assembly.buildsLiteral_iff.trans (Assembly.literal_number_iff hkind)
  have hrefuses : (∀ l, ¬ Assembly.BuildsLiteral token l) →
      Assembly.RefusesLiteral token ⟨.numberParseError token.value, token.span.start⟩ := fun hno =>
    Assembly.refusesLiteral_number hkind fun n hn => hno (.int n) ((hbuilds _).2 ⟨n, rfl, hn⟩)
  refine ⟨fun ds hrow hvalue => ?_, fun l => ?_, hrefuses⟩
  · have htext : token.value.toList = ds := by rw [hvalue, String.toList_ofList]
    rw [htext] at hbuilds
    split
    · next hle =>
      have hexact : (Int64.ofInt (Text.denoted ds)).toInt = Text.denoted ds :=
        Int64.toInt_ofInt_of_le (by omega) (by omega)
      refine ⟨_, hexact, (hbuilds _).2 ⟨_, rfl, ?_⟩⟩
      rw [hexact]
      exact .bare hrow
    · next hlarge =>
      rw [← hvalue]
      refine hrefuses fun l hl => ?_
      obtain ⟨n, -, hn⟩ := (hbuilds l).1 hl
      have hsame := hn.unique (.bare hrow)
      have hupper := n.toInt_lt
      omega
  · rw [hbuilds]
    constructor
    · rintro ⟨n, rfl, hn⟩
      have hupper := n.toInt_lt
      exact ⟨n.toInt, n, hn, n.le_toInt, by omega, rfl, rfl⟩
    · rintro ⟨v, n, hv, -, -, rfl, rfl⟩
      exact ⟨n, rfl, hv⟩

def numberToken (value : String) : Token :=
  ⟨.number, value, .atBytes "shell" 7 (7 + Text.byteLength value.toList)⟩

theorem integer_literals_at_the_limits :
    (numberToken "009223372036854775807").kind = .number ∧
      Assembly.BuildsLiteral (numberToken "009223372036854775807") (.int Int64.maxValue) ∧
      Assembly.RefusesLiteral (numberToken "9223372036854775808")
        ⟨.numberParseError "9223372036854775808", .atByte "shell" 7⟩ ∧
      Assembly.BuildsLiteral (numberToken "-9223372036854775808") (.int Int64.minValue) ∧
      ∀ l, ¬ Assembly.BuildsLiteral (numberToken "-9223372036854775809") l := by
  have hlargest : Text.denoted "009223372036854775807".toList = 2 ^ 63 - 1 := by decide
  have hover : Text.denoted "9223372036854775808".toList = 2 ^ 63 := by decide
  have hunder : Text.denoted "9223372036854775809".toList = 2 ^ 63 + 1 := by decide
  refine ⟨rfl, ?_, ?_, ?_, ?_⟩
  · have h := (@integer_literals_are_exact (numberToken "009223372036854775807") rfl).1
      "009223372036854775807".toList ⟨by decide, by simp⟩ String.ofList_toList.symm
    rw [hlargest, if_pos (Nat.le_refl _)] at h
    obtain ⟨n, hn, hbuilds⟩ := h
    obtain rfl : n = Int64.maxValue := Int64.toInt_inj.1 hn
    exact hbuilds
  · have h := (@integer_literals_are_exact (numberToken "9223372036854775808") rfl).1
      "9223372036854775808".toList ⟨by decide, by simp⟩ String.ofList_toList.symm
    rwa [hover, if_neg (by decide), String.ofList_toList] at h
  · have hdenotes := @Text.Denotes.minus "9223372036854775808".toList ⟨by decide, by simp⟩
    rw [hover] at hdenotes
    exact ((integer_literals_are_exact rfl).2.1 _).2
      ⟨_, Int64.minValue, hdenotes, by decide, by decide, rfl, rfl⟩
  · intro l hl
    obtain ⟨v, n, hv, hlower, -⟩ := ((integer_literals_are_exact rfl).2.1 l).1 hl
    have hdenotes := @Text.Denotes.minus "9223372036854775809".toList ⟨by decide, by simp⟩
    rw [hunder] at hdenotes
    have hsame := hv.unique hdenotes
    omega

end TinyScript
